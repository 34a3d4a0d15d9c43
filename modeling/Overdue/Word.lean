/-! Words: the integers that 64 bits with a sign can hold. -/
namespace Overdue

/-- One more than the greatest word. -/
def wordEnd : Nat := Nat.pow 2 63

def fitsWord (n : Int) : Bool := decide (-(wordEnd : Int) ≤ n ∧ n < wordEnd)

end Overdue
