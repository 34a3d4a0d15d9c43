/-! Binary64 numbers as exact values. A finite magnitude is a natural number of units of 2^-1074, and every
operation rounds its exact rational result once, to nearest with ties to even. -/
namespace Overdue

def unitsPerOne : Nat := Nat.pow 2 1074

/-- The units of 2^1024, which no finite magnitude reaches. -/
def unitsEnd : Nat := Nat.pow 2 2098

/-- The magnitudes that fit: at most 53 significant bits, below 2^1024. -/
def Representable (units : Nat) : Prop := Nat.pow 2 (units.log2 - 52) ∣ units ∧ units < unitsEnd

inductive Double where
  | nan
  | infinite (negative : Bool)
  | finite (negative : Bool) (units : Nat) (fits : Representable units)
deriving DecidableEq

/-- The integer nearest to `num / den`; a half goes to the even neighbour. -/
def roundHalfEven (num den : Nat) : Nat :=
  if 2 * (num % den) < den then num / den
  else if den < 2 * (num % den) then num / den + 1
  else num / den + num / den % 2

theorem roundHalfEven_le (num den : Nat) : roundHalfEven num den ≤ num / den + 1 := by
  unfold roundHalfEven
  split
  · omega
  · split <;> omega

theorem le_roundHalfEven (num den : Nat) : num / den ≤ roundHalfEven num den := by
  unfold roundHalfEven
  split
  · omega
  · split <;> omega

namespace Double

/-- The spacing of the representable magnitudes around `num / den`. -/
def spacing (num den : Nat) : Nat := Nat.pow 2 ((num / den).log2 - 52)

/-- `num / den` to 53 significant bits. -/
def significant (num den : Nat) : Nat := roundHalfEven num (den * spacing num den) * spacing num den

theorem rounded_le (num den : Nat) : roundHalfEven num (den * spacing num den) ≤ Nat.pow 2 53 := by
  unfold spacing
  simp only [Nat.pow_eq]
  generalize shifted : (num / den).log2 - 52 = s
  have quotient : num / (den * 2 ^ s) < 2 ^ 53 := by
    rw [← Nat.div_div_eq_div_mul]
    apply Nat.div_lt_of_lt_mul
    rw [← Nat.pow_add]
    exact Nat.lt_of_lt_of_le Nat.lt_log2_self (Nat.pow_le_pow_right (by omega) (by omega))
  exact Nat.le_trans (roundHalfEven_le num (den * 2 ^ s)) quotient

theorem significant_dvd (num den : Nat) : Nat.pow 2 ((significant num den).log2 - 52) ∣ significant num den := by
  have bound := rounded_le num den
  unfold significant
  generalize roundHalfEven num (den * spacing num den) = r at bound
  unfold spacing
  simp only [Nat.pow_eq] at bound ⊢
  generalize (num / den).log2 - 52 = s
  rcases Nat.lt_or_eq_of_le bound with small | full
  · by_cases zero : r = 0
    · simp [zero]
    have low : (r * 2 ^ s).log2 < 53 + s := by
      rw [Nat.log2_lt (Nat.mul_ne_zero zero (Nat.ne_of_gt (Nat.two_pow_pos s)))]
      rw [Nat.pow_add]
      exact Nat.mul_lt_mul_of_pos_right small (Nat.two_pow_pos s)
    exact Nat.dvd_trans (Nat.pow_dvd_pow 2 (by omega)) (Nat.dvd_mul_left _ _)
  · rw [full, ← Nat.pow_add, Nat.log2_two_pow]
    exact Nat.pow_dvd_pow 2 (by omega)

def nearest (negative : Bool) (num den : Nat) : Double :=
  if small : significant num den < unitsEnd then
    finite negative (significant num den) ⟨significant_dvd num den, small⟩
  else infinite negative

def ofRatio (negative : Bool) (num den : Nat) : Double := nearest negative (num * unitsPerOne) den

def ofInt (n : Int) : Double := ofRatio (n < 0) n.natAbs 1

def zero : Double := ofInt 0
def one : Double := ofInt 1

def isFinite : Double → Bool
  | finite .. => true
  | _ => false

def mul : Double → Double → Double
  | nan, _ => nan
  | _, nan => nan
  | infinite n, infinite m => infinite (n != m)
  | infinite n, finite m b _ => if b = 0 then nan else infinite (n != m)
  | finite n a _, infinite m => if a = 0 then nan else infinite (n != m)
  | finite n a _, finite m b _ => nearest (n != m) (a * b) (unitsPerOne)

def signed (negative : Bool) (units : Nat) : Int := if negative then -(units : Int) else units

/-- A difference of zero is negative only for `-0 - 0`. -/
def sub : Double → Double → Double
  | nan, _ => nan
  | _, nan => nan
  | infinite n, infinite m => if n = m then nan else infinite n
  | infinite n, finite .. => infinite n
  | finite .., infinite m => infinite !m
  | finite n a _, finite m b _ =>
    let difference := signed n a - signed m b
    nearest (if difference = 0 then n && !m else difference < 0) difference.natAbs 1

def neg : Double → Double
  | nan => nan
  | infinite n => infinite !n
  | finite n a fits => finite (!n) a fits

def add (a b : Double) : Double := a.sub b.neg

/-- The order of the values; nothing is below or above NaN, and the two zeros are equal. -/
def lt : Double → Double → Bool
  | nan, _ => false
  | _, nan => false
  | infinite n, infinite m => n && !m
  | infinite n, finite .. => n
  | finite .., infinite m => !m
  | finite n a _, finite m b _ => signed n a < signed m b

def notInfinite? : Double → Option Double
  | infinite _ => none
  | d => some d

/-- `num / den` for integers, rounded once; fails where the nearest value is infinite. -/
def quotient? (num : Int) (den : Nat) : Option Double := (ofRatio (num < 0) num.natAbs den).notInfinite?

def ceilUnits (units : Nat) : Nat := (units + (unitsPerOne - 1)) / unitsPerOne

/-- The least integer that is not below a magnitude; none is counted where it is not finite. -/
def ceil : Double → Nat
  | finite _ units _ => ceilUnits units
  | _ => 0

/-- The integer nearest to a magnitude of `units`; a half goes up. -/
def roundUnits (units : Nat) : Nat := (2 * units + unitsPerOne) / (2 * unitsPerOne)

def floorSigned (negative : Bool) (units : Nat) : Int := Int.fdiv (signed negative units) unitsPerOne

/-- The distance of a finite value from the integer next to it in the direction of zero. -/
def fractionPart : Double → Double
  | finite _ a _ => nearest false (a % unitsPerOne) 1
  | d => d

/-- Two decimal places, decided on the exact binary value. -/
def roundHundredths : Double → Double
  | finite n a _ => ofRatio n (roundHalfEven (a * 100) (unitsPerOne)) 100
  | d => d

end Double
end Overdue
