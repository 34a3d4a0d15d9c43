/-! Sorting by insertion, for a relation that says which of two values comes strictly before the other. Sorting
only changes the order: `sort_perm`. -/
namespace Overdue.Sorting

variable {α : Type}

/-- Puts a value before the first of a list that does not come before it. -/
def insert (before : α → α → Bool) (value : α) : List α → List α
  | [] => [value]
  | first :: others => if before first value then first :: insert before value others else value :: first :: others

def sort (before : α → α → Bool) (values : List α) : List α := values.foldr (insert before) []

theorem insert_perm (before : α → α → Bool) (value : α) (values : List α) :
    (insert before value values).Perm (value :: values) := by
  induction values with
  | nil => exact .refl _
  | cons first others ih =>
    unfold insert
    split
    · exact (ih.cons first).trans (.swap value first others)
    · exact .refl _

theorem sort_perm (before : α → α → Bool) (values : List α) : (sort before values).Perm values := by
  induction values with
  | nil => exact .refl _
  | cons value values ih => exact (insert_perm before value _).trans (ih.cons value)

@[simp] theorem mem_sort {before : α → α → Bool} {value : α} {values : List α} :
    value ∈ sort before values ↔ value ∈ values := (sort_perm before values).mem_iff

end Overdue.Sorting
