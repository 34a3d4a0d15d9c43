/-! Tables as lists of rows in increasing order of their keys, each key once. A row is put or erased by its key, and
the rows of all other keys are found as before. -/
namespace Overdue
namespace Table

variable {α : Type}

def find? (key : α → Int) (k : Int) (rows : List α) : Option α := rows.find? fun row => key row = k

/-- Puts a row at its place, over a row with its key. -/
def put (key : α → Int) (row : α) : List α → List α
  | [] => [row]
  | first :: others =>
    if key row < key first then row :: first :: others
    else if key row = key first then row :: others
    else first :: put key row others

def erase (key : α → Int) (k : Int) (rows : List α) : List α := rows.filter fun row => key row ≠ k

def nextKey (key : α → Int) (rows : List α) : Int := rows.foldl (fun largest row => max largest (key row)) 0 + 1

theorem find?_key {key : α → Int} {k : Int} {rows : List α} {row : α} (found : find? key k rows = some row) :
    key row = k := by
  simpa using List.find?_some found

@[simp] theorem find?_put_self (key : α → Int) (row : α) (rows : List α) :
    find? key (key row) (put key row rows) = some row := by
  induction rows with
  | nil => simp [find?, put]
  | cons first others ih =>
    unfold put
    split
    · simp [find?]
    split
    · simp [find?]
    next different =>
      have apart : ¬key first = key row := fun same => different same.symm
      simpa [find?, apart] using ih

theorem find?_put_of_ne {key : α → Int} {k : Int} {row : α} (other : k ≠ key row) (rows : List α) :
    find? key k (put key row rows) = find? key k rows := by
  have apart : ¬key row = k := fun same => other same.symm
  induction rows with
  | nil => simp [find?, put, apart]
  | cons first others ih =>
    unfold put
    split
    · simp [find?, apart]
    split
    next same => simp [find?, apart, ← same]
    next => simp only [find?, List.find?_cons] at ih ⊢; rw [ih]

@[simp] theorem find?_erase_self (key : α → Int) (k : Int) (rows : List α) : find? key k (erase key k rows) = none := by
  simp [find?, erase]

theorem find?_erase_of_ne {key : α → Int} {k erased : Int} (other : k ≠ erased) (rows : List α) :
    find? key k (erase key erased rows) = find? key k rows := by
  induction rows with
  | nil => rfl
  | cons first others ih =>
    simp only [find?, erase] at ih
    by_cases same : key first = erased
    · have apart : ¬key first = k := fun found => other (found.symm.trans same)
      simp only [find?, erase, List.filter_cons, same, ne_eq, not_true_eq_false, decide_false, Bool.false_eq_true, if_false,
        List.find?_cons]
      rw [ih, decide_eq_false (fun found => other found.symm)]
    · simp only [find?, erase, List.filter_cons, same, ne_eq, not_false_eq_true, decide_true, if_true, List.find?_cons]
      rw [ih]

private theorem largest_le (key : α → Int) (rows : List α) (start : Int) :
    start ≤ rows.foldl (fun largest row => max largest (key row)) start ∧
      ∀ row ∈ rows, key row ≤ rows.foldl (fun largest row => max largest (key row)) start := by
  induction rows generalizing start with
  | nil => simp
  | cons first others ih =>
    obtain ⟨above, all⟩ := ih (max start (key first))
    simp only [List.foldl_cons, List.mem_cons, forall_eq_or_imp]
    exact ⟨by omega, by omega, all⟩

theorem lt_nextKey {key : α → Int} {rows : List α} {row : α} (member : row ∈ rows) : key row < nextKey key rows := by
  have bound := (largest_le key rows 0).2 row member
  unfold nextKey
  omega

end Table
end Overdue
