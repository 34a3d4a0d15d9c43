import Mathlib.Data.List.Sort
import Overdue.Store.Table

/-! Tables in the order of their keys. Putting and erasing keep the order, and in an ordered table a row is found by
its key exactly when it stands there, so that ordered tables with the same rows are equal. -/
namespace Overdue
namespace Table

variable {α : Type} {key : α → Int} {rows : List α}

def Sorted (key : α → Int) (rows : List α) : Prop := rows.Pairwise fun a b => key a < key b

theorem Sorted.tail {first : α} (sorted : Sorted key (first :: rows)) : Sorted key rows := (List.pairwise_cons.mp sorted).2

theorem Sorted.first_lt {first row : α} (sorted : Sorted key (first :: rows)) (member : row ∈ rows) :
    key first < key row := (List.pairwise_cons.mp sorted).1 row member

theorem mem_put (sorted : Sorted key rows) (row other : α) :
    other ∈ put key row rows ↔ other = row ∨ other ∈ rows ∧ key other ≠ key row := by
  induction rows with
  | nil => simp [put]
  | cons first others ih =>
    have above : other ∈ others → key first < key other := sorted.first_lt
    unfold put
    split
    next before =>
      have apart : other ∈ first :: others → key other ≠ key row := by
        intro member
        rcases List.mem_cons.mp member with rfl | later
        · omega
        · have := above later
          omega
      rw [List.mem_cons]
      exact or_congr_right (iff_self_and.mpr apart)
    split
    next same =>
      have apart : other ∈ others → key other ≠ key row := fun later => by have := above later; omega
      rw [List.mem_cons, List.mem_cons]
      refine or_congr_right ⟨fun later => ⟨.inr later, apart later⟩, ?_⟩
      rintro ⟨rfl | later, differs⟩
      · exact absurd same.symm differs
      · exact later
    next different =>
      have apart : other = first → key other ≠ key row := by rintro rfl; exact fun equal => different equal.symm
      rw [List.mem_cons, List.mem_cons, ih sorted.tail, or_left_comm, or_and_right, and_iff_left_of_imp apart]

theorem sorted_put (sorted : Sorted key rows) (row : α) : Sorted key (put key row rows) := by
  induction rows with
  | nil => simp [Sorted, put]
  | cons first others ih =>
    unfold put
    split
    next before =>
      refine List.pairwise_cons.mpr ⟨?_, sorted⟩
      intro later member
      rcases List.mem_cons.mp member with rfl | inside
      · exact before
      · exact Int.lt_trans before (sorted.first_lt inside)
    split
    next same =>
      exact List.pairwise_cons.mpr ⟨fun later member => same ▸ sorted.first_lt member, sorted.tail⟩
    next before different =>
      refine List.pairwise_cons.mpr ⟨?_, ih sorted.tail⟩
      intro later member
      rcases (mem_put sorted.tail row later).mp member with rfl | ⟨inside, _⟩
      · omega
      · exact sorted.first_lt inside

theorem sorted_erase (sorted : Sorted key rows) (k : Int) : Sorted key (erase key k rows) := sorted.filter _

theorem mem_of_find? {k : Int} {row : α} (found : find? key k rows = some row) : row ∈ rows :=
  List.mem_of_find?_eq_some found

theorem find?_eq_some_iff (sorted : Sorted key rows) {k : Int} {row : α} :
    find? key k rows = some row ↔ row ∈ rows ∧ key row = k := by
  refine ⟨fun found => ⟨mem_of_find? found, find?_key found⟩, ?_⟩
  rintro ⟨member, rfl⟩
  induction rows with
  | nil => simp at member
  | cons first others ih =>
    rcases List.mem_cons.mp member with rfl | inside
    · simp [find?]
    · have apart : ¬key first = key row := Int.ne_of_lt (sorted.first_lt inside)
      simpa [find?, apart] using ih sorted.tail inside

theorem find?_of_mem (sorted : Sorted key rows) {row : α} (member : row ∈ rows) : find? key (key row) rows = some row :=
  (find?_eq_some_iff sorted).mpr ⟨member, rfl⟩

theorem find?_eq_none_iff {k : Int} : find? key k rows = none ↔ ∀ row ∈ rows, key row ≠ k := by
  simp [find?]

theorem filter_key (sorted : Sorted key rows) (k : Int) :
    rows.filter (fun row => key row = k) = (find? key k rows).toList := by
  induction rows with
  | nil => rfl
  | cons first others ih =>
    by_cases own : key first = k
    · have none : others.filter (fun row => key row = k) = [] := by
        apply List.filter_eq_nil_iff.mpr
        intro row inside
        have := sorted.first_lt inside
        simp only [decide_eq_true_eq]
        omega
      simp [find?, own, none]
    · simpa [find?, own] using ih sorted.tail

/-- Ordered tables in which the same rows are found are equal. -/
theorem Sorted.ext {others : List α} (sorted : Sorted key rows) (alike : Sorted key others)
    (same : ∀ k, find? key k rows = find? key k others) : rows = others := by
  have irreflexive : Std.Irrefl fun a b : α => key a < key b := ⟨fun a => Int.lt_irrefl (key a)⟩
  have antisymmetric : Std.Antisymm fun a b : α => key a < key b := ⟨fun a b before after => by omega⟩
  apply List.Pairwise.eq_of_mem_iff sorted alike
  intro row
  have left : find? key (key row) others = some row ↔ row ∈ rows ∧ key row = key row := by
    rw [← same]
    exact find?_eq_some_iff sorted
  have right : find? key (key row) others = some row ↔ row ∈ others ∧ key row = key row := find?_eq_some_iff alike
  simpa using left.symm.trans right

theorem find?_nextKey (key : α → Int) (rows : List α) : find? key (nextKey key rows) rows = none :=
  find?_eq_none_iff.mpr fun _ member => Int.ne_of_lt (lt_nextKey member)

theorem find?_put (key : α → Int) (k : Int) (row : α) (rows : List α) :
    find? key k (put key row rows) = if k = key row then some row else find? key k rows := by
  split
  next same => rw [same, find?_put_self]
  next other => exact find?_put_of_ne other rows

theorem find?_erase (key : α → Int) (k erased : Int) (rows : List α) :
    find? key k (erase key erased rows) = if k = erased then none else find? key k rows := by
  split
  next same => rw [same, find?_erase_self]
  next other => exact find?_erase_of_ne other rows

/-- A row with a key beyond all others comes last. -/
theorem put_of_beyond {row : α} (beyond : ∀ other ∈ rows, key other < key row) : put key row rows = rows ++ [row] := by
  induction rows with
  | nil => rfl
  | cons first others ih =>
    obtain ⟨before, later⟩ := List.forall_mem_cons.mp beyond
    rw [put, if_neg (by omega), if_neg (by omega), ih later]
    rfl

/-- A row with the key of another takes its place. -/
theorem put_of_found (sorted : Sorted key rows) {row old : α} (found : find? key (key row) rows = some old) :
    put key row rows = rows.map fun other => if key other = key row then row else other := by
  induction rows with
  | nil => cases found
  | cons first others ih =>
    have above : ∀ other ∈ others, key first < key other := fun other => sorted.first_lt
    by_cases own : key first = key row
    · have rest : others.map (fun other => if key other = key row then row else other) = others := by
        refine (List.map_congr_left fun other inside => ?_).trans others.map_id
        have := above other inside
        rw [if_neg (by omega), id]
      rw [put, if_neg (by omega), if_pos own.symm, List.map_cons, if_pos own, rest]
    · have later : find? key (key row) others = some old := by simpa [find?, own] using found
      have member := (find?_eq_some_iff sorted.tail).mp later
      have := above old member.1
      rw [put, if_neg (by omega), if_neg (by omega), List.map_cons, if_neg own, ih sorted.tail later]

end Table
end Overdue
