import Mathlib.Data.List.Sort
import Overdue.Holiday
import Overdue.Proofs.Failure

/-! How a list of holidays is read. Of each entry only what is left without the blanks around it counts, and blank entries
count for nothing; the result is the set of the dates that the others name, in increasing order. -/
namespace Overdue
namespace Holiday

open Failure

variable {dates others : List Date} {date : Date}

/-- Dates in increasing order, each once: the form in which a set of dates is a list. -/
def Ascending (dates : List Date) : Prop := dates.Pairwise fun date later => date.day < later.day

theorem Ascending.ext (ascending : Ascending dates) (ascendingToo : Ascending others) (same : ∀ date, date ∈ dates ↔ date ∈ others) :
    dates = others := by
  have irreflexive : Std.Irrefl fun date later : Date => date.day < later.day := ⟨fun date => Nat.lt_irrefl date.day⟩
  have antisymmetric : Std.Antisymm fun date later : Date => date.day < later.day :=
    ⟨fun _ _ before after => absurd after (Nat.lt_asymm before)⟩
  exact ascending.eq_of_mem_iff ascendingToo same

theorem mem_insert {other : Date} : other ∈ insert date dates ↔ other = date ∨ other ∈ dates := by
  induction dates with
  | nil => simp [insert]
  | cons first rest ih =>
    unfold insert
    split
    · rw [List.mem_cons]
    split
    next same =>
      rw [same, List.mem_cons]
      simp
    next => rw [List.mem_cons, List.mem_cons, ih, or_left_comm]

theorem ascending_insert (ascending : Ascending dates) (date : Date) : Ascending (insert date dates) := by
  induction dates with
  | nil => simp [Ascending, insert]
  | cons first rest ih =>
    obtain ⟨least, sorted⟩ := List.pairwise_cons.mp ascending
    unfold insert
    split
    next before =>
      apply List.pairwise_cons.mpr
      refine ⟨fun later inside => ?_, ascending⟩
      rcases List.mem_cons.mp inside with rfl | inside
      · exact before
      · exact Nat.lt_trans before (least later inside)
    split
    · exact ascending
    next after different =>
      apply List.pairwise_cons.mpr
      refine ⟨fun later inside => ?_, ih sorted⟩
      rcases mem_insert.mp inside with rfl | inside
      · have apart : later.day ≠ first.day := fun same => different (by cases later; cases first; simpa using same)
        omega
      · exact least later inside

@[simp] theorem mem_setOf : date ∈ setOf dates ↔ date ∈ dates := by
  induction dates with
  | nil => rfl
  | cons first rest ih =>
    rw [setOf, List.foldr_cons, mem_insert, List.mem_cons]
    exact or_congr_right ih

theorem ascending_setOf (dates : List Date) : Ascending (setOf dates) := by
  induction dates with
  | nil => exact List.Pairwise.nil
  | cons first rest ih => exact ascending_insert ih first

theorem setOf_eq_iff : setOf others = dates ↔ Ascending dates ∧ ∀ date, date ∈ dates ↔ date ∈ others := by
  constructor
  · rintro rfl
    exact ⟨ascending_setOf others, fun _ => mem_setOf⟩
  · rintro ⟨ascending, same⟩
    exact (ascending_setOf others).ext ascending fun date => mem_setOf.trans (same date).symm

/-- The entries without the blanks around them, those that are blank left out. -/
def stripped (entries : List (List Char)) : List (List Char) := (entries.map Text.strip).filter (· ≠ [])

theorem stripped_append (entries more : List (List Char)) : stripped (entries ++ more) = stripped entries ++ stripped more := by
  simp [stripped]

def named (entry : List Char) : Except ConfigError Date := ( entry? entry).elim (.error (.holiday entry)) .ok

theorem named_eq_ok {entry : List Char} : named entry = .ok date ↔ entry? entry = some date := by
  unfold named
  cases entry? entry <;> simp

theorem named_eq_error {entry : List Char} {error : ConfigError} :
    named entry = .error error ↔ entry? entry = none ∧ error = .holiday entry := by
  unfold named
  cases entry? entry <;> simp [eq_comm]

theorem dates_eq (entries : List (List Char)) : Holiday.dates entries = (stripped entries).mapM named := by
  induction entries with
  | nil => rfl
  | cons entry rest ih =>
    rw [Holiday.dates]
    split
    next blank =>
      have dropped : stripped (entry :: rest) = stripped rest := by simp [stripped, blank]
      rw [ih, dropped]
    next written =>
      have first : stripped (entry :: rest) = Text.strip entry :: stripped rest := by simp [stripped, written]
      rw [first, List.mapM_cons, ih, named]
      cases entry? (Text.strip entry) with
      | none => rfl
      | some date => rfl

theorem mem_stripped {entry : List Char} {entries : List (List Char)} :
    entry ∈ stripped entries ↔ entry ≠ [] ∧ ∃ raw ∈ entries, Text.strip raw = entry := by
  rw [stripped, List.mem_filter, List.mem_map, and_comm, decide_eq_true_eq]

theorem mem_of_mapM {entries : List (List Char)} (read : entries.mapM named = .ok dates) :
    date ∈ dates ↔ ∃ entry ∈ entries, entry? entry = some date := by
  have inside : date ∈ dates ↔ Except.ok date ∈ entries.map named := by
    rw [mapM_eq_ok.mp read]
    simp
  simp only [inside, List.mem_map, named_eq_ok]

end Holiday

namespace HolidayList

open Failure Holiday

variable {list other : HolidayList} {dates : List Date} {error : ConfigError}

/-- The entries that a list has to read. -/
def written (list : HolidayList) : List (List Char) := stripped list.entryTexts

theorem parse_eq (list : HolidayList) : list.parse = (list.written.mapM named).map Holiday.setOf := by
  rw [parse, dates_eq, written]

theorem parse_eq_of_written (same : list.written = other.written) : list.parse = other.parse := by
  rw [parse_eq, parse_eq, same]

theorem parse_returns_iff : (∃ dates, list.parse = .ok dates) ↔ ∀ entry ∈ list.written, ∃ date, entry? entry = some date := by
  simp only [parse_eq, map_eq_ok, ← named_eq_ok, ← mapM_returns_iff]
  constructor
  · rintro ⟨_, read, found, _⟩
    exact ⟨read, found⟩
  · rintro ⟨read, found⟩
    exact ⟨_, read, found, rfl⟩

theorem parse_eq_ok : list.parse = .ok dates ↔ (∀ entry ∈ list.written, ∃ date, entry? entry = some date) ∧ Ascending dates ∧
    ∀ date, date ∈ dates ↔ ∃ entry ∈ list.written, entry? entry = some date := by
  simp only [parse_eq, map_eq_ok, ← named_eq_ok, ← mapM_returns_iff]
  constructor
  · rintro ⟨read, found, rfl⟩
    refine ⟨⟨read, found⟩, ascending_setOf read, fun date => ?_⟩
    simp only [mem_setOf, mem_of_mapM found, named_eq_ok]
  · rintro ⟨⟨read, found⟩, ascending, same⟩
    refine ⟨read, found, setOf_eq_iff.mpr ⟨ascending, fun date => ?_⟩⟩
    simp only [same, mem_of_mapM found, named_eq_ok]

/-- A list fails at its first entry that names no date. -/
theorem parse_eq_error : list.parse = .error error ↔ ∃ before entry after, list.written = before ++ entry :: after ∧
    (∀ earlier ∈ before, ∃ date, entry? earlier = some date) ∧ entry? entry = none ∧ error = .holiday entry := by
  simp only [parse_eq, map_eq_error, mapM_eq_error, named_eq_ok, named_eq_error]

/-- Which entries there are decides, not their order or how often each is there. -/
theorem parse_ok_of_mem (same : ∀ entry, entry ∈ list.written ↔ entry ∈ other.written) (read : list.parse = .ok dates) :
    other.parse = .ok dates := by
  rw [parse_eq_ok] at read ⊢
  simpa only [same] using read

section Append

variable {front back : HolidayList} (split : list.written = front.written ++ back.written)
include split

theorem parse_append_eq_ok : list.parse = .ok dates ↔ ∃ before after, front.parse = .ok before ∧ back.parse = .ok after ∧
    Ascending dates ∧ ∀ date, date ∈ dates ↔ date ∈ before ∨ date ∈ after := by
  have either (date : Date) : (∃ entry ∈ list.written, entry? entry = some date) ↔
      (∃ entry ∈ front.written, entry? entry = some date) ∨ ∃ entry ∈ back.written, entry? entry = some date := by
    simp only [split, List.mem_append, or_and_right, exists_or]
  constructor
  · intro read
    obtain ⟨each, ascending, same⟩ := parse_eq_ok.mp read
    rw [split, List.forall_mem_append, ← parse_returns_iff, ← parse_returns_iff] at each
    obtain ⟨⟨before, readFront⟩, after, readBack⟩ := each
    refine ⟨before, after, readFront, readBack, ascending, fun date => ?_⟩
    rw [same, either, (parse_eq_ok.mp readFront).2.2, (parse_eq_ok.mp readBack).2.2]
  · rintro ⟨before, after, readFront, readBack, ascending, same⟩
    obtain ⟨eachFront, _, sameFront⟩ := parse_eq_ok.mp readFront
    obtain ⟨eachBack, _, sameBack⟩ := parse_eq_ok.mp readBack
    refine parse_eq_ok.mpr ⟨?_, ascending, fun date => ?_⟩
    · rw [split]
      exact List.forall_mem_append.mpr ⟨eachFront, eachBack⟩
    · rw [same, either, sameFront, sameBack]

theorem parse_append_eq_error : list.parse = .error error ↔
    front.parse = .error error ∨ (∃ before, front.parse = .ok before) ∧ back.parse = .error error := by
  have returns : (∃ before, front.parse = .ok before) ↔ ∃ read, front.written.mapM named = .ok read := by
    simp only [parse_returns_iff, mapM_returns_iff, named_eq_ok]
  rw [returns, parse_eq, parse_eq, parse_eq, map_eq_error, map_eq_error, map_eq_error, split, mapM_append_eq_error]

end Append

end HolidayList
end Overdue
