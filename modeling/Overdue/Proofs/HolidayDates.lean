import Mathlib.Data.List.Forall2
import Mathlib.Data.List.ReduceOption
import Overdue.Proofs.EntryGrammar

/-! The dates of a list of holidays. They are those that its entries spell; and a date, once written as an entry with or without
zeros in front and with blanks around it, is read back. -/
namespace Overdue
namespace Holiday

theorem starts_of_mem {entries : List (List Char)} {entry : List Char} (inside : entry ∈ stripped entries) : entry.head? ≠ some ' ' := by
  obtain ⟨_, raw, _, rfl⟩ := mem_stripped.mp inside
  intro first
  cases Text.head?_trim first

section Rendered

variable {n : Nat}

/-- The digits of a day or a month that is written with or without a zero in front. -/
def widthOf (zero : Bool) : Nat := if zero then 2 else 1

theorem spellsUnit_padded (zero : Bool) (first : 1 ≤ n) (last : n ≤ 9) : SpellsUnit (Text.padded (widthOf zero) n) n := by
  cases zero with
  | false =>
    change SpellsUnit (Text.padded 1 n) n
    rw [Text.padded_one last]
    exact .plain first last
  | true =>
    change SpellsUnit (Text.padded (1 + 1) n) n
    rw [Text.padded_succ Nat.one_pos, Nat.div_eq_of_lt (by omega), Nat.mod_eq_of_lt (by omega)]
    exact .zeroed first last

theorem padded_two (zero : Bool) (wide : 10 ≤ n) (bound : n ≤ 99) :
    Text.padded (widthOf zero) n = [(n / 10).digitChar, (n % 10).digitChar] := by
  have two : Text.padded 2 n = [(n / 10).digitChar, (n % 10).digitChar] := by
    rw [Text.padded_succ Nat.one_pos, Text.padded_one (by omega)]
    rfl
  cases zero with
  | false => exact (Text.padded_wide wide).trans two
  | true => exact two

theorem spellsDay_padded (zero : Bool) (first : 1 ≤ n) (last : n ≤ 31) : SpellsDay (Text.padded (widthOf zero) n) n := by
  by_cases small : n ≤ 9
  · exact .unit (spellsUnit_padded zero first small)
  rw [padded_two zero (by omega) (by omega)]
  by_cases early : n < 30
  · have split : n = 10 * (n / 10) + n % 10 := (Nat.div_add_mod n 10).symm
    have spells : SpellsDay [(n / 10).digitChar, (n % 10).digitChar] (10 * (n / 10) + n % 10) :=
      .tens (by omega) (by omega) (digit?_digitChar (by omega))
    rwa [← split] at spells
  · obtain ⟨unit, rfl⟩ := Nat.exists_eq_add_of_le (Nat.le_of_not_lt early)
    have ten : (30 + unit) / 10 = 3 := by omega
    have rest : (30 + unit) % 10 = unit := by omega
    rw [ten, rest]
    exact .thirties (by omega)

theorem spellsMonth_padded (zero : Bool) (first : 1 ≤ n) (last : n ≤ 12) : SpellsMonth (Text.padded (widthOf zero) n) n := by
  by_cases small : n ≤ 9
  · exact .unit (spellsUnit_padded zero first small)
  rw [padded_two zero (by omega) (by omega)]
  obtain ⟨unit, rfl⟩ := Nat.exists_eq_add_of_le (Nat.lt_of_not_le small)
  have ten : (10 + unit) / 10 = 1 := by omega
  have rest : (10 + unit) % 10 = unit := by omega
  change SpellsMonth [((10 + unit) / 10).digitChar, ((10 + unit) % 10).digitChar] (10 + unit)
  rw [ten, rest]
  exact .tens (by omega)

theorem spellsYear_padded (last : n ≤ 9999) : SpellsYear (Text.padded 4 n) n := by
  have digits : Text.padded 4 n =
      [(n / 10 / 10 / 10).digitChar, (n / 10 / 10 % 10).digitChar, (n / 10 % 10).digitChar, (n % 10).digitChar] := by
    rw [Text.padded_succ (by omega), Text.padded_succ (by omega), Text.padded_succ (by omega), Text.padded_one (by omega)]
    rfl
  have split : n = 1000 * (n / 10 / 10 / 10) + 100 * (n / 10 / 10 % 10) + 10 * (n / 10 % 10) + n % 10 := by omega
  have read (d : Nat) (small : d ≤ 9) : Text.digit? d.digitChar = some d := digit?_digitChar small
  have spells := SpellsYear.four (read (n / 10 / 10 / 10) (by omega)) (read (n / 10 / 10 % 10) (by omega))
    (read (n / 10 % 10) (by omega)) (read (n % 10) (by omega))
  rwa [← split, ← digits] at spells

/-- A date as an entry, its day and its month with or without a zero in front. -/
def rendered (zeroDay zeroMonth : Bool) (date : Date) : List Char :=
  Text.padded (widthOf zeroDay) date.dayOfMonth ++ '/' ::
    (Text.padded (widthOf zeroMonth) date.month ++ '/' :: Text.padded 4 date.year)

variable (zeroDay zeroMonth : Bool) (date : Date)

theorem rendered_spells : Spells (rendered zeroDay zeroMonth date) date.year date.month date.dayOfMonth := by
  obtain ⟨⟨_, last, january, december, low, high⟩, _⟩ := Date.exists_placed date
  have length : ∀ leap : Bool, ∀ index : Fin 12, (Date.monthLengths leap).getD index 0 ≤ 31 := by decide
  have longest : Date.daysInMonth date.year date.month ≤ 31 := length _ ⟨date.month - 1, by omega⟩
  exact ⟨_, _, _, rfl, spellsDay_padded zeroDay low (by omega), spellsMonth_padded zeroMonth january december,
    spellsYear_padded last⟩

theorem isDigit_or_slash {c : Char} (inside : c ∈ rendered zeroDay zeroMonth date) : c.isDigit = true ∨ c = '/' := by
  simp only [rendered, List.mem_append, List.mem_cons] at inside
  rcases inside with day | slash | month | slash | year
  · exact .inl (Text.isDigit_of_mem_padded day)
  · exact .inr slash
  · exact .inl (Text.isDigit_of_mem_padded month)
  · exact .inr slash
  · exact .inl (Text.isDigit_of_mem_padded year)

theorem rendered_free {c : Char} (inside : c ∈ rendered zeroDay zeroMonth date) : c ∉ breaks := by
  have each : breaks.all (fun c => !c.isDigit && c != '/') = true := rfl
  intro parts
  have other := List.all_eq_true.mp each c parts
  rcases isDigit_or_slash zeroDay zeroMonth date inside with digit | rfl
  · simp [digit] at other
  · cases other

theorem rendered_kept {c : Char} (inside : c ∈ rendered zeroDay zeroMonth date) : Text.isBlank c = false := by
  rcases isDigit_or_slash zeroDay zeroMonth date inside with digit | rfl
  · have range : 48 ≤ c.toNat ∧ c.toNat ≤ 57 := by simpa [Char.isDigit, UInt32.le_iff_toNat_le] using digit
    simp [Text.isBlank, Text.isWhite]
    omega
  · rfl

end Rendered

variable {front back entry : List Char}

theorem stripped_back (blank : ∀ c ∈ back, Text.isBlank c = true) : stripped [entry ++ back] = stripped [entry] := by
  simp only [stripped, List.map_cons, List.map_nil, Text.strip, Text.trim_back blank]

theorem stripped_around (blankFront : ∀ c ∈ front, Text.isBlank c = true) (blankBack : ∀ c ∈ back, Text.isBlank c = true) :
    stripped [front ++ entry ++ back] = stripped [entry] := by
  rw [stripped_back blankBack]
  simp only [stripped, List.map_cons, List.map_nil, Text.strip, Text.trim_front blankFront]

theorem stripped_blanks (blank : ∀ c ∈ front, Text.isBlank c = true) : stripped [front] = [] := by
  have none : Text.strip (front ++ []) = [] := Text.trim_front blank
  rw [List.append_nil] at none
  simp [stripped, none]

theorem stripped_rendered (zeroDay zeroMonth : Bool) (date : Date) :
    stripped [rendered zeroDay zeroMonth date] = [rendered zeroDay zeroMonth date] := by
  have same : Text.strip (rendered zeroDay zeroMonth date) = rendered zeroDay zeroMonth date :=
    Text.trim_of_none fun c inside => rendered_kept zeroDay zeroMonth date inside
  have some : rendered zeroDay zeroMonth date ≠ [] := List.append_ne_nil_of_right_ne_nil _ (List.cons_ne_nil _ _)
  simp [stripped, same, some]

theorem named_rendered (zeroDay zeroMonth : Bool) (date : Date) : named (rendered zeroDay zeroMonth date) = .ok date := by
  have inside : rendered zeroDay zeroMonth date ∈ stripped [rendered zeroDay zeroMonth date] := by
    rw [stripped_rendered]
    exact List.mem_singleton_self _
  exact named_eq_ok.mpr ((entry?_eq_some (starts_of_mem inside)).mpr (rendered_spells zeroDay zeroMonth date))

theorem stripped_pieces_front (blank : ∀ c ∈ front, Text.isBlank c = true) (text : List Char) :
    stripped (pieces (front ++ text)) = stripped (pieces text) := by
  induction front with
  | nil => rfl
  | cons c rest ih =>
    obtain ⟨first, others⟩ := List.forall_mem_cons.mp blank
    rw [List.cons_append, ← ih others]
    by_cases inside : c ∈ breaks
    · rw [pieces_cons inside, stripped_blank]
    · obtain ⟨line, more, split⟩ := List.exists_cons_of_ne_nil (List.splitOnP_ne_nil (· ∈ breaks) (rest ++ text))
      have one : ∀ a ∈ [c], Text.isBlank a = true := List.forall_mem_singleton.mpr first
      have same : Text.strip (c :: line) = Text.strip line := Text.trim_front one
      rw [pieces, List.splitOnP_cons_eq_if_modifyHead, if_neg (by simpa using inside), pieces, split]
      simp only [List.modifyHead, stripped, List.map_cons, same]

theorem stripped_pieces_back (free : ∀ c ∈ entry, c ∉ breaks) (blank : ∀ c ∈ back, Text.isBlank c = true) :
    stripped (pieces (entry ++ back)) = stripped [entry] := by
  induction back generalizing entry with
  | nil => rw [List.append_nil, pieces_free free]
  | cons c rest ih =>
    obtain ⟨first, others⟩ := List.forall_mem_cons.mp blank
    by_cases inside : c ∈ breaks
    · have none : stripped (pieces rest) = [] := by
        rw [← List.append_nil rest, stripped_pieces_front others]
        rfl
      rw [pieces_append inside, stripped_append, none, List.append_nil, pieces_free free]
    · -- the blank belongs to the piece of the entry
      have longer : ∀ a ∈ entry ++ [c], a ∉ breaks := List.forall_mem_append.mpr ⟨free, List.forall_mem_singleton.mpr inside⟩
      have one : ∀ a ∈ [c], Text.isBlank a = true := List.forall_mem_singleton.mpr first
      rw [List.append_cons, ih longer others]
      exact stripped_back one

theorem stripped_pieces_around (blankFront : ∀ c ∈ front, Text.isBlank c = true) (free : ∀ c ∈ entry, c ∉ breaks)
    (blankBack : ∀ c ∈ back, Text.isBlank c = true) : stripped (pieces (front ++ entry ++ back)) = stripped [front ++ entry ++ back] := by
  rw [stripped_around blankFront blankBack, List.append_assoc, stripped_pieces_front blankFront, stripped_pieces_back free blankBack]

/-- What an entry shows: a date between blanks, or nothing. -/
inductive Shows : String → Option Date → Prop
  | blank {text : String} (blank : ∀ c ∈ text.toList, Text.isBlank c = true) : Shows text none
  | date {front back : List Char} (zeroDay zeroMonth : Bool) (date : Date) (blankFront : ∀ c ∈ front, Text.isBlank c = true)
      (blankBack : ∀ c ∈ back, Text.isBlank c = true) :
      Shows (String.ofList (front ++ rendered zeroDay zeroMonth date ++ back)) (some date)

end Holiday

namespace HolidayList

open Failure Holiday

variable {dates : List Date}

theorem written_single (entry : String) : (entries [entry]).written = stripped [entry.toList] := rfl

/-- Shown in a text or in a list, an entry is the same, and what it shows is read. -/
theorem shown_read {entry : String} {date : Option Date} (shows : Shows entry date) :
    (text entry).written = (entries [entry]).written ∧ (entries [entry]).written.mapM named = .ok date.toList := by
  rw [written_text, written_single]
  cases shows with
  | blank blank =>
    have none : stripped (pieces entry.toList) = [] := by
      rw [← List.append_nil entry.toList, stripped_pieces_front blank]
      rfl
    rw [none, stripped_blanks blank]
    exact ⟨rfl, rfl⟩
  | date zeroDay zeroMonth date blankFront blankBack =>
    have free : ∀ c ∈ rendered zeroDay zeroMonth date, c ∉ breaks := fun c inside => rendered_free zeroDay zeroMonth date inside
    rw [String.toList_ofList, stripped_pieces_around blankFront free blankBack, stripped_around blankFront blankBack, stripped_rendered,
      List.mapM_cons, named_rendered]
    exact ⟨rfl, rfl⟩

theorem shown_dates {list : List String} {shown : List (Option Date)} (shows : List.Forall₂ Shows list shown) :
    (entries list).written.mapM named = .ok shown.reduceOption := by
  induction shows with
  | nil => rfl
  | @cons entry date others more first rest ih =>
    have split : (entries (entry :: others)).written = _ := written_append [entry] others
    rw [split, List.mapM_append, (shown_read first).2, ih]
    cases date <;> rfl

theorem shown_whole {list : List String} {shown : List (Option Date)} (shows : List.Forall₂ Shows list shown) :
    ∀ entry ∈ list, (text entry).written = (entries [entry]).written := by
  induction shows with
  | nil => simp
  | cons first rest ih => exact List.forall_mem_cons.mpr ⟨(shown_read first).1, ih⟩

theorem parse_shown {pieces : List (String × String)} {shown : List (Option Date)}
    (separated : ∀ piece ∈ pieces, Separates piece.2) (shows : List.Forall₂ Shows (pieces.map Prod.fst) shown)
    (ascending : Ascending dates) (same : ∀ date, date ∈ dates ↔ some date ∈ shown) :
    (entries (pieces.map Prod.fst)).parse = .ok dates ∧ (text (joined pieces)).parse = .ok dates := by
  have set : Holiday.setOf shown.reduceOption = dates :=
    setOf_eq_iff.mpr ⟨ascending, fun date => by rw [same, List.reduceOption_mem_iff]⟩
  have read : (entries (pieces.map Prod.fst)).parse = .ok dates := by
    rw [parse_eq, shown_dates shows, ← set]
    rfl
  refine ⟨read, ?_⟩
  rw [← read]
  refine parse_eq_of_written (written_joined fun piece inside => ⟨?_, separated piece inside⟩)
  exact shown_whole shows _ (List.mem_map_of_mem inside)

/-- A list is read if each entry that is not blank spells a date that exists, and the result is the set of these dates; else its
first entry that spells none is the error. Dates that are written as entries are read back, in a text as in a list. -/
theorem parse_grammar :
    (∀ (list : HolidayList) dates, list.parse = .ok dates ↔
      (∀ entry ∈ list.written, ∃ y m d, Spells entry y m d ∧ Date.Exists y m d) ∧ Ascending dates ∧
        ∀ date, date ∈ dates ↔ ∃ entry ∈ list.written, Spells entry date.year date.month date.dayOfMonth) ∧
    (∀ (list : HolidayList) error, list.parse = .error error ↔ ∃ before entry after, list.written = before ++ entry :: after ∧
      (∀ earlier ∈ before, ∃ y m d, Spells earlier y m d ∧ Date.Exists y m d) ∧
        (¬∃ y m d, Spells entry y m d ∧ Date.Exists y m d) ∧ error = .holiday entry) ∧
    ∀ (pieces : List (String × String)) shown dates, (∀ piece ∈ pieces, Separates piece.2) →
      List.Forall₂ Shows (pieces.map Prod.fst) shown → Ascending dates → (∀ date, date ∈ dates ↔ some date ∈ shown) →
        (entries (pieces.map Prod.fst)).parse = .ok dates ∧ (text (joined pieces)).parse = .ok dates := by
  refine ⟨?_, ?_, ?_⟩
  · intro list dates
    rw [parse_eq_ok]
    refine and_congr ?_ (and_congr Iff.rfl ?_)
    · exact forall₂_congr fun entry inside => exists_entry (starts_of_mem inside)
    · refine forall_congr' fun date => iff_congr Iff.rfl ?_
      exact exists_congr fun entry => and_congr_right fun inside => entry?_eq_some (starts_of_mem inside)
  · intro list error
    rw [parse_eq_error]
    refine exists_congr fun before => exists_congr fun entry => exists_congr fun after => and_congr_right fun split => ?_
    have starts : ∀ other ∈ before ++ entry :: after, other.head? ≠ some ' ' := by
      rw [← split]
      exact fun other inside => starts_of_mem inside
    rw [List.forall_mem_append, List.forall_mem_cons] at starts
    obtain ⟨early, here, _⟩ := starts
    rw [← exists_entry here]
    refine and_congr (forall₂_congr fun earlier inside => exists_entry (early earlier inside)) (and_congr ?_ Iff.rfl)
    simp [Option.eq_none_iff_forall_ne_some]
  · intro pieces shown dates separated shows ascending same
    exact parse_shown separated shows ascending same

theorem parse_grammar_zeros :
    (entries ["\t05/12/2022", " ", "7/12/2022\u2003", "5/12/2022"]).parse = .ok [⟨738493, by decide⟩, ⟨738495, by decide⟩] ∧
    (text (joined [("\t05/12/2022", "\r\n"), (" ", ","), ("7/12/2022\u2003", ","), ("5/12/2022", "\r\n")])).parse =
      .ok [⟨738493, by decide⟩, ⟨738495, by decide⟩] := by
  have comma : Separates "," := .one (c := ',') List.mem_cons_self
  have shows (front back : List Char) (zeroDay : Bool) (date : Date) (blank : (front ++ back).all Text.isBlank = true) {entry : String}
      (same : entry.toList = front ++ rendered zeroDay true date ++ back) : Shows entry (some date) := by
    rw [← String.ofList_toList (s := entry), same]
    have each := List.all_eq_true.mp blank
    rw [List.forall_mem_append] at each
    exact .date zeroDay true date each.1 each.2
  apply parse_grammar.2.2 [("\t05/12/2022", "\r\n"), (" ", ","), ("7/12/2022\u2003", ","), ("5/12/2022", "\r\n")]
    [some ⟨738493, by decide⟩, none, some ⟨738495, by decide⟩, some ⟨738493, by decide⟩]
  · simp only [List.forall_mem_cons]
    exact ⟨.pair, comma, comma, .pair, by simp⟩
  · refine .cons ?_ (.cons ?_ (.cons ?_ (.cons ?_ .nil)))
    · exact shows ['\t'] [] true _ rfl rfl
    · exact .blank (List.all_eq_true.mp rfl)
    · exact shows [] ['\u2003'] false _ rfl rfl
    · exact shows [] [] false _ rfl rfl
  · simp [Ascending]
  · intro date
    simp only [List.mem_cons, List.not_mem_nil, Option.some.injEq, reduceCtorEq, or_false, false_or]
    tauto

end HolidayList
end Overdue
