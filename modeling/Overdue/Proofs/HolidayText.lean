import Mathlib.Data.List.Basic
import Overdue.Proofs.HolidayList

/-! How a text of holidays falls into entries. Each separator parts the entries before it from those after it, whatever stands
around it: a boundary that two separators share only adds a blank entry, and so does one at the end of the text. -/
namespace Overdue
namespace Holiday

/-- The comma and the ends of lines. -/
def breaks : List Char :=
  [',', '\n', '\r', '\x0b', '\x0c', '\x1c', '\x1d', '\x1e', '\u0085', '\u2028', '\u2029']

inductive Separates : String → Prop
  | one {c : Char} (inside : c ∈ breaks) : Separates (String.singleton c)
  | pair : Separates "\r\n"

/-- Entries with the separators between them; that of the last entry is left out. -/
def joined : List (String × String) → String
  | [] => ""
  | (entry, separator) :: rest => if rest = [] then entry else entry ++ separator ++ joined rest

def pieces (text : List Char) : List (List Char) := text.splitOnP (· ∈ breaks)

theorem stripped_blank (entries : List (List Char)) : stripped ([] :: entries) = stripped entries := rfl

theorem isLineBreak_iff {c : Char} : Text.isLineBreak c = true ↔ c ∈ breaks ∧ c ≠ ',' := by
  have number (d : Char) : c = d ↔ c.toNat = d.toNat := ⟨congrArg _, fun same => Char.toNat_inj.mp same⟩
  simp [Text.isLineBreak, breaks, number]
  omega

/-- The lines of a text beside its pieces: the same first one, and the same others but for blank ones. -/
def Agrees (lines pieces : List (List Char)) : Prop :=
  ∃ others, pieces = lines.headD [] :: others ∧ stripped lines.tail = stripped others

theorem Agrees.stripped_eq {lines pieces : List (List Char)} (agrees : Agrees lines pieces) : stripped lines = stripped pieces := by
  obtain ⟨others, rfl, same⟩ := agrees
  cases lines with
  | nil => exact same
  | cons line rest =>
    have split (entries : List (List Char)) : stripped (line :: entries) = stripped [line] ++ stripped entries :=
      stripped_append [line] entries
    rw [List.headD_cons, split, split others]
    exact congrArg _ same

theorem splitOnP_cons_pos {p : Char → Bool} {c : Char} (parts : p c = true) (rest : List Char) :
    (c :: rest).splitOnP p = [] :: rest.splitOnP p := by
  rw [List.splitOnP_cons_eq_if_modifyHead, if_pos parts]

theorem lines_agree (text : List Char) : Agrees (Text.lines text) (text.splitOnP Text.isLineBreak) := by
  fun_induction Text.lines text with
  | case1 => exact ⟨[], List.splitOnP_nil, rfl⟩
  | case2 rest ih =>
    -- the line feed starts a piece of its own, which is blank
    refine ⟨[] :: rest.splitOnP Text.isLineBreak, ?_, ih.stripped_eq⟩
    rw [splitOnP_cons_pos (by decide), splitOnP_cons_pos (by decide)]
    rfl
  | case3 c rest fused ends ih =>
    refine ⟨rest.splitOnP Text.isLineBreak, ?_, ih.stripped_eq⟩
    rw [splitOnP_cons_pos ends]
    rfl
  | case4 c rest fused inside none ih =>
    obtain ⟨others, split, same⟩ := ih
    rw [none] at split same
    refine ⟨others, ?_, same⟩
    rw [List.splitOnP_cons_eq_if_modifyHead, if_neg inside, split]
    rfl
  | case5 c rest fused inside line others some ih =>
    obtain ⟨tail, split, same⟩ := ih
    rw [some] at split same
    refine ⟨tail, ?_, same⟩
    rw [List.splitOnP_cons_eq_if_modifyHead, if_neg inside, split]
    rfl

theorem splitOnP_breaks (text : List Char) :
    (text.map fun c => if c = ',' then '\n' else c).splitOnP Text.isLineBreak = pieces text := by
  unfold pieces
  induction text with
  | nil => rfl
  | cons c rest ih =>
    have ends : Text.isLineBreak (if c = ',' then '\n' else c) = decide (c ∈ breaks) := by
      split
      next comma => rw [comma]; rfl
      next other =>
        rw [Bool.eq_iff_iff, decide_eq_true_eq, isLineBreak_iff]
        exact and_iff_left other
    rw [List.map_cons, List.splitOnP_cons_eq_if_modifyHead, List.splitOnP_cons_eq_if_modifyHead, ih, ends]
    split
    · rfl
    next inside =>
      have kept : c ≠ ',' := by
        rintro rfl
        exact inside rfl
      rw [if_neg kept]

theorem stripped_entriesOf (text : List Char) : stripped (entriesOf text) = stripped (pieces text) := by
  rw [entriesOf, (lines_agree _).stripped_eq, splitOnP_breaks]

theorem pieces_cons {c : Char} (inside : c ∈ breaks) (text : List Char) : pieces (c :: text) = [] :: pieces text := by
  rw [pieces, splitOnP_cons_pos (decide_eq_true inside)]
  rfl

theorem pieces_append {c : Char} (inside : c ∈ breaks) (front back : List Char) :
    pieces (front ++ c :: back) = pieces front ++ pieces back :=
  List.splitOnP_append_cons front back (decide_eq_true inside)

theorem pieces_free {entry : List Char} (free : ∀ c ∈ entry, c ∉ breaks) : pieces entry = [entry] :=
  List.splitOnP_eq_singleton fun c inside => decide_eq_false (free c inside)

end Holiday

namespace HolidayList

open Holiday

theorem written_text (content : String) : (text content).written = stripped (pieces content.toList) :=
  stripped_entriesOf content.toList

theorem written_separated {separator : String} (separates : Separates separator) (a b : String) :
    (text (a ++ separator ++ b)).written = (text a).written ++ (text b).written := by
  rw [written_text, written_text, written_text, String.toList_append, String.toList_append, List.append_assoc]
  cases separates with
  | one inside =>
    rw [String.toList_singleton, List.singleton_append, pieces_append inside, stripped_append]
  | pair =>
    change stripped (pieces (a.toList ++ '\r' :: '\n' :: b.toList)) = _
    rw [pieces_append (by decide), pieces_cons (by decide), stripped_append, stripped_blank]

theorem written_entry {entry : String} (free : ∀ c ∈ entry.toList, c ∉ breaks) : (text entry).written = (entries [entry]).written := by
  rw [written_text, pieces_free free]
  rfl

theorem written_append (list more : List String) : (entries (list ++ more)).written = (entries list).written ++ (entries more).written := by
  rw [written, entryTexts, List.map_append, stripped_append]
  rfl

theorem written_joined {pieces : List (String × String)}
    (apart : ∀ piece ∈ pieces, (text piece.1).written = (entries [piece.1]).written ∧ Separates piece.2) :
    (text (joined pieces)).written = (entries (pieces.map Prod.fst)).written := by
  induction pieces with
  | nil => rfl
  | cons piece rest ih =>
    obtain ⟨⟨whole, separates⟩, others⟩ := List.forall_mem_cons.mp apart
    rw [joined, List.map_cons]
    split
    next last =>
      rw [last]
      exact whole
    next =>
      rw [written_separated separates, whole, ih others, ← written_append, List.singleton_append]

def valid (entry : String) : Bool := (entries [entry]).parse.isOk

theorem valid_iff {entry : String} : valid entry = true ↔ ∃ dates, (entries [entry]).parse = .ok dates := by
  unfold valid
  cases (entries [entry]).parse <;> simp [Except.isOk, Except.toBool]

theorem returns_iff_valid {list : List String} :
    (∃ dates, (entries list).parse = .ok dates) ↔ ∀ entry ∈ list, valid entry = true := by
  induction list with
  | nil => exact iff_of_true ⟨[], rfl⟩ (by simp)
  | cons entry others ih =>
    have split : (entries (entry :: others)).written = _ := written_append [entry] others
    rw [List.forall_mem_cons, ← ih, valid_iff, parse_returns_iff, parse_returns_iff, parse_returns_iff, split, List.forall_mem_append]

theorem mem_written {list : List String} {entry : List Char} :
    entry ∈ (entries list).written ↔ entry ≠ [] ∧ ∃ raw ∈ list, Text.strip raw.toList = entry := by
  rw [written, mem_stripped, entryTexts]
  simp

theorem parse_of_invalid {list : List String} {entry : String} (first : list.find? (fun entry => !valid entry) = some entry) :
    (entries list).parse = (entries [entry]).parse := by
  obtain ⟨invalid, before, after, rfl, each⟩ := List.find?_eq_some_iff_append.mp first
  obtain ⟨error, failed⟩ : ∃ error, (entries [entry]).parse = .error error := by
    cases found : (entries [entry]).parse with
    | error error => exact ⟨error, rfl⟩
    | ok dates => simp [valid_iff.mpr ⟨dates, found⟩] at invalid
  have returns : ∃ dates, (entries before).parse = .ok dates :=
    returns_iff_valid.mpr fun earlier inside => by simpa using each earlier inside
  have rest : (entries (entry :: after)).parse = .error error :=
    (parse_append_eq_error (written_append [entry] after)).mpr (.inl failed)
  rw [failed]
  exact (parse_append_eq_error (written_append before _)).mpr (.inr ⟨returns, rest⟩)

/-- The first invalid entry decides; where there is none, which valid ones there are. -/
theorem parse_eq_of_valid {list other : List String}
    (first : list.find? (fun entry => !valid entry) = other.find? (fun entry => !valid entry))
    (same : ∀ entry, valid entry = true → (entry ∈ list ↔ entry ∈ other)) : (entries list).parse = (entries other).parse := by
  cases found : list.find? (fun entry => !valid entry) with
  | some entry => rw [parse_of_invalid found, parse_of_invalid (first.symm.trans found)]
  | none =>
    have each : ∀ entry ∈ list, valid entry = true := by simpa using found
    have eachToo : ∀ entry ∈ other, valid entry = true := by simpa using first.symm.trans found
    have members (entry : String) : entry ∈ list ↔ entry ∈ other :=
      ⟨fun inside => (same entry (each entry inside)).mp inside, fun inside => (same entry (eachToo entry inside)).mpr inside⟩
    obtain ⟨dates, read⟩ := returns_iff_valid.mpr each
    rw [read]
    exact (parse_ok_of_mem (fun entry => by simp only [mem_written, members]) read).symm

/-- A separator makes of a text two texts: their dates together are the dates of the whole, and the error of the first that has
one is the error of the whole. So entries read the same in a text, between any separators, as in a list. -/
theorem parse_separated :
    (∀ a b separator, Separates separator → ∀ dates, (text (a ++ separator ++ b)).parse = .ok dates ↔ ∃ before after,
      (text a).parse = .ok before ∧ (text b).parse = .ok after ∧ Ascending dates ∧
        ∀ date, date ∈ dates ↔ date ∈ before ∨ date ∈ after) ∧
    (∀ a b separator, Separates separator → ∀ error, (text (a ++ separator ++ b)).parse = .error error ↔
      (text a).parse = .error error ∨ (∃ before, (text a).parse = .ok before) ∧ (text b).parse = .error error) ∧
    (∀ pieces : List (String × String), (∀ piece ∈ pieces, (∀ c ∈ piece.1.toList, c ∉ breaks) ∧ Separates piece.2) →
      (text (joined pieces)).parse = (entries (pieces.map Prod.fst)).parse) ∧
    ∀ list other : List String, list.find? (fun entry => !valid entry) = other.find? (fun entry => !valid entry) →
      (∀ entry, valid entry = true → (entry ∈ list ↔ entry ∈ other)) → (entries list).parse = (entries other).parse := by
  refine ⟨?_, ?_, ?_, ?_⟩
  · intro a b separator separates dates
    exact parse_append_eq_ok (written_separated separates a b)
  · intro a b separator separates error
    exact parse_append_eq_error (written_separated separates a b)
  · intro pieces apart
    refine parse_eq_of_written (written_joined fun piece inside => ?_)
    obtain ⟨free, separates⟩ := apart piece inside
    exact ⟨written_entry free, separates⟩
  · intro list other first same
    exact parse_eq_of_valid first same

theorem parse_separated_lineEnds :
    (text ("05/12/2022\r" ++ "\r\n" ++ "\n07/12/2022,")).parse = .ok [⟨738493, by decide⟩, ⟨738495, by decide⟩] ∧
    (text ("05/12/2022\r" ++ "\r\n" ++ "\n31/02/2022")).parse = .error (.holiday "31/02/2022".toList) ∧
    (text (joined [("07/12/2022", "\r\n"), ("", ","), (" 05/12/2022", ",")])).parse =
      (entries ["07/12/2022", "", " 05/12/2022"]).parse ∧
    (entries ["7/12/2022", "5/12/2022", "7/12/2022", "32/12/2022"]).parse = (entries ["5/12/2022", "7/12/2022", "32/12/2022"]).parse := by
  obtain ⟨whole, fails, list, order⟩ := parse_separated
  refine ⟨?_, ?_, ?_, ?_⟩
  · apply (whole "05/12/2022\r" "\n07/12/2022," "\r\n" .pair _).mpr
    refine ⟨[⟨738493, by decide⟩], [⟨738495, by decide⟩], rfl, rfl, ?_, fun date => ?_⟩
    · simp [Ascending]
    · simp
  · exact (fails "05/12/2022\r" "\n31/02/2022" "\r\n" .pair _).mpr (.inr ⟨⟨_, rfl⟩, rfl⟩)
  · apply list
    have comma : Separates "," := .one (c := ',') List.mem_cons_self
    have free (entry : List Char) (apart : entry.all (· ∉ breaks) = true) : ∀ c ∈ entry, c ∉ breaks :=
      fun c inside => of_decide_eq_true (List.all_eq_true.mp apart c inside)
    simp only [List.forall_mem_cons]
    exact ⟨⟨free _ rfl, .pair⟩, ⟨free _ rfl, comma⟩, ⟨free _ rfl, comma⟩, by simp⟩
  · apply order
    · rfl
    · intro entry valid
      have other : entry ≠ "32/12/2022" := by
        rintro rfl
        cases valid
      simp only [List.mem_cons, List.not_mem_nil, other, or_false]
      tauto

end HolidayList
end Overdue
