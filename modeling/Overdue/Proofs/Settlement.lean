import Overdue.Proofs.Snapshot

/-! What a regrade settles. The late record that an evaluation leaves and the row that a regrade leaves are functions of
the row, of the policy and of the late record that there was, and on what it has left a regrade settles the same again. -/
namespace Overdue

open Failure Work

variable {tables after : Tables} {calendar : Calendar} {policy : Policy} {finished : Timestamp} {attempts : List Tables}
  {id : Int} {row : Submission}

theorem Policy.terms_fits {terms : Terms} (frozen : policy.terms = .ok terms) : terms.fits = policy.fits := by
  unfold Policy.terms at frozen
  split at frozen
  next => cases frozen
  next due _ =>
    obtain ⟨_, _, rfl⟩ := map_eq_ok.mp frozen
    rfl

theorem Submission.clashes_comm (row other : Submission) : row.clashes other = other.clashes row := by
  rw [Bool.eq_iff_iff]
  simp only [clashes, Bool.and_eq_true, decide_eq_true_eq]
  grind

/-- What the store holds of one submission: its row and its late record. -/
def Tables.entry (tables : Tables) (id : Int) : Option Submission × Option LateRecord :=
  (tables.submission? id, tables.late? id)

/-- Tables as the store can hold them: in the order of their keys, with rows in the form in which they are kept, and no
attempt of a student twice. -/
structure Held (tables : Tables) : Prop where
  submissions : Table.Sorted Submission.id tables.submissions
  lateRecords : Table.Sorted LateRecord.submission tables.lateRecords
  kept : ∀ row ∈ tables.submissions, row.stored = row
  apart : ∀ row ∈ tables.submissions, ∀ other ∈ tables.submissions, row.clashes other = false

namespace Held

theorem empty : Held {} where
  submissions := List.Pairwise.nil
  lateRecords := List.Pairwise.nil
  kept _ member := by cases member
  apart _ member := by cases member

theorem putSubmission (held : Held tables) (saved : tables.putSubmission row = .ok after) : Held after := by
  obtain ⟨_, free, rfl⟩ := Tables.putSubmission_eq_ok.mp saved
  have members (other : Submission) := Table.mem_put held.submissions row.stored other
  have fresh : ∀ other ∈ tables.submissions, row.stored.clashes other = false := by
    intro other inside
    have unlike : ¬row.clashes other = true := List.any_eq_false.mp free other inside
    exact Bool.eq_false_iff.mpr unlike
  refine { held with submissions := Table.sorted_put held.submissions _, kept := ?_, apart := ?_ }
  · intro other inside
    rcases (members other).mp inside with rfl | ⟨old, _⟩
    · exact row.stored_stored
    · exact held.kept other old
  · intro first inside second insideToo
    rcases (members first).mp inside with rfl | ⟨old, _⟩
    · rcases (members second).mp insideToo with rfl | ⟨oldToo, _⟩
      · simp [Submission.clashes]
      · exact fresh second oldToo
    · rcases (members second).mp insideToo with rfl | ⟨oldToo, _⟩
      · rw [Submission.clashes_comm]
        exact fresh first old
      · exact held.apart first old second oldToo

theorem putLate (held : Held tables) {record : LateRecord} (saved : tables.putLate record = .ok after) : Held after := by
  obtain ⟨_, rfl⟩ := Tables.putLate_eq_ok.mp saved
  exact { held with lateRecords := Table.sorted_put held.lateRecords _ }

theorem dropLate (held : Held tables) (id : Int) : Held (tables.dropLate id) :=
  { held with lateRecords := Table.sorted_erase held.lateRecords id }

theorem judged (held : Held tables) {result : Except Failure Action}
    (judged : Evaluation.Judged id finished policy tables attempts result after) : Held after := by
  cases judged with
  | wide | undecided | noop | unsaved => exact held
  | delete => exact held.dropLate id
  | create late absent instant frozen saved => exact held.putLate saved
  | update late present frozen saved => exact held.putLate saved

theorem commit (held : Held tables) {context : Context} {call : Call} (commit : Commit context call tables after) :
    Held after := by
  cases commit with
  | create asked made saved =>
    obtain ⟨_, _, _, rfl⟩ := Tables.putAssignment_eq_ok.mp saved
    exact { held with }
  | changePolicy asked found inside made saved =>
    obtain ⟨_, _, _, rfl⟩ := Tables.putAssignment_eq_ok.mp saved
    exact { held with }
  | start asked admitted allFinished saved => exact held.putSubmission saved
  | handIn asked found unfinished saved => exact held.putSubmission saved
  | judge found finishedAt placed judged => exact held.judged judged
  | rescore found finishedAt charged scored saved => exact held.putSubmission saved
  | grade asked found finished placed inside charged scored saved => exact held.putSubmission saved

/-- A row that is the same attempt of the same student takes the place of the row that there is. -/
theorem puts (held : Held tables) (found : tables.submission? id = some row) {changed : Submission}
    (fits : changed.fits = true) (same : changed.clashes = row.clashes) : ∃ after, tables.putSubmission changed = .ok after := by
  have free : tables.submissions.any changed.clashes = false := by
    rw [same]
    apply List.any_eq_false.mpr
    intro other inside
    have unlike := held.apart row (Table.mem_of_find? found) other inside
    exact Bool.eq_false_iff.mp unlike
  exact ⟨_, Tables.putSubmission_eq_ok.mpr ⟨fits, free, rfl⟩⟩

theorem ext (held : Held tables) (alike : Held after) (assignments : tables.assignments = after.assignments)
    (entries : ∀ id, tables.entry id = after.entry id) : tables = after := by
  have submissions : tables.submissions = after.submissions := by
    apply held.submissions.ext alike.submissions
    intro id
    exact congrArg Prod.fst (entries id)
  have lateRecords : tables.lateRecords = after.lateRecords := by
    apply held.lateRecords.ext alike.lateRecords
    intro id
    exact congrArg Prod.snd (entries id)
  cases tables
  cases after
  simp_all

end Held

theorem History.held (history : List Event) : Held (History.tables history) :=
  invariant .empty (fun _ before commit => before.commit commit) history

namespace Evaluation

/-- The late record that an evaluation makes of the one that there is. The finish time of a record stays. -/
def revised (id : Int) (finished : Timestamp) (policy : Policy) (record : Option LateRecord) :
    Except Failure (Option LateRecord) := do
  if ← policy.isLate finished then
    let terms ← policy.terms
    let done ← finished.utc
    return some (LateRecord.stored ⟨id, (record.map LateRecord.finishedAt).getD (.ofUtc done), terms⟩)
  else return none

theorem revised_onTime (onTime : policy.isLate finished = .ok false) (id : Int) (record : Option LateRecord) :
    revised id finished policy record = .ok none := by
  rw [revised, bind_of_ok onTime]
  rfl

theorem revised_late {done : Reading} {terms : Terms} (late : policy.isLate finished = .ok true)
    (instant : finished.utc = .ok done) (frozen : policy.terms = .ok terms) (id : Int) (record : Option LateRecord) :
    revised id finished policy record =
      .ok (some (LateRecord.stored ⟨id, (record.map LateRecord.finishedAt).getD (.ofUtc done), terms⟩)) := by
  rw [revised, bind_of_ok late, if_pos rfl, bind_of_ok frozen, bind_of_ok instant]
  rfl

theorem revised_eq_ok {record revision : Option LateRecord} (ok : revised id finished policy record = .ok revision) :
    (policy.isLate finished = .ok false ∧ revision = none) ∨
    ∃ done terms, policy.isLate finished = .ok true ∧ finished.utc = .ok done ∧ policy.terms = .ok terms ∧
      revision = some (LateRecord.stored ⟨id, (record.map LateRecord.finishedAt).getD (.ofUtc done), terms⟩) := by
  obtain ⟨late, decided, rest⟩ := bind_eq_ok.mp ok
  cases late with
  | false =>
    cases rest
    exact .inl ⟨decided, rfl⟩
  | true =>
    obtain ⟨terms, frozen, rest⟩ := bind_eq_ok.mp rest
    obtain ⟨done, instant, same⟩ := bind_eq_ok.mp rest
    cases same
    exact .inr ⟨done, terms, decided, instant, frozen, rfl⟩

theorem revised_again {record revision : Option LateRecord} (ok : revised id finished policy record = .ok revision) :
    revised id finished policy revision = .ok revision := by
  rcases revised_eq_ok ok with ⟨onTime, rfl⟩ | ⟨done, terms, late, instant, frozen, rfl⟩
  · exact revised_onTime onTime id none
  · rw [revised_late late instant frozen]
    rfl

theorem Judged.revises {action : Action} (judged : Judged id finished policy tables attempts (.ok action) after) :
    revised id finished policy (tables.late? id) = .ok (after.late? id) := by
  cases judged with
  | noop onTime absent => rw [absent, revised_onTime onTime]
  | delete onTime present => rw [Tables.late?_drop, if_pos rfl, revised_onTime onTime]
  | create late absent instant frozen saved =>
    rw [Tables.late?_put saved, if_pos rfl, absent, revised_late late instant frozen]
    rfl
  | @update record _ _ late present frozen saved =>
    have own : record.submission = id := Table.find?_key present
    obtain ⟨_, _, _, done, _, _, _, _, instant, _⟩ := Policy.isLate_eq_true late
    rw [Tables.late?_put saved, if_pos own.symm, present, revised_late late instant frozen]
    simp [LateRecord.stored, own]

/-- An evaluation that no fault strikes comes to an action exactly for these. -/
def Judgeable (id : Int) (finished : Timestamp) (policy : Policy) : Prop :=
  fitsWord id = true ∧ ∃ late, policy.isLate finished = .ok late ∧ (late = true → policy.fits = true)

theorem Judged.returns_iff {result : Except Failure Action} (fits : fitsWord id = true)
    (judged : Judged id finished policy tables attempts result after) :
    (∃ action, result = .ok action) ↔ Judgeable id finished policy := by
  have decided {late : Bool} (isLate : policy.isLate finished = .ok late) (holds : late = true → policy.fits = true) :
      Judgeable id finished policy := ⟨fits, late, isLate, holds⟩
  have saves {record : LateRecord} (frozen : policy.terms = .ok record.terms) (own : record.submission = id) :
      record.fits = policy.fits := by
    rw [LateRecord.fits, Policy.terms_fits frozen, own, fits, Bool.true_and]
  cases judged with
  | wide wide => cases fits.symm.trans wide
  | undecided undecided =>
    constructor
    · rintro ⟨_, impossible⟩
      cases impossible
    · rintro ⟨_, late, decided, _⟩
      cases undecided.symm.trans decided
  | noop onTime absent => exact iff_of_true ⟨_, rfl⟩ (decided onTime (by simp))
  | delete onTime present => exact iff_of_true ⟨_, rfl⟩ (decided onTime (by simp))
  | create late absent instant frozen saved =>
    have stored := (Tables.putLate_eq_ok.mp saved).1
    rw [saves frozen rfl] at stored
    exact iff_of_true ⟨_, rfl⟩ (decided late fun _ => stored)
  | @update record terms _ late present frozen saved =>
    have stored := (Tables.putLate_eq_ok.mp saved).1
    have own : record.submission = id := Table.find?_key present
    have same : ({ record with terms } : LateRecord).fits = policy.fits := saves frozen own
    rw [same] at stored
    exact iff_of_true ⟨_, rfl⟩ (decided late fun _ => stored)
  | unsaved record late own frozen refused =>
    constructor
    · rintro ⟨_, impossible⟩
      cases impossible
    · rintro ⟨_, other, decided, holds⟩
      cases late.symm.trans decided
      rw [Tables.putLate, saves frozen own, if_pos (holds rfl)] at refused
      cases refused

def charged (calendar : Calendar) : Option LateRecord → Except Failure Int
  | none => .ok 0
  | some record => Penalty.percentage record.terms record.finishedAt calendar

theorem charge_eq (id : Int) (calendar : Calendar) (tables : Tables) :
    charge id calendar tables = charged calendar (tables.late? id) := by
  unfold charge charged
  cases tables.late? id <;> rfl

/-- The row and the late record that a regrade makes of those that there are. -/
def settled (calendar : Calendar) (policy : Policy) (finished : Timestamp) (row : Submission) (record : Option LateRecord) :
    Except Failure (Submission × Option LateRecord) := do
  let record ← revised row.id finished policy record
  let penalty ← charged calendar record
  let score ← adjusted row penalty
  return (({ row with penalty, score } : Submission).stored, record)

theorem settled_eq_ok {record : Option LateRecord} {entry : Submission × Option LateRecord} :
    settled calendar policy finished row record = .ok entry ↔
      ∃ penalty score, revised row.id finished policy record = .ok entry.2 ∧ charged calendar entry.2 = .ok penalty ∧
        adjusted row penalty = .ok score ∧ ({ row with penalty, score } : Submission).stored = entry.1 := by
  constructor
  · intro ok
    obtain ⟨revision, revises, ok⟩ := bind_eq_ok.mp ok
    obtain ⟨penalty, charges, ok⟩ := bind_eq_ok.mp ok
    obtain ⟨score, scores, ok⟩ := bind_eq_ok.mp ok
    cases ok
    exact ⟨penalty, score, revises, charges, scores, rfl⟩
  · rintro ⟨penalty, score, revises, charges, scores, same⟩
    rw [settled, bind_of_ok revises, bind_of_ok charges, bind_of_ok scores, same]
    rfl

theorem adjusted_again {penalty : Int} {score : Option Double} (scores : adjusted row penalty = .ok score) :
    ∃ again, adjusted { row with penalty, score := score.bind Cell.number } penalty = .ok again ∧
      again.bind Cell.number = score.bind Cell.number := by
  -- the raw score alone decides, and it stays
  unfold adjusted at scores ⊢
  cases raw : row.rawScore with
  | none => exact ⟨_, rfl, Cell.bind_number_number score⟩
  | some value =>
    rw [raw] at scores
    exact ⟨score, scores, rfl⟩

/-- What is left settles the same again, also where the row is still the one before. -/
theorem settled_again {record : Option LateRecord} {entry : Submission × Option LateRecord} (kept : row.stored = row)
    (ok : settled calendar policy finished row record = .ok entry) :
    settled calendar policy finished row entry.2 = .ok entry ∧
      settled calendar policy finished entry.1 entry.2 = .ok entry := by
  obtain ⟨penalty, score, revises, charges, scores, same⟩ := settled_eq_ok.mp ok
  have revisesToo := revised_again revises
  rw [Submission.stored_rescored kept] at same
  refine ⟨settled_eq_ok.mpr ⟨penalty, score, revisesToo, charges, scores, ?_⟩, ?_⟩
  · rw [Submission.stored_rescored kept, same]
  · obtain ⟨again, scoresToo, number⟩ := adjusted_again scores
    rw [← same]
    refine settled_eq_ok.mpr ⟨penalty, again, revisesToo, charges, scoresToo, ?_⟩
    have stored := Submission.stored_rescored kept penalty again
    rw [number] at stored
    exact stored.trans same

/-- A regrade that no fault strikes leaves this of a submission. -/
inductive Settles (calendar : Calendar) (tables : Tables) (id : Int) : Option Submission × Option LateRecord → Prop
  | intro {row : Submission} {finished : Timestamp} {assignment : Assignment} {entry : Submission × Option LateRecord}
    (found : tables.submission? id = some row) (finishedAt : row.finishedAt = some finished)
    (placed : tables.assignment? row.assignment = some assignment) (judgeable : Judgeable id finished assignment.policy)
    (settles : settled calendar assignment.policy finished row (tables.late? id) = .ok entry)
    (fits : entry.1.fits = true) : Settles calendar tables id (some entry.1, entry.2)

theorem Settles.unique {entry other : Option Submission × Option LateRecord} (settles : Settles calendar tables id entry)
    (again : Settles calendar tables id other) : entry = other := by
  obtain ⟨found, finishedAt, placed, _, settles, _⟩ := settles
  obtain ⟨foundToo, finishedToo, placedToo, _, settlesToo, _⟩ := again
  cases found.symm.trans foundToo
  cases finishedAt.symm.trans finishedToo
  cases placed.symm.trans placedToo
  cases settles.symm.trans settlesToo
  rfl

theorem Regraded.settles {penalty : Int} (regraded : Regraded id calendar tables attempts (.ok penalty) after) :
    Settles calendar tables id (after.entry id) ∧ after.assignments = tables.assignments ∧
      (after.submission? id).map Submission.penalty = some penalty ∧ ∀ other ≠ id, after.entry other = tables.entry other := by
  obtain ⟨row, finished, assignment, _, _, middle, score, found, finishedAt, placed, judged, charges, scores, saved⟩ :=
    regraded.of_ok
  obtain rfl := Table.find?_key found
  have fits : fitsWord row.id = true := (Tables.putSubmission_found saved).1
  have read := Tables.submission?_put saved
  obtain ⟨assignments, lateRecords⟩ := Tables.putSubmission_keeps saved
  have late (other : Int) : after.late? other = middle.late? other := by
    rw [Tables.late?, lateRecords]
    rfl
  have submissions (other : Int) : middle.submission? other = tables.submission? other := by
    rw [Tables.submission?, judged.submissions]
    rfl
  have entry : after.entry row.id = (some ({ row with penalty, score } : Submission).stored, middle.late? row.id) := by
    rw [Tables.entry, read, if_pos rfl, late]
  refine ⟨?_, assignments.trans judged.assignments, ?_, fun other apart => ?_⟩
  · rw [entry]
    have settles : settled calendar assignment.policy finished row (tables.late? row.id) =
        .ok (({ row with penalty, score } : Submission).stored, middle.late? row.id) :=
      settled_eq_ok.mpr ⟨penalty, score, judged.revises, (charge_eq _ _ _).symm.trans charges, scores, rfl⟩
    have judgeable := (judged.returns_iff fits).mp ⟨_, rfl⟩
    exact .intro found finishedAt placed judgeable settles (Tables.putSubmission_eq_ok.mp saved).1
  · rw [read, if_pos rfl]
    rfl
  · rw [Tables.entry, read, if_neg apart, late, judged.late?_other apart, submissions]
    rfl

theorem Regraded.entry_other {penalty : Int} (regraded : Regraded id calendar tables attempts (.ok penalty) after) {other : Int}
    (apart : other ≠ id) : after.entry other = tables.entry other := regraded.settles.2.2.2 other apart

theorem Regraded.returns {result : Except Failure Int} {entry : Option Submission × Option LateRecord}
    (held : Held tables) (settles : Settles calendar tables id entry)
    (regraded : Regraded id calendar tables attempts result after) : ∃ penalty, result = .ok penalty := by
  obtain @⟨row, finished, assignment, entry, found, finishedAt, placed, judgeable, settles, fits⟩ := settles
  obtain ⟨penalty, score, revises, charges, scores, same⟩ := settled_eq_ok.mp settles
  have fits : ({ row with penalty, score } : Submission).fits = true := by
    rw [← same] at fits
    exact fits
  cases regraded with
  | wide wide =>
    rcases wide with wide | ⟨_, foundToo, wide⟩
    · cases judgeable.1.symm.trans wide
    · cases found.symm.trans foundToo
      simp only [Submission.fits, Bool.and_eq_true] at fits
      cases fits.1.1.1.2.symm.trans wide
  | missing absent => cases found.symm.trans absent
  | unfinished foundToo unfinished =>
    cases found.symm.trans foundToo
    cases finishedAt.symm.trans unfinished
  | unplaced foundToo absent =>
    cases found.symm.trans foundToo
    cases placed.symm.trans absent
  | unjudged foundToo finishedToo placedToo judged =>
    cases found.symm.trans foundToo
    cases finishedAt.symm.trans finishedToo
    cases placed.symm.trans placedToo
    obtain ⟨_, impossible⟩ := (judged.returns_iff judgeable.1).mpr judgeable
    cases impossible
  | @rescored _ _ _ _ _ _ middle _ _ foundToo finishedToo placedToo judged rescored =>
    cases found.symm.trans foundToo
    cases finishedAt.symm.trans finishedToo
    cases placed.symm.trans placedToo
    obtain rfl := Table.find?_key found
    have late := Except.ok.inj (judged.revises.symm.trans revises)
    have still : middle.submission? row.id = some row := by
      rw [Tables.submission?, judged.submissions]
      exact found
    rw [← late, ← charge_eq] at charges
    cases rescored with
    | uncharged failed => cases charges.symm.trans failed
    | unscored chargesToo failed =>
      cases charges.symm.trans chargesToo
      cases scores.symm.trans failed
    | unsaved chargesToo scoresToo refused =>
      cases charges.symm.trans chargesToo
      cases scores.symm.trans scoresToo
      obtain ⟨_, saved⟩ := (held.judged judged).puts still fits rfl
      cases saved.symm.trans refused
    | saved chargesToo scoresToo saved => exact ⟨_, rfl⟩

end Evaluation
end Overdue
