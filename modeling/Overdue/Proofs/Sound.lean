import Overdue.Proofs.Commits

/-! Sound tables, and that commits keep them sound: each table is in the order of its keys, rows are as the store keeps
them, every submission has its assignment, and a late record has the finish time of its submission. -/
namespace Overdue

open Relation

structure Sound (tables : Tables) : Prop where
  assignments : Table.Sorted Assignment.id tables.assignments
  submissions : Table.Sorted Submission.id tables.submissions
  lateRecords : Table.Sorted LateRecord.submission tables.lateRecords
  assignment {id : Int} {row : Assignment} : tables.assignment? id = some row → row.stored? = some row
  submission {id : Int} {row : Submission} : tables.submission? id = some row → row.stored = row
  placed {id : Int} {row : Submission} : tables.submission? id = some row →
    ∃ assignment, tables.assignment? row.assignment = some assignment
  record {id : Int} {record : LateRecord} : tables.late? id = some record → record.stored = record ∧
    ∃ row, tables.submission? id = some row ∧ row.finishedAt = some record.finishedAt

namespace Tables

variable {tables after : Tables} {id : Int}

theorem assignment?_put {row : Assignment} (saved : tables.putAssignment row = .ok after) :
    ∃ kept, row.stored? = some kept ∧
      ∀ id, after.assignment? id = if id = row.id then some kept else tables.assignment? id := by
  obtain ⟨_, kept, keeps, rfl⟩ := putAssignment_eq_ok.mp saved
  have same : kept.id = row.id := by
    obtain ⟨_, _, rfl⟩ := Assignment.stored?_eq_some.mp keeps
    rfl
  refine ⟨kept, keeps, fun id => ?_⟩
  rw [← same]
  exact Table.find?_put Assignment.id id kept tables.assignments

theorem submission?_put {row : Submission} (saved : tables.putSubmission row = .ok after) (id : Int) :
    after.submission? id = if id = row.id then some row.stored else tables.submission? id := by
  obtain ⟨_, _, rfl⟩ := putSubmission_eq_ok.mp saved
  exact Table.find?_put Submission.id id row.stored tables.submissions

theorem putSubmission_keeps {row : Submission} (saved : tables.putSubmission row = .ok after) :
    after.assignments = tables.assignments ∧ after.lateRecords = tables.lateRecords := by
  obtain ⟨_, _, rfl⟩ := putSubmission_eq_ok.mp saved
  exact ⟨rfl, rfl⟩

theorem late?_put {row : LateRecord} (saved : tables.putLate row = .ok after) (id : Int) :
    after.late? id = if id = row.submission then some row.stored else tables.late? id := by
  obtain ⟨_, rfl⟩ := putLate_eq_ok.mp saved
  exact Table.find?_put LateRecord.submission id row.stored tables.lateRecords

theorem late?_drop (tables : Tables) (dropped id : Int) :
    (tables.dropLate dropped).late? id = if id = dropped then none else tables.late? id :=
  Table.find?_erase LateRecord.submission id dropped tables.lateRecords

end Tables

variable {tables after : Tables} {context : Context} {call : Call}

/-- A commit writes an assignment, or a submission that keeps its finish time, or what an evaluation writes. -/
theorem Commit.writes (commit : Commit context call tables after) (sound : Sound tables) :
    (∃ row, tables.putAssignment row = .ok after) ∨
    (∃ row, tables.putSubmission row = .ok after ∧ (∃ assignment, tables.assignment? row.assignment = some assignment) ∧
      ∀ old finished, tables.submission? row.id = some old → old.finishedAt = some finished →
        row.finishedAt = some finished) ∨
    ∃ id finished policy attempts action row, Evaluation.Judged id finished policy tables attempts (.ok action) after ∧
      tables.submission? id = some row ∧ row.finishedAt = some finished := by
  cases commit with
  | create asked made saved => exact .inl ⟨_, saved⟩
  | changePolicy asked found inside made saved => exact .inl ⟨_, saved⟩
  | start asked admitted allFinished saved =>
    obtain ⟨row, _, found, _⟩ := admitted
    refine .inr (.inl ⟨_, saved, ⟨row, found⟩, fun old finished present => ?_⟩)
    cases (Table.find?_nextKey Submission.id tables.submissions).symm.trans present
  | handIn asked found unfinished saved =>
    have placed := sound.placed found
    refine .inr (.inl ⟨_, saved, placed, fun old finished present finishedAt => ?_⟩)
    obtain rfl := Table.find?_key found
    cases found.symm.trans present
    rw [Submission.isFinished, finishedAt] at unfinished
    cases unfinished
  | judge found finishedAt placed judged => exact .inr (.inr ⟨_, _, _, _, _, _, judged, found, finishedAt⟩)
  | rescore found finishedAt charged scored saved =>
    have placed := sound.placed found
    refine .inr (.inl ⟨_, saved, placed, fun old finished present same => ?_⟩)
    cases found.symm.trans present
    exact same
  | grade asked found finished placed inside charged scored saved =>
    refine .inr (.inl ⟨_, saved, ⟨_, placed⟩, fun old finished present same => ?_⟩)
    obtain rfl := Table.find?_key found
    cases found.symm.trans present
    exact same

/-- A commit leaves an assignment as it is, or adds it, or is of a request to change its policy and changes only that. -/
theorem Commit.assignment_eq (commit : Commit context call tables after) (n : Int) :
    after.assignment? n = tables.assignment? n ∨ (tables.assignment? n = none ∧ after.submissions = tables.submissions) ∨
      ∃ change row policy, call = .changePolicy n change ∧ tables.assignment? n = some row ∧
        after.assignment? n = ({ row with policy } : Assignment).stored? := by
  have same (still : after.assignments = tables.assignments) : after.assignment? n = tables.assignment? n := by
    rw [Tables.assignment?, still]
    rfl
  cases commit with
  | @create _ row _ asked made saved =>
    obtain ⟨_, _, read⟩ := Tables.assignment?_put saved
    by_cases own : n = (Service.numbered row tables).id
    · obtain ⟨_, _, _, rfl⟩ := Tables.putAssignment_eq_ok.mp saved
      rw [own]
      exact .inr (.inl ⟨Table.find?_nextKey Assignment.id tables.assignments, rfl⟩)
    · left
      rw [read, if_neg own]
  | @changePolicy _ change row policy _ asked found inside made saved =>
    obtain ⟨kept, keeps, read⟩ := Tables.assignment?_put saved
    obtain rfl := Table.find?_key found
    by_cases own : n = row.id
    · subst own
      refine .inr (.inr ⟨change, row, policy, asked, found, ?_⟩)
      rw [read, if_pos rfl, keeps]
    · left
      rw [read, if_neg own]
  | start asked admitted allFinished saved => exact .inl (same (Tables.putSubmission_keeps saved).1)
  | handIn asked found unfinished saved => exact .inl (same (Tables.putSubmission_keeps saved).1)
  | judge found finishedAt placed judged => exact .inl (same judged.assignments)
  | rescore found finishedAt charged scored saved => exact .inl (same (Tables.putSubmission_keeps saved).1)
  | grade asked found finished placed inside charged scored saved => exact .inl (same (Tables.putSubmission_keeps saved).1)

namespace Sound

theorem empty : Sound {} where
  assignments := List.Pairwise.nil
  submissions := List.Pairwise.nil
  lateRecords := List.Pairwise.nil
  assignment found := by cases found
  submission found := by cases found
  placed found := by cases found
  record found := by cases found

theorem stored_finish (sound : Sound tables) {id : Int} {row : Submission} {finished : Timestamp}
    (found : tables.submission? id = some row) (finishedAt : row.finishedAt = some finished) : finished.stored = finished := by
  have kept := congrArg Submission.finishedAt (sound.submission found)
  simp only [Submission.stored, finishedAt, Option.map_some] at kept
  exact Option.some.inj kept

/-- A number that is not taken has no late record either. -/
theorem late?_next (sound : Sound tables) : tables.late? (Table.nextKey Submission.id tables.submissions) = none := by
  cases stale : tables.late? (Table.nextKey Submission.id tables.submissions) with
  | none => rfl
  | some record =>
    obtain ⟨_, old, found, _⟩ := sound.record stale
    cases (Table.find?_nextKey Submission.id tables.submissions).symm.trans found

theorem putAssignment (sound : Sound tables) {row : Assignment} (saved : tables.putAssignment row = .ok after) :
    Sound after := by
  obtain ⟨kept, keeps, read⟩ := Tables.assignment?_put saved
  obtain ⟨_, other, keepsToo, rfl⟩ := Tables.putAssignment_eq_ok.mp saved
  cases keeps.symm.trans keepsToo
  refine { sound with assignments := Table.sorted_put sound.assignments _, assignment := ?_, placed := ?_ }
  · intro id found present
    rw [read] at present
    split at present
    next => cases present; exact Assignment.stored?_stored? keeps
    next => exact sound.assignment present
  · intro id found present
    obtain ⟨assignment, placed⟩ := sound.placed present
    rw [read]
    split
    next => exact ⟨_, rfl⟩
    next => exact ⟨_, placed⟩

/-- A submission that is put has an assignment, and the finish time that it had. -/
theorem putSubmission (sound : Sound tables) {row : Submission} (saved : tables.putSubmission row = .ok after)
    (placed : ∃ assignment, tables.assignment? row.assignment = some assignment)
    (keeps : ∀ old finished, tables.submission? row.id = some old → old.finishedAt = some finished →
      row.finishedAt = some finished) : Sound after := by
  have read := Tables.submission?_put saved
  obtain ⟨_, _, rfl⟩ := Tables.putSubmission_eq_ok.mp saved
  refine { sound with submissions := Table.sorted_put sound.submissions _, submission := ?_, placed := ?_, record := ?_ }
  · intro id found present
    rw [read] at present
    split at present
    next => cases present; exact row.stored_stored
    next => exact sound.submission present
  · intro id found present
    rw [read] at present
    split at present
    next => cases present; exact placed
    next => exact sound.placed present
  · intro id record present
    obtain ⟨kept, old, found, finishedAt⟩ := sound.record present
    refine ⟨kept, ?_⟩
    rw [read]
    split
    next same =>
      subst same
      refine ⟨row.stored, rfl, ?_⟩
      simp only [Submission.stored, keeps old _ found finishedAt, Option.map_some]
      exact congrArg some (sound.stored_finish found finishedAt)
    next => exact ⟨old, found, finishedAt⟩

theorem putLate (sound : Sound tables) {record : LateRecord} {row : Submission} (saved : tables.putLate record = .ok after)
    (found : tables.submission? record.submission = some row) (finishedAt : row.finishedAt = some record.finishedAt.stored) :
    Sound after := by
  have read := Tables.late?_put saved
  obtain ⟨_, rfl⟩ := Tables.putLate_eq_ok.mp saved
  refine { sound with lateRecords := Table.sorted_put sound.lateRecords _, record := ?_ }
  intro id other present
  rw [read] at present
  split at present
  next same => cases present; subst same; exact ⟨record.stored_stored, row, found, finishedAt⟩
  next => exact sound.record present

theorem dropLate (sound : Sound tables) (id : Int) : Sound (tables.dropLate id) := by
  refine { sound with lateRecords := Table.sorted_erase sound.lateRecords id, record := ?_ }
  intro other record present
  rw [Tables.late?_drop] at present
  split at present
  next => cases present
  next => exact sound.record present

theorem judged (sound : Sound tables) {id : Int} {finished : Timestamp} {policy : Policy} {attempts : List Tables}
    {result : Except Failure Action} {row : Submission}
    (judged : Evaluation.Judged id finished policy tables attempts result after)
    (found : tables.submission? id = some row) (finishedAt : row.finishedAt = some finished) : Sound after := by
  cases judged with
  | wide | undecided | noop | unsaved => exact sound
  | delete onTime present => exact sound.dropLate id
  | create late absent instant frozen saved =>
    have naive := sound.stored_finish found finishedAt
    rw [← naive] at instant
    cases instant
    refine sound.putLate saved found ?_
    rw [finishedAt, ← naive]
    rfl
  | update late present frozen saved =>
    obtain ⟨kept, other, foundToo, finishedAt⟩ := sound.record present
    have own : _ = id := Table.find?_key present
    subst own
    refine sound.putLate saved foundToo ?_
    rw [finishedAt, sound.stored_finish foundToo finishedAt]

theorem commit (sound : Sound tables) (commit : Commit context call tables after) : Sound after := by
  rcases commit.writes sound with ⟨row, saved⟩ | ⟨row, saved, placed, keeps⟩ | ⟨_, _, _, _, _, _, judged, found, finishedAt⟩
  · exact sound.putAssignment saved
  · exact sound.putSubmission saved placed keeps
  · exact sound.judged judged found finishedAt

theorem commits (sound : Sound tables) (reached : ReflTransGen (Commit context call) tables after) : Sound after := by
  induction reached with
  | refl => exact sound
  | tail _ commit ih => exact ih.commit commit

end Sound

theorem Timestamp.utc_of_stored {instant : Timestamp} (kept : instant.stored = instant) : instant.utc = .ok instant.reading := by
  rw [← kept]
  rfl

/-- The limits of an assignment are kept without an offset, so that reading them does not fail. -/
theorem Assignment.dueAt_of_stored {row : Assignment} (kept : row.stored? = some row) {due : Timestamp}
    (dueAt : row.policy.dueAt = some due) : due.utc = .ok due.reading := by
  obtain ⟨_, _, whole⟩ := Assignment.stored?_eq_some.mp kept
  have same : row.policy.dueAt.map Timestamp.stored = row.policy.dueAt := (congrArg (·.policy.dueAt) whole).symm
  rw [dueAt] at same
  exact Timestamp.utc_of_stored (Option.some.inj same)

theorem Assignment.due?_of_stored {row : Assignment} (kept : row.stored? = some row) : ∃ due, row.policy.due? = .ok due := by
  unfold Policy.due?
  cases dueAt : row.policy.dueAt with
  | none => exact ⟨none, rfl⟩
  | some due =>
    simp only [dueAt_of_stored kept dueAt]
    exact ⟨_, rfl⟩

theorem Assignment.isClosed_of_stored {row : Assignment} (kept : row.stored? = some row) (now : Reading) :
    Service.isClosed row now = .ok (row.closeAt.any fun limit => limit.reading.lt now) := by
  obtain ⟨_, _, whole⟩ := Assignment.stored?_eq_some.mp kept
  have limit : row.closeAt = row.closeAt.map Timestamp.stored := congrArg Assignment.closeAt whole
  rw [Service.isClosed, limit]
  cases row.closeAt <;> rfl

/-- Tables in which every number fits its cell. -/
structure Fitting (tables : Tables) : Prop where
  assignment {id : Int} {row : Assignment} : tables.assignment? id = some row → row.fits = true
  submission {id : Int} {row : Submission} : tables.submission? id = some row → row.fits = true

namespace Fitting

theorem empty : Fitting {} where
  assignment found := by cases found
  submission found := by cases found

theorem putAssignment (fitting : Fitting tables) {row : Assignment} (saved : tables.putAssignment row = .ok after) :
    Fitting after := by
  obtain ⟨kept, keeps, read⟩ := Tables.assignment?_put saved
  obtain ⟨fits, _, _, rfl⟩ := Tables.putAssignment_eq_ok.mp saved
  refine { fitting with assignment := ?_ }
  intro id other present
  rw [read] at present
  split at present
  next =>
    cases present
    obtain ⟨_, _, rfl⟩ := Assignment.stored?_eq_some.mp keeps
    exact fits
  next => exact fitting.assignment present

theorem putSubmission (fitting : Fitting tables) {row : Submission} (saved : tables.putSubmission row = .ok after) :
    Fitting after := by
  have read := Tables.submission?_put saved
  obtain ⟨fits, _, rfl⟩ := Tables.putSubmission_eq_ok.mp saved
  refine { fitting with submission := ?_ }
  intro id other present
  rw [read] at present
  split at present
  next => cases present; exact fits
  next => exact fitting.submission present

theorem commit (fitting : Fitting tables) (sound : Sound tables) (commit : Commit context call tables after) : Fitting after := by
  rcases commit.writes sound with ⟨row, saved⟩ | ⟨row, saved, _⟩ | ⟨_, _, _, _, _, _, judged, _⟩
  · exact fitting.putAssignment saved
  · exact fitting.putSubmission saved
  · refine ⟨fun {id row} found => ?_, fun {id row} found => ?_⟩
    · rw [Tables.assignment?, judged.assignments] at found
      exact fitting.assignment found
    · rw [Tables.submission?, judged.submissions] at found
      exact fitting.submission found

/-- The numbers by which a submission is asked for and its assignment is found. -/
theorem submission_numbers (fitting : Fitting tables) {id : Int} {row : Submission} (found : tables.submission? id = some row) :
    fitsWord id = true ∧ fitsWord row.assignment = true ∧ fitsWord row.student = true := by
  obtain rfl := Table.find?_key found
  have fits := fitting.submission found
  simp only [Submission.fits, Bool.and_eq_true] at fits
  exact ⟨fits.1.1.1.1, fits.1.1.1.2, fits.1.1.2⟩

theorem assignment_number (fitting : Fitting tables) {id : Int} {row : Assignment} (found : tables.assignment? id = some row) :
    fitsWord id = true := by
  obtain rfl := Table.find?_key found
  exact (Bool.and_eq_true_iff.mp (fitting.assignment found)).1

end Fitting
end Overdue
