import Overdue.Proofs.GradeScore
import Overdue.Proofs.Overrun

/-! The penalty and the scores of a row. They are written by gradings and by regrades, and every commit of either leaves them
together, so that no fault between two commits takes them apart. -/
namespace Overdue

open Failure

/-- A row whose penalty and scores go together. Only a finished submission has any. -/
structure Coherent (row : Submission) : Prop where
  penalty : 0 ≤ row.penalty ∧ row.penalty ≤ 100
  adjusted : ∀ raw, row.rawScore = some raw → row.isFinished = true ∧
    ∃ score, row.score = some score ∧ Score.adjust raw row.penalty = .ok score
  score : ∀ score, row.score = some score → score ≠ .nan ∧ Double.zero.le score = true
  unfinished : row.finishedAt = none → row.penalty = 0 ∧ row.rawScore = none ∧ row.score = none

variable {tables after : Tables} {context : Context} {call : Call} {row : Submission}

namespace Coherent

theorem of_finished (finished : row.isFinished = true) (penalty : 0 ≤ row.penalty ∧ row.penalty ≤ 100)
    (adjusted : ∀ raw, row.rawScore = some raw → ∃ score, row.score = some score ∧ Score.adjust raw row.penalty = .ok score)
    (score : ∀ score, row.score = some score → Double.zero.le score = true) : Coherent row where
  penalty := penalty
  adjusted raw present := ⟨finished, adjusted raw present⟩
  score value scored := ⟨Double.ne_nan_of_le (score value scored), score value scored⟩
  unfinished none := by
    rw [Submission.isFinished, none] at finished
    cases finished

/-- What the cells keep of the scores still goes together. -/
theorem stored (coherent : Coherent row) : Coherent row.stored where
  penalty := coherent.penalty
  adjusted := by
    intro kept keeps
    obtain ⟨raw, present, number⟩ := Option.bind_eq_some_iff.mp keeps
    obtain ⟨finished, score, scored, adjusts⟩ := coherent.adjusted raw present
    refine ⟨?_, score, ?_, (Score.adjust_number number row.penalty).trans adjusts⟩
    · simpa [Submission.isFinished, Submission.stored] using finished
    · rw [Submission.stored, scored]
      exact Score.adjust_kept adjusts
  score := by
    intro kept keeps
    obtain ⟨score, scored, number⟩ := Option.bind_eq_some_iff.mp keeps
    exact ⟨Cell.number_ne_nan number, (Cell.number_le number Double.zero).2.trans (coherent.score score scored).2⟩
  unfinished := by
    intro none
    obtain ⟨free, raw, score⟩ := coherent.unfinished (Option.map_eq_none_iff.mp none)
    exact ⟨free, by simp [Submission.stored, raw], by simp [Submission.stored, score]⟩

theorem opened (context : Context) (id : Int) (form : StartForm) (tables : Tables) :
    Coherent (Service.opened context id form tables) where
  penalty := show (0 : Int) ≤ 0 ∧ (0 : Int) ≤ 100 by decide
  adjusted _ none := by cases none
  score _ none := by cases none
  unfinished _ := ⟨rfl, rfl, rfl⟩

theorem handedIn (coherent : Coherent row) (unfinished : row.isFinished = false) (context : Context) (form : FinishForm) :
    Coherent (Service.handedIn context form row) where
  penalty := coherent.penalty
  adjusted raw present := by cases unfinished.symm.trans (coherent.adjusted raw present).1
  score := coherent.score
  unfinished none := by cases none

theorem rescored (coherent : Coherent row) (finished : row.isFinished = true) {penalty : Int} {score : Option Double}
    (bounds : 0 ≤ penalty ∧ penalty ≤ 100) (scores : Evaluation.adjusted row penalty = .ok score) :
    Coherent { row with penalty, score } := by
  unfold Evaluation.adjusted at scores
  cases raw : row.rawScore with
  | none =>
    rw [raw] at scores
    cases scores
    refine .of_finished finished bounds (fun value present => ?_) fun value scored => (coherent.score value scored).2
    cases present
  | some score =>
    rw [raw] at scores
    obtain ⟨value, adjusts, rfl⟩ := map_eq_ok.mp scores
    refine .of_finished finished bounds (fun other present => ?_) fun other scored => ?_
    · cases present
      exact ⟨value, rfl, adjusts⟩
    · cases scored
      exact Score.zero_le_adjust adjusts

theorem marked (finished : row.isFinished = true) {form : GradeForm} {penalty : Int} {score : Double}
    (bounds : 0 ≤ penalty ∧ penalty ≤ 100) (adjusts : Score.adjust form.score penalty = .ok score) (context : Context)
    (policy : Policy) : Coherent (Service.marked context form policy penalty score row) := by
  refine .of_finished finished bounds (fun raw present => ?_) fun value scored => ?_
  · cases present
    exact ⟨score, rfl, adjusts⟩
  · cases scored
    exact Score.zero_le_adjust adjusts

end Coherent

theorem Commit.coherent (commit : Commit context call tables after)
    (coherent : ∀ id row, tables.submission? id = some row → Coherent row) :
    ∀ id row, after.submission? id = some row → Coherent row := by
  have put {row : Submission} (saved : tables.putSubmission row = .ok after) (whole : Coherent row) :
      ∀ id row, after.submission? id = some row → Coherent row := by
    intro id kept present
    rw [Tables.submission?_put saved] at present
    split at present
    next => cases present; exact whole.stored
    next => exact coherent id kept present
  cases commit with
  | create asked made saved =>
    obtain ⟨_, _, _, rfl⟩ := Tables.putAssignment_eq_ok.mp saved
    exact coherent
  | changePolicy asked found inside made saved =>
    obtain ⟨_, _, _, rfl⟩ := Tables.putAssignment_eq_ok.mp saved
    exact coherent
  | start asked admitted allFinished saved => exact put saved (.opened _ _ _ _)
  | handIn asked found unfinished saved => exact put saved ((coherent _ _ found).handedIn unfinished _ _)
  | judge found finishedAt placed judged =>
    intro id row present
    rw [Tables.submission?, judged.submissions] at present
    exact coherent id row present
  | rescore found finishedAt charged scored saved =>
    have finished := Option.isSome_of_mem finishedAt
    rw [Evaluation.charge_eq] at charged
    exact put saved ((coherent _ _ found).rescored finished (Evaluation.charged_bounds charged) scored)
  | grade asked found finished placed inside charged scored saved =>
    rw [Evaluation.charge_eq] at charged
    exact put saved (.marked finished (Evaluation.charged_bounds charged) scored _ _)

namespace History

theorem coherent (history : List Event) :
    ∀ id row, (History.tables history).submission? id = some row → Coherent row :=
  invariant (fun _ _ found => by cases found) (fun _ before commit => commit.coherent before) history

/-- After every history, with whatever faults, the penalty and the scores of every submission go together: the penalty is a
percentage, and a score that is stored is no less than zero and is adjusted by it from the raw score, if there is one. A
submission that is not finished has neither of these nor a late record. -/
theorem scores_coherent (history : List Event) : ∀ row ∈ (History.tables history).submissions, Coherent row ∧
    (row.finishedAt = none → ∀ record ∈ (History.tables history).lateRecords, record.submission ≠ row.id) := by
  intro row member
  have sound := sound history
  have found := Table.find?_of_mem sound.submissions member
  refine ⟨coherent history row.id row found, fun unfinished record recorded own => ?_⟩
  have present : (History.tables history).late? row.id = some record :=
    (Table.find?_eq_some_iff sound.lateRecords).mpr ⟨recorded, own⟩
  obtain ⟨_, other, foundToo, finishedAt⟩ := sound.record present
  cases found.symm.trans foundToo
  cases unfinished.symm.trans finishedAt

/-- A late attempt is graded, the cap is raised, and the second commit of the regrade after that fails. -/
def halfRegraded : List Event := [
  { Event.plain 63845300000000000 .post ["submissions", "1", "regrade"] [] with faultAfter := some 1 },
  .plain 63845200000000000 .patch ["assignments", "1", "late-policy"] [("max_percentage_penalty", .int 80)],
  .plain 63845100000000000 .patch ["submissions", "1", "grade"] [("score", .int 80)],
  .plain 63845000000000000 .post ["submissions", "1", "finish"] [],
  .plain 63840000000000000 .post ["assignments", "1", "submissions"] [("student_id", .int 7)],
  .plain 63830000000000000 .post ["assignments"]
    [("title", .str "Essay"), ("due_at", .str "2024-01-02T03:04:05Z")]]

/-- The late record costs more by then than the penalty of the row, from which its score still is. -/
theorem scores_coherent_halfRegraded :
    Evaluation.charge 1 ⟨[], .utc⟩ (History.tables halfRegraded) = .ok 80 ∧
    ∃ row ∈ (History.tables halfRegraded).submissions, row.id = 1 ∧ row.penalty = 50 ∧
      ∃ raw score, row.rawScore = some raw ∧ row.score = some score ∧ Score.adjust raw 50 = .ok score := by
  refine ⟨by decide +kernel, ?_⟩
  have facts : ∃ row ∈ (History.tables halfRegraded).submissions, row.id = 1 ∧ row.penalty = 50 ∧
      row.rawScore.isSome = true := by decide +kernel
  obtain ⟨row, member, own, penalty, graded⟩ := facts
  obtain ⟨raw, present⟩ := Option.isSome_iff_exists.mp graded
  obtain ⟨_, score, scored, adjusts⟩ := (scores_coherent halfRegraded row member).1.adjusted raw present
  rw [penalty] at adjusts
  exact ⟨row, member, own, penalty, raw, score, present, scored, adjusts⟩

end History
end Overdue
