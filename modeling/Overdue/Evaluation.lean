import Overdue.Penalty
import Overdue.Score
import Overdue.Store.Session

/-! Evaluation of submissions. The late record of a submission follows its last evaluation: there is one exactly when
that found the finish late, with the terms of the last evaluation and the finish time of the first one since there is a
record. Penalties are computed from the record alone, never from the policy. -/
namespace Overdue

inductive Action where
  | create
  | update
  | delete
  | noop
deriving DecidableEq, Repr

def Action.name : Action → String
  | create => "create"
  | update => "update"
  | delete => "delete"
  | noop => "noop"

namespace Evaluation

def evaluate (id : Int) (finished : Timestamp) (policy : Policy) : Work Action := do
  let record ← Work.late? id
  if ← Work.lift (policy.isLate finished) then
    let terms ← Work.lift policy.terms
    match record with
    | none =>
      Work.write (.late ⟨id, .ofUtc (← Work.lift finished.utc), terms⟩)
      Work.commit
      return .create
    | some record =>
      Work.write (.late { record with terms })
      Work.commit
      return .update
  else
    match record with
    | none => return .noop
    | some _ =>
      Work.write (.dropLate id)
      Work.commit
      return .delete

def isLate (id : Int) : Work Bool := return (← Work.late? id).isSome

/-- The penalty by the late record; nothing is charged without one. -/
def penalty (id : Int) (calendar : Calendar) : Work Int := do
  match ← Work.late? id with
  | none => return 0
  | some record => Work.lift (Penalty.percentage record.terms record.finishedAt calendar)

/-- The score that a row has after a penalty; only a raw score is adjusted. -/
def adjusted (row : Submission) (penalty : Int) : Except Failure (Option Double) :=
  match row.rawScore with
  | none => .ok row.score
  | some raw => (Score.adjust raw penalty).map some

def recompute (id : Int) (calendar : Calendar) : Work Int := do
  match ← Work.submission? id with
  | none => throw (.absent "id")
  | some row =>
    let penalty ← penalty id calendar
    let score ← Work.lift (adjusted row penalty)
    Work.write (.submission { row with penalty, score })
    Work.commit
    return penalty

/-- Evaluates a finished submission by the policy of its assignment, then refreshes its score. -/
def regrade (id : Int) (calendar : Calendar) : Work Int := do
  match ← Work.submission? id with
  | none => throw (.absent "finished_at")
  | some row =>
    match row.finishedAt with
    | none => throw (.notFinished id)
    | some finished =>
      match ← Work.assignment? row.assignment with
      | none => throw (.absent "due_at")
      | some assignment =>
        let _ ← evaluate id finished assignment.policy
        recompute id calendar

def finishedOf (assignment : Int) (tables : Tables) : List Submission :=
  tables.submissions.filter fun row => row.assignment = assignment && row.isFinished

def regradeAll (assignment : Int) (calendar : Calendar) : Work Nat := do
  match ← Work.assignment? assignment with
  | none => throw (.absent "id")
  | some _ =>
    let rows := finishedOf assignment (← Work.stored)
    rows.forM fun row => discard (regrade row.id calendar)
    return rows.length

def earlierAttempt (a b : Submission) : Bool := a.attempt < b.attempt

def finishedBy (assignment student : Int) (tables : Tables) : List Submission :=
  Sorting.sort earlierAttempt
    (tables.submissions.filter fun row => row.assignment = assignment && row.student = student && row.isFinished)

def userFinished (assignment student : Int) : Work (List Submission) := do
  Work.require assignment
  Work.require student
  let session ← get
  return (finishedBy assignment student session.stored).map fun row => (session.submission? row.id).getD row

end Evaluation
end Overdue
