import Overdue.Evaluation
import Overdue.Notes
import Overdue.Reply

/-! The service: what each call reads, checks and writes. Every check of a call comes before its first write, and a
request runs in a session of its own, so a refused request leaves the store as it was. -/
namespace Overdue

/-- What a request finds: the time and the calendar of the service. -/
structure Context where
  now : Reading
  calendar : Calendar

namespace Service

/-- The instant on the UTC clock, with the offset zero. -/
def inUtc (instant : Timestamp) : Except Failure Timestamp := instant.utc.map .ofUtc

def inUtc? : Option Timestamp → Except Failure (Option Timestamp)
  | none => .ok none
  | some instant => (inUtc instant).map some

def viewAssignment (context : Context) (row : Assignment) : Except Failure AssignmentView :=
  (Notes.describe row.policy (.ofUtc context.now)).map (AssignmentView.mk row)

def showAssignment (context : Context) (id : Int) : Work AssignmentView := do
  match ← Work.assignment? id with
  | none => throw (.absent "id")
  | some row => Work.lift (viewAssignment context row)

def viewSubmission (row : Submission) : Work SubmissionView := return ⟨row, ← Evaluation.isLate row.id⟩

def showSubmission (id : Int) : Work SubmissionView := do
  match ← Work.submission? id with
  | none => throw (.absent "id")
  | some row => viewSubmission row

def newAssignment (form : AssignmentForm) : Except Failure Assignment := do
  return {
    id := 0
    title := form.title
    description := form.description
    maxScore := form.maxScore
    openAt := ← inUtc? form.openAt
    closeAt := ← inUtc? form.closeAt
    policy := {
      dueAt := ← inUtc? form.policy.dueAt
      applied := form.policy.applied
      daily := form.policy.daily
      cap := form.policy.cap
      preventResubmission := form.policy.preventResubmission } }

def create (context : Context) (form : AssignmentForm) : Work Reply := do
  let id ← Work.insertAssignment (← Work.lift (newAssignment form))
  return .created (← showAssignment context id)

/-- Whether a due instant that was sent lies outside the open time of a row. -/
def outside? (row : Assignment) (due : Option (Option Timestamp)) : Except Failure (Option WindowError) :=
  match due with
  | some (some due) => do windowError? (← due.utc) row.openAt row.closeAt
  | _ => .ok none

def changed (policy : Policy) (change : PolicyChange) : Except Failure Policy := do
  return {
    dueAt := ← match change.dueAt with
      | some due => inUtc? due
      | none => .ok policy.dueAt
    applied := change.applied.getD policy.applied
    daily := change.daily.getD policy.daily
    cap := change.cap.getD policy.cap
    preventResubmission := change.preventResubmission.getD policy.preventResubmission }

def changePolicy (context : Context) (id : Int) (change : PolicyChange) : Work Reply := do
  match ← Work.assignment? id with
  | none => return .refused .noAssignment
  | some row =>
    match ← Work.lift (outside? row change.dueAt) with
    | some error => return .refused (.dueOutside error)
    | none =>
      Work.write (.assignment { row with policy := ← Work.lift (changed row.policy change) })
      Work.commit
      return .assignment (← showAssignment context id)

def regradeAll (context : Context) (id : Int) : Work Reply := do
  match ← Work.assignment? id with
  | none => return .refused .noAssignment
  | some _ => return .regraded id (← Evaluation.regradeAll id context.calendar)

def attemptsOf (assignment student : Int) (tables : Tables) : List Submission :=
  tables.submissions.filter fun row => row.assignment = assignment && row.student = student

def unfinished? (attempts : List Submission) : Option Submission :=
  (Sorting.sort Evaluation.earlierAttempt (attempts.filter fun row => !row.isFinished)).head?

def nextAttempt (attempts : List Submission) : Int := ((attempts.map Submission.attempt).max?).getD 0 + 1

/-- The due instant of a policy that prevents resubmission, once it is past. -/
def barrier? (policy : Policy) (now : Reading) : Except Failure (Option Reading) := do
  if !policy.preventResubmission then return none
  match ← policy.due? with
  | none => return none
  | some due => return if (← due.shift graceMicros).le now then some due else none

def finishedBefore (due : Reading) (row : Submission) : Except Failure Bool :=
  match row.finishedAt with
  | none => .ok false
  | some finished => finished.utc.map (·.lt due)

/-- A new attempt is refused once the due instant is past, if one was finished before it and none is open. -/
def submittedBefore (barrier : Option Reading) (attempts : List Submission) : Except Failure Bool :=
  match barrier, unfinished? attempts with
  | some due, none => attempts.anyM (finishedBefore due)
  | _, _ => .ok false

def isClosed (row : Assignment) (now : Reading) : Except Failure Bool := limited row.closeAt (·.lt now)

def newSubmission (assignment student attempt : Int) (now : Reading) : Submission where
  id := 0
  assignment
  student
  attempt
  content := none
  startedAt := .ofUtc now
  finishedAt := none
  rawScore := none
  penalty := 0
  score := none
  feedback := none
  gradedAt := none

def start (context : Context) (assignment : Int) (form : StartForm) : Work Reply := do
  match ← Work.assignment? assignment with
  | none => return .refused .noAssignment
  | some row =>
    if ← Work.lift (isClosed row context.now) then return .refused .closed
    let barrier ← Work.lift (barrier? row.policy context.now)
    Work.require form.student
    let attempts := attemptsOf assignment form.student (← Work.stored)
    if ← Work.lift (submittedBefore barrier attempts) then return .refused .submittedBefore
    match unfinished? attempts with
    | some row => return .started (← viewSubmission row)
    | none =>
      let id ← Work.insertSubmission (newSubmission assignment form.student (nextAttempt attempts) context.now)
      return .started (← showSubmission id)

def listedBefore (a b : Submission) : Bool := a.student < b.student || (a.student = b.student && a.attempt < b.attempt)

def list (assignment : Int) : Work Reply := do
  match ← Work.assignment? assignment with
  | none => return .refused .noAssignment
  | some _ =>
    let rows := (← Work.stored).submissions.filter fun row => row.assignment = assignment
    return .submissions (← (Sorting.sort listedBefore rows).mapM viewSubmission)

def finish (context : Context) (id : Int) (form : FinishForm) : Work Reply := do
  match ← Work.submission? id with
  | none => return .refused .noSubmission
  | some row =>
    if row.isFinished then return .refused .alreadyFinished
    Work.write (.submission { row with content := form.content, finishedAt := some (.ofUtc context.now) })
    Work.commit
    let _ ← Evaluation.regrade id context.calendar
    return .submission (← showSubmission id)

/-- The note on a penalty, by the policy of the assignment. -/
def note? (policy : Policy) (penalty : Int) : Option String :=
  if 0 < penalty then some (Notes.gradeNote penalty policy.daily policy.cap) else none

/-- What the grader says, and the note on a line of its own below. -/
def feedbackWith (note feedback : Option String) : Option String :=
  match note, feedback.filter (· ≠ "") with
  | some note, some feedback => some (feedback ++ "\n" ++ note)
  | note, feedback => feedback.or note

def isScore (score largest : Double) : Bool := !(score.lt .zero || largest.lt score)

def grade (context : Context) (id : Int) (form : GradeForm) : Work Reply := do
  match ← Work.submission? id with
  | none => return .refused .noSubmission
  | some row =>
    if !row.isFinished then return .refused .unfinished
    match ← Work.assignment? row.assignment with
    | none => throw (.absent "max_score")
    | some assignment =>
      if !isScore form.score assignment.maxScore then return .refused (.scoreOutside assignment.maxScore)
      let penalty ← Evaluation.penalty id context.calendar
      let score ← Work.lift (Score.adjust form.score penalty)
      Work.write (.submission { row with
        rawScore := some form.score
        penalty
        score := some score
        feedback := feedbackWith (note? assignment.policy penalty) form.feedback
        gradedAt := some (.ofUtc context.now) })
      Work.commit
      return .submission (← showSubmission id)

def regrade (context : Context) (id : Int) : Work Reply := do
  match ← Work.submission? id with
  | none => return .refused .noSubmission
  | some row =>
    if !row.isFinished then return .refused .unfinished
    let _ ← Evaluation.regrade id context.calendar
    return .submission (← showSubmission id)

def penalty (context : Context) (id : Int) : Work Reply := do
  match ← Work.submission? id with
  | none => return .refused .noSubmission
  | some _ => return .penalty id (← Evaluation.isLate id) (← Evaluation.penalty id context.calendar)

def perform (context : Context) : Call → Work Reply
  | .health => return .healthy
  | .create form => create context form
  | .read id => do
    match ← Work.assignment? id with
    | none => return .refused .noAssignment
    | some row => return .assignment (← Work.lift (viewAssignment context row))
  | .changePolicy id change => changePolicy context id change
  | .regradeAll id => regradeAll context id
  | .start assignment form => start context assignment form
  | .list assignment => list assignment
  | .finish id form => finish context id form
  | .grade id form => grade context id form
  | .regrade id => regrade context id
  | .penalty id => penalty context id

/-- Answers a call on some tables; `faultAfter` commits succeed before one fails. -/
def answer (context : Context) (faultAfter : Option Nat) (call : Call) (tables : Tables) :
    Except Failure Reply × Tables :=
  let (result, session) := Work.perform (perform context call) faultAfter { stored := tables }
  (result, session.stored)

/-- Answers a request. One that is turned away does not reach the store. -/
def serve (context : Context) (faultAfter : Option Nat) (request : Request) (tables : Tables) :
    Except Failure Reply × Tables :=
  match request.call with
  | .error failure => (.error failure, tables)
  | .ok (.error refusal) => (.ok (.refused refusal), tables)
  | .ok (.ok call) => answer context faultAfter call tables

end Service
end Overdue
