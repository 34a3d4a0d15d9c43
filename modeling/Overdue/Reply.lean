import Overdue.Request
import Overdue.Store.Row

/-! Replies of the service: the status and the body that a call, or a refusal, is answered with. Instants are shown as
they are stored, without an offset. -/
namespace Overdue

structure SubmissionView where
  row : Submission
  isLate : Bool
deriving DecidableEq

structure AssignmentView where
  row : Assignment
  notes : List String
deriving DecidableEq

inductive Reply where
  | healthy
  | created (view : AssignmentView)
  | assignment (view : AssignmentView)
  | regraded (assignment : Int) (count : Nat)
  | started (view : SubmissionView)
  | submission (view : SubmissionView)
  | submissions (views : List SubmissionView)
  | penalty (submission : Int) (isLate : Bool) (percentage : Int)
  | refused (refusal : Refusal)
deriving DecidableEq

namespace Problem

def json (problem : Problem) : Json :=
  .obj ([("loc", .arr (problem.path.map .str)), ("type", .str problem.type.name)] ++
    (problem.type.message?.map fun message => ("msg", .str message)).toList)

end Problem

namespace Refusal

def status : Refusal → Nat
  | unknownPath | noAssignment | noSubmission => 404
  | wrongMethod => 405
  | invalid _ => 422
  | dueOutside _ | scoreOutside _ => 400
  | closed | submittedBefore => 403
  | alreadyFinished | unfinished => 409

def detail : Refusal → Json
  | unknownPath => .str "Not Found"
  | wrongMethod => .str "Method Not Allowed"
  | invalid problems => .arr (problems.map Problem.json)
  | noAssignment => .str "Assignment not found"
  | noSubmission => .str "Submission not found"
  | dueOutside error => .str error.message
  | closed => .str "Assignment is closed"
  | submittedBefore => .str "You have already submitted this assignment before the due date"
  | alreadyFinished => .str "Submission already finished"
  | unfinished => .str "Submission is not finished"
  | scoreOutside largest => .str ("score must be between 0 and " ++ largest.text)

end Refusal

namespace Json

def ofInstant (instant : Timestamp) : Json := .str (String.ofList instant.iso)

end Json

namespace AssignmentView

def json (view : AssignmentView) : Json :=
  let row := view.row
  .obj [("id", .int row.id), ("title", .str row.title), ("description", Json.ofOption .str row.description),
    ("max_score", .double row.maxScore), ("open_at", Json.ofOption .ofInstant row.openAt),
    ("close_at", Json.ofOption .ofInstant row.closeAt), (dueName, Json.ofOption .ofInstant row.policy.dueAt),
    (appliedName, .bool row.policy.applied), (dailyName, .int row.policy.daily), (capName, .int row.policy.cap),
    (preventName, .bool row.policy.preventResubmission), ("late_policy_notes", .arr (view.notes.map .str))]

end AssignmentView

namespace SubmissionView

def json (view : SubmissionView) : Json :=
  let row := view.row
  .obj [("id", .int row.id), ("assignment_id", .int row.assignment), ("student_id", .int row.student),
    ("attempt", .int row.attempt), ("content", Json.ofOption .str row.content), ("started_at", .ofInstant row.startedAt),
    ("finished_at", Json.ofOption .ofInstant row.finishedAt), ("raw_score", Json.ofOption .double row.rawScore),
    ("penalty_percentage", .int row.penalty), ("score", Json.ofOption .double row.score),
    ("feedback", Json.ofOption .str row.feedback), ("graded_at", Json.ofOption .ofInstant row.gradedAt),
    ("is_late", .bool view.isLate)]

end SubmissionView

namespace Reply

def status : Reply → Nat
  | created _ | started _ => 201
  | refused refusal => refusal.status
  | _ => 200

def body : Reply → Json
  | healthy => .obj [("status", .str "ok")]
  | created view | assignment view => view.json
  | regraded id count => .obj [("assignment_id", .int id), ("regraded", .int count)]
  | started view | submission view => view.json
  | submissions views => .arr (views.map SubmissionView.json)
  | penalty id isLate percentage =>
    .obj [("submission_id", .int id), ("is_late", .bool isLate), ("penalty_percentage", .int percentage)]
  | refused refusal => .obj [("detail", refusal.detail)]

end Reply
end Overdue
