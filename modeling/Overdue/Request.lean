import Overdue.Form
import Overdue.Json.Reader
import Overdue.Request.Path

/-! Requests: a method, a path and a body. A request names a place by its path; together with the method and with
what the path and the body hold, this makes a call of the service or a refusal. -/
namespace Overdue

inductive Method where
  | get
  | post
  | patch
  | other
deriving DecidableEq, Repr

def Method.ofText (text : String) : Method :=
  match text.map Char.toUpper with
  | "GET" => .get
  | "POST" => .post
  | "PATCH" => .patch
  | _ => .other

inductive Body where
  | missing
  | malformed
  | value (json : Json)

inductive Place where
  | health
  | assignments
  | assignment (id : String)
  | policy (assignment : String)
  | regrades (assignment : String)
  | attempts (assignment : String)
  | finish (submission : String)
  | grade (submission : String)
  | regrade (submission : String)
  | penalty (submission : String)
deriving DecidableEq, Repr

structure Request where
  method : Method
  path : List String
  body : Body

inductive Call where
  | health
  | create (form : AssignmentForm)
  | read (assignment : Int)
  | changePolicy (assignment : Int) (change : PolicyChange)
  | regradeAll (assignment : Int)
  | start (assignment : Int) (form : StartForm)
  | list (assignment : Int)
  | finish (submission : Int) (form : FinishForm)
  | grade (submission : Int) (form : GradeForm)
  | regrade (submission : Int)
  | penalty (submission : Int)
deriving DecidableEq

inductive Refusal where
  | unknownPath
  | wrongMethod
  | invalid (problems : List Problem)
  | noAssignment
  | noSubmission
  | dueOutside (error : WindowError)
  | closed
  | submittedBefore
  | alreadyFinished
  | unfinished
  | scoreOutside (largest : Double)
deriving DecidableEq

namespace Place

/-- The place at the segments of a path; a number is not empty. -/
def ofSegments? : List String → Option Place
  | ["health"] => some .health
  | ["assignments"] => some .assignments
  | _ :: "" :: _ => none
  | ["assignments", id] => some (.assignment id)
  | ["assignments", id, "late-policy"] => some (.policy id)
  | ["assignments", id, "regrade"] => some (.regrades id)
  | ["assignments", id, "submissions"] => some (.attempts id)
  | ["submissions", id, "finish"] => some (.finish id)
  | ["submissions", id, "grade"] => some (.grade id)
  | ["submissions", id, "regrade"] => some (.regrade id)
  | ["submissions", id, "penalty"] => some (.penalty id)
  | _ => none

end Place

namespace Body

def byteOrderMark : Char := '\ufeff'

def withoutMark (text : String) : String :=
  match text.toList with
  | first :: rest => if first = byteOrderMark then String.ofList rest else text
  | [] => text

def ofText (text : String) : Body :=
  if text = "" then .missing
  else match Json.read? (withoutMark text) with
    | some json => .value json
    | none => .malformed

def members : Body → Checked Members
  | missing => .rejected [⟨["body"], .missing⟩]
  | malformed => .rejected [⟨["body"], .malformed⟩]
  | value (.obj members) => .accepted members
  | value _ => .rejected [⟨["body"], .notAttributes⟩]

def fill (body : Body) (read : Members → Checked α) : Checked α :=
  match body.members with
  | .rejected problems => .rejected problems
  | .accepted members => (read members).under "body"

def assignment (body : Body) : Except Failure (Checked AssignmentForm) :=
  match body.members with
  | .rejected problems => .ok (.rejected problems)
  | .accepted members => (AssignmentForm.read members).map (Checked.under "body")

end Body

namespace Call

def number (name text : String) : Checked Int :=
  match Field.integerOfText text with
  | .ok n => .accepted n
  | .error type => .rejected [⟨["path", name], type⟩]

def assignmentNumber (text : String) : Checked Int := number "assignment_id" text

def submissionNumber (text : String) : Checked Int := number "submission_id" text

/-- A body that cannot be read hides all other problems. -/
def told (problems : List Problem) : List Problem :=
  match problems.filter fun problem => problem.type = .malformed with
  | [] => problems
  | unread => unread

def ofChecked : Checked Call → Except Refusal Call
  | .accepted call => .ok call
  | .rejected problems => .error (.invalid (Problem.sort (told problems)))

/-- The call of a method at a place. A call that takes no form does not look at the body. -/
def ofPlace (method : Method) (place : Place) (body : Body) : Except Failure (Except Refusal Call) :=
  match method, place with
  | .get, .health => .ok (.ok .health)
  | .post, .assignments => body.assignment.map fun form => ofChecked (form.map create)
  | .get, .assignment id => .ok (ofChecked (read <$> assignmentNumber id))
  | .patch, .policy id => .ok (ofChecked (changePolicy <$> assignmentNumber id <*> body.fill PolicyChange.read))
  | .post, .regrades id => .ok (ofChecked (regradeAll <$> assignmentNumber id))
  | .post, .attempts id => .ok (ofChecked (start <$> assignmentNumber id <*> body.fill StartForm.read))
  | .get, .attempts id => .ok (ofChecked (list <$> assignmentNumber id))
  | .post, .finish id => .ok (ofChecked (finish <$> submissionNumber id <*> body.fill FinishForm.read))
  | .patch, .grade id => .ok (ofChecked (grade <$> submissionNumber id <*> body.fill GradeForm.read))
  | .post, .regrade id => .ok (ofChecked (regrade <$> submissionNumber id))
  | .get, .penalty id => .ok (ofChecked (penalty <$> submissionNumber id))
  | _, _ => .ok (.error .wrongMethod)

end Call

namespace Request

def ofText (method path : String) (body : Body) : Request := ⟨.ofText method, Path.segments path, body⟩

def call (request : Request) : Except Failure (Except Refusal Call) :=
  match Place.ofSegments? request.path with
  | none => .ok (.error .unknownPath)
  | some place => Call.ofPlace request.method place request.body

end Request
end Overdue
