import Overdue.Form.Field

/-! The forms of the service: what may be sent to create an assignment, to change its late policy, and to start,
finish and grade a submission. Fields that no form knows are ignored. Rules over several fields are looked at only
when every field is good. -/
namespace Overdue

structure PolicyForm where
  dueAt : Option Timestamp
  applied : Bool
  daily : Int
  cap : Int
  preventResubmission : Bool
deriving DecidableEq

/-- A change of a late policy: the fields that were sent. The due instant may be sent as null. -/
structure PolicyChange where
  dueAt : Option (Option Timestamp) := none
  applied : Option Bool := none
  daily : Option Int := none
  cap : Option Int := none
  preventResubmission : Option Bool := none
deriving DecidableEq

structure AssignmentForm where
  policy : PolicyForm
  title : String
  description : Option String
  maxScore : Double
  openAt : Option Timestamp
  closeAt : Option Timestamp
deriving DecidableEq

structure StartForm where
  student : Int
deriving DecidableEq

structure FinishForm where
  content : Option String
deriving DecidableEq

structure GradeForm where
  score : Double
  feedback : Option String
deriving DecidableEq

abbrev Members := List (String × Json)

def dueName : String := "due_at"
def appliedName : String := "applied_penalty"
def dailyName : String := "daily_percentage_penalty"
def capName : String := "max_percentage_penalty"
def preventName : String := "prevent_resubmission"

def sentNames (names : List String) (members : Members) : List String :=
  names.filter fun name => (Json.lookup? members name).isSome

namespace PolicyForm

def names : List String := [appliedName, dailyName, dueName, capName, preventName]

def read (members : Members) : Checked PolicyForm :=
  mk <$> Field.read members dueName (Field.nullable Field.instant) (.ok none)
    <*> Field.read members appliedName Field.boolean (.ok true)
    <*> Field.read members dailyName Field.percentage (.ok 5)
    <*> Field.read members capName Field.percentage (.ok 50)
    <*> Field.read members preventName Field.boolean (.ok true)

end PolicyForm

namespace PolicyChange

/-- A field that was sent, if it was: `some none` is a null. -/
def sent (members : Members) (name : String) (reader : Field.Reader α) : Checked (Option (Option α)) :=
  Field.read members name (fun json => (Field.nullable reader json).map some) (.ok none)

def nullName? (fields : List (String × Bool)) : Option String := (fields.find? Prod.snd).map Prod.fst

def ofSent (due : Option (Option Timestamp)) (applied : Option (Option Bool)) (daily cap : Option (Option Int))
    (prevent : Option (Option Bool)) : Checked PolicyChange :=
  let null := nullName? [(appliedName, applied = some none), (dailyName, daily = some none),
    (capName, cap = some none), (preventName, prevent = some none)]
  match null with
  | some name => .rejected [⟨[], .rule (name ++ " cannot be null")⟩]
  | none => .accepted ⟨due, applied.join, daily.join, cap.join, prevent.join⟩

/-- Only the due instant may be sent as null. -/
def read (members : Members) : Checked PolicyChange :=
  let fields := Prod.mk <$> sent members dueName Field.instant
    <*> (Prod.mk <$> sent members appliedName Field.boolean
    <*> (Prod.mk <$> sent members dailyName Field.percentage
    <*> (Prod.mk <$> sent members capName Field.percentage
    <*> sent members preventName Field.boolean)))
  match fields with
  | .rejected problems => .rejected problems
  | .accepted (due, applied, daily, cap, prevent) => ofSent due applied daily cap prevent

/-- One change after another: what the later one sends counts. -/
def merge (earlier later : PolicyChange) : PolicyChange :=
  ⟨later.dueAt.or earlier.dueAt, later.applied.or earlier.applied, later.daily.or earlier.daily,
    later.cap.or earlier.cap, later.preventResubmission.or earlier.preventResubmission⟩

end PolicyChange

inductive WindowError where
  | beforeOpen
  | afterClose
deriving DecidableEq, Repr

def WindowError.message : WindowError → String
  | beforeOpen => "due_at cannot be before open_at"
  | afterClose => "due_at cannot be after close_at"

/-- Whether a limit is set and stands in some order to a due instant. -/
def limited (limit : Option Timestamp) (broken : Reading → Bool) : Except Failure Bool :=
  match limit with
  | none => .ok false
  | some limit => limit.utc.map broken

/-- Whether a due instant lies outside the open time; the opening is looked at first. -/
def windowError? (due : Reading) (openAt closeAt : Option Timestamp) : Except Failure (Option WindowError) := do
  if ← limited openAt due.lt then return some .beforeOpen
  if ← limited closeAt (·.lt due) then return some .afterClose
  return none

namespace AssignmentForm

def names : List String :=
  [appliedName, "close_at", dailyName, "description", dueName, capName, "max_score", "open_at", preventName, "title"]

def fields (members : Members) : Checked AssignmentForm :=
  mk <$> PolicyForm.read members
    <*> Field.read members "title" Field.text (.error .missing)
    <*> Field.read members "description" (Field.nullable Field.text) (.ok none)
    <*> Field.read members "max_score" Field.positive (.ok (.ofInt 100))
    <*> Field.read members "open_at" (Field.nullable Field.instant) (.ok none)
    <*> Field.read members "close_at" (Field.nullable Field.instant) (.ok none)

def checkWindow (form : AssignmentForm) : Except Failure (Checked AssignmentForm) := do
  match form.policy.dueAt with
  | none => return .accepted form
  | some due =>
    if form.openAt = none ∧ form.closeAt = none then return .accepted form
    match ← windowError? (← due.utc) form.openAt form.closeAt with
    | none => return .accepted form
    | some error => return .rejected [⟨[], .rule error.message⟩]

def read (members : Members) : Except Failure (Checked AssignmentForm) :=
  match fields members with
  | .rejected problems => .ok (.rejected problems)
  | .accepted form => form.checkWindow

end AssignmentForm

namespace StartForm

def names : List String := ["student_id"]

def read (members : Members) : Checked StartForm :=
  mk <$> Field.read members "student_id" Field.integer (.error .missing)

end StartForm

namespace FinishForm

def names : List String := ["content"]

def read (members : Members) : Checked FinishForm :=
  mk <$> Field.read members "content" (Field.nullable Field.text) (.ok none)

end FinishForm

namespace GradeForm

def names : List String := ["feedback", "score"]

def read (members : Members) : Checked GradeForm :=
  mk <$> Field.read members "score" Field.number (.error .missing)
    <*> Field.read members "feedback" (Field.nullable Field.text) (.ok none)

end GradeForm
end Overdue
