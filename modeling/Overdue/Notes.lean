import Overdue.Policy

/-! Notes for students: what the late policy of an assignment says, and what a penalty has cost. -/
namespace Overdue
namespace Notes

def dueNote (due : Reading) (past : Bool) : String :=
  (if past then "This assignment has been due since " else "This assignment is due on ") ++ due.longText ++ " UTC."

def percent (n : Int) : String := toString n ++ "%"

/-- A cap of the whole score is not announced. -/
def penaltyNote (policy : Policy) : String :=
  if !policy.applied || policy.daily = 0 then "Late submissions are accepted without penalty."
  else
    "Late submissions lose " ++ percent policy.daily ++ " per working day after the due date" ++
      (if normalizeCap policy.cap < fullPercentage then ", up to " ++ percent (normalizeCap policy.cap) else "") ++ "."

/-- The notes of an active policy at an instant; any other policy has none. -/
def describe (policy : Policy) (now : Timestamp) : Except Failure (List String) := do
  match ← policy.due? with
  | none => return []
  | some due =>
    let now ← now.utc
    let limit ← due.shift graceMicros
    return [dueNote due (limit.le now), penaltyNote policy]

/-- The note that a grader's feedback gets when a penalty was taken off. -/
def gradeNote (penalty daily cap : Int) : String :=
  "Late penalty applied: -" ++ percent penalty ++ " (" ++ percent daily ++ " per working day, grace " ++
    toString (graceMicros / secondMicros) ++ "s, cap " ++ percent (normalizeCap cap) ++ ")."

end Notes
end Overdue
