import Overdue.Calendar
import Overdue.Double
import Overdue.Policy

/-! Penalty days and the percentage they cost. Days are counted in steps of twenty-four hours from the due instant,
without the grace; each that is a working day of the calendar costs the daily percentage, up to the cap. -/
namespace Overdue
namespace Penalty

/-- Microseconds from the due instant to the finish less the grace. -/
def overdue (due : Reading) (finished : Timestamp) : Except Failure Int := do
  let finished ← (← finished.utc).shift (-graceMicros)
  return finished.micros - due.micros

/-- The least integer not below the binary64 value nearest to `overdue / day`. -/
def daysRoundedUp (overdue : Nat) : Nat := (Double.ofRatio false overdue dayMicros).ceil

/-- A finish on a day boundary has entered the next penalty day. -/
def dayCount (overdue : Int) : Nat :=
  if overdue < 0 then 0
  else daysRoundedUp overdue.toNat + if overdue.toNat % dayMicros = 0 then 1 else 0

def day (due : Reading) (index : Nat) : Except Failure Reading := due.shift ((index + 1) * dayMicros : Nat)

/-- The penalty days of a finish: from the due instant, and how many. -/
structure Run where
  due : Reading
  count : Nat

def run (due finished : Timestamp) : Except Failure Run := do
  let due ← due.utc
  return ⟨due, dayCount (← overdue due finished)⟩

/-- The days of a run in order; it fails where one leaves the calendar. -/
def Run.days (run : Run) : Except Failure (List Reading) := (List.range run.count).mapM (day run.due)

/-- The days that come before any failure. -/
def Run.reached (run : Run) : List Reading := (List.range run.count).filterMap fun index => (day run.due index).toOption

def days (due finished : Timestamp) : Except Failure (List Reading) := do (← run due finished).days

def isWorking (calendar : Calendar) (utc : Reading) : Except Failure Bool :=
  (calendar.dateAt utc).map fun date => !calendar.isNonWorking date

def percentage (terms : Terms) (finished : Timestamp) (calendar : Calendar) : Except Failure Int := do
  let due ← terms.dueAt.utc
  if !terms.applied then return 0
  if (← finished.utc).lt (← due.shift graceMicros) then return 0
  let working ← (← days terms.dueAt finished).filterM (isWorking calendar)
  return min (normalizeCap terms.cap) (working.length * max 0 terms.daily)

/-- Nothing is charged without terms or without a finish. -/
def percentage? (terms : Option Terms) (finished : Option Timestamp) (calendar : Calendar) : Except Failure Int :=
  match terms, finished with
  | some terms, some finished => percentage terms finished calendar
  | _, _ => .ok 0

end Penalty
end Overdue
