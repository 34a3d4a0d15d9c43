import Overdue.Timestamp

/-! Late policies. A policy is active when it has a due instant other than the epoch; a finish is late from one minute
after the due instant on. Terms are what a late record keeps of a policy. -/
namespace Overdue

/-- Finishes within the minute after the due instant are not late. -/
def graceMicros : Nat := minuteMicros

def epoch : Reading := ⟨719162 * dayMicros, by decide⟩

def fullPercentage : Int := 100

/-- A cap outside 1 to 100 is no cap: all of the score may be lost. -/
def normalizeCap (cap : Int) : Int := if 0 < cap ∧ cap ≤ fullPercentage then cap else fullPercentage

theorem normalizeCap_pos (cap : Int) : 0 < normalizeCap cap := by
  unfold normalizeCap fullPercentage
  split <;> omega

theorem normalizeCap_le (cap : Int) : normalizeCap cap ≤ 100 := by
  unfold normalizeCap fullPercentage
  split <;> omega

structure Terms where
  dueAt : Timestamp
  applied : Bool := false
  daily : Int := 0
  cap : Int := fullPercentage
deriving DecidableEq

structure Policy where
  dueAt : Option Timestamp := none
  applied : Bool := false
  daily : Int := 0
  cap : Int := 0
  preventResubmission : Bool := false
deriving DecidableEq

namespace Policy

def active (policy : Policy) : Except Failure Bool :=
  match policy.dueAt with
  | none => .ok false
  | some due => due.utc.map fun due => decide (due ≠ epoch)

def due? (policy : Policy) : Except Failure (Option Reading) :=
  match policy.dueAt with
  | none => .ok none
  | some due => due.utc.map fun due => if due = epoch then none else some due

/-- The first instant at which a finish is late, for an active policy. -/
def effectiveDue (policy : Policy) : Except Failure (Option Reading) := do
  match ← policy.due? with
  | none => return none
  | some due => return some (← due.shift graceMicros)

def isLate (policy : Policy) (finished : Timestamp) : Except Failure Bool := do
  match ← policy.effectiveDue with
  | none => return false
  | some limit => return limit.le (← finished.utc)

/-- The terms that a late record keeps, with the due instant in UTC. -/
def terms (policy : Policy) : Except Failure Terms :=
  match policy.dueAt with
  | none => .error (.absent "tzinfo")
  | some due => due.utc.map fun due => ⟨.ofUtc due, policy.applied, policy.daily, policy.cap⟩

end Policy
end Overdue
