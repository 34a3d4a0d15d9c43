import Mathlib.Control.Monad.Basic
import Overdue.Proofs.Sound

/-! Histories: the requests that were served from empty tables, the last of them first, each with what it found and with
the fault that it met. In a clean history nothing fails. -/
namespace Overdue

/-- A request, what it finds, and how many commits succeed before one fails, if one does. -/
structure Event where
  context : Context
  faultAfter : Option Nat
  request : Request

/-- Numerals count the microseconds of a reading; past the last year they start again. -/
instance (micros : Nat) : OfNat Reading micros := ⟨⟨micros % readingEnd, Nat.mod_lt micros (by decide)⟩⟩

/-- A request that meets no fault, with an object for its body, on a calendar of UTC without holidays. -/
def Event.plain (now : Reading) (method : Method) (path : List String) (members : Members) : Event :=
  ⟨⟨now, [], .utc⟩, none, method, path, .value (.obj members)⟩

/-- A request for a call on a calendar, with no fault. -/
structure Event.Asks (event : Event) (calendar : Calendar) (call : Call) : Prop where
  call : event.request.call = .ok (.ok call)
  calendar : event.context.calendar = calendar
  unstruck : event.faultAfter = none

/-- The policy by which a submission would be evaluated now. -/
def Tables.policyOf (tables : Tables) (id : Int) : Option Policy :=
  (tables.submission? id).bind fun row => (tables.assignment? row.assignment).map Assignment.policy

/-- The submissions that a call evaluates, by its reply. -/
def Service.evaluated (tables : Tables) : Call → Reply → List Int
  | .finish id _, .submission _ => [id]
  | .regrade id, .submission _ => [id]
  | .regradeAll id, .regraded _ _ => (Evaluation.finishedOf id tables).map Submission.id
  | _, _ => []

namespace History

def tables : List Event → Tables
  | [] => {}
  | event :: earlier => (Service.serve event.context event.faultAfter event.request (tables earlier)).2

def answer (event : Event) (earlier : List Event) : Except Failure Reply :=
  (Service.serve event.context event.faultAfter event.request (tables earlier)).1

theorem answer_call {event : Event} {call : Call} (asked : event.request.call = .ok (.ok call)) (earlier : List Event) :
    answer event earlier = (Service.answer event.context event.faultAfter call (tables earlier)).1 ∧
      tables (event :: earlier) = (Service.answer event.context event.faultAfter call (tables earlier)).2 := by
  rw [answer, tables, Service.serve_call asked]
  exact ⟨rfl, rfl⟩

theorem answer_asked {event : Event} {calendar : Calendar} {call : Call} (asks : event.Asks calendar call)
    (earlier : List Event) : answer event earlier = (Service.answer event.context none call (tables earlier)).1 ∧
      tables (event :: earlier) = (Service.answer event.context none call (tables earlier)).2 := by
  have called := answer_call asks.call earlier
  rw [asks.unstruck] at called
  exact called

def Clean : List Event → Prop
  | [] => True
  | event :: earlier => event.faultAfter = none ∧ (∃ reply, answer event earlier = .ok reply) ∧ Clean earlier

instance decidableReplied (result : Except Failure Reply) : Decidable (∃ reply, result = .ok reply) :=
  match result with
  | .ok reply => .isTrue ⟨reply, rfl⟩
  | .error _ => .isFalse fun ⟨_, replied⟩ => by cases replied

instance decidableClean : (history : List Event) → Decidable (Clean history)
  | [] => .isTrue trivial
  | event :: earlier =>
    have := decidableClean earlier
    inferInstanceAs (Decidable (event.faultAfter = none ∧ (∃ reply, answer event earlier = .ok reply) ∧ Clean earlier))

def evaluated (event : Event) (earlier : List Event) : List Int :=
  match event.request.call, answer event earlier with
  | .ok (.ok call), .ok reply => Service.evaluated (tables earlier) call reply
  | _, _ => []

/-- The policy of the last finish or regrade that evaluated a submission, as it was then. -/
def judgedBy : List Event → Int → Option Policy
  | [], _ => none
  | event :: earlier, id => if id ∈ evaluated event earlier then (tables earlier).policyOf id else judgedBy earlier id

/-- What the commits of a request preserve holds after it, whichever of them fails. -/
theorem carried (Inv : Tables → Prop) {event : Event} {earlier : List Event} (start : Inv (tables earlier))
    (step : ∀ {call tables after}, event.request.call = .ok (.ok call) → Commit event.context call tables after →
      Inv tables → Inv after) : Inv (tables (event :: earlier)) := by
  rw [tables]
  rcases Service.serve_reaches event.context event.faultAfter event.request (tables earlier) with same | ⟨call, asked, reached⟩
  · rw [same]
    exact start
  · generalize (Service.serve event.context event.faultAfter event.request (tables earlier)).2 = last at reached
    induction reached with
    | refl => exact start
    | tail _ commit kept => exact step asked commit kept

theorem invariant {Inv : Tables → Prop} (start : Inv {})
    (step : ∀ {context call tables after}, (∃ request : Request, request.call = .ok (.ok call)) → Inv tables →
      Commit context call tables after → Inv after) (history : List Event) : Inv (tables history) := by
  induction history with
  | nil => exact start
  | cons event earlier ih => exact carried Inv ih fun asked commit kept => step ⟨event.request, asked⟩ kept commit

theorem sound (history : List Event) : Sound (tables history) :=
  invariant .empty (fun _ before commit => before.commit commit) history

theorem carried_sound (Inv : Tables → Prop) {event : Event} {earlier : List Event} (start : Inv (tables earlier))
    (step : ∀ {call tables after}, event.request.call = .ok (.ok call) → Commit event.context call tables after →
      Sound tables → Inv tables → Inv after) : Inv (tables (event :: earlier)) := by
  have both : Sound (tables (event :: earlier)) ∧ Inv (tables (event :: earlier)) :=
    carried (fun reached => Sound reached ∧ Inv reached) ⟨sound earlier, start⟩ fun asked commit kept =>
      ⟨kept.1.commit commit, step asked commit kept.1 kept.2⟩
  exact both.2

theorem fitting (history : List Event) : Fitting (tables history) := by
  induction history with
  | nil => exact .empty
  | cons event earlier ih => exact carried_sound Fitting ih fun _ commit sound kept => kept.commit sound commit

/-- In a clean history the last request was turned away, or the course of its call came to its reply. -/
theorem Clean.last {event : Event} {earlier : List Event} (clean : Clean (event :: earlier)) :
    ((∃ refusal, event.request.call = .ok (.error refusal)) ∧ evaluated event earlier = [] ∧
        tables (event :: earlier) = tables earlier) ∨
      ∃ call reply attempts, event.request.call = .ok (.ok call) ∧ answer event earlier = .ok reply ∧
        evaluated event earlier = Service.evaluated (tables earlier) call reply ∧
        Service.Answered event.context (tables earlier) call attempts (.ok reply) (tables (event :: earlier)) := by
  obtain ⟨unstruck, ⟨reply, replied⟩, _⟩ := clean
  cases asked : event.request.call with
  | error failure => simp [answer, Service.serve, asked] at replied
  | ok checked =>
    cases checked with
    | error refusal => exact .inl (by simp [evaluated, tables, Service.serve, asked])
    | ok call =>
      obtain ⟨attempts, result, after, runs, answered⟩ := Service.perform_yields event.context call (tables earlier)
      have ended : Service.serve event.context event.faultAfter event.request (tables earlier) = (result, after) := by
        rw [Service.serve_call asked, unstruck]
        exact Service.answer_eq runs none
      have same : result = .ok reply := by
        rw [← replied, answer, ended]
      subst same
      refine .inr ⟨call, reply, attempts, rfl, replied, ?_, ?_⟩
      · simp only [evaluated, asked, replied]
      · rw [tables, ended]
        exact answered

end History
end Overdue
