import Mathlib.Logic.Relation
import Overdue.Proofs.Service

/-! The commits of calls. Whatever a call comes to, and wherever a fault strikes it, the tables that it leaves are reached
by the commits that succeeded; what every commit preserves, every answer preserves. -/
namespace Overdue

open Relation

/-- One commit that succeeds, with what the call had checked by then. -/
inductive Commit (context : Context) (call : Call) (tables : Tables) : Tables → Prop
  | create {form : AssignmentForm} {row : Assignment} {after : Tables} (asked : call = .create form)
    (made : Service.newAssignment form = .ok row)
    (saved : tables.putAssignment (Service.numbered row tables) = .ok after) : Commit context call tables after
  | changePolicy {id : Int} {change : PolicyChange} {row : Assignment} {policy : Policy} {after : Tables}
    (asked : call = .changePolicy id change) (found : tables.assignment? id = some row)
    (inside : Service.outside? row change.dueAt = .ok none) (made : Service.changed row.policy change = .ok policy)
    (saved : tables.putAssignment { row with policy } = .ok after) : Commit context call tables after
  | start {id : Int} {form : StartForm} {after : Tables} (asked : call = .start id form)
    (admitted : Service.Admitted context id form tables)
    (allFinished : Service.unfinished? (Service.attemptsOf id form.student tables) = none)
    (saved : tables.putSubmission (Service.opened context id form tables) = .ok after) : Commit context call tables after
  | handIn {id : Int} {form : FinishForm} {row : Submission} {after : Tables} (asked : call = .finish id form)
    (found : tables.submission? id = some row) (unfinished : row.isFinished = false)
    (saved : tables.putSubmission (Service.handedIn context form row) = .ok after) : Commit context call tables after
  | judge {row : Submission} {finished : Timestamp} {assignment : Assignment} {attempts : List Tables} {action : Action}
    {after : Tables} (found : tables.submission? row.id = some row) (finishedAt : row.finishedAt = some finished)
    (placed : tables.assignment? row.assignment = some assignment)
    (judged : Evaluation.Judged row.id finished assignment.policy tables attempts (.ok action) after) :
    Commit context call tables after
  | rescore {row : Submission} {finished : Timestamp} {penalty : Int} {score : Option Double} {after : Tables}
    (found : tables.submission? row.id = some row) (finishedAt : row.finishedAt = some finished)
    (charged : Evaluation.charge row.id context.calendar tables = .ok penalty)
    (scored : Evaluation.adjusted row penalty = .ok score)
    (saved : tables.putSubmission { row with penalty, score } = .ok after) : Commit context call tables after
  | grade {id : Int} {form : GradeForm} {row : Submission} {assignment : Assignment} {penalty : Int} {score : Double}
    {after : Tables} (asked : call = .grade id form) (found : tables.submission? id = some row)
    (finished : row.isFinished = true) (placed : tables.assignment? row.assignment = some assignment)
    (inside : Service.isScore form.score assignment.maxScore = true)
    (charged : Evaluation.charge id context.calendar tables = .ok penalty) (scored : Score.adjust form.score penalty = .ok score)
    (saved : tables.putSubmission (Service.marked context form assignment.policy penalty score row) = .ok after) :
    Commit context call tables after

/-- The tables at every attempt and at the end are reached by commits. -/
def Visits (step : Tables → Tables → Prop) (tables : Tables) (attempts : List Tables) (after : Tables) : Prop :=
  (∀ left ∈ attempts, ReflTransGen step tables left) ∧ ReflTransGen step tables after

namespace Visits

variable {step : Tables → Tables → Prop} {tables middle after : Tables} {attempts more : List Tables}

theorem nil (tables : Tables) : Visits step tables [] tables := ⟨by simp, .refl⟩

theorem saved (taken : ReflTransGen step tables after) : Visits step tables [tables] after := by
  refine ⟨fun left inside => ?_, taken⟩
  rw [List.mem_singleton.mp inside]

theorem unsaved (tables : Tables) : Visits step tables [tables] tables := saved .refl

theorem append (first : Visits step tables attempts middle) (rest : Visits step middle more after) :
    Visits step tables (attempts ++ more) after := by
  refine ⟨fun left inside => ?_, first.2.trans rest.2⟩
  rcases List.mem_append.mp inside with early | late
  · exact first.1 left early
  · exact first.2.trans (rest.1 left late)

end Visits

variable {context : Context} {call : Call} {tables after : Tables} {attempts : List Tables} {id : Int}

/-- An evaluation is of the submission that has the number, by the policy of its assignment. -/
theorem Evaluation.Judged.visits {row : Submission} {finished : Timestamp} {assignment : Assignment}
    {result : Except Failure Action} (judged : Judged row.id finished assignment.policy tables attempts result after)
    (found : tables.submission? row.id = some row) (finishedAt : row.finishedAt = some finished)
    (placed : tables.assignment? row.assignment = some assignment) :
    Visits (Commit context call) tables attempts after := by
  have commits {made : Tables} {action : Action}
      (judged : Judged row.id finished assignment.policy tables [tables] (.ok action) made) :
      Visits (Commit context call) tables [tables] made := .saved (.single (.judge found finishedAt placed judged))
  cases judged with
  | wide | undecided | noop => exact .nil tables
  | unsaved => exact .unsaved tables
  | delete onTime present => exact commits (.delete onTime present)
  | create late absent instant frozen saved => exact commits (.create late absent instant frozen saved)
  | update late present frozen saved => exact commits (.update late present frozen saved)

theorem Evaluation.Rescored.visits {row : Submission} {finished : Timestamp} {result : Except Failure Int}
    (rescored : Rescored row context.calendar tables attempts result after)
    (found : tables.submission? row.id = some row) (finishedAt : row.finishedAt = some finished) :
    Visits (Commit context call) tables attempts after := by
  cases rescored with
  | uncharged | unscored => exact .nil tables
  | unsaved => exact .unsaved tables
  | saved charged scored saved => exact .saved (.single (.rescore found finishedAt charged scored saved))

theorem Evaluation.Regraded.visits {result : Except Failure Int}
    (regraded : Regraded id context.calendar tables attempts result after) :
    Visits (Commit context call) tables attempts after := by
  cases regraded with
  | wide | missing | unfinished | unplaced => exact .nil tables
  | unjudged found finishedAt placed judged =>
    obtain rfl := Table.find?_key found
    exact judged.visits found finishedAt placed
  | @rescored row finished assignment _ _ _ middle _ _ found finishedAt placed judged rescored =>
    obtain rfl := Table.find?_key found
    have still : middle.submission? row.id = some row := by
      unfold Tables.submission?
      rw [judged.submissions]
      exact found
    exact (judged.visits found finishedAt placed).append (rescored.visits still finishedAt)

theorem Evaluation.Reviewed.visits {ids : List Int} {result : Except Failure Unit}
    (reviewed : Reviewed context.calendar ids tables attempts result after) :
    Visits (Commit context call) tables attempts after := by
  induction reviewed with
  | nil tables => exact .nil tables
  | failed regraded => exact regraded.visits
  | cons regraded _ ih => exact regraded.visits.append ih

theorem Service.Answered.visits {result : Except Failure Reply}
    (answered : Answered context tables call attempts result after) :
    Visits (Commit context call) tables attempts after := by
  cases call with
  | create form =>
    cases answered with
    | unread => exact .nil tables
    | unsaved => exact .unsaved tables
    | saved made saved => exact .saved (.single (.create rfl made saved))
  | changePolicy id change =>
    cases answered with
    | saved found inside made saved => exact .saved (.single (.changePolicy rfl found inside made saved))
    | unsaved => exact .unsaved tables
    | _ => exact .nil tables
  | start id form =>
    cases answered with
    | saved admitted allFinished saved => exact .saved (.single (.start rfl admitted allFinished saved))
    | unsaved => exact .unsaved tables
    | _ => exact .nil tables
  | finish id form =>
    cases answered with
    | wide | missing | already => exact .nil tables
    | unsaved => exact .unsaved tables
    | failed found unfinished saved regraded =>
      exact (Visits.saved (.single (.handIn rfl found unfinished saved))).append regraded.visits
    | answered found unfinished saved regraded =>
      exact (Visits.saved (.single (.handIn rfl found unfinished saved))).append regraded.visits
  | grade id form =>
    cases answered with
    | saved found finished placed inside charged scored saved =>
      exact .saved (.single (.grade rfl found finished placed inside charged scored saved))
    | unsaved => exact .unsaved tables
    | _ => exact .nil tables
  | regrade id =>
    cases answered with
    | wide | missing | unfinished => exact .nil tables
    | failed found finished regraded => exact regraded.visits
    | answered found finished regraded => exact regraded.visits
  | regradeAll id =>
    cases answered with
    | wide | missing => exact .nil tables
    | reviewed found reviewed => exact reviewed.visits
  | health | read | list | penalty =>
    obtain ⟨rfl, _, rfl⟩ := answered
    exact .nil _

theorem Service.answer_reaches (context : Context) (fault : Option Nat) (call : Call) (tables : Tables) :
    ReflTransGen (Commit context call) tables (answer context fault call tables).2 := by
  obtain ⟨attempts, result, after, runs, answered⟩ := perform_yields context call tables
  obtain ⟨early, last⟩ := answered.visits
  rcases answer_cases runs fault with same | ⟨left, attempted, same⟩
  · rw [same]
    exact last
  · rw [same]
    exact early left attempted

theorem Service.serve_reaches (context : Context) (fault : Option Nat) (request : Request) (tables : Tables) :
    (serve context fault request tables).2 = tables ∨
      ∃ call, request.call = .ok (.ok call) ∧ ReflTransGen (Commit context call) tables (serve context fault request tables).2 := by
  unfold serve
  split
  · exact .inl rfl
  · exact .inl rfl
  next call asked => exact .inr ⟨call, asked, answer_reaches context fault call tables⟩

end Overdue
