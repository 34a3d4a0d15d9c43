import Overdue.Proofs.Attempts
import Overdue.Proofs.Charge
import Overdue.Proofs.Settlement

/-! Standings: whether a submission is late, and the penalty that its row has. In a clean history on one calendar the
penalty of every row is what its late record costs, so that whatever is told of a submission is its standing, and the
standing stays until the submission is evaluated again. -/
namespace Overdue

open Failure Work

variable {tables after : Tables} {calendar : Calendar} {attempts : List Tables} {id : Int}

structure Standing where
  isLate : Bool
  penalty : Int
deriving DecidableEq

def Tables.standing (tables : Tables) (id : Int) : Option Standing :=
  (tables.submission? id).map fun row => ⟨(tables.late? id).isSome, row.penalty⟩

def SubmissionView.told (view : SubmissionView) : Int × Standing := (view.row.id, ⟨view.isLate, view.row.penalty⟩)

/-- The standings that a reply tells, each with its submission. -/
def Reply.told : Reply → List (Int × Standing)
  | .started view | .submission view => [view.told]
  | .submissions views => views.map SubmissionView.told
  | .penalty id isLate percentage => [(id, ⟨isLate, percentage⟩)]
  | _ => []

namespace Tables

theorem standing_found {row : Submission} (found : tables.submission? id = some row) :
    tables.standing id = some ⟨(tables.late? id).isSome, row.penalty⟩ := by
  rw [standing, found]
  rfl

theorem standing_shown {row : Submission} (found : tables.submission? id = some row) :
    tables.standing (Service.shown tables row).told.1 = some (Service.shown tables row).told.2 := by
  obtain rfl := Table.find?_key found
  exact standing_found found

theorem standing_put {row : Submission} (saved : tables.putSubmission row = .ok after) (id : Int) :
    after.standing id = if id = row.id then some ⟨(tables.late? id).isSome, row.penalty⟩ else tables.standing id := by
  have late : after.late? id = tables.late? id := by
    rw [late?, (putSubmission_keeps saved).2]
    rfl
  rw [standing, late, submission?_put saved]
  split <;> rfl

theorem standing_of_entry (same : after.entry id = tables.entry id) : after.standing id = tables.standing id := by
  have submission : after.submission? id = tables.submission? id := congrArg Prod.fst same
  have late : after.late? id = tables.late? id := congrArg Prod.snd same
  rw [standing, standing, submission, late]

end Tables

/-- Every submission has the penalty that its late record costs. -/
def Priced (calendar : Calendar) (tables : Tables) : Prop :=
  ∀ id row, tables.submission? id = some row → Evaluation.charge id calendar tables = .ok row.penalty

namespace Priced

theorem of_same (priced : Priced calendar tables) (submissions : after.submissions = tables.submissions)
    (lateRecords : after.lateRecords = tables.lateRecords) : Priced calendar after := by
  intro id row found
  rw [Tables.submission?, submissions] at found
  rw [Evaluation.charge_eq, Tables.late?, lateRecords]
  exact (Evaluation.charge_eq id calendar tables).symm.trans (priced id row found)

theorem put (priced : Priced calendar tables) {row : Submission} (saved : tables.putSubmission row = .ok after)
    (charged : Evaluation.charge row.id calendar tables = .ok row.penalty) : Priced calendar after := by
  intro id kept present
  have same : Evaluation.charge id calendar after = Evaluation.charge id calendar tables := by
    rw [Evaluation.charge_eq, Evaluation.charge_eq, Tables.late?, (Tables.putSubmission_keeps saved).2]
    rfl
  rw [same]
  rw [Tables.submission?_put saved] at present
  split at present
  next own =>
    cases present
    rw [own]
    exact charged
  next => exact priced id kept present

end Priced

namespace Evaluation

theorem Settles.charged {entry : Option Submission × Option LateRecord} (settles : Settles calendar tables id entry) :
    ∃ row, entry.1 = some row ∧ charged calendar entry.2 = .ok row.penalty := by
  obtain ⟨_, _, _, _, settles, _⟩ := settles
  obtain ⟨penalty, score, _, charges, _, same⟩ := settled_eq_ok.mp settles
  refine ⟨_, rfl, ?_⟩
  rw [← same]
  exact charges

theorem Regraded.priced {penalty : Int} (regraded : Regraded id calendar tables attempts (.ok penalty) after)
    (priced : Priced calendar tables) : Priced calendar after := by
  have settles := regraded.settles.1
  intro other row found
  rw [charge_eq]
  by_cases own : other = id
  · obtain ⟨kept, present, charges⟩ := settles.charged
    rw [own] at found ⊢
    cases present.symm.trans found
    exact charges
  · have same := regraded.entry_other own
    have late : after.late? other = tables.late? other := congrArg Prod.snd same
    have before : tables.submission? other = some row := (congrArg Prod.fst same).symm.trans found
    rw [late, ← charge_eq]
    exact priced other row before

theorem Reviewed.priced {ids : List Int} {result : Except Failure Unit}
    (reviewed : Reviewed calendar ids tables attempts result after) (succeeded : result = .ok ())
    (priced : Priced calendar tables) : Priced calendar after ∧ ∀ id ∉ ids, after.entry id = tables.entry id := by
  induction reviewed with
  | nil => exact ⟨priced, fun _ _ => rfl⟩
  | failed => cases succeeded
  | cons regraded rest ih =>
    obtain ⟨last, later⟩ := ih succeeded (regraded.priced priced)
    refine ⟨last, fun id outside => ?_⟩
    rw [List.mem_cons, not_or] at outside
    exact (later id outside.2).trans (regraded.entry_other outside.1)

end Evaluation

/-- What an answer leaves: rows with their prices, the standings as they are told, and those of all that is not evaluated
as they were. -/
structure Consistent (calendar : Calendar) (tables after : Tables) (evaluated : List Int) (told : List (Int × Standing)) :
    Prop where
  priced : Priced calendar after
  told : ∀ report ∈ told, after.standing report.1 = some report.2
  kept : ∀ id ∉ evaluated, ∀ standing, tables.standing id = some standing → after.standing id = some standing

theorem Consistent.same (priced : Priced calendar tables) (evaluated : List Int) :
    Consistent calendar tables tables evaluated [] := ⟨priced, by simp, fun _ _ _ same => same⟩

/-- A row that is put with its price stands as the row before it stood. -/
theorem Priced.consistent_put (priced : Priced calendar tables) {row : Submission} (saved : tables.putSubmission row = .ok after)
    (charged : Evaluation.charge row.id calendar tables = .ok row.penalty) :
    Consistent calendar tables after [] [(Service.shown after row.stored).told] := by
  refine ⟨priced.put saved charged, fun report inside => ?_, fun id _ standing same => ?_⟩
  · rw [List.mem_singleton.mp inside]
    exact Tables.standing_shown (Tables.putSubmission_found saved).2
  · rw [Tables.standing_put saved]
    split
    next own =>
      obtain ⟨old, found, stood⟩ := Option.map_eq_some_iff.mp same
      rw [own] at found
      have penalty : row.penalty = old.penalty := Except.ok.inj (charged.symm.trans (priced row.id old found))
      rw [penalty, ← stood]
    next => exact same

theorem Evaluation.Regraded.consistent {penalty : Int} (regraded : Regraded id calendar tables attempts (.ok penalty) after)
    (priced : Priced calendar tables) {kept : Submission} (stored : after.submission? id = some kept) :
    Consistent calendar tables after [id] [(Service.shown after kept).told] := by
  refine ⟨regraded.priced priced, fun report inside => ?_, fun other outside standing same => ?_⟩
  · rw [List.mem_singleton.mp inside]
    exact Tables.standing_shown stored
  · have apart : other ≠ id := by simpa using outside
    rw [Tables.standing_of_entry (regraded.entry_other apart)]
    exact same

namespace Service

variable {context : Context} {call : Call} {reply : Reply}

theorem looked_told (sound : Sound tables) (priced : Priced context.calendar tables)
    (replied : looked context tables call = .ok reply) : ∀ report ∈ reply.told, tables.standing report.1 = some report.2 := by
  intro report inside
  cases call with
  | read id =>
    obtain ⟨row, _, replied⟩ := bind_eq_ok.mp replied
    cases row with
    | none => cases replied; cases inside
    | some row =>
      obtain ⟨view, _, same⟩ := bind_eq_ok.mp replied
      cases same
      cases inside
  | list id =>
    obtain ⟨row, _, replied⟩ := bind_eq_ok.mp replied
    cases row with
    | none => cases replied; cases inside
    | some row =>
      obtain ⟨views, listed, same⟩ := bind_eq_ok.mp replied
      cases same
      obtain ⟨view, member, rfl⟩ := List.mem_map.mp inside
      have read : (.ok view : Except Failure SubmissionView) ∈ views.map .ok := List.mem_map_of_mem member
      rw [← mapM_eq_ok.mp listed] at read
      obtain ⟨row, among, shows⟩ := List.mem_map.mp read
      obtain ⟨_, rfl⟩ := within_eq_ok.mp shows
      simp only [Sorting.mem_sort, List.mem_filter] at among
      exact Tables.standing_shown (Table.find?_of_mem sound.submissions among.1)
  | penalty id =>
    obtain ⟨row, read, replied⟩ := bind_eq_ok.mp replied
    cases row with
    | none => cases replied; cases inside
    | some row =>
      obtain ⟨_, found⟩ := within_eq_ok.mp read
      obtain ⟨penalty, charges, same⟩ := bind_eq_ok.mp replied
      cases same
      cases charges.symm.trans (priced id row found)
      rw [List.mem_singleton.mp inside]
      exact Tables.standing_found found
  | _ => cases replied; cases inside

theorem Answered.consistent (answered : Answered context tables call attempts (.ok reply) after) (sound : Sound tables)
    (priced : Priced context.calendar tables) :
    Consistent context.calendar tables after (evaluated tables call reply) reply.told := by
  generalize ended : Except.ok reply = result at answered
  cases call with
  | create form =>
    cases answered with
    | unread | unsaved => cases ended
    | saved made saved =>
      obtain ⟨view, _, rfl⟩ := map_eq_ok.mp ended.symm
      obtain ⟨_, _, _, rfl⟩ := Tables.putAssignment_eq_ok.mp saved
      exact ⟨priced.of_same rfl rfl, by simp [Reply.told], fun _ _ _ same => same⟩
  | changePolicy changed change =>
    cases answered with
    | missing | outside => cases ended; exact .same priced _
    | wide | undecided | unread | unsaved => cases ended
    | saved found inside made saved =>
      obtain ⟨view, _, rfl⟩ := map_eq_ok.mp ended.symm
      obtain ⟨_, _, _, rfl⟩ := Tables.putAssignment_eq_ok.mp saved
      exact ⟨priced.of_same rfl rfl, by simp [Reply.told], fun _ _ _ same => same⟩
  | start assignment form =>
    cases answered with
    | missing | closed | barred => cases ended; exact .same priced _
    | wide | undecided | unsaved => cases ended
    | @reopened attempt admitted unfinished =>
      obtain ⟨view, read, rfl⟩ := map_eq_ok.mp ended.symm
      obtain ⟨_, rfl⟩ := within_eq_ok.mp read
      have present := (mem_attemptsOf_iff.mp (mem_of_unfinished? unfinished).1).1
      have found := Table.find?_of_mem sound.submissions present
      refine ⟨priced, fun report inside => ?_, fun _ _ _ same => same⟩
      rw [List.mem_singleton.mp inside]
      exact Tables.standing_shown found
    | saved admitted allFinished saved =>
      cases ended
      have free : Evaluation.charge (opened context assignment form tables).id context.calendar tables = .ok 0 := by
        rw [Evaluation.charge_eq, opened, sound.late?_next]
        rfl
      exact priced.consistent_put saved free
  | finish finished form =>
    cases answered with
    | missing | already => cases ended; exact .same priced _
    | wide | unsaved | failed => cases ended
    | @answered row _ _ _ _ _ found unfinished saved regraded stored =>
      cases ended
      obtain rfl := Table.find?_key found
      -- the row that is handed in keeps its penalty, and the regrade begins where it is put
      have charged : Evaluation.charge row.id context.calendar tables = .ok row.penalty := priced row.id row found
      have first := priced.consistent_put saved charged
      have second := regraded.consistent first.priced stored
      exact ⟨second.priced, second.told, fun id outside standing same =>
        second.kept id outside standing (first.kept id (by simp) standing same)⟩
  | grade graded form =>
    cases answered with
    | missing | unfinished | outside => cases ended; exact .same priced _
    | wide | unplaced | uncharged | unscored | unsaved => cases ended
    | saved found finished placed inside charged scored saved =>
      cases ended
      obtain rfl := Table.find?_key found
      exact priced.consistent_put saved charged
  | regrade refreshed =>
    cases answered with
    | missing | unfinished => cases ended; exact .same priced _
    | wide | failed => cases ended
    | answered found finished regraded stored =>
      cases ended
      exact regraded.consistent priced stored
  | regradeAll swept =>
    cases answered with
    | missing => cases ended; exact .same priced _
    | wide => cases ended
    | @reviewed row result after attempts found reviewed =>
      cases result with
      | error failure => cases ended
      | ok done =>
        cases ended
        obtain ⟨priced, others⟩ := reviewed.priced rfl priced
        refine ⟨priced, by simp [Reply.told], fun id outside standing same => ?_⟩
        rw [Tables.standing_of_entry (others id outside)]
        exact same
  | health | read | list | penalty =>
    obtain ⟨_, replied, rfl⟩ := answered
    exact ⟨priced, looked_told sound priced (ended.trans replied).symm, fun _ _ _ same => same⟩

end Service

def Numbered (tables : Tables) : Prop := ∀ id row, tables.submission? id = some row → fitsWord id = true

namespace History

theorem numbered (history : List Event) : Numbered (History.tables history) := fun _ _ found =>
  ((fitting history).submission_numbers found).1

theorem Clean.append {later earlier : List Event} (clean : Clean (later ++ earlier)) : Clean earlier := by
  induction later with
  | nil => exact clean
  | cons event later ih => exact ih clean.2.2

def told (event : Event) (earlier : List Event) : List (Int × Standing) :=
  match answer event earlier with
  | .ok reply => reply.told
  | .error _ => []

theorem consistent {event : Event} {earlier : List Event} (clean : Clean (event :: earlier))
    (priced : Priced event.context.calendar (History.tables earlier)) :
    Consistent event.context.calendar (History.tables earlier) (History.tables (event :: earlier)) (evaluated event earlier)
      (told event earlier) := by
  rcases clean.last with ⟨⟨refusal, asked⟩, _, same⟩ | ⟨call, reply, attempts, _, replied, evaluates, answered⟩
  · have silent : told event earlier = [] := by simp [told, answer, Service.serve, asked, Reply.told]
    rw [silent, same]
    exact .same priced _
  · rw [told, replied, evaluates]
    exact answered.consistent (sound earlier) priced

theorem priced {history : List Event} (clean : Clean history)
    (fixed : ∀ event ∈ history, event.context.calendar = calendar) : Priced calendar (History.tables history) := by
  induction history with
  | nil => intro id row found; cases found
  | cons event earlier ih =>
    have before := ih clean.2.2 fun other inside => fixed other (List.mem_cons_of_mem event inside)
    obtain rfl := fixed event List.mem_cons_self
    exact (consistent clean before).priced

def lateFinish : List Event := [
  .plain 63845000000000000 .post ["submissions", "1", "finish"] [],
  .plain 63840000000000000 .post ["assignments", "1", "submissions"] [("student_id", .int 7)],
  .plain 63830000000000000 .post ["assignments"]
    [("title", .str "Essay"), ("due_at", .str "2024-01-02T03:04:05Z")]]

end History
end Overdue
