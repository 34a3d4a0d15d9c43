import Overdue.Proofs.FinishFault
import Overdue.Proofs.Settlement

/-! Regrades after a commit that failed. Whatever a struck regrade leaves of a submission, its row and its late record are
those of before, or those of the end, or the row of before with the late record of the end; from each of these a regrade
settles what it would have settled without the fault. -/
namespace Overdue

open Failure Work

variable {tables middle after left : Tables} {calendar : Calendar} {attempts : List Tables} {id : Int} {ids : List Int}

theorem Work.perform_left {α : Type} {work : Work α} {result : Except Failure α}
    (runs : Runs work tables attempts result after) (fault : Option Nat) :
    ∃ left, (perform work fault { stored := tables }).2 = { stored := left } ∧ (left ∈ attempts ∨ left = after) := by
  rw [perform_eq runs]
  cases struck : fault.bind fun n => attempts[n]? with
  | none => exact ⟨after, rfl, .inr rfl⟩
  | some left =>
    obtain ⟨n, _, reached⟩ := Option.bind_eq_some_iff.mp struck
    exact ⟨left, rfl, .inl (List.mem_of_getElem? reached)⟩

/-- Tables on the way from some tables to others by regrades. -/
structure Between (tables after left : Tables) : Prop where
  held : Held left
  assignments : left.assignments = tables.assignments
  entry (id : Int) : left.entry id = tables.entry id ∨ left.entry id = (tables.submission? id, after.late? id) ∨
    left.entry id = after.entry id

/-- Tables in which regrades of some submissions end. -/
structure Settled (calendar : Calendar) (ids : List Int) (tables after : Tables) : Prop where
  held : Held after
  assignments : after.assignments = tables.assignments
  settles : ∀ id ∈ ids, Evaluation.Settles calendar tables id (after.entry id)
  others : ∀ id ∉ ids, after.entry id = tables.entry id

namespace Evaluation

variable {entry : Option Submission × Option LateRecord}

theorem Settles.of_same (settles : Settles calendar tables id entry) (assignments : left.assignments = tables.assignments)
    (same : left.entry id = tables.entry id) : Settles calendar left id entry := by
  obtain ⟨found, finishedAt, placed, judgeable, settles, fits⟩ := settles
  have submission : left.submission? id = tables.submission? id := congrArg Prod.fst same
  have late : left.late? id = tables.late? id := congrArg Prod.snd same
  refine .intro (submission.trans found) finishedAt ?_ judgeable ?_ fits
  · rw [Tables.assignment?, assignments]
    exact placed
  · rw [late]
    exact settles

theorem settled_row {policy : Policy} {finished : Timestamp} {row : Submission} {record : Option LateRecord}
    {entry : Submission × Option LateRecord} (kept : row.stored = row)
    (ok : settled calendar policy finished row record = .ok entry) :
    entry.1.assignment = row.assignment ∧ entry.1.finishedAt = row.finishedAt := by
  obtain ⟨_, _, _, _, _, same⟩ := settled_eq_ok.mp ok
  rw [Submission.stored_rescored kept] at same
  rw [← same]
  exact ⟨rfl, rfl⟩

theorem Settles.again (settles : Settles calendar tables id entry) (held : Held tables)
    (assignments : left.assignments = tables.assignments)
    (between : left.entry id = tables.entry id ∨ left.entry id = (tables.submission? id, entry.2) ∨ left.entry id = entry) :
    Settles calendar left id entry := by
  rcases between with same | half | whole
  · exact settles.of_same assignments same
  · obtain ⟨found, finishedAt, placed, judgeable, settles, fits⟩ := settles
    have kept := held.kept _ (Table.mem_of_find? found)
    have submission := congrArg Prod.fst half
    have late := congrArg Prod.snd half
    refine .intro (submission.trans found) finishedAt ?_ judgeable ?_ fits
    · rw [Tables.assignment?, assignments]
      exact placed
    · rw [show left.late? id = _ from late]
      exact (settled_again kept settles).1
  · obtain ⟨found, finishedAt, placed, judgeable, settles, fits⟩ := settles
    have kept := held.kept _ (Table.mem_of_find? found)
    have submission := congrArg Prod.fst whole
    have late := congrArg Prod.snd whole
    obtain ⟨sameAssignment, sameFinish⟩ := settled_row kept settles
    refine .intro submission (sameFinish.trans finishedAt) ?_ judgeable ?_ fits
    · rw [Tables.assignment?, assignments, sameAssignment]
      exact placed
    · rw [show left.late? id = _ from late]
      exact (settled_again kept settles).2

end Evaluation

namespace Settled

theorem unique (settled : Settled calendar ids tables after) (again : Settled calendar ids tables left) : after = left := by
  apply settled.held.ext again.held
  · exact settled.assignments.trans again.assignments.symm
  · intro id
    by_cases inside : id ∈ ids
    · exact (settled.settles id inside).unique (again.settles id inside)
    · exact (settled.others id inside).trans (again.others id inside).symm

theorem again (settled : Settled calendar ids tables after) (held : Held tables) (between : Between tables after left) :
    Settled calendar ids left after where
  held := settled.held
  assignments := settled.assignments.trans between.assignments.symm
  settles := by
    intro id inside
    exact (settled.settles id inside).again held between.assignments (between.entry id)
  others := by
    intro id outside
    have same := settled.others id outside
    have late : after.late? id = tables.late? id := congrArg Prod.snd same
    rcases between.entry id with first | half | last
    · exact same.trans first.symm
    · rw [half, late]
      exact same
    · exact last.symm

theorem between (settled : Settled calendar ids tables after) : Between tables after after :=
  ⟨settled.held, settled.assignments, fun _ => .inr (.inr rfl)⟩

theorem apart (first : Settled calendar [id] tables middle) {other : Int} (differs : other ≠ id) :
    middle.entry other = tables.entry other := first.others other (by simpa using differs)

theorem append (first : Settled calendar [id] tables middle) (last : Settled calendar ids middle after) (fresh : id ∉ ids) :
    Settled calendar (id :: ids) tables after where
  held := last.held
  assignments := last.assignments.trans first.assignments
  settles := by
    intro other inside
    rcases List.mem_cons.mp inside with rfl | later
    · rw [last.others other fresh]
      exact first.settles other (List.mem_singleton_self other)
    · have differs : other ≠ id := fun same => fresh (same ▸ later)
      exact (last.settles other later).of_same first.assignments.symm (first.apart differs).symm
  others := by
    intro other outside
    rw [List.mem_cons, not_or] at outside
    exact (last.others other outside.2).trans (first.apart outside.1)

end Settled

namespace Between

/-- On the way of the first regrade nothing is changed of the others, and its own end is that of all. -/
theorem append (between : Between tables middle left) (first : Settled calendar [id] tables middle)
    (last : Settled calendar ids middle after) (fresh : id ∉ ids) : Between tables after left := by
  refine ⟨between.held, between.assignments, fun other => ?_⟩
  by_cases same : other = id
  · have own := last.others id fresh
    have record : after.late? id = middle.late? id := congrArg Prod.snd own
    rw [same, own, record]
    exact between.entry id
  · have before := first.apart same
    have unchanged : middle.late? other = tables.late? other := congrArg Prod.snd before
    left
    rcases between.entry other with start | half | whole
    · exact start
    · rw [half, unchanged]
      rfl
    · exact whole.trans before

/-- On the way of the regrades after it the first one has come to its end. -/
theorem prepend (between : Between middle after left) (first : Settled calendar [id] tables middle)
    (last : Settled calendar ids middle after) (fresh : id ∉ ids) : Between tables after left := by
  refine ⟨between.held, between.assignments.trans first.assignments, fun other => ?_⟩
  by_cases same : other = id
  · have own := last.others id fresh
    have record : after.late? id = middle.late? id := congrArg Prod.snd own
    right
    right
    rw [same]
    rcases between.entry id with start | half | whole
    · exact start.trans own.symm
    · rw [half, record]
      exact own.symm
    · exact whole
  · have before := first.apart same
    have unchanged : middle.submission? other = tables.submission? other := congrArg Prod.fst before
    rw [← before, ← unchanged]
    exact between.entry other

end Between

namespace Evaluation

theorem Regraded.settled {penalty : Int} (held : Held tables)
    (regraded : Regraded id calendar tables attempts (.ok penalty) after) :
    Settled calendar [id] tables after ∧ ∀ left ∈ attempts, Between tables after left := by
  have ⟨settles, assignments, _, others⟩ := regraded.settles
  cases regraded with
  | @rescored row finished assignment judging more action middle _ _ found finishedAt placed judged rescored =>
    have heldMiddle : Held middle := held.judged judged
    cases rescored with
    | saved charges scores saved =>
      have late : after.lateRecords = middle.lateRecords := (Tables.putSubmission_keeps saved).2
      refine ⟨⟨heldMiddle.putSubmission saved, assignments, ?_, ?_⟩, ?_⟩
      · intro other inside
        rw [List.mem_singleton.mp inside]
        exact settles
      · intro other outside
        exact others other (by simpa using outside)
      · intro left attempted
        have cut : left = tables ∨ left = middle := by
          rcases judged.attempts_eq with rfl | rfl
          · exact .inr (by simpa using attempted)
          · simpa using attempted
        rcases cut with rfl | rfl
        · exact ⟨held, rfl, fun _ => .inl rfl⟩
        · -- the late record is that of the end and no row is changed yet
          refine ⟨heldMiddle, judged.assignments, fun other => .inr (.inl ?_)⟩
          rw [Tables.entry, Tables.late?, Tables.submission?, judged.submissions, ← late]
          rfl

theorem Reviewed.settled {result : Except Failure Unit} (reviewed : Reviewed calendar ids tables attempts result after)
    (succeeded : result = .ok ()) (held : Held tables) (distinct : ids.Nodup) :
    Settled calendar ids tables after ∧ ∀ left ∈ attempts, Between tables after left := by
  induction reviewed with
  | nil tables => exact ⟨⟨held, rfl, by simp, fun _ _ => rfl⟩, by simp⟩
  | failed => cases succeeded
  | cons regraded rest ih =>
    obtain ⟨fresh, distinctRest⟩ := List.nodup_cons.mp distinct
    obtain ⟨first, early⟩ := regraded.settled held
    obtain ⟨last, late⟩ := ih succeeded first.held distinctRest
    refine ⟨first.append last fresh, fun left attempted => ?_⟩
    rcases List.mem_append.mp attempted with soon | later
    · exact (early left soon).append first last fresh
    · exact (late left later).prepend first last fresh

theorem Reviewed.returns {result : Except Failure Unit} (reviewed : Reviewed calendar ids tables attempts result after)
    (held : Held tables) (distinct : ids.Nodup) (settles : ∀ id ∈ ids, ∃ entry, Settles calendar tables id entry) :
    result = .ok () := by
  induction reviewed with
  | nil tables => rfl
  | failed regraded =>
    obtain ⟨entry, settles⟩ := settles _ List.mem_cons_self
    obtain ⟨_, impossible⟩ := regraded.returns held settles
    cases impossible
  | @cons id others tables middle after attempts more penalty result regraded rest ih =>
    obtain ⟨fresh, distinctRest⟩ := List.nodup_cons.mp distinct
    obtain ⟨first, _⟩ := regraded.settled held
    apply ih first.held distinctRest
    intro other later
    have differs : other ≠ id := fun same => fresh (same ▸ later)
    obtain ⟨entry, settles⟩ := settles other (List.mem_cons_of_mem id later)
    exact ⟨entry, settles.of_same first.assignments (first.apart differs)⟩

theorem Reviewed.again {result : Except Failure Unit} (reviewed : Reviewed calendar ids left attempts result tables)
    {origin : Tables} (held : Held origin) (distinct : ids.Nodup) (settled : Settled calendar ids origin after)
    (between : Between origin after left) : result = .ok () ∧ tables = after := by
  have settledLeft := settled.again held between
  have succeeded := reviewed.returns between.held distinct fun id inside => ⟨_, settledLeft.settles id inside⟩
  exact ⟨succeeded, (reviewed.settled succeeded between.held distinct).1.unique settledLeft⟩

theorem Regraded.again {penalty : Int} {result : Except Failure Int} {more : List Tables}
    (regraded : Regraded id calendar tables attempts (.ok penalty) after) (held : Held tables)
    (between : Between tables after left) {last : Tables} (again : Regraded id calendar left more result last) :
    result = .ok penalty ∧ last = after := by
  have settledLeft := (regraded.settled held).1.again held between
  obtain ⟨penaltyToo, rfl⟩ := again.returns between.held (settledLeft.settles id (List.mem_singleton_self id))
  have same : last = after := (again.settled between.held).1.unique settledLeft
  have told := regraded.settles.2.2.1
  have toldToo := again.settles.2.2.1
  rw [same, told] at toldToo
  cases toldToo
  exact ⟨rfl, same⟩

theorem finishedOf_sorted (held : Held tables) (assignment : Int) :
    Table.Sorted (fun id : Int => id) ((finishedOf assignment tables).map Submission.id) :=
  List.pairwise_map.mpr (held.submissions.filter _)

theorem mem_finishedOf (held : Held tables) (assignment : Int) :
    id ∈ (finishedOf assignment tables).map Submission.id ↔
      (tables.submission? id).map (fun row => (row.assignment, row.isFinished)) = some (assignment, true) := by
  simp only [List.mem_map, finishedOf, List.mem_filter, Option.map_eq_some_iff, Tables.submission?,
    Table.find?_eq_some_iff held.submissions, Bool.and_eq_true, decide_eq_true_eq, Prod.mk.injEq]
  grind

theorem finishedOf_between {assignment : Int} (held : Held tables)
    (settled : Settled calendar ((finishedOf assignment tables).map Submission.id) tables after)
    (between : Between tables after left) :
    (finishedOf assignment left).map Submission.id = (finishedOf assignment tables).map Submission.id := by
  have irreflexive : Std.Irrefl fun a b : Int => a < b := ⟨Int.lt_irrefl⟩
  have antisymmetric : Std.Antisymm fun a b : Int => a < b := ⟨fun a b before after => by omega⟩
  apply List.Pairwise.eq_of_mem_iff (finishedOf_sorted between.held assignment) (finishedOf_sorted held assignment)
  intro id
  rw [mem_finishedOf between.held, mem_finishedOf held]
  have ends : (after.submission? id).map (fun row => (row.assignment, row.isFinished)) =
      (tables.submission? id).map fun row => (row.assignment, row.isFinished) := by
    by_cases inside : id ∈ (finishedOf assignment tables).map Submission.id
    · have settles := settled.settles id inside
      generalize stands : after.entry id = entry at settles
      obtain ⟨found, _, _, _, settles, _⟩ := settles
      have kept := held.kept _ (Table.mem_of_find? found)
      obtain ⟨sameAssignment, sameFinish⟩ := settled_row kept settles
      have submission : after.submission? id = _ := congrArg Prod.fst stands
      rw [submission, found, Option.map_some, Option.map_some, Submission.isFinished, Submission.isFinished,
        sameAssignment, sameFinish]
    · rw [show after.submission? id = tables.submission? id from congrArg Prod.fst (settled.others id inside)]
  rcases between.entry id with first | half | last
  · rw [show left.submission? id = tables.submission? id from congrArg Prod.fst first]
  · rw [show left.submission? id = tables.submission? id from congrArg Prod.fst half]
  · rw [show left.submission? id = after.submission? id from congrArg Prod.fst last, ends]

theorem regrade_repaired (held : Held tables) {penalty : Int} {done : Session}
    (returns : perform (regrade id calendar) none { stored := tables } = (.ok penalty, done)) (n : Nat) :
    perform (regrade id calendar) none (perform (regrade id calendar) (some n) { stored := tables }).2 =
      (.ok penalty, done) := by
  obtain ⟨attempts, result, after, runs, regraded⟩ := regrade_yields id calendar tables
  rw [perform_eq runs] at returns
  cases returns
  obtain ⟨settled, early⟩ := regraded.settled held
  obtain ⟨left, leaves, cut⟩ := perform_left runs (some n)
  have between : Between tables after left := by
    rcases cut with attempted | rfl
    · exact early left attempted
    · exact settled.between
  obtain ⟨more, again, last, rest, regradedToo⟩ := regrade_yields id calendar left
  obtain ⟨rfl, rfl⟩ := regraded.again held between regradedToo
  rw [leaves, perform_eq rest]
  rfl

theorem regradeAll_repaired (held : Held tables) {assignment : Int} {count : Nat} {done : Session}
    (returns : perform (regradeAll assignment calendar) none { stored := tables } = (.ok count, done)) (n : Nat) :
    perform (regradeAll assignment calendar) none (perform (regradeAll assignment calendar) (some n) { stored := tables }).2 =
      (.ok count, done) := by
  obtain ⟨attempts, result, after, runs, swept⟩ := regradeAll_yields assignment calendar tables
  rw [perform_eq runs] at returns
  obtain ⟨rfl, rfl⟩ := Prod.mk.inj returns
  generalize ended : Except.ok count = result at swept runs
  cases swept with
  | wide | missing => cases ended
  | @reviewed row reviewing _ _ fits found reviewed =>
    cases reviewing with
    | error failure => cases ended
    | ok _ =>
      cases ended
      have distinct : ((finishedOf assignment tables).map Submission.id).Nodup :=
        (finishedOf_sorted held assignment).imp Int.ne_of_lt
      obtain ⟨settled, early⟩ := reviewed.settled rfl held distinct
      obtain ⟨left, leaves, cut⟩ := perform_left runs (some n)
      have between : Between tables after left := by
        rcases cut with attempted | rfl
        · exact early left attempted
        · exact settled.between
      have same := finishedOf_between held settled between
      obtain ⟨more, again, last, rest, sweptToo⟩ := regradeAll_yields assignment calendar left
      rw [leaves, perform_eq rest]
      cases sweptToo with
      | wide wide => cases fits.symm.trans wide
      | missing absent =>
        rw [Tables.assignment?, between.assignments] at absent
        cases found.symm.trans absent
      | reviewed _ _ reviewedToo =>
        rw [same] at reviewedToo
        obtain ⟨rfl, rfl⟩ := reviewedToo.again held distinct settled between
        have length := congrArg List.length same
        simp only [List.length_map] at length
        simp [length, Except.map]

end Evaluation

theorem Service.finish_repaired (held : Held tables) {context later : Context} (sameCalendar : later.calendar = context.calendar)
    {form : FinishForm} {view : SubmissionView}
    (returns : answer context none (.finish id form) tables = (.ok (.submission view), after)) {n : Nat} (beyond : n ≠ 0) :
    answer later none (.regrade id) (answer context (some n) (.finish id form) tables).2 = (.ok (.submission view), after) := by
  obtain ⟨attempts, result, last, runs, finished⟩ := perform_yields context (.finish id form) tables
  have ended := answer_eq runs none
  rw [returns] at ended
  obtain ⟨rfl, rfl⟩ := Prod.mk.inj ended
  generalize replied : Except.ok (Reply.submission view) = result at finished runs
  cases finished with
  | wide | missing | already | unsaved | failed => cases replied
  | @answered row kept penalty middle _ attempts found unfinished saved regraded stored =>
    cases replied
    have heldMiddle := held.putSubmission saved
    obtain ⟨settled, early⟩ := regraded.settled heldMiddle
    have between : Between middle after (answer context (some n) (.finish id form) tables).2 := by
      obtain ⟨m, rfl⟩ := Nat.exists_eq_succ_of_ne_zero beyond
      rw [answer_eq runs, Option.bind_some, List.getElem?_cons_succ]
      cases struck : attempts[m]? with
      | none => exact settled.between
      | some left => exact early left (List.mem_of_getElem? struck)
    generalize (answer context (some n) (.finish id form) tables).2 = left at between
    obtain ⟨more, result, last, rest, refreshed⟩ := perform_yields later (.regrade id) left
    rw [answer_eq rest]
    have settles := (settled.again heldMiddle between).settles id (List.mem_singleton_self id)
    generalize after.entry id = entry at settles
    obtain ⟨present, finishedAt, _, judgeable⟩ := settles
    cases refreshed with
    | wide wide => cases judgeable.1.symm.trans wide
    | missing absent => cases present.symm.trans absent
    | unfinished foundToo unfinishedToo =>
      cases present.symm.trans foundToo
      simp [Submission.isFinished, finishedAt] at unfinishedToo
    | failed _ _ regradedToo =>
      rw [sameCalendar] at regradedToo
      obtain ⟨impossible, _⟩ := regraded.again heldMiddle between regradedToo
      cases impossible
    | answered foundToo finishedToo regradedToo storedToo =>
      rw [sameCalendar] at regradedToo
      obtain ⟨_, rfl⟩ := regraded.again heldMiddle between regradedToo
      cases stored.symm.trans storedToo
      rfl

/-- Whatever commit of a regrade fails, the same regrade after it ends as it would have without the fault, the regrade of
a whole assignment too; and a regrade makes up for a finish of which any commit but the first fails. -/
theorem Held.repaired (held : Held tables) (calendar : Calendar) :
    (∀ id penalty n, (perform (Evaluation.regrade id calendar) none { stored := tables }).1 = .ok penalty →
      perform (Evaluation.regrade id calendar) none (perform (Evaluation.regrade id calendar) (some n) { stored := tables }).2 =
        perform (Evaluation.regrade id calendar) none { stored := tables }) ∧
    (∀ assignment count n, (perform (Evaluation.regradeAll assignment calendar) none { stored := tables }).1 = .ok count →
      perform (Evaluation.regradeAll assignment calendar) none
          (perform (Evaluation.regradeAll assignment calendar) (some n) { stored := tables }).2 =
        perform (Evaluation.regradeAll assignment calendar) none { stored := tables }) ∧
    ∀ now later id form view n, (Service.answer ⟨now, calendar⟩ none (.finish id form) tables).1 = .ok (.submission view) →
      n ≠ 0 →
      Service.answer ⟨later, calendar⟩ none (.regrade id) (Service.answer ⟨now, calendar⟩ (some n) (.finish id form) tables).2 =
        Service.answer ⟨now, calendar⟩ none (.finish id form) tables := by
  have both {α : Type} {ended : Except Failure α × Session} {value : α} (returns : ended.1 = .ok value) :
      ended = (.ok value, ended.2) := Prod.ext returns rfl
  refine ⟨fun id penalty n returns => ?_, fun assignment count n returns => ?_, ?_⟩
  · exact (Evaluation.regrade_repaired held (both returns) n).trans (both returns).symm
  · exact (Evaluation.regradeAll_repaired held (both returns) n).trans (both returns).symm
  · intro now later id form view n returns beyond
    have same : Service.answer ⟨now, calendar⟩ none (.finish id form) tables = (.ok (.submission view), _) :=
      Prod.ext returns rfl
    exact (Service.finish_repaired held rfl same beyond).trans same.symm

namespace History

/-- Two attempts were finished before their policy was changed, and a third is open. -/
def outdated : List Event := [
  .plain 63846000000000000 .post ["assignments", "1", "submissions"] [("student_id", .int 9)],
  .plain 63845300000000000 .patch ["assignments", "1", "late-policy"] [("max_percentage_penalty", .int 80)],
  .plain 63845200000000000 .post ["submissions", "2", "finish"] [],
  .plain 63845100000000000 .post ["assignments", "1", "submissions"] [("student_id", .int 8)],
  .plain 63845000000000000 .post ["submissions", "1", "finish"] [],
  .plain 63840000000000000 .post ["assignments", "1", "submissions"] [("student_id", .int 7)],
  .plain 63830000000000000 .post ["assignments"]
    [("title", .str "Essay"), ("due_at", .str "2024-01-02T03:04:05Z")]]

theorem repaired_outdated :
    let tables := History.tables outdated
    let regrade := Evaluation.regrade 1 ⟨[], .utc⟩
    let regradeAll := Evaluation.regradeAll 1 ⟨[], .utc⟩
    let context : Context := ⟨⟨63846100000000000, by decide⟩, [], .utc⟩
    perform regrade none (perform regrade (some 1) { stored := tables }).2 = perform regrade none { stored := tables } ∧
    perform regradeAll none (perform regradeAll (some 2) { stored := tables }).2 = perform regradeAll none { stored := tables } ∧
    Service.answer context none (.regrade 3) (Service.answer context (some 1) (.finish 3 ⟨none⟩) tables).2 =
      Service.answer context none (.finish 3 ⟨none⟩) tables := by
  intro tables regrade regradeAll context
  obtain ⟨one, all, finish⟩ := (History.held outdated).repaired ⟨[], .utc⟩
  have once : (perform regrade none { stored := tables }).1 = .ok 80 := by decide +kernel
  have twice : (perform regradeAll none { stored := tables }).1 = .ok 2 := by decide +kernel
  have finished : (Service.answer context none (.finish 3 ⟨none⟩) tables).1 =
      .ok (.submission ⟨⟨3, 1, 9, 1, none, ⟨⟨63846000000000000, by decide⟩, none⟩,
        some ⟨⟨63846100000000000, by decide⟩, none⟩, none, 80, none, none, none⟩, true⟩) := by decide +kernel
  exact ⟨one 1 80 1 once, all 1 2 2 twice, finish _ context.now 3 _ _ 1 finished (by decide)⟩

end History
end Overdue
