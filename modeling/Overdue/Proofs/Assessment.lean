import Overdue.Proofs.Settlement

/-! Assessments: evaluations one after another from empty tables, each for a submission of its own and under a fault of its
own. Of all that were asked for, the late record of a submission is determined by its own that returned: the terms are
those of the last, and the finish time is that of the first of the late ones at the end. -/
namespace Overdue

open Failure Work

theorem Penalty.percentage_congr {terms other : Terms} {finished done : Timestamp} (due : terms.dueAt.utc = other.dueAt.utc)
    (applied : terms.applied = other.applied) (daily : terms.daily = other.daily) (cap : terms.cap = other.cap)
    (instant : finished.utc = done.utc) (calendar : Calendar) :
    percentage terms finished calendar = percentage other done calendar := by
  simp only [percentage, days, run, overdue, due, applied, daily, cap, instant]

/-- The terms of a policy have their due instant in UTC, so that keeping them loses nothing. -/
theorem Policy.terms_stored_utc {policy : Policy} {terms : Terms} (frozen : policy.terms = .ok terms) :
    terms.stored.dueAt.utc = terms.dueAt.utc := by
  unfold Policy.terms at frozen
  split at frozen
  next => cases frozen
  next =>
    obtain ⟨due, _, rfl⟩ := map_eq_ok.mp frozen
    exact (Timestamp.utc_ofUtc due).symm

def Action.of : Bool → Bool → Action
  | true, false => create
  | true, true => update
  | false, true => delete
  | false, false => noop

theorem Policy.isLate_inactive {policy : Policy} (inactive : policy.active = .ok false) (finished : Timestamp) :
    policy.isLate finished = .ok false := by
  have due : policy.due? = .ok none := by
    unfold active at inactive
    unfold due?
    cases dueAt : policy.dueAt with
    | none => rfl
    | some due =>
      rw [dueAt] at inactive
      obtain ⟨utc, read, atEpoch⟩ := map_eq_ok.mp inactive
      have same : utc = epoch := by simpa using atEpoch
      simp [read, same, Except.map]
  exact isLate_of_none due finished

namespace Evaluation

variable {tables after : Tables} {attempts : List Tables} {id : Int} {finished : Timestamp} {policy : Policy}

theorem Judged.failed {failure : Failure} (judged : Judged id finished policy tables attempts (.error failure) after) :
    after = tables := by
  cases judged with
  | wide | undecided | unsaved => rfl

theorem Judged.action {action : Action} (judged : Judged id finished policy tables attempts (.ok action) after) :
    ∃ late, policy.isLate finished = .ok late ∧ action = .of late (tables.late? id).isSome := by
  cases judged with
  | noop onTime absent => exact ⟨false, onTime, by rw [absent]; rfl⟩
  | delete onTime present => exact ⟨false, onTime, by rw [present]; rfl⟩
  | create late absent => exact ⟨true, late, by rw [absent]; rfl⟩
  | update late present => exact ⟨true, late, by rw [present]; rfl⟩

end Evaluation

structure Assessment where
  id : Int
  finished : Timestamp
  policy : Policy
  faultAfter : Option Nat := none
deriving DecidableEq

namespace Assessment

variable {history : List Assessment} {call : Assessment} {id : Int}

def perform (call : Assessment) (session : Session) : Except Failure Action × Session :=
  Work.perform (Evaluation.evaluate call.id call.finished call.policy) call.faultAfter session

/-- The session after assessments, the last of them first. -/
def session : List Assessment → Session
  | [] => { stored := {} }
  | call :: earlier => (call.perform (session earlier)).2

def tables (history : List Assessment) : Tables := (session history).stored

def result (call : Assessment) (earlier : List Assessment) : Except Failure Action := (call.perform (session earlier)).1

def returned (id : Int) : List Assessment → List Assessment
  | [] => []
  | call :: earlier =>
    if call.id = id ∧ (result call earlier).toOption.isSome then call :: returned id earlier else returned id earlier

def late (call : Assessment) : Bool := call.policy.isLate call.finished = .ok true

/-- The late ones since the last of a submission that was not late. -/
def trailing (id : Int) (history : List Assessment) : List Assessment := (returned id history).takeWhile late

theorem session_eq (history : List Assessment) : session history = { stored := tables history } := by
  induction history with
  | nil => rfl
  | cons call earlier ih =>
    obtain ⟨attempts, result, after, runs, _⟩ :=
      Evaluation.evaluate_yields call.id call.finished call.policy (tables earlier)
    have ended := perform_eq runs call.faultAfter
    rw [← ih] at ended
    simp only [tables, session, perform, ended]
    cases call.faultAfter.bind fun n => attempts[n]? <;> rfl

theorem outcome (call : Assessment) (earlier : List Assessment) :
    ((∃ failure, result call earlier = .error failure) ∧ tables (call :: earlier) = tables earlier) ∨
      ∃ action attempts, result call earlier = .ok action ∧
        Evaluation.Judged call.id call.finished call.policy (tables earlier) attempts (.ok action)
          (tables (call :: earlier)) := by
  obtain ⟨attempts, judgement, after, runs, judged⟩ :=
    Evaluation.evaluate_yields call.id call.finished call.policy (tables earlier)
  have ended := perform_eq runs call.faultAfter
  rw [← session_eq] at ended
  simp only [tables, session, result, perform, ended] at judged ⊢
  cases struck : call.faultAfter.bind fun n => attempts[n]? with
  | some left =>
    obtain ⟨n, _, reached⟩ := Option.bind_eq_some_iff.mp struck
    have attempted := List.mem_of_getElem? reached
    rcases judged.attempts_eq with rfl | rfl
    · cases attempted
    · exact .inl ⟨⟨_, rfl⟩, List.mem_singleton.mp attempted⟩
  | none =>
    cases judgement with
    | error failure => exact .inl ⟨⟨failure, rfl⟩, judged.failed⟩
    | ok action => exact .inr ⟨action, attempts, rfl, judged⟩

theorem held (history : List Assessment) : Held (tables history) := by
  induction history with
  | nil => exact .empty
  | cons call earlier ih =>
    rcases outcome call earlier with ⟨_, same⟩ | ⟨_, _, _, judged⟩
    · rw [same]
      exact ih
    · exact ih.judged judged

/-- The late record that late assessments leave, the last of them first. -/
inductive Leaves (id : Int) : List Assessment → Option LateRecord → Prop
  | nothing : Leaves id [] none
  | record {calls : List Assessment} {last first : Assessment} {terms : Terms} {done : Reading}
    (head : calls.head? = some last) (bottom : calls.getLast? = some first) (frozen : last.policy.terms = .ok terms)
    (instant : first.finished.utc = .ok done) : Leaves id calls (some (LateRecord.stored ⟨id, .ofUtc done, terms⟩))

/-- A revision goes on with the late assessments, or begins anew after one that is not late. -/
theorem Leaves.revised {calls : List Assessment} {record revision : Option LateRecord}
    (leaves : Leaves id (calls.takeWhile late) record)
    (revises : Evaluation.revised id call.finished call.policy record = .ok revision) :
    Leaves id ((call :: calls).takeWhile late) revision := by
  rcases Evaluation.revised_eq_ok revises with ⟨onTime, rfl⟩ | ⟨done, terms, isLate, instant, frozen, rfl⟩
  · have ends : call.late = false := by simp [late, onTime]
    rw [List.takeWhile_cons_of_neg (by simp [ends])]
    exact .nothing
  · have goesOn : call.late = true := by simp [late, isLate]
    rw [List.takeWhile_cons_of_pos goesOn]
    generalize calls.takeWhile late = before at leaves
    cases leaves with
    | nothing => exact .record rfl rfl frozen instant
    | @record _ last first _ since head bottom _ instant =>
      -- the finish time that is kept is read back from its cell
      have kept : Leaves id (call :: before) (some (LateRecord.stored ⟨id, .ofUtc since, terms⟩)) := by
        refine .record rfl ?_ frozen instant
        rw [List.getLast?_cons, bottom]
        rfl
      exact kept

theorem leaves (history : List Assessment) (id : Int) : Leaves id (trailing id history) ((tables history).late? id) := by
  induction history with
  | nil => exact .nothing
  | cons call earlier ih =>
    unfold trailing returned
    rcases outcome call earlier with ⟨⟨failure, raised⟩, same⟩ | ⟨action, attempts, returns, judged⟩
    · rw [same, if_neg (by simp [raised, Except.toOption])]
      exact ih
    · by_cases own : call.id = id
      · rw [if_pos ⟨own, by simp [returns, Except.toOption]⟩]
        subst own
        exact ih.revised judged.revises
      · rw [if_neg (fun both => own both.1), judged.late?_other (Ne.symm own)]
        exact ih

theorem penalty_eq (fits : fitsWord id = true) (calendar : Calendar) (history : List Assessment) :
    (Work.perform (Evaluation.penalty id calendar) none (session history)).1 =
      Evaluation.charged calendar ((tables history).late? id) := by
  have ended := perform_eq (Evaluation.runs_penalty fits calendar (tables history)) none
  rw [← session_eq] at ended
  rw [ended, ← Evaluation.charge_eq]
  rfl

/-- Terms and a finish time cost the same after they were in their cells, whatever their offsets. -/
theorem charged_stored {policy : Policy} {finished : Timestamp} {terms : Terms} {done : Reading}
    (frozen : policy.terms = .ok terms) (instant : finished.utc = .ok done) (id : Int) (calendar : Calendar) :
    Evaluation.charged calendar (some (LateRecord.stored ⟨id, .ofUtc done, terms⟩)) =
      Penalty.percentage terms finished calendar := by
  have read : (Timestamp.stored (.ofUtc done)).utc = finished.utc := instant.symm
  exact Penalty.percentage_congr (Policy.terms_stored_utc frozen) rfl rfl rfl read calendar

theorem returns {isLate : Bool} (decided : call.policy.isLate call.finished = .ok isLate) (fits : fitsWord call.id = true)
    (policyFits : call.policy.fits = true) (unstruck : call.faultAfter = none) (history : List Assessment) :
    result call history = .ok (.of isLate ((tables history).late? call.id).isSome) := by
  obtain ⟨attempts, judgement, after, runs, judged⟩ :=
    Evaluation.evaluate_yields call.id call.finished call.policy (tables history)
  have ended := perform_eq runs none
  rw [← session_eq] at ended
  have judgeable : Evaluation.Judgeable call.id call.finished call.policy := ⟨fits, isLate, decided, fun _ => policyFits⟩
  obtain ⟨action, rfl⟩ := (judged.returns_iff fits).mpr judgeable
  obtain ⟨_, decidedToo, rfl⟩ := judged.action
  cases decided.symm.trans decidedToo
  rw [result, perform, unstruck, ended]
  rfl

theorem trailing_nil
    (onTime : ∀ last, (returned id history).head? = some last → last.policy.isLate last.finished ≠ .ok true) :
    trailing id history = [] := by
  unfold trailing
  cases own : returned id history with
  | nil => rfl
  | cons last others =>
    have ends : ¬last.late = true := by simpa [late] using onTime last (by rw [own]; rfl)
    exact List.takeWhile_cons_of_neg ends

theorem trailing_head {last : Assessment} (head : (returned id history).head? = some last)
    (isLate : last.policy.isLate last.finished = .ok true) : (trailing id history).head? = some last := by
  obtain ⟨others, own⟩ := List.head?_eq_some_iff.mp head
  have goesOn : last.late = true := by simp [late, isLate]
  rw [trailing, own, List.takeWhile_cons_of_pos goesOn]
  rfl

/-- After any assessments the late record of a submission follows from those of its own that returned: there is none if the
last was not late, and else one with the terms of the last and the finish time of the first of the late ones at the end,
and it costs what these cost. The next one creates, updates or deletes it by whether it is late and there is one, and
changes nothing where it raises. -/
theorem recorded (history : List Assessment) {id : Int} (fits : fitsWord id = true) :
    ((∀ last, (returned id history).head? = some last → last.policy.isLate last.finished ≠ .ok true) →
      (tables history).lateRecords.filter (fun record => record.submission = id) = [] ∧
      ∀ calendar, (Work.perform (Evaluation.penalty id calendar) none (session history)).1 = .ok 0) ∧
    (∀ last, (returned id history).head? = some last → last.policy.isLate last.finished = .ok true →
      ∃ first terms done, (trailing id history).getLast? = some first ∧ last.policy.terms = .ok terms ∧
        first.finished.utc = .ok done ∧
        (tables history).lateRecords.filter (fun record => record.submission = id) =
          [⟨id, ⟨done, none⟩, terms.stored⟩] ∧
        ∀ calendar, (Work.perform (Evaluation.penalty id calendar) none (session history)).1 =
          Penalty.percentage terms first.finished calendar) ∧
    (∀ (policy : Policy) finished, policy.active = .ok false → policy.isLate finished = .ok false) ∧
    ∀ call, call.id = id →
      (∀ action, result call history = .ok action → ∃ isLate, call.policy.isLate call.finished = .ok isLate ∧
        action = .of isLate ((tables history).late? id).isSome) ∧
      (∀ failure, result call history = .error failure → session (call :: history) = session history) ∧
      (∀ isLate, call.policy.isLate call.finished = .ok isLate → call.policy.fits = true → call.faultAfter = none →
        result call history = .ok (.of isLate ((tables history).late? id).isSome)) := by
  have leaves := leaves history id
  have rows : (tables history).lateRecords.filter (fun record => record.submission = id) =
      ((tables history).late? id).toList := Table.filter_key (held history).lateRecords id
  have charge := fun calendar => penalty_eq fits calendar history
  refine ⟨fun onTime => ?_, fun last head isLate => ?_, fun _ finished inactive => Policy.isLate_inactive inactive finished, ?_⟩
  · rw [trailing_nil onTime] at leaves
    generalize (tables history).late? id = entry at leaves rows charge
    cases leaves with
    | nothing => exact ⟨rows, charge⟩
    | record head => cases head
  · have block := trailing_head head isLate
    generalize trailing id history = calls at leaves block ⊢
    generalize (tables history).late? id = entry at leaves rows charge
    cases leaves with
    | nothing => cases block
    | @record _ _ first terms done headToo bottom frozen instant =>
      cases block.symm.trans headToo
      refine ⟨first, terms, done, bottom, frozen, instant, rows, fun calendar => ?_⟩
      rw [charge, charged_stored frozen instant]
  · rintro call rfl
    refine ⟨fun action returned => ?_, fun failure raised => ?_, fun isLate decided policyFits unstruck => ?_⟩
    · rcases outcome call history with ⟨⟨failure, raised⟩, _⟩ | ⟨_, _, returnedToo, judged⟩
      · cases returned.symm.trans raised
      · cases returned.symm.trans returnedToo
        exact judged.action
    · rcases outcome call history with ⟨_, same⟩ | ⟨_, _, returned, _⟩
      · rw [session_eq, session_eq, same]
      · cases raised.symm.trans returned
    · exact returns decided fits policyFits unstruck history

def twoHoursAhead (reading : Reading) : Timestamp := ⟨reading, some ⟨7200, by decide⟩⟩

/-- Submission 1 is late, on time once there is no due instant, late again twice, and assessed under a fault at the end. -/
def reassessed : List Assessment :=
  let due : Reading := 63839761445000000
  [⟨1, twoHoursAhead 63846500000000000, ⟨some (twoHoursAhead due), true, 1, 10, true⟩, some 0⟩,
    ⟨1, twoHoursAhead 63846400000000000, ⟨some (twoHoursAhead due), true, 10, 80, true⟩, none⟩,
    ⟨2, twoHoursAhead 63846300000000000, ⟨some (twoHoursAhead due), true, 5, 50, true⟩, none⟩,
    ⟨1, twoHoursAhead 63846200000000000, ⟨some (twoHoursAhead due), true, 5, 50, true⟩, none⟩,
    ⟨1, twoHoursAhead 63846100000000000, ⟨none, true, 5, 50, true⟩, none⟩,
    ⟨1, twoHoursAhead 63846000000000000, ⟨some (twoHoursAhead due), true, 5, 50, true⟩, none⟩]

theorem recorded_reassessed :
    (tables reassessed).lateRecords.filter (fun record => record.submission = 1) =
      [⟨1, ⟨⟨63846192800000000, by decide⟩, none⟩, ⟨⟨⟨63839754245000000, by decide⟩, none⟩, true, 10, 80⟩⟩] ∧
    (∀ calendar, (Work.perform (Evaluation.penalty 1 calendar) none (session reassessed)).1 =
      Penalty.percentage ⟨.ofUtc ⟨63839754245000000, by decide⟩, true, 10, 80⟩ (twoHoursAhead ⟨63846200000000000, by decide⟩)
        calendar) ∧
    (tables reassessed).lateRecords.filter (fun record => record.submission = 3) = [] ∧
    session reassessed = session reassessed.tail := by
  have last : (returned 1 reassessed).head? = some reassessed[1] := by decide +kernel
  have bottom : (trailing 1 reassessed).getLast? = some reassessed[3] := by decide +kernel
  have isLate : reassessed[1].policy.isLate reassessed[1].finished = .ok true := by decide +kernel
  have never : (returned 3 reassessed).head? = none := by decide +kernel
  have struck : result reassessed[0] reassessed.tail = .error .commitFailed := by decide +kernel
  obtain ⟨first, terms, done, same, frozen, instant, rows, costs⟩ :=
    (recorded reassessed (by decide : fitsWord 1 = true)).2.1 _ last isLate
  have terms : reassessed[1].policy.terms = .ok ⟨.ofUtc ⟨63839754245000000, by decide⟩, true, 10, 80⟩ := by decide +kernel
  have since : reassessed[3].finished.utc = .ok ⟨63846192800000000, by decide⟩ := by decide +kernel
  obtain rfl := Option.some.inj (bottom.symm.trans same)
  obtain rfl := Except.ok.inj (terms.symm.trans frozen)
  obtain rfl := Except.ok.inj (since.symm.trans instant)
  refine ⟨rows, costs, ?_, ?_⟩
  · have untouched := (recorded reassessed (by decide : fitsWord 3 = true)).1
    exact (untouched fun other head => by cases never.symm.trans head).1
  · exact ((recorded reassessed.tail (by decide : fitsWord 1 = true)).2.2.2 _ rfl).2.1 _ struck

end Assessment
end Overdue
