import Overdue.Proofs.History

/-! Finishes that meet a commit that fails. The finish time is a commit of its own, so only a fault at that first commit
leaves the tables as they were. A fault at the second one leaves a late submission without a late record. -/
namespace Overdue

open Failure Work

variable {tables after : Tables} {calendar : Calendar} {attempts : List Tables} {id : Int} {failure : Failure}

namespace Evaluation

theorem Judged.not_struck {finished : Timestamp} {policy : Policy}
    (judged : Judged id finished policy tables attempts (.error failure) after) : failure ≠ .commitFailed := by
  cases judged with
  | wide => simp
  | undecided undecided => rw [Policy.isLate_only policy finished _ undecided]; simp
  | unsaved row late own frozen refused =>
    have refused : tables.apply (.late row) = .error failure := refused
    exact Tables.apply_error refused

theorem Rescored.not_struck {row : Submission} (rescored : Rescored row calendar tables attempts (.error failure) after) :
    failure ≠ .commitFailed := by
  cases rescored with
  | uncharged failed => rw [charge_only _ _ _ _ failed]; simp
  | unscored charged failed => rw [adjusted_only _ _ _ failed]; simp
  | unsaved charged scored refused =>
    have refused : tables.apply (.submission _) = .error failure := refused
    exact Tables.apply_error refused

theorem Regraded.not_struck (regraded : Regraded id calendar tables attempts (.error failure) after) :
    failure ≠ .commitFailed := by
  cases regraded with
  | wide | missing | unfinished | unplaced => simp
  | unjudged found finishedAt placed judged => exact judged.not_struck
  | rescored found finishedAt placed judged rescored => exact rescored.not_struck

/-- Without a late record an evaluation attempts a commit only to create one. -/
theorem Judged.fresh {finished : Timestamp} {policy : Policy} {result : Except Failure Action}
    (judged : Judged id finished policy tables attempts result after) (absent : tables.late? id = none) :
    (attempts = [] ∧ after = tables) ∨ attempts = [tables] ∧ ∀ action, result = .ok action → after.late? id ≠ none := by
  cases judged with
  | wide | undecided | noop => exact .inl ⟨rfl, rfl⟩
  | delete onTime present | update late present => cases absent.symm.trans present
  | unsaved => exact .inr ⟨rfl, fun _ impossible => by cases impossible⟩
  | create late absent instant frozen saved =>
    refine .inr ⟨rfl, fun _ _ => ?_⟩
    rw [Tables.late?_put saved, if_pos rfl]
    simp

/-- Where a regrade without a late record stands at its attempts: first as it began, then with a late record. -/
theorem Regraded.fresh {result : Except Failure Int} (regraded : Regraded id calendar tables attempts result after)
    (absent : tables.late? id = none) {n : Nat} {left : Tables} (struck : attempts[n]? = some left) :
    (n = 0 ∧ left = tables) ∨ n = 1 ∧ left.submissions = tables.submissions ∧ left.assignments = tables.assignments ∧
      left.late? id ≠ none := by
  cases regraded with
  | wide | missing | unfinished | unplaced => simp at struck
  | unjudged found finishedAt placed judged =>
    rcases judged.fresh absent with ⟨rfl, _⟩ | ⟨rfl, _⟩
    · simp at struck
    · cases n with
      | zero => exact .inl ⟨rfl, by simpa using struck.symm⟩
      | succ n => simp at struck
  | @rescored _ _ _ _ _ _ middle _ _ found finishedAt placed judged rescored =>
    have submissions := judged.submissions
    have assignments := judged.assignments
    rcases judged.fresh absent with ⟨rfl, rfl⟩ | ⟨rfl, recorded⟩
    · rcases rescored.attempts_eq with rfl | rfl
      · simp at struck
      · cases n with
        | zero => exact .inl ⟨rfl, by simpa using struck.symm⟩
        | succ n => simp at struck
    · cases n with
      | zero => exact .inl ⟨rfl, by simpa using struck.symm⟩
      | succ n =>
        rcases rescored.attempts_eq with rfl | rfl
        · simp at struck
        · cases n with
          | zero =>
            have same : middle = left := by simpa using struck
            subst same
            exact .inr ⟨rfl, submissions, assignments, recorded _ rfl⟩
          | succ n => simp at struck

end Evaluation

/-- Whether a struck finish leaves its first, its second or its third attempt. -/
theorem Service.Finished.struck {context : Context} {form : FinishForm} {result : Except Failure Reply} {row : Submission}
    (finished : Finished context id form tables attempts result after) (sound : Sound tables)
    (found : tables.submission? id = some row) (unfinished : row.finishedAt = none) {n : Nat} {left : Tables}
    (struck : attempts[n]? = some left) :
    (n = 0 ∧ left = tables) ∨ n ≠ 0 ∧ fitsWord id = true ∧ left.submission? id = some (handedIn context form row).stored ∧
      left.assignments = tables.assignments ∧ (left.late? id = none ↔ n = 1) := by
  have absent : tables.late? id = none := by
    cases stale : tables.late? id with
    | none => rfl
    | some record =>
      obtain ⟨_, old, foundToo, finishedAt⟩ := sound.record stale
      cases found.symm.trans foundToo
      cases unfinished.symm.trans finishedAt
  have later {middle : Tables} {more : List Tables} {result : Except Failure Int} {n : Nat}
      (saved : tables.putSubmission (handedIn context form row) = .ok middle)
      (regraded : Evaluation.Regraded id context.calendar middle more result after) (struck : more[n]? = some left) :
      fitsWord id = true ∧ left.submission? id = some (handedIn context form row).stored ∧
        left.assignments = tables.assignments ∧ (left.late? id = none ↔ n = 0) := by
    obtain rfl := Table.find?_key found
    obtain ⟨assignments, lateRecords⟩ := Tables.putSubmission_keeps saved
    have fresh : middle.late? row.id = none := by rw [Tables.late?, lateRecords]; exact absent
    obtain ⟨fits, stored⟩ : fitsWord row.id = true ∧ middle.submission? row.id = some (handedIn context form row).stored :=
      Tables.putSubmission_found saved
    rcases regraded.fresh fresh struck with ⟨rfl, rfl⟩ | ⟨rfl, submissions, same, recorded⟩
    · exact ⟨fits, stored, assignments, by simpa using fresh⟩
    · refine ⟨fits, ?_, same.trans assignments, by simpa using recorded⟩
      rw [Tables.submission?, submissions]
      exact stored
  cases finished with
  | wide | missing | already => simp at struck
  | unsaved =>
    cases n with
    | zero => exact .inl ⟨rfl, by simpa using struck.symm⟩
    | succ n => simp at struck
  | failed foundToo open_ saved regraded | answered foundToo open_ saved regraded =>
    cases found.symm.trans foundToo
    cases n with
    | zero => exact .inl ⟨rfl, by simpa using struck.symm⟩
    | succ n => exact .inr ⟨by simp, by simpa using later saved regraded (by simpa using struck)⟩

theorem Service.Finished.not_struck {context : Context} {form : FinishForm}
    (finished : Finished context id form tables attempts (.error failure) after) : failure ≠ .commitFailed := by
  cases finished with
  | wide => simp
  | @unsaved row _ found unfinished refused =>
    have refused : tables.apply (.submission (handedIn context form row)) = .error failure := refused
    exact Tables.apply_error refused
  | failed found unfinished saved regraded => exact regraded.not_struck

theorem Service.answer_finish_again {row : Submission} (found : tables.submission? id = some row) (fits : fitsWord id = true)
    (finished : row.isFinished = true) (context : Context) (fault : Option Nat) (form : FinishForm) :
    answer context fault (.finish id form) tables = (.ok (.refused .alreadyFinished), tables) := by
  obtain ⟨attempts, result, after, runs, course⟩ := perform_yields context (.finish id form) tables
  cases course with
  | wide wide => cases fits.symm.trans wide
  | missing absent => cases found.symm.trans absent
  | already => exact answer_unwritten runs fault
  | unsaved foundToo unfinished | failed foundToo unfinished | answered foundToo unfinished =>
    cases found.symm.trans foundToo
    cases finished.symm.trans unfinished

theorem Service.answer_penalty {row : Submission} (found : tables.submission? id = some row) (fits : fitsWord id = true)
    (context : Context) (fault : Option Nat) : answer context fault (.penalty id) tables =
      ((Evaluation.charge id context.calendar tables).map (.penalty id (tables.late? id).isSome), tables) := by
  obtain ⟨attempts, result, after, runs, rfl, rfl, rfl⟩ := perform_yields context (.penalty id) tables
  rw [answer_unwritten runs fault]
  have charged : looked context after (.penalty id) =
      (Evaluation.charge id context.calendar after).map (.penalty id (after.late? id).isSome) := by
    simp only [looked, within, fits, found, if_true]
    cases Evaluation.charge id context.calendar after <;> rfl
  rw [charged]

/-- A submission that the policy of its assignment finds late, and that is reported as if it was not. -/
def Overlooked (tables : Tables) (id : Int) : Prop :=
  ∃ row finished policy, tables.submission? id = some row ∧ row.finishedAt = some finished ∧
    tables.policyOf id = some policy ∧ policy.isLate finished = .ok true ∧
    ∀ context fault, Service.answer context fault (.penalty id) tables = (.ok (.penalty id false 0), tables)

theorem History.finish_attempt {history : List Event} {event : Event} {form : FinishForm} {n : Nat}
    (asked : event.request.call = .ok (.ok (.finish id form))) (fault : event.faultAfter = some n)
    (struck : answer event history = .error .commitFailed) :
    ∃ attempts result after, Service.Finished event.context id form (History.tables history) attempts result after ∧
      attempts[n]? = some (History.tables (event :: history)) := by
  obtain ⟨attempts, result, after, runs, finished⟩ :=
    Service.perform_yields event.context (.finish id form) (History.tables history)
  have ended := Service.answer_eq runs (some n)
  have served := Service.serve_call asked event.context event.faultAfter (History.tables history)
  rw [fault] at served
  refine ⟨attempts, result, after, finished, ?_⟩
  rw [History.tables, fault, served, ended]
  rw [answer, fault, served, ended] at struck
  cases reached : attempts[n]? with
  | some left => simp [reached]
  | none =>
    simp only [Option.bind_some, reached] at struck
    subst struck
    exact absurd rfl finished.not_struck

/-- A finish that meets a fault after `n` commits leaves the submissions and the late records as they were exactly if
`n` is zero. After any other it cannot be sent again, and after one it is overlooked if it was late. -/
theorem History.finish_struck {history : List Event} {event : Event} {id : Int} {form : FinishForm} {n : Nat}
    {row : Submission} (found : (History.tables history).submission? id = some row) (unfinished : row.finishedAt = none)
    (asked : event.request.call = .ok (.ok (.finish id form))) (fault : event.faultAfter = some n)
    (struck : answer event history = .error .commitFailed) :
    ((History.tables (event :: history)).submissions = (History.tables history).submissions ∧
        (History.tables (event :: history)).lateRecords = (History.tables history).lateRecords ↔ n = 0) ∧
    (n ≠ 0 → ∀ again form, again.request.call = .ok (.ok (.finish id form)) →
      answer again (event :: history) = .ok (.refused .alreadyFinished)) ∧
    (Overlooked (History.tables (event :: history)) id ↔ n = 1 ∧ ∃ policy, (History.tables history).policyOf id = some policy ∧
      policy.isLate ⟨event.context.now, none⟩ = .ok true) := by
  obtain ⟨attempts, result, after, finished, reached⟩ := finish_attempt asked fault struck
  rcases finished.struck (sound history) found unfinished reached with ⟨rfl, same⟩ | ⟨later, fits, stored, assignments, recorded⟩
  · rw [same]
    refine ⟨by simp, by simp, fun overlooked => ?_, fun ⟨impossible, _⟩ => by cases impossible⟩
    obtain ⟨_, _, _, foundToo, finishedAt, _⟩ := overlooked
    cases found.symm.trans foundToo
    cases unfinished.symm.trans finishedAt
  have policy : (History.tables (event :: history)).policyOf id = (History.tables history).policyOf id := by
    unfold Tables.policyOf Tables.assignment?
    rw [stored, found, assignments]
    rfl
  refine ⟨⟨fun ⟨same, _⟩ => ?_, fun first => absurd first later⟩, fun _ again form asked => ?_, ?_, ?_⟩
  · have kept : (History.tables (event :: history)).submission? id = some row := by rw [Tables.submission?, same]; exact found
    have finish := congrArg Submission.finishedAt (Option.some.inj (stored.symm.trans kept))
    rw [unfinished] at finish
    cases finish
  · have refused := Service.answer_finish_again stored fits rfl again.context again.faultAfter form
    rw [answer, Service.serve, asked]
    exact congrArg Prod.fst refused
  · rintro ⟨kept, done, judge, foundToo, finishedAt, judged, late, reported⟩
    cases stored.symm.trans foundToo
    cases finishedAt
    have asked := reported event.context none
    rw [Service.answer_penalty stored fits] at asked
    obtain ⟨charged, _, same⟩ := map_eq_ok.mp (congrArg Prod.fst asked)
    have unrecorded : (History.tables (event :: history)).late? id = none := by
      have shown := (Reply.penalty.inj same).2.1
      simpa using shown
    exact ⟨recorded.mp unrecorded, judge, policy ▸ judged, late⟩
  · rintro ⟨second, judge, judged, late⟩
    have unrecorded := recorded.mpr second
    refine ⟨_, _, judge, stored, rfl, policy.trans judged, late, fun context fault => ?_⟩
    rw [Service.answer_penalty stored fits]
    simp [Evaluation.charge, unrecorded, Except.map]

namespace History

/-- An attempt that is open when its assignment is long due. -/
def openAttempt : List Event := [
  .plain 63840000000000000 .post ["assignments", "1", "submissions"] [("student_id", .int 7)],
  .plain 63830000000000000 .post ["assignments"]
    [("title", .str "Essay"), ("due_at", .str "2024-01-02T03:04:05Z")]]

/-- A finish whose second commit fails. -/
def struckFinish : Event :=
  { Event.plain 63845000000000000 .post ["submissions", "1", "finish"] [] with faultAfter := some 1 }

def laterFinish : Event := .plain 63845000100000000 .post ["submissions", "1", "finish"] []

def laterLook : Event := .plain 63845000100000000 .get ["submissions", "1", "penalty"] []

theorem finish_struck_second : Overlooked (History.tables (struckFinish :: openAttempt)) 1 := by
  have pending : ((History.tables openAttempt).submission? 1).map Submission.finishedAt = some none := by decide +kernel
  obtain ⟨row, found, unfinished⟩ := Option.map_eq_some_iff.mp pending
  have asked : struckFinish.request.call = .ok (.ok (.finish 1 ⟨none⟩)) := by decide +kernel
  have struck : answer struckFinish openAttempt = .error .commitFailed := by decide +kernel
  have policy : (History.tables openAttempt).policyOf 1 =
      some ⟨some ⟨⟨63839761445000000, by decide⟩, none⟩, true, 5, 50, true⟩ := by decide +kernel
  exact (finish_struck found unfinished asked rfl struck).2.2.mpr ⟨rfl, _, policy, rfl⟩

/-- The answer is an error, and yet the submission is finished, late, without a late record and not to be finished again. -/
theorem struck_finish_kept : answer struckFinish openAttempt = .error .commitFailed ∧
    (History.tables (struckFinish :: openAttempt)).submissions ≠ (History.tables openAttempt).submissions ∧
    ((History.tables openAttempt).policyOf 1).map (·.isLate ⟨struckFinish.context.now, none⟩) = some (.ok true) ∧
    answer laterLook (struckFinish :: openAttempt) = .ok (.penalty 1 false 0) ∧
    answer laterFinish (struckFinish :: openAttempt) = .ok (.refused .alreadyFinished) := by
  decide +kernel

end History
end Overdue
