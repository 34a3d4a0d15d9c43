import Overdue.Evaluation
import Overdue.Proofs.Course
import Overdue.Proofs.Failure
import Overdue.Proofs.Rows

/-! The courses of evaluations. An evaluation attempts one commit at most and changes one late record; a refreshed
score is one commit of one submission; a regrade is the two after each other, by the policy of the assignment. -/
namespace Overdue

open Failure Work

theorem Policy.dueAt_of_due {policy : Policy} {due : Reading} (active : policy.due? = .ok (some due)) :
    ∃ dueAt, policy.dueAt = some dueAt ∧ dueAt.utc = .ok due ∧ due ≠ epoch := by
  unfold due? at active
  split at active
  next => cases active
  next dueAt stands =>
    obtain ⟨utc, converted, notEpoch⟩ := map_eq_ok.mp active
    split at notEpoch <;> cases notEpoch
    next different => exact ⟨dueAt, stands, converted, different⟩

theorem Policy.isLate_of_none {policy : Policy} (inactive : policy.due? = .ok none) (finished : Timestamp) :
    policy.isLate finished = .ok false := by
  rw [isLate, effectiveDue, bind_of_ok inactive]
  rfl

theorem Policy.isLate_eq_true {policy : Policy} {finished : Timestamp} (late : policy.isLate finished = .ok true) :
    ∃ due dueUtc limit done, policy.dueAt = some due ∧ due.utc = .ok dueUtc ∧ dueUtc ≠ epoch ∧
      dueUtc.shift graceMicros = .ok limit ∧ finished.utc = .ok done ∧ limit.micros ≤ done.micros := by
  obtain ⟨limit, effective, late⟩ := bind_eq_ok.mp late
  obtain ⟨due, active, effective⟩ := bind_eq_ok.mp effective
  cases due with
  | none => cases effective; cases late
  | some dueUtc =>
    obtain ⟨limit, shifted, effective⟩ := bind_eq_ok.mp effective
    cases effective
    obtain ⟨done, instant, late⟩ := bind_eq_ok.mp late
    have reached : limit.micros ≤ done.micros := by simpa [Reading.le, pure, Except.pure] using late
    obtain ⟨due, dueAt, converted, different⟩ := Policy.dueAt_of_due active
    exact ⟨due, _, limit, done, dueAt, converted, different, shifted, instant, reached⟩

theorem Policy.terms_of_due {policy : Policy} {due : Timestamp} {dueUtc : Reading} (dueAt : policy.dueAt = some due)
    (converted : due.utc = .ok dueUtc) :
    policy.terms = .ok ⟨.ofUtc dueUtc, policy.applied, policy.daily, policy.cap⟩ := by
  simp [Policy.terms, dueAt, converted, Except.map]

namespace Evaluation

variable {tables : Tables} {id : Int}

/-- What an evaluation comes to, with the commits that it attempts. -/
inductive Judged (id : Int) (finished : Timestamp) (policy : Policy) (tables : Tables) :
    List Tables → Except Failure Action → Tables → Prop
  | wide (wide : fitsWord id = false) : Judged id finished policy tables [] (.error .cellTooWide) tables
  | undecided {failure : Failure} (undecided : policy.isLate finished = .error failure) :
    Judged id finished policy tables [] (.error failure) tables
  | noop (onTime : policy.isLate finished = .ok false) (absent : tables.late? id = none) :
    Judged id finished policy tables [] (.ok .noop) tables
  | delete {record : LateRecord} (onTime : policy.isLate finished = .ok false) (present : tables.late? id = some record) :
    Judged id finished policy tables [tables] (.ok .delete) (tables.dropLate id)
  | create {done : Reading} {terms : Terms} {after : Tables} (late : policy.isLate finished = .ok true)
    (absent : tables.late? id = none) (instant : finished.utc = .ok done) (frozen : policy.terms = .ok terms)
    (saved : tables.putLate ⟨id, .ofUtc done, terms⟩ = .ok after) :
    Judged id finished policy tables [tables] (.ok .create) after
  | update {record : LateRecord} {terms : Terms} {after : Tables} (late : policy.isLate finished = .ok true)
    (present : tables.late? id = some record) (frozen : policy.terms = .ok terms)
    (saved : tables.putLate { record with terms } = .ok after) :
    Judged id finished policy tables [tables] (.ok .update) after
  | unsaved (row : LateRecord) {failure : Failure} (late : policy.isLate finished = .ok true) (own : row.submission = id)
    (frozen : policy.terms = .ok row.terms) (refused : tables.putLate row = .error failure) :
    Judged id finished policy tables [tables] (.error failure) tables

theorem evaluate_yields (id : Int) (finished : Timestamp) (policy : Policy) (tables : Tables) :
    Yields (evaluate id finished policy) tables (Judged id finished policy tables) := by
  refine yields_read (runs_late? id tables) (fun failure failed => ?_) fun record read => ?_
  · obtain ⟨wide, rfl⟩ := within_eq_error.mp failed
    exact .wide wide
  obtain ⟨_, rfl⟩ := within_eq_ok.mp read
  refine yields_read (runs_lift _ _) (fun failure failed => .undecided failed) fun late decided => ?_
  cases late with
  | false =>
    cases present : tables.late? id with
    | none => exact yields_pure (.noop decided present)
    | some record =>
      refine yields_save (fun failure refused => ?_) fun after saved => ?_
      · cases refused
      · cases saved
        exact yields_pure (.delete decided present)
  | true =>
    obtain ⟨due, dueUtc, _, done, dueAt, converted, _, _, instant, _⟩ := Policy.isLate_eq_true decided
    have frozen := Policy.terms_of_due dueAt converted
    refine yields_read (runs_lift _ _) (fun failure failed => ?_) fun terms held => ?_
    · rw [frozen] at failed
      cases failed
    cases present : tables.late? id with
    | none =>
      refine yields_read (runs_lift _ _) (fun failure failed => ?_) fun utc converted => ?_
      · rw [instant] at failed
        cases failed
      exact yields_save (fun failure refused => .unsaved _ decided rfl held refused)
        fun after saved => yields_pure (.create decided present converted held saved)
    | some record =>
      have own : record.submission = id := Table.find?_key present
      exact yields_save (fun failure refused => .unsaved { record with terms } decided own held refused)
        fun after saved => yields_pure (.update decided present held saved)

theorem Judged.assignments {finished : Timestamp} {policy : Policy} {attempts : List Tables}
    {result : Except Failure Action} {after : Tables} (judged : Judged id finished policy tables attempts result after) :
    after.assignments = tables.assignments := by
  cases judged with
  | create late absent instant frozen saved => rw [(Tables.putLate_eq_ok.mp saved).2]
  | update late present frozen saved => rw [(Tables.putLate_eq_ok.mp saved).2]
  | _ => rfl

theorem Judged.submissions {finished : Timestamp} {policy : Policy} {attempts : List Tables}
    {result : Except Failure Action} {after : Tables} (judged : Judged id finished policy tables attempts result after) :
    after.submissions = tables.submissions := by
  cases judged with
  | create late absent instant frozen saved => rw [(Tables.putLate_eq_ok.mp saved).2]
  | update late present frozen saved => rw [(Tables.putLate_eq_ok.mp saved).2]
  | _ => rfl

theorem Judged.attempts_eq {finished : Timestamp} {policy : Policy} {attempts : List Tables}
    {result : Except Failure Action} {after : Tables} (judged : Judged id finished policy tables attempts result after) :
    attempts = [] ∨ attempts = [tables] := by
  cases judged with
  | wide | undecided | noop => exact .inl rfl
  | delete | create | update | unsaved => exact .inr rfl

def charge (id : Int) (calendar : Calendar) (tables : Tables) : Except Failure Int :=
  match tables.late? id with
  | none => .ok 0
  | some record => Penalty.percentage record.terms record.finishedAt calendar

theorem runs_penalty (fits : fitsWord id = true) (calendar : Calendar) (tables : Tables) :
    Runs (penalty id calendar) tables [] (charge id calendar tables) tables := by
  have read : Runs (late? id) tables [] (.ok (tables.late? id)) tables := by
    simpa [within, fits] using runs_late? id tables
  unfold charge
  refine runs_bind read ?_
  cases tables.late? id with
  | none => exact runs_pure _ _
  | some record => exact runs_lift _ _

theorem charge_only (id : Int) (calendar : Calendar) (tables : Tables) : Only .outOfRange (charge id calendar tables) := by
  unfold charge
  split
  · exact only_ok _
  · exact Penalty.percentage_only _ _ _

theorem adjusted_only (row : Submission) (penalty : Int) : Only .quotientTooLarge (adjusted row penalty) := by
  unfold adjusted
  split
  · exact only_ok _
  · exact only_map (Score.adjust_only _ _)

inductive Rescored (row : Submission) (calendar : Calendar) (tables : Tables) :
    List Tables → Except Failure Int → Tables → Prop
  | uncharged {failure : Failure} (failed : charge row.id calendar tables = .error failure) :
    Rescored row calendar tables [] (.error failure) tables
  | unscored {penalty : Int} {failure : Failure} (charged : charge row.id calendar tables = .ok penalty)
    (failed : adjusted row penalty = .error failure) : Rescored row calendar tables [] (.error failure) tables
  | unsaved {penalty : Int} {score : Option Double} {failure : Failure} (charged : charge row.id calendar tables = .ok penalty)
    (scored : adjusted row penalty = .ok score)
    (refused : tables.putSubmission { row with penalty, score } = .error failure) :
    Rescored row calendar tables [tables] (.error failure) tables
  | saved {penalty : Int} {score : Option Double} {after : Tables} (charged : charge row.id calendar tables = .ok penalty)
    (scored : adjusted row penalty = .ok score) (saved : tables.putSubmission { row with penalty, score } = .ok after) :
    Rescored row calendar tables [tables] (.ok penalty) after

theorem Rescored.attempts_eq {row : Submission} {calendar : Calendar} {attempts : List Tables} {result : Except Failure Int}
    {after : Tables} (rescored : Rescored row calendar tables attempts result after) :
    attempts = [] ∨ attempts = [tables] := by
  cases rescored with
  | uncharged | unscored => exact .inl rfl
  | unsaved | saved => exact .inr rfl

theorem recompute_yields {row : Submission} (found : tables.submission? id = some row) (fits : fitsWord id = true)
    (calendar : Calendar) : Yields (recompute id calendar) tables (Rescored row calendar tables) := by
  obtain rfl : row.id = id := Table.find?_key found
  have read : Runs (submission? row.id) tables [] (.ok (some row)) tables := by
    simpa [within, fits, found] using runs_submission? row.id tables
  refine yields_read read (fun _ failed => by cases failed) fun _ same => ?_
  cases same
  refine yields_read (runs_penalty fits calendar tables) (fun _ failed => .uncharged failed) fun penalty charged => ?_
  refine yields_read (runs_lift _ _) (fun _ failed => .unscored charged failed) fun score scored => ?_
  exact yields_save (fun _ refused => .unsaved charged scored refused) fun after saved =>
    yields_pure (.saved charged scored saved)

/-- What a regrade comes to: nothing is attempted unless a finished submission and its assignment are read. -/
inductive Regraded (id : Int) (calendar : Calendar) (tables : Tables) :
    List Tables → Except Failure Int → Tables → Prop
  | wide (wide : fitsWord id = false ∨ ∃ row, tables.submission? id = some row ∧ fitsWord row.assignment = false) :
    Regraded id calendar tables [] (.error .cellTooWide) tables
  | missing (absent : tables.submission? id = none) :
    Regraded id calendar tables [] (.error (.absent "finished_at")) tables
  | unfinished {row : Submission} (found : tables.submission? id = some row) (unfinished : row.finishedAt = none) :
    Regraded id calendar tables [] (.error (.notFinished id)) tables
  | unplaced {row : Submission} (found : tables.submission? id = some row)
    (absent : tables.assignment? row.assignment = none) :
    Regraded id calendar tables [] (.error (.absent "due_at")) tables
  | unjudged {row : Submission} {finished : Timestamp} {assignment : Assignment} {attempts : List Tables}
    {failure : Failure} {after : Tables} (found : tables.submission? id = some row)
    (finishedAt : row.finishedAt = some finished) (placed : tables.assignment? row.assignment = some assignment)
    (judged : Judged id finished assignment.policy tables attempts (.error failure) after) :
    Regraded id calendar tables attempts (.error failure) after
  | rescored {row : Submission} {finished : Timestamp} {assignment : Assignment} {attempts more : List Tables}
    {action : Action} {middle after : Tables} {result : Except Failure Int} (found : tables.submission? id = some row)
    (finishedAt : row.finishedAt = some finished) (placed : tables.assignment? row.assignment = some assignment)
    (judged : Judged id finished assignment.policy tables attempts (.ok action) middle)
    (rescored : Rescored row calendar middle more result after) :
    Regraded id calendar tables (attempts ++ more) result after

theorem regrade_yields (id : Int) (calendar : Calendar) (tables : Tables) :
    Yields (regrade id calendar) tables (Regraded id calendar tables) := by
  refine yields_read (runs_submission? id tables) (fun _ failed => ?_) fun row read => ?_
  · obtain ⟨wide, rfl⟩ := within_eq_error.mp failed
    exact .wide (.inl wide)
  obtain ⟨fits, rfl⟩ := within_eq_ok.mp read
  cases found : tables.submission? id with
  | none => exact yields_throw (.missing found)
  | some row =>
    cases finishedAt : row.finishedAt with
    | none => simpa [finishedAt] using yields_throw (Regraded.unfinished found finishedAt)
    | some finished =>
      simp only [finishedAt]
      refine yields_read (runs_assignment? row.assignment tables) (fun _ failed => ?_) fun assignment read => ?_
      · obtain ⟨wide, rfl⟩ := within_eq_error.mp failed
        exact .wide (.inr ⟨row, found, wide⟩)
      obtain ⟨_, rfl⟩ := within_eq_ok.mp read
      cases placed : tables.assignment? row.assignment with
      | none => exact yields_throw (.unplaced found placed)
      | some assignment =>
        refine yields_bind (evaluate_yields id finished assignment.policy tables)
          (fun _ _ _ judged => .unjudged found finishedAt placed judged) fun attempts action middle judged => ?_
        have still : middle.submission? id = some row := by
          unfold Tables.submission?
          rw [judged.submissions]
          exact found
        obtain ⟨more, result, after, runs, rescored⟩ := recompute_yields still fits calendar
        exact ⟨more, result, after, runs, .rescored found finishedAt placed judged rescored⟩

theorem Regraded.of_ok {calendar : Calendar} {attempts : List Tables} {penalty : Int} {after : Tables}
    (regraded : Regraded id calendar tables attempts (.ok penalty) after) :
    ∃ row finished assignment judging action middle score, tables.submission? id = some row ∧
      row.finishedAt = some finished ∧ tables.assignment? row.assignment = some assignment ∧
      Judged id finished assignment.policy tables judging (.ok action) middle ∧ charge id calendar middle = .ok penalty ∧
      adjusted row penalty = .ok score ∧ middle.putSubmission { row with penalty, score } = .ok after := by
  cases regraded with
  | rescored found finishedAt placed judged rescored =>
    obtain rfl := Table.find?_key found
    cases rescored with
    | saved charged scored saved => exact ⟨_, _, _, _, _, _, _, found, finishedAt, placed, judged, charged, scored, saved⟩

/-- What regrades one after another come to; the first that fails is the last. -/
inductive Reviewed (calendar : Calendar) : List Int → Tables → List Tables → Except Failure Unit → Tables → Prop
  | nil (tables : Tables) : Reviewed calendar [] tables [] (.ok ()) tables
  | failed {id : Int} {others : List Int} {tables after : Tables} {attempts : List Tables} {failure : Failure}
    (regraded : Regraded id calendar tables attempts (.error failure) after) :
    Reviewed calendar (id :: others) tables attempts (.error failure) after
  | cons {id : Int} {others : List Int} {tables middle after : Tables} {attempts more : List Tables} {penalty : Int}
    {result : Except Failure Unit} (regraded : Regraded id calendar tables attempts (.ok penalty) middle)
    (rest : Reviewed calendar others middle more result after) :
    Reviewed calendar (id :: others) tables (attempts ++ more) result after

theorem review_yields (calendar : Calendar) (rows : List Submission) (tables : Tables) :
    Yields (rows.forM fun row => discard (regrade row.id calendar)) tables
      (Reviewed calendar (rows.map Submission.id) tables) := by
  induction rows generalizing tables with
  | nil => exact yields_pure (.nil tables)
  | cons row others ih =>
    obtain ⟨attempts, regraded, middle, runs, course⟩ := regrade_yields row.id calendar tables
    cases regraded with
    | error failure => exact ⟨_, _, _, runs_bind_error (runs_discard runs), .failed course⟩
    | ok penalty =>
      obtain ⟨more, result, after, rest, reviewed⟩ := ih middle
      exact ⟨_, _, _, runs_bind (runs_discard runs) rest, .cons course reviewed⟩

/-- What a regrade of all finished submissions of an assignment comes to. -/
inductive Swept (assignment : Int) (calendar : Calendar) (tables : Tables) :
    List Tables → Except Failure Nat → Tables → Prop
  | wide (wide : fitsWord assignment = false) : Swept assignment calendar tables [] (.error .cellTooWide) tables
  | missing (absent : tables.assignment? assignment = none) :
    Swept assignment calendar tables [] (.error (.absent "id")) tables
  | reviewed {row : Assignment} {result : Except Failure Unit} {attempts : List Tables} {after : Tables}
    (fits : fitsWord assignment = true) (found : tables.assignment? assignment = some row)
    (reviewed : Reviewed calendar ((finishedOf assignment tables).map Submission.id) tables attempts result after) :
    Swept assignment calendar tables attempts (result.map fun _ => (finishedOf assignment tables).length) after

theorem regradeAll_yields (assignment : Int) (calendar : Calendar) (tables : Tables) :
    Yields (regradeAll assignment calendar) tables (Swept assignment calendar tables) := by
  refine yields_read (runs_assignment? assignment tables) (fun _ failed => ?_) fun row read => ?_
  · obtain ⟨wide, rfl⟩ := within_eq_error.mp failed
    exact .wide wide
  obtain ⟨fits, rfl⟩ := within_eq_ok.mp read
  cases found : tables.assignment? assignment with
  | none => exact yields_throw (.missing found)
  | some row =>
    refine yields_read (runs_stored tables) (fun _ failed => by cases failed) fun _ same => ?_
    cases same
    obtain ⟨attempts, result, after, runs, reviewed⟩ := review_yields calendar (finishedOf assignment tables) tables
    cases result with
    | error failure => exact ⟨_, _, _, runs_bind_error runs, .reviewed fits found reviewed⟩
    | ok done =>
      refine ⟨_, _, _, runs_bind runs (runs_pure _ _), ?_⟩
      rw [List.append_nil]
      exact .reviewed fits found reviewed

end Evaluation
end Overdue
