import Overdue.Proofs.Evaluation
import Overdue.Service

/-! The courses of calls. A call reads and checks, and what it then writes is one commit, except that a finish and the
regrades go on to evaluate; a refusal attempts no commit at all. -/
namespace Overdue

open Failure Work

theorem Tables.putAssignment_found {tables after : Tables} {row : Assignment} (saved : tables.putAssignment row = .ok after) :
    ∃ kept, row.stored? = some kept ∧ fitsWord row.id = true ∧ after.assignment? row.id = some kept := by
  obtain ⟨fits, kept, keeps, rfl⟩ := putAssignment_eq_ok.mp saved
  have same : kept.id = row.id := by
    obtain ⟨_, _, rfl⟩ := Assignment.stored?_eq_some.mp keeps
    rfl
  have found : Table.find? Assignment.id row.id (Table.put Assignment.id kept tables.assignments) = some kept := by
    rw [← same]
    exact Table.find?_put_self Assignment.id kept tables.assignments
  exact ⟨kept, keeps, (Bool.and_eq_true_iff.mp fits).1, found⟩

theorem Tables.putSubmission_found {tables after : Tables} {row : Submission} (saved : tables.putSubmission row = .ok after) :
    fitsWord row.id = true ∧ after.submission? row.id = some row.stored := by
  obtain ⟨fits, _, rfl⟩ := putSubmission_eq_ok.mp saved
  refine ⟨?_, Table.find?_put_self Submission.id row.stored _⟩
  simp only [Submission.fits, Bool.and_eq_true] at fits
  exact fits.1.1.1.1

namespace Service

variable {context : Context} {tables : Tables} {id : Int}

def shown (tables : Tables) (row : Submission) : SubmissionView := ⟨row, (tables.late? row.id).isSome⟩

theorem runs_isLate (id : Int) (tables : Tables) :
    Runs (Evaluation.isLate id) tables [] (within id (tables.late? id).isSome) tables := by
  have read := runs_late? id tables
  unfold within at read ⊢
  split at read
  next fits => rw [if_pos fits]; exact runs_bind read (runs_pure _ _)
  next wide => rw [if_neg wide]; exact runs_bind_error read

theorem runs_viewSubmission (row : Submission) (tables : Tables) :
    Runs (viewSubmission row) tables [] (within row.id (shown tables row)) tables := by
  have read := runs_isLate row.id tables
  unfold within at read ⊢
  split at read
  next fits => rw [if_pos fits]; exact runs_bind read (runs_pure _ _)
  next wide => rw [if_neg wide]; exact runs_bind_error read

theorem runs_showSubmission {row : Submission} (found : tables.submission? id = some row) (fits : fitsWord id = true) :
    Runs (showSubmission id) tables [] (.ok (shown tables row)) tables := by
  obtain rfl : row.id = id := Table.find?_key found
  have read : Runs (submission? row.id) tables [] (.ok (some row)) tables := by
    simpa [within, fits, found] using runs_submission? row.id tables
  have view : Runs (viewSubmission row) tables [] (.ok (shown tables row)) tables := by
    simpa [within, fits] using runs_viewSubmission row tables
  exact runs_bind read view

theorem runs_showAssignment {row : Assignment} (found : tables.assignment? id = some row) (fits : fitsWord id = true) :
    Runs (showAssignment context id) tables [] (viewAssignment context row) tables := by
  have read : Runs (assignment? id) tables [] (.ok (some row)) tables := by
    simpa [within, fits, found] using runs_assignment? id tables
  exact runs_bind read (runs_lift _ _)

def numbered (row : Assignment) (tables : Tables) : Assignment :=
  { row with id := Table.nextKey Assignment.id tables.assignments }

theorem inUtc?_stored {due kept : Option Timestamp} (converted : inUtc? due = .ok kept) :
    (kept.map Timestamp.stored).map Timestamp.utc = due.map Timestamp.utc := by
  cases due with
  | none => cases converted; rfl
  | some due =>
    obtain ⟨instant, moved, same⟩ := map_eq_ok.mp converted
    obtain ⟨utc, read, rfl⟩ := map_eq_ok.mp moved
    rw [← same]
    exact congrArg some read.symm

theorem newAssignment_columns {form : AssignmentForm} {row : Assignment} (newly : newAssignment form = .ok row) :
    inUtc? form.openAt = .ok row.openAt ∧ inUtc? form.closeAt = .ok row.closeAt ∧
      inUtc? form.policy.dueAt = .ok row.policy.dueAt ∧ row.maxScore = form.maxScore ∧
      row.policy.daily = form.policy.daily ∧ row.policy.cap = form.policy.cap := by
  obtain ⟨opens, converted, rest⟩ := bind_eq_ok.mp newly
  obtain ⟨closes, convertedToo, rest⟩ := bind_eq_ok.mp rest
  obtain ⟨dues, dueConverted, rest⟩ := bind_eq_ok.mp rest
  cases rest
  exact ⟨converted, convertedToo, dueConverted, rfl, rfl, rfl⟩

def dueAfter (policy : Policy) (change : PolicyChange) : Except Failure (Option Timestamp) :=
  match change.dueAt with
  | some due => inUtc? due
  | none => .ok policy.dueAt

theorem changed_eq_ok {policy after : Policy} {change : PolicyChange} : changed policy change = .ok after ↔
    dueAfter policy change = .ok after.dueAt ∧ after.applied = change.applied.getD policy.applied ∧
      after.daily = change.daily.getD policy.daily ∧ after.cap = change.cap.getD policy.cap ∧
      after.preventResubmission = change.preventResubmission.getD policy.preventResubmission := by
  have whole : changed policy change = dueAfter policy change >>= fun dueAt => .ok ⟨dueAt, change.applied.getD policy.applied,
      change.daily.getD policy.daily, change.cap.getD policy.cap,
      change.preventResubmission.getD policy.preventResubmission⟩ := by
    unfold changed dueAfter
    cases change.dueAt <;> rfl
  rw [whole, bind_eq_ok]
  constructor
  · rintro ⟨due, converted, same⟩
    cases same
    exact ⟨converted, rfl, rfl, rfl, rfl⟩
  · rintro ⟨converted, applied, daily, cap, prevent⟩
    refine ⟨after.dueAt, converted, ?_⟩
    rw [← applied, ← daily, ← cap, ← prevent]

inductive Created (context : Context) (form : AssignmentForm) (tables : Tables) :
    List Tables → Except Failure Reply → Tables → Prop
  | unread {failure : Failure} (failed : newAssignment form = .error failure) :
    Created context form tables [] (.error failure) tables
  | unsaved {row : Assignment} {failure : Failure} (made : newAssignment form = .ok row)
    (refused : tables.putAssignment (numbered row tables) = .error failure) :
    Created context form tables [tables] (.error failure) tables
  | saved {row kept : Assignment} {after : Tables} (made : newAssignment form = .ok row)
    (saved : tables.putAssignment (numbered row tables) = .ok after) (keeps : (numbered row tables).stored? = some kept) :
    Created context form tables [tables] ((viewAssignment context kept).map .created) after

theorem create_yields (context : Context) (form : AssignmentForm) (tables : Tables) :
    Yields (create context form) tables (Created context form tables) := by
  refine yields_read (runs_lift _ _) (fun _ failed => .unread failed) fun row made => ?_
  unfold insertAssignment
  simp only [bind_assoc, pure_bind]
  refine yields_read (runs_stored tables) (fun _ failed => by cases failed) fun _ same => ?_
  cases same
  refine yields_save (fun _ refused => .unsaved made refused) fun after saved => ?_
  obtain ⟨kept, keeps, fits, found⟩ := Tables.putAssignment_found saved
  exact yields_last (runs_showAssignment found fits) (.saved made saved keeps)

inductive Changed (context : Context) (id : Int) (change : PolicyChange) (tables : Tables) :
    List Tables → Except Failure Reply → Tables → Prop
  | wide (wide : fitsWord id = false) : Changed context id change tables [] (.error .cellTooWide) tables
  | missing (absent : tables.assignment? id = none) : Changed context id change tables [] (.ok (.refused .noAssignment)) tables
  | undecided {row : Assignment} {failure : Failure} (found : tables.assignment? id = some row)
    (failed : outside? row change.dueAt = .error failure) : Changed context id change tables [] (.error failure) tables
  | outside {row : Assignment} {error : WindowError} (found : tables.assignment? id = some row)
    (outside : outside? row change.dueAt = .ok (some error)) :
    Changed context id change tables [] (.ok (.refused (.dueOutside error))) tables
  | unread {row : Assignment} {failure : Failure} (found : tables.assignment? id = some row)
    (inside : outside? row change.dueAt = .ok none) (failed : changed row.policy change = .error failure) :
    Changed context id change tables [] (.error failure) tables
  | unsaved {row : Assignment} {policy : Policy} {failure : Failure} (found : tables.assignment? id = some row)
    (inside : outside? row change.dueAt = .ok none) (made : changed row.policy change = .ok policy)
    (refused : tables.putAssignment { row with policy } = .error failure) :
    Changed context id change tables [tables] (.error failure) tables
  | saved {row kept : Assignment} {policy : Policy} {after : Tables} (found : tables.assignment? id = some row)
    (inside : outside? row change.dueAt = .ok none) (made : changed row.policy change = .ok policy)
    (saved : tables.putAssignment { row with policy } = .ok after)
    (keeps : ({ row with policy } : Assignment).stored? = some kept) :
    Changed context id change tables [tables] ((viewAssignment context kept).map .assignment) after

theorem changePolicy_yields (context : Context) (id : Int) (change : PolicyChange) (tables : Tables) :
    Yields (changePolicy context id change) tables (Changed context id change tables) := by
  refine yields_read (runs_assignment? id tables) (fun _ failed => ?_) fun row read => ?_
  · obtain ⟨wide, rfl⟩ := within_eq_error.mp failed
    exact .wide wide
  obtain ⟨fits, rfl⟩ := within_eq_ok.mp read
  cases found : tables.assignment? id with
  | none => exact yields_pure (.missing found)
  | some row =>
    refine yields_read (runs_lift _ _) (fun _ failed => .undecided found failed) fun error decided => ?_
    cases error with
    | some error => exact yields_pure (.outside found decided)
    | none =>
      refine yields_read (runs_lift _ _) (fun _ failed => .unread found decided failed) fun policy made => ?_
      refine yields_save (fun _ refused => .unsaved found decided made refused) fun after saved => ?_
      obtain ⟨kept, keeps, _, stored⟩ := Tables.putAssignment_found saved
      have same : row.id = id := Table.find?_key found
      simp only [same] at stored
      exact yields_last (runs_showAssignment stored fits) (.saved found decided made saved keeps)

/-- A start that is not refused: the assignment takes attempts of the student. -/
def Admitted (context : Context) (id : Int) (form : StartForm) (tables : Tables) : Prop :=
  ∃ row barrier, tables.assignment? id = some row ∧ isClosed row context.now = .ok false ∧
    barrier? row.policy context.now = .ok barrier ∧
    submittedBefore barrier (attemptsOf id form.student tables) = .ok false

def opened (context : Context) (id : Int) (form : StartForm) (tables : Tables) : Submission :=
  { newSubmission id form.student (nextAttempt (attemptsOf id form.student tables)) context.now with
    id := Table.nextKey Submission.id tables.submissions }

/-- What a start comes to: an attempt that is open is shown again, and a row is added only where none is. -/
inductive Started (context : Context) (id : Int) (form : StartForm) (tables : Tables) :
    List Tables → Except Failure Reply → Tables → Prop
  | wide (wide : fitsWord id = false ∨ ∃ row, tables.assignment? id = some row ∧ isClosed row context.now = .ok false ∧
      fitsWord form.student = false) : Started context id form tables [] (.error .cellTooWide) tables
  | missing (absent : tables.assignment? id = none) : Started context id form tables [] (.ok (.refused .noAssignment)) tables
  | undecided {row : Assignment} {failure : Failure} (found : tables.assignment? id = some row)
    (failed : isClosed row context.now = .error failure ∨ isClosed row context.now = .ok false ∧
      (barrier? row.policy context.now = .error failure ∨ ∃ barrier, barrier? row.policy context.now = .ok barrier ∧
        submittedBefore barrier (attemptsOf id form.student tables) = .error failure)) :
    Started context id form tables [] (.error failure) tables
  | closed {row : Assignment} (found : tables.assignment? id = some row) (closed : isClosed row context.now = .ok true) :
    Started context id form tables [] (.ok (.refused .closed)) tables
  | barred {row : Assignment} {barrier : Option Reading} (found : tables.assignment? id = some row)
    (unclosed : isClosed row context.now = .ok false) (limit : barrier? row.policy context.now = .ok barrier)
    (submitted : submittedBefore barrier (attemptsOf id form.student tables) = .ok true) :
    Started context id form tables [] (.ok (.refused .submittedBefore)) tables
  | reopened {attempt : Submission} (admitted : Admitted context id form tables)
    (unfinished : unfinished? (attemptsOf id form.student tables) = some attempt) :
    Started context id form tables [] ((within attempt.id (shown tables attempt)).map .started) tables
  | unsaved {failure : Failure} (admitted : Admitted context id form tables)
    (allFinished : unfinished? (attemptsOf id form.student tables) = none)
    (refused : tables.putSubmission (opened context id form tables) = .error failure) :
    Started context id form tables [tables] (.error failure) tables
  | saved {after : Tables} (admitted : Admitted context id form tables)
    (allFinished : unfinished? (attemptsOf id form.student tables) = none)
    (saved : tables.putSubmission (opened context id form tables) = .ok after) :
    Started context id form tables [tables] (.ok (.started (shown after (opened context id form tables).stored))) after

theorem start_yields (context : Context) (id : Int) (form : StartForm) (tables : Tables) :
    Yields (start context id form) tables (Started context id form tables) := by
  refine yields_read (runs_assignment? id tables) (fun _ failed => ?_) fun row read => ?_
  · obtain ⟨wide, rfl⟩ := within_eq_error.mp failed
    exact .wide (.inl wide)
  obtain ⟨fits, rfl⟩ := within_eq_ok.mp read
  cases found : tables.assignment? id with
  | none => exact yields_pure (.missing found)
  | some row =>
    refine yields_read (runs_lift _ _) (fun _ failed => .undecided found (.inl failed)) fun closed unclosed => ?_
    cases closed with
    | true => exact yields_pure (.closed found unclosed)
    | false =>
      refine yields_read (runs_lift _ _) (fun _ failed => .undecided found (.inr ⟨unclosed, .inl failed⟩)) fun barrier limit => ?_
      refine yields_read (runs_require form.student tables) (fun _ failed => ?_) fun _ _ => ?_
      · obtain ⟨wide, rfl⟩ := within_eq_error.mp failed
        exact .wide (.inr ⟨row, found, unclosed, wide⟩)
      refine yields_read (runs_stored tables) (fun _ failed => by cases failed) fun _ same => ?_
      cases same
      refine yields_read (runs_lift _ _) (fun _ failed => ?_) fun submitted decided => ?_
      · exact .undecided found (.inr ⟨unclosed, .inr ⟨barrier, limit, failed⟩⟩)
      cases submitted with
      | true => exact yields_pure (.barred found unclosed limit decided)
      | false =>
        have admitted : Admitted context id form tables := ⟨row, barrier, found, unclosed, limit, decided⟩
        cases none : unfinished? (attemptsOf id form.student tables) with
        | some attempt => simpa [none] using yields_last (runs_viewSubmission attempt tables) (.reopened admitted none)
        | none =>
          unfold insertSubmission
          simp only [bind_assoc, pure_bind]
          refine yields_read (runs_stored tables) (fun _ failed => by cases failed) fun _ same => ?_
          cases same
          refine yields_save (fun _ refused => .unsaved admitted none refused) fun after saved => ?_
          obtain ⟨fits, stored⟩ := Tables.putSubmission_found saved
          exact yields_last (runs_showSubmission stored fits) (.saved admitted none saved)

theorem regraded_found {attempts : List Tables} {penalty : Int} {after : Tables}
    (regraded : Evaluation.Regraded id context.calendar tables attempts (.ok penalty) after) :
    ∃ kept, fitsWord id = true ∧ after.submission? id = some kept := by
  obtain ⟨row, _, _, _, _, _, score, found, _, _, _, _, _, saved⟩ := regraded.of_ok
  have same : row.id = id := Table.find?_key found
  obtain ⟨fits, stored⟩ := Tables.putSubmission_found saved
  simp only [same] at fits stored
  exact ⟨_, fits, stored⟩

def handedIn (context : Context) (form : FinishForm) (row : Submission) : Submission :=
  { row with content := form.content, finishedAt := some (.ofUtc context.now) }

/-- What a finish comes to: the finish time is one commit, and the regrade after it attempts others. -/
inductive Finished (context : Context) (id : Int) (form : FinishForm) (tables : Tables) :
    List Tables → Except Failure Reply → Tables → Prop
  | wide (wide : fitsWord id = false) : Finished context id form tables [] (.error .cellTooWide) tables
  | missing (absent : tables.submission? id = none) : Finished context id form tables [] (.ok (.refused .noSubmission)) tables
  | already {row : Submission} (found : tables.submission? id = some row) (finished : row.isFinished = true) :
    Finished context id form tables [] (.ok (.refused .alreadyFinished)) tables
  | unsaved {row : Submission} {failure : Failure} (found : tables.submission? id = some row)
    (unfinished : row.isFinished = false) (refused : tables.putSubmission (handedIn context form row) = .error failure) :
    Finished context id form tables [tables] (.error failure) tables
  | failed {row : Submission} {failure : Failure} {middle after : Tables} {attempts : List Tables}
    (found : tables.submission? id = some row) (unfinished : row.isFinished = false)
    (saved : tables.putSubmission (handedIn context form row) = .ok middle)
    (regraded : Evaluation.Regraded id context.calendar middle attempts (.error failure) after) :
    Finished context id form tables (tables :: attempts) (.error failure) after
  | answered {row kept : Submission} {penalty : Int} {middle after : Tables} {attempts : List Tables}
    (found : tables.submission? id = some row) (unfinished : row.isFinished = false)
    (saved : tables.putSubmission (handedIn context form row) = .ok middle)
    (regraded : Evaluation.Regraded id context.calendar middle attempts (.ok penalty) after)
    (stored : after.submission? id = some kept) :
    Finished context id form tables (tables :: attempts) (.ok (.submission (shown after kept))) after

theorem finish_yields (context : Context) (id : Int) (form : FinishForm) (tables : Tables) :
    Yields (finish context id form) tables (Finished context id form tables) := by
  refine yields_read (runs_submission? id tables) (fun _ failed => ?_) fun row read => ?_
  · obtain ⟨wide, rfl⟩ := within_eq_error.mp failed
    exact .wide wide
  obtain ⟨fits, rfl⟩ := within_eq_ok.mp read
  cases found : tables.submission? id with
  | none => exact yields_pure (.missing found)
  | some row =>
    cases unfinished : row.isFinished with
    | true => simpa [unfinished] using yields_pure (Finished.already found unfinished)
    | false =>
      simp only [unfinished, Bool.false_eq_true, if_false]
      refine yields_save (fun _ refused => .unsaved found unfinished refused) fun middle saved => ?_
      refine yields_bind (Evaluation.regrade_yields id context.calendar middle)
        (fun _ _ _ regraded => .failed found unfinished saved regraded) fun attempts penalty after regraded => ?_
      obtain ⟨kept, _, stored⟩ := regraded_found regraded
      refine yields_last (runs_showSubmission stored fits) ?_
      rw [List.append_nil]
      exact .answered found unfinished saved regraded stored

inductive Refreshed (context : Context) (id : Int) (tables : Tables) : List Tables → Except Failure Reply → Tables → Prop
  | wide (wide : fitsWord id = false) : Refreshed context id tables [] (.error .cellTooWide) tables
  | missing (absent : tables.submission? id = none) : Refreshed context id tables [] (.ok (.refused .noSubmission)) tables
  | unfinished {row : Submission} (found : tables.submission? id = some row) (unfinished : row.isFinished = false) :
    Refreshed context id tables [] (.ok (.refused .unfinished)) tables
  | failed {row : Submission} {failure : Failure} {after : Tables} {attempts : List Tables}
    (found : tables.submission? id = some row) (finished : row.isFinished = true)
    (regraded : Evaluation.Regraded id context.calendar tables attempts (.error failure) after) :
    Refreshed context id tables attempts (.error failure) after
  | answered {row kept : Submission} {penalty : Int} {after : Tables} {attempts : List Tables}
    (found : tables.submission? id = some row) (finished : row.isFinished = true)
    (regraded : Evaluation.Regraded id context.calendar tables attempts (.ok penalty) after)
    (stored : after.submission? id = some kept) :
    Refreshed context id tables attempts (.ok (.submission (shown after kept))) after

theorem regrade_yields (context : Context) (id : Int) (tables : Tables) :
    Yields (regrade context id) tables (Refreshed context id tables) := by
  refine yields_read (runs_submission? id tables) (fun _ failed => ?_) fun row read => ?_
  · obtain ⟨wide, rfl⟩ := within_eq_error.mp failed
    exact .wide wide
  obtain ⟨fits, rfl⟩ := within_eq_ok.mp read
  cases found : tables.submission? id with
  | none => exact yields_pure (.missing found)
  | some row =>
    cases finished : row.isFinished with
    | false => simpa [finished] using yields_pure (Refreshed.unfinished found finished)
    | true =>
      simp only [finished, Bool.not_true, Bool.false_eq_true, if_false]
      refine yields_bind (Evaluation.regrade_yields id context.calendar tables)
        (fun _ _ _ regraded => .failed found finished regraded) fun attempts penalty after regraded => ?_
      obtain ⟨kept, _, stored⟩ := regraded_found regraded
      refine yields_last (runs_showSubmission stored fits) ?_
      rw [List.append_nil]
      exact .answered found finished regraded stored

inductive Swept (context : Context) (id : Int) (tables : Tables) : List Tables → Except Failure Reply → Tables → Prop
  | wide (wide : fitsWord id = false) : Swept context id tables [] (.error .cellTooWide) tables
  | missing (absent : tables.assignment? id = none) : Swept context id tables [] (.ok (.refused .noAssignment)) tables
  | reviewed {row : Assignment} {result : Except Failure Unit} {after : Tables} {attempts : List Tables}
    (found : tables.assignment? id = some row)
    (reviewed : Evaluation.Reviewed context.calendar ((Evaluation.finishedOf id tables).map Submission.id) tables attempts
      result after) :
    Swept context id tables attempts (result.map fun _ => .regraded id (Evaluation.finishedOf id tables).length) after

theorem regradeAll_yields (context : Context) (id : Int) (tables : Tables) :
    Yields (regradeAll context id) tables (Swept context id tables) := by
  refine yields_read (runs_assignment? id tables) (fun _ failed => ?_) fun row read => ?_
  · obtain ⟨wide, rfl⟩ := within_eq_error.mp failed
    exact .wide wide
  obtain ⟨fits, rfl⟩ := within_eq_ok.mp read
  cases found : tables.assignment? id with
  | none => exact yields_pure (.missing found)
  | some row =>
    obtain ⟨attempts, result, after, runs, swept⟩ := Evaluation.regradeAll_yields id context.calendar tables
    cases swept with
    | wide wide => cases fits.symm.trans wide
    | missing absent => cases found.symm.trans absent
    | @reviewed _ result _ _ _ _ reviewed =>
      cases result with
      | error failure => exact ⟨_, _, _, runs_bind_error runs, .reviewed found reviewed⟩
      | ok done =>
        refine ⟨_, _, _, runs_bind runs (runs_pure _ _), ?_⟩
        rw [List.append_nil]
        exact .reviewed found reviewed

def marked (context : Context) (form : GradeForm) (policy : Policy) (penalty : Int) (score : Double) (row : Submission) :
    Submission :=
  { row with
    rawScore := some form.score
    penalty
    score := some score
    feedback := feedbackWith (note? policy penalty) form.feedback
    gradedAt := some (.ofUtc context.now) }

/-- What a grading comes to: the penalty is that of the late record, the note that of the assignment. -/
inductive Graded (context : Context) (id : Int) (form : GradeForm) (tables : Tables) :
    List Tables → Except Failure Reply → Tables → Prop
  | wide (wide : fitsWord id = false ∨ ∃ row, tables.submission? id = some row ∧ fitsWord row.assignment = false) :
    Graded context id form tables [] (.error .cellTooWide) tables
  | missing (absent : tables.submission? id = none) : Graded context id form tables [] (.ok (.refused .noSubmission)) tables
  | unfinished {row : Submission} (found : tables.submission? id = some row) (unfinished : row.isFinished = false) :
    Graded context id form tables [] (.ok (.refused .unfinished)) tables
  | unplaced {row : Submission} (found : tables.submission? id = some row)
    (absent : tables.assignment? row.assignment = none) :
    Graded context id form tables [] (.error (.absent "max_score")) tables
  | outside {row : Submission} {assignment : Assignment} (found : tables.submission? id = some row)
    (placed : tables.assignment? row.assignment = some assignment)
    (outside : isScore form.score assignment.maxScore = false) :
    Graded context id form tables [] (.ok (.refused (.scoreOutside assignment.maxScore))) tables
  | uncharged {failure : Failure} (failed : Evaluation.charge id context.calendar tables = .error failure) :
    Graded context id form tables [] (.error failure) tables
  | unscored {penalty : Int} {failure : Failure} (charged : Evaluation.charge id context.calendar tables = .ok penalty)
    (failed : Score.adjust form.score penalty = .error failure) : Graded context id form tables [] (.error failure) tables
  | unsaved {row : Submission} {assignment : Assignment} {penalty : Int} {score : Double} {failure : Failure}
    (found : tables.submission? id = some row) (charged : Evaluation.charge id context.calendar tables = .ok penalty)
    (refused : tables.putSubmission (marked context form assignment.policy penalty score row) = .error failure) :
    Graded context id form tables [tables] (.error failure) tables
  | saved {row : Submission} {assignment : Assignment} {penalty : Int} {score : Double} {after : Tables}
    (found : tables.submission? id = some row) (finished : row.isFinished = true)
    (placed : tables.assignment? row.assignment = some assignment)
    (inside : isScore form.score assignment.maxScore = true)
    (charged : Evaluation.charge id context.calendar tables = .ok penalty) (scored : Score.adjust form.score penalty = .ok score)
    (saved : tables.putSubmission (marked context form assignment.policy penalty score row) = .ok after) :
    Graded context id form tables [tables]
      (.ok (.submission (shown after (marked context form assignment.policy penalty score row).stored))) after

theorem grade_yields (context : Context) (id : Int) (form : GradeForm) (tables : Tables) :
    Yields (grade context id form) tables (Graded context id form tables) := by
  refine yields_read (runs_submission? id tables) (fun _ failed => ?_) fun row read => ?_
  · obtain ⟨wide, rfl⟩ := within_eq_error.mp failed
    exact .wide (.inl wide)
  obtain ⟨fits, rfl⟩ := within_eq_ok.mp read
  cases found : tables.submission? id with
  | none => exact yields_pure (.missing found)
  | some row =>
    obtain rfl : row.id = id := Table.find?_key found
    cases finished : row.isFinished with
    | false => simpa [finished] using yields_pure (Graded.unfinished found finished)
    | true =>
      simp only [finished, Bool.not_true, Bool.false_eq_true, if_false]
      refine yields_read (runs_assignment? row.assignment tables) (fun _ failed => ?_) fun assignment read => ?_
      · obtain ⟨wide, rfl⟩ := within_eq_error.mp failed
        exact .wide (.inr ⟨row, found, wide⟩)
      obtain ⟨_, rfl⟩ := within_eq_ok.mp read
      cases placed : tables.assignment? row.assignment with
      | none => exact yields_throw (.unplaced found placed)
      | some assignment =>
        cases inside : isScore form.score assignment.maxScore with
        | false => simpa [inside] using yields_pure (Graded.outside found placed inside)
        | true =>
          simp only [inside, Bool.not_true, Bool.false_eq_true, if_false]
          refine yields_read (Evaluation.runs_penalty fits context.calendar tables) (fun _ failed => .uncharged failed)
            fun penalty charged => ?_
          refine yields_read (runs_lift _ _) (fun _ failed => .unscored charged failed) fun score scored => ?_
          refine yields_save (fun _ refused => .unsaved found charged refused) fun after saved => ?_
          obtain ⟨_, stored⟩ := Tables.putSubmission_found saved
          exact yields_last (runs_showSubmission stored fits) (.saved found finished placed inside charged scored saved)

def looked (context : Context) (tables : Tables) : Call → Except Failure Reply
  | .read id => do
    match ← within id (tables.assignment? id) with
    | none => return .refused .noAssignment
    | some row => return .assignment (← viewAssignment context row)
  | .list id => do
    match ← within id (tables.assignment? id) with
    | none => return .refused .noAssignment
    | some _ =>
      let rows := Sorting.sort listedBefore (tables.submissions.filter fun row => row.assignment = id)
      return .submissions (← rows.mapM fun row => within row.id (shown tables row))
  | .penalty id => do
    match ← within id (tables.submission? id) with
    | none => return .refused .noSubmission
    | some _ => return .penalty id (tables.late? id).isSome (← Evaluation.charge id context.calendar tables)
  | _ => return .healthy

def Answered (context : Context) (tables : Tables) : Call → List Tables → Except Failure Reply → Tables → Prop
  | .create form => Created context form tables
  | .changePolicy id change => Changed context id change tables
  | .regradeAll id => Swept context id tables
  | .start id form => Started context id form tables
  | .finish id form => Finished context id form tables
  | .grade id form => Graded context id form tables
  | .regrade id => Refreshed context id tables
  | call => fun attempts result after => attempts = [] ∧ result = looked context tables call ∧ after = tables

theorem read_yields (context : Context) (id : Int) (tables : Tables) :
    Yields (perform context (.read id)) tables (Answered context tables (.read id)) := by
  refine yields_read (runs_assignment? id tables) (fun _ failed => ?_) fun row read => ?_
  · simp [Answered, looked, failed, bind, Except.bind]
  cases row with
  | none => exact yields_pure (by simp [Answered, looked, read, bind, Except.bind, pure, Except.pure])
  | some row =>
    refine yields_last (runs_lift _ _) ?_
    cases viewed : viewAssignment context row <;>
      simp [Answered, looked, read, viewed, bind, Except.bind, pure, Except.pure, Except.map]

theorem list_yields (context : Context) (id : Int) (tables : Tables) :
    Yields (perform context (.list id)) tables (Answered context tables (.list id)) := by
  refine yields_read (runs_assignment? id tables) (fun _ failed => ?_) fun row read => ?_
  · simp [Answered, looked, failed, bind, Except.bind]
  cases row with
  | none => exact yields_pure (by simp [Answered, looked, read, bind, Except.bind, pure, Except.pure])
  | some row =>
    refine yields_read (runs_stored tables) (fun _ failed => by cases failed) fun _ same => ?_
    cases same
    refine yields_last (runs_mapM (fun row => runs_viewSubmission row tables) _) ⟨rfl, ?_, rfl⟩
    simp only [looked, read, bind, Except.bind]
    cases (Sorting.sort listedBefore (tables.submissions.filter fun row => row.assignment = id)).mapM
      fun row => within row.id (shown tables row) <;> rfl

theorem penalty_yields (context : Context) (id : Int) (tables : Tables) :
    Yields (perform context (.penalty id)) tables (Answered context tables (.penalty id)) := by
  refine yields_read (runs_submission? id tables) (fun _ failed => ?_) fun row read => ?_
  · simp [Answered, looked, failed, bind, Except.bind]
  obtain ⟨fits, found⟩ := within_eq_ok.mp read
  cases row with
  | none => exact yields_pure (by simp [Answered, looked, read, bind, Except.bind, pure, Except.pure])
  | some row =>
    have late : Runs (Evaluation.isLate id) tables [] (.ok (tables.late? id).isSome) tables := by
      simpa [within, fits] using runs_isLate id tables
    refine yields_read late (fun _ failed => by cases failed) fun _ same => ?_
    cases same
    refine yields_last (Evaluation.runs_penalty fits context.calendar tables) ?_
    cases charged : Evaluation.charge id context.calendar tables <;>
      simp [Answered, looked, read, charged, bind, Except.bind, pure, Except.pure, Except.map]

theorem perform_yields (context : Context) (call : Call) (tables : Tables) :
    Yields (perform context call) tables (Answered context tables call) := by
  cases call with
  | health => exact yields_pure ⟨rfl, rfl, rfl⟩
  | create form => exact create_yields context form tables
  | read id => exact read_yields context id tables
  | changePolicy id change => exact changePolicy_yields context id change tables
  | regradeAll id => exact regradeAll_yields context id tables
  | start id form => exact start_yields context id form tables
  | list id => exact list_yields context id tables
  | finish id form => exact finish_yields context id form tables
  | grade id form => exact grade_yields context id form tables
  | regrade id => exact regrade_yields context id tables
  | penalty id => exact penalty_yields context id tables

/-- The answer to a call is the end of its course: under a fault that strikes, what was stored at that attempt. -/
theorem answer_eq {attempts : List Tables} {result : Except Failure Reply} {after : Tables}
    {call : Call} (runs : Runs (perform context call) tables attempts result after) (fault : Option Nat) :
    answer context fault call tables = match fault.bind fun n => attempts[n]? with
      | some left => (.error .commitFailed, left)
      | none => (result, after) := by
  rw [answer, perform_eq runs]
  cases fault.bind fun n => attempts[n]? <;> rfl

theorem serve_call {request : Request} {call : Call} (asked : request.call = .ok (.ok call)) (context : Context)
    (fault : Option Nat) (tables : Tables) : serve context fault request tables = answer context fault call tables := by
  simp only [serve, asked]

theorem answer_cases {attempts : List Tables} {result : Except Failure Reply} {after : Tables}
    {call : Call} (runs : Runs (perform context call) tables attempts result after) (fault : Option Nat) :
    answer context fault call tables = (result, after) ∨
      ∃ left ∈ attempts, answer context fault call tables = (.error .commitFailed, left) := by
  rw [answer_eq runs fault]
  cases struck : fault.bind fun n => attempts[n]? with
  | none => exact .inl rfl
  | some left =>
    obtain ⟨n, _, at_n⟩ := Option.bind_eq_some_iff.mp struck
    exact .inr ⟨left, List.mem_of_getElem? at_n, rfl⟩

/-- A fault strikes no call that writes nothing. -/
theorem answer_unwritten {result : Except Failure Reply} {after : Tables} {call : Call}
    (runs : Runs (perform context call) tables [] result after) (fault : Option Nat) :
    answer context fault call tables = (result, after) := by
  rw [answer_eq runs]
  cases fault <;> rfl

/-- An answer other than that a commit failed is what the call came to. -/
theorem answer_unstruck {fault : Option Nat} {result : Except Failure Reply} {call : Call}
    (replied : (answer context fault call tables).1 = result) (unstruck : result ≠ .error .commitFailed) :
    ∃ attempts after, Answered context tables call attempts result after := by
  obtain ⟨attempts, last, after, runs, answered⟩ := perform_yields context call tables
  rcases answer_cases runs fault with ended | ⟨left, _, struck⟩
  · rw [ended] at replied
    exact ⟨attempts, after, replied ▸ answered⟩
  · rw [struck] at replied
    exact absurd replied.symm unstruck

end Service
end Overdue
