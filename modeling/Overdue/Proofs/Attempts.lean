import Overdue.Proofs.History
import Overdue.Proofs.Range

/-! The attempts of a student at an assignment. A commit goes on with the rows that there are or adds the row of a start;
the rows of a student are numbered from one on, and the last of them alone may be open. -/
namespace Overdue

open Failure Work

variable {tables after : Tables} {context : Context} {call : Call} {now : Reading} {assignment student : Int}
  {attempts : List Submission} {f : Submission → Submission}

/-- How a row goes on. An open attempt may get a finish time, and gets it from the clock. -/
structure Submission.Continues (now : Reading) (old row : Submission) : Prop where
  id : row.id = old.id
  assignment : row.assignment = old.assignment
  student : row.student = old.student
  attempt : row.attempt = old.attempt
  startedAt : row.startedAt = old.startedAt
  finishedAt : row.finishedAt = old.finishedAt ∨ old.finishedAt = none ∧ row.finishedAt = some ⟨now, none⟩

namespace Submission.Continues

theorem refl (row : Submission) : row.Continues now row := ⟨rfl, rfl, rfl, rfl, rfl, .inl rfl⟩

/-- A kept row is put with other marks. -/
theorem marked {old : Submission} (kept : old.stored = old) (penalty : Int) (raw score : Option Double)
    (feedback : Option String) (gradedAt : Option Timestamp) :
    old.Continues now ({ old with rawScore := raw, penalty, score, feedback, gradedAt } : Submission).stored := by
  have started : old.stored.startedAt = old.startedAt := congrArg Submission.startedAt kept
  have finished : old.stored.finishedAt = old.finishedAt := congrArg Submission.finishedAt kept
  exact ⟨rfl, rfl, rfl, rfl, started, .inl finished⟩

theorem handedIn {old : Submission} (kept : old.stored = old) (unfinished : old.isFinished = false) (form : FinishForm) :
    old.Continues context.now (Service.handedIn context form old).stored := by
  have started : old.stored.startedAt = old.startedAt := congrArg Submission.startedAt kept
  refine ⟨rfl, rfl, rfl, rfl, started, .inr ⟨?_, rfl⟩⟩
  simpa [isFinished] using unfinished

theorem isFinished {old row : Submission} (continues : old.Continues now row) (finished : old.isFinished = true) :
    row.isFinished = true := by
  unfold Submission.isFinished at *
  rcases continues.finishedAt with same | ⟨unfinished, _⟩
  · rw [same]
    exact finished
  · rw [unfinished] at finished
    cases finished

end Submission.Continues

theorem Sound.put_continues (sound : Sound tables) {row old : Submission} (saved : tables.putSubmission row = .ok after)
    (found : tables.submission? row.id = some old) (continues : old.Continues now row.stored) :
    ∃ f, (∀ row ∈ tables.submissions, row.Continues now (f row)) ∧ after.submissions = tables.submissions.map f := by
  obtain ⟨_, _, rfl⟩ := Tables.putSubmission_eq_ok.mp saved
  refine ⟨_, fun other member => ?_, Table.put_of_found sound.submissions found⟩
  split
  next own =>
    have present : tables.submission? other.id = some other := Table.find?_of_mem sound.submissions member
    rw [own] at present
    cases found.symm.trans present
    exact continues
  next => exact .refl other

/-- A commit goes on with the submissions that there are, or adds the one of a start that is admitted. -/
theorem Commit.submissions_eq (commit : Commit context call tables after) (sound : Sound tables) :
    (∃ f, (∀ row ∈ tables.submissions, row.Continues context.now (f row)) ∧ after.submissions = tables.submissions.map f) ∨
    ∃ id form, call = .start id form ∧ Service.Admitted context id form tables ∧
      Service.unfinished? (Service.attemptsOf id form.student tables) = none ∧
      after.submissions = tables.submissions ++ [(Service.opened context id form tables).stored] := by
  have same (still : after.submissions = tables.submissions) :
      ∃ f, (∀ row ∈ tables.submissions, row.Continues context.now (f row)) ∧ after.submissions = tables.submissions.map f :=
    ⟨id, fun row _ => .refl row, still.trans (List.map_id _).symm⟩
  cases commit with
  | create asked made saved =>
    obtain ⟨_, _, _, rfl⟩ := Tables.putAssignment_eq_ok.mp saved
    exact .inl (same rfl)
  | changePolicy asked found inside made saved =>
    obtain ⟨_, _, _, rfl⟩ := Tables.putAssignment_eq_ok.mp saved
    exact .inl (same rfl)
  | @start id form _ asked admitted allFinished saved =>
    obtain ⟨_, _, rfl⟩ := Tables.putSubmission_eq_ok.mp saved
    refine .inr ⟨id, form, asked, admitted, allFinished, Table.put_of_beyond fun other member => ?_⟩
    exact Table.lt_nextKey member
  | handIn asked found unfinished saved =>
    obtain rfl := Table.find?_key found
    exact .inl (sound.put_continues saved found (.handedIn (sound.submission found) unfinished _))
  | judge found finishedAt placed judged => exact .inl (same judged.submissions)
  | rescore found finishedAt charged scored saved =>
    exact .inl (sound.put_continues saved found (.marked (sound.submission found) _ _ _ _ _))
  | grade asked found finished placed inside charged scored saved =>
    obtain rfl := Table.find?_key found
    exact .inl (sound.put_continues saved found (.marked (sound.submission found) _ _ _ _ _))

namespace Service

theorem mem_attemptsOf_iff {row : Submission} : row ∈ attemptsOf assignment student tables ↔
    row ∈ tables.submissions ∧ row.assignment = assignment ∧ row.student = student := by
  simp [attemptsOf]

theorem attemptsOf_map (each : ∀ row ∈ tables.submissions, row.Continues now (f row))
    (same : after.submissions = tables.submissions.map f) (assignment student : Int) :
    attemptsOf assignment student after = (attemptsOf assignment student tables).map f := by
  rw [attemptsOf, same, List.filter_map, attemptsOf]
  congr 1
  apply List.filter_congr
  intro row member
  simp [(each row member).assignment, (each row member).student]

theorem attemptsOf_append {row : Submission} (same : after.submissions = tables.submissions ++ [row]) (assignment student : Int) :
    attemptsOf assignment student after = attemptsOf assignment student tables ++
      if row.assignment = assignment ∧ row.student = student then [row] else [] := by
  rw [attemptsOf, same, List.filter_append, attemptsOf]
  simp [List.filter_cons]

theorem mem_of_unfinished? {attempt : Submission} (found : unfinished? attempts = some attempt) :
    attempt ∈ attempts ∧ attempt.isFinished = false := by
  have first := List.mem_of_mem_head? found
  simpa [Sorting.mem_sort] using first

theorem unfinished?_eq_none : unfinished? attempts = none ↔ ∀ row ∈ attempts, row.isFinished = true := by
  rw [unfinished?, List.head?_eq_none_iff, List.eq_nil_iff_forall_not_mem]
  simp [Sorting.mem_sort]

end Service

/-- Attempts that are numbered from one on, all finished but the last. -/
structure Consecutive (attempts : List Submission) : Prop where
  numbers : attempts.map Submission.attempt = (List.range attempts.length).map fun n : Nat => (n : Int) + 1
  finished : ∀ row ∈ attempts.dropLast, row.isFinished = true

namespace Consecutive

theorem map (consecutive : Consecutive attempts) (each : ∀ row ∈ attempts, row.Continues now (f row)) :
    Consecutive (attempts.map f) where
  numbers := by
    have same : (attempts.map f).map Submission.attempt = attempts.map Submission.attempt := by
      rw [List.map_map]
      exact List.map_congr_left fun row member => (each row member).attempt
    rw [same, List.length_map]
    exact consecutive.numbers
  finished := by
    intro row member
    rw [← List.map_dropLast] at member
    obtain ⟨old, early, rfl⟩ := List.mem_map.mp member
    exact (each old (List.mem_of_mem_dropLast early)).isFinished (consecutive.finished old early)

theorem append (consecutive : Consecutive attempts) (allFinished : ∀ row ∈ attempts, row.isFinished = true) {row : Submission}
    (next : row.attempt = attempts.length + 1) : Consecutive (attempts ++ [row]) where
  numbers := by
    rw [List.map_append, List.length_append, List.length_singleton, List.range_succ, List.map_append, consecutive.numbers]
    simp [next]
  finished := by
    rw [List.dropLast_concat]
    exact allFinished

/-- The number after the largest is the number after the count. -/
theorem nextAttempt_eq (consecutive : Consecutive attempts) : Service.nextAttempt attempts = attempts.length + 1 := by
  unfold Service.nextAttempt
  rw [consecutive.numbers]
  cases attempts.length with
  | zero => rfl
  | succ last =>
    have largest : ((List.range (last + 1)).map fun n : Nat => (n : Int) + 1).max? = some ((last : Int) + 1) := by
      rw [List.max?_eq_some_iff]
      refine ⟨List.mem_map.mpr ⟨last, List.self_mem_range_succ, rfl⟩, fun number member => ?_⟩
      obtain ⟨n, within, rfl⟩ := List.mem_map.mp member
      have := List.mem_range.mp within
      omega
    rw [largest]
    rfl

theorem attempt_lt (consecutive : Consecutive attempts) {row : Submission} (member : row ∈ attempts) :
    row.attempt < Service.nextAttempt attempts := by
  have number : row.attempt ∈ attempts.map Submission.attempt := List.mem_map_of_mem member
  rw [consecutive.numbers] at number
  obtain ⟨n, within, same⟩ := List.mem_map.mp number
  have := List.mem_range.mp within
  rw [consecutive.nextAttempt_eq]
  omega

/-- An open attempt is the last one. -/
theorem eq_getLast (consecutive : Consecutive attempts) {row : Submission} (member : row ∈ attempts)
    (unfinished : row.isFinished = false) : row = attempts.getLast (List.ne_nil_of_mem member) := by
  rw [← List.dropLast_concat_getLast (List.ne_nil_of_mem member), List.mem_append, List.mem_singleton] at member
  rcases member with early | last
  · cases (consecutive.finished row early).symm.trans unfinished
  · exact last

theorem unfinished?_eq (consecutive : Consecutive attempts) {row : Submission} (member : row ∈ attempts)
    (unfinished : row.isFinished = false) : Service.unfinished? attempts = some row := by
  cases found : Service.unfinished? attempts with
  | none => cases (Service.unfinished?_eq_none.mp found row member).symm.trans unfinished
  | some other =>
    obtain ⟨memberToo, unfinishedToo⟩ := Service.mem_of_unfinished? found
    rw [consecutive.eq_getLast member unfinished, consecutive.eq_getLast memberToo unfinishedToo]

end Consecutive

theorem Commit.consecutive (commit : Commit context call tables after) (sound : Sound tables)
    (consecutive : Consecutive (Service.attemptsOf assignment student tables)) :
    Consecutive (Service.attemptsOf assignment student after) := by
  rcases commit.submissions_eq sound with ⟨f, each, same⟩ | ⟨id, form, _, _, allFinished, same⟩
  · rw [Service.attemptsOf_map each same]
    exact consecutive.map fun row member => each row (Service.mem_attemptsOf_iff.mp member).1
  · rw [Service.attemptsOf_append same]
    split
    next own =>
      obtain ⟨rfl, rfl⟩ := own
      exact consecutive.append (Service.unfinished?_eq_none.mp allFinished) consecutive.nextAttempt_eq
    next =>
      rw [List.append_nil]
      exact consecutive

theorem History.consecutive (history : List Event) (assignment student : Int) :
    Consecutive (Service.attemptsOf assignment student (History.tables history)) := by
  induction history with
  | nil => exact ⟨rfl, by simp [Service.attemptsOf, History.tables]⟩
  | cons event earlier ih =>
    exact carried_sound (fun reached => Consecutive (Service.attemptsOf assignment student reached)) ih
      fun _ commit sound kept => commit.consecutive sound kept

theorem Tables.putSubmission_constraint {row : Submission} (refused : tables.putSubmission row = .error .constraint) :
    ∃ other ∈ tables.submissions, row.clashes other = true := by
  unfold putSubmission at refused
  split at refused
  · split at refused
    next clash => exact List.any_eq_true.mp clash
    next => cases refused
  · cases refused

namespace Service

variable {id : Int} {form : StartForm} {commits : List Tables} {result : Except Failure Reply} {attempt : Submission}
  {policy : Policy}

theorem barrier?_only (policy : Policy) (now : Reading) : Only .outOfRange (barrier? policy now) := by
  unfold barrier?
  split
  · exact only_ok _
  · refine only_bind policy.due?_only fun due => ?_
    cases due with
    | none => exact only_ok _
    | some due => exact only_bind (Reading.shift_only _ _) fun _ => only_ok _

theorem barrier?_returns_iff {due : Option Reading} (read : policy.due? = .ok due) (now : Reading) :
    (∃ barrier, barrier? policy now = .ok barrier) ↔ ¬(policy.preventResubmission = true ∧ policy.Overruns) := by
  unfold barrier?
  cases policy.preventResubmission with
  | false => exact iff_of_true ⟨none, rfl⟩ (by simp)
  | true =>
    simp only [Bool.not_true, Bool.false_eq_true, if_false, true_and]
    exact Policy.rule_returns_iff read ⟨none, rfl⟩ fun instant => bind_returns_iff fun limit =>
      ⟨if limit.le now then some instant else none, rfl⟩

theorem submittedBefore_open (open_ : unfinished? attempts = some attempt) (barrier : Option Reading) :
    submittedBefore barrier attempts = .ok false := by
  unfold submittedBefore
  rw [open_]
  cases barrier <;> rfl

theorem submittedBefore_none (attempts : List Submission) : submittedBefore none attempts = .ok false := rfl

theorem submittedBefore_some (allFinished : unfinished? attempts = none) (kept : ∀ row ∈ attempts, row.stored = row)
    (due : Reading) : submittedBefore (some due) attempts =
      .ok (attempts.any fun row => row.finishedAt.any fun finished => finished.reading.lt due) := by
  unfold submittedBefore
  rw [allFinished]
  apply anyM_of_ok
  intro row member
  have finish : row.finishedAt.map Timestamp.stored = row.finishedAt := congrArg Submission.finishedAt (kept row member)
  rw [finishedBefore, ← finish]
  cases row.finishedAt <;> rfl

theorem submittedBefore_returns (kept : ∀ row ∈ attempts, row.stored = row) (barrier : Option Reading) :
    ∃ submitted, submittedBefore barrier attempts = .ok submitted := by
  cases barrier with
  | none => exact ⟨_, submittedBefore_none attempts⟩
  | some due =>
    cases found : unfinished? attempts with
    | none => exact ⟨_, submittedBefore_some found kept due⟩
    | some attempt => exact ⟨_, submittedBefore_open found _⟩

theorem attemptsOf_kept (sound : Sound tables) (assignment student : Int) :
    ∀ row ∈ attemptsOf assignment student tables, row.stored = row := by
  intro row member
  exact sound.submission (Table.find?_of_mem sound.submissions (mem_attemptsOf_iff.mp member).1)

/-- What a start comes to while an attempt is open. -/
inductive Resumed (context : Context) (tables : Tables) (row : Assignment) (attempt : Submission) : Except Failure Reply → Prop
  | closed (closed : isClosed row context.now = .ok true) : Resumed context tables row attempt (.ok (.refused .closed))
  | overrun (unclosed : isClosed row context.now = .ok false)
    (overruns : row.policy.preventResubmission = true ∧ row.policy.Overruns) :
    Resumed context tables row attempt (.error .outOfRange)
  | shown (unclosed : isClosed row context.now = .ok false)
    (within : ¬(row.policy.preventResubmission = true ∧ row.policy.Overruns)) :
    Resumed context tables row attempt (.ok (.started (shown tables attempt)))

/-- Why a start fails before it writes anything. -/
theorem start_undecided {row : Assignment} {failure : Failure} (sound : Sound tables) (found : tables.assignment? id = some row)
    (failed : isClosed row context.now = .error failure ∨ isClosed row context.now = .ok false ∧
      (barrier? row.policy context.now = .error failure ∨ ∃ barrier, barrier? row.policy context.now = .ok barrier ∧
        submittedBefore barrier (attemptsOf id form.student tables) = .error failure)) :
    isClosed row context.now = .ok false ∧ (row.policy.preventResubmission = true ∧ row.policy.Overruns) ∧
      failure = .outOfRange := by
  have kept := sound.assignment found
  rcases failed with failed | ⟨unclosed, failed | ⟨barrier, _, failed⟩⟩
  · cases (Assignment.isClosed_of_stored kept context.now).symm.trans failed
  · obtain ⟨due, read⟩ := Assignment.due?_of_stored kept
    have returns := barrier?_returns_iff read context.now
    refine ⟨unclosed, not_not.mp fun within => ?_, barrier?_only _ _ _ failed⟩
    obtain ⟨barrier, decided⟩ := returns.mpr within
    cases decided.symm.trans failed
  · obtain ⟨submitted, decided⟩ := submittedBefore_returns (attemptsOf_kept sound id form.student) barrier
    cases decided.symm.trans failed

theorem Started.resumed (started : Started context id form tables commits result after) (sound : Sound tables)
    (fitting : Fitting tables) (open_ : unfinished? (attemptsOf id form.student tables) = some attempt) :
    commits = [] ∧ after = tables ∧ ∃ row, tables.assignment? id = some row ∧ Resumed context tables row attempt result := by
  obtain ⟨member, rfl, same⟩ := mem_attemptsOf_iff.mp (mem_of_unfinished? open_).1
  have present : tables.submission? attempt.id = some attempt := Table.find?_of_mem sound.submissions member
  obtain ⟨fits, fitsAssignment, fitsStudent⟩ := fitting.submission_numbers present
  obtain ⟨row, placed⟩ := sound.placed present
  cases started with
  | wide wide =>
    rcases wide with wide | ⟨_, _, _, wide⟩
    · cases fitsAssignment.symm.trans wide
    · rw [← same] at wide
      cases fitsStudent.symm.trans wide
  | missing absent => cases placed.symm.trans absent
  | undecided found failed =>
    obtain ⟨unclosed, overruns, rfl⟩ := start_undecided sound found failed
    exact ⟨rfl, rfl, _, found, .overrun unclosed overruns⟩
  | closed found closed => exact ⟨rfl, rfl, _, found, .closed closed⟩
  | barred found unclosed limit submitted => cases (submittedBefore_open open_ _).symm.trans submitted
  | reopened admitted unfinished =>
    obtain ⟨row, barrier, found, unclosed, limit, _⟩ := admitted
    cases open_.symm.trans unfinished
    obtain ⟨due, read⟩ := Assignment.due?_of_stored (sound.assignment found)
    have inside := (barrier?_returns_iff read context.now).mp ⟨barrier, limit⟩
    have shows : (within attempt.id (shown tables attempt)).map Reply.started = .ok (.started (shown tables attempt)) := by
      rw [Work.within, if_pos fits]
      rfl
    rw [shows]
    exact ⟨rfl, rfl, row, found, .shown unclosed inside⟩
  | unsaved admitted allFinished => cases open_.symm.trans allFinished
  | saved admitted allFinished => cases open_.symm.trans allFinished

/-- A start writes no attempt that is there already. -/
theorem Started.not_constraint (started : Started context id form tables commits result after) (sound : Sound tables)
    (consecutive : Consecutive (attemptsOf id form.student tables)) : result ≠ .error .constraint := by
  rintro rfl
  generalize violated : Except.error Failure.constraint = result at started
  cases started with
  | wide | missing | closed | barred | saved => cases violated
  | undecided found failed =>
    obtain ⟨_, _, outside⟩ := start_undecided sound found failed
    rw [outside] at violated
    cases violated
  | reopened =>
    unfold Work.within at violated
    split at violated <;> cases violated
  | unsaved admitted allFinished refused =>
    cases violated
    obtain ⟨other, member, clashes⟩ := Tables.putSubmission_constraint refused
    simp only [Submission.clashes, Bool.and_eq_true] at clashes
    obtain ⟨⟨⟨_, assignment⟩, student⟩, number⟩ := clashes
    have inside : other ∈ attemptsOf id form.student tables :=
      mem_attemptsOf_iff.mpr ⟨member, (of_decide_eq_true assignment).symm, (of_decide_eq_true student).symm⟩
    have taken : nextAttempt (attemptsOf id form.student tables) = other.attempt := of_decide_eq_true number
    have free := consecutive.attempt_lt inside
    omega

/-- A start of a student with an open attempt. -/
theorem answer_start_open (sound : Sound tables) (fitting : Fitting tables)
    (open_ : unfinished? (attemptsOf id form.student tables) = some attempt) (fault : Option Nat) :
    (answer context fault (.start id form) tables).2 = tables ∧ ∃ row, tables.assignment? id = some row ∧
      Resumed context tables row attempt (answer context fault (.start id form) tables).1 := by
  obtain ⟨commits, result, after, runs, started⟩ := perform_yields context (.start id form) tables
  obtain ⟨rfl, rfl, row, found, resumed⟩ := started.resumed sound fitting open_
  rw [answer_unwritten runs]
  exact ⟨rfl, row, found, resumed⟩

end Service

namespace History

/-- After every history the attempts of a student at an assignment are numbered from one on, in the order of their ids, and
all but the last are finished. No start writes a number that is there already. While an attempt is open, a start adds no
row; it shows the attempt, unless the assignment is closed or the minute of grace leads out of the years. -/
theorem attempts_numbered (history : List Event) (assignment student : Int) :
    let attempts := Service.attemptsOf assignment student (History.tables history)
    attempts.map Submission.attempt = (List.range attempts.length).map (fun n : Nat => (n : Int) + 1) ∧
    attempts.Pairwise (fun row later => row.id < later.id) ∧ (∀ row ∈ attempts.dropLast, row.isFinished = true) ∧
    ∀ event form, event.request.call = .ok (.ok (.start assignment form)) → form.student = student →
      answer event history ≠ .error .constraint ∧
      ∀ attempt ∈ attempts, attempt.isFinished = false → History.tables (event :: history) = History.tables history ∧
        ∃ row, (History.tables history).assignment? assignment = some row ∧
          Service.Resumed event.context (History.tables history) row attempt (answer event history) := by
  intro attempts
  have consecutive := consecutive history assignment student
  refine ⟨consecutive.numbers, (sound history).submissions.filter _, consecutive.finished, ?_⟩
  rintro event form asked rfl
  have served := Service.serve_call asked event.context event.faultAfter (History.tables history)
  rw [answer, served]
  refine ⟨fun violated => ?_, fun attempt member unfinished => ?_⟩
  · obtain ⟨commits, after, started⟩ := Service.answer_unstruck violated (by simp)
    exact Service.Started.not_constraint started (sound history) consecutive rfl
  · have open_ := consecutive.unfinished?_eq member unfinished
    rw [History.tables, served]
    exact Service.answer_start_open (sound history) (fitting history) open_ event.faultAfter

/-- A second attempt is open after the first one was finished. -/
def secondAttempt : List Event := [
  .plain 63840200000000000 .post ["assignments", "1", "submissions"] [("student_id", .int 7)],
  .plain 63840100000000000 .post ["submissions", "1", "finish"] [],
  .plain 63840000000000000 .post ["assignments", "1", "submissions"] [("student_id", .int 7)],
  .plain 63830000000000000 .post ["assignments"]
    [("title", .str "Essay"), ("due_at", .str "2024-03-02T00:00:00Z")]]

def startedAgain : Event :=
  .plain 63840300000000000 .post ["assignments", "1", "submissions"] [("student_id", .int 7)]

theorem attempts_numbered_second : ∃ attempt ∈ Service.attemptsOf 1 7 (History.tables secondAttempt), attempt.attempt = 2 ∧
    History.tables (startedAgain :: secondAttempt) = History.tables secondAttempt ∧
    answer startedAgain secondAttempt = .ok (.started ⟨attempt, false⟩) := by
  obtain ⟨attempt, member, unfinished, number, onTime⟩ :
      ∃ attempt ∈ Service.attemptsOf 1 7 (History.tables secondAttempt), attempt.isFinished = false ∧ attempt.attempt = 2 ∧
        ((History.tables secondAttempt).late? attempt.id).isSome = false := by decide +kernel
  have asked : startedAgain.request.call = .ok (.ok (.start 1 ⟨7⟩)) := by decide +kernel
  have limits : ((History.tables secondAttempt).assignment? 1).map (fun row =>
      (Service.isClosed row startedAgain.context.now, row.policy.due?)) =
        some (.ok false, .ok (some ⟨63844934400000000, by decide⟩)) := by decide +kernel
  obtain ⟨_, _, _, starts⟩ := attempts_numbered secondAttempt 1 7
  obtain ⟨same, row, placed, resumed⟩ := (starts startedAgain ⟨7⟩ asked rfl).2 attempt member unfinished
  rw [placed, Option.map_some, Option.some.injEq, Prod.mk.injEq] at limits
  refine ⟨attempt, member, number, same, ?_⟩
  generalize answer startedAgain secondAttempt = replied at resumed
  cases resumed with
  | closed closed => cases limits.1.symm.trans closed
  | overrun unclosed overruns =>
    obtain ⟨_, due, read, beyond⟩ := overruns
    cases limits.2.symm.trans read
    exact absurd beyond (by decide)
  | shown => rw [Service.shown, onTime]

/-- The due instant is moved into the last minute of the years while an attempt is open. -/
def overrunAttempt : List Event := [
  .plain 63840100000000000 .patch ["assignments", "1", "late-policy"] [("due_at", .str "9999-12-31T23:59:30Z")],
  .plain 63840000000000000 .post ["assignments", "1", "submissions"] [("student_id", .int 7)],
  .plain 63830000000000000 .post ["assignments"] [("title", .str "Essay")]]

/-- The start is not refused and does not show the open attempt either. -/
theorem start_overrun : startedAgain.request.call = .ok (.ok (.start 1 ⟨7⟩)) ∧
    (∃ attempt ∈ Service.attemptsOf 1 7 (History.tables overrunAttempt), attempt.isFinished = false) ∧
    answer startedAgain overrunAttempt = .error .outOfRange := by
  decide +kernel

end History
end Overdue
