import Overdue.Proofs.Range
import Overdue.Proofs.ScoreOrder
import Overdue.Proofs.Standing

/-! What the service answers for where the years end. A stored policy is described and judged by exactly if its minute of
grace lies within the years, and a finish or a regrade is answered exactly if besides the last penalty day does. -/
namespace Overdue

open Failure Work

variable {tables after : Tables} {calendar : Calendar} {policy : Policy} {due done : Reading} {finished : Timestamp}
  {row : Submission} {assignment : Assignment} {id : Int} {attempts : List Tables}

namespace Policy

/-- A finish is judged by the policy and, if it is late and something is taken off, charged by the calendar. -/
def Judges (policy : Policy) (calendar : Calendar) (done : Reading) : Prop :=
  ∀ due, policy.due? = .ok (some due) → due.micros + graceMicros < readingEnd ∧
    (policy.applied = true → due.micros + graceMicros ≤ done.micros → Penalty.Ends calendar due done)

theorem judges_iff (active : policy.due? = .ok (some due)) : policy.Judges calendar done ↔
    due.micros + graceMicros < readingEnd ∧
      (policy.applied = true → due.micros + graceMicros ≤ done.micros → Penalty.Ends calendar due done) := by
  constructor
  · exact fun judges => judges due active
  · intro holds other activeToo
    cases active.symm.trans activeToo
    exact holds

/-- Two days before the end of the years nothing but the minute of grace can lead out of them. -/
theorem judges_of_before (graced : ¬policy.Overruns) (before : done.micros + 2 * dayMicros ≤ readingEnd) (calendar : Calendar) :
    policy.Judges calendar done := by
  intro due active
  refine ⟨Nat.lt_of_not_le fun beyond => graced ⟨due, active, beyond⟩, fun _ late => ?_⟩
  exact Penalty.ends_of_before late before calendar

theorem isLate_of_due (active : policy.due? = .ok (some due)) (within : due.micros + graceMicros < readingEnd)
    (doneUtc : finished.utc = .ok done) : policy.isLate finished = .ok (decide (due.micros + graceMicros ≤ done.micros)) := by
  obtain ⟨limit, shifted⟩ := due.shift_grace_iff.mpr within
  have effective : policy.effectiveDue = .ok (some limit) := by
    rw [effectiveDue, bind_of_ok active]
    exact bind_eq_ok.mpr ⟨limit, shifted, rfl⟩
  have micros := Reading.shift_eq_ok.mp shifted
  have same : limit.micros = due.micros + graceMicros := by omega
  rw [isLate, bind_of_ok effective, ← same]
  exact bind_eq_ok.mpr ⟨done, doneUtc, rfl⟩

end Policy

theorem fitsWord_of_percentage {n : Int} (low : 0 ≤ n) (high : n ≤ 100) : fitsWord n = true := by
  unfold fitsWord
  rw [decide_eq_true_eq]
  have wide : 100 < wordEnd := by decide
  omega

namespace Evaluation

theorem adjusted_returns (row : Submission) {penalty : Int} (low : 0 ≤ penalty) (high : penalty ≤ 100) :
    ∃ score, adjusted row penalty = .ok score := by
  unfold adjusted
  cases row.rawScore with
  | none => exact ⟨row.score, rfl⟩
  | some raw =>
    obtain ⟨score, adjusts⟩ := Score.adjust_returns raw low high
    exact ⟨some score, map_eq_ok.mpr ⟨score, adjusts, rfl⟩⟩

theorem charged_bounds {record : Option LateRecord} {penalty : Int} (charges : charged calendar record = .ok penalty) :
    0 ≤ penalty ∧ penalty ≤ 100 := by
  cases record with
  | none =>
    cases charges
    omega
  | some record => exact Penalty.percentage_bounds charges

/-- A late record is made and charged exactly if the policy judges the finish. -/
theorem revised_charged_iff {read : Option Reading} (stands : policy.due? = .ok read) (doneUtc : finished.utc = .ok done)
    {record : Option LateRecord} (dated : ∀ old, record = some old → old.finishedAt.reading = done) (id : Int) :
    (∃ revision penalty, revised id finished policy record = .ok revision ∧ charged calendar revision = .ok penalty) ↔
      policy.Judges calendar done := by
  cases read with
  | none =>
    have onTime := revised_onTime (policy.isLate_of_none stands finished) id record
    exact iff_of_true ⟨none, 0, onTime, rfl⟩ fun due active => by cases stands.symm.trans active
  | some due =>
    rw [Policy.judges_iff stands]
    by_cases within : due.micros + graceMicros < readingEnd
    · have decided := policy.isLate_of_due stands within doneUtc
      by_cases late : due.micros + graceMicros ≤ done.micros
      · rw [decide_eq_true late] at decided
        obtain ⟨dueAt, placed, dueUtc, _⟩ := policy.dueAt_of_due stands
        have revises := revised_late decided doneUtc (policy.terms_of_due placed dueUtc) id record
        generalize first : (record.map LateRecord.finishedAt).getD (.ofUtc done) = kept at revises
        have dates : kept.reading = done := by
          rw [← first]
          cases record with
          | none => rfl
          | some old => exact dated old rfl
        have charges : (∃ charge, charged calendar (some (LateRecord.stored ⟨id, kept, .ofUtc due, policy.applied, policy.daily,
            policy.cap⟩)) = .ok charge) ↔ policy.applied = false ∨ due.micros + graceMicros < readingEnd ∧
              (due.micros + graceMicros ≤ done.micros → Penalty.Ends calendar due done) :=
          Penalty.percentage_returns_iff rfl (congrArg Except.ok dates)
        simp only [revises, Except.ok.injEq, exists_and_left, exists_eq_left', charges, within, late, true_and, true_imp_iff]
        cases policy.applied <;> simp
      · rw [decide_eq_false late] at decided
        exact iff_of_true ⟨none, 0, revised_onTime decided id record, rfl⟩ ⟨within, fun _ reached => absurd reached late⟩
    · refine iff_of_false ?_ fun holds => within holds.1
      rintro ⟨revision, penalty, revises, _⟩
      obtain ⟨late, decided, _⟩ := bind_eq_ok.mp revises
      have overruns := (policy.isLate_returns_iff stands doneUtc).mp ⟨late, decided⟩
      exact overruns ⟨due, stands, Nat.not_lt.mp within⟩

theorem fits_priced (fits : row.fits = true) {penalty : Int} (low : 0 ≤ penalty) (high : penalty ≤ 100) :
    ({ row with penalty } : Submission).fits = true := by
  simp only [Submission.fits, Bool.and_eq_true] at fits ⊢
  exact ⟨fits.1, fitsWord_of_percentage low high⟩

/-- A finished submission can be regraded exactly if the policy of its assignment judges its finish. -/
theorem settles_iff (sound : Sound tables) (fitting : Fitting tables) (found : tables.submission? id = some row)
    (finishedAt : row.finishedAt = some finished) (placed : tables.assignment? row.assignment = some assignment) :
    (∃ entry, Settles calendar tables id entry) ↔ assignment.policy.Judges calendar finished.reading := by
  obtain rfl := Table.find?_key found
  obtain ⟨read, stands⟩ := Assignment.due?_of_stored (sound.assignment placed)
  have doneUtc := Timestamp.utc_of_stored (sound.stored_finish found finishedAt)
  have dated : ∀ old, tables.late? row.id = some old → old.finishedAt.reading = finished.reading := by
    intro old recorded
    obtain ⟨_, same, foundToo, finishedToo⟩ := sound.record recorded
    cases found.symm.trans foundToo
    cases finishedAt.symm.trans finishedToo
    rfl
  rw [← revised_charged_iff stands doneUtc dated row.id]
  constructor
  · rintro ⟨_, settles⟩
    obtain ⟨foundToo, finishedToo, placedToo, _, settles, _⟩ := settles
    cases found.symm.trans foundToo
    cases finishedAt.symm.trans finishedToo
    cases placed.symm.trans placedToo
    obtain ⟨penalty, _, revises, charges, _⟩ := settled_eq_ok.mp settles
    exact ⟨_, penalty, revises, charges⟩
  · rintro ⟨revision, penalty, revises, charges⟩
    obtain ⟨low, high⟩ := charged_bounds charges
    obtain ⟨score, scores⟩ := adjusted_returns row low high
    have settles : settled calendar assignment.policy finished row (tables.late? row.id) =
        .ok (({ row with penalty, score } : Submission).stored, revision) :=
      settled_eq_ok.mpr ⟨penalty, score, revises, charges, scores, rfl⟩
    have fitsPolicy := (Bool.and_eq_true_iff.mp (fitting.assignment placed)).2
    obtain ⟨late, decided, _⟩ := bind_eq_ok.mp revises
    have judgeable : Judgeable row.id finished assignment.policy :=
      ⟨(fitting.submission_numbers found).1, late, decided, fun _ => fitsPolicy⟩
    have fits := fits_priced (fitting.submission found) low high
    exact ⟨_, .intro found finishedAt placed judgeable settles fits⟩

theorem Regraded.returns_iff {result : Except Failure Int} (held : Held tables) (sound : Sound tables) (fitting : Fitting tables)
    (found : tables.submission? id = some row) (finishedAt : row.finishedAt = some finished)
    (placed : tables.assignment? row.assignment = some assignment)
    (regraded : Regraded id calendar tables attempts result after) :
    (∃ penalty, result = .ok penalty) ↔ assignment.policy.Judges calendar finished.reading := by
  rw [← settles_iff sound fitting found finishedAt placed]
  constructor
  · rintro ⟨penalty, rfl⟩
    exact ⟨_, regraded.settles.1⟩
  · rintro ⟨entry, settles⟩
    exact regraded.returns held settles

theorem evaluate_returns_iff {read : Option Reading} (stands : policy.due? = .ok read) (fitsPolicy : policy.fits = true)
    (doneUtc : finished.utc = .ok done) (fits : fitsWord id = true) (tables : Tables) :
    (∃ action, (perform (evaluate id finished policy) none { stored := tables }).1 = .ok action) ↔ ¬policy.Overruns := by
  obtain ⟨attempts, result, after, runs, judged⟩ := evaluate_yields id finished policy tables
  rw [perform_eq runs, ← policy.isLate_returns_iff stands doneUtc]
  refine (judged.returns_iff fits).trans ⟨?_, ?_⟩
  · rintro ⟨_, late, decided, _⟩
    exact ⟨late, decided⟩
  · rintro ⟨late, decided⟩
    exact ⟨fits, late, decided, fun _ => fitsPolicy⟩

end Evaluation

namespace Service

variable {context : Context} {form : FinishForm}

theorem answer_read (found : tables.assignment? id = some assignment) (fits : fitsWord id = true) (context : Context)
    (fault : Option Nat) :
    answer context fault (.read id) tables = ((viewAssignment context assignment).map .assignment, tables) := by
  obtain ⟨attempts, result, after, runs, rfl, rfl, rfl⟩ := perform_yields context (.read id) tables
  rw [answer_unwritten runs fault]
  have looks : looked context after (.read id) = (viewAssignment context assignment).map .assignment := by
    cases viewed : viewAssignment context assignment <;>
      simp [looked, within, fits, found, viewed, bind, Except.bind, pure, Except.pure, Except.map]
  rw [looks]

theorem viewAssignment_returns_iff {read : Option Reading} (stands : assignment.policy.due? = .ok read) (context : Context) :
    (∃ view, (viewAssignment context assignment).map Reply.assignment = .ok (.assignment view)) ↔
      ¬assignment.policy.Overruns := by
  rw [← Notes.describe_returns_iff stands (Timestamp.utc_ofUtc context.now)]
  simp only [viewAssignment, map_eq_ok]
  constructor
  · rintro ⟨_, _, ⟨notes, described, _⟩, _⟩
    exact ⟨notes, described⟩
  · rintro ⟨notes, described⟩
    exact ⟨_, _, ⟨notes, described, rfl⟩, rfl⟩

theorem answer_read_returns_iff {read : Option Reading} (found : tables.assignment? id = some assignment)
    (fits : fitsWord id = true) (stands : assignment.policy.due? = .ok read) (context : Context) (fault : Option Nat) :
    (∃ view, (answer context fault (.read id) tables).1 = .ok (.assignment view)) ↔ ¬assignment.policy.Overruns := by
  rw [answer_read found fits]
  exact viewAssignment_returns_iff stands context

theorem answer_regrade_returns_iff (held : Held tables) (sound : Sound tables) (fitting : Fitting tables)
    (found : tables.submission? id = some row) (finishedAt : row.finishedAt = some finished)
    (placed : tables.assignment? row.assignment = some assignment) (context : Context) :
    (∃ view, (answer context none (.regrade id) tables).1 = .ok (.submission view)) ↔
      assignment.policy.Judges context.calendar finished.reading := by
  have fits := (fitting.submission_numbers found).1
  obtain ⟨attempts, result, after, runs, refreshed⟩ := perform_yields context (.regrade id) tables
  have ended : answer context none (.regrade id) tables = (result, after) := answer_eq runs none
  rw [ended]
  cases refreshed with
  | wide wide => cases fits.symm.trans wide
  | missing absent => cases found.symm.trans absent
  | unfinished foundToo unfinished =>
    cases found.symm.trans foundToo
    simp [Submission.isFinished, finishedAt] at unfinished
  | failed _ _ regraded =>
    rw [← regraded.returns_iff held sound fitting found finishedAt placed]
    exact iff_of_false (by simp) (by simp)
  | answered _ _ regraded =>
    rw [← regraded.returns_iff held sound fitting found finishedAt placed]
    exact iff_of_true ⟨_, rfl⟩ ⟨_, rfl⟩

theorem answer_finish_returns_iff (held : Held tables) (sound : Sound tables) (fitting : Fitting tables)
    (found : tables.submission? id = some row) (unfinished : row.finishedAt = none)
    (placed : tables.assignment? row.assignment = some assignment) (context : Context) (form : FinishForm) :
    (∃ view, (answer context none (.finish id form) tables).1 = .ok (.submission view)) ↔
      assignment.policy.Judges context.calendar context.now := by
  obtain rfl := Table.find?_key found
  have judged {middle after : Tables} {attempts : List Tables} {result : Except Failure Int}
      (saved : tables.putSubmission (handedIn context form row) = .ok middle)
      (regraded : Evaluation.Regraded row.id context.calendar middle attempts result after) :
      (∃ penalty, result = .ok penalty) ↔ assignment.policy.Judges context.calendar context.now := by
    have soundMiddle : Sound middle := sound.putSubmission saved ⟨_, placed⟩ fun old finished present finishedAt => by
      cases found.symm.trans present
      cases unfinished.symm.trans finishedAt
    have placedMiddle : middle.assignment? row.assignment = some assignment := by
      rw [Tables.assignment?, (Tables.putSubmission_keeps saved).1]
      exact placed
    have stored : middle.submission? row.id = some (handedIn context form row).stored := (Tables.putSubmission_found saved).2
    exact regraded.returns_iff (held.putSubmission saved) soundMiddle (fitting.putSubmission saved) stored rfl placedMiddle
  obtain ⟨attempts, result, after, runs, finished⟩ := perform_yields context (.finish row.id form) tables
  have ended : answer context none (.finish row.id form) tables = (result, after) := answer_eq runs none
  rw [ended]
  cases finished with
  | wide wide => cases (fitting.submission_numbers found).1.symm.trans wide
  | missing absent => cases found.symm.trans absent
  | already foundToo finished =>
    cases found.symm.trans foundToo
    simp [Submission.isFinished, unfinished] at finished
  | unsaved foundToo _ refused =>
    cases found.symm.trans foundToo
    have fits := fitting.submission found
    obtain ⟨_, saved⟩ : ∃ after, tables.putSubmission (handedIn context form row) = .ok after := held.puts found fits rfl
    cases saved.symm.trans refused
  | failed foundToo _ saved regraded =>
    cases found.symm.trans foundToo
    rw [← judged saved regraded]
    exact iff_of_false (by simp) (by simp)
  | answered foundToo _ saved regraded =>
    cases found.symm.trans foundToo
    rw [← judged saved regraded]
    exact iff_of_true ⟨_, rfl⟩ ⟨_, rfl⟩

end Service

namespace History

/-- Of every stored policy: when it is overdue, whether a finish is late, what is told of it and an evaluation by it return
for all instants exactly if its minute of grace lies within the years, and so does the answer with its assignment. Its
terms charge a finish exactly if nothing is taken off, or besides the last penalty day of a late finish lies within the
years. A finish and a regrade of a submission of the assignment are answered with it exactly if both hold. -/
theorem policy_answered_iff (history : List Event) {row : Assignment} (member : row ∈ (History.tables history).assignments) :
    (∀ instant utc, instant.utc = .ok utc →
      ((∃ limit, row.policy.effectiveDue = .ok limit) ↔ ¬row.policy.Overruns) ∧
      ((∃ late, row.policy.isLate instant = .ok late) ↔ ¬row.policy.Overruns) ∧
      ((∃ notes, Notes.describe row.policy instant = .ok notes) ↔ ¬row.policy.Overruns) ∧
      (∀ id tables, fitsWord id = true →
        ((∃ action, (perform (Evaluation.evaluate id instant row.policy) none { stored := tables }).1 = .ok action) ↔
          ¬row.policy.Overruns)) ∧
      ∀ due, row.policy.dueAt = some due → ∃ terms, row.policy.terms = .ok terms ∧ ∀ calendar,
        ((∃ charge, Penalty.percentage terms instant calendar = .ok charge) ↔
          row.policy.applied = false ∨ due.reading.micros + graceMicros < readingEnd ∧
            (due.reading.micros + graceMicros ≤ utc.micros → Penalty.Ends calendar due.reading utc))) ∧
    (∀ context, (∃ view, (Service.answer context none (.read row.id) (History.tables history)).1 = .ok (.assignment view)) ↔
      ¬row.policy.Overruns) ∧
    ∀ submission ∈ (History.tables history).submissions, submission.assignment = row.id → ∀ context,
      (submission.finishedAt = none → ∀ form,
        ((∃ view, (Service.answer context none (.finish submission.id form) (History.tables history)).1 =
          .ok (.submission view)) ↔ row.policy.Judges context.calendar context.now)) ∧
      ∀ finished, submission.finishedAt = some finished →
        ((∃ view, (Service.answer context none (.regrade submission.id) (History.tables history)).1 =
          .ok (.submission view)) ↔ row.policy.Judges context.calendar finished.reading) := by
  have sound := sound history
  have fitting := fitting history
  have held := held history
  have found : (History.tables history).assignment? row.id = some row := Table.find?_of_mem sound.assignments member
  have kept := sound.assignment found
  obtain ⟨read, stands⟩ := Assignment.due?_of_stored kept
  have fits := Bool.and_eq_true_iff.mp (fitting.assignment found)
  refine ⟨fun instant utc converted => ?_, fun context => ?_, fun submission inside own context => ?_⟩
  · refine ⟨Policy.effectiveDue_returns_iff stands, Policy.isLate_returns_iff stands converted,
      Notes.describe_returns_iff stands converted, fun id tables fitsId => ?_, fun due dueAt => ?_⟩
    · exact Evaluation.evaluate_returns_iff stands fits.2 converted fitsId tables
    · have dueUtc := Assignment.dueAt_of_stored kept dueAt
      exact ⟨_, Policy.terms_of_due dueAt dueUtc, fun calendar =>
        Penalty.percentage_returns_iff (Timestamp.utc_ofUtc due.reading) converted⟩
  · exact Service.answer_read_returns_iff found fits.1 stands context none
  · have present := Table.find?_of_mem sound.submissions inside
    rw [← own] at found
    refine ⟨fun unfinished form => ?_, fun finished finishedAt => ?_⟩
    · exact Service.answer_finish_returns_iff held sound fitting present unfinished found context form
    · exact Service.answer_regrade_returns_iff held sound fitting present finishedAt found context

/-- An attempt is open a month before the end of the years. -/
def lastMonth : List Event := [
  .plain 63840000000000000 .post ["assignments", "1", "submissions"] [("student_id", .int 7)],
  .plain 63830000000000000 .post ["assignments"]
    [("title", .str "Essay"), ("due_at", .str "9999-12-01T00:00:00Z")]]

theorem policy_answered_iff_lastMonth : ∃ view, (Service.answer ⟨⟨315536904000000000, by decide⟩, [], .utc⟩ none (.finish 1 ⟨none⟩)
    (History.tables lastMonth)).1 = .ok (.submission view) := by
  obtain ⟨row, member, numbered, active⟩ : ∃ row ∈ (History.tables lastMonth).assignments, row.id = 1 ∧
      row.policy.due? = .ok (some ⟨315535219200000000, by decide⟩) := by decide +kernel
  obtain ⟨submission, inside, own, numberedToo, unfinished⟩ : ∃ submission ∈ (History.tables lastMonth).submissions,
      submission.assignment = 1 ∧ submission.id = 1 ∧ submission.finishedAt = none := by decide +kernel
  obtain ⟨_, _, submissions⟩ := policy_answered_iff lastMonth member
  have finishes := (submissions submission inside (own.trans numbered.symm)
    ⟨⟨315536904000000000, by decide⟩, [], .utc⟩).1 unfinished ⟨none⟩
  rw [numberedToo] at finishes
  refine finishes.mpr (Policy.judges_of_before ?_ (by decide) _)
  rintro ⟨due, stands, beyond⟩
  cases active.symm.trans stands
  exact absurd beyond (by decide)

/-- The due instant is in the last minute of the years. -/
def lastMinute : Event := .plain 63830000000000000 .post ["assignments"]
  [("title", .str "Essay"), ("due_at", .str "9999-12-31T23:59:30Z")]

def looked : Event := .plain 63830000000000000 .get ["assignments", "1"] []

/-- The due instant is two days before the end of the years, and an attempt is open. -/
def lastDays : List Event := [
  .plain 63840000000000000 .post ["assignments", "1", "submissions"] [("student_id", .int 7)],
  .plain 63830000000000000 .post ["assignments"]
    [("title", .str "Essay"), ("due_at", .str "9999-12-30T00:00:00Z")]]

def lastFinish : Event := .plain 315537854400000000 .post ["submissions", "1", "finish"] []

/-- An assignment that is stored cannot be read back, and a submission that is stored cannot be finished. -/
theorem rules_overrun :
    (∃ row ∈ (History.tables [lastMinute]).assignments, row.policy.effectiveDue = .error .outOfRange ∧
      row.policy.isLate (.ofUtc looked.context.now) = .error .outOfRange ∧
      Notes.describe row.policy (.ofUtc looked.context.now) = .error .outOfRange) ∧
    looked.request.call = .ok (.ok (.read 1)) ∧ answer looked [lastMinute] = .error .outOfRange ∧
    lastFinish.request.call = .ok (.ok (.finish 1 ⟨none⟩)) ∧ answer lastFinish lastDays = .error .outOfRange := by
  decide +kernel

end History
end Overdue
