import Overdue.Proofs.Attempts

/-! The gate before a new attempt, on a clock that does not go back. No attempt is started after the minute of grace by a
student who finished one before the due instant, and a student who was turned away is turned away from then on. -/
namespace Overdue

open Failure Work

variable {tables after : Tables} {context : Context} {call : Call} {now later due : Reading} {assignment student : Int}
  {attempts : List Submission} {policy : Policy} {row : Assignment}

/-- The attempt was finished before an instant. -/
def Submission.FinishedBefore (due : Reading) (row : Submission) : Prop :=
  ∃ finished, row.finishedAt = some finished ∧ finished.reading.micros < due.micros

namespace Submission.Continues

variable {old row : Submission}

theorem finishedBefore (continues : old.Continues now row) (before : old.FinishedBefore due) : row.FinishedBefore due := by
  obtain ⟨finished, finishedAt, early⟩ := before
  rcases continues.finishedAt with same | ⟨unfinished, _⟩
  · exact ⟨finished, same.trans finishedAt, early⟩
  · cases unfinished.symm.trans finishedAt

theorem finishedBefore_or (continues : old.Continues now row) (before : row.FinishedBefore due) :
    old.FinishedBefore due ∨ now.micros < due.micros := by
  obtain ⟨finished, finishedAt, early⟩ := before
  rcases continues.finishedAt with same | ⟨_, handedIn⟩
  · exact .inl ⟨finished, same.symm.trans finishedAt, early⟩
  · cases handedIn.symm.trans finishedAt
    exact .inr early

end Submission.Continues

namespace Service

theorem barrier?_eq_some : barrier? policy now = .ok (some due) ↔
    policy.preventResubmission = true ∧ policy.due? = .ok (some due) ∧ due.micros + graceMicros ≤ now.micros := by
  unfold barrier?
  cases policy.preventResubmission with
  | false => exact iff_of_false nofun nofun
  | true =>
    simp only [Bool.not_true, Bool.false_eq_true, if_false, bind_eq_ok, true_and]
    constructor
    · rintro ⟨read, decided, rest⟩
      cases read with
      | none => cases rest
      | some instant =>
        obtain ⟨limit, shifted, rest⟩ := bind_eq_ok.mp rest
        rw [Reading.shift_eq_ok] at shifted
        split at rest
        next past =>
          cases rest
          simp only [Reading.le, decide_eq_true_eq] at past
          exact ⟨decided, by omega⟩
        next => cases rest
    · rintro ⟨decided, past⟩
      have inRange := now.inRange
      obtain ⟨limit, shifted⟩ := due.shift_grace_iff.mpr (by omega)
      have micros := Reading.shift_eq_ok.mp shifted
      have reached : limit.le now = true := by
        simp only [Reading.le, decide_eq_true_eq]
        omega
      exact ⟨some due, decided, bind_eq_ok.mpr ⟨limit, shifted, by rw [if_pos reached]; rfl⟩⟩

theorem submittedBefore_eq_true (kept : ∀ row ∈ attempts, row.stored = row) :
    submittedBefore (some due) attempts = .ok true ↔
      (∀ row ∈ attempts, row.isFinished = true) ∧ ∃ row ∈ attempts, row.FinishedBefore due := by
  rw [← unfinished?_eq_none]
  cases found : unfinished? attempts with
  | some attempt => simp [submittedBefore_open found]
  | none =>
    rw [submittedBefore_some found kept, Except.ok.injEq, List.any_eq_true]
    simp [Submission.FinishedBefore, Reading.lt, Option.any_eq_true]

/-- An admitted student with no open attempt finished none before the barrier. -/
theorem Admitted.not_finishedBefore {form : StartForm} (admitted : Admitted context assignment form tables)
    (sound : Sound tables) (found : tables.assignment? assignment = some row)
    (barred : barrier? row.policy context.now = .ok (some due))
    (allFinished : ∀ row ∈ attemptsOf assignment form.student tables, row.isFinished = true) :
    ∀ row ∈ attemptsOf assignment form.student tables, ¬row.FinishedBefore due := by
  intro attempt member before
  obtain ⟨row, barrier, foundToo, _, limit, submitted⟩ := admitted
  cases found.symm.trans foundToo
  cases barred.symm.trans limit
  have kept := attemptsOf_kept sound assignment form.student
  cases ((submittedBefore_eq_true kept).mpr ⟨allFinished, attempt, member, before⟩).symm.trans submitted

end Service

/-- No attempt was started after a time. -/
def StartedBy (now : Reading) (tables : Tables) : Prop := ∀ row ∈ tables.submissions, row.startedAt.reading.micros ≤ now.micros

theorem StartedBy.mono (started : StartedBy now tables) (forward : now.micros ≤ later.micros) : StartedBy later tables :=
  fun row member => (started row member).trans forward

theorem Commit.startedBy (commit : Commit context call tables after) (sound : Sound tables)
    (started : StartedBy context.now tables) : StartedBy context.now after := by
  intro row member
  rcases commit.submissions_eq sound with ⟨f, each, same⟩ | ⟨id, form, _, _, _, same⟩
  · rw [same] at member
    obtain ⟨old, inside, rfl⟩ := List.mem_map.mp member
    rw [(each old inside).startedAt]
    exact started old inside
  · rw [same, List.mem_append, List.mem_singleton] at member
    rcases member with inside | rfl
    · exact started row inside
    · exact Nat.le_refl _

/-- No attempt of a student is started after the grace beside one that was finished before the due instant. -/
def Gated (due : Reading) (attempts : List Submission) : Prop :=
  ∀ early ∈ attempts, ∀ late ∈ attempts, early.FinishedBefore due → late.startedAt.reading.micros < due.micros + graceMicros

theorem Commit.gated (commit : Commit context call tables after) (sound : Sound tables)
    (started : StartedBy context.now tables) (found : tables.assignment? assignment = some row)
    (prevents : row.policy.preventResubmission = true) (active : row.policy.due? = .ok (some due))
    (gated : Gated due (Service.attemptsOf assignment student tables)) :
    Gated due (Service.attemptsOf assignment student after) := by
  rcases commit.submissions_eq sound with ⟨f, each, same⟩ | ⟨id, form, _, admitted, allFinished, same⟩
  · rw [Service.attemptsOf_map each same]
    intro early memberEarly late memberLate before
    obtain ⟨early, insideEarly, rfl⟩ := List.mem_map.mp memberEarly
    obtain ⟨late, insideLate, rfl⟩ := List.mem_map.mp memberLate
    have storedEarly := (Service.mem_attemptsOf_iff.mp insideEarly).1
    have storedLate := (Service.mem_attemptsOf_iff.mp insideLate).1
    rw [(each late storedLate).startedAt]
    rcases (each early storedEarly).finishedBefore_or before with old | soon
    · exact gated early insideEarly late insideLate old
    · -- what is finished now is finished before the due instant, and no attempt was started later than now
      have := started late storedLate
      omega
  · rw [Service.attemptsOf_append same]
    split
    next own =>
      obtain ⟨rfl, rfl⟩ := own
      intro early memberEarly late memberLate before
      simp only [List.mem_append, List.mem_singleton] at memberEarly memberLate
      rcases memberEarly with insideEarly | rfl
      · rcases memberLate with insideLate | rfl
        · exact gated early insideEarly late insideLate before
        · by_contra beyond
          have barred := Service.barrier?_eq_some.mpr ⟨prevents, active, Nat.not_lt.mp beyond⟩
          have none := admitted.not_finishedBefore sound found barred (Service.unfinished?_eq_none.mp allFinished)
          exact none early insideEarly before
      · obtain ⟨_, finishedAt, _⟩ := before
        cases finishedAt
    next =>
      rw [List.append_nil]
      exact gated

/-- What turns a student away, and keeps doing so: the assignment is closed, or one attempt was finished before the due
instant, the grace is over and no attempt is open. -/
inductive Barred (now : Reading) (assignment student : Int) (tables : Tables) : Prop
  | closed {row : Assignment} {limit : Timestamp} (found : tables.assignment? assignment = some row)
    (closeAt : row.closeAt = some limit) (past : limit.reading.micros < now.micros) : Barred now assignment student tables
  | submitted {row : Assignment} {due : Reading} (found : tables.assignment? assignment = some row)
    (prevents : row.policy.preventResubmission = true) (active : row.policy.due? = .ok (some due))
    (past : due.micros + graceMicros ≤ now.micros)
    (allFinished : ∀ attempt ∈ Service.attemptsOf assignment student tables, attempt.isFinished = true)
    (before : ∃ attempt ∈ Service.attemptsOf assignment student tables, attempt.FinishedBefore due) :
    Barred now assignment student tables

theorem Barred.mono (barred : Barred now assignment student tables) (forward : now.micros ≤ later.micros) :
    Barred later assignment student tables := by
  cases barred with
  | closed found closeAt past => exact .closed found closeAt (past.trans_le forward)
  | submitted found prevents active past allFinished before =>
    exact .submitted found prevents active (past.trans forward) allFinished before

theorem Barred.found (barred : Barred now assignment student tables) : ∃ row, tables.assignment? assignment = some row := by
  cases barred with
  | closed found | submitted found => exact ⟨_, found⟩

theorem Barred.of_unclosed (barred : Barred now assignment student tables) (sound : Sound tables)
    (found : tables.assignment? assignment = some row) (unclosed : Service.isClosed row now = .ok false) :
    ∃ due, Service.barrier? row.policy now = .ok (some due) ∧
      (∀ attempt ∈ Service.attemptsOf assignment student tables, attempt.isFinished = true) ∧
      ∃ attempt ∈ Service.attemptsOf assignment student tables, attempt.FinishedBefore due := by
  cases barred with
  | @closed _ limit foundToo closeAt past =>
    cases found.symm.trans foundToo
    rw [Assignment.isClosed_of_stored (sound.assignment found), closeAt, Except.ok.injEq] at unclosed
    exact absurd past (of_decide_eq_false unclosed)
  | submitted foundToo prevents active past allFinished before =>
    cases found.symm.trans foundToo
    exact ⟨_, Service.barrier?_eq_some.mpr ⟨prevents, active, past⟩, allFinished, before⟩

theorem Commit.barred (commit : Commit context call tables after) (sound : Sound tables)
    (unpatched : ∀ change, call ≠ .changePolicy assignment change)
    (barred : Barred context.now assignment student tables) : Barred context.now assignment student after := by
  have kept {row : Assignment} (found : tables.assignment? assignment = some row) : after.assignment? assignment = some row := by
    rcases commit.assignment_eq assignment with same | ⟨absent, _⟩ | ⟨change, _, _, asked, _⟩
    · exact same.trans found
    · cases found.symm.trans absent
    · exact absurd asked (unpatched change)
  cases barred with
  | closed found closeAt past => exact .closed (kept found) closeAt past
  | submitted found prevents active past allFinished before =>
    obtain ⟨first, member, early⟩ := before
    rcases commit.submissions_eq sound with ⟨f, each, same⟩ | ⟨id, form, _, admitted, _, same⟩
    · have attempts := Service.attemptsOf_map each same assignment student
      refine .submitted (kept found) prevents active past (fun row inside => ?_) ⟨f first, ?_, ?_⟩
      · rw [attempts] at inside
        obtain ⟨old, insideOld, rfl⟩ := List.mem_map.mp inside
        exact (each old (Service.mem_attemptsOf_iff.mp insideOld).1).isFinished (allFinished old insideOld)
      · rw [attempts]
        exact List.mem_map_of_mem member
      · exact (each first (Service.mem_attemptsOf_iff.mp member).1).finishedBefore early
    · have attempts := Service.attemptsOf_append same assignment student
      split at attempts
      next own =>
        obtain ⟨rfl, rfl⟩ := own
        have limit := Service.barrier?_eq_some.mpr ⟨prevents, active, past⟩
        exact absurd early (admitted.not_finishedBefore sound found limit allFinished first member)
      next =>
        rw [List.append_nil] at attempts
        rw [← attempts] at allFinished member
        exact .submitted (kept found) prevents active past allFinished ⟨first, member, early⟩

namespace Service

variable {form : StartForm} {result : Except Failure Reply} {commits : List Tables} {reason : Refusal}

theorem Started.bars (started : Started context assignment form tables commits (.ok (.refused reason)) after)
    (sound : Sound tables) (status : reason.status = 403) : Barred context.now assignment form.student tables := by
  generalize replied : Except.ok (Reply.refused reason) = result at started
  cases started with
  | missing =>
    cases replied
    cases status
  | @closed row found closed =>
    rw [Assignment.isClosed_of_stored (sound.assignment found), Except.ok.injEq, Option.any_eq_true] at closed
    obtain ⟨limit, closeAt, past⟩ := closed
    exact .closed found closeAt (of_decide_eq_true past)
  | @barred row barrier found unclosed limit submitted =>
    cases barrier with
    | none => cases submitted
    | some due =>
      obtain ⟨prevents, active, past⟩ := barrier?_eq_some.mp limit
      obtain ⟨allFinished, before⟩ := (submittedBefore_eq_true (attemptsOf_kept sound _ _)).mp submitted
      exact .submitted found prevents active past allFinished before
  | reopened =>
    obtain ⟨_, _, impossible⟩ := map_eq_ok.mp replied.symm
    cases impossible
  | wide | undecided | unsaved | saved => cases replied

theorem Started.refused (started : Started context assignment form tables commits result after) (sound : Sound tables)
    (fitting : Fitting tables) (barred : Barred context.now assignment form.student tables) :
    ∃ reason : Refusal, result = .ok (.refused reason) ∧ reason.status = 403 ∧ commits = [] := by
  have notAdmitted (admitted : Admitted context assignment form tables) : False := by
    have ⟨row, _, found, unclosed, _⟩ := admitted
    obtain ⟨due, limit, allFinished, first, member, early⟩ := barred.of_unclosed sound found unclosed
    exact admitted.not_finishedBefore sound found limit allFinished first member early
  cases started with
  | wide wide =>
    rcases wide with wide | ⟨row, found, unclosed, wide⟩
    · obtain ⟨row, found⟩ := barred.found
      cases (fitting.assignment_number found).symm.trans wide
    · obtain ⟨_, _, _, first, member, _⟩ := barred.of_unclosed sound found unclosed
      obtain ⟨stored, _, same⟩ := mem_attemptsOf_iff.mp member
      have fits := (fitting.submission_numbers (Table.find?_of_mem sound.submissions stored)).2.2
      rw [same] at fits
      cases fits.symm.trans wide
  | missing absent =>
    obtain ⟨row, found⟩ := barred.found
    cases found.symm.trans absent
  | undecided found failed =>
    obtain ⟨unclosed, overruns, _⟩ := start_undecided sound found failed
    obtain ⟨due, limit, _⟩ := barred.of_unclosed sound found unclosed
    obtain ⟨_, read⟩ := Assignment.due?_of_stored (sound.assignment found)
    exact absurd overruns ((barrier?_returns_iff read _).mp ⟨_, limit⟩)
  | closed => exact ⟨.closed, rfl, rfl, rfl⟩
  | barred => exact ⟨.submittedBefore, rfl, rfl, rfl⟩
  | reopened admitted | unsaved admitted | saved admitted => exact (notAdmitted admitted).elim

end Service

namespace History

/-- The clock of the requests does not go back. -/
def Steady (history : List Event) : Prop :=
  history.Pairwise fun later earlier => earlier.context.now.micros ≤ later.context.now.micros

instance (history : List Event) : Decidable (Steady history) := inferInstanceAs (Decidable (history.Pairwise _))

/-- Whether a request is to change the policy of an assignment. -/
def patches (assignment : Int) (event : Event) : Bool :=
  match event.request.call with
  | .ok (.ok (.changePolicy id _)) => id = assignment
  | _ => false

def Unpatched (assignment : Int) (history : List Event) : Prop := ∀ event ∈ history, patches assignment event = false

instance (assignment : Int) (history : List Event) : Decidable (Unpatched assignment history) :=
  inferInstanceAs (Decidable (∀ event ∈ history, _))

theorem Unpatched.subset {part history : List Event} (unpatched : Unpatched assignment history) (within : part ⊆ history) :
    Unpatched assignment part := fun event inside => unpatched event (within inside)

theorem Unpatched.call_ne {event : Event} {history : List Event} (unpatched : Unpatched assignment history)
    (inside : event ∈ history) (asked : event.request.call = .ok (.ok call)) (change : PolicyChange) :
    call ≠ .changePolicy assignment change := by
  rintro rfl
  have quiet := unpatched event inside
  simp [patches, asked] at quiet

theorem startedBy {event : Event} {earlier : List Event} (steady : Steady (event :: earlier)) :
    StartedBy event.context.now (History.tables earlier) := by
  induction earlier generalizing event with
  | nil => exact fun row member => by cases member
  | cons last earlier ih =>
    obtain ⟨forward, before⟩ := List.pairwise_cons.mp steady
    have started : StartedBy last.context.now (History.tables (last :: earlier)) :=
      carried_sound _ (ih before) fun _ commit sound kept => commit.startedBy sound kept
    exact started.mono (forward last List.mem_cons_self)

theorem gated {history : List Event} (steady : Steady history) (unpatched : Unpatched assignment history)
    (found : (History.tables history).assignment? assignment = some row) (prevents : row.policy.preventResubmission = true)
    (active : row.policy.due? = .ok (some due)) (student : Int) :
    Gated due (Service.attemptsOf assignment student (History.tables history)) := by
  induction history with
  | nil => cases found
  | cons event earlier ih =>
    have before := ih (List.pairwise_cons.mp steady).2 (unpatched.subset (List.subset_cons_self event earlier))
    have both := carried_sound (fun reached => StartedBy event.context.now reached ∧
        (reached.assignment? assignment = some row → Gated due (Service.attemptsOf assignment student reached)))
      ⟨startedBy steady, before⟩ fun asked commit sound ⟨started, kept⟩ => by
        refine ⟨commit.startedBy sound started, fun found => ?_⟩
        rcases commit.assignment_eq assignment with same | ⟨absent, same⟩ | ⟨change, _, _, patched, _⟩
        · rw [same] at found
          exact commit.gated sound started found prevents active (kept found)
        · -- an assignment that is added has no attempts yet
          intro early member
          obtain ⟨stored, own, _⟩ := Service.mem_attemptsOf_iff.mp member
          rw [same] at stored
          obtain ⟨_, placed⟩ := sound.placed (Table.find?_of_mem sound.submissions stored)
          rw [own] at placed
          cases absent.symm.trans placed
        · exact absurd patched (unpatched.call_ne List.mem_cons_self asked change)
    exact both.2 found

theorem barred_next {event : Event} {earlier : List Event} (unpatched : Unpatched assignment [event])
    (barred : Barred event.context.now assignment student (History.tables earlier)) :
    Barred event.context.now assignment student (History.tables (event :: earlier)) :=
  carried_sound _ barred fun asked commit sound kept => commit.barred sound (unpatched.call_ne List.mem_cons_self asked) kept

theorem barred_later {later earlier : List Event} {refused again : Event}
    (steady : Steady (again :: (later ++ refused :: earlier))) (unpatched : Unpatched assignment (later ++ refused :: earlier))
    (barred : Barred refused.context.now assignment student (History.tables earlier)) :
    Barred again.context.now assignment student (History.tables (later ++ refused :: earlier)) := by
  induction later generalizing again with
  | nil =>
    have own : Unpatched assignment [refused] := unpatched.subset (by simp)
    exact (barred_next own barred).mono ((List.pairwise_cons.mp steady).1 refused (by simp))
  | cons event later ih =>
    obtain ⟨forward, before⟩ := List.pairwise_cons.mp steady
    have own : Unpatched assignment [event] := unpatched.subset (by simp)
    have last := ih before (unpatched.subset (List.subset_cons_self event _))
    exact (barred_next own last).mono (forward event (by simp))

/-- On a clock that does not go back, take an assignment with a due instant that prevents resubmission, and whose policy no
request is to change. No student has an attempt at it that was finished before the due instant and one that was started
after the minute of grace; and a student who was turned away from it once is turned away by every later start. -/
theorem resubmission_gated {history : List Event} (steady : Steady history)
    (member : row ∈ (History.tables history).assignments) (prevents : row.policy.preventResubmission = true)
    (active : row.policy.due? = .ok (some due)) (unpatched : Unpatched row.id history) :
    (∀ early ∈ (History.tables history).submissions, ∀ late ∈ (History.tables history).submissions,
      early.assignment = row.id → late.assignment = row.id → early.student = late.student → early.FinishedBefore due →
        late.startedAt.reading.micros < due.micros + graceMicros) ∧
    ∀ later refused earlier, history = later ++ refused :: earlier → ∀ form reason,
      refused.request.call = .ok (.ok (.start row.id form)) → answer refused earlier = .ok (.refused reason) →
      reason.status = 403 → ∀ again formAgain, again.request.call = .ok (.ok (.start row.id formAgain)) →
      formAgain.student = form.student → Steady (again :: history) →
        ∃ reason, answer again history = .ok (.refused reason) ∧ reason.status = 403 := by
  have found : (History.tables history).assignment? row.id = some row := Table.find?_of_mem (sound history).assignments member
  refine ⟨fun early memberEarly late memberLate own ownToo alike => ?_, ?_⟩
  · have gate := gated steady unpatched found prevents active early.student
    exact gate early (Service.mem_attemptsOf_iff.mpr ⟨memberEarly, own, rfl⟩) late
      (Service.mem_attemptsOf_iff.mpr ⟨memberLate, ownToo, alike.symm⟩)
  · rintro later refused earlier rfl form reason asked replied status again formAgain askedAgain alike steadyAgain
    have barred : Barred refused.context.now row.id form.student (History.tables earlier) := by
      rw [answer, Service.serve_call asked] at replied
      obtain ⟨commits, after, started⟩ := Service.answer_unstruck replied (by simp)
      exact Service.Started.bars started (sound earlier) status
    have barredAgain := barred_later steadyAgain unpatched barred
    rw [← alike] at barredAgain
    obtain ⟨commits, result, after, runs, started⟩ :=
      Service.perform_yields again.context (.start row.id formAgain) (History.tables (later ++ refused :: earlier))
    obtain ⟨reason, rfl, statusAgain, rfl⟩ := Service.Started.refused started (sound _) (fitting _) barredAgain
    refine ⟨reason, ?_, statusAgain⟩
    rw [answer, Service.serve_call askedAgain, Service.answer_unwritten runs]

/-- One student finished an attempt a day before the due instant, another one has finished late. -/
def handedIn : List Event := [
  .plain 63845100000000000 .post ["submissions", "2", "finish"] [],
  .plain 63844850000000000 .post ["submissions", "1", "finish"] [],
  .plain 63840000000000000 .post ["assignments", "1", "submissions"] [("student_id", .int 8)],
  .plain 63840000000000000 .post ["assignments", "1", "submissions"] [("student_id", .int 7)],
  .plain 63830000000000000 .post ["assignments"]
    [("title", .str "Essay"), ("due_at", .str "2024-03-02T00:00:00Z")]]

def turnedAway : Event :=
  .plain 63845200000000000 .post ["assignments", "1", "submissions"] [("student_id", .int 7)]

def startedLater : Event :=
  { Event.plain 63846000000000000 .post ["assignments", "1", "submissions"] [("student_id", .int 7)] with
    faultAfter := some 0 }

theorem resubmission_gated_handedIn :
    (∀ late ∈ (History.tables (turnedAway :: handedIn)).submissions, late.assignment = 1 → late.student = 7 →
      late.startedAt.reading.micros < 63844934460000000) ∧
    ∃ reason, answer startedLater (turnedAway :: handedIn) = .ok (.refused reason) ∧ reason.status = 403 := by
  have steady : Steady (startedLater :: turnedAway :: handedIn) := by decide +kernel
  obtain ⟨row, member, numbered, prevents, active⟩ : ∃ row ∈ (History.tables (turnedAway :: handedIn)).assignments, row.id = 1 ∧
      row.policy.preventResubmission = true ∧ row.policy.due? = .ok (some ⟨63844934400000000, by decide⟩) := by
    decide +kernel
  have unpatched : Unpatched row.id (turnedAway :: handedIn) := by
    rw [numbered]
    decide +kernel
  obtain ⟨apart, refusals⟩ := resubmission_gated (List.pairwise_cons.mp steady).2 member prevents active unpatched
  rw [numbered] at apart refusals
  refine ⟨fun late memberLate own student => ?_, ?_⟩
  · obtain ⟨early, memberEarly, ownEarly, studentEarly, before⟩ : ∃ early ∈ (History.tables (turnedAway :: handedIn)).submissions,
        early.assignment = 1 ∧ early.student = 7 ∧
          early.finishedAt = some ⟨⟨63844850000000000, by decide⟩, none⟩ := by decide +kernel
    exact apart early memberEarly late memberLate ownEarly own (studentEarly.trans student.symm) ⟨_, before, by decide⟩
  · have asked : turnedAway.request.call = .ok (.ok (.start 1 ⟨7⟩)) := by decide +kernel
    have replied : answer turnedAway handedIn = .ok (.refused .submittedBefore) := by decide +kernel
    have askedAgain : startedLater.request.call = .ok (.ok (.start 1 ⟨7⟩)) := by decide +kernel
    exact refusals [] _ _ rfl _ _ asked replied rfl startedLater _ askedAgain rfl steady

end History
end Overdue
