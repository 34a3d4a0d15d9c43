import Overdue.Proofs.Announcement
import Overdue.Proofs.Extension
import Overdue.Proofs.Pending

/-! One lateness. The finish is compared with the due instant in several places, here by adding the grace to the one and there
by taking it from the other; all of them come to one comparison of two instants, in which it does not matter how either is
written. -/
namespace Overdue

open Failure Work

namespace Timestamp

variable {a b : Timestamp} {utc : Reading}

theorem utc_eq_ok : a.utc = .ok utc ↔ a.instant = utc.micros := by
  refine ⟨instant_of_utc, fun same => ?_⟩
  obtain ⟨reading, offset⟩ := a
  cases offset with
  | none =>
    have equal : reading = utc := by
      cases reading
      cases utc
      simpa [instant] using same
    rw [equal]
    rfl
  | some offset =>
    have moved : (utc.micros : Int) = reading.micros + -offset.micros := same.symm
    exact Reading.shift_eq_ok.mpr moved

/-- How an instant is written does not change its reading on the clock of UTC, also where that clock has none. -/
theorem utc_congr (same : a.instant = b.instant) : a.utc = b.utc := by
  cases converted : a.utc with
  | ok utc => rw [utc_eq_ok.mpr (same.symm.trans (instant_of_utc converted))]
  | error failure =>
    cases convertedToo : b.utc with
    | ok utc =>
      rw [utc_eq_ok.mpr (same.trans (instant_of_utc convertedToo))] at converted
      cases converted
    | error failureToo => rw [utc_only a failure converted, utc_only b failureToo convertedToo]

/-- A finish at or after the due instant and its minute of grace. -/
def PassedBy (dueAt finished : Timestamp) : Prop := dueAt.instant + graceMicros ≤ finished.instant

theorem passedBy_iff {dueAt finished : Timestamp} {due done : Reading} (dueUtc : dueAt.utc = .ok due)
    (doneUtc : finished.utc = .ok done) : dueAt.PassedBy finished ↔ due.micros + graceMicros ≤ done.micros := by
  rw [PassedBy, instant_of_utc dueUtc, instant_of_utc doneUtc]
  omega

theorem passedBy_limit {dueAt finished : Timestamp} {due done limit : Reading} (dueUtc : dueAt.utc = .ok due)
    (doneUtc : finished.utc = .ok done) (shifted : due.shift graceMicros = .ok limit) :
    limit.le done = true ↔ dueAt.PassedBy finished := by
  have micros := Reading.shift_eq_ok.mp shifted
  rw [passedBy_iff dueUtc doneUtc, Reading.le, decide_eq_true_eq]
  omega

end Timestamp

variable {policy : Policy} {dueAt dueAtToo finished finishedToo : Timestamp}

namespace Policy

theorem due?_of_placed (active : policy.active = .ok true) (placed : policy.dueAt = some dueAt) :
    ∃ due, dueAt.utc = .ok due ∧ policy.due? = .ok (some due) := by
  obtain ⟨due, stands⟩ := due?_of_active active
  obtain ⟨_, placedToo, dueUtc, _⟩ := dueAt_of_due stands
  cases placed.symm.trans placedToo
  exact ⟨due, dueUtc, stands⟩

theorem isLate_passed (active : policy.active = .ok true) (placed : policy.dueAt = some dueAt) {late : Bool}
    (decided : policy.isLate finished = .ok late) : late = true ↔ dueAt.PassedBy finished := by
  obtain ⟨due, dueUtc, stands⟩ := due?_of_placed active placed
  rw [isLate, effectiveDue, bind_of_ok stands] at decided
  obtain ⟨_, effective, decided⟩ := bind_eq_ok.mp decided
  obtain ⟨limit, shifted, effective⟩ := bind_eq_ok.mp effective
  cases effective
  obtain ⟨done, doneUtc, decided⟩ := bind_eq_ok.mp decided
  cases decided
  exact Timestamp.passedBy_limit dueUtc doneUtc shifted

end Policy

theorem Notes.describe_passed (active : policy.active = .ok true) (placed : policy.dueAt = some dueAt) {notes : List String}
    (described : describe policy finished = .ok notes) : TellsPast notes ↔ dueAt.PassedBy finished := by
  obtain ⟨due, dueUtc, stands⟩ := Policy.due?_of_placed active placed
  obtain ⟨done, limit, doneUtc, shifted, rfl⟩ := (describe_eq_ok stands).mp described
  rw [tellsPast_iff, Timestamp.passedBy_limit dueUtc doneUtc shifted]

theorem Evaluation.evaluate_passed (active : policy.active = .ok true) (placed : policy.dueAt = some dueAt) {id : Int}
    {fault : Option Nat} {session : Session} {action : Action}
    (returned : (perform (evaluate id finished policy) fault session).1 = .ok action) :
    ((perform (evaluate id finished policy) fault session).2.stored.late? id).isSome ↔ dueAt.PassedBy finished := by
  obtain ⟨after, ends, left⟩ := perform_ends returned
  obtain ⟨late, decided, leaves⟩ := evaluate_ends ends
  rw [left, leaves]
  exact Policy.isLate_passed active placed decided

namespace Penalty

theorem run_eq_ok {run : Run} (ok : Penalty.run dueAt finished = .ok run) :
    ∃ due done, dueAt.utc = .ok due ∧ finished.utc = .ok done ∧
      run = ⟨due, dayCount (done.micros - graceMicros - due.micros)⟩ := by
  obtain ⟨due, dueUtc, ok⟩ := bind_eq_ok.mp ok
  obtain ⟨later, isLater, ok⟩ := bind_eq_ok.mp ok
  obtain ⟨done, doneUtc, _⟩ := bind_eq_ok.mp isLater
  cases ok
  rw [overdue_eq doneUtc isLater]
  exact ⟨due, done, dueUtc, doneUtc, rfl⟩

theorem dayCount_pos_iff {overdue : Int} (near : overdue < readingEnd) : 0 < dayCount overdue ↔ 0 ≤ overdue := by
  constructor
  · intro positive
    by_contra early
    rw [dayCount, if_pos (Int.not_le.mp early)] at positive
    exact Nat.lt_irrefl 0 positive
  · exact fun late => (dayCount_bounds late near).1

theorem run_passed {run : Run} (ok : Penalty.run dueAt finished = .ok run) : 0 < run.count ↔ dueAt.PassedBy finished := by
  obtain ⟨due, done, dueUtc, doneUtc, rfl⟩ := run_eq_ok ok
  have inRange := done.inRange
  rw [dayCount_pos_iff (by omega), Timestamp.passedBy_iff dueUtc doneUtc]
  omega

theorem Run.mem_reached {run : Run} {later : Reading} :
    later ∈ run.reached ↔ ∃ index < run.count, day run.due index = .ok later := by
  simp only [reached, List.mem_filterMap, List.mem_range]
  refine exists_congr fun index => and_congr_right fun _ => ?_
  cases day run.due index <;> simp [Except.toOption]

/-- A run reaches a day exactly if it has one and the first of them lies within the years. -/
theorem Run.reached_ne_nil (run : Run) : run.reached ≠ [] ↔ 0 < run.count ∧ ∃ first, day run.due 0 = .ok first := by
  constructor
  · intro some
    obtain ⟨later, inside⟩ := List.exists_mem_of_ne_nil _ some
    obtain ⟨index, within, shifted⟩ := mem_reached.mp inside
    have bounds := Reading.shift_returns_iff.mp ⟨later, shifted⟩
    have least : (0 + 1) * dayMicros ≤ (index + 1) * dayMicros := Nat.mul_le_mul_right dayMicros (by omega)
    exact ⟨by omega, Reading.shift_returns_iff.mpr (by omega)⟩
  · rintro ⟨positive, first, shifted⟩
    exact List.ne_nil_of_mem (mem_reached.mpr ⟨0, positive, shifted⟩)

theorem days_passed {days : List Reading} (ok : Penalty.days dueAt finished = .ok days) :
    days ≠ [] ↔ dueAt.PassedBy finished := by
  obtain ⟨run, isRun, ok⟩ := bind_eq_ok.mp ok
  rw [← run_passed isRun, ← (days_micros ok).1, List.length_pos_iff]

theorem percentage_passed (placed : policy.dueAt = some dueAt) {terms : Terms} (frozen : policy.terms = .ok terms)
    {calendar : Calendar} {charge : Int} (charged : Penalty.percentage terms finished calendar = .ok charge)
    (costs : charge ≠ 0) : dueAt.PassedBy finished := by
  rw [Policy.terms, placed] at frozen
  obtain ⟨due, dueUtc, rfl⟩ := map_eq_ok.mp frozen
  have instant : (Timestamp.ofUtc due).instant = dueAt.instant := by
    rw [Timestamp.instant_of_utc dueUtc, Timestamp.instant_of_utc (Timestamp.utc_ofUtc due)]
  cases percentageBy_charged charged with
  | unapplied | onTime => exact absurd rfl costs
  | late _ reached =>
    rw [Timestamp.PassedBy, ← instant]
    exact reached

theorem run_congr (due : dueAtToo.utc = dueAt.utc) (done : finishedToo.utc = finished.utc) :
    Penalty.run dueAtToo finishedToo = Penalty.run dueAt finished := by
  simp only [Penalty.run, overdue, due, done]

theorem days_congr (due : dueAtToo.utc = dueAt.utc) (done : finishedToo.utc = finished.utc) :
    Penalty.days dueAtToo finishedToo = Penalty.days dueAt finished := by
  simp only [Penalty.days, run_congr due done]

end Penalty

/-- A policy with its due instant written in another way. -/
def Policy.rewritten (policy : Policy) (dueAt : Timestamp) : Policy := { policy with dueAt := some dueAt }

section Rewritten

variable (placed : policy.dueAt = some dueAt) (due : dueAtToo.utc = dueAt.utc) (done : finishedToo.utc = finished.utc)
include placed due

theorem Policy.active_rewritten : (policy.rewritten dueAtToo).active = policy.active := by
  simp only [active, rewritten, placed, due]

theorem Policy.due?_rewritten : (policy.rewritten dueAtToo).due? = policy.due? := by
  simp only [due?, rewritten, placed, due]

theorem Policy.terms_rewritten : (policy.rewritten dueAtToo).terms = policy.terms := by
  simp only [terms, rewritten, placed, due]

include done

theorem Policy.isLate_rewritten : (policy.rewritten dueAtToo).isLate finishedToo = policy.isLate finished := by
  simp only [isLate, effectiveDue, due?_rewritten placed due, done]

theorem Notes.describe_rewritten : describe (policy.rewritten dueAtToo) finishedToo = describe policy finished := by
  simp only [describe, Policy.due?_rewritten placed due, done]
  rfl

theorem Evaluation.evaluate_rewritten (id : Int) :
    evaluate id finishedToo (policy.rewritten dueAtToo) = evaluate id finished policy := by
  simp only [evaluate, Policy.isLate_rewritten placed due done, Policy.terms_rewritten placed due, done]

end Rewritten

namespace Policy

/-- By an active policy it is one question whether a finish is late, whether it has a penalty day, whether the due instant is
told to be past, and whether an evaluation leaves a late record, whatever else the session holds. Nothing is charged where
it is not so, and none of this depends on the offsets that the due instant and the finish are written with. -/
theorem lateness_agrees (active : policy.active = .ok true) (placed : policy.dueAt = some dueAt) (finished : Timestamp) :
    (∀ late, policy.isLate finished = .ok late → (late = true ↔ dueAt.PassedBy finished)) ∧
    (∀ run, Penalty.run dueAt finished = .ok run →
      (run.reached ≠ [] ↔ dueAt.PassedBy finished ∧ ∃ first, Penalty.day run.due 0 = .ok first)) ∧
    (∀ days, Penalty.days dueAt finished = .ok days → (days ≠ [] ↔ dueAt.PassedBy finished)) ∧
    (∀ notes, Notes.describe policy finished = .ok notes → (Notes.TellsPast notes ↔ dueAt.PassedBy finished)) ∧
    (∀ id fault session action, (perform (Evaluation.evaluate id finished policy) fault session).1 = .ok action →
      (((perform (Evaluation.evaluate id finished policy) fault session).2.stored.late? id).isSome ↔
        dueAt.PassedBy finished)) ∧
    (∀ terms calendar charge, policy.terms = .ok terms → Penalty.percentage terms finished calendar = .ok charge →
      charge ≠ 0 → dueAt.PassedBy finished) ∧
    ∀ dueAtToo finishedToo : Timestamp, dueAtToo.instant = dueAt.instant → finishedToo.instant = finished.instant →
      (policy.rewritten dueAtToo).active = .ok true ∧
      (policy.rewritten dueAtToo).isLate finishedToo = policy.isLate finished ∧
      Penalty.run dueAtToo finishedToo = Penalty.run dueAt finished ∧
      Penalty.days dueAtToo finishedToo = Penalty.days dueAt finished ∧
      Notes.describe (policy.rewritten dueAtToo) finishedToo = Notes.describe policy finished ∧
      (∀ id, Evaluation.evaluate id finishedToo (policy.rewritten dueAtToo) = Evaluation.evaluate id finished policy) ∧
      (policy.rewritten dueAtToo).terms = policy.terms ∧
      ∀ terms calendar, Penalty.percentage terms finishedToo calendar = Penalty.percentage terms finished calendar := by
  refine ⟨fun late => isLate_passed active placed, fun run isRun => ?_, fun days => Penalty.days_passed,
    fun notes => Notes.describe_passed active placed, fun id fault session action => Evaluation.evaluate_passed active placed,
    fun terms calendar charge frozen => Penalty.percentage_passed placed frozen, fun dueAtToo finishedToo same sameToo => ?_⟩
  · rw [run.reached_ne_nil, Penalty.run_passed isRun]
  · have due := Timestamp.utc_congr same
    have done := Timestamp.utc_congr sameToo
    exact ⟨(active_rewritten placed due).trans active, isLate_rewritten placed due done, Penalty.run_congr due done,
      Penalty.days_congr due done, Notes.describe_rewritten placed due done, Evaluation.evaluate_rewritten placed due done,
      terms_rewritten placed due, fun terms => Penalty.percentage_congr rfl rfl rfl rfl done⟩

/-- Due at midnight of UTC by clocks two hours ahead, and finished when the minute of grace is over. -/
def midnightPolicy : Policy := ⟨some (Assessment.twoHoursAhead 63844855200000000), true, 5, 50, true⟩

def graceEnd : Timestamp := ⟨63844848060000000, none⟩

/-- The finish of submission 1 is still pending. -/
def unsaved : Session :=
  { stored := {}, pending := [.submission ⟨1, 1, 7, 1, none, ⟨63844800000000000, none⟩, some graceEnd, none, 0, none, none, none⟩] }

theorem lateness_agrees_graceEnd :
    (∃ notes, Notes.describe midnightPolicy graceEnd = .ok notes ∧ Notes.TellsPast notes) ∧
    ((perform (Evaluation.evaluate 1 graceEnd midnightPolicy) none unsaved).2.stored.late? 1).isSome ∧
    (midnightPolicy.rewritten (.ofUtc 63844848000000000)).isLate (Assessment.twoHoursAhead 63844855260000000) = .ok true := by
  have placed : midnightPolicy.dueAt = some (Assessment.twoHoursAhead 63844855200000000) := rfl
  have stands : midnightPolicy.due? = .ok (some 63844848000000000) := rfl
  have late : midnightPolicy.isLate graceEnd = .ok true := by decide +kernel
  have graced : Reading.shift 63844848000000000 graceMicros = .ok 63844848060000000 := rfl
  have described := (Notes.describe_eq_ok stands).mpr ⟨_, _, (rfl : graceEnd.utc = _), graced, rfl⟩
  have returned : (perform (Evaluation.evaluate 1 graceEnd midnightPolicy) none unsaved).1 = .ok .create := rfl
  obtain ⟨isLate, _, _, describes, evaluates, _, rewrites⟩ := lateness_agrees rfl placed graceEnd
  have passed := (isLate true late).mp rfl
  refine ⟨⟨_, described, (describes _ described).mpr passed⟩, (evaluates _ _ _ _ returned).mpr passed, ?_⟩
  obtain ⟨_, same, _⟩ := rewrites (.ofUtc 63844848000000000) (Assessment.twoHoursAhead 63844855260000000) (by decide) (by decide)
  exact same.trans late

end Policy
end Overdue
