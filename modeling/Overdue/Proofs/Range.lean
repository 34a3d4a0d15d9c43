import Overdue.Notes
import Overdue.Proofs.WorkingDays

/-! Where the years end. The rules on a due instant fail exactly if its minute of grace leads out of the years, and the
charge for a finish fails besides exactly if its last penalty day does, by UTC or by the clocks of the calendar. -/
namespace Overdue

open Failure

theorem Reading.shift_returns_iff {reading : Reading} {micros : Int} :
    (∃ moved, reading.shift micros = .ok moved) ↔ 0 ≤ reading.micros + micros ∧ reading.micros + micros < readingEnd := by
  constructor
  · rintro ⟨moved, shifted⟩
    rw [shift_eq_ok] at shifted
    have bound := moved.inRange
    omega
  · rintro ⟨low, high⟩
    exact ⟨⟨(reading.micros + micros).toNat, by omega⟩, shift_eq_ok.mpr (Int.toNat_of_nonneg low)⟩

theorem Reading.shift_grace_iff (due : Reading) :
    (∃ limit, due.shift graceMicros = .ok limit) ↔ due.micros + graceMicros < readingEnd := by
  rw [shift_returns_iff]
  omega

namespace Policy

variable {policy : Policy} {due : Option Reading} {α : Type}

/-- The minute of grace after the due instant leads out of the years. -/
def Overruns (policy : Policy) : Prop :=
  ∃ due, policy.due? = .ok (some due) ∧ readingEnd ≤ due.micros + graceMicros

/-- A rule that reads the due instant and fails only where its grace does. -/
theorem rule_returns_iff {rule : Option Reading → Except Failure α} (read : policy.due? = .ok due)
    (undue : ∃ result, rule none = .ok result)
    (graced : ∀ instant, (∃ result, rule (some instant) = .ok result) ↔ ∃ limit, instant.shift graceMicros = .ok limit) :
    (∃ result, (policy.due? >>= rule) = .ok result) ↔ ¬policy.Overruns := by
  unfold Overruns
  rw [bind_of_ok read, read]
  cases due with
  | none => exact iff_of_true undue (by simp)
  | some instant =>
    rw [graced, instant.shift_grace_iff]
    simp

theorem effectiveDue_returns_iff (read : policy.due? = .ok due) :
    (∃ limit, policy.effectiveDue = .ok limit) ↔ ¬policy.Overruns :=
  rule_returns_iff read ⟨none, rfl⟩ fun _ => bind_returns_iff fun limit => ⟨some limit, rfl⟩

theorem isLate_returns_iff (read : policy.due? = .ok due) {finished : Timestamp} {done : Reading}
    (doneUtc : finished.utc = .ok done) : (∃ late, policy.isLate finished = .ok late) ↔ ¬policy.Overruns := by
  refine (bind_returns_iff fun limit => ?_).trans (effectiveDue_returns_iff read)
  cases limit with
  | none => exact ⟨false, rfl⟩
  | some limit => exact ⟨limit.le done, bind_eq_ok.mpr ⟨done, doneUtc, rfl⟩⟩

end Policy

theorem Notes.describe_returns_iff {policy : Policy} {due : Option Reading} (read : policy.due? = .ok due) {now : Timestamp}
    {utc : Reading} (nowUtc : now.utc = .ok utc) : (∃ notes, describe policy now = .ok notes) ↔ ¬policy.Overruns := by
  refine Policy.rule_returns_iff read ⟨[], rfl⟩ fun instant => ?_
  simp only [bind_of_ok nowUtc]
  exact bind_returns_iff fun limit => ⟨[dueNote instant (limit.le utc), penaltyNote policy], rfl⟩

/-- Clocks are less than a day away from UTC. -/
theorem Zone.seconds_bounds (zone : Zone) (utc : Reading) : -86400 < zone.seconds utc ∧ zone.seconds utc < 86400 := by
  cases zone with
  | utc => simp [seconds]
  | east offset => exact offset.inRange
  | region place =>
    have standard : -43200 ≤ place.standardMinutes * 60 ∧ place.standardMinutes * 60 ≤ 50400 := by cases place <;> decide
    simp only [seconds, Region.seconds]
    split
    · omega
    · split <;> omega

/-- Only the first day of the years may be shown as a day before them. -/
theorem Zone.localDay_nonneg (zone : Zone) {utc : Reading} (later : dayMicros ≤ utc.micros) : 0 ≤ zone.localDay utc := by
  have bounds := zone.seconds_bounds utc
  unfold localDay
  unfold dayMicros secondMicros at *
  omega

/-- Only the last day of the years may be shown as a day after them. -/
theorem Zone.localDay_lt (zone : Zone) {utc : Reading} (earlier : utc.micros + dayMicros ≤ readingEnd) :
    zone.localDay utc < dayEnd := by
  have bounds := zone.seconds_bounds utc
  unfold localDay
  unfold readingEnd dayMicros secondMicros at *
  omega

theorem Calendar.dateAt_returns_iff {calendar : Calendar} {utc : Reading} :
    (∃ date, calendar.dateAt utc = .ok date) ↔ 0 ≤ calendar.zone.localDay utc ∧ calendar.zone.localDay utc < dayEnd := by
  simp only [dateAt_eq_ok]
  constructor
  · rintro ⟨date, same⟩
    have bound := date.inRange
    omega
  · rintro ⟨low, high⟩
    exact ⟨⟨(calendar.zone.localDay utc).toNat, by omega⟩, (Int.toNat_of_nonneg low).symm⟩

namespace Penalty

variable {calendar : Calendar} {due done : Reading}

theorem daysRoundedUp_pos {overdue : Nat} (near : overdue < 2 ^ 53 * dayMicros) (positive : 0 < overdue) :
    0 < daysRoundedUp overdue := by
  have large : dayMicros ≤ unitsPerOne := by
    have small : dayMicros ≤ 2 ^ 37 := by decide
    rw [unitsPerOne_eq]
    exact small.trans (Nat.pow_le_pow_right Nat.two_pos (by omega))
  have whole : 0 < overdue * unitsPerOne / dayMicros :=
    Nat.div_pos (large.trans (Nat.le_mul_of_pos_left unitsPerOne positive)) dayMicros_pos
  rw [daysRoundedUp_units near, lt_ceilUnits_iff, Nat.zero_mul]
  exact Double.significant_pos whole

/-- A finish that is overdue has one penalty day at least, and all of them but the last have passed. -/
theorem dayCount_bounds {overdue : Int} (late : 0 ≤ overdue) (near : overdue < readingEnd) :
    0 < dayCount overdue ∧ (dayCount overdue * dayMicros : Int) ≤ overdue + dayMicros := by
  obtain ⟨micros, rfl⟩ := Int.eq_ofNat_of_zero_le late
  have finite : micros < 2 ^ 53 * dayMicros := (Int.ofNat_lt.mp near).trans (by decide)
  constructor
  · -- the rounded quotient gets a name, so that no step computes it
    obtain ⟨rounded, same, positive⟩ : ∃ rounded, daysRoundedUp micros = rounded ∧ (0 < micros → 0 < rounded) :=
      ⟨_, rfl, daysRoundedUp_pos finite⟩
    rw [dayCount, if_neg (Int.not_lt.mpr late), Int.toNat_natCast, same]
    split
    next => exact Nat.succ_pos rounded
    next inexact =>
      refine positive (Nat.pos_of_ne_zero ?_)
      rintro rfl
      exact inexact (Nat.zero_mod dayMicros)
  · have most := (dayCount_near late (by exact_mod_cast finite)).2
    rw [Int.toNat_natCast] at most
    have days := Nat.mul_le_mul_right dayMicros most
    have whole := Nat.div_mul_le_self micros dayMicros
    rw [Nat.succ_mul] at days
    exact_mod_cast days.trans (Nat.add_le_add_right whole dayMicros)

theorem days_returns_iff {count : Nat} :
    (∃ days, (Run.mk due count).days = .ok days) ↔ due.micros + count * dayMicros < readingEnd := by
  have inRange := due.inRange
  simp only [Run.days, mapM_returns_iff, day, Reading.shift_returns_iff, List.mem_range]
  constructor
  · intro each
    cases count with
    | zero => omega
    | succ last =>
      have bound := (each last (Nat.lt_succ_self last)).2
      exact_mod_cast bound
  · intro bound index within
    have ordered : (index + 1) * dayMicros ≤ count * dayMicros := Nat.mul_le_mul_right dayMicros within
    omega

/-- The last penalty day of a finish is a day within the years, by UTC and by the clocks of the calendar. -/
def Ends (calendar : Calendar) (due done : Reading) : Prop :=
  ∃ last : Reading, last.micros = due.micros + dayCount (done.micros - graceMicros - due.micros) * dayMicros ∧
    calendar.zone.localDay last < dayEnd

/-- A late finish at least two days before the end of the years ends within them on the clocks of any calendar. -/
theorem ends_of_before (late : due.micros + graceMicros ≤ done.micros) (before : done.micros + 2 * dayMicros ≤ readingEnd)
    (calendar : Calendar) : Ends calendar due done := by
  have inRange := done.inRange
  have overdue : (0 : Int) ≤ done.micros - graceMicros - due.micros := by omega
  have passed := (dayCount_bounds overdue (by omega)).2
  have inside : due.micros + dayCount (done.micros - graceMicros - due.micros) * dayMicros + dayMicros ≤ readingEnd := by omega
  exact ⟨⟨_, by omega⟩, rfl, calendar.zone.localDay_lt inside⟩

/-- The penalty days are looked up in the calendar exactly if the last of them is there. -/
theorem working_returns_iff {count : Nat} {days : List Reading} (positive : 0 < count)
    (areDays : (Run.mk due count).days = .ok days) : (∃ kept, days.filterM (isWorking calendar) = .ok kept) ↔
      ∃ last : Reading, last.micros = due.micros + count * dayMicros ∧ calendar.zone.localDay last < dayEnd := by
  obtain ⟨length, micros⟩ := days_micros areDays
  have last := days_last areDays
  have some : days ≠ [] := List.ne_nil_of_length_pos (by omega)
  rw [List.getLast_cons some] at last
  have later : ∀ day ∈ days, dayMicros ≤ day.micros := by
    intro day inside
    obtain ⟨index, within, rfl⟩ := List.getElem_of_mem inside
    have steps := micros (index + 1) (by simpa using within)
    rw [List.getElem_cons_succ] at steps
    have least : dayMicros ≤ (index + 1) * dayMicros := Nat.le_mul_of_pos_left dayMicros (Nat.succ_pos index)
    omega
  have upTo : ∀ day ∈ days, calendar.zone.localDay day ≤ calendar.zone.localDay (days.getLast some) := by
    intro day inside
    have ordered := (Follows.pairwise (days_chain areDays calendar.zone.clocks)).imp And.left
    have reached := ordered.rel_getLast (List.mem_map_of_mem (List.mem_cons_of_mem due inside))
    rw [List.getLast_map, List.getLast_cons some] at reached
    exact reached
  simp only [filterM_returns_iff, isWorking, map_eq_ok]
  constructor
  · intro each
    obtain ⟨_, date, shown, _⟩ := each _ (List.getLast_mem some)
    exact ⟨_, last, (Calendar.dateAt_returns_iff.mp ⟨date, shown⟩).2⟩
  · rintro ⟨final, same, bound⟩ day inside
    have equal : final = days.getLast some := by
      cases final
      rw [Reading.mk.injEq]
      exact same.trans last.symm
    have least := calendar.zone.localDay_nonneg (later day inside)
    have most := upTo day inside
    rw [← equal] at most
    obtain ⟨date, shown⟩ := Calendar.dateAt_returns_iff.mpr ⟨least, most.trans_lt bound⟩
    exact ⟨_, date, shown, rfl⟩

theorem days_eq {dueAt finished : Timestamp} (dueUtc : dueAt.utc = .ok due) (doneUtc : finished.utc = .ok done)
    (late : graceMicros ≤ done.micros) :
    days dueAt finished = (Run.mk due (dayCount (done.micros - graceMicros - due.micros))).days := by
  obtain ⟨moved, shifted⟩ : ∃ moved, done.shift (-graceMicros) = .ok moved := by
    have inRange := done.inRange
    rw [Reading.shift_returns_iff]
    omega
  have micros := Reading.shift_eq_ok.mp shifted
  rw [days, run, bind_of_ok dueUtc, overdue, bind_of_ok doneUtc, bind_of_ok shifted]
  have same : (moved.micros - due.micros : Int) = done.micros - graceMicros - due.micros := by omega
  rw [← same]
  rfl

/-- The terms charge a finish exactly if they take nothing off, or its minute of grace is within the years and, if it is
late, so is its last penalty day. -/
theorem percentage_returns_iff {terms : Terms} {finished : Timestamp} (dueUtc : terms.dueAt.utc = .ok due)
    (doneUtc : finished.utc = .ok done) : (∃ charge, percentage terms finished calendar = .ok charge) ↔
      terms.applied = false ∨ due.micros + graceMicros < readingEnd ∧
        (due.micros + graceMicros ≤ done.micros → Ends calendar due done) := by
  rw [percentage, bind_of_ok dueUtc]
  cases applied : terms.applied with
  | false => exact iff_of_true ⟨0, rfl⟩ (.inl rfl)
  | true =>
    simp only [Bool.not_true, Bool.false_eq_true, if_false, bind_of_ok doneUtc, Bool.true_eq_false, false_or]
    rw [← due.shift_grace_iff]
    by_cases graced : ∃ limit, due.shift graceMicros = .ok limit
    · obtain ⟨limit, shifted⟩ := id graced
      have micros := Reading.shift_eq_ok.mp shifted
      have before : done.lt limit = true ↔ done.micros < due.micros + graceMicros := by
        simp only [Reading.lt, decide_eq_true_eq]
        omega
      simp only [bind_of_ok shifted, graced, true_and, before]
      by_cases early : done.micros < due.micros + graceMicros
      · rw [if_pos early]
        exact iff_of_true ⟨0, rfl⟩ fun late => by omega
      · have bound := done.inRange
        have positive : 0 < dayCount (done.micros - graceMicros - due.micros) := (dayCount_bounds (by omega) (by omega)).1
        rw [if_neg early, days_eq dueUtc doneUtc (by omega)]
        simp only [bind_eq_ok, Nat.not_lt.mp early, true_imp_iff]
        constructor
        · rintro ⟨charge, days, areDays, kept, filtered, _⟩
          exact (working_returns_iff positive areDays).mp ⟨kept, filtered⟩
        · rintro ⟨last, same, within⟩
          have inRange := last.inRange
          obtain ⟨days, areDays⟩ := days_returns_iff.mpr (same ▸ inRange)
          obtain ⟨kept, filtered⟩ := (working_returns_iff positive areDays).mpr ⟨last, same, within⟩
          exact ⟨_, days, areDays, kept, filtered, rfl⟩
    · refine iff_of_false ?_ fun both => graced both.1
      rintro ⟨charge, returned⟩
      obtain ⟨limit, shifted, _⟩ := bind_eq_ok.mp returned
      exact graced ⟨limit, shifted⟩

end Penalty
end Overdue
