import Overdue.Proofs.Failure

/-! What a finish is charged, by clocks of any kind. The charge asks a calendar only for the local date at an instant, so
that what holds of the charge for all such clocks holds in every zone. -/
namespace Overdue

open Failure

/-- Microseconds on the clock of UTC, also for an instant that this clock shows in no year. -/
def Timestamp.instant (timestamp : Timestamp) : Int := timestamp.reading.micros - timestamp.offset.elim 0 Offset.micros

theorem Timestamp.instant_of_utc {timestamp : Timestamp} {utc : Reading} (converted : timestamp.utc = .ok utc) :
    timestamp.instant = utc.micros := by
  unfold Timestamp.utc at converted
  unfold instant
  split at converted
  next none =>
    cases converted
    simp [none]
  next offset shifted =>
    rw [Reading.shift_eq_ok] at converted
    rw [shifted, converted]
    rfl

namespace Penalty

variable {clocks : Reading → Except Failure Date} {holidays : List Date} {terms : Terms} {finished : Timestamp} {percentage : Int}

def isWorkingBy (clocks : Reading → Except Failure Date) (holidays : List Date) (utc : Reading) : Except Failure Bool :=
  (clocks utc).map fun date => !(date.isWeekend || holidays.contains date)

def percentageBy (clocks : Reading → Except Failure Date) (holidays : List Date) (terms : Terms) (finished : Timestamp) :
    Except Failure Int := do
  let due ← terms.dueAt.utc
  if !terms.applied then return 0
  if (← finished.utc).lt (← due.shift graceMicros) then return 0
  let working ← (← days terms.dueAt finished).filterM (isWorkingBy clocks holidays)
  return min (normalizeCap terms.cap) (working.length * max 0 terms.daily)

/-- The working days among the penalty days of a finish. -/
def workingDays (clocks : Reading → Except Failure Date) (holidays : List Date) (dueAt finished : Timestamp) :
    Except Failure (List Reading) := do
  (← days dueAt finished).filterM (isWorkingBy clocks holidays)

/-- A calendar charges by its own clocks. -/
theorem percentage_eq (terms : Terms) (finished : Timestamp) (calendar : Calendar) :
    Penalty.percentage terms finished calendar = percentageBy calendar.dateAt calendar.holidays terms finished := rfl

/-- Where a charge comes from: nothing is taken off, the finish is within the grace, or the working days among the penalty
days are counted. -/
inductive Charged (clocks : Reading → Except Failure Date) (holidays : List Date) (terms : Terms) (finished : Timestamp) : Int → Prop
  | unapplied (off : terms.applied = false) : Charged clocks holidays terms finished 0
  | onTime (early : finished.instant < terms.dueAt.instant + graceMicros) : Charged clocks holidays terms finished 0
  | late {days kept : List Reading} (applied : terms.applied = true)
      (reached : terms.dueAt.instant + graceMicros ≤ finished.instant) (areDays : Penalty.days terms.dueAt finished = .ok days)
      (filtered : days.filterM (isWorkingBy clocks holidays) = .ok kept) :
      Charged clocks holidays terms finished (min (normalizeCap terms.cap) (kept.length * max 0 terms.daily))

theorem percentageBy_charged (ok : percentageBy clocks holidays terms finished = .ok percentage) :
    Charged clocks holidays terms finished percentage := by
  obtain ⟨due, dueUtc, ok⟩ := bind_eq_ok.mp ok
  cases applied : terms.applied with
  | false =>
    rw [applied] at ok
    cases ok
    exact .unapplied applied
  | true =>
    rw [applied] at ok
    obtain ⟨done, doneUtc, ok⟩ := bind_eq_ok.mp ok
    obtain ⟨limit, shifted, ok⟩ := bind_eq_ok.mp ok
    rw [Reading.shift_eq_ok] at shifted
    have placed := Timestamp.instant_of_utc dueUtc
    have ended := Timestamp.instant_of_utc doneUtc
    split at ok
    next early =>
      cases ok
      rw [Reading.lt, decide_eq_true_eq] at early
      exact .onTime (by omega)
    next late =>
      obtain ⟨days, areDays, ok⟩ := bind_eq_ok.mp ok
      obtain ⟨kept, filtered, ok⟩ := bind_eq_ok.mp ok
      cases ok
      rw [Reading.lt, decide_eq_true_eq] at late
      exact .late applied (by omega) areDays filtered

theorem percentageBy_late (applied : terms.applied = true) (late : terms.dueAt.instant + graceMicros ≤ finished.instant)
    (ok : percentageBy clocks holidays terms finished = .ok percentage) :
    ∃ kept, workingDays clocks holidays terms.dueAt finished = .ok kept ∧
      percentage = min (normalizeCap terms.cap) (kept.length * max 0 terms.daily) := by
  cases percentageBy_charged ok with
  | unapplied off => cases off.symm.trans applied
  | onTime early => exact absurd late (Int.not_le.mpr early)
  | late _ _ areDays filtered => exact ⟨_, bind_eq_ok.mpr ⟨_, areDays, filtered⟩, rfl⟩

theorem percentageBy_early (early : terms.applied = false ∨ finished.instant < terms.dueAt.instant + graceMicros)
    (ok : percentageBy clocks holidays terms finished = .ok percentage) : percentage = 0 := by
  cases percentageBy_charged ok with
  | unapplied | onTime => rfl
  | late applied reached =>
    rcases early with off | early
    · cases off.symm.trans applied
    · exact absurd reached (Int.not_le.mpr early)

theorem Charged.bounds (charged : Charged clocks holidays terms finished percentage) : 0 ≤ percentage ∧ percentage ≤ 100 := by
  cases charged with
  | unapplied | onTime => omega
  | @late _ kept =>
    have positive := normalizeCap_pos terms.cap
    have full := normalizeCap_le terms.cap
    have cost : 0 ≤ kept.length * max 0 terms.daily := Int.mul_nonneg (Int.natCast_nonneg _) (Int.le_max_left _ _)
    omega

theorem percentage_bounds {calendar : Calendar} (ok : Penalty.percentage terms finished calendar = .ok percentage) :
    0 ≤ percentage ∧ percentage ≤ 100 := by
  rw [percentage_eq] at ok
  exact (percentageBy_charged ok).bounds

end Penalty
end Overdue
