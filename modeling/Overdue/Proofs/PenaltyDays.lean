import Overdue.Proofs.Range

/-! The penalty days of a finish. They are counted with the binary64 quotient of two durations, rounded up; below 2^17 days
this is the exact count, and then the last of them is the first that lies after the finish less the grace. -/
namespace Overdue
namespace Penalty

open Failure

variable {dueAt finished : Timestamp} {due done : Reading} {days : List Reading}

theorem grace_of_days (doneUtc : finished.utc = .ok done) (ok : Penalty.days dueAt finished = .ok days) :
    graceMicros ≤ done.micros := by
  obtain ⟨_, isRun, _⟩ := bind_eq_ok.mp ok
  obtain ⟨_, _, isRun⟩ := bind_eq_ok.mp isRun
  obtain ⟨_, isLater, _⟩ := bind_eq_ok.mp isRun
  rw [overdue, bind_of_ok doneUtc] at isLater
  obtain ⟨moved, shifted, _⟩ := bind_eq_ok.mp isLater
  rw [Reading.shift_eq_ok] at shifted
  omega

/-- A finish within the grace has no penalty days, also where it is earlier than any instant by a minute. -/
theorem days_onTime (dueUtc : dueAt.utc = .ok due) (doneUtc : finished.utc = .ok done)
    (onTime : done.micros < due.micros + graceMicros) :
    Penalty.days dueAt finished = .ok [] ∨ done.micros < graceMicros ∧ Penalty.days dueAt finished = .error .outOfRange := by
  by_cases graced : graceMicros ≤ done.micros
  · have none : dayCount (done.micros - graceMicros - due.micros) = 0 := by
      rw [dayCount, if_pos (by omega)]
    rw [days_eq dueUtc doneUtc graced, none]
    exact .inl rfl
  · refine .inr ⟨Nat.not_le.mp graced, ?_⟩
    cases result : Penalty.days dueAt finished with
    | ok days => exact absurd (grace_of_days doneUtc result) graced
    | error failure => rw [days_only dueAt finished failure result]

/-- The penalty days that are there: their number comes from the nearest binary64 value of the quotient, and below 2^17 days
it is exact. -/
theorem days_counted (dueUtc : dueAt.utc = .ok due) (doneUtc : finished.utc = .ok done) :
    (done.micros < due.micros + graceMicros → Penalty.days dueAt finished = .ok [] ∨
      done.micros < graceMicros ∧ Penalty.days dueAt finished = .error .outOfRange) ∧
    ∀ overdue days, done.micros = due.micros + graceMicros + overdue → Penalty.days dueAt finished = .ok days →
      (∀ index (within : index < days.length), days[index].micros = due.micros + (index + 1) * dayMicros) ∧
      (∃ units, Double.Nearest (overdue * unitsPerOne) dayMicros units ∧
        days.length = Double.ceilUnits units + if overdue % dayMicros = 0 then 1 else 0) ∧
      (overdue / dayMicros ≤ days.length ∧ days.length ≤ overdue / dayMicros + 1) ∧
      (overdue < 131072 * dayMicros → days.length = overdue / dayMicros + 1 ∧
        ∀ index (within : index < days.length), done.micros < days[index].micros + graceMicros ↔ index + 1 = days.length) := by
  refine ⟨days_onTime dueUtc doneUtc, fun overdue days late ok => ?_⟩
  have inRange := done.inRange
  have finite : overdue < 2 ^ 53 * dayMicros := by
    have least : readingEnd < 2 ^ 53 * dayMicros := by decide
    omega
  have run := days_run dueUtc doneUtc ok
  have same : (done.micros - graceMicros - due.micros : Int) = overdue := by omega
  rw [same] at run
  obtain ⟨length, micros⟩ := days_micros run
  have placed (index : Nat) (within : index < days.length) : days[index].micros = due.micros + (index + 1) * dayMicros :=
    micros (index + 1) (Nat.succ_lt_succ within)
  have bounds := dayCount_near (Int.natCast_nonneg overdue) (by exact_mod_cast finite)
  rw [Int.toNat_natCast, ← length] at bounds
  have nearest := dayCount_nearest finite
  rw [← length] at nearest
  refine ⟨placed, nearest, bounds, fun near => ?_⟩
  have exact := dayCount_eq (Int.natCast_nonneg overdue) (by exact_mod_cast near)
  rw [Int.toNat_natCast, ← length] at exact
  refine ⟨exact, fun index within => ?_⟩
  have whole := Nat.div_mul_le_self overdue dayMicros
  have next := Nat.lt_div_mul_add (a := overdue) dayMicros_pos
  rw [placed index within]
  constructor
  · intro after
    by_contra earlier
    have passed := Nat.mul_le_mul_right dayMicros (by omega : index + 1 ≤ overdue / dayMicros)
    omega
  · intro last
    rw [last, exact, Nat.succ_mul]
    omega

/-- Due at midnight of UTC by a clock east of it, and finished on the second day boundary. -/
def boundaryDue : Timestamp := ⟨⟨63844867800000000, by decide⟩, some ⟨19800, by decide⟩⟩

def boundaryFinish : Timestamp := ⟨⟨63845020860000000, by decide⟩, none⟩

theorem days_counted_boundary : ∃ days, Penalty.days boundaryDue boundaryFinish = .ok days ∧ days.length = 3 ∧
    ∀ index (within : index < days.length), 63845020860000000 < days[index].micros + graceMicros ↔ index + 1 = days.length := by
  have dueUtc : boundaryDue.utc = .ok ⟨63844848000000000, by decide⟩ := by decide +kernel
  have doneUtc : boundaryFinish.utc = .ok ⟨63845020860000000, by decide⟩ := rfl
  have ok : Penalty.days boundaryDue boundaryFinish =
      .ok [⟨63844934400000000, by decide⟩, ⟨63845020800000000, by decide⟩, ⟨63845107200000000, by decide⟩] := by
    decide +kernel
  obtain ⟨_, _, _, exact⟩ := (days_counted dueUtc doneUtc).2 (2 * dayMicros) _ (by decide) ok
  obtain ⟨length, last⟩ := exact (by decide)
  exact ⟨_, ok, length, last⟩

end Penalty
end Overdue
