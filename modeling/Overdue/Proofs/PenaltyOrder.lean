import Overdue.Proofs.WorkingDays

/-! The order of penalties. The penalty days of an earlier finish are the first ones of a later finish, whatever the clocks of
the calendar show on them: a later finish never costs less, and neither does a greater daily percentage, a higher cap or a
shorter list of holidays. -/
namespace Overdue
namespace Penalty

open Failure

variable {clocks : Reading → Except Failure Date} {holidays fewer : List Date} {terms : Terms} {finished later : Timestamp}
  {due : Reading} {days daysToo : List Reading} {before after : Int}

theorem Run.days_upTo {count more : Nat} (upTo : count ≤ more) (ok : (Run.mk due count).days = .ok days)
    (okToo : (Run.mk due more).days = .ok daysToo) : days <+: daysToo := by
  have first := mapM_eq_ok.mp ok
  have all := mapM_eq_ok.mp okToo
  have cut : (daysToo.take count).map Except.ok = days.map (Except.ok (ε := Failure)) := by
    rw [List.map_take, ← all, ← first, ← List.map_take, List.take_range, Nat.min_eq_left upTo]
  rw [← (List.map_injective_iff.mpr fun _ _ => Except.ok.inj) cut]
  exact List.take_prefix count daysToo

theorem utc_of_days {dueAt : Timestamp} (ok : Penalty.days dueAt finished = .ok days) :
    ∃ due done, dueAt.utc = .ok due ∧ finished.utc = .ok done := by
  obtain ⟨_, isRun, _⟩ := bind_eq_ok.mp ok
  obtain ⟨due, dueUtc, isRun⟩ := bind_eq_ok.mp isRun
  obtain ⟨_, isLater, _⟩ := bind_eq_ok.mp isRun
  obtain ⟨done, doneUtc, _⟩ := bind_eq_ok.mp isLater
  exact ⟨due, done, dueUtc, doneUtc⟩

/-- Below 2^17 days the penalty days of a finish go on in those of a later one. -/
theorem days_upTo {dueAt : Timestamp} (upTo : finished.instant ≤ later.instant)
    (near : finished.instant < later.instant → later.instant - graceMicros - dueAt.instant < 131072 * dayMicros)
    (ok : Penalty.days dueAt finished = .ok days) (okToo : Penalty.days dueAt later = .ok daysToo) : days <+: daysToo := by
  obtain ⟨due, done, dueUtc, doneUtc⟩ := utc_of_days ok
  obtain ⟨_, doneToo, _, doneUtcToo⟩ := utc_of_days okToo
  rw [Timestamp.instant_of_utc doneUtc, Timestamp.instant_of_utc doneUtcToo] at upTo near
  rw [Timestamp.instant_of_utc dueUtc] at near
  refine Run.days_upTo ?_ (days_run dueUtc doneUtc ok) (days_run dueUtc doneUtcToo okToo)
  rcases Int.lt_or_eq_of_le upTo with less | same
  · exact dayCount_mono (by omega) (near less)
  · rw [same]

/-- With fewer holidays a day does not stop to be a working day. -/
theorem isWorkingBy_anti (kept : fewer ⊆ holidays) {utc : Reading} (works : isWorkingBy clocks holidays utc = .ok true) :
    isWorkingBy clocks fewer utc = .ok true := by
  obtain ⟨date, shown, working⟩ := map_eq_ok.mp works
  refine map_eq_ok.mpr ⟨date, shown, ?_⟩
  simp only [Bool.not_eq_true', Bool.or_eq_false_iff, List.contains_eq_mem, decide_eq_false_iff_not] at working ⊢
  exact ⟨working.1, fun inside => working.2 (kept inside)⟩

theorem kept_length_le {charged chargedToo : List Reading} (among : days.Sublist daysToo) (kept : fewer ⊆ holidays)
    (filtered : days.filterM (isWorkingBy clocks holidays) = .ok charged)
    (filteredToo : daysToo.filterM (isWorkingBy clocks fewer) = .ok chargedToo) : charged.length ≤ chargedToo.length := by
  rw [filterM_eq filtered, filterM_eq filteredToo, ← List.countP_eq_length_filter, ← List.countP_eq_length_filter]
  refine (List.countP_mono_left fun day _ works => ?_).trans among.countP_le
  rw [holds_eq_true] at works ⊢
  exact isWorkingBy_anti kept works

theorem capped_mono {cap higher each dearer : Int} {count more : Nat} (caps : cap ≤ higher) (counts : count ≤ more)
    (positive : 0 ≤ each) (costs : each ≤ dearer) : min cap (count * each) ≤ min higher (more * dearer) :=
  min_le_min caps (Int.mul_le_mul (Int.ofNat_le.mpr counts) costs positive (Int.natCast_nonneg more))

theorem Charged.mono {daily cap : Int} (upTo : finished.instant ≤ later.instant)
    (near : finished.instant < later.instant → later.instant - graceMicros - terms.dueAt.instant < 131072 * dayMicros)
    (dearer : terms.daily ≤ daily) (higher : normalizeCap terms.cap ≤ normalizeCap cap) (kept : fewer ⊆ holidays)
    (charged : Charged clocks holidays terms finished before)
    (chargedToo : Charged clocks fewer { terms with daily := daily, cap := cap } later after) : before ≤ after := by
  cases charged with
  | unapplied | onTime => exact chargedToo.bounds.1
  | late applied reached areDays filtered =>
    cases chargedToo with
    | unapplied off => cases off.symm.trans applied
    | onTime early => exact absurd (reached.trans upTo) (Int.not_le.mpr early)
    | late _ _ areDaysToo filteredToo =>
      have counts := kept_length_le (days_upTo upTo near areDays areDaysToo).sublist kept filtered filteredToo
      exact capped_mono higher counts (Int.le_max_left 0 terms.daily) (max_le_max_left 0 dearer)

/-- A later finish costs no less, below 2^17 days, with a daily percentage and a cap that are no smaller and with no holiday
more; so it is by the calendar, and by clocks of any kind. -/
theorem percentage_monotone {daily cap : Int} (upTo : finished.instant ≤ later.instant)
    (near : finished.instant < later.instant → later.instant - graceMicros - terms.dueAt.instant < 131072 * dayMicros)
    (dearer : terms.daily ≤ daily) (higher : normalizeCap terms.cap ≤ normalizeCap cap) :
    (∀ (calendar : Calendar) fewer before after, fewer ⊆ calendar.holidays →
      Penalty.percentage terms finished calendar = .ok before →
      Penalty.percentage { terms with daily := daily, cap := cap } later { calendar with holidays := fewer } = .ok after →
      before ≤ after) ∧
    ∀ clocks holidays fewer before after, fewer ⊆ holidays → percentageBy clocks holidays terms finished = .ok before →
      percentageBy clocks fewer { terms with daily := daily, cap := cap } later = .ok after → before ≤ after := by
  have ordered : ∀ clocks holidays fewer before after, fewer ⊆ holidays →
      percentageBy clocks holidays terms finished = .ok before →
      percentageBy clocks fewer { terms with daily := daily, cap := cap } later = .ok after → before ≤ after :=
    fun clocks holidays fewer before after kept charged chargedToo =>
      (percentageBy_charged charged).mono upTo near dearer higher kept (percentageBy_charged chargedToo)
  refine ⟨fun calendar fewer before after kept => ?_, ordered⟩
  rw [percentage_eq, percentage_eq]
  exact ordered calendar.dateAt calendar.holidays fewer before after kept

/-- The last microsecond of a penalty day, on clocks an hour and a half east of UTC, and the instant after it. -/
def lastMicro : Timestamp := ⟨⟨63847616459999999, by decide⟩, some ⟨5400, by decide⟩⟩

def nextMicro : Timestamp := ⟨⟨63847611060000000, by decide⟩, none⟩

theorem percentage_monotone_boundary : ∃ before after, Penalty.percentage springTerms lastMicro springCalendar = .ok before ∧
    Penalty.percentage { springTerms with daily := 20, cap := 125 } nextMicro { springCalendar with holidays := [] } = .ok after ∧
    before ≤ after := by
  have upTo : lastMicro.instant ≤ nextMicro.instant := by decide
  have near : nextMicro.instant - graceMicros - springTerms.dueAt.instant < 131072 * dayMicros := by decide
  obtain ⟨ordered, _⟩ := percentage_monotone upTo (fun _ => near) (by decide : springTerms.daily ≤ 20)
    (by decide : normalizeCap springTerms.cap ≤ normalizeCap 125)
  have charged : Penalty.percentage springTerms lastMicro springCalendar = .ok 10 := by decide +kernel
  have chargedToo : Penalty.percentage { springTerms with daily := 20, cap := 125 } nextMicro
      { springCalendar with holidays := [] } = .ok 60 := by decide +kernel
  exact ⟨10, 60, charged, chargedToo, ordered springCalendar [] 10 60 (List.nil_subset _) charged chargedToo⟩

end Penalty
end Overdue
