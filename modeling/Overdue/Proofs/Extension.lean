import Overdue.Proofs.Assessment
import Overdue.Proofs.Overrun
import Overdue.Proofs.PenaltyOrder

/-! Later due instants. The penalty days start at the due instant, so that they move with it, and the last of them within the
day after the finish. By clocks of any kind a later due instant costs more exactly where more of its penalty days are working
days, which is never so where it moves by whole days. By steady clocks this is where the last day gains more working dates than
the due instant passes; below 2^17 days that is one date at most. -/
namespace Overdue

open Failure

instance : Finite Date :=
  Finite.of_injective (fun date : Date => (⟨date.day, date.inRange⟩ : Fin dayEnd)) fun date other same => by
    cases date
    cases other
    simpa using same

namespace SteadyClocks

variable {clocks : SteadyClocks} {holidays : List Date} {first middle last : Reading}

theorem ncard_workingDates_of_le (before : clocks.localDay last ≤ clocks.localDay first) :
    (clocks.workingDates holidays first last).ncard = 0 := by
  have none : clocks.workingDates holidays first last = ∅ := by
    refine Set.eq_empty_of_forall_notMem fun date working => ?_
    obtain ⟨after, upTo, _⟩ := working
    omega
  rw [none, Set.ncard_empty]

theorem ncard_workingDates_add (holidays : List Date) (before : clocks.localDay first ≤ clocks.localDay middle)
    (after : clocks.localDay middle ≤ clocks.localDay last) :
    (clocks.workingDates holidays first middle).ncard + (clocks.workingDates holidays middle last).ncard =
      (clocks.workingDates holidays first last).ncard := by
  have apart : Disjoint (clocks.workingDates holidays first middle) (clocks.workingDates holidays middle last) := by
    refine Set.disjoint_left.mpr fun date early late => ?_
    have upTo := early.2.1
    have past := late.1
    omega
  rw [← Set.ncard_union_eq apart]
  congr 1
  ext date
  constructor
  · rintro (⟨past, upTo, works⟩ | ⟨past, upTo, works⟩)
    · exact ⟨past, upTo.trans after, works⟩
    · exact ⟨before.trans_lt past, upTo, works⟩
  · rintro ⟨past, upTo, works⟩
    by_cases early : (date.day : Int) ≤ clocks.localDay middle
    · exact .inl ⟨past, early, works⟩
    · exact .inr ⟨Int.not_le.mp early, upTo, works⟩

/-- What is passed at the start and gained at the end, where the end may also come to lie earlier. -/
theorem ncard_workingDates_moved {due extended lastToo : Reading} (later : clocks.localDay due ≤ clocks.localDay extended)
    (ends : clocks.localDay due ≤ clocks.localDay last) (endsToo : clocks.localDay extended ≤ clocks.localDay lastToo) :
    (clocks.workingDates holidays due extended).ncard + (clocks.workingDates holidays extended lastToo).ncard +
        (clocks.workingDates holidays lastToo last).ncard =
      (clocks.workingDates holidays due last).ncard + (clocks.workingDates holidays last lastToo).ncard := by
  have whole := ncard_workingDates_add holidays later endsToo
  rcases Int.le_total (clocks.localDay last) (clocks.localDay lastToo) with gains | loses
  · have split := ncard_workingDates_add holidays ends gains
    rw [ncard_workingDates_of_le gains]
    omega
  · have split := ncard_workingDates_add holidays (later.trans endsToo) loses
    rw [ncard_workingDates_of_le loses]
    omega

/-- Twenty-four hours reach one working date at most. -/
theorem ncard_workingDates_next (next : last.micros = first.micros + dayMicros) :
    (clocks.workingDates holidays first last).ncard ≤ 1 := by
  rw [Set.ncard_le_one]
  rintro date ⟨past, upTo, weekday, _⟩ other ⟨pastToo, upToToo, weekdayToo, _⟩
  have follows := clocks.follows next
  unfold Date.weekday at weekday weekdayToo
  have same : (date.day : Int) = other.day := by
    generalize clocks.localDay first = day at *
    generalize clocks.localDay last = end_ at *
    cases follows <;> omega
  exact Date.day_injective same

theorem ncard_workingDates_within (start : Reading) (next : last.micros = start.micros + dayMicros)
    (later : start.micros ≤ first.micros) : (clocks.workingDates holidays first last).ncard ≤ 1 := by
  have inside : clocks.workingDates holidays first last ⊆ clocks.workingDates holidays start last := fun _ working =>
    ⟨(clocks.mono later).trans_lt working.1, working.2⟩
  exact (Set.ncard_le_ncard inside).trans (ncard_workingDates_next next)

end SteadyClocks

namespace Penalty

section Days

variable {due extended done last lastToo : Reading} {days daysToo : List Reading}

/-- The last penalty day of a finish. -/
def IsLast (due done last : Reading) : Prop :=
  last.micros = due.micros + dayCount (done.micros - graceMicros - due.micros) * dayMicros

theorem IsLast.unique (isLast : IsLast due done last) (isLastToo : IsLast due done lastToo) : last = lastToo := by
  cases last
  cases lastToo
  rw [Reading.mk.injEq]
  exact Eq.trans isLast isLastToo.symm

theorem IsLast.ordered (isLast : IsLast due done last) : due.micros ≤ last.micros := by
  rw [isLast]
  exact Nat.le_add_right _ _

/-- Below 2^17 days the last penalty day is the one that ends after the finish less the grace. -/
theorem IsLast.near (isLast : IsLast due done last) (late : due.micros + graceMicros ≤ done.micros)
    (near : (done.micros - graceMicros - due.micros : Int) < 131072 * dayMicros) :
    ∃ whole, last.micros = due.micros + (whole + 1) * dayMicros ∧ due.micros + whole * dayMicros + graceMicros ≤ done.micros ∧
      done.micros < last.micros + graceMicros := by
  obtain ⟨overdue, same⟩ := Nat.exists_eq_add_of_le late
  have whole : (done.micros - graceMicros - due.micros : Int) = overdue := by omega
  rw [IsLast, whole, dayCount_eq (Int.natCast_nonneg overdue) (by omega), Int.toNat_natCast] at isLast
  have passed := Nat.div_mul_le_self overdue dayMicros
  have next := Nat.lt_div_mul_add (a := overdue) dayMicros_pos
  refine ⟨overdue / dayMicros, isLast, by omega, ?_⟩
  rw [isLast, Nat.succ_mul]
  omega

/-- Below 2^17 days the last penalty day gains one working date at most. -/
theorem gained_le (isLast : IsLast due done last) (isLastToo : IsLast extended done lastToo) (later : due.micros ≤ extended.micros)
    (late : extended.micros + graceMicros ≤ done.micros)
    (near : (done.micros - graceMicros - due.micros : Int) < 131072 * dayMicros) (clocks : SteadyClocks) (holidays : List Date) :
    (clocks.workingDates holidays last lastToo).ncard ≤ 1 := by
  obtain ⟨passed, micros, low, high⟩ := isLast.near (by omega) near
  obtain ⟨passedToo, microsToo, lowToo, highToo⟩ := isLastToo.near late (by omega)
  rw [Nat.succ_mul] at micros microsToo
  have inRange := lastToo.inRange
  exact SteadyClocks.ncard_workingDates_within ⟨lastToo.micros - dayMicros, by omega⟩ (by dsimp only; omega) (by dsimp only; omega)

theorem dayCount_add_whole {overdue : Int} {whole : Nat} (late : 0 ≤ overdue)
    (near : overdue + whole * dayMicros < 131072 * dayMicros) :
    dayCount (overdue + whole * dayMicros) = whole + dayCount overdue := by
  obtain ⟨micros, rfl⟩ := Int.eq_ofNat_of_zero_le late
  have sum : (micros + whole * dayMicros : Int) = (micros + whole * dayMicros : Nat) := by push_cast; rfl
  rw [sum] at near ⊢
  rw [dayCount_eq (Int.natCast_nonneg _) near, dayCount_eq (Int.natCast_nonneg _) (by omega), Int.toNat_natCast,
    Int.toNat_natCast, Nat.add_mul_div_right _ _ dayMicros_pos]
  omega

theorem day_add_whole {whole : Nat} (moved : extended.micros = due.micros + whole * dayMicros) (index : Nat) :
    day extended index = day due (whole + index) := by
  have same : (extended.micros + ((index + 1) * dayMicros : Nat) : Int) =
      due.micros + ((whole + index + 1) * dayMicros : Nat) := by
    rw [moved, Nat.add_assoc whole, Nat.add_mul whole]
    push_cast
    omega
  simp only [day, Reading.shift, same]

/-- The penalty days from a due instant that is moved by whole days are the last ones of those from where it was. -/
theorem Run.days_add_whole {whole count : Nat} (moved : extended.micros = due.micros + whole * dayMicros)
    (ok : (Run.mk due (whole + count)).days = .ok days) (okToo : (Run.mk extended count).days = .ok daysToo) :
    daysToo <:+ days := by
  have all := mapM_eq_ok.mp ok
  have last := mapM_eq_ok.mp okToo
  have cut : (days.drop whole).map Except.ok = daysToo.map (Except.ok (ε := Failure)) := by
    rw [List.map_drop, ← all, ← last, List.range_add, List.map_append, List.map_map, List.drop_left' (by simp)]
    refine List.map_congr_left fun index _ => ?_
    rw [Function.comp_apply, day_add_whole moved]
  rw [← (List.map_injective_iff.mpr fun _ _ => Except.ok.inj) cut]
  exact List.drop_suffix whole days

end Days

section Cap

variable {cap each : Int} {fewer more : Nat}

theorem capped_le (positive : 0 ≤ each) (upTo : fewer ≤ more) : min cap (fewer * each) ≤ min cap (more * each) :=
  capped_mono (Int.le_refl cap) upTo positive (Int.le_refl each)

theorem capped_le_next (positive : 0 ≤ each) (upTo : more ≤ fewer + 1) :
    min cap (more * each) ≤ min cap (fewer * each) + each := by
  have next : min cap (more * each) ≤ min cap ((fewer + 1 : Nat) * each) := capped_le positive upTo
  rw [Nat.cast_add, Nat.cast_one, Int.add_mul, Int.one_mul] at next
  omega

theorem capped_lt_iff (positive : 0 ≤ each) : min cap (fewer * each) < min cap (more * each) ↔
    0 < each ∧ min cap (fewer * each) < cap ∧ fewer < more := by
  constructor
  · intro less
    refine ⟨?_, less.trans_le (min_le_left _ _), ?_⟩
    · by_contra free
      obtain rfl : each = 0 := by omega
      simp at less
    · by_contra upTo
      exact absurd (capped_le positive (Nat.not_lt.mp upTo)) (Int.not_le.mpr less)
  · rintro ⟨costs, below, upTo⟩
    have total : (fewer * each : Int) < more * each := Int.mul_lt_mul_of_pos_right (Int.ofNat_lt.mpr upTo) costs
    omega

end Cap

/-- A daily percentage applies, and the finish is late by the later due instant too. -/
def Applies (terms : Terms) (extendedAt finished : Timestamp) : Prop :=
  terms.applied = true ∧ 0 < terms.daily ∧ extendedAt.instant + graceMicros ≤ finished.instant

/-- More of the penalty days from the later due instant are working days. -/
def MoreWorking (clocks : Reading → Except Failure Date) (holidays : List Date) (dueAt extendedAt finished : Timestamp) : Prop :=
  ∃ kept keptToo, workingDays clocks holidays dueAt finished = .ok kept ∧
    workingDays clocks holidays extendedAt finished = .ok keptToo ∧ kept.length < keptToo.length

/-- The last penalty day gains more working dates than the due instant passes. -/
def Gains (clocks : SteadyClocks) (holidays : List Date) (dueAt extendedAt finished : Timestamp) : Prop :=
  ∃ due extended done last lastToo, dueAt.utc = .ok due ∧ extendedAt.utc = .ok extended ∧ finished.utc = .ok done ∧
    IsLast due done last ∧ IsLast extended done lastToo ∧
    (clocks.workingDates holidays due extended).ncard < (clocks.workingDates holidays last lastToo).ncard

section Kept

variable {clocks : Reading → Except Failure Date} {steady : SteadyClocks} {holidays : List Date}
  {dueAt extendedAt finished : Timestamp} {due extended done : Reading} {kept keptToo : List Reading}

theorem utc_of_workingDays (counted : workingDays clocks holidays dueAt finished = .ok kept) :
    ∃ due done, dueAt.utc = .ok due ∧ finished.utc = .ok done := by
  obtain ⟨_, areDays, _⟩ := bind_eq_ok.mp counted
  exact utc_of_days areDays

theorem moreWorking_iff (counted : workingDays clocks holidays dueAt finished = .ok kept)
    (countedToo : workingDays clocks holidays extendedAt finished = .ok keptToo) :
    MoreWorking clocks holidays dueAt extendedAt finished ↔ kept.length < keptToo.length := by
  refine ⟨?_, fun more => ⟨kept, keptToo, counted, countedToo, more⟩⟩
  rintro ⟨_, _, areOthers, areOthersToo, more⟩
  cases counted.symm.trans areOthers
  cases countedToo.symm.trans areOthersToo
  exact more

theorem workingDays_add_whole {whole : Nat} (moved : extendedAt.instant = dueAt.instant + whole * dayMicros)
    (late : extendedAt.instant + graceMicros ≤ finished.instant)
    (near : finished.instant - graceMicros - dueAt.instant < 131072 * dayMicros)
    (counted : workingDays clocks holidays dueAt finished = .ok kept)
    (countedToo : workingDays clocks holidays extendedAt finished = .ok keptToo) : keptToo.length ≤ kept.length := by
  obtain ⟨days, areDays, filtered⟩ := bind_eq_ok.mp counted
  obtain ⟨daysToo, areDaysToo, filteredToo⟩ := bind_eq_ok.mp countedToo
  obtain ⟨due, done, dueUtc, doneUtc⟩ := utc_of_days areDays
  obtain ⟨extended, _, extendedUtc, _⟩ := utc_of_days areDaysToo
  rw [Timestamp.instant_of_utc dueUtc, Timestamp.instant_of_utc extendedUtc] at moved
  rw [Timestamp.instant_of_utc doneUtc, Timestamp.instant_of_utc dueUtc] at near
  rw [Timestamp.instant_of_utc doneUtc, Timestamp.instant_of_utc extendedUtc] at late
  have run := days_run dueUtc doneUtc areDays
  have overdue : (done.micros - graceMicros - due.micros : Int) =
      (done.micros - graceMicros - extended.micros) + whole * dayMicros := by omega
  rw [overdue, dayCount_add_whole (by omega) (by omega)] at run
  have last := Run.days_add_whole (by exact_mod_cast moved) run (days_run extendedUtc doneUtc areDaysToo)
  exact kept_length_le last.sublist (List.Subset.refl holidays) filteredToo filtered

theorem workingDays_length (dueUtc : dueAt.utc = .ok due) (doneUtc : finished.utc = .ok done)
    (counted : workingDays steady.dateAt holidays dueAt finished = .ok kept) :
    ∃ last, IsLast due done last ∧ (steady.workingDates holidays due last).ncard = kept.length := by
  obtain ⟨days, areDays, filtered⟩ := bind_eq_ok.mp counted
  have run := days_run dueUtc doneUtc areDays
  exact ⟨_, days_last run, ncard_workingDates (days_chain run steady) filtered⟩

/-- Working days are gained by the later due instant as working dates are gained at the end and passed at the start. -/
theorem workingDays_moved (later : due.micros ≤ extended.micros) (dueUtc : dueAt.utc = .ok due)
    (extendedUtc : extendedAt.utc = .ok extended) (doneUtc : finished.utc = .ok done)
    (counted : workingDays steady.dateAt holidays dueAt finished = .ok kept)
    (countedToo : workingDays steady.dateAt holidays extendedAt finished = .ok keptToo) :
    ∃ last lastToo, IsLast due done last ∧ IsLast extended done lastToo ∧
      (steady.workingDates holidays due extended).ncard + keptToo.length + (steady.workingDates holidays lastToo last).ncard =
        kept.length + (steady.workingDates holidays last lastToo).ncard := by
  obtain ⟨last, isLast, same⟩ := workingDays_length dueUtc doneUtc counted
  obtain ⟨lastToo, isLastToo, sameToo⟩ := workingDays_length extendedUtc doneUtc countedToo
  refine ⟨last, lastToo, isLast, isLastToo, ?_⟩
  rw [← same, ← sameToo]
  exact SteadyClocks.ncard_workingDates_moved (steady.mono later) (steady.mono isLast.ordered) (steady.mono isLastToo.ordered)

theorem length_lt_iff_gains (later : dueAt.instant ≤ extendedAt.instant)
    (counted : workingDays steady.dateAt holidays dueAt finished = .ok kept)
    (countedToo : workingDays steady.dateAt holidays extendedAt finished = .ok keptToo) :
    kept.length < keptToo.length ↔ Gains steady holidays dueAt extendedAt finished := by
  obtain ⟨due, done, dueUtc, doneUtc⟩ := utc_of_workingDays counted
  obtain ⟨extended, _, extendedUtc, _⟩ := utc_of_workingDays countedToo
  rw [Timestamp.instant_of_utc dueUtc, Timestamp.instant_of_utc extendedUtc, Int.ofNat_le] at later
  obtain ⟨last, lastToo, isLast, isLastToo, moved⟩ := workingDays_moved later dueUtc extendedUtc doneUtc counted countedToo
  constructor
  · intro more
    exact ⟨due, extended, done, last, lastToo, dueUtc, extendedUtc, doneUtc, isLast, isLastToo, by omega⟩
  · rintro ⟨_, _, _, other, otherToo, dueUtcToo, extendedUtcToo, doneUtcToo, isOther, isOtherToo, gains⟩
    cases dueUtc.symm.trans dueUtcToo
    cases extendedUtc.symm.trans extendedUtcToo
    cases doneUtc.symm.trans doneUtcToo
    obtain rfl := isLast.unique isOther
    obtain rfl := isLastToo.unique isOtherToo
    -- dates that are gained are not lost as well
    have kept : (steady.workingDates holidays lastToo last).ncard = 0 := by
      rcases Int.le_total (steady.localDay last) (steady.localDay lastToo) with upTo | upTo
      · exact SteadyClocks.ncard_workingDates_of_le upTo
      · rw [SteadyClocks.ncard_workingDates_of_le upTo] at gains
        omega
    omega

end Kept

/-- What one finish costs by a due instant and by a later one. -/
structure Extended (clocks : Reading → Except Failure Date) (holidays : List Date) (terms : Terms)
    (extendedAt finished : Timestamp) (before after : Int) : Prop where
  later : terms.dueAt.instant ≤ extendedAt.instant
  charged : percentageBy clocks holidays terms finished = .ok before
  chargedToo : percentageBy clocks holidays { terms with dueAt := extendedAt } finished = .ok after

namespace Extended

variable {clocks : Reading → Except Failure Date} {steady : SteadyClocks} {holidays : List Date} {terms : Terms}
  {extendedAt finished : Timestamp} {before after : Int}

/-- Late by both due instants, the finish is charged for the working days from either. -/
theorem counted (costs : Extended clocks holidays terms extendedAt finished before after) (applied : terms.applied = true)
    (late : extendedAt.instant + graceMicros ≤ finished.instant) :
    ∃ kept keptToo, workingDays clocks holidays terms.dueAt finished = .ok kept ∧
      workingDays clocks holidays extendedAt finished = .ok keptToo ∧
      before = min (normalizeCap terms.cap) ((kept.length : Nat) * max 0 terms.daily) ∧
      after = min (normalizeCap terms.cap) ((keptToo.length : Nat) * max 0 terms.daily) := by
  obtain ⟨later, charged, chargedToo⟩ := costs
  obtain ⟨kept, counted, before⟩ := percentageBy_late applied (by omega) charged
  have appliedToo : ({ terms with dueAt := extendedAt } : Terms).applied = true := applied
  obtain ⟨keptToo, countedToo, after⟩ := percentageBy_late appliedToo late chargedToo
  exact ⟨kept, keptToo, counted, countedToo, before, after⟩

theorem lt_iff (costs : Extended clocks holidays terms extendedAt finished before after) :
    before < after ↔ Applies terms extendedAt finished ∧ before < normalizeCap terms.cap ∧
      MoreWorking clocks holidays terms.dueAt extendedAt finished := by
  have free := Int.le_max_left 0 terms.daily
  by_cases both : terms.applied = true ∧ extendedAt.instant + graceMicros ≤ finished.instant
  · obtain ⟨applied, late⟩ := both
    obtain ⟨kept, keptToo, counted, countedToo, rfl, rfl⟩ := costs.counted applied late
    rw [capped_lt_iff free, moreWorking_iff counted countedToo]
    refine and_congr_left fun _ => ⟨fun costs => ⟨applied, by omega, late⟩, ?_⟩
    rintro ⟨_, costs, _⟩
    omega
  · have nothing : after = 0 := by
      refine percentageBy_early ?_ costs.chargedToo
      cases applied : terms.applied with
      | false => exact .inl rfl
      | true => exact .inr (Int.not_le.mp fun late => both ⟨applied, late⟩)
    have least := (percentageBy_charged costs.charged).bounds.1
    refine iff_of_false (by omega) ?_
    rintro ⟨⟨applied, _, late⟩, _⟩
    exact both ⟨applied, late⟩

theorem le_of_whole (costs : Extended clocks holidays terms extendedAt finished before after) {whole : Nat}
    (moved : extendedAt.instant = terms.dueAt.instant + whole * dayMicros)
    (near : finished.instant - graceMicros - terms.dueAt.instant < 131072 * dayMicros) : after ≤ before := by
  by_contra more
  obtain ⟨⟨_, _, late⟩, _, _, _, counted, countedToo, gained⟩ := costs.lt_iff.mp (Int.not_le.mp more)
  exact absurd (workingDays_add_whole moved late near counted countedToo) (Nat.not_le.mpr gained)

theorem lt_iff_gains (costs : Extended steady.dateAt holidays terms extendedAt finished before after) :
    before < after ↔ Applies terms extendedAt finished ∧ before < normalizeCap terms.cap ∧
      Gains steady holidays terms.dueAt extendedAt finished := by
  rw [costs.lt_iff]
  refine and_congr_right fun applies => and_congr_right fun _ => ?_
  obtain ⟨kept, keptToo, counted, countedToo, _⟩ := costs.counted applies.1 applies.2.2
  rw [moreWorking_iff counted countedToo, length_lt_iff_gains costs.later counted countedToo]

theorem le_next (costs : Extended steady.dateAt holidays terms extendedAt finished before after)
    (near : finished.instant - graceMicros - terms.dueAt.instant < 131072 * dayMicros) :
    after ≤ before + max 0 terms.daily ∧ ∀ due extended, terms.dueAt.utc = .ok due → extendedAt.utc = .ok extended →
      (steady.workingDates holidays due extended).Nonempty → after ≤ before := by
  have free := Int.le_max_left 0 terms.daily
  by_cases more : before < after
  · obtain ⟨⟨applied, _, late⟩, _⟩ := costs.lt_iff.mp more
    obtain ⟨kept, keptToo, counted, countedToo, rfl, rfl⟩ := costs.counted applied late
    obtain ⟨due, done, dueUtc, doneUtc⟩ := utc_of_workingDays counted
    obtain ⟨extended, _, extendedUtc, _⟩ := utc_of_workingDays countedToo
    have later := costs.later
    rw [Timestamp.instant_of_utc dueUtc, Timestamp.instant_of_utc extendedUtc] at later
    rw [Timestamp.instant_of_utc doneUtc, Timestamp.instant_of_utc dueUtc] at near
    rw [Timestamp.instant_of_utc doneUtc, Timestamp.instant_of_utc extendedUtc] at late
    obtain ⟨last, lastToo, isLast, isLastToo, moved⟩ :=
      workingDays_moved (by omega) dueUtc extendedUtc doneUtc counted countedToo
    have one := gained_le isLast isLastToo (by omega) (by omega) near steady holidays
    refine ⟨capped_le_next free (by omega), fun _ _ dueUtcToo extendedUtcToo passes => ?_⟩
    cases dueUtc.symm.trans dueUtcToo
    cases extendedUtc.symm.trans extendedUtcToo
    have some := (Set.ncard_pos (Set.toFinite _)).mpr passes
    exact capped_le free (by omega)
  · exact ⟨by omega, fun _ _ _ _ _ => Int.not_lt.mp more⟩

end Extended

theorem percentage_of_early {terms : Terms} {finished : Timestamp} {due done : Reading} (dueUtc : terms.dueAt.utc = .ok due)
    (doneUtc : finished.utc = .ok done) (graced : due.micros + graceMicros < readingEnd)
    (early : done.micros < due.micros + graceMicros) (calendar : Calendar) :
    Penalty.percentage terms finished calendar = .ok 0 := by
  have placed := Timestamp.instant_of_utc dueUtc
  have ended := Timestamp.instant_of_utc doneUtc
  obtain ⟨charge, ok⟩ := (percentage_returns_iff dueUtc doneUtc).mpr
    (.inr ⟨graced, fun late => absurd late (Nat.not_le.mpr early)⟩)
  rw [ok, percentageBy_early (.inr (by omega)) ((percentage_eq terms finished calendar).symm.trans ok)]

end Penalty

variable {calendar : Calendar} {policy : Policy} {terms : Terms} {finished : Timestamp} {id : Int} {penalty : Int}

theorem Policy.due?_of_active (active : policy.active = .ok true) : ∃ due, policy.due? = .ok (some due) := by
  unfold Policy.active at active
  unfold Policy.due?
  split at active
  next => cases active
  next =>
    obtain ⟨due, converted, different⟩ := map_eq_ok.mp active
    exact ⟨due, map_eq_ok.mpr ⟨due, converted, if_neg (of_decide_eq_true different)⟩⟩

theorem Agrees.charges {due done : Reading} {record : Option LateRecord} (agrees : Agrees policy finished id record)
    (stands : policy.due? = .ok (some due)) (doneUtc : finished.utc = .ok done) (frozen : policy.terms = .ok terms)
    (charged : Evaluation.charged calendar record = .ok penalty) : Penalty.percentage terms finished calendar = .ok penalty := by
  cases agrees with
  | onTime onTime =>
    cases charged
    have graced : due.micros + graceMicros < readingEnd := by
      by_contra beyond
      exact (Policy.isLate_returns_iff stands doneUtc).mp ⟨false, onTime⟩ ⟨due, stands, Nat.not_lt.mp beyond⟩
    have early : done.micros < due.micros + graceMicros := by
      have decided := (Policy.isLate_of_due stands graced doneUtc).symm.trans onTime
      exact Nat.not_le.mp (of_decide_eq_false (Except.ok.inj decided))
    have dueUtc : terms.dueAt.utc = .ok due := by
      obtain ⟨dueAt, placed, converted, _⟩ := Policy.dueAt_of_due stands
      cases (Policy.terms_of_due placed converted).symm.trans frozen
      exact Timestamp.utc_ofUtc due
    exact Penalty.percentage_of_early dueUtc doneUtc graced early calendar
  | late late frozenToo =>
    cases frozen.symm.trans frozenToo
    rw [← charged]
    exact Penalty.percentage_congr (Policy.terms_stored_utc frozen).symm rfl rfl rfl rfl calendar

/-- A regrade charges what the terms of the policy charge for the finish. -/
theorem Evaluation.Regraded.charges {tables after : Tables} {attempts : List Tables} (sound : Sound tables)
    (regraded : Regraded id calendar tables attempts (.ok penalty) after) (governs : tables.policyOf id = some policy)
    (active : policy.active = .ok true) (frozen : policy.terms = .ok terms) :
    ∃ kept, after.submission? id = some kept ∧ ∃ finished, kept.finishedAt = some finished ∧
      Penalty.percentage terms finished calendar = .ok kept.penalty := by
  obtain ⟨row, finished, assignment, score, found, finishedAt, placed, _, read, agrees, _⟩ := regraded.effect sound
  obtain ⟨kept, present, charged⟩ := regraded.settles.1.charged
  have same := (read id).symm.trans present
  rw [if_pos rfl, Option.some.injEq] at same
  subst same
  obtain ⟨due, stands⟩ := Policy.due?_of_active active
  rw [Tables.policyOf, found, Option.bind_some, placed, Option.map_some, Option.some.injEq] at governs
  subst governs
  have doneUtc : finished.utc = .ok finished.reading := Timestamp.utc_of_stored (sound.stored_finish found finishedAt)
  exact ⟨_, present, finished, finishedAt, agrees.charges stands doneUtc frozen charged⟩

theorem History.regrade_charges {event : Event} {history : List Event} {view : SubmissionView}
    (asked : event.request.call = .ok (.ok (.regrade id))) (replied : answer event history = .ok (.submission view))
    (governs : (tables history).policyOf id = some policy) (active : policy.active = .ok true)
    (frozen : policy.terms = .ok terms) (finishedAt : view.row.finishedAt = some finished) :
    Penalty.percentage terms finished event.context.calendar = .ok view.row.penalty := by
  rw [(answer_call asked history).1] at replied
  obtain ⟨attempts, after, answered⟩ := Service.answer_unstruck replied (by simp)
  cases answered with
  | answered found finished regraded stored =>
    obtain ⟨kept, present, finish, finishedToo, charges⟩ := regraded.charges (sound history) governs active frozen
    cases present.symm.trans stored
    cases finishedToo.symm.trans finishedAt
    exact charges

namespace Penalty

variable {clocks : Reading → Except Failure Date} {holidays : List Date} {extendedAt : Timestamp} {before after : Int}

/-- What a later due instant costs. By clocks of any kind, those of a calendar among them, it costs more exactly where more of
the penalty days are working days; where it moves by whole days it costs no more. By steady clocks, as those of every zone are,
it costs more exactly where the last penalty day gains more working dates than the due instant passes; below 2^17 days that is
one daily percentage at most, and nothing where a working date is passed. A regrade charges by the due instant that the policy
has then. -/
theorem extension_charged (later : terms.dueAt.instant ≤ extendedAt.instant)
    (charged : percentageBy clocks holidays terms finished = .ok before)
    (chargedToo : percentageBy clocks holidays { terms with dueAt := extendedAt } finished = .ok after) :
    (before < after ↔ Applies terms extendedAt finished ∧ before < normalizeCap terms.cap ∧
      MoreWorking clocks holidays terms.dueAt extendedAt finished) ∧
    (finished.instant - graceMicros - terms.dueAt.instant < 131072 * dayMicros →
      (∃ whole : Nat, extendedAt.instant = terms.dueAt.instant + whole * dayMicros) → after ≤ before) ∧
    (∀ steady : SteadyClocks, clocks = steady.dateAt →
      (before < after ↔ Applies terms extendedAt finished ∧ before < normalizeCap terms.cap ∧
        Gains steady holidays terms.dueAt extendedAt finished) ∧
      (finished.instant - graceMicros - terms.dueAt.instant < 131072 * dayMicros →
        after ≤ before + max 0 terms.daily ∧ ∀ due extended, terms.dueAt.utc = .ok due → extendedAt.utc = .ok extended →
          (steady.workingDates holidays due extended).Nonempty → after ≤ before)) ∧
    (∀ calendar : Calendar, calendar.dateAt = clocks → calendar.holidays = holidays → clocks = calendar.zone.clocks.dateAt ∧
      Penalty.percentage terms finished calendar = .ok before ∧
      Penalty.percentage { terms with dueAt := extendedAt } finished calendar = .ok after) ∧
    ∀ (event : Event) history id view policy, event.request.call = .ok (.ok (.regrade id)) →
      event.context.calendar.dateAt = clocks → event.context.calendar.holidays = holidays →
      History.answer event history = .ok (.submission view) → view.row.finishedAt = some finished →
      (History.tables history).policyOf id = some policy → policy.active = .ok true →
      (policy.terms = .ok terms → view.row.penalty = before) ∧
        (policy.terms = .ok { terms with dueAt := extendedAt } → view.row.penalty = after) := by
  have costs : Extended clocks holidays terms extendedAt finished before after := ⟨later, charged, chargedToo⟩
  refine ⟨costs.lt_iff, ?_, ?_, ?_, ?_⟩
  · rintro near ⟨whole, moved⟩
    exact costs.le_of_whole moved near
  · rintro steady rfl
    exact ⟨costs.lt_iff_gains, costs.le_next⟩
  · rintro calendar rfl rfl
    exact ⟨calendar.dateAt_eq, charged, chargedToo⟩
  · rintro event history id view policy asked rfl rfl replied finishedAt governs active
    constructor
    · intro frozen
      have charges := History.regrade_charges asked replied governs active frozen finishedAt
      exact Except.ok.inj (charges.symm.trans charged)
    · intro frozen
      have charges := History.regrade_charges asked replied governs active frozen finishedAt
      exact Except.ok.inj (charges.symm.trans chargedToo)

/-- Due on a Saturday at ten, or on the Sunday at one, and finished on the Sunday at five. -/
def saturdayTerms : Terms := { dueAt := .ofUtc 63805658400000000, applied := true, daily := 5 }

def sundayDue : Timestamp := .ofUtc 63805712400000000

def sundayFinish : Timestamp := ⟨63805726800000000, none⟩

theorem weekend_charges : Penalty.percentage saturdayTerms sundayFinish ⟨[], .utc⟩ = .ok 0 ∧
    Penalty.percentage { saturdayTerms with dueAt := sundayDue } sundayFinish ⟨[], .utc⟩ = .ok 5 := by
  decide +kernel

theorem extension_dearer : ¬ ∀ (calendar : Calendar) (terms : Terms) (extendedAt finished : Timestamp) (due extended : Reading)
    (before after : Int), terms.dueAt.utc = .ok due → extendedAt.utc = .ok extended → due.micros ≤ extended.micros →
      Penalty.percentage terms finished calendar = .ok before →
      Penalty.percentage { terms with dueAt := extendedAt } finished calendar = .ok after → after ≤ before := by
  intro cheaper
  have raised := cheaper _ saturdayTerms sundayDue sundayFinish _ _ 0 5 (Timestamp.utc_ofUtc _) (Timestamp.utc_ofUtc _)
    (by decide) weekend_charges.1 weekend_charges.2
  omega

/-- After the finish the due instant is moved to the Sunday. -/
def redated : List Event := [
  .plain 63805813200000000 .patch ["assignments", "1", "late-policy"] [("due_at", .str "2022-12-04T01:00:00Z")],
  .plain 63805726800000000 .post ["submissions", "1", "finish"] [],
  .plain 63805190400000000 .post ["assignments", "1", "submissions"] [("student_id", .int 7)],
  .plain 63804499200000000 .post ["assignments"] [("title", .str "Essay"), ("due_at", .str "2022-12-03T10:00:00Z"),
    ("applied_penalty", .bool true), ("daily_percentage_penalty", .int 5), ("max_percentage_penalty", .int 100)]]

def regradeRedated : Event := .plain 63805813200000000 .post ["submissions", "1", "regrade"] []

theorem extension_charged_weekend :
    MoreWorking (Calendar.dateAt ⟨[], .utc⟩) [] saturdayTerms.dueAt sundayDue sundayFinish ∧
      Gains Zone.utc.clocks [] saturdayTerms.dueAt sundayDue sundayFinish ∧
      ∃ view, History.answer regradeRedated redated = .ok (.submission view) ∧ view.row.penalty = 5 := by
  have charged : percentageBy (Calendar.dateAt ⟨[], .utc⟩) [] saturdayTerms sundayFinish = .ok 0 := weekend_charges.1
  have later : saturdayTerms.dueAt.instant ≤ sundayDue.instant := by decide
  obtain ⟨rises, _, dates, _, regrades⟩ := extension_charged later charged weekend_charges.2
  have asked : regradeRedated.request.call = .ok (.ok (.regrade 1)) := by decide +kernel
  have governs : (History.tables redated).policyOf 1 = some ⟨some ⟨63805712400000000, none⟩, true, 5, 100, true⟩ := by
    decide +kernel
  obtain ⟨view, replied, finishedAt⟩ : ∃ view, History.answer regradeRedated redated = .ok (.submission view) ∧
      view.row.finishedAt = some sundayFinish :=
    ⟨⟨⟨1, 1, 7, 1, none, ⟨63805190400000000, none⟩, some sundayFinish, none, 5, none, none, none⟩, true⟩, by decide +kernel, rfl⟩
  have gains := ((dates Zone.utc.clocks (Calendar.dateAt_eq _)).1.mp (by decide)).2.2
  refine ⟨(rises.mp (by decide)).2.2, gains, view, replied, ?_⟩
  exact (regrades _ _ _ _ _ asked rfl rfl replied finishedAt governs (by decide +kernel)).2 (by decide +kernel)

/-- Clocks that go forward at midnight from a Thursday to the Friday are not steady. -/
def fridayClocks (utc : Reading) : Except Failure Date :=
  (utc.shift ((if utc.micros < 63818229600000000 then 7200 else 10800) * secondMicros)).map Reading.date

def thursdayTerms : Terms := { dueAt := .ofUtc 63818227800000000, applied := true, daily := 5 }

/-- By them the due instant passes the Friday and the finish costs more all the same. -/
example : percentageBy fridayClocks [] thursdayTerms (.ofUtc 63818486460000000) = .ok 5 ∧
    percentageBy fridayClocks [] { thursdayTerms with dueAt := .ofUtc 63818313000000000 } (.ofUtc 63818486460000000) = .ok 10 := by
  decide +kernel

end Penalty
end Overdue
