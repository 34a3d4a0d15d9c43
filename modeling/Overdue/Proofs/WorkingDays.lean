import Mathlib.Control.Monad.Basic
import Mathlib.Data.Set.Card
import Overdue.Proofs.Charge
import Overdue.Proofs.DayCount
import Overdue.Proofs.LocalDay

/-! Each working date is charged once. The local days of penalty days follow one another; a weekday after the first
and up to the last is met by exactly one of them, so that the charge counts dates and not instants. -/
namespace Overdue

/-- From a local day to a later one of a run: only a Sunday can be the same. -/
def Reaches (day later : Int) : Prop := day ≤ later ∧ (later % 7 ≠ 6 → day < later)

instance : IsTrans Int Reaches where
  trans _ _ _ before after := ⟨Int.le_trans before.1 after.1, fun weekday => Int.lt_of_le_of_lt before.1 (after.2 weekday)⟩

theorem Follows.reaches {day next : Int} (follows : Follows day next) : Reaches day next := by
  unfold Reaches
  cases follows <;> omega

theorem Follows.pairwise {days : List Int} (chain : days.IsChain Follows) : days.Pairwise Reaches :=
  (chain.imp fun _ _ => Follows.reaches).pairwise

/-- No weekday between the first and the last of a run is left out. -/
theorem Follows.mem_of_between {first day : Int} {others : List Int} (chain : (first :: others).IsChain Follows)
    (after : first < day) (upTo : day ≤ (first :: others).getLast (List.cons_ne_nil _ _)) (weekday : day % 7 ≠ 6) :
    day ∈ others := by
  induction others generalizing first with
  | nil =>
    rw [List.getLast_singleton] at upTo
    omega
  | cons next rest ih =>
    rw [List.isChain_cons_cons] at chain
    rw [List.getLast_cons_cons] at upTo
    obtain ⟨follows, chain⟩ := chain
    by_cases met : day = next
    · rw [met]
      exact List.mem_cons_self
    · -- what `next` leaves out is a Sunday, so the day is still ahead of it
      refine List.mem_cons_of_mem next (ih chain ?_ upTo)
      cases follows <;> omega

theorem Date.day_injective : Function.Injective fun date : Date => (date.day : Int) := by
  rintro ⟨day, inRange⟩ ⟨other, inRangeToo⟩ same
  rw [Date.mk.injEq]
  exact Int.ofNat.inj same

/-- The dates from Monday to Friday that are no holidays, after the local day of one instant and up to that of another. -/
def SteadyClocks.workingDates (clocks : SteadyClocks) (holidays : List Date) (due last : Reading) : Set Date :=
  {date | clocks.localDay due < date.day ∧ date.day ≤ clocks.localDay last ∧ date.weekday < 5 ∧ date ∉ holidays}

def Calendar.workingDates (calendar : Calendar) (due last : Reading) : Set Date :=
  calendar.zone.clocks.workingDates calendar.holidays due last

namespace Penalty

variable {clocks : SteadyClocks} {holidays : List Date} {due : Reading} {days kept : List Reading}

theorem isWorkingBy_eq_true {utc : Reading} : isWorkingBy clocks.dateAt holidays utc = .ok true ↔
    ∃ date : Date, clocks.localDay utc = date.day ∧ date.weekday < 5 ∧ date ∉ holidays := by
  unfold isWorkingBy
  rw [Failure.map_eq_ok]
  refine exists_congr fun date => ?_
  rw [SteadyClocks.dateAt_eq_ok]
  simp [Date.isWeekend]

theorem weekday_of_working {utc : Reading} (works : isWorkingBy clocks.dateAt holidays utc = .ok true) :
    clocks.localDay utc % 7 ≠ 6 := by
  obtain ⟨date, same, weekday, -⟩ := isWorkingBy_eq_true.mp works
  unfold Date.weekday at weekday
  omega

theorem kept_nodup (chain : ((due :: days).map clocks.localDay).IsChain Follows)
    (filtered : days.filterM (isWorkingBy clocks.dateAt holidays) = .ok kept) : (kept.map clocks.localDay).Nodup := by
  obtain ⟨sublist, members⟩ := Failure.filterM_ok filtered
  have ordered := Follows.pairwise chain
  rw [List.map_cons, List.pairwise_cons, List.pairwise_map] at ordered
  rw [List.Nodup, List.pairwise_map]
  refine (ordered.2.sublist sublist).imp_of_mem fun _ later reaches => ?_
  exact Int.ne_of_lt (reaches.2 (weekday_of_working ((members _).mp later).2))

theorem mem_workingDates (chain : ((due :: days).map clocks.localDay).IsChain Follows)
    (filtered : days.filterM (isWorkingBy clocks.dateAt holidays) = .ok kept) (date : Date) :
    date ∈ clocks.workingDates holidays due ((due :: days).getLast (List.cons_ne_nil _ _)) ↔
      (date.day : Int) ∈ kept.map clocks.localDay := by
  obtain ⟨-, members⟩ := Failure.filterM_ok filtered
  have ordered := Follows.pairwise chain
  have last := List.getLast_map (f := clocks.localDay) (l := due :: days) (List.cons_ne_nil _ _)
  rw [List.mem_map]
  constructor
  · rintro ⟨after, upTo, works⟩
    rw [← last] at upTo
    have weekday := works.1
    unfold Date.weekday at weekday
    have met := Follows.mem_of_between chain after upTo (by omega)
    obtain ⟨utc, member, same⟩ := List.mem_map.mp met
    exact ⟨utc, (members utc).mpr ⟨member, isWorkingBy_eq_true.mpr ⟨date, same, works⟩⟩, same⟩
  · rintro ⟨utc, member, same⟩
    obtain ⟨member, works⟩ := (members utc).mp member
    obtain ⟨named, sameToo, weekday, ordinary⟩ := isWorkingBy_eq_true.mp works
    obtain rfl := Date.day_injective (same.symm.trans sameToo)
    rw [List.map_cons, List.pairwise_cons] at ordered
    have after := (ordered.1 _ (List.mem_map_of_mem member)).2 (weekday_of_working works)
    have upTo := ((Follows.pairwise chain).imp And.left).rel_getLast
      (List.mem_map_of_mem (List.mem_cons_of_mem due member))
    rw [last] at upTo
    rw [same] at after upTo
    exact ⟨after, upTo, weekday, ordinary⟩

theorem ncard_workingDates (chain : ((due :: days).map clocks.localDay).IsChain Follows)
    (filtered : days.filterM (isWorkingBy clocks.dateAt holidays) = .ok kept) :
    (clocks.workingDates holidays due ((due :: days).getLast (List.cons_ne_nil _ _))).ncard = kept.length := by
  have members := mem_workingDates chain filtered
  generalize clocks.workingDates holidays due ((due :: days).getLast (List.cons_ne_nil _ _)) = dates at members
  have image : (fun date : Date => (date.day : Int)) '' dates = ((kept.map clocks.localDay).toFinset : Set Int) := by
    ext day
    rw [Set.mem_image, Finset.mem_coe, List.mem_toFinset]
    constructor
    · rintro ⟨date, working, rfl⟩
      exact (members date).mp working
    · intro met
      obtain ⟨utc, member, rfl⟩ := List.mem_map.mp met
      obtain ⟨-, works⟩ := ((Failure.filterM_ok filtered).2 utc).mp member
      obtain ⟨date, same, -⟩ := isWorkingBy_eq_true.mp works
      rw [same] at met ⊢
      exact ⟨date, (members date).mpr met, rfl⟩
  calc dates.ncard = ((fun date : Date => (date.day : Int)) '' dates).ncard :=
        (Set.ncard_image_of_injective dates Date.day_injective).symm
    _ = (kept.map clocks.localDay).toFinset.card := by rw [image, Set.ncard_coe_finset]
    _ = kept.length := by rw [List.toFinset_card_of_nodup (kept_nodup chain filtered), List.length_map]

/-- Each working date is charged at one penalty day and no other. -/
theorem existsUnique_charged (chain : ((due :: days).map clocks.localDay).IsChain Follows)
    (filtered : days.filterM (isWorkingBy clocks.dateAt holidays) = .ok kept) {date : Date}
    (working : date ∈ clocks.workingDates holidays due ((due :: days).getLast (List.cons_ne_nil _ _))) :
    ∃! day, day ∈ days ∧ clocks.dateAt day = .ok date := by
  obtain ⟨utc, member, same⟩ := List.mem_map.mp ((mem_workingDates chain filtered date).mp working)
  obtain ⟨sublist, members⟩ := Failure.filterM_ok filtered
  refine ⟨utc, ⟨sublist.subset member, SteadyClocks.dateAt_eq_ok.mpr same⟩, fun other ⟨memberToo, shown⟩ => ?_⟩
  have sameToo := SteadyClocks.dateAt_eq_ok.mp shown
  have memberToo := (members other).mpr ⟨memberToo, isWorkingBy_eq_true.mpr ⟨date, sameToo, working.2.2⟩⟩
  exact List.inj_on_of_nodup_map (kept_nodup chain filtered) memberToo member (sameToo.trans same.symm)

variable {finished : Timestamp} {done : Reading}

theorem overdue_eq {later : Int} (doneUtc : finished.utc = .ok done) (ok : overdue due finished = .ok later) :
    later = done.micros - graceMicros - due.micros := by
  rw [overdue, Failure.bind_of_ok doneUtc] at ok
  obtain ⟨moved, shifted, equal⟩ := Failure.bind_eq_ok.mp ok
  rw [Reading.shift_eq_ok] at shifted
  cases equal
  omega

/-- The penalty days are so many steps of twenty-four hours of UTC from the due instant. -/
theorem days_micros {count : Nat} (ok : (Run.mk due count).days = .ok days) :
    days.length = count ∧ ∀ index (within : index < (due :: days).length),
      (due :: days)[index].micros = due.micros + index * dayMicros := by
  have mapped := Failure.mapM_eq_ok.mp ok
  have length : days.length = count := by
    have := congrArg List.length mapped
    simpa using this.symm
  refine ⟨length, fun index within => ?_⟩
  cases index with
  | zero => simp
  | succ index =>
    have inside : index < days.length := Nat.lt_of_succ_lt_succ within
    have shifted : day due index = .ok days[index] := by
      have entry := congrArg (·[index]?) mapped
      simpa [inside, ← length] using entry
    rw [day, Reading.shift_eq_ok] at shifted
    rw [List.getElem_cons_succ]
    omega

theorem days_chain {count : Nat} (ok : (Run.mk due count).days = .ok days) (clocks : SteadyClocks) :
    ((due :: days).map clocks.localDay).IsChain Follows := by
  obtain ⟨-, micros⟩ := days_micros ok
  rw [List.isChain_map, List.isChain_iff_getElem]
  intro index within
  apply clocks.follows
  rw [micros, micros, Nat.add_mul, Nat.one_mul, Nat.add_assoc]

theorem days_last {count : Nat} (ok : (Run.mk due count).days = .ok days) :
    ((due :: days).getLast (List.cons_ne_nil _ _)).micros = due.micros + count * dayMicros := by
  obtain ⟨length, micros⟩ := days_micros ok
  rw [List.getLast_eq_getElem, micros, List.length_cons, Nat.add_sub_cancel, length]

theorem days_run {dueAt : Timestamp} (dueUtc : dueAt.utc = .ok due) (doneUtc : finished.utc = .ok done)
    (ok : Penalty.days dueAt finished = .ok days) :
    (Run.mk due (dayCount (done.micros - graceMicros - due.micros))).days = .ok days := by
  rw [Penalty.days, Penalty.run, Failure.bind_of_ok dueUtc] at ok
  obtain ⟨built, isRun, ok⟩ := Failure.bind_eq_ok.mp ok
  obtain ⟨later, isLater, isRun⟩ := Failure.bind_eq_ok.mp isRun
  cases isRun
  rwa [overdue_eq doneUtc isLater] at ok

/-- Late by a calendar, a finish is charged for the working days by the clocks of its zone. -/
theorem percentage_counted {calendar : Calendar} {terms : Terms} {percentage : Int} (applied : terms.applied = true)
    (dueUtc : terms.dueAt.utc = .ok due) (doneUtc : finished.utc = .ok done) (late : due.micros + graceMicros ≤ done.micros)
    (ok : Penalty.percentage terms finished calendar = .ok percentage) :
    ∃ kept, workingDays calendar.zone.clocks.dateAt calendar.holidays terms.dueAt finished = .ok kept ∧
      percentage = min (normalizeCap terms.cap) (kept.length * max 0 terms.daily) := by
  have placed := Timestamp.instant_of_utc dueUtc
  have ended := Timestamp.instant_of_utc doneUtc
  rw [percentage_eq, Calendar.dateAt_eq] at ok
  exact percentageBy_late applied (by omega) ok

/-- Below 2^17 days a late finish costs the daily percentage for each working date after the local day of the due instant
and up to the local day of the last penalty day, up to the cap. Each of these dates is the local date of one penalty
day and no other, also where the clocks change. -/
theorem percentage_workingDates {calendar : Calendar} {terms : Terms} {percentage : Int} (applied : terms.applied = true)
    (dueUtc : terms.dueAt.utc = .ok due) (doneUtc : finished.utc = .ok done)
    (late : 0 ≤ (done.micros - graceMicros - due.micros : Int))
    (near : (done.micros - graceMicros - due.micros : Int) < 2 ^ 17 * dayMicros)
    (ok : Penalty.percentage terms finished calendar = .ok percentage) :
    ∃ (days : List Reading) (last : Reading), Penalty.days terms.dueAt finished = .ok days ∧
      (last.micros : Int) =
        due.micros + ((done.micros - graceMicros - due.micros : Int) / dayMicros + 1) * dayMicros ∧
      percentage = min (normalizeCap terms.cap) (max 0 terms.daily * (calendar.workingDates due last).ncard) ∧
      (∀ date ∈ calendar.workingDates due last, ∃! day, day ∈ days ∧ calendar.dateAt day = .ok date) ∧
      0 ≤ percentage ∧ percentage ≤ normalizeCap terms.cap ∧ normalizeCap terms.cap ≤ 100 := by
  rw [Calendar.dateAt_eq]
  obtain ⟨kept, counted, equal⟩ := percentage_counted applied dueUtc doneUtc (by omega) ok
  obtain ⟨days, areDays, filtered⟩ := Failure.bind_eq_ok.mp counted
  have run := days_run dueUtc doneUtc areDays
  have chain := days_chain run calendar.zone.clocks
  have last := days_last run
  rw [dayCount_eq late near] at last
  refine ⟨days, _, areDays, ?_, ?_, fun date => existsUnique_charged chain filtered, ?_⟩
  · rw [last]
    generalize (done.micros - graceMicros - due.micros : Int) = later at late
    obtain ⟨whole, rfl⟩ := Int.eq_ofNat_of_zero_le late
    push_cast
    rfl
  · rw [Calendar.workingDates, ncard_workingDates chain filtered, equal, Int.mul_comm]
  · have positive := normalizeCap_pos terms.cap
    have cost : 0 ≤ kept.length * max 0 terms.daily := Int.mul_nonneg (Int.natCast_nonneg _) (Int.le_max_left _ _)
    exact ⟨by omega, by omega, normalizeCap_le terms.cap⟩

/-- Due half an hour before midnight on the Friday before the clocks go forward: the local days go on from Saturday to Monday. -/
def springTerms : Terms := { dueAt := .ofUtc ⟨63847351800000000, by decide⟩, applied := true, daily := 10 }

def springCalendar : Calendar := ⟨[⟨738976, by decide⟩], .region .london⟩

theorem percentage_workingDates_spring : ∃ last : Reading, last.micros = 63847697400000000 ∧
    (springCalendar.workingDates ⟨63847351800000000, by decide⟩ last).ncard = 2 := by
  have due : springTerms.dueAt.utc = .ok ⟨63847351800000000, by decide⟩ := Timestamp.utc_ofUtc _
  have done := Timestamp.utc_ofUtc ⟨63847612800000000, by decide⟩
  have ok : percentage springTerms (.ofUtc ⟨63847612800000000, by decide⟩) springCalendar = .ok 20 := by decide +kernel
  obtain ⟨days, last, -, micros, equal, -⟩ :=
    percentage_workingDates rfl due done (by decide) (by decide +kernel) ok
  refine ⟨last, ?_, ?_⟩
  · simp only [graceMicros, minuteMicros, dayMicros, secondMicros] at micros
    omega
  · have terms : normalizeCap springTerms.cap = 100 ∧ max 0 springTerms.daily = 10 := by decide
    rw [terms.1, terms.2] at equal
    omega

end Penalty
end Overdue
