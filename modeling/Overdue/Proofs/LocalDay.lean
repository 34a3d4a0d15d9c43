import Mathlib.Order.Monotone.Basic
import Overdue.Proofs.Failure

/-! Local days, as numbers that may lie before the year 1. They never go back. Twenty-four hours of UTC move the local day
on by one, except that a change of the clocks may move it by none or by two; what is met twice or left out then is a
Sunday. -/
namespace Overdue

namespace Date

theorem yearOf_spec (day : Nat) :
    1 ≤ yearOf day ∧ daysBeforeYear (yearOf day) ≤ day ∧ day < daysBeforeYear (yearOf day + 1) := by
  unfold yearOf daysBeforeYear
  dsimp only
  split
  · omega
  · split <;> omega

theorem daysBeforeYear_succ {year : Nat} (first : 1 ≤ year) : daysBeforeYear year + 365 ≤ daysBeforeYear (year + 1) := by
  unfold daysBeforeYear
  omega

theorem daysBeforeYear_mono : Monotone daysBeforeYear := by
  refine monotone_nat_of_le_succ fun year => ?_
  unfold daysBeforeYear
  omega

theorem yearOf_succ (day : Nat) : yearOf (day + 1) = yearOf day ∨ yearOf (day + 1) = yearOf day + 1 := by
  obtain ⟨-, low, high⟩ := yearOf_spec day
  obtain ⟨-, lowNext, highNext⟩ := yearOf_spec (day + 1)
  rcases Nat.lt_trichotomy (yearOf (day + 1)) (yearOf day) with before | same | after
  · have : daysBeforeYear (yearOf (day + 1) + 1) ≤ daysBeforeYear (yearOf day) := daysBeforeYear_mono before
    omega
  · exact .inl same
  · have length := daysBeforeYear_succ (show 1 ≤ yearOf day + 1 by omega)
    by_cases further : yearOf day + 2 ≤ yearOf (day + 1)
    · have : daysBeforeYear (yearOf day + 1 + 1) ≤ daysBeforeYear (yearOf (day + 1)) := daysBeforeYear_mono further
      omega
    · exact .inr (by omega)

/-- The months from March to November lie well within the year. -/
theorem month_inner (leap : Bool) (index : Fin 12) (march : 2 ≤ index.val) (november : index.val ≤ 10) :
    59 ≤ daysBefore leap index ∧
      daysBefore leap index + (monthLengths leap).getD index 0 ≤ 335 ∧
      28 ≤ (monthLengths leap).getD index 0 := by
  revert leap index
  decide

theorem month_before (leap : Bool) (index later : Fin 12) (before : index < later) :
    daysBefore leap index + (monthLengths leap).getD index 0 ≤ daysBefore leap later := by
  revert leap index later
  decide

end Date

namespace Reading

theorem year_bounds (reading : Reading) :
    1 ≤ reading.date.year ∧ Date.daysBeforeYear reading.date.year * dayMicros ≤ reading.micros ∧
      reading.micros < Date.daysBeforeYear (reading.date.year + 1) * dayMicros := by
  obtain ⟨first, low, high⟩ := Date.yearOf_spec reading.date.day
  refine ⟨first, (Nat.le_div_iff_mul_le (by decide)).mp low, (Nat.div_lt_iff_lt_mul (by decide)).mp high⟩

theorem year_next {earlier later : Reading} (ordered : earlier.micros ≤ later.micros)
    (within : later.micros ≤ earlier.micros + dayMicros) :
    later.date.year = earlier.date.year ∨ later.date.year = earlier.date.year + 1 := by
  have low : earlier.date.day ≤ later.date.day := Nat.div_le_div_right ordered
  have high : later.date.day ≤ earlier.date.day + 1 := by
    change later.micros / dayMicros ≤ earlier.micros / dayMicros + 1
    rw [← Nat.add_div_right _ (by decide)]
    exact Nat.div_le_div_right within
  unfold Date.year
  rcases Nat.le_succ_iff.mp high with upTo | next
  · exact .inl (congrArg Date.yearOf (Nat.le_antisymm upTo low))
  · rw [next]
    exact Date.yearOf_succ earlier.date.day

end Reading

namespace Switch

/-- A switch on a Sunday from March to November, less than a day from its start. -/
structure Inner (switch : Switch) : Prop where
  march : 3 ≤ switch.month
  november : switch.month ≤ 11
  after : -86400 < switch.seconds
  before : switch.seconds < 86400

variable {switch : Switch}

namespace Inner

def index (inner : switch.Inner) : Fin 12 := ⟨switch.month - 1, by have := inner.november; omega⟩

theorem in_year (inner : switch.Inner) (year : Nat) :
    59 ≤ Date.daysBeforeMonth year switch.month ∧
      Date.daysBeforeMonth year switch.month + Date.daysInMonth year switch.month ≤ 335 ∧
      28 ≤ Date.daysInMonth year switch.month := by
  have march := inner.march
  have november := inner.november
  exact Date.month_inner (Date.isLeap year) inner.index (show 2 ≤ switch.month - 1 by omega)
    (show switch.month - 1 ≤ 10 by omega)

theorem sunday (inner : switch.Inner) (year : Nat) :
    let first := Date.daysBeforeYear year + Date.daysBeforeMonth year switch.month
    first ≤ switch.day year ∧ switch.day year < first + Date.daysInMonth year switch.month ∧ switch.day year % 7 = 6 := by
  obtain ⟨-, -, length⟩ := inner.in_year year
  dsimp only
  unfold day
  dsimp only
  generalize Date.daysBeforeYear year + Date.daysBeforeMonth year switch.month = first
  generalize Date.daysInMonth year switch.month = days at length
  split <;> omega

theorem micros_lt {later : Switch} (inner : switch.Inner) (laterInner : later.Inner)
    (before : switch.month < later.month) (year : Nat) : switch.micros year < later.micros year := by
  have apart : Date.daysBeforeMonth year switch.month + Date.daysInMonth year switch.month ≤
      Date.daysBeforeMonth year later.month :=
    Date.month_before (Date.isLeap year) inner.index laterInner.index
      (show switch.month - 1 < later.month - 1 by have := inner.march; omega)
  obtain ⟨-, high, sunday⟩ := inner.sunday year
  obtain ⟨low, -, sundayToo⟩ := laterInner.sunday year
  have limit := inner.before
  have limitToo := laterInner.after
  unfold micros secondMicros dayMicros secondMicros
  omega

/-- No switch falls on the first or the last day of a year. -/
theorem micros_bounds (inner : switch.Inner) {year : Nat} (first : 1 ≤ year) :
    ((Date.daysBeforeYear year + 1) * dayMicros : Int) ≤ switch.micros year ∧
      switch.micros year + dayMicros ≤ Date.daysBeforeYear (year + 1) * dayMicros := by
  obtain ⟨early, late, -⟩ := inner.in_year year
  obtain ⟨low, high, -⟩ := inner.sunday year
  have limit := inner.before
  have limitToo := inner.after
  have length := Date.daysBeforeYear_succ first
  unfold micros secondMicros dayMicros secondMicros
  omega

end Inner

/-- The clocks change after one instant, and at another at the latest. -/
def Between (switch : Switch) (earlier later : Reading) : Prop :=
  ∃ year, (earlier.micros : Int) < switch.micros year ∧ switch.micros year ≤ later.micros

theorem Between.sunday {earlier later : Reading} (between : switch.Between earlier later) (inner : switch.Inner) :
    ∃ day : Nat, day % 7 = 6 ∧ (earlier.micros : Int) < day * dayMicros + switch.seconds * secondMicros ∧
      day * dayMicros + switch.seconds * secondMicros ≤ later.micros := by
  obtain ⟨year, low, high⟩ := between
  exact ⟨switch.day year, (inner.sunday year).2.2, low, high⟩

end Switch

namespace SummerTime

/-- Summer time that changes the clocks on inner days and, on clocks that run `standard` seconds ahead of UTC in
winter, within the Sunday: forward by an hour that ends with the day at the latest, back by an hour of that day. -/
structure Regular (summer : SummerTime) (standard : Int) : Prop where
  begins : summer.begins.Inner
  ends : summer.ends.Inner
  apart : summer.begins.month ≠ summer.ends.month
  forward : 0 ≤ summer.begins.seconds + standard ∧ summer.begins.seconds + standard + 3600 ≤ 86400
  back : 0 ≤ summer.ends.seconds + standard ∧ summer.ends.seconds + standard + 3600 ≤ 86400

variable {summer : SummerTime} {standard : Int}

/-- Summer time runs within a year or over its turn, in every year alike. -/
theorem Regular.covers_iff (regular : summer.Regular standard) (utc : Reading) :
    summer.covers utc = true ↔
      let begins := summer.begins.micros utc.date.year
      let ends := summer.ends.micros utc.date.year
      if summer.begins.month < summer.ends.month then begins ≤ utc.micros ∧ utc.micros < ends
      else begins ≤ utc.micros ∨ utc.micros < ends := by
  unfold covers
  dsimp only
  by_cases north : summer.begins.month < summer.ends.month
  · have order := regular.begins.micros_lt regular.ends north utc.date.year
    simp [north, order]
  · have apart := regular.apart
    have order := regular.ends.micros_lt regular.begins (by omega) utc.date.year
    simp [north, Int.not_lt.mpr (Int.le_of_lt order)]

/-- A day that runs from one year into the next has no change of the clocks. -/
theorem Regular.covers_turn (regular : summer.Regular standard) {earlier later : Reading}
    (within : later.micros ≤ earlier.micros + dayMicros) (turn : later.date.year = earlier.date.year + 1) :
    summer.covers later = summer.covers earlier := by
  obtain ⟨first, low, high⟩ := earlier.year_bounds
  obtain ⟨firstNext, lowNext, -⟩ := later.year_bounds
  have beginsHigh := (regular.begins.micros_bounds first).2
  have endsHigh := (regular.ends.micros_bounds first).2
  have beginsLow := (regular.begins.micros_bounds firstNext).1
  have endsLow := (regular.ends.micros_bounds firstNext).1
  -- the earlier instant is after both changes of its year, the later one before both changes of the next
  rw [Bool.eq_iff_iff, regular.covers_iff, regular.covers_iff]
  rw [turn] at beginsLow endsLow lowNext ⊢
  unfold dayMicros secondMicros at *
  split <;> omega

theorem Regular.covers_next (regular : summer.Regular standard) {earlier later : Reading}
    (ordered : earlier.micros ≤ later.micros) (within : later.micros ≤ earlier.micros + dayMicros) :
    summer.covers later = summer.covers earlier ∨
      summer.covers earlier = false ∧ summer.covers later = true ∧ summer.begins.Between earlier later ∨
      summer.covers earlier = true ∧ summer.covers later = false ∧ summer.ends.Between earlier later := by
  rcases Reading.year_next ordered within with same | turn
  · have before := regular.covers_iff earlier
    have after := regular.covers_iff later
    rw [same] at after
    dsimp only at before after
    cases covered : summer.covers earlier <;> cases coveredNext : summer.covers later
    all_goals simp only [covered, coveredNext, Bool.false_eq_true, false_iff, true_iff] at before after
    · exact .inl rfl
    · refine .inr (.inl ⟨rfl, rfl, earlier.date.year, ?_⟩)
      split at before <;> split at after <;> omega
    · refine .inr (.inr ⟨rfl, rfl, earlier.date.year, ?_⟩)
      split at before <;> split at after <;> omega
    · exact .inl rfl
  · exact .inl (regular.covers_turn within turn)

end SummerTime

theorem Region.regular {place : Region} {summer : SummerTime} (observed : place.summerTime? = some summer) :
    summer.Regular (place.standardMinutes * 60) := by
  cases place <;> cases observed
  all_goals
    refine ⟨⟨?_, ?_, ?_, ?_⟩, ⟨?_, ?_, ?_, ?_⟩, ?_, ?_, ?_⟩
    all_goals decide

/-- From a local day to the one twenty-four hours of UTC later. -/
inductive Follows (day : Int) : Int → Prop
  | next : Follows day (day + 1)
  | again (sunday : day % 7 = 6) : Follows day day
  | past (sunday : (day + 1) % 7 = 6) : Follows day (day + 2)

namespace Zone

/-- The day that the clocks of a zone show. -/
def localDay (zone : Zone) (utc : Reading) : Int := (utc.micros + zone.seconds utc * secondMicros) / dayMicros

variable {earlier later : Reading}

theorem follows_same {zone : Zone} (next : later.micros = earlier.micros + dayMicros)
    (same : zone.seconds later = zone.seconds earlier) : Follows (zone.localDay earlier) (zone.localDay later) := by
  have whole : zone.localDay later = zone.localDay earlier + 1 := by
    unfold localDay dayMicros secondMicros at *
    omega
  rw [whole]
  exact .next

/-- Clocks that go forward leave out no day but the Sunday of the change. -/
theorem follows_forward {zone : Zone} {switch : Switch} {standard : Int} (inner : switch.Inner)
    (within : 0 ≤ switch.seconds + standard ∧ switch.seconds + standard + 3600 ≤ 86400)
    (next : later.micros = earlier.micros + dayMicros) (between : switch.Between earlier later)
    (before : zone.seconds earlier = standard) (after : zone.seconds later = standard + 3600) :
    Follows (zone.localDay earlier) (zone.localDay later) := by
  obtain ⟨day, sunday, low, high⟩ := between.sunday inner
  -- from the Saturday the hour may lead past the Sunday; on the Sunday the change comes too early to lead past the Monday
  have cases : zone.localDay later = zone.localDay earlier + 1 ∨
      zone.localDay later = zone.localDay earlier + 2 ∧ (zone.localDay earlier + 1) % 7 = 6 := by
    unfold localDay dayMicros secondMicros at *
    omega
  rcases cases with whole | ⟨skipped, sunday⟩
  · rw [whole]
    exact .next
  · rw [skipped]
    exact .past sunday

theorem follows_back {zone : Zone} {switch : Switch} {standard : Int} (inner : switch.Inner)
    (within : 0 ≤ switch.seconds + standard ∧ switch.seconds + standard + 3600 ≤ 86400)
    (next : later.micros = earlier.micros + dayMicros) (between : switch.Between earlier later)
    (before : zone.seconds earlier = standard + 3600) (after : zone.seconds later = standard) :
    Follows (zone.localDay earlier) (zone.localDay later) := by
  obtain ⟨day, sunday, low, high⟩ := between.sunday inner
  -- from the Sunday the hour may lead back into it; from the Saturday the Sunday is still reached
  have cases : zone.localDay later = zone.localDay earlier + 1 ∨
      zone.localDay later = zone.localDay earlier ∧ zone.localDay earlier % 7 = 6 := by
    unfold localDay dayMicros secondMicros at *
    omega
  rcases cases with whole | ⟨twice, sunday⟩
  · rw [whole]
    exact .next
  · rw [twice]
    exact .again sunday

theorem localDay_follows (zone : Zone) (next : later.micros = earlier.micros + dayMicros) :
    Follows (zone.localDay earlier) (zone.localDay later) := by
  cases zone with
  | utc => exact follows_same next rfl
  | east offset => exact follows_same next rfl
  | region place =>
    cases observed : place.summerTime? with
    | none => exact follows_same next (by simp [seconds, Region.seconds, observed])
    | some summer =>
      have regular := Region.regular observed
      rcases regular.covers_next (by omega) next.le with same | ⟨off, on, between⟩ | ⟨on, off, between⟩
      · exact follows_same next (by simp [seconds, Region.seconds, observed, same])
      · exact follows_forward regular.begins regular.forward next between
          (by simp [seconds, Region.seconds, observed, off]) (by simp [seconds, Region.seconds, observed, on])
      · exact follows_back regular.ends regular.back next between
          (by simp [seconds, Region.seconds, observed, on]) (by simp [seconds, Region.seconds, observed, off])

theorem localDay_le {zone : Zone} (ordered : earlier.micros ≤ later.micros)
    (ahead : zone.seconds earlier ≤ zone.seconds later) : zone.localDay earlier ≤ zone.localDay later := by
  unfold localDay dayMicros secondMicros
  omega

/-- Clocks that go back stay on the Sunday of the change. -/
theorem localDay_le_back {zone : Zone} {switch : Switch} {standard : Int} (inner : switch.Inner)
    (within : 0 ≤ switch.seconds + standard ∧ switch.seconds + standard + 3600 ≤ 86400)
    (between : switch.Between earlier later) (before : zone.seconds earlier = standard + 3600)
    (after : zone.seconds later = standard) : zone.localDay earlier ≤ zone.localDay later := by
  obtain ⟨day, _, low, high⟩ := between.sunday inner
  have upTo : zone.localDay earlier ≤ day := by
    unfold localDay dayMicros secondMicros at *
    omega
  have reached : day ≤ zone.localDay later := by
    unfold localDay dayMicros secondMicros at *
    omega
  exact upTo.trans reached

theorem localDay_mono (zone : Zone) (ordered : earlier.micros ≤ later.micros) :
    zone.localDay earlier ≤ zone.localDay later := by
  cases zone with
  | utc => exact localDay_le ordered le_rfl
  | east offset => exact localDay_le ordered le_rfl
  | region place =>
    cases observed : place.summerTime? with
    | none => exact localDay_le ordered (by simp [seconds, Region.seconds, observed])
    | some summer =>
      have regular := Region.regular observed
      -- the hour that is taken back is less than a day
      by_cases within : later.micros ≤ earlier.micros + dayMicros
      · rcases regular.covers_next ordered within with same | ⟨off, on, _⟩ | ⟨on, off, between⟩
        · exact localDay_le ordered (by simp [seconds, Region.seconds, observed, same])
        · refine localDay_le ordered ?_
          simp only [seconds, Region.seconds, observed, off, on, if_true, Bool.false_eq_true, if_false]
          omega
        · exact localDay_le_back regular.ends regular.back between
            (by simp [seconds, Region.seconds, observed, on]) (by simp [seconds, Region.seconds, observed, off])
      · have hour : (region place).seconds earlier ≤ (region place).seconds later + 3600 := by
          simp only [seconds, Region.seconds, observed]
          split <;> split <;> omega
        unfold localDay dayMicros secondMicros at *
        omega

end Zone

theorem Calendar.dateAt_eq_ok {calendar : Calendar} {utc : Reading} {date : Date} :
    calendar.dateAt utc = .ok date ↔ calendar.zone.localDay utc = date.day := by
  unfold dateAt Zone.wall
  rw [Failure.map_eq_ok]
  constructor
  · rintro ⟨moved, shown, rfl⟩
    rw [Reading.shift_eq_ok] at shown
    unfold Zone.localDay
    rw [← shown]
    rfl
  · intro same
    obtain ⟨day, inRange⟩ := date
    unfold Zone.localDay at same
    dsimp only at same
    generalize calendar.zone.seconds utc * secondMicros = ahead at *
    have bounds : 0 ≤ utc.micros + ahead ∧ utc.micros + ahead < readingEnd := by
      unfold readingEnd dayMicros secondMicros at *
      omega
    refine ⟨⟨(utc.micros + ahead).toNat, by omega⟩, ?_, ?_⟩
    · rw [Reading.shift_eq_ok]
      exact Int.toNat_of_nonneg bounds.1
    · simp only [Reading.date, Date.mk.injEq]
      unfold dayMicros secondMicros at *
      omega

/-- Clocks by the local days that they show: these never go back, and twenty-four hours of UTC lead on to the next day but for
a Sunday. -/
structure SteadyClocks where
  localDay : Reading → Int
  mono {earlier later : Reading} : earlier.micros ≤ later.micros → localDay earlier ≤ localDay later
  follows {earlier later : Reading} : later.micros = earlier.micros + dayMicros → Follows (localDay earlier) (localDay later)

def Zone.clocks (zone : Zone) : SteadyClocks := ⟨zone.localDay, zone.localDay_mono, zone.localDay_follows⟩

namespace SteadyClocks

variable {clocks : SteadyClocks} {utc : Reading}

/-- Only a local day within the years has a date. -/
def dateAt (clocks : SteadyClocks) (utc : Reading) : Except Failure Date :=
  if inRange : 0 ≤ clocks.localDay utc ∧ clocks.localDay utc < dayEnd then .ok ⟨(clocks.localDay utc).toNat, by omega⟩
  else .error .outOfRange

theorem dateAt_eq_ok {date : Date} : clocks.dateAt utc = .ok date ↔ clocks.localDay utc = date.day := by
  have bound := date.inRange
  unfold dateAt
  split
  next inRange =>
    cases date
    simp only [Except.ok.injEq, Date.mk.injEq] at bound ⊢
    omega
  next outside =>
    simp only [reduceCtorEq, false_iff]
    omega

theorem dateAt_only : Failure.Only .outOfRange (clocks.dateAt utc) := by
  unfold dateAt
  split
  · exact Failure.only_ok _
  · exact Failure.only_error

end SteadyClocks

/-- The clocks of a calendar are those of its zone. -/
theorem Calendar.dateAt_eq (calendar : Calendar) : calendar.dateAt = calendar.zone.clocks.dateAt := by
  funext utc
  cases shown : calendar.dateAt utc with
  | ok date => exact (SteadyClocks.dateAt_eq_ok.mpr (dateAt_eq_ok.mp shown)).symm
  | error failure =>
    cases shownToo : calendar.zone.clocks.dateAt utc with
    | ok date => cases shown.symm.trans (dateAt_eq_ok.mpr (SteadyClocks.dateAt_eq_ok.mp shownToo))
    | error other => rw [dateAt_only calendar utc failure shown, SteadyClocks.dateAt_only other shownToo]

end Overdue
