import Mathlib.Data.Nat.Periodic
import Overdue.Proofs.Lateness

/-! The policy that is published and the one that is charged. The notes of a policy announce a daily percentage and a cap; each
penalty day that is a working day adds the one, unless it is negative, and the total stops at the other. Before the last year
there is room for a finish that reaches the cap. -/
namespace Overdue

open Failure Notes

/-- Twenty weeks have a hundred weekdays, whatever day they start on. -/
theorem weekdays_card (first : Nat) : ((Finset.Ico first (first + 140)).filter fun day => day % 7 < 5).card = 100 := by
  have weekly : Function.Periodic (fun day => day % 7 < 5) 140 := fun day => by
    rw [eq_iff_iff]
    omega
  rw [Nat.filter_Ico_card_eq_of_periodic first 140 _ weekly]
  rfl

/-- The calendar of UTC without holidays. -/
def Calendar.plain : Calendar := ⟨[], .utc⟩

theorem Calendar.plain_localDay (utc : Reading) : plain.zone.clocks.localDay utc = (utc.micros / dayMicros : Nat) := by
  simp [plain, Zone.clocks, Zone.localDay, Zone.seconds]

theorem Calendar.hundred_le_ncard {first last : Reading} (weeks : first.micros + 140 * dayMicros ≤ last.micros) :
    100 ≤ (plain.workingDates first last).ncard := by
  have days : first.micros / dayMicros + 140 ≤ last.micros / dayMicros := by
    rw [← Nat.add_mul_div_right _ _ dayMicros_pos]
    exact Nat.div_le_div_right weeks
  have bound : last.micros / dayMicros < dayEnd := (Nat.div_lt_iff_lt_mul dayMicros_pos).mpr last.inRange
  generalize start : first.micros / dayMicros = day at days
  have inside : ((Finset.Ico (day + 1) (day + 1 + 140)).filter fun day => day % 7 < 5 : Set Nat) ⊆
      Date.day '' plain.workingDates first last := by
    intro weekday member
    rw [Finset.mem_coe, Finset.mem_filter, Finset.mem_Ico] at member
    obtain ⟨⟨after, upTo⟩, works⟩ := member
    refine ⟨⟨weekday, by omega⟩, ⟨?_, ?_, works, List.not_mem_nil⟩, rfl⟩
    · rw [plain_localDay, start]
      exact_mod_cast after
    · rw [plain_localDay]
      exact_mod_cast (Nat.lt_succ_iff.mp upTo).trans (by omega)
  calc 100 = _ := (weekdays_card (day + 1)).symm
    _ = _ := (Set.ncard_coe_finset _).symm
    _ ≤ (Date.day '' plain.workingDates first last).ncard := Set.ncard_le_ncard inside (Set.toFinite _)
    _ ≤ (plain.workingDates first last).ncard := Set.ncard_image_le (Set.toFinite _)

/-- An offset moves an instant by less than a day. -/
theorem Timestamp.instant_lt (timestamp : Timestamp) : timestamp.instant < timestamp.reading.micros + dayMicros := by
  unfold Timestamp.instant
  cases timestamp.offset with
  | none => simp [dayMicros, secondMicros]
  | some offset =>
    have bound := offset.inRange.1
    simp only [Option.elim_some, Offset.micros, dayMicros, secondMicros]
    omega

theorem Reading.room_of_year {reading : Reading} (before : reading.date.year < 9999) :
    reading.micros + 365 * dayMicros < readingEnd := by
  have year := reading.year_bounds.2.2
  have upTo := Nat.mul_le_mul_right dayMicros (Date.daysBeforeYear_mono before)
  have last : readingEnd = Date.daysBeforeYear 9999 * dayMicros + 365 * dayMicros := by
    rw [← Nat.add_mul]
    rfl
  rw [last]
  exact Nat.add_lt_add_right (year.trans_le upTo) _

/-- A due date before the last year, as it is written or on the clock of UTC, leaves all but a day of that year. -/
theorem Timestamp.room_of_year {dueAt : Timestamp} {due : Reading} (dueUtc : dueAt.utc = .ok due)
    (before : dueAt.reading.date.year < 9999 ∨ due.date.year < 9999) : due.micros + 364 * dayMicros ≤ readingEnd := by
  rcases before with written | inUtc
  · have room := Reading.room_of_year written
    have near := dueAt.instant_lt
    rw [instant_of_utc dueUtc] at near
    omega
  · have room := Reading.room_of_year inUtc
    omega

namespace Penalty

variable {clocks : Reading → Except Failure Date} {holidays : List Date} {terms : Terms} {finished : Timestamp} {charge : Int}
  {due : Reading}

/-- What a penalty day adds to the total. -/
def cost (clocks : Reading → Except Failure Date) (holidays : List Date) (daily : Int) (day : Reading) : Int :=
  if holds (isWorkingBy clocks holidays day) then daily else 0

theorem sum_cost {days kept : List Reading} (filtered : days.filterM (isWorkingBy clocks holidays) = .ok kept) (daily : Int) :
    (days.map (cost clocks holidays daily)).sum = kept.length * daily := by
  rw [filterM_eq filtered]
  clear filtered
  induction days with
  | nil => simp
  | cons day others ih =>
    rw [List.map_cons, List.sum_cons, ih, cost, List.filter_cons]
    split
    next works => rw [List.length_cons, Nat.cast_add, Nat.cast_one, Int.add_mul, Int.one_mul, Int.add_comm]
    next => rw [Int.zero_add]

/-- Where there is room for twenty weeks after the due instant, a finish at their end costs the whole cap. -/
theorem percentage_full (applied : terms.applied = true) (costs : 0 < terms.daily) (dueUtc : terms.dueAt.utc = .ok due)
    (room : due.micros + 364 * dayMicros ≤ readingEnd) :
    ∃ finished, Penalty.percentage terms finished .plain = .ok (normalizeCap terms.cap) := by
  have small : graceMicros < dayMicros := by decide
  obtain ⟨done, after⟩ : ∃ done : Reading, done.micros = due.micros + graceMicros + 139 * dayMicros :=
    ⟨⟨_, by omega⟩, rfl⟩
  have doneUtc := Timestamp.utc_ofUtc done
  have late : due.micros + graceMicros ≤ done.micros := by omega
  have ends := ends_of_before late (by omega) .plain
  obtain ⟨charge, charged⟩ := (percentage_returns_iff dueUtc doneUtc).mpr (.inr ⟨by omega, fun _ => ends⟩)
  obtain ⟨kept, counted, same⟩ := percentage_counted applied dueUtc doneUtc late charged
  obtain ⟨last, isLast, length⟩ := workingDays_length dueUtc doneUtc counted
  obtain ⟨whole, micros, _, high⟩ := isLast.near late (by omega)
  have steps : 139 < whole + 1 := by
    refine Nat.lt_of_mul_lt_mul_right (a := dayMicros) ?_
    omega
  have weeks := Nat.mul_le_mul_right dayMicros steps
  have days : 100 ≤ (Calendar.plain.workingDates due last).ncard := Calendar.hundred_le_ncard (by omega)
  have each : 1 ≤ max 0 terms.daily := le_max_of_le_right costs
  refine ⟨.ofUtc done, ?_⟩
  rw [charged, same, ← length]
  refine congrArg Except.ok (min_eq_left ?_)
  calc normalizeCap terms.cap ≤ 100 := normalizeCap_le terms.cap
    _ ≤ ((Calendar.plain.workingDates due last).ncard : Int) := by exact_mod_cast days
    _ ≤ _ := le_mul_of_one_le_right (Int.natCast_nonneg _) each

theorem Charged.nothing (charged : Charged clocks holidays terms finished charge)
    (free : terms.applied = false ∨ terms.daily ≤ 0) : charge = 0 := by
  cases charged with
  | unapplied | onTime => rfl
  | late applied =>
    rcases free with off | free
    · cases off.symm.trans applied
    · rw [max_eq_left free, Int.mul_zero]
      exact min_eq_right (normalizeCap_pos terms.cap).le

/-- The charge is the sum of what the penalty days add, up to the cap; a finish on time has none. -/
theorem Charged.total (charged : Charged clocks holidays terms finished charge) (applied : terms.applied = true) :
    ∃ days, (terms.dueAt.PassedBy finished → Penalty.days terms.dueAt finished = .ok days) ∧
      (¬terms.dueAt.PassedBy finished → days = []) ∧
      charge = min (normalizeCap terms.cap) (days.map (cost clocks holidays (max 0 terms.daily))).sum := by
  cases charged with
  | unapplied off => cases off.symm.trans applied
  | onTime early =>
    refine ⟨[], fun passed => absurd early (Int.not_lt.mpr passed), fun _ => rfl, ?_⟩
    exact (min_eq_right (normalizeCap_pos terms.cap).le).symm
  | late _ reached areDays filtered =>
    exact ⟨_, fun _ => areDays, fun onTime => absurd reached onTime, by rw [sum_cost filtered]⟩

end Penalty

namespace Notes

variable {policy : Policy} {daily : Int} {cap : Option Int}

theorem announced_eq_free : announced policy = .free ↔ policy.applied = false ∨ policy.daily = 0 := by
  unfold announced
  split
  next free => simpa using free
  next charged => simpa using charged

theorem announced_eq_charged (told : announced policy = .charged daily cap) :
    policy.applied = true ∧ policy.daily = daily ∧ daily ≠ 0 ∧ normalizeCap policy.cap = cap.getD 100 := by
  unfold announced at told
  split at told
  next => cases told
  next charged =>
    simp only [Bool.not_eq_true, Bool.or_eq_false_iff, Bool.not_eq_false', decide_eq_false_iff_not] at charged
    cases told
    refine ⟨charged.1, rfl, charged.2, ?_⟩
    split
    next => rfl
    next uncapped => exact le_antisymm (normalizeCap_le policy.cap) (Int.not_lt.mp uncapped)

end Notes

namespace Policy

section Terms

variable {policy : Policy} {due : Reading} {terms : Terms} {daily : Int} {cap : Option Int}
  (stands : policy.due? = .ok (some due)) (frozen : policy.terms = .ok terms)
include stands frozen

theorem terms_eq : terms = ⟨.ofUtc due, policy.applied, policy.daily, policy.cap⟩ := by
  obtain ⟨_, placed, dueUtc, _⟩ := dueAt_of_due stands
  exact Except.ok.inj (frozen.symm.trans (terms_of_due placed dueUtc))

theorem announced_total {clocks : Reading → Except Failure Date} {holidays : List Date} {finished : Timestamp} {charge : Int}
    (told : announced policy = .charged daily cap)
    (ok : Penalty.percentageBy clocks holidays terms finished = .ok charge) :
    ∃ days, (terms.dueAt.PassedBy finished → Penalty.days terms.dueAt finished = .ok days) ∧
      (¬terms.dueAt.PassedBy finished → days = []) ∧
      charge = min (cap.getD 100) (days.map (Penalty.cost clocks holidays (max 0 daily))).sum := by
  obtain ⟨applied, rfl, _, limit⟩ := announced_eq_charged told
  obtain rfl := terms_eq stands frozen
  rw [← limit]
  exact (Penalty.percentageBy_charged ok).total applied

theorem announced_reached (room : due.micros + 364 * dayMicros ≤ readingEnd) (told : announced policy = .charged daily cap)
    (costs : 0 < daily) : ∃ finished, Penalty.percentage terms finished .plain = .ok (cap.getD 100) := by
  obtain ⟨applied, rfl, _, limit⟩ := announced_eq_charged told
  obtain rfl := terms_eq stands frozen
  rw [← limit]
  exact Penalty.percentage_full applied costs (Timestamp.utc_ofUtc due) room

theorem announced_nothing {clocks : Reading → Except Failure Date} {holidays : List Date} {finished : Timestamp} {charge : Int}
    (told : announced policy = .free ∨ ∃ daily cap, announced policy = .charged daily cap ∧ daily < 0)
    (ok : Penalty.percentageBy clocks holidays terms finished = .ok charge) : charge = 0 := by
  obtain rfl := terms_eq stands frozen
  refine (Penalty.percentageBy_charged ok).nothing ?_
  rcases told with free | ⟨daily, cap, told, negative⟩
  · exact (announced_eq_free.mp free).imp_right le_of_eq
  · obtain ⟨_, rfl, _⟩ := announced_eq_charged told
    exact .inr negative.le

/-- Nothing is ever charged exactly where nothing or a negative percentage is announced. -/
theorem charges_nothing_iff (room : due.micros + 364 * dayMicros ≤ readingEnd) :
    (∀ calendar finished charge, Penalty.percentage terms finished calendar = .ok charge → charge = 0) ↔
      announced policy = .free ∨ ∃ daily cap, announced policy = .charged daily cap ∧ daily < 0 := by
  constructor
  · intro never
    cases told : announced policy with
    | free => exact .inl rfl
    | charged daily cap =>
      obtain ⟨_, _, different, limit⟩ := announced_eq_charged told
      refine .inr ⟨daily, cap, rfl, lt_of_le_of_ne (Int.not_lt.mp fun costs => ?_) different⟩
      obtain ⟨finished, charged⟩ := announced_reached stands frozen room told costs
      have positive := normalizeCap_pos policy.cap
      rw [limit, never _ _ _ charged] at positive
      exact lt_irrefl 0 positive
  · exact fun told calendar finished charge ok => announced_nothing stands frozen told ok

end Terms

/-- A policy announces one daily percentage and cap, or none. On clocks of any kind, those of a calendar among them, each
penalty day of a finish adds the announced percentage to the charge if it is a working day, and the charge stops at the
announced cap or else at the whole score, which is reached; but a negative percentage adds nothing. So nothing is ever charged
exactly where no penalty or a negative one is announced. -/
theorem announcement_kept {policy : Policy} {dueAt : Timestamp} {due : Reading} (active : policy.active = .ok true)
    (placed : policy.dueAt = some dueAt) (dueUtc : dueAt.utc = .ok due)
    (before : dueAt.reading.date.year < 9999 ∨ due.date.year < 9999) :
    (∀ now utc, now.utc = .ok utc → ∃ notes, describe policy now = .ok notes) ∧
    ∃ terms, policy.terms = .ok terms ∧ ∀ now notes, describe policy now = .ok notes →
      (∃! told : Announcement, told.text ∈ notes) ∧
      ((∀ calendar finished charge, Penalty.percentage terms finished calendar = .ok charge → charge = 0) ↔
        Announcement.free.text ∈ notes ∨ ∃ daily cap, (Announcement.charged daily cap).text ∈ notes ∧ daily < 0) ∧
      (∀ clocks holidays finished charge, Penalty.percentageBy clocks holidays terms finished = .ok charge →
        (Announcement.free.text ∈ notes → charge = 0) ∧
        ∀ daily cap, (Announcement.charged daily cap).text ∈ notes → charge ≤ cap.getD 100 ∧
          ∃ days, (terms.dueAt.PassedBy finished → Penalty.days terms.dueAt finished = .ok days) ∧
            (¬terms.dueAt.PassedBy finished → days = []) ∧
            charge = min (cap.getD 100) (days.map (Penalty.cost clocks holidays (max 0 daily))).sum) ∧
      ∀ daily cap, (Announcement.charged daily cap).text ∈ notes → 0 < daily →
        ∃ finished, Penalty.percentage terms finished .plain = .ok (cap.getD 100) := by
  obtain ⟨_, dueUtcToo, stands⟩ := due?_of_placed active placed
  cases dueUtc.symm.trans dueUtcToo
  have room := Timestamp.room_of_year dueUtc before
  have frozen := terms_of_due placed dueUtc
  refine ⟨fun now utc nowUtc => (describe_returns_iff stands nowUtc).mpr ?_, _, frozen, fun now notes described => ?_⟩
  · rintro ⟨other, standsToo, beyond⟩
    cases stands.symm.trans standsToo
    have small : graceMicros < dayMicros := by decide
    omega
  · obtain ⟨_, limit, _, _, rfl⟩ := (describe_eq_ok stands).mp described
    simp only [text_mem_iff, @eq_comm _ _ (announced policy)]
    refine ⟨⟨announced policy, rfl, fun _ same => same.symm⟩, charges_nothing_iff stands frozen room,
      fun clocks holidays finished charge ok => ⟨fun free => announced_nothing stands frozen (.inl free) ok,
        fun daily cap told => ?_⟩, fun daily cap => announced_reached stands frozen room⟩
    obtain ⟨days, late, onTime, total⟩ := announced_total stands frozen told ok
    exact ⟨total ▸ min_le_left _ _, days, late, onTime, total⟩

/-- Due at the end of the last year but one on clocks far west of UTC, where the year is over. -/
def evePolicy : Policy := ⟨some ⟨315506361599999999, some ⟨-86340, by decide⟩⟩, true, 30, 0, true⟩

theorem announcement_kept_eve : ∃ notes terms finished, describe evePolicy (.ofUtc 63805363140000000) = .ok notes ∧
    (Announcement.charged 30 none).text ∈ notes ∧ evePolicy.terms = .ok terms ∧
    Penalty.percentage terms finished .plain = .ok 100 := by
  have placed : evePolicy.dueAt = some ⟨315506361599999999, some ⟨-86340, by decide⟩⟩ := rfl
  have stands : evePolicy.due? = .ok (some 315506447939999999) := rfl
  have dueUtc : Timestamp.utc ⟨315506361599999999, some ⟨-86340, by decide⟩⟩ = .ok 315506447939999999 := rfl
  obtain ⟨describes, terms, frozen, kept⟩ := announcement_kept rfl placed dueUtc (.inl (by decide))
  obtain ⟨notes, described⟩ := describes (.ofUtc 63805363140000000) _ rfl
  have told : (Announcement.charged 30 none).text ∈ notes := by
    obtain ⟨_, _, _, _, rfl⟩ := (describe_eq_ok stands).mp described
    exact (text_mem_iff _ _ _ _).mpr rfl
  obtain ⟨_, _, _, reached⟩ := kept _ notes described
  obtain ⟨finished, charged⟩ := reached 30 none told (by decide)
  exact ⟨notes, terms, finished, described, told, frozen, charged⟩

/-- A policy with a negative percentage. -/
def refunding : Policy := ⟨some (.ofUtc 63805276740000000), true, -5, 50, true⟩

/-- A negative percentage is announced, though nothing is ever charged. -/
theorem announcement_negative : ∃ notes terms, refunding.active = .ok true ∧
    describe refunding (.ofUtc 63805276740000000) = .ok notes ∧ refunding.terms = .ok terms ∧
    (Announcement.charged (-5) (some 50)).text ∈ notes ∧
    ¬(Announcement.free.text ∈ notes ↔
      ∀ calendar finished charge, Penalty.percentage terms finished calendar = .ok charge → charge = 0) := by
  have stands : refunding.due? = .ok (some 63805276740000000) := rfl
  have announces : announced refunding = .charged (-5) (some 50) := rfl
  have frozen : refunding.terms = .ok ⟨.ofUtc 63805276740000000, true, -5, 50⟩ := rfl
  have graced : Reading.shift 63805276740000000 graceMicros = .ok 63805276800000000 := rfl
  have described := (describe_eq_ok stands).mpr ⟨_, _, Timestamp.utc_ofUtc 63805276740000000, graced, rfl⟩
  refine ⟨_, _, rfl, described, frozen, (text_mem_iff _ _ _ _).mpr announces.symm, fun same => ?_⟩
  have free := same.mpr fun calendar finished charge ok =>
    announced_nothing stands frozen (.inr ⟨-5, some 50, announces, by decide⟩) ok
  exact absurd ((text_mem_iff _ _ _ _).mp free) (by rw [announces]; decide)

end Policy
end Overdue
