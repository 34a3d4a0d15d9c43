import Overdue.Proofs.GradeScore
import Overdue.Proofs.Rounding

/-! The order of adjusted scores. Each of the four roundings of an adjustment keeps the order and does not pass a value that
fits, from the subnormal magnitudes to the greatest: a larger percentage or a smaller raw score never gives a larger score,
and none is above the raw score to two decimals. -/
namespace Overdue

open Failure

theorem Representable.one : Representable unitsPerOne := by
  rw [unitsPerOne_eq]
  exact Double.Representable.two_pow (by decide)

namespace Double

variable {units more : Nat}

theorem le_trans {a b c : Double} (first : a.le b = true) (second : b.le c = true) : a.le c = true := by
  cases b with
  | nan => cases a <;> cases first
  | infinite sign =>
    cases a <;> cases c <;> cases sign <;> simp_all [le, lt]
  | finite sign middle fits =>
    cases a <;> cases c <;> simp_all [le, lt]
    exact Int.le_trans first second

theorem signed_notNegative {negative : Bool} (notNegative : negative = true → units = 0) : signed negative units = units := by
  cases negative with
  | false => rfl
  | true => simp [signed, notNegative]

theorem le_finite {negative sign : Bool} (fits : Representable units) (fitsToo : Representable more)
    (notNegative : negative = true → units = 0) (notNegativeToo : sign = true → more = 0) :
    (finite negative units fits).le (finite sign more fitsToo) = true ↔ units ≤ more := by
  simp [le, lt, signed_notNegative notNegative, signed_notNegative notNegativeToo]

theorem nearest_finite (negative : Bool) {num den : Nat} (fits : Representable (significant num den)) :
    nearest negative num den = finite negative (significant num den) fits :=
  dif_pos fits.2

theorem one_eq : Double.one = finite false unitsPerOne .one := by
  have same : significant unitsPerOne 1 = unitsPerOne := by
    have exact := significant_exact Nat.one_pos Representable.one.bits
    rwa [Nat.mul_one] at exact
  have fits : Representable (significant unitsPerOne 1) := by
    rw [same]
    exact .one
  have natural : decide ((1 : Int) < 0) = false := rfl
  rw [Double.one, ofInt, ofRatio, natural, Int.natAbs_one, Nat.one_mul, nearest_finite false fits]
  simp only [same]

/-- A finite value that is not below zero, by its magnitude; it may be the negative zero. -/
theorem of_notNegative {d : Double} (finite : d.isFinite = true) (notNegative : Double.zero.le d = true) :
    ∃ negative units fits, d = .finite negative units fits ∧ (negative = true → units = 0) := by
  cases d with
  | nan | infinite => cases finite
  | finite negative units fits =>
    refine ⟨negative, units, fits, rfl, ?_⟩
    rintro rfl
    rw [zero_eq] at notNegative
    simpa [le, lt, signed] using notNegative

theorem sub_finite (fits : Representable units) (fitsToo : Representable more) (upTo : more ≤ units) :
    (finite false units fits).sub (finite false more fitsToo) = nearest false (units - more) 1 := by
  have difference : signed false units - signed false more = ((units - more : Nat) : Int) := by
    simp only [signed, Bool.false_eq_true, if_false]
    omega
  have natural : decide (((units - more : Nat) : Int) < 0) = false := by simp
  rw [sub, difference, Int.natAbs_natCast, natural]
  simp

theorem mul_finite (negative : Bool) (fits : Representable units) (fitsToo : Representable more) :
    (finite negative units fits).mul (finite false more fitsToo) = nearest negative (units * more) unitsPerOne := by
  simp [mul]

/-- What is not above zero counts as zero; the sign of zero is lost. -/
theorem zero_or_above {negative : Bool} (fits : Representable units) (notNegative : negative = true → units = 0) :
    (if Double.zero.lt (finite negative units fits) then finite negative units fits else Double.zero) = finite false units fits := by
  by_cases none : units = 0
  · subst none
    simp [zero_eq, lt, signed]
  · have above : Double.zero.lt (finite negative units fits) = true := by
      rw [zero_eq, lt, signed_notNegative notNegative]
      simpa [signed] using Nat.pos_of_ne_zero none
    have sign : negative = false := Bool.eq_false_iff.mpr fun sign => none (notNegative sign)
    rw [if_pos above, sign]

/-- The magnitude to two decimals. -/
def hundredths (units : Nat) : Nat := significant (roundHalfEven (units * 100) unitsPerOne * unitsPerOne) 100

theorem hundredths_mono (upTo : units ≤ more) : hundredths units ≤ hundredths more := by
  apply significant_mono (by decide)
  apply Nat.mul_le_mul_right
  apply roundHalfEven_mono
  exact Nat.mul_le_mul_right 100 upTo

theorem hundredths_zero : hundredths 0 = 0 := by
  simp [hundredths, significant, roundHalfEven]

/-- A whole number stays as it is. -/
theorem hundredths_whole {count : Nat} (bits : 2 ^ ((count * unitsPerOne).log2 - 52) ∣ count * unitsPerOne) :
    hundredths (count * unitsPerOne) = count * unitsPerOne := by
  rw [hundredths, Nat.mul_right_comm, roundHalfEven_exact _ unitsPerOne_pos, Nat.mul_right_comm]
  exact significant_exact (by decide) bits

/-- From 2^53 on all values are whole, so that none is rounded up beyond the greatest. -/
theorem hundredths_fits (fits : Representable units) : Representable (hundredths units) := by
  refine ⟨significant_dvd _ _, ?_⟩
  have whole : 2 ^ 53 * unitsPerOne = 2 ^ (53 + 1074) := by rw [unitsPerOne_eq, ← Nat.pow_add]
  rcases Nat.lt_or_ge units (2 ^ 53 * unitsPerOne) with small | large
  · calc hundredths units ≤ hundredths (2 ^ 53 * unitsPerOne) := hundredths_mono small.le
      _ = 2 ^ 53 * unitsPerOne := by
        apply hundredths_whole
        rw [whole]
        exact bits_of_two_pow _
      _ < unitsEnd := by
        rw [whole, unitsEnd_eq]
        exact Nat.pow_lt_pow_right (by decide) (by decide)
  · have positive : units ≠ 0 := (Nat.lt_of_lt_of_le (Nat.mul_pos (by decide) unitsPerOne_pos) large).ne'
    have high : 53 + 1074 ≤ units.log2 := by
      rw [Nat.le_log2 positive, ← whole]
      exact large
    have multiple : unitsPerOne ∣ units := by
      rw [unitsPerOne_eq]
      exact (Nat.pow_dvd_pow 2 (by omega)).trans fits.bits
    obtain ⟨count, same⟩ := exists_eq_mul_left_of_dvd multiple
    rw [same, hundredths_whole (same ▸ fits.bits), ← same]
    exact fits.2

theorem roundHundredths_finite (negative : Bool) (fits : Representable units) :
    (finite negative units fits).roundHundredths = finite negative (hundredths units) (hundredths_fits fits) :=
  nearest_finite negative (hundredths_fits fits)

end Double

namespace Score

open Double

variable {units more percentage : Nat}

/-- The part of one that a percentage takes, and the part that it leaves. -/
def takenUnits (percentage : Nat) : Nat := significant (percentage * unitsPerOne) 100

def keptUnits (percentage : Nat) : Nat := significant (unitsPerOne - takenUnits percentage) 1

theorem takenUnits_mono {larger : Nat} (upTo : percentage ≤ larger) : takenUnits percentage ≤ takenUnits larger :=
  significant_mono (by decide) (Nat.mul_le_mul_right unitsPerOne upTo)

theorem takenUnits_full : takenUnits 100 = unitsPerOne := by
  rw [takenUnits, Nat.mul_comm]
  exact significant_exact (by decide) Representable.one.bits

theorem takenUnits_none : takenUnits 0 = 0 := by
  simp [takenUnits, significant, roundHalfEven]

theorem takenUnits_le (part : percentage ≤ 100) : takenUnits percentage ≤ unitsPerOne :=
  takenUnits_full ▸ takenUnits_mono part

theorem keptUnits_anti {larger : Nat} (upTo : percentage ≤ larger) : keptUnits larger ≤ keptUnits percentage :=
  significant_mono (by decide) (Nat.sub_le_sub_left (takenUnits_mono upTo) unitsPerOne)

theorem keptUnits_none : keptUnits 0 = unitsPerOne := by
  rw [keptUnits, takenUnits_none, Nat.sub_zero]
  have exact := significant_exact (by decide : 0 < 1) Representable.one.bits
  rwa [Nat.mul_one] at exact

theorem keptUnits_full : keptUnits 100 = 0 := by
  rw [keptUnits, takenUnits_full, Nat.sub_self]
  simp [significant, roundHalfEven]

theorem keptUnits_le (percentage : Nat) : keptUnits percentage ≤ unitsPerOne :=
  keptUnits_none ▸ keptUnits_anti (Nat.zero_le percentage)

theorem takenUnits_fits (part : percentage ≤ 100) : Representable (takenUnits percentage) :=
  ⟨significant_dvd _ _, (takenUnits_le part).trans_lt Representable.one.2⟩

theorem keptUnits_fits (percentage : Nat) : Representable (keptUnits percentage) :=
  ⟨significant_dvd _ _, (keptUnits_le percentage).trans_lt Representable.one.2⟩

theorem kept_finite (part : percentage ≤ 100) : kept percentage = .ok (finite false (keptUnits percentage) (keptUnits_fits percentage)) := by
  have natural : decide ((percentage : Int) < 0) = false := by simp
  have quotient : quotient? percentage 100 = some (finite false (takenUnits percentage) (takenUnits_fits part)) := by
    rw [quotient?, ofRatio, Int.natAbs_natCast, natural]
    exact congrArg notInfinite? (nearest_finite false (takenUnits_fits part))
  have difference := (sub_finite .one (takenUnits_fits part) (takenUnits_le part)).trans
    (nearest_finite false (keptUnits_fits percentage))
  rw [kept, quotient, one_eq]
  exact congrArg Except.ok difference

theorem adjust_returns (raw : Double) {percentage : Int} (low : 0 ≤ percentage) (high : percentage ≤ 100) :
    ∃ score, adjust raw percentage = .ok score := by
  obtain ⟨part, rfl⟩ := Int.eq_ofNat_of_zero_le low
  exact ⟨_, map_eq_ok.mpr ⟨_, kept_finite (Int.ofNat_le.mp high), rfl⟩⟩

/-- A product with a part of one. -/
def productUnits (units part : Nat) : Nat := significant (units * part) unitsPerOne

theorem productUnits_mono {part greater : Nat} (upTo : units ≤ more) (upToToo : part ≤ greater) :
    productUnits units part ≤ productUnits more greater :=
  significant_mono unitsPerOne_pos (Nat.mul_le_mul upTo upToToo)

theorem productUnits_one (fits : Representable units) : productUnits units unitsPerOne = units :=
  significant_exact unitsPerOne_pos fits.bits

theorem productUnits_zero (units : Nat) : productUnits units 0 = 0 := by
  simp [productUnits, significant, roundHalfEven]

theorem productUnits_le (fits : Representable units) {part : Nat} (within : part ≤ unitsPerOne) : productUnits units part ≤ units :=
  (productUnits_mono (Nat.le_refl units) within).trans_eq (productUnits_one fits)

theorem productUnits_fits (fits : Representable units) {part : Nat} (within : part ≤ unitsPerOne) :
    Representable (productUnits units part) :=
  ⟨significant_dvd _ _, (productUnits_le fits within).trans_lt fits.2⟩

/-- The magnitude of an adjusted score. -/
def adjustedUnits (units percentage : Nat) : Nat := hundredths (productUnits units (keptUnits percentage))

theorem adjustedUnits_fits (fits : Representable units) (percentage : Nat) : Representable (adjustedUnits units percentage) :=
  hundredths_fits (productUnits_fits fits (keptUnits_le percentage))

theorem adjust_finite {negative : Bool} (fits : Representable units) (notNegative : negative = true → units = 0)
    (part : percentage ≤ 100) : adjust (finite negative units fits) percentage =
      .ok (finite false (adjustedUnits units percentage) (adjustedUnits_fits fits percentage)) := by
  have within := keptUnits_le percentage
  have product : (finite negative units fits).mul (finite false (keptUnits percentage) (keptUnits_fits percentage)) =
      finite negative (productUnits units (keptUnits percentage)) (productUnits_fits fits within) :=
    (mul_finite negative fits (keptUnits_fits percentage)).trans (nearest_finite negative (productUnits_fits fits within))
  have zero : negative = true → productUnits units (keptUnits percentage) = 0 := by
    intro sign
    have bound := productUnits_le fits within
    rw [notNegative sign] at bound ⊢
    exact Nat.le_zero.mp bound
  rw [adjust, kept_finite part]
  apply congrArg Except.ok
  rw [scaled, product, zero_or_above _ zero]
  exact roundHundredths_finite false (productUnits_fits fits within)

theorem adjustedUnits_mono (upTo : units ≤ more) : adjustedUnits units percentage ≤ adjustedUnits more percentage :=
  hundredths_mono (productUnits_mono upTo (Nat.le_refl _))

theorem adjustedUnits_anti {larger : Nat} (upTo : percentage ≤ larger) : adjustedUnits units larger ≤ adjustedUnits units percentage :=
  hundredths_mono (productUnits_mono (Nat.le_refl units) (keptUnits_anti upTo))

theorem adjustedUnits_none (fits : Representable units) : adjustedUnits units 0 = hundredths units := by
  rw [adjustedUnits, keptUnits_none, productUnits_one fits]

theorem adjustedUnits_full (units : Nat) : adjustedUnits units 100 = 0 := by
  rw [adjustedUnits, keptUnits_full, productUnits_zero, hundredths_zero]

/-- For each score that is finite and not negative, and each percentage from 0 to 100, there is an adjusted score, between zero
and the score to two decimals: just that for none, and zero for all. It does not grow with the percentage, and does not
shrink where the score grows. -/
theorem adjust_ordered {raw : Double} (finite : raw.isFinite = true) (notNegative : Double.zero.le raw = true)
    {percentage : Int} (low : 0 ≤ percentage) (high : percentage ≤ 100) :
    ∃ score, adjust raw percentage = .ok score ∧ score.isFinite = true ∧ Double.zero.le score = true ∧
      score.le raw.roundHundredths = true ∧ (percentage = 0 → raw.roundHundredths.le score = true) ∧
      (percentage = 100 → score = .zero) ∧
      (∀ larger other, percentage ≤ larger → larger ≤ 100 → adjust raw larger = .ok other → other.le score = true) ∧
      ∀ greater other, greater.isFinite = true → raw.le greater = true → adjust greater percentage = .ok other →
        score.le other = true := by
  obtain ⟨part, rfl⟩ := Int.eq_ofNat_of_zero_le low
  obtain ⟨negative, units, fits, rfl, sign⟩ := of_notNegative finite notNegative
  have within : part ≤ 100 := by omega
  have rounds := roundHundredths_finite negative fits
  have signToo : negative = true → hundredths units = 0 := by
    intro negated
    rw [sign negated, hundredths_zero]
  refine ⟨_, adjust_finite fits sign within, rfl, zero_le_adjust (adjust_finite fits sign within), ?_, ?_, ?_, ?_, ?_⟩
  · rw [rounds, le_finite _ _ (by simp) signToo, ← adjustedUnits_none fits]
    exact adjustedUnits_anti (Nat.zero_le part)
  · intro none
    obtain rfl : part = 0 := by omega
    rw [rounds, le_finite _ _ signToo (by simp), adjustedUnits_none fits]
  · intro full
    obtain rfl : part = 100 := by omega
    simp only [adjustedUnits_full, zero_eq]
  · intro larger other more most adjusts
    obtain ⟨partToo, rfl⟩ := Int.eq_ofNat_of_zero_le (low.trans more)
    cases (adjust_finite fits sign (by omega)).symm.trans adjusts
    rw [le_finite _ _ (by simp) (by simp)]
    exact adjustedUnits_anti (by omega)
  · intro greater other finiteToo more adjusts
    obtain ⟨negativeToo, unitsToo, fitsToo, rfl, signToo⟩ := of_notNegative finiteToo (le_trans notNegative more)
    cases (adjust_finite fitsToo signToo within).symm.trans adjusts
    rw [le_finite _ _ sign signToo] at more
    rw [le_finite _ _ (by simp) (by simp)]
    exact adjustedUnits_mono more

/-- An eighth lies half-way between two hundredths. -/
def eighth : Double := .ofRatio false 1 8

theorem adjust_ordered_tie : ∃ score, adjust eighth 0 = .ok score ∧ score.le (.ofRatio false 12 100) = true ∧
    (Double.ofRatio false 12 100).le score = true ∧ ∀ other, adjust eighth 10 = .ok other → other.le score = true := by
  have finite : eighth.isFinite = true := by decide +kernel
  have notNegative : Double.zero.le eighth = true := by decide +kernel
  have rounds : eighth.roundHundredths = .ofRatio false 12 100 := by decide +kernel
  obtain ⟨score, adjusts, _, _, below, whole, _, larger, _⟩ := adjust_ordered finite notNegative (Int.le_refl 0) (by decide)
  rw [rounds] at below whole
  exact ⟨score, adjusts, below, whole rfl, fun other => larger 10 other (by decide) (by decide)⟩

end Score
end Overdue
