import Mathlib.Tactic.Positivity
import Mathlib.Tactic.Ring
import Overdue.Double

/-! Rounding of quotients. A quotient goes to the binary64 magnitude nearest to it, a tie to the even significand; whole
numbers on either side of it are not passed. -/
namespace Overdue

theorem roundHalfEven_mul_right (num den : Nat) {scale : Nat} (positive : 0 < scale) :
    roundHalfEven (num * scale) (den * scale) = roundHalfEven num den := by
  unfold roundHalfEven
  rw [Nat.mul_div_mul_right num den positive, Nat.mul_mod_mul_right]
  have halves : 2 * (num % den * scale) = 2 * (num % den) * scale := (Nat.mul_assoc _ _ _).symm
  simp only [halves, Nat.mul_lt_mul_right positive]

theorem roundHalfEven_le_of_le {num den whole : Nat} (positive : 0 < den) (below : num ≤ whole * den) :
    roundHalfEven num den ≤ whole := by
  have quotient : num / den ≤ whole := Nat.div_le_of_le_mul (by rwa [Nat.mul_comm])
  have next := roundHalfEven_le num den
  by_cases exact : num / den = whole
  · have split := Nat.div_add_mod num den
    rw [exact, Nat.mul_comm] at split
    have rest : num % den = 0 := by omega
    simp [roundHalfEven, rest, positive, exact]
  · omega

theorem lt_roundHalfEven {num den whole : Nat} (positive : 0 < den) (above : 2 * (whole * den) + den < 2 * num) :
    whole < roundHalfEven num den := by
  have low := le_roundHalfEven num den
  by_cases beyond : whole < num / den
  · omega
  · have split := Nat.div_add_mod num den
    have scaled : den * (num / den) ≤ whole * den := by
      rw [Nat.mul_comm]
      exact Nat.mul_le_mul_right den (by omega)
    have half : den < 2 * (num % den) := by omega
    have reached : whole ≤ num / den := by
      rw [Nat.le_div_iff_mul_le positive]
      omega
    unfold roundHalfEven
    rw [if_neg (by omega), if_pos half]
    omega

theorem roundHalfEven_mono {num more : Nat} (upTo : num ≤ more) (den : Nat) : roundHalfEven num den ≤ roundHalfEven more den := by
  rcases Nat.lt_or_eq_of_le (Nat.div_le_div_right (c := den) upTo) with below | same
  · calc roundHalfEven num den ≤ num / den + 1 := roundHalfEven_le num den
      _ ≤ more / den := below
      _ ≤ roundHalfEven more den := le_roundHalfEven more den
  · have split := Nat.div_add_mod num den
    have splitToo := Nat.div_add_mod more den
    rw [← same] at splitToo
    unfold roundHalfEven
    rw [← same]
    have rests : num % den ≤ more % den := by omega
    split
    next => split <;> [skip; split] <;> omega
    next half =>
      have halfToo : ¬2 * (more % den) < den := by omega
      rw [if_neg halfToo]
      split <;> split <;> omega

theorem roundHalfEven_exact (whole : Nat) {den : Nat} (positive : 0 < den) : roundHalfEven (whole * den) den = whole := by
  simp [roundHalfEven, positive]

theorem unitsPerOne_eq : unitsPerOne = 2 ^ 1074 := Nat.pow_eq

theorem unitsEnd_eq : unitsEnd = 2 ^ 2098 := Nat.pow_eq

theorem unitsPerOne_pos : 0 < unitsPerOne := by
  rw [unitsPerOne_eq]
  positivity

theorem Double.spacing_eq (num den : Nat) : spacing num den = 2 ^ ((num / den).log2 - 52) := Nat.pow_eq

theorem Double.spacing_pos (num den : Nat) : 0 < spacing num den := by
  rw [spacing_eq]
  exact Nat.two_pow_pos _

theorem ceilUnits_le_iff {units whole : Nat} : Double.ceilUnits units ≤ whole ↔ units ≤ whole * unitsPerOne := by
  have positive := unitsPerOne_pos
  unfold Double.ceilUnits
  rw [Nat.div_le_iff_le_mul_add_pred positive, Nat.mul_comm]
  omega

theorem lt_ceilUnits_iff {units whole : Nat} : whole < Double.ceilUnits units ↔ whole * unitsPerOne < units := by
  rw [← Nat.not_le, ceilUnits_le_iff, Nat.not_le]

theorem le_ceilUnits {units whole : Nat} (reached : whole * unitsPerOne ≤ units) : whole ≤ Double.ceilUnits units := by
  have least := ceilUnits_le_iff.mp (Nat.le_refl (Double.ceilUnits units))
  exact Nat.le_of_mul_le_mul_right (reached.trans least) unitsPerOne_pos

/-- What is not below one keeps a digit when it is rounded. -/
theorem Double.significant_pos {num den : Nat} (whole : 0 < num / den) : 0 < significant num den := by
  have fine : spacing num den ≤ num / den := by
    rw [spacing_eq]
    exact (Nat.pow_le_pow_right (by decide) (Nat.sub_le _ _)).trans (Nat.log2_self_le (Nat.ne_of_gt whole))
  have reached : 0 < num / (den * spacing num den) := by
    rw [← Nat.div_div_eq_div_mul]
    exact Nat.div_pos fine (spacing_pos num den)
  exact Nat.mul_pos (reached.trans_le (le_roundHalfEven _ _)) (spacing_pos num den)

/-- How far a whole number is from `num / den`, in parts of the denominator. -/
def distance (num den whole : Nat) : Nat := ((whole * den : Nat) - num : Int).natAbs

/-- No whole number is nearer, and only an even one has another as near. -/
theorem roundHalfEven_nearest {den : Nat} (positive : 0 < den) (num whole : Nat) :
    distance num den (roundHalfEven num den) ≤ distance num den whole ∧
      (whole ≠ roundHalfEven num den → distance num den whole = distance num den (roundHalfEven num den) →
        roundHalfEven num den % 2 = 0) := by
  have split := Nat.div_add_mod' num den
  have rest := Nat.mod_lt num positive
  have next : (num / den + 1) * den = num / den * den + den := Nat.succ_mul _ _
  have below (less : whole < num / den) : whole * den + den ≤ num / den * den := by
    rw [← Nat.succ_mul]
    exact Nat.mul_le_mul_right den less
  have above (more : num / den + 1 < whole) : num / den * den + 2 * den ≤ whole * den := by
    rw [← Nat.add_mul]
    exact Nat.mul_le_mul_right den more
  have places : whole < num / den ∨ whole = num / den ∨ whole = num / den + 1 ∨ num / den + 1 < whole := by omega
  unfold roundHalfEven distance
  split
  next low => rcases places with less | rfl | rfl | more <;> omega
  split
  next high => rcases places with less | rfl | rfl | more <;> omega
  next half =>
    rcases Nat.mod_two_eq_zero_or_one (num / den) with even | odd
    · rw [even, Nat.add_zero]
      exact ⟨by rcases places with less | rfl | rfl | more <;> omega, fun _ _ => even⟩
    · rw [odd]
      exact ⟨by rcases places with less | rfl | rfl | more <;> omega, fun _ _ => by omega⟩

theorem Representable.bits {units : Nat} (fits : Representable units) : 2 ^ (units.log2 - 52) ∣ units := by
  rw [← Nat.pow_eq]
  exact fits.1

namespace Double

/-- The leading bits of a magnitude that fits. -/
def significand (units : Nat) : Nat := units / Nat.pow 2 (units.log2 - 52)

/-- The magnitude nearest to `num / den`, of two the one with the even significand. -/
structure Nearest (num den units : Nat) : Prop where
  fits : Representable units
  nearest : ∀ other, Representable other → distance num den units ≤ distance num den other
  even : ∀ other, Representable other → other ≠ units → distance num den other = distance num den units →
    significand units % 2 = 0

theorem distance_mul (num den whole scale : Nat) :
    distance num den (whole * scale) = distance num (den * scale) whole := by
  rw [distance, distance, Nat.mul_assoc, Nat.mul_comm scale]

/-- A value of 53 bits is a number of spacings, or else it is smaller than a number of them that is not above the quotient. -/
theorem steps_of_bits {other : Nat} (bits : 2 ^ (other.log2 - 52) ∣ other) (num den : Nat) :
    ∃ steps, steps * spacing num den = other ∨ other < steps * spacing num den ∧ steps * spacing num den * den ≤ num := by
  by_cases coarse : (num / den).log2 - 52 ≤ other.log2 - 52
  · obtain ⟨steps, same⟩ := (Nat.pow_dvd_pow 2 coarse).trans bits
    refine ⟨steps, .inl ?_⟩
    rw [spacing_eq, Nat.mul_comm]
    exact same.symm
  · have large : num / den ≠ 0 := by
      intro zero
      rw [zero] at coarse
      exact coarse (Nat.zero_le _)
    have whole : 2 ^ 52 * spacing num den = 2 ^ (num / den).log2 := by
      rw [spacing_eq, ← Nat.pow_add]
      congr 1
      omega
    refine ⟨2 ^ 52, .inr ⟨?_, ?_⟩⟩
    · rw [whole]
      exact Nat.lt_log2_self.trans_le (Nat.pow_le_pow_right (by decide) (by omega))
    · rw [whole]
      exact (Nat.mul_le_mul_right den (Nat.log2_self_le large)).trans (Nat.div_mul_le_self num den)

/-- Below a quotient the greater number is the nearer one. -/
theorem distance_lt {num den near far : Nat} (positive : 0 < den) (less : far < near) (upTo : near * den ≤ num) :
    distance num den near < distance num den far := by
  have apart : far * den < near * den := Nat.mul_lt_mul_of_pos_right less positive
  unfold distance
  omega

theorem significand_even {rounded : Nat} (even : rounded % 2 = 0) (few : rounded ≤ 2 ^ 53) (shift : Nat) :
    significand (rounded * 2 ^ shift) % 2 = 0 := by
  unfold significand
  rw [Nat.pow_eq]
  rcases Nat.lt_or_eq_of_le few with small | rfl
  · have low : (rounded * 2 ^ shift).log2 - 52 ≤ shift := by
      by_cases zero : rounded = 0
      · simp [zero]
      · have bits : (rounded * 2 ^ shift).log2 < 53 + shift := by
          rw [Nat.log2_lt (Nat.mul_ne_zero zero (Nat.two_pow_pos shift).ne'), Nat.pow_add]
          exact Nat.mul_lt_mul_of_pos_right small (Nat.two_pow_pos shift)
        omega
    generalize (rounded * 2 ^ shift).log2 - 52 = e at low
    obtain ⟨rest, rfl⟩ := Nat.exists_eq_add_of_le low
    rw [Nat.pow_add, Nat.mul_left_comm, Nat.mul_div_cancel_left _ (Nat.two_pow_pos e), Nat.mul_mod, even, Nat.zero_mul,
      Nat.zero_mod]
  · rw [← Nat.pow_add, Nat.log2_two_pow, Nat.pow_div (by omega) (by decide), show 53 + shift - (53 + shift - 52) = 52 by omega]

/-- The rounding to 53 bits is the one to the nearest magnitude, ties to even. -/
theorem significant_nearest {num den : Nat} (positive : 0 < den) (small : significant num den < unitsEnd) :
    Nearest num den (significant num den) := by
  have rounds (steps : Nat) := roundHalfEven_nearest (Nat.mul_pos positive (spacing_pos num den)) num steps
  have closer {steps other : Nat} (below : other < steps * spacing num den) (upTo : steps * spacing num den * den ≤ num) :
      distance num den (significant num den) < distance num den other := by
    refine lt_of_le_of_lt ?_ (distance_lt positive below upTo)
    rw [significant, distance_mul, distance_mul]
    exact (rounds steps).1
  refine ⟨⟨significant_dvd num den, small⟩, fun other fits => ?_, fun other fits differs tie => ?_⟩
  · obtain ⟨steps, rfl | ⟨below, upTo⟩⟩ := steps_of_bits fits.bits num den
    · rw [significant, distance_mul, distance_mul]
      exact (rounds steps).1
    · exact (closer below upTo).le
  · obtain ⟨steps, rfl | ⟨below, upTo⟩⟩ := steps_of_bits fits.bits num den
    · rw [significant, distance_mul, distance_mul] at tie
      have apart : steps ≠ roundHalfEven num (den * spacing num den) := fun same => differs (by rw [same, significant])
      have even := (rounds steps).2 apart tie
      have few := rounded_le num den
      rw [Nat.pow_eq] at few
      rw [significant]
      generalize roundHalfEven num (den * spacing num den) = rounded at even few
      rw [spacing_eq]
      exact significand_even even few _
    · exact absurd tie (closer below upTo).ne'

variable {num more den other : Nat}

theorem significant_le (positive : 0 < den) (bits : 2 ^ (other.log2 - 52) ∣ other) (below : num ≤ other * den) :
    significant num den ≤ other := by
  obtain ⟨steps, rfl | ⟨less, upTo⟩⟩ := steps_of_bits bits num den
  · refine Nat.mul_le_mul_right _ (roundHalfEven_le_of_le (Nat.mul_pos positive (spacing_pos num den)) ?_)
    rwa [Nat.mul_comm den, ← Nat.mul_assoc]
  · have apart := Nat.mul_lt_mul_of_pos_right less positive
    omega

theorem le_significant (positive : 0 < den) (bits : 2 ^ (other.log2 - 52) ∣ other) (above : other * den ≤ num) :
    other ≤ significant num den := by
  have reached {steps : Nat} (upTo : steps * spacing num den * den ≤ num) : steps * spacing num den ≤ significant num den := by
    refine Nat.mul_le_mul_right _ (Nat.le_trans ?_ (le_roundHalfEven _ _))
    rwa [Nat.le_div_iff_mul_le (Nat.mul_pos positive (spacing_pos num den)), Nat.mul_comm den, ← Nat.mul_assoc]
  obtain ⟨steps, rfl | ⟨less, upTo⟩⟩ := steps_of_bits bits num den
  · exact reached above
  · exact less.le.trans (reached upTo)

theorem significant_exact (positive : 0 < den) (bits : 2 ^ (other.log2 - 52) ∣ other) : significant (other * den) den = other :=
  Nat.le_antisymm (significant_le positive bits (Nat.le_refl _)) (le_significant positive bits (Nat.le_refl _))

theorem bits_of_two_pow (exponent : Nat) : 2 ^ ((2 ^ exponent).log2 - 52) ∣ 2 ^ exponent := by
  rw [Nat.log2_two_pow]
  exact Nat.pow_dvd_pow 2 (Nat.sub_le _ _)

theorem Representable.two_pow {exponent : Nat} (below : exponent < 2098) : Representable (2 ^ exponent) := by
  refine ⟨bits_of_two_pow exponent, ?_⟩
  rw [unitsEnd_eq]
  exact Nat.pow_lt_pow_right (by decide) below

/-- Rounding keeps the order: within a binade by its steps, and between two binades by the power of two that parts them. -/
theorem significant_mono (positive : 0 < den) (upTo : num ≤ more) : significant num den ≤ significant more den := by
  rcases Nat.lt_trichotomy (num / den).log2 (more / den).log2 with finer | same | coarser
  · have below : num ≤ 2 ^ (more / den).log2 * den := by
      refine Nat.le_of_lt ((Nat.div_lt_iff_lt_mul positive).mp ?_)
      exact Nat.lt_log2_self.trans_le (Nat.pow_le_pow_right (by decide) finer)
    have above : 2 ^ (more / den).log2 * den ≤ more := by
      refine (Nat.le_div_iff_mul_le positive).mp (Nat.log2_self_le ?_)
      intro zero
      rw [zero] at finer
      exact Nat.not_lt_zero _ finer
    exact (significant_le positive (bits_of_two_pow _) below).trans (le_significant positive (bits_of_two_pow _) above)
  · have spacings : spacing num den = spacing more den := by rw [spacing_eq, spacing_eq, same]
    rw [significant, significant, spacings]
    exact Nat.mul_le_mul_right _ (roundHalfEven_mono upTo _)
  · have large : num / den ≠ 0 := by
      intro zero
      rw [zero] at coarser
      exact Nat.not_lt_zero _ coarser
    have passed : more / den < num / den := calc
      more / den < 2 ^ ((more / den).log2 + 1) := Nat.lt_log2_self
      _ ≤ 2 ^ (num / den).log2 := Nat.pow_le_pow_right (by decide) coarser
      _ ≤ num / den := Nat.log2_self_le large
    exact absurd (Nat.div_le_div_right upTo) (Nat.not_le.mpr passed)

end Double
end Overdue
