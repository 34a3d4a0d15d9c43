import Overdue.Penalty
import Overdue.Proofs.Rounding

/-! The number of penalty days. Below 2^17 days the spacing of the binary64 values around a quotient is so small against
one microsecond that its rounding never reaches the whole number below: the days are counted exactly. -/
namespace Overdue

theorem dayMicros_pos : 0 < dayMicros := by decide

namespace Penalty

/-- The units of one are many spacings around a quotient of few bits. -/
theorem spacing_split {overdue bits : Nat} (few : bits ≤ 53) (near : overdue < 2 ^ bits * dayMicros) :
    ∃ steps, 2 ^ (53 - bits) ≤ steps ∧ unitsPerOne = steps * Double.spacing (overdue * unitsPerOne) dayMicros := by
  have exponent : (overdue * unitsPerOne / dayMicros).log2 - 52 ≤ bits + 1021 := by
    have quotient : overdue * unitsPerOne / dayMicros < 2 ^ (bits + 1074) := by
      apply Nat.div_lt_of_lt_mul
      rw [Nat.pow_add, ← unitsPerOne_eq, Nat.mul_left_comm, ← Nat.mul_assoc]
      exact Nat.mul_lt_mul_of_pos_right near unitsPerOne_pos
    generalize overdue * unitsPerOne / dayMicros = value at quotient
    by_cases zero : value = 0
    · simp [zero]
    · have := (Nat.log2_lt zero).mpr quotient
      omega
  rw [Double.spacing_eq]
  generalize (overdue * unitsPerOne / dayMicros).log2 - 52 = e at exponent
  refine ⟨2 ^ (1074 - e), Nat.pow_le_pow_right (by omega) (by omega), ?_⟩
  rw [unitsPerOne_eq, ← Nat.pow_add, Nat.sub_add_cancel (by omega)]

/-- The value nearest to a quotient is its steps, rounded to whole ones. -/
theorem significant_split {overdue bits : Nat} (few : bits ≤ 53) (near : overdue < 2 ^ bits * dayMicros) :
    ∃ steps spacing, 2 ^ (53 - bits) ≤ steps ∧ 0 < spacing ∧ unitsPerOne = steps * spacing ∧
      Double.significant (overdue * unitsPerOne) dayMicros = roundHalfEven (overdue * steps) dayMicros * spacing := by
  obtain ⟨steps, many, split⟩ := spacing_split few near
  have positive := Double.spacing_pos (overdue * unitsPerOne) dayMicros
  refine ⟨steps, _, many, positive, split, ?_⟩
  unfold Double.significant
  generalize Double.spacing (overdue * unitsPerOne) dayMicros = spacing at split positive
  rw [split, ← Nat.mul_assoc, roundHalfEven_mul_right _ _ positive]

/-- A whole number that is not below a quotient is not below the value nearest to it either. -/
theorem significant_le_whole {overdue whole : Nat} (near : overdue < 2 ^ 53 * dayMicros) (below : overdue ≤ whole * dayMicros) :
    Double.significant (overdue * unitsPerOne) dayMicros ≤ whole * unitsPerOne := by
  obtain ⟨steps, spacing, _, _, split, rounded⟩ := significant_split (Nat.le_refl 53) near
  rw [rounded, split, ← Nat.mul_assoc]
  refine Nat.mul_le_mul_right spacing (roundHalfEven_le_of_le dayMicros_pos ?_)
  rw [Nat.mul_right_comm]
  exact Nat.mul_le_mul_right steps below

theorem whole_le_significant {overdue whole : Nat} (near : overdue < 2 ^ 53 * dayMicros) (above : whole * dayMicros ≤ overdue) :
    whole * unitsPerOne ≤ Double.significant (overdue * unitsPerOne) dayMicros := by
  obtain ⟨steps, spacing, _, _, split, rounded⟩ := significant_split (Nat.le_refl 53) near
  have passed : whole * steps ≤ overdue * steps / dayMicros := by
    rw [Nat.le_div_iff_mul_le dayMicros_pos, Nat.mul_right_comm]
    exact Nat.mul_le_mul_right steps above
  rw [rounded, split, ← Nat.mul_assoc]
  exact Nat.mul_le_mul_right spacing (passed.trans (le_roundHalfEven _ _))

/-- Where one microsecond is more than half a spacing, the rounding does not reach down to the whole number. -/
theorem lt_significant {overdue : Nat} (near : overdue < 2 ^ 17 * dayMicros) (inexact : overdue % dayMicros ≠ 0) :
    overdue / dayMicros * unitsPerOne < Double.significant (overdue * unitsPerOne) dayMicros := by
  obtain ⟨steps, spacing, many, positive, split, rounded⟩ := significant_split (by decide) near
  rw [rounded, split, ← Nat.mul_assoc]
  have whole := Nat.div_add_mod overdue dayMicros
  generalize overdue / dayMicros = days at whole
  generalize overdue % dayMicros = excess at whole inexact
  subst whole
  refine Nat.mul_lt_mul_of_pos_right (lt_roundHalfEven dayMicros_pos ?_) positive
  have micros : dayMicros < 2 * (excess * steps) := by
    have least : steps ≤ excess * steps := Nat.le_mul_of_pos_left steps (by omega)
    have size : dayMicros < 2 * 2 ^ 36 := by decide
    omega
  calc 2 * (days * steps * dayMicros) + dayMicros < 2 * (days * steps * dayMicros) + 2 * (excess * steps) := by omega
    _ = 2 * ((dayMicros * days + excess) * steps) := by ring

theorem significant_lt {overdue : Nat} (near : overdue < 2 ^ 53 * dayMicros) :
    Double.significant (overdue * unitsPerOne) dayMicros < unitsEnd := by
  rw [unitsEnd, Nat.pow_eq]
  calc Double.significant (overdue * unitsPerOne) dayMicros ≤ 2 ^ 53 * unitsPerOne := significant_le_whole near near.le
    _ = 2 ^ (53 + 1074) := by rw [unitsPerOne_eq, ← Nat.pow_add]
    _ < 2 ^ 2098 := Nat.pow_lt_pow_right (by decide) (by decide)

theorem daysRoundedUp_units {overdue : Nat} (near : overdue < 2 ^ 53 * dayMicros) :
    daysRoundedUp overdue = Double.ceilUnits (Double.significant (overdue * unitsPerOne) dayMicros) := by
  rw [daysRoundedUp, Double.ofRatio, Double.nearest, dif_pos (significant_lt near)]
  rfl

theorem daysRoundedUp_le {overdue whole : Nat} (near : overdue < 2 ^ 53 * dayMicros) (below : overdue ≤ whole * dayMicros) :
    daysRoundedUp overdue ≤ whole := by
  rw [daysRoundedUp_units near]
  exact ceilUnits_le_iff.mpr (significant_le_whole near below)

theorem le_daysRoundedUp {overdue whole : Nat} (near : overdue < 2 ^ 53 * dayMicros) (above : whole * dayMicros ≤ overdue) :
    whole ≤ daysRoundedUp overdue := by
  rw [daysRoundedUp_units near]
  exact le_ceilUnits (whole_le_significant near above)

/-- The rounded count is the whole days that have passed, or one more where they have not passed exactly. -/
theorem daysRoundedUp_bounds {overdue : Nat} (near : overdue < 2 ^ 53 * dayMicros) :
    overdue / dayMicros ≤ daysRoundedUp overdue ∧
      daysRoundedUp overdue ≤ overdue / dayMicros + if overdue % dayMicros = 0 then 0 else 1 := by
  have whole := Nat.div_add_mod' overdue dayMicros
  have rest := Nat.mod_lt overdue dayMicros_pos
  refine ⟨le_daysRoundedUp near (by omega), daysRoundedUp_le near ?_⟩
  split
  next exact =>
    rw [Nat.add_zero]
    omega
  next inexact =>
    rw [Nat.succ_mul]
    omega

theorem daysRoundedUp_eq {overdue : Nat} (near : overdue < 2 ^ 17 * dayMicros) :
    daysRoundedUp overdue = overdue / dayMicros + if overdue % dayMicros = 0 then 0 else 1 := by
  have finite : overdue < 2 ^ 53 * dayMicros := near.trans (by decide)
  obtain ⟨least, most⟩ := daysRoundedUp_bounds finite
  refine Nat.le_antisymm most ?_
  split
  next exact => exact least
  next inexact =>
    rw [daysRoundedUp_units finite]
    exact lt_ceilUnits_iff.mpr (lt_significant near inexact)

/-- There are at least as many penalty days as whole days have passed, and at most one more. -/
theorem dayCount_near {overdue : Int} (late : 0 ≤ overdue) (near : overdue < 2 ^ 53 * dayMicros) :
    overdue.toNat / dayMicros ≤ dayCount overdue ∧ dayCount overdue ≤ overdue.toNat / dayMicros + 1 := by
  rw [dayCount, if_neg (by omega)]
  obtain ⟨least, most⟩ := daysRoundedUp_bounds (by omega : overdue.toNat < 2 ^ 53 * dayMicros)
  generalize daysRoundedUp overdue.toNat = rounded at least most
  split at most <;> split <;> omega

theorem dayCount_nearest {overdue : Nat} (near : overdue < 2 ^ 53 * dayMicros) :
    ∃ units, Double.Nearest (overdue * unitsPerOne) dayMicros units ∧
      dayCount overdue = Double.ceilUnits units + if overdue % dayMicros = 0 then 1 else 0 := by
  refine ⟨_, Double.significant_nearest dayMicros_pos (significant_lt near), ?_⟩
  rw [dayCount, if_neg (Int.not_lt.mpr (Int.natCast_nonneg overdue)), Int.toNat_natCast, daysRoundedUp_units near]

/-- Below 2^17 days there is one penalty day more than whole days have passed. -/
theorem dayCount_eq {overdue : Int} (late : 0 ≤ overdue) (near : overdue < 2 ^ 17 * dayMicros) :
    dayCount overdue = overdue.toNat / dayMicros + 1 := by
  rw [dayCount, if_neg (by omega), daysRoundedUp_eq (by omega)]
  split <;> rfl

/-- A later finish has no fewer penalty days. -/
theorem dayCount_mono {overdue later : Int} (upTo : overdue ≤ later) (near : later < 2 ^ 17 * dayMicros) :
    dayCount overdue ≤ dayCount later := by
  by_cases onTime : overdue < 0
  · rw [dayCount, if_pos onTime]
    exact Nat.zero_le _
  · rw [dayCount_eq (Int.not_lt.mp onTime) (by omega), dayCount_eq (by omega) near]
    exact Nat.add_le_add_right (Nat.div_le_div_right (Int.toNat_le_toNat upTo)) 1

/-- From there on a microsecond may be lost. -/
example : dayCount (2 ^ 17 * dayMicros + 1) = 2 ^ 17 := by decide +kernel

end Penalty
end Overdue
