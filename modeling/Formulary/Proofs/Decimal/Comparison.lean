import Formulary.Proofs.Decimal.Value
import Mathlib.Tactic.Linarith

set_option autoImplicit false

/-!
# Comparing decimals

Signs and magnitudes are compared first, and only numbers that agree in both are brought to one scale.
This is the order of the numbers that the decimals stand for, whatever their scales.
-/

namespace Formulary.Decimal

variable {x y : Decimal}

section Signs

theorem toRat_pos_iff : 0 < x.toRat ↔ 0 < x.unscaled := by
  have positive : (0 : ℚ) < 10 ^ (-x.scale) := by positivity
  rw [toRat, mul_pos_iff_of_pos_right positive, Int.cast_pos]

theorem toRat_neg_iff : x.toRat < 0 ↔ x.unscaled < 0 := by
  rw [← isNegative_iff, isNegative, decide_eq_true_eq]

theorem isPositive_iff : x.isPositive = true ↔ 0 < x.toRat := by
  rw [toRat_pos_iff, isPositive, decide_eq_true_eq]

theorem toRat_lt_of_sign_lt (less : x.unscaled.sign < y.unscaled.sign) : x.toRat < y.toRat := by
  rcases lt_trichotomy x.unscaled 0 with negative | isZero | positive
  · have nonneg : ¬y.unscaled < 0 := by
      intro negative'
      rw [Int.sign_eq_neg_one_of_neg negative, Int.sign_eq_neg_one_of_neg negative'] at less
      exact lt_irrefl _ less
    exact (toRat_neg_iff.mpr negative).trans_le (not_lt.mp (mt toRat_neg_iff.mp nonneg))
  · rw [isZero, Int.sign_zero, Int.sign_pos_iff] at less
    rw [toRat_eq_zero.mpr isZero]
    exact toRat_pos_iff.mpr less
  · rw [Int.sign_eq_one_of_pos positive] at less
    rcases Int.sign_trichotomy y.unscaled with same | same | same <;> omega

end Signs

/-- Of two numbers other than zero, the one of the lower magnitude is nearer to zero. -/
theorem abs_toRat_lt_of_magnitude_lt (nonzero : y.toRat ≠ 0) (less : x.magnitude < y.magnitude) :
    |x.toRat| < |y.toRat| :=
  calc |x.toRat| < 10 ^ x.magnitude := abs_toRat_lt x
    _ ≤ 10 ^ (y.magnitude - 1) := zpow_le_zpow_right₀ (by norm_num) (by omega)
    _ ≤ |y.toRat| := le_abs_toRat nonzero

theorem compare_of_magnitude_lt (same : x.unscaled.sign = y.unscaled.sign) (nonzero : x.unscaled ≠ 0)
    (less : x.magnitude < y.magnitude) :
    Ord.compare 0 x.unscaled = Ord.compare x.toRat y.toRat := by
  rcases lt_or_gt_of_ne nonzero with negative | positive
  · have negative' : y.unscaled < 0 := by
      rwa [← Int.sign_neg_iff, ← same, Int.sign_neg_iff]
    have nearer := abs_toRat_lt_of_magnitude_lt (toRat_neg_iff.mpr negative').ne less
    rw [abs_of_neg (toRat_neg_iff.mpr negative), abs_of_neg (toRat_neg_iff.mpr negative'),
      neg_lt_neg_iff] at nearer
    rw [compare_gt_iff_gt.mpr negative, compare_gt_iff_gt.mpr nearer]
  · have positive' : 0 < y.unscaled := by
      rwa [← Int.sign_pos_iff, ← same, Int.sign_pos_iff]
    have nearer := abs_toRat_lt_of_magnitude_lt (toRat_pos_iff.mpr positive').ne' less
    rw [abs_of_pos (toRat_pos_iff.mpr positive), abs_of_pos (toRat_pos_iff.mpr positive')] at nearer
    rw [compare_lt_iff_lt.mpr positive, compare_lt_iff_lt.mpr nearer]

theorem compare_sign_left (n : ℤ) : Ord.compare n.sign 0 = Ord.compare n 0 := by
  rcases lt_trichotomy n 0 with negative | rfl | positive
  · rw [compare_lt_iff_lt.mpr negative, compare_lt_iff_lt.mpr (Int.sign_neg_iff.mpr negative)]
  · rfl
  · rw [compare_gt_iff_gt.mpr positive, compare_gt_iff_gt.mpr (Int.sign_pos_iff.mpr positive)]

theorem compare_at {scale : ℤ} (xWithin : x.scale ≤ scale) (yWithin : y.scale ≤ scale) :
    Ord.compare (x.unscaledAt scale) (y.unscaledAt scale) = Ord.compare x.toRat y.toRat := by
  have positive : (0 : ℚ) < 10 ^ (-scale) := by positivity
  have increasing : StrictMono fun n : ℤ => (n : ℚ) * 10 ^ (-scale) := fun m n less =>
    mul_lt_mul_of_pos_right (Int.cast_lt.mpr less) positive
  rw [← toRat_unscaledAt xWithin, ← toRat_unscaledAt yWithin, ← cmp_eq_compare, ← cmp_eq_compare]
  exact (increasing.cmp_map_eq _ _).symm

/-- Comparing decimals compares the numbers that they stand for. -/
theorem compare_eq (x y : Decimal) : x.compare y = Ord.compare x.toRat y.toRat := by
  unfold compare
  split
  next same =>
    have same := compare_eq_iff_eq.mp same
    split
    next isZero =>
      have isZero' : y.unscaled = 0 := by
        rwa [← Int.sign_eq_zero_iff_zero, ← same, Int.sign_eq_zero_iff_zero]
      rw [toRat_eq_zero.mpr isZero, toRat_eq_zero.mpr isZero']
      rfl
    next nonzero =>
      have nonzero' : y.unscaled ≠ 0 := by
        rwa [ne_eq, ← Int.sign_eq_zero_iff_zero, ← same, Int.sign_eq_zero_iff_zero]
      split
      next => exact compare_at (le_max_left _ _) (le_max_right _ _)
      next unequal =>
        split
        next less => exact compare_of_magnitude_lt same nonzero less
        next notLess =>
          have less : y.magnitude < x.magnitude := by omega
          have farther := congrArg Ordering.swap (compare_of_magnitude_lt same.symm nonzero' less)
          rwa [← Std.OrientedOrd.eq_swap, ← Std.OrientedOrd.eq_swap, ← compare_sign_left, ← same,
            compare_sign_left] at farther
  next unequal =>
    cases order : Ord.compare x.unscaled.sign y.unscaled.sign with
    | lt => exact (compare_lt_iff_lt.mpr (toRat_lt_of_sign_lt (compare_lt_iff_lt.mp order))).symm
    | eq => exact absurd order unequal
    | gt => exact (compare_gt_iff_gt.mpr (toRat_lt_of_sign_lt (compare_gt_iff_gt.mp order))).symm

theorem equal_iff : x.equal y = true ↔ x.toRat = y.toRat := by
  rw [equal, beq_iff_eq, compare_eq, compare_eq_iff_eq]

/-- The order of decimals is that of the numbers. -/
instance : Std.TransCmp compare where
  eq_swap {x y} := by
    rw [compare_eq, compare_eq]
    exact Std.OrientedOrd.eq_swap
  isLE_trans {x y z} less less' := by
    rw [compare_eq] at less less' ⊢
    exact Std.TransOrd.isLE_trans less less'

section Normalized

theorem normalized_eq_of_toRat_eq (same : x.toRat = y.toRat) : x.normalized = y.normalized := by
  by_cases isZero : x.unscaled = 0
  · have isZero' : y.unscaled = 0 := by
      rwa [← toRat_eq_zero, ← same, toRat_eq_zero]
    rw [normalized_of_zero isZero, normalized_of_zero isZero']
  · have nonzero' : y.unscaled ≠ 0 := by
      rwa [ne_eq, ← toRat_eq_zero, ← same, toRat_eq_zero]
    obtain ⟨-, -, -, last⟩ := exists_normalized isZero
    obtain ⟨-, -, -, last'⟩ := exists_normalized nonzero'
    rw [← toRat_normalized x, ← toRat_normalized y] at same
    have sameScale : x.normalized.scale = y.normalized.scale :=
      le_antisymm (scale_le_of_not_dvd last same) (scale_le_of_not_dvd last' same.symm)
    have split := eq_mul_pow_of_scales sameScale.le same
    rw [sameScale, sub_self, Int.toNat_zero, pow_zero, mul_one] at split
    change Decimal.mk x.normalized.unscaled x.normalized.scale = _
    rw [← split, sameScale]

/-- Equal decimals differ in nothing but zeros at their ends. -/
theorem normalized_eq_iff : x.normalized = y.normalized ↔ x.toRat = y.toRat :=
  ⟨fun same => by rw [← toRat_normalized, same, toRat_normalized], normalized_eq_of_toRat_eq⟩

end Normalized

end Formulary.Decimal
