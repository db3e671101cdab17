import Formulary.Decimal.Operations
import Mathlib.Algebra.Order.Field.Power
import Mathlib.Algebra.Order.Ring.Rat
import Mathlib.Data.Int.Log
import Mathlib.Data.Rat.Floor
import Mathlib.Tactic.Positivity
import Mathlib.Tactic.Ring

set_option autoImplicit false

/-!
# The numbers that decimals stand for

A decimal at another scale, without its trailing zeros or with another sign stands for a number that is
known from its own. The digits of a decimal tell between which powers of ten its number lies.
-/

namespace Formulary.Decimal

/-- The number that a decimal stands for. -/
def toRat (x : Decimal) : ℚ :=
  x.unscaled * 10 ^ (-x.scale)

theorem power_eq (base exponent : ℕ) : power base exponent = base ^ exponent := rfl

/-- Powers of ten with an integer that cannot be negative. -/
theorem zpow_toNat {n : ℤ} (nonneg : 0 ≤ n) : (10 : ℚ) ^ n.toNat = 10 ^ n := by
  rw [← zpow_natCast, Int.toNat_of_nonneg nonneg]

theorem zpow_add_ten (m n : ℤ) : (10 : ℚ) ^ (m + n) = 10 ^ m * 10 ^ n :=
  zpow_add₀ (by norm_num) m n

@[simp] theorem zpow_mul_zpow_neg (n : ℤ) : (10 : ℚ) ^ n * 10 ^ (-n) = 1 := by
  rw [← zpow_add_ten, add_neg_cancel, zpow_zero]

variable {x : Decimal} {scale : ℤ}

theorem toRat_mul_zpow (x : Decimal) (scale : ℤ) :
    x.toRat * 10 ^ scale = x.unscaled * 10 ^ (scale - x.scale) := by
  rw [toRat, mul_assoc, ← zpow_add_ten, neg_add_eq_sub]

@[simp] theorem toRat_zero : zero.toRat = 0 := by
  simp [toRat, zero]

@[simp] theorem neg_unscaled (x : Decimal) : (-x).unscaled = -x.unscaled := rfl

@[simp] theorem neg_scale (x : Decimal) : (-x).scale = x.scale := rfl

@[simp] theorem toRat_neg (x : Decimal) : (-x).toRat = -x.toRat := by
  simp [toRat]

theorem toRat_eq_zero : x.toRat = 0 ↔ x.unscaled = 0 := by
  simp [toRat, zpow_ne_zero]

theorem isZero_iff : x.isZero = true ↔ x.toRat = 0 := by
  rw [toRat_eq_zero, isZero, beq_iff_eq]

theorem isNegative_iff : x.isNegative = true ↔ x.toRat < 0 := by
  have positive : (0 : ℚ) < 10 ^ (-x.scale) := by positivity
  rw [isNegative, decide_eq_true_eq, toRat, mul_neg_iff, Int.cast_lt_zero]
  simp only [positive, not_lt_of_gt positive, and_false, and_true, false_or]

theorem toRat_unscaledAt (within : x.scale ≤ scale) :
    (⟨x.unscaledAt scale, scale⟩ : Decimal).toRat = x.toRat := by
  have filled : (10 : ℚ) ^ (scale - x.scale).toNat = 10 ^ (scale - x.scale) :=
    zpow_toNat (by omega)
  simp only [toRat, unscaledAt, power_eq]
  push_cast
  rw [filled, mul_assoc, ← zpow_add_ten]
  congr 2
  omega

/-- One number at two scales. -/
theorem eq_mul_pow_of_scales {m n s t : ℤ} (within : s ≤ t)
    (same : (m : ℚ) * 10 ^ (-s) = n * 10 ^ (-t)) : n = m * 10 ^ (t - s).toNat := by
  have scaled := congrArg (· * (10 : ℚ) ^ t) same
  simp only [mul_assoc, ← zpow_add_ten] at scaled
  rw [neg_add_cancel, zpow_zero, mul_one, neg_add_eq_sub, ← zpow_toNat (by omega)] at scaled
  exact_mod_cast scaled.symm

/-- A number whose last digit is not zero is written at the least scale that it can have. -/
theorem scale_le_of_not_dvd {m n s t : ℤ} (last : ¬(10 : ℤ) ∣ m)
    (same : (m : ℚ) * 10 ^ (-s) = n * 10 ^ (-t)) : s ≤ t := by
  refine le_of_not_gt fun beyond => last ?_
  have split := eq_mul_pow_of_scales beyond.le same.symm
  obtain ⟨more, isMore⟩ : ∃ more, (s - t).toNat = more + 1 := ⟨(s - t).toNat - 1, by omega⟩
  rw [isMore, pow_succ, ← mul_assoc] at split
  exact split ▸ Dvd.intro_left _ rfl

section Digits

theorem digitCount_le_iff {n count : ℕ} (positive : 0 < count) : digitCount n ≤ count ↔ n < 10 ^ count :=
  Nat.length_toDigits_le_iff (by decide) positive

theorem digitCount_pos (n : ℕ) : 0 < digitCount n :=
  Nat.length_toDigits_pos

theorem lt_pow_digitCount (n : ℕ) : n < 10 ^ digitCount n :=
  (digitCount_le_iff (digitCount_pos n)).mp (Nat.le_refl _)

theorem pow_digitCount_le {n : ℕ} (nonzero : n ≠ 0) : 10 ^ (digitCount n - 1) ≤ n := by
  by_cases single : digitCount n - 1 = 0
  · rw [single]
    omega
  · refine Nat.le_of_not_lt fun less => ?_
    have fewer := (digitCount_le_iff (by omega)).mpr less
    omega

theorem abs_toRat (x : Decimal) : |x.toRat| = x.unscaled.natAbs * 10 ^ (-x.scale) := by
  have positive : (0 : ℚ) < 10 ^ (-x.scale) := by positivity
  rw [toRat, abs_mul, abs_of_pos positive, Nat.cast_natAbs, Int.cast_abs]

theorem abs_toRat_lt (x : Decimal) : |x.toRat| < 10 ^ x.magnitude := by
  have positive : (0 : ℚ) < 10 ^ (-x.scale) := by positivity
  have digits : (x.unscaled.natAbs : ℚ) < 10 ^ (x.digits : ℤ) := by
    rw [zpow_natCast]
    exact_mod_cast lt_pow_digitCount x.unscaled.natAbs
  rw [abs_toRat, magnitude, sub_eq_add_neg, zpow_add_ten]
  exact mul_lt_mul_of_pos_right digits positive

theorem le_abs_toRat (nonzero : x.toRat ≠ 0) : (10 : ℚ) ^ (x.magnitude - 1) ≤ |x.toRat| := by
  have positive : (0 : ℚ) < 10 ^ (-x.scale) := by positivity
  have known : x.unscaled.natAbs ≠ 0 := by
    rw [Int.natAbs_ne_zero]
    exact fun isZero => nonzero (toRat_eq_zero.mpr isZero)
  have digits : (10 : ℚ) ^ ((x.digits - 1 : ℕ) : ℤ) ≤ x.unscaled.natAbs := by
    rw [zpow_natCast]
    exact_mod_cast pow_digitCount_le known
  have count : 0 < x.digits := digitCount_pos _
  have places : (x.digits : ℤ) - x.scale - 1 = ((x.digits - 1 : ℕ) : ℤ) + -x.scale := by omega
  rw [abs_toRat, magnitude, places, zpow_add_ten]
  exact mul_le_mul_of_nonneg_right digits positive.le

end Digits

section Normalized

theorem trailingZeros_split {n : ℕ} (nonzero : n ≠ 0) :
    ∃ m, n = m * 10 ^ trailingZeros n ∧ ¬10 ∣ m := by
  fun_induction trailingZeros n with
  | case1 => exact absurd rfl nonzero
  | case2 n _ ends ih =>
    obtain ⟨m, split, last⟩ := ih (by omega)
    refine ⟨m, ?_, last⟩
    rw [pow_succ, ← mul_assoc, ← split]
    omega
  | case3 n _ last => exact ⟨n, by simp, by omega⟩

theorem exists_normalized (nonzero : x.unscaled ≠ 0) : ∃ zeros : ℕ,
    x.normalized.scale = x.scale - zeros ∧ x.unscaled = x.normalized.unscaled * 10 ^ zeros ∧
      ¬(10 : ℤ) ∣ x.normalized.unscaled := by
  obtain ⟨m, split, last⟩ := trailingZeros_split (Int.natAbs_ne_zero.mpr nonzero)
  have form : x.normalized = ⟨x.unscaled.tdiv (10 ^ trailingZeros x.unscaled.natAbs),
      x.scale - trailingZeros x.unscaled.natAbs⟩ := by
    simp [normalized, nonzero, power_eq]
  generalize trailingZeros x.unscaled.natAbs = zeros at split form
  have power : (10 : ℤ) ^ zeros ≠ 0 := by positivity
  have isMultiple : (10 : ℤ) ^ zeros ∣ x.unscaled := by
    rw [← Int.natAbs_dvd_natAbs, Int.natAbs_pow, split]
    exact Nat.dvd_mul_left _ _
  have whole : x.unscaled.tdiv (10 ^ zeros) * 10 ^ zeros = x.unscaled := Int.tdiv_mul_cancel isMultiple
  rw [form]
  refine ⟨zeros, rfl, whole.symm, fun divides => last ?_⟩
  have magnitudes := congrArg Int.natAbs whole
  rw [Int.natAbs_mul, Int.natAbs_pow, split] at magnitudes
  rw [← Nat.eq_of_mul_eq_mul_right (by positivity) magnitudes]
  exact Int.natAbs_dvd_natAbs.mpr divides

theorem normalized_of_zero (isZero : x.unscaled = 0) : x.normalized = zero := by
  simp [normalized, isZero]

@[simp] theorem toRat_normalized (x : Decimal) : x.normalized.toRat = x.toRat := by
  by_cases isZero : x.unscaled = 0
  · rw [normalized_of_zero isZero, toRat_zero, toRat_eq_zero.mpr isZero]
  · obtain ⟨zeros, scale, unscaled, -⟩ := exists_normalized isZero
    rw [toRat, toRat, scale, unscaled, neg_sub, sub_eq_add_neg, zpow_add_ten, zpow_natCast]
    push_cast
    ring

end Normalized

end Formulary.Decimal
