import Formulary.Decimal.Arithmetic
import Formulary.Proofs.Decimal.Modes
import Mathlib.Tactic.FieldSimp

set_option autoImplicit false

/-!
# Rounded decimals stand for rounded numbers

The digits that a decimal loses are compared with half a unit of the last place that is kept. This gives
the integer that the mode prescribes, so that rounding decimals is rounding the numbers that they stand
for.
-/

namespace Formulary

namespace Rounding

variable {n unit : ℕ}

section Quotients

theorem div_eq_add (positive : 0 < unit) :
    (n : ℚ) / unit = ((n / unit : ℕ) : ℤ) + ((n % unit : ℕ) : ℚ) / unit := by
  have known : (unit : ℚ) ≠ 0 := by positivity
  have split : (n : ℚ) = unit * (n / unit : ℕ) + (n % unit : ℕ) := by
    exact_mod_cast (Nat.div_add_mod n unit).symm
  rw [Int.cast_natCast, div_eq_iff known, split]
  field_simp

theorem rest_lt_one (positive : 0 < unit) : ((n % unit : ℕ) : ℚ) / unit < 1 := by
  rw [div_lt_one (by exact_mod_cast positive)]
  exact_mod_cast Nat.mod_lt n positive

theorem half_le_rest (positive : 0 < unit) :
    1 / 2 ≤ ((n % unit : ℕ) : ℚ) / unit ↔ unit ≤ 2 * (n % unit) := by
  rw [div_le_div_iff₀ (by norm_num) (by exact_mod_cast positive), one_mul, mul_comm]
  exact_mod_cast Iff.rfl

theorem half_lt_rest (positive : 0 < unit) :
    1 / 2 < ((n % unit : ℕ) : ℚ) / unit ↔ unit < 2 * (n % unit) := by
  rw [div_lt_div_iff₀ (by norm_num) (by exact_mod_cast positive), one_mul, mul_comm]
  exact_mod_cast Iff.rfl

theorem floor_div (n unit : ℕ) : ⌊(n : ℚ) / unit⌋ = (n / unit : ℕ) := by
  rw [Rat.floor_natCast_div_natCast]
  rfl

theorem ceil_div (positive : 0 < unit) :
    ⌈(n : ℚ) / unit⌉ = (n / unit : ℕ) + (n % unit != 0).toNat := by
  have below := rest_lt_one (n := n) positive
  rw [div_eq_add positive, Int.ceil_intCast_add, add_right_inj, Int.ceil_eq_iff]
  by_cases exact : n % unit = 0
  · simp [exact]
  · have some : 0 < ((n % unit : ℕ) : ℚ) / unit := by positivity
    rw [bne_iff_ne.mpr exact]
    simp [some, below.le]

theorem floor_div_add_half (positive : 0 < unit) :
    ⌊(n : ℚ) / unit + 1 / 2⌋ = (n / unit : ℕ) + (decide (unit ≤ 2 * (n % unit))).toNat := by
  have below := rest_lt_one (n := n) positive
  have nonneg : 0 ≤ ((n % unit : ℕ) : ℚ) / unit := by positivity
  rw [div_eq_add positive, add_assoc, Int.floor_intCast_add, add_right_inj, Int.floor_eq_iff]
  by_cases reached : unit ≤ 2 * (n % unit)
  · have half := (half_le_rest positive).mpr reached
    simp only [reached, decide_true, Bool.toNat_true]
    constructor <;> push_cast <;> linarith
  · have half := mt (half_le_rest positive).mp reached
    simp only [reached, decide_false, Bool.toNat_false]
    constructor <;> push_cast <;> linarith

theorem ceil_div_sub_half (positive : 0 < unit) :
    ⌈(n : ℚ) / unit - 1 / 2⌉ = (n / unit : ℕ) + (decide (unit < 2 * (n % unit))).toNat := by
  have below := rest_lt_one (n := n) positive
  have nonneg : 0 ≤ ((n % unit : ℕ) : ℚ) / unit := by positivity
  rw [div_eq_add positive, add_sub_assoc, Int.ceil_intCast_add, add_right_inj, Int.ceil_eq_iff]
  by_cases passed : unit < 2 * (n % unit)
  · have half := (half_lt_rest positive).mpr passed
    simp only [passed, decide_true, Bool.toNat_true]
    constructor <;> push_cast <;> linarith
  · have half := mt (half_lt_rest positive).mp passed
    simp only [passed, decide_false, Bool.toNat_false]
    constructor <;> push_cast <;> linarith

/-- A magnitude is rounded to what the mode prescribes for the number above zero. -/
theorem divide_eq_toInt (mode : Rounding) (positive : 0 < unit) :
    (mode.divide false n unit : ℤ) = mode.toInt (n / unit) := by
  have nonneg : ¬(n : ℚ) / unit < 0 := not_lt.mpr (by positivity)
  have reached : (n % unit != 0 && decide (unit ≤ 2 * (n % unit))) = decide (unit ≤ 2 * (n % unit)) := by
    rw [Bool.eq_iff_iff]
    simp only [Bool.and_eq_true, bne_iff_ne, decide_eq_true_eq]
    omega
  have passed : (n % unit != 0 && decide (unit < 2 * (n % unit))) = decide (unit < 2 * (n % unit)) := by
    rw [Bool.eq_iff_iff]
    simp only [Bool.and_eq_true, bne_iff_ne, decide_eq_true_eq]
    omega
  rw [divide, Nat.cast_add]
  cases mode <;> simp only [toInt, raises, nonneg, if_false, floor_div, ceil_div positive,
    floor_div_add_half positive, ceil_div_sub_half positive, reached, passed]
  case halfEven =>
    by_cases even : n / unit % 2 = 0
    · have isEven : Even ((n / unit : ℕ) : ℤ) := by rwa [Int.even_coe_nat, Nat.even_iff]
      rw [if_pos isEven, even]
      simp only [Nat.reduceBEq, Bool.and_false, Bool.or_false, passed]
    · have isOdd : ¬Even ((n / unit : ℕ) : ℤ) := by rwa [Int.even_coe_nat, Nat.even_iff]
      have tie : (decide (unit < 2 * (n % unit)) || unit == 2 * (n % unit)) =
          decide (unit ≤ 2 * (n % unit)) := by
        rw [Bool.eq_iff_iff]
        simp only [Bool.or_eq_true, beq_iff_eq, decide_eq_true_eq]
        omega
      rw [if_neg isOdd, Nat.mod_two_ne_zero.mp even, beq_self_eq_true, Bool.and_true, tie, reached]
  all_goals simp

end Quotients

theorem divide_true (mode : Rounding) (n unit : ℕ) :
    mode.divide true n unit = mode.mirrored.divide false n unit := by
  cases mode <;> rfl

end Rounding

namespace Decimal

open Rounding

variable {x : Decimal} {scale : ℤ}

theorem signed_divide (mode : Rounding) {unit : ℕ} (positive : 0 < unit) :
    x.signed (mode.divide x.isNegative x.unscaled.natAbs unit) = mode.toInt (x.unscaled / unit) := by
  rw [signed]
  split
  next negative =>
    have below : x.unscaled < 0 := of_decide_eq_true negative
    have mirror : (x.unscaled : ℚ) = -(x.unscaled.natAbs : ℚ) := by
      rw [Nat.cast_natAbs, abs_of_neg below, Int.cast_neg, neg_neg]
    rw [negative, divide_true, divide_eq_toInt _ positive, mirror, neg_div, toInt_neg]
  next nonneg =>
    have above : 0 ≤ x.unscaled := not_lt.mp (mt decide_eq_true nonneg)
    have same : (x.unscaled : ℚ) = (x.unscaled.natAbs : ℚ) := by
      rw [Nat.cast_natAbs, abs_of_nonneg above]
    rw [Bool.eq_false_iff.mpr nonneg, divide_eq_toInt _ positive, same]

theorem toRat_withScale (mode : Rounding) (x : Decimal) (scale : ℤ) :
    (withScale mode x scale).toRat = mode.toScale x.toRat scale := by
  rw [withScale]
  split
  next within =>
    rw [toRat_unscaledAt within, toRat, toScale_of_le mode _ within]
  next beyond =>
    generalize isUnit : power 10 (x.scale - scale).toNat = unit
    have positive : 0 < unit := by
      rw [← isUnit, power_eq]
      positivity
    have quotient : x.toRat * 10 ^ scale = x.unscaled / unit := by
      rw [toRat_mul_zpow, ← isUnit, power_eq]
      push_cast
      rw [zpow_toNat (by omega), ← neg_sub, zpow_neg, div_eq_mul_inv]
    rw [toScale, quotient, ← signed_divide mode positive, toRat]

theorem toRat_withScale_of_le (mode : Rounding) (within : x.scale ≤ scale) :
    (withScale mode x scale).toRat = x.toRat := by
  rw [toRat_withScale, toRat, toScale_of_le mode _ within]

theorem magnitude_toRat (nonzero : x.toRat ≠ 0) : Rounding.magnitude x.toRat = x.magnitude :=
  magnitude_eq (le_abs_toRat nonzero) (abs_toRat_lt x)

theorem toRat_withDigits (mode : Rounding) (x : Decimal) (precision : ℕ) :
    (withDigits mode x precision).toRat = mode.toDigits x.toRat precision := by
  rw [withDigits, toRat_withScale]
  by_cases isZero : x.toRat = 0
  · rw [isZero, toScale_zero, toDigits_zero]
  · rw [toDigits, magnitude_toRat isZero, magnitude]
    congr 1
    ring

section Trim

@[simp] theorem toRat_trimFraction (x : Decimal) : (trimFraction x).toRat = x.toRat := by
  simp only [trimFraction]
  split
  next => rfl
  next =>
    split
    next negative => rw [toRat_withScale_of_le _ negative.le, toRat_normalized]
    next => exact toRat_normalized x

/-- Where digits behind the point are left, the last of them is not zero. -/
theorem not_dvd_trimFraction (fraction : 0 < (trimFraction x).scale) :
    ¬(10 : ℤ) ∣ (trimFraction x).unscaled := by
  simp only [trimFraction] at fraction ⊢
  split at fraction
  next whole => exact absurd whole (not_le.mpr fraction)
  next places =>
    rw [if_neg places]
    split at fraction
    next negative =>
      rw [withScale, if_pos negative.le] at fraction
      exact absurd fraction (lt_irrefl 0)
    next nonneg =>
      rw [if_neg nonneg]
      have nonzero : x.unscaled ≠ 0 := by
        intro isZero
        rw [normalized_of_zero isZero] at fraction
        exact lt_irrefl 0 fraction
      obtain ⟨-, -, -, last⟩ := exists_normalized nonzero
      exact last

end Trim

section Short

variable {precision : ℕ}

theorem isShort_of_digits (some : 0 < precision) (few : x.digits ≤ precision) :
    IsShort precision x.toRat := by
  refine ⟨x.unscaled, x.scale, rfl, ?_⟩
  rw [Int.abs_eq_natAbs]
  exact_mod_cast (digitCount_le_iff some).mp few

/-- Without zeros at the end, a decimal has no more digits than its number needs. -/
theorem digits_normalized_le_iff (some : 0 < precision) :
    x.normalized.digits ≤ precision ↔ IsShort precision x.toRat := by
  constructor
  · intro few
    rw [← toRat_normalized]
    exact isShort_of_digits some few
  · rintro ⟨n, places, same, few⟩
    by_cases isZero : x.unscaled = 0
    · rw [normalized_of_zero isZero]
      exact some
    · obtain ⟨-, -, -, last⟩ := exists_normalized isZero
      rw [← toRat_normalized, toRat] at same
      refine (digitCount_le_iff some).mpr ?_
      have split := eq_mul_pow_of_scales (scale_le_of_not_dvd last same) same
      have bound : x.normalized.unscaled.natAbs ≤ n.natAbs := by
        rw [split, Int.natAbs_mul]
        exact Nat.le_mul_of_pos_right _ (by simp [Int.natAbs_pow])
      rw [Int.abs_eq_natAbs] at few
      exact lt_of_le_of_lt bound (by exact_mod_cast few)

end Short

end Decimal

namespace Arithmetic

open Decimal Rounding

theorem toRat_limit (a : Arithmetic) (x : Decimal) :
    (a.limit x).toRat = a.rounding.toDigits x.toRat a.precision := by
  rw [limit]
  split
  next few => rw [toDigits_of_isShort _ (isShort_of_digits a.precision_pos few)]
  next => rw [toRat_trimFraction, toRat_withDigits]

end Arithmetic

end Formulary
