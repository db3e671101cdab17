import Formulary.Proofs.Decimal.Rounded
import Mathlib.Tactic.NormNum

set_option autoImplicit false

/-!
# Rounding to a scale

Rounding gives the multiple of the last place that the mode prescribes, also where a tiny number of the
same sign is rounded in place of one that loses all its digits and a place more: both are below one half
of the last place, and there a mode sees nothing but the sign. The scales are 64-bit numbers, and so none
of those that are computed on the way is cut off at the limits.
-/

namespace Formulary

namespace Rounding

variable {q r : ℚ}

theorem toInt_of_small (mode : Rounding) (positive : 0 < q) (small : q < 1 / 2) :
    mode.toInt q = if mode = up ∨ mode = ceiling then 1 else 0 := by
  have floors : ⌊q⌋ = 0 := Int.floor_eq_zero_iff.mpr ⟨positive.le, by linarith⟩
  have ceils : ⌈q⌉ = 1 := by
    rw [Int.ceil_eq_iff]
    constructor <;> push_cast <;> linarith
  have raised : ⌊q + 1 / 2⌋ = 0 := Int.floor_eq_zero_iff.mpr ⟨by linarith, by linarith⟩
  have lowered : ⌈q - 1 / 2⌉ = 0 := by
    rw [Int.ceil_eq_iff]
    constructor <;> push_cast <;> linarith
  cases mode <;> simp only [toInt, floors, ceils, raised, lowered, positive.not_gt, if_false] <;> simp

/-- Below one half only the sign of a number matters. -/
theorem toInt_eq_of_small (mode : Rounding) (sameSign : 0 < q * r) (small : |q| < 1 / 2)
    (small' : |r| < 1 / 2) : mode.toInt q = mode.toInt r := by
  rcases mul_pos_iff.mp sameSign with ⟨positive, positive'⟩ | ⟨negative, negative'⟩
  · rw [toInt_of_small mode positive (abs_lt.mp small).2,
      toInt_of_small mode positive' (abs_lt.mp small').2]
  · rw [toInt_eq_neg mode q, toInt_eq_neg mode r,
      toInt_of_small _ (neg_pos.mpr negative) (by linarith [(abs_lt.mp small).1]),
      toInt_of_small _ (neg_pos.mpr negative') (by linarith [(abs_lt.mp small').1])]

theorem toScale_floor_le (q : ℚ) : floor.toScale q 0 ≤ q ∧ q < floor.toScale q 0 + 1 := by
  simp only [toScale, toInt, neg_zero, zpow_zero, mul_one]
  exact ⟨Int.floor_le q, Int.lt_floor_add_one q⟩

theorem le_toScale_ceiling (q : ℚ) : ceiling.toScale q 0 - 1 < q ∧ q ≤ ceiling.toScale q 0 := by
  simp only [toScale, toInt, neg_zero, zpow_zero, mul_one]
  exact ⟨by linarith [Int.ceil_lt_add_one q], Int.le_ceil q⟩

end Rounding

namespace Decimal

open Rounding

variable {mode : Rounding} {x r : Decimal} {scale : ℤ}

theorem fitsWord_iff {n : ℤ} :
    fitsWord n = true ↔ -9223372036854775808 ≤ n ∧ n ≤ 9223372036854775807 := by
  simp [fitsWord]

theorem saturated_of_fitsWord {n : ℤ} (fits : fitsWord n = true) : saturated n = n := by
  have := fitsWord_iff.mp fits
  unfold saturated
  omega

section Negligible

/-- A comparison that holds at the limits of 64 bits holds beyond them. -/
theorem digits_lt_of_isNegligible (negligible : x.isNegligible scale = true) :
    x.digits + 1 < x.scale - scale := by
  have less : saturated (saturated x.digits + 1) < saturated (x.scale - scale) :=
    of_decide_eq_true negligible
  unfold saturated at less
  omega

theorem abs_lt_of_isNegligible (negligible : x.isNegligible scale = true) :
    |x.toRat * 10 ^ scale| < 1 / 2 := by
  have dropped := digits_lt_of_isNegligible negligible
  have positive : (0 : ℚ) < 10 ^ scale := by positivity
  calc |x.toRat * 10 ^ scale| = |x.toRat| * 10 ^ scale := by rw [abs_mul, abs_of_pos positive]
    _ < 10 ^ x.magnitude * 10 ^ scale := mul_lt_mul_of_pos_right (abs_toRat_lt x) positive
    _ = 10 ^ (x.magnitude + scale) := (zpow_add_ten _ _).symm
    _ ≤ 10 ^ (-1 : ℤ) := zpow_le_zpow_right₀ (by norm_num) (by unfold magnitude; omega)
    _ < 1 / 2 := by norm_num

/-- One hundredth of the last place, with the sign of `x`. -/
theorem toRat_sliver (room : fitsWord (scale + 2) = true) :
    (x.sliver scale).toRat * 10 ^ scale = x.signed 1 / 100 := by
  rw [sliver, saturated_of_fitsWord room, toRat_mul_zpow, sub_add_cancel_left]
  norm_num [div_eq_mul_inv]

/-- The scale of `x` is higher by more than two, and it fits. -/
theorem fitsWord_of_isNegligible (xFits : fitsWord x.scale = true) (fits : fitsWord scale = true)
    (negligible : x.isNegligible scale = true) : fitsWord (scale + 2) = true := by
  have dropped := digits_lt_of_isNegligible negligible
  rw [fitsWord_iff] at *
  omega

/-- The shortcut makes no difference. -/
theorem toRat_withScale_sliver (mode : Rounding) (room : fitsWord (scale + 2) = true)
    (nonzero : x.isZero = false) (negligible : x.isNegligible scale = true) :
    (withScale mode (x.sliver scale) scale).toRat = (withScale mode x scale).toRat := by
  have small := abs_lt_of_isNegligible negligible
  have isSliver := toRat_sliver (x := x) room
  have known : x.toRat ≠ 0 := fun isZero => by simp [isZero_iff.mpr isZero] at nonzero
  have positive : (0 : ℚ) < 10 ^ scale := by positivity
  rw [toRat_withScale, toRat_withScale, toScale, toScale, isSliver]
  congr 2
  apply toInt_eq_of_small mode _ _ small
  · rw [signed]
    split
    next negative =>
      have below := mul_neg_of_neg_of_pos (isNegative_iff.mp negative) positive
      exact mul_pos_of_neg_of_neg (by norm_num) below
    next nonneg =>
      have above := lt_of_le_of_ne (not_lt.mp (mt isNegative_iff.mpr nonneg)) known.symm
      exact mul_pos (by norm_num) (mul_pos above positive)
  · rw [signed]
    split <;> norm_num [abs_div]

end Negligible

/-- `r` is the multiple of the last place at `scale` that the mode prescribes for `x`, which is `x` itself
if that is such a multiple. -/
structure Rounds (mode : Rounding) (x : Decimal) (scale : ℤ) (r : Decimal) : Prop where
  prescribed : r.toRat = mode.toScale x.toRat scale
  kept : ∀ n : ℤ, x.toRat = n * 10 ^ (-scale) → r.toRat = x.toRat

theorem Rounds.of_prescribed (prescribed : r.toRat = mode.toScale x.toRat scale) :
    Rounds mode x scale r :=
  ⟨prescribed, fun n isMultiple => by rw [prescribed, isMultiple, toScale_multiple]⟩

theorem toRat_roundTo (mode : Rounding) (room : x.isNegligible scale = true → fitsWord (scale + 2) = true) :
    (roundTo mode x scale).toRat = mode.toScale x.toRat scale := by
  unfold roundTo
  split
  next isZero => rw [isZero_iff.mp isZero, toScale_zero, toRat_zero]
  next nonzero =>
    split
    next within => rw [toRat, toScale_of_le mode _ within]
    next =>
      split
      next negligible =>
        rw [toRat_withScale_sliver mode (room negligible) (Bool.eq_false_iff.mpr nonzero) negligible,
          toRat_withScale]
      next => exact toRat_withScale mode x scale

theorem roundTo_rounds (mode : Rounding) (xFits : fitsWord x.scale = true)
    (fits : fitsWord scale = true) : Rounds mode x scale (roundTo mode x scale) :=
  .of_prescribed (toRat_roundTo mode (fitsWord_of_isNegligible xFits fits))

/-- Rounding to an integer computes no scale that could be cut off. -/
theorem roundInteger_rounds (mode : Rounding) (x : Decimal) : Rounds mode x 0 (roundInteger mode x) :=
  .of_prescribed (toRat_roundTo mode fun _ => by decide)

theorem toRat_roundInteger (mode : Rounding) (x : Decimal) :
    (roundInteger mode x).toRat = mode.toInt x.toRat := by
  rw [(roundInteger_rounds mode x).prescribed, toScale, neg_zero, zpow_zero, mul_one, mul_one]

end Decimal

namespace Arithmetic

open Decimal

variable {a : Arithmetic} {x : Decimal} {scale : ℤ}

theorem round_eq_error_iff {e : ArithmeticError} :
    a.round x scale = .error e ↔ scale < -10000 ∧ e = .scaleOutOfRange scale := by
  unfold round scaleLimit
  split
  next low => simp [low, eq_comm]
  next high => simp [high]

theorem round_rounds (a : Arithmetic) (xFits : fitsWord x.scale = true) (fits : fitsWord scale = true)
    (high : -10000 ≤ scale) : ∃ r, a.round x scale = .ok r ∧ Rounds a.rounding x scale r :=
  ⟨roundTo a.rounding x scale, if_neg (not_lt.mpr high), roundTo_rounds a.rounding xFits fits⟩

end Arithmetic

end Formulary
