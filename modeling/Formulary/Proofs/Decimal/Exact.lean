import Formulary.Proofs.Decimal.Comparison
import Formulary.Proofs.Decimal.Quotient

set_option autoImplicit false

/-!
# Sums, products and remainders are exact

What is added, subtracted, multiplied or divided with a remainder stands for the number that the numbers
give. The shortcuts for zeros and for factors that are written as one change the scale only.
-/

namespace Formulary

/-- `m` is what is left of `q` after as many times `r` as it holds, counted toward zero. -/
structure IsRemainder (q r m : ℚ) : Prop where
  whole : ∃ n : ℤ, q = n * r + m
  sign : m = 0 ∨ 0 < q * m
  below : |m| < |r|

section Remainders

variable {q r m n : ℚ}

theorem IsRemainder.distance (h : IsRemainder q r m) (h' : IsRemainder q r n) : |m - n| < |r| := by
  obtain ⟨low, high⟩ := abs_lt.mp h.below
  obtain ⟨low', high'⟩ := abs_lt.mp h'.below
  rcases h.sign with rfl | same
  · rw [zero_sub, abs_neg]
    exact h'.below
  rcases h'.sign with rfl | same'
  · rw [sub_zero]
    exact h.below
  -- both have the sign of `q`
  rw [abs_lt]
  rcases mul_pos_iff.mp same with ⟨positive, _⟩ | ⟨negative, _⟩
  · have := (mul_pos_iff_of_pos_left positive).mp same'
    constructor <;> linarith
  · have := neg_of_mul_pos_right same' negative.le
    constructor <;> linarith

theorem IsRemainder.unique (h : IsRemainder q r m) (h' : IsRemainder q r n) : m = n := by
  obtain ⟨k, split⟩ := h.whole
  obtain ⟨l, split'⟩ := h'.whole
  have apart : m - n = ((l - k : ℤ) : ℚ) * r := by
    push_cast
    linarith
  have near := h.distance h'
  have nonzero : 0 < |r| := (abs_nonneg _).trans_lt near
  rw [apart, abs_mul, mul_lt_iff_lt_one_left nonzero, ← Int.cast_abs] at near
  have same : l - k = 0 := Int.abs_lt_one_iff.mp (by exact_mod_cast near)
  rw [same, Int.cast_zero, zero_mul] at apart
  exact sub_eq_zero.mp apart

theorem isRemainder_tmod (m : ℤ) {n : ℤ} (nonzero : n ≠ 0) {unit : ℚ} (positive : 0 < unit) :
    IsRemainder (m * unit) (n * unit) (m.tmod n * unit) where
  whole := by
    refine ⟨m.tdiv n, ?_⟩
    rw [← mul_assoc, ← add_mul]
    exact congrArg (· * unit) (by exact_mod_cast (Int.tdiv_mul_add_tmod m n).symm)
  sign := by
    by_cases divides : n ∣ m
    · rw [Int.tmod_eq_zero_of_dvd divides, Int.cast_zero, zero_mul]
      exact .inl rfl
    · have known : m ≠ 0 := by
        rintro rfl
        exact divides (dvd_zero n)
      have same : 0 < m * m.tmod n := by
        rw [← Int.sign_pos_iff, Int.sign_mul, Int.sign_tmod, if_neg divides, ← Int.sign_mul,
          Int.sign_pos_iff]
        exact mul_self_pos.mpr known
      rw [mul_mul_mul_comm, ← Int.cast_mul]
      exact .inr (mul_pos (Int.cast_pos.mpr same) (mul_pos positive positive))
  below := by
    rw [abs_mul, abs_mul, mul_lt_mul_iff_left₀ (abs_pos.mpr positive.ne'), ← Int.cast_abs, ← Int.cast_abs,
      Int.cast_lt, Int.abs_eq_natAbs, Int.abs_eq_natAbs, Int.natAbs_tmod]
    exact_mod_cast Nat.mod_lt _ (Int.natAbs_pos.mpr nonzero)

end Remainders

namespace Decimal

variable {x y : Decimal}

section Sums

theorem toRat_at (n scale : ℤ) : (⟨n, scale⟩ : Decimal).toRat = n * 10 ^ (-scale) := rfl

theorem toRat_add (x y : Decimal) : (x.add y).toRat = x.toRat + y.toRat := by
  rw [← toRat_unscaledAt (le_max_left x.scale y.scale), ← toRat_unscaledAt (le_max_right x.scale y.scale),
    add, toRat_at, toRat_at, toRat_at, Int.cast_add, add_mul]

theorem toRat_sub (x y : Decimal) : (x.sub y).toRat = x.toRat - y.toRat := by
  unfold sub
  split
  next isZero => rw [isZero_iff.mp isZero, sub_zero]
  next =>
    split
    next isZero => rw [isZero_iff.mp isZero, zero_sub, toRat_neg]
    next =>
      rw [← toRat_unscaledAt (le_max_left x.scale y.scale),
        ← toRat_unscaledAt (le_max_right x.scale y.scale), toRat_at, toRat_at, toRat_at, Int.cast_sub,
        sub_mul]

end Sums

section Products

theorem toRat_product (x y : Decimal) :
    (⟨x.unscaled * y.unscaled, x.scale + y.scale⟩ : Decimal).toRat = x.toRat * y.toRat := by
  rw [toRat_at, toRat, toRat, Int.cast_mul, neg_add, zpow_add_ten, mul_mul_mul_comm]

theorem toRat_mul (x y : Decimal) : (x.mul y).toRat = x.toRat * y.toRat := by
  unfold mul
  split
  next isOne => rw [toRat_of_isOne isOne, one_mul]
  next =>
    split
    next isOne => rw [toRat_of_isOne isOne, mul_one]
    next => exact toRat_product x y

theorem toRat_mulNormalized (x y : Decimal) : (x.mulNormalized y).toRat = x.toRat * y.toRat := by
  unfold mulNormalized
  split
  next isOne => rw [toRat_of_isOne isOne, one_mul, toRat_normalized]
  next =>
    split
    next isOne => rw [toRat_of_isOne isOne, mul_one, toRat_normalized]
    next => exact toRat_product x y

end Products

theorem isRemainder_rem (x : Decimal) (nonzero : y.toRat ≠ 0) :
    IsRemainder x.toRat y.toRat (x.rem y).toRat := by
  have split := toRat_unscaledAt (le_max_left x.scale y.scale)
  have split' := toRat_unscaledAt (le_max_right x.scale y.scale)
  have known : y.unscaledAt (Max.max x.scale y.scale) ≠ 0 := by
    intro isZero
    rw [isZero, toRat_at, Int.cast_zero, zero_mul] at split'
    exact nonzero split'.symm
  rw [← split, ← split']
  exact isRemainder_tmod _ known (by positivity)

section Integers

/-- No integer other than zero has all its digits behind the point. -/
theorem toRat_eq_zero_of_digits_le {n : ℤ} (same : x.toRat = n) (below : x.digits ≤ x.scale) :
    x.toRat = 0 := by
  have small : |x.toRat| < 1 :=
    calc |x.toRat| < 10 ^ x.magnitude := abs_toRat_lt x
      _ ≤ 10 ^ (0 : ℤ) := zpow_le_zpow_right₀ (by norm_num) (by unfold magnitude; omega)
      _ = 1 := zpow_zero _
  rw [same] at small ⊢
  exact_mod_cast Int.abs_lt_one_iff.mp (by exact_mod_cast small)

theorem scale_normalized_le_zero_iff : x.normalized.scale ≤ 0 ↔ ∃ n : ℤ, x.toRat = n := by
  rw [← toRat_normalized]
  constructor
  · intro whole
    refine ⟨x.normalized.unscaledAt 0, ?_⟩
    rw [← toRat_unscaledAt whole, toRat_at, neg_zero, zpow_zero, mul_one]
  · rintro ⟨n, same⟩
    by_cases isZero : x.unscaled = 0
    · rw [normalized_of_zero isZero]
      exact le_rfl
    · obtain ⟨-, -, -, last⟩ := exists_normalized isZero
      refine scale_le_of_not_dvd last (n := n) ?_
      rw [neg_zero, zpow_zero, mul_one]
      exact same

theorem isInteger_iff : x.isInteger = true ↔ ∃ n : ℤ, x.toRat = n := by
  unfold isInteger
  split
  next whole =>
    refine iff_of_true rfl ⟨x.unscaledAt 0, ?_⟩
    rw [← toRat_unscaledAt whole, toRat_at, neg_zero, zpow_zero, mul_one]
  next =>
    split
    next below =>
      rw [isZero_iff]
      constructor
      · exact fun isZero => ⟨0, by rw [isZero, Int.cast_zero]⟩
      · rintro ⟨n, same⟩
        exact toRat_eq_zero_of_digits_le same below
    next => rw [decide_eq_true_eq, scale_normalized_le_zero_iff]

/-- An integer is its own integer part, however many zeros are written behind its point. -/
theorem truncated_eq {n : ℤ} (same : x.toRat = n) : x.truncated = n := by
  unfold truncated
  split
  next whole =>
    rw [← toRat_unscaledAt whole, toRat_at, neg_zero, zpow_zero, mul_one] at same
    exact_mod_cast same
  next fraction =>
    have placed : (n : ℚ) * 10 ^ (-0 : ℤ) = x.unscaled * 10 ^ (-x.scale) := by
      rw [neg_zero, zpow_zero, mul_one, ← same, toRat]
    have split := eq_mul_pow_of_scales (by omega) placed
    rw [split, sub_zero, power_eq, Nat.cast_pow, Nat.cast_ofNat]
    exact Int.mul_tdiv_cancel _ (by positivity)

end Integers

end Decimal

end Formulary
