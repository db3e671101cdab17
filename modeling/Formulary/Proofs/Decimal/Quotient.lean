import Formulary.Proofs.Decimal.Rounded

set_option autoImplicit false

/-!
# What a quotient stands for

Long division keeps the integer quotient and the remainder of the dividend with the zeros that have been
put behind it. It goes on until the quotient ends or has its digits, and what it leaves is rounded half
up: a quotient is exact, or it is the exact one cut half up to a hundred digits, or to those of its
integer part where they are more.
-/

namespace Formulary.Decimal

open Rounding

variable {n d : ℕ}

theorem zerosToReach_reaches (someDividend : 0 < n) :
    d ≤ n * 10 ^ zerosToReach n d ∧
      (0 < zerosToReach n d → n < d ∧ n * 10 ^ zerosToReach n d < 10 * d) := by
  fun_induction zerosToReach n d with
  | case1 n less ih =>
    obtain ⟨reached, past⟩ := ih (by omega)
    have next : n * 10 ^ (zerosToReach (10 * n) d + 1) = 10 * n * 10 ^ zerosToReach (10 * n) d := by ring
    rw [next]
    refine ⟨reached, fun _ => ⟨less.2, ?_⟩⟩
    by_cases last : zerosToReach (10 * n) d = 0
    · rw [last]
      omega
    · exact (past (by omega)).2
  | case2 n notLess =>
    rw [pow_zero, mul_one]
    exact ⟨by omega, by simp⟩

section LongDivision

/-- Division of `n` by `d` as far as `places` behind the point. -/
structure Division.Divides (n d : ℕ) (division : Division) : Prop where
  kept : division.kept = n * 10 ^ division.places / d
  rest : division.rest = n * 10 ^ division.places % d

variable {division : Division}

theorem Division.Divides.next (h : division.Divides n d) (positive : 0 < d) :
    Division.Divides n d
      ⟨10 * division.kept + 10 * division.rest / d, 10 * division.rest % d, division.places + 1⟩ := by
  -- a zero behind the dividend is one behind what is left of it
  have split : n * 10 ^ (division.places + 1) = d * (10 * division.kept) + 10 * division.rest := by
    rw [h.kept, h.rest, pow_succ]
    conv_lhs => rw [← mul_assoc, ← Nat.div_add_mod (n * 10 ^ division.places) d]
    ring
  constructor
  · rw [split, Nat.mul_add_div positive]
  · rw [split, Nat.mul_add_mod]

theorem Division.Divides.extend (h : division.Divides n d) (positive : 0 < d) (room : ℕ) :
    (division.extend d room).Divides n d ∧
      ∃ more, (division.extend d room).places = division.places + more ∧
        ((division.extend d room).rest = 0 ∨ more = room) := by
  fun_induction Division.extend d division room with
  | case1 division => exact ⟨h, 0, rfl, .inr rfl⟩
  | case2 division room ended => exact ⟨h, 0, rfl, .inl ended⟩
  | case3 division room _ rest ih =>
    obtain ⟨divides, more, places, stops⟩ := ih (h.next positive)
    refine ⟨divides, more + 1, places.trans (by ring), ?_⟩
    exact stops.imp_right (congrArg (· + 1))

/-- Every zero that is put behind the dividend is a digit more of the quotient. -/
theorem div_mul_pow_between {low high : ℕ} (positive : 0 < d) (least : 10 ^ low ≤ n / d)
    (most : n / d < 10 ^ high) (more : ℕ) :
    10 ^ (low + more) ≤ n * 10 ^ more / d ∧ n * 10 ^ more / d < 10 ^ (high + more) := by
  rw [Nat.le_div_iff_mul_le positive] at least ⊢
  rw [Nat.div_lt_iff_lt_mul positive] at most ⊢
  rw [pow_add, pow_add, mul_right_comm, mul_right_comm _ _ d]
  exact ⟨Nat.mul_le_mul_right _ least, Nat.mul_lt_mul_of_pos_right most (by positivity)⟩

/-- The digits of a quotient that does not end. -/
def cutDigits (n d : ℕ) : ℕ :=
  Max.max quotientDigits (digitCount (n / d))

theorem cutDigits_pos (n d : ℕ) : 0 < cutDigits n d :=
  lt_of_lt_of_le (by decide) (le_max_left _ _)

/-- Where zeros are needed for a first digit, there is no integer part. -/
theorem digitCount_reached (someDividend : 0 < n) (positive : 0 < d) :
    digitCount (n * 10 ^ zerosToReach n d / d) = digitCount (n / d) := by
  obtain ⟨-, past⟩ := zerosToReach_reaches (d := d) someDividend
  by_cases none : zerosToReach n d = 0
  · rw [none, pow_zero, mul_one]
  · obtain ⟨less, below⟩ := past (by omega)
    have single : n * 10 ^ zerosToReach n d / d < 10 ^ 1 := by
      rw [pow_one]
      exact (Nat.div_lt_iff_lt_mul positive).mpr below
    have few := (digitCount_le_iff (by decide)).mpr single
    have some := digitCount_pos (n * 10 ^ zerosToReach n d / d)
    rw [Nat.div_eq_of_lt less]
    exact le_antisymm few some

theorem next_digit_half (d rest : ℕ) (positive : 0 < d) :
    decide (5 ≤ 10 * rest / d) = (rest != 0 && decide (d ≤ 2 * rest)) := by
  rw [Bool.eq_iff_iff, decide_eq_true_eq, Nat.le_div_iff_mul_le positive]
  simp only [Bool.and_eq_true, bne_iff_ne, decide_eq_true_eq]
  omega

theorem divideNat_spec (someDividend : 0 < n) (positive : 0 < d) :
    (divideNat n d).1 = halfUp.divide false (n * 10 ^ (divideNat n d).2) d ∧
      (d ∣ n * 10 ^ (divideNat n d).2 ∨
        10 ^ (cutDigits n d - 1) ≤ n * 10 ^ (divideNat n d).2 / d ∧
          n * 10 ^ (divideNat n d).2 / d < 10 ^ cutDigits n d) := by
  obtain ⟨reached, -⟩ := zerosToReach_reaches (d := d) someDividend
  let start : Division := ⟨n * 10 ^ zerosToReach n d / d, n * 10 ^ zerosToReach n d % d, zerosToReach n d⟩
  let room := quotientDigits - digitCount start.kept
  have begins : start.Divides n d := ⟨rfl, rfl⟩
  obtain ⟨divides, more, places, stops⟩ := begins.extend positive room
  obtain ⟨last, isLast⟩ : ∃ last, last = start.extend d room := ⟨_, rfl⟩
  have quotient : (divideNat n d).1 = last.kept + (decide (5 ≤ 10 * last.rest / d)).toNat := isLast ▸ rfl
  have written : (divideNat n d).2 = last.places := isLast ▸ rfl
  rw [← isLast] at divides places stops
  rw [quotient, written]
  constructor
  · rw [next_digit_half d last.rest positive, divides.kept, divides.rest]
    rfl
  · rcases stops with ended | rfl
    · exact .inl (Nat.dvd_of_mod_eq_zero (divides.rest.symm.trans ended))
    · -- all of the room has been filled, behind the digits that the division began with
      have some : start.kept ≠ 0 := (Nat.div_pos reached positive).ne'
      have digits := digitCount_pos start.kept
      have reached : digitCount start.kept = digitCount (n / d) := digitCount_reached someDividend positive
      have count : digitCount start.kept + room = cutDigits n d := by
        unfold cutDigits
        omega
      have bounds := div_mul_pow_between positive (pow_digitCount_le some) (lt_pow_digitCount start.kept)
        room
      rw [mul_assoc, ← pow_add, ← places, count, ← Nat.sub_add_comm digits, count] at bounds
      exact .inr bounds

end LongDivision

section Quotients

variable {x y : Decimal} {places : ℕ}

theorem toRat_of_isOne (isOne : y.isOne = true) : y.toRat = 1 := by
  simp only [Decimal.isOne, Bool.and_eq_true, decide_eq_true_eq, beq_iff_eq] at isOne
  obtain ⟨⟨nonneg, -⟩, ones⟩ := isOne
  rw [toRat, ones, power_eq]
  push_cast
  rw [zpow_toNat nonneg, zpow_mul_zpow_neg]

theorem toRat_div_same (same : x.unscaled = y.unscaled) (nonzero : y.toRat ≠ 0) :
    (⟨1, x.scale - y.scale⟩ : Decimal).toRat = x.toRat / y.toRat := by
  rw [eq_div_iff nonzero, toRat, toRat, toRat, same, Int.cast_one, one_mul, mul_left_comm, ← zpow_add_ten]
  congr 2
  ring

/-- The sign of a quotient. -/
def quotientSign (x y : Decimal) : ℤ :=
  x.unscaled.sign * y.unscaled.sign

theorem quotientSign_cases (nonzero : x.unscaled ≠ 0) (nonzero' : y.unscaled ≠ 0) :
    quotientSign x y = 1 ∨ quotientSign x y = -1 := by
  rw [quotientSign, ← Int.sign_mul]
  rcases lt_or_gt_of_ne (mul_ne_zero nonzero nonzero') with negative | positive
  · exact .inr (Int.sign_eq_neg_one_of_neg negative)
  · exact .inl (Int.sign_eq_one_of_pos positive)

theorem toInt_quotientSign (nonzero : x.unscaled ≠ 0) (nonzero' : y.unscaled ≠ 0) (z : ℚ) :
    halfUp.toInt (quotientSign x y * z) = quotientSign x y * halfUp.toInt z := by
  rcases quotientSign_cases nonzero nonzero' with same | same <;> rw [same]
  · simp
  · simpa [mirrored] using toInt_neg halfUp z

theorem unscaled_eq_sign_mul (x : Decimal) :
    (x.unscaled : ℚ) = (x.unscaled.sign : ℚ) * (x.unscaled.natAbs : ℚ) := by
  rw [← Int.cast_natCast (R := ℚ) x.unscaled.natAbs, ← Int.cast_mul, Int.sign_mul_natAbs]

theorem toRat_div_toRat_mul (x : Decimal) (nonzero : y.unscaled ≠ 0) (places : ℕ) :
    x.toRat / y.toRat * 10 ^ (x.scale - y.scale + places) =
      quotientSign x y * (((x.unscaled.natAbs * 10 ^ places : ℕ) : ℚ) / y.unscaled.natAbs) := by
  have inverse : (y.unscaled.sign : ℚ)⁻¹ = y.unscaled.sign := by
    rcases lt_or_gt_of_ne nonzero with negative | positive
    · simp [Int.sign_eq_neg_one_of_neg negative]
    · simp [Int.sign_eq_one_of_pos positive]
  have powers : (10 : ℚ) ^ (x.scale - y.scale + places) =
      10 ^ x.scale * (10 ^ y.scale)⁻¹ * 10 ^ places := by
    rw [zpow_add_ten, sub_eq_add_neg, zpow_add_ten, zpow_neg, zpow_natCast]
  have placed (z : Decimal) : z.toRat = z.unscaled.sign * z.unscaled.natAbs * (10 ^ z.scale)⁻¹ := by
    rw [toRat, unscaled_eq_sign_mul, zpow_neg]
  have power (n : ℤ) : (10 : ℚ) ^ n * (10 ^ n)⁻¹ = 1 := mul_inv_cancel₀ (by positivity)
  rw [powers, placed x, placed y, quotientSign, div_eq_mul_inv, mul_inv, mul_inv, inverse, inv_inv]
  push_cast
  calc _ = x.unscaled.sign * y.unscaled.sign * (x.unscaled.natAbs * 10 ^ places / y.unscaled.natAbs) *
        ((10 : ℚ) ^ x.scale * (10 ^ x.scale)⁻¹) * (10 ^ y.scale * (10 ^ y.scale)⁻¹) := by ring
    _ = _ := by rw [power, power, mul_one, mul_one]

/-- A quotient whose last digit is rounded half up. -/
theorem toRat_halfUp (nonzero : x.unscaled ≠ 0) (nonzero' : y.unscaled ≠ 0) (places : ℕ) :
    (⟨quotientSign x y * halfUp.divide false (x.unscaled.natAbs * 10 ^ places) y.unscaled.natAbs,
      x.scale - y.scale + places⟩ : Decimal).toRat =
      halfUp.toScale (x.toRat / y.toRat) (x.scale - y.scale + places) := by
  rw [toScale, toRat_div_toRat_mul x nonzero', toInt_quotientSign nonzero nonzero',
    ← divide_eq_toInt halfUp (Int.natAbs_pos.mpr nonzero'), toRat]

theorem toScale_of_ends (nonzero : y.unscaled ≠ 0) {places : ℕ}
    (ends : y.unscaled.natAbs ∣ x.unscaled.natAbs * 10 ^ places) :
    halfUp.toScale (x.toRat / y.toRat) (x.scale - y.scale + places) = x.toRat / y.toRat := by
  obtain ⟨m, whole⟩ := ends
  have known : (y.unscaled.natAbs : ℚ) ≠ 0 := by
    rw [Nat.cast_ne_zero]
    exact Int.natAbs_ne_zero.mpr nonzero
  have scaled := toRat_div_toRat_mul x nonzero places
  rw [whole, Nat.cast_mul, mul_div_cancel_left₀ _ known, ← Int.cast_natCast (R := ℚ) m,
    ← Int.cast_mul] at scaled
  have isMultiple : x.toRat / y.toRat =
      (quotientSign x y * m : ℤ) * 10 ^ (-(x.scale - y.scale + places)) := by
    rw [← scaled, mul_assoc, zpow_mul_zpow_neg, mul_one]
  rw [isMultiple, toScale_multiple]

theorem abs_div_mul (nonzero : x.unscaled ≠ 0) (nonzero' : y.unscaled ≠ 0) (places : ℕ) :
    |x.toRat / y.toRat| * 10 ^ (x.scale - y.scale + places) =
      ((x.unscaled.natAbs * 10 ^ places : ℕ) : ℚ) / y.unscaled.natAbs := by
  have power : (0 : ℚ) < 10 ^ (x.scale - y.scale + places) := by positivity
  have unsigned : |(quotientSign x y : ℚ)| = 1 := by
    rcases quotientSign_cases nonzero nonzero' with same | same <;> simp [same]
  have nonneg : (0 : ℚ) ≤ ((x.unscaled.natAbs * 10 ^ places : ℕ) : ℚ) / y.unscaled.natAbs := by positivity
  have scaled := congrArg (|·|) (toRat_div_toRat_mul x nonzero' places)
  rwa [abs_mul, abs_of_pos power, abs_mul, unsigned, one_mul, abs_of_nonneg nonneg] at scaled

/-- The digits in front of the last place of a quotient tell its magnitude. -/
theorem magnitude_div (nonzero : x.unscaled ≠ 0) (nonzero' : y.unscaled ≠ 0) {places digits : ℕ}
    (some : 0 < digits) (low : 10 ^ (digits - 1) ≤ x.unscaled.natAbs * 10 ^ places / y.unscaled.natAbs)
    (high : x.unscaled.natAbs * 10 ^ places / y.unscaled.natAbs < 10 ^ digits) :
    Rounding.magnitude (x.toRat / y.toRat) = digits - (x.scale - y.scale + places) := by
  have positive : 0 < y.unscaled.natAbs := Int.natAbs_pos.mpr nonzero'
  have power : (0 : ℚ) < 10 ^ (x.scale - y.scale + places) := by positivity
  have scaled := abs_div_mul nonzero nonzero' places
  rw [Nat.le_div_iff_mul_le positive] at low
  rw [Nat.div_lt_iff_lt_mul positive] at high
  apply magnitude_eq
  · rw [← mul_le_mul_iff_left₀ power, scaled, ← zpow_add_ten, le_div_iff₀ (by exact_mod_cast positive)]
    rw [show (digits : ℤ) - (x.scale - y.scale + places) - 1 + (x.scale - y.scale + places) =
      ((digits - 1 : ℕ) : ℤ) by omega, zpow_natCast]
    exact_mod_cast low
  · rw [← mul_lt_mul_iff_left₀ power, scaled, ← zpow_add_ten, div_lt_iff₀ (by exact_mod_cast positive),
      sub_add_cancel, zpow_natCast]
    exact_mod_cast high

theorem toRat_div (x : Decimal) (nonzero : y.toRat ≠ 0) :
    (x.div y).toRat = x.toRat / y.toRat ∨
      (x.div y).toRat =
        halfUp.toDigits (x.toRat / y.toRat) (cutDigits x.unscaled.natAbs y.unscaled.natAbs) := by
  unfold div
  split
  next simple =>
    refine .inl ?_
    rcases Bool.or_eq_true_iff.mp simple with isZero | isOne
    · rw [isZero_iff.mp isZero, zero_div]
    · rw [toRat_of_isOne isOne, div_one]
  next general =>
    dsimp only
    split
    next same => exact .inl (toRat_div_same same nonzero)
    next =>
      have someDividend : x.unscaled ≠ 0 := by
        intro isZero
        exact general (by simp [isZero_iff, toRat_eq_zero, isZero])
      have someDivisor : y.unscaled ≠ 0 := fun isZero => nonzero (toRat_eq_zero.mpr isZero)
      obtain ⟨quotient, ends⟩ := divideNat_spec (Int.natAbs_pos.mpr someDividend)
        (Int.natAbs_pos.mpr someDivisor)
      generalize divideNat x.unscaled.natAbs y.unscaled.natAbs = written at quotient ends ⊢
      obtain ⟨kept, places⟩ := written
      dsimp only at quotient ends ⊢
      rw [quotient, ← quotientSign, toRat_halfUp someDividend someDivisor]
      rcases ends with ends | ⟨low, high⟩
      · exact .inl (toScale_of_ends someDivisor ends)
      · refine .inr ?_
        rw [toDigits, magnitude_div someDividend someDivisor (cutDigits_pos _ _) low high, sub_sub_cancel]

end Quotients

end Formulary.Decimal
