import Formulary.Proofs.Decimal.Exact
import Formulary.Proofs.Decimal.Precision

set_option autoImplicit false

/-!
# Integer powers

An exponent is taken for an integer by its value, however it is written. The products of repeated squaring
have no more digits than the power itself, apart from zeros, so that none of them is rounded where the power
has room in the precision. A negative exponent gives the reciprocal of what the positive one gives.
-/

namespace Formulary

namespace Decimal

/-- Repeated squaring, with no product rounded. -/
def powerFrom (result square : Decimal) (n : ℕ) : Decimal :=
  if n = 0 then result
  else
    let result := if n % 2 = 1 then result.mulNormalized square else result
    if n / 2 = 0 then result else powerFrom result (square.mulNormalized square) (n / 2)

/-- The power of `x` in all its digits. -/
def exactPower (x : Decimal) (n : ℕ) : Decimal :=
  powerFrom one x n

variable {x y : Decimal}

@[simp] theorem toRat_one : one.toRat = 1 := by
  simp [toRat, one]

theorem toRat_taken (result square : Decimal) (n : ℕ) :
    (if n % 2 = 1 then result.mulNormalized square else result).toRat =
      result.toRat * square.toRat ^ (n % 2) := by
  split
  next odd => rw [toRat_mulNormalized, odd, pow_one]
  next even => rw [Nat.mod_two_ne_one.mp even, pow_zero, mul_one]

theorem toRat_powerFrom (result square : Decimal) (n : ℕ) :
    (powerFrom result square n).toRat = result.toRat * square.toRat ^ n := by
  fun_induction powerFrom result square n with
  | case1 result square => rw [pow_zero, mul_one]
  | case2 result square n _ next last =>
    have taken : next.toRat = result.toRat * square.toRat ^ (n % 2) := toRat_taken result square n
    rw [taken, show n % 2 = n by omega]
  | case3 result square n _ next _ ih =>
    have taken : next.toRat = result.toRat * square.toRat ^ (n % 2) := toRat_taken result square n
    rw [ih, taken, toRat_mulNormalized, ← pow_two, ← pow_mul, mul_assoc, ← pow_add, Nat.mod_add_div]

theorem toRat_exactPower (x : Decimal) (n : ℕ) : (x.exactPower n).toRat = x.toRat ^ n := by
  rw [exactPower, toRat_powerFrom, toRat_one, one_mul]

section Digits

theorem natAbs_normalized_le (x : Decimal) : x.normalized.unscaled.natAbs ≤ x.unscaled.natAbs := by
  by_cases isZero : x.unscaled = 0
  · rw [normalized_of_zero isZero]
    exact Nat.zero_le _
  · obtain ⟨zeros, -, split, -⟩ := exists_normalized isZero
    rw [split, Int.natAbs_mul]
    exact Nat.le_mul_of_pos_right _ (by simp [Int.natAbs_pow])

theorem natAbs_pos_of_isOne (isOne : x.isOne = true) : 0 < x.unscaled.natAbs := by
  rw [Int.natAbs_pos, ne_eq, ← toRat_eq_zero, toRat_of_isOne isOne]
  exact one_ne_zero

/-- A product has no more digits than its factors together, where none are lost. -/
theorem natAbs_mulNormalized_le (x y : Decimal) :
    (x.mulNormalized y).unscaled.natAbs ≤ x.unscaled.natAbs * y.unscaled.natAbs := by
  unfold mulNormalized
  split
  next isOne =>
    exact (natAbs_normalized_le y).trans (Nat.le_mul_of_pos_left _ (natAbs_pos_of_isOne isOne))
  next =>
    split
    next isOne =>
      exact (natAbs_normalized_le x).trans (Nat.le_mul_of_pos_right _ (natAbs_pos_of_isOne isOne))
    next => exact (Int.natAbs_mul _ _).le

theorem natAbs_mulNormalized_le_pow {i m n : ℕ} (bounded : x.unscaled.natAbs ≤ i ^ m)
    (bounded' : y.unscaled.natAbs ≤ i ^ n) : (x.mulNormalized y).unscaled.natAbs ≤ i ^ (m + n) := by
  rw [pow_add]
  exact (natAbs_mulNormalized_le x y).trans (Nat.mul_le_mul bounded bounded')

end Digits

end Decimal

namespace Arithmetic

open Decimal Rounding

variable {a : Arithmetic} {x y result square : Decimal} {i n total : ℕ}

section Room

theorem limit_of_room (room : i ^ total < 10 ^ a.precision) {m : ℕ} (within : m ≤ total)
    (bounded : x.unscaled.natAbs ≤ i ^ m) : a.limit x = x := by
  refine limit_of_few ((digitCount_le_iff a.precision_pos).mpr (bounded.trans_lt ?_))
  rcases Nat.eq_zero_or_pos i with rfl | positive
  · exact (pow_le_one₀ le_rfl zero_le_one).trans_lt (Nat.one_lt_pow a.precision_pos.ne' (by decide))
  · exact (Nat.pow_le_pow_right positive within).trans_lt room

/-- The first digit of the exponent. -/
theorem taken_of_room (room : i ^ total < 10 ^ a.precision) {done step : ℕ}
    (bounded : result.unscaled.natAbs ≤ i ^ done) (bounded' : square.unscaled.natAbs ≤ i ^ step)
    (rest : done + step * n ≤ total) :
    (if n % 2 = 1 then a.limit (result.mulNormalized square) else result) =
        (if n % 2 = 1 then result.mulNormalized square else result) ∧
      (if n % 2 = 1 then result.mulNormalized square else result).unscaled.natAbs ≤
        i ^ (done + step * (n % 2)) := by
  split
  next odd =>
    have product := natAbs_mulNormalized_le_pow bounded bounded'
    have once : step * 1 ≤ step * n := Nat.mul_le_mul_left _ (by omega)
    rw [odd, mul_one]
    exact ⟨limit_of_room room (by omega) product, product⟩
  next even =>
    rw [Nat.mod_two_ne_one.mp even, mul_zero, add_zero]
    exact ⟨rfl, bounded⟩

/-- No product is rounded as long as there is room for what has been multiplied already and for the rest:
here these are powers of `i` with the exponents `done` and `step * n`. -/
theorem powerFrom_eq (done step : ℕ) (room : i ^ total < 10 ^ a.precision)
    (bounded : result.unscaled.natAbs ≤ i ^ done) (bounded' : square.unscaled.natAbs ≤ i ^ step)
    (rest : done + step * n ≤ total) :
    a.powerFrom result square n = Decimal.powerFrom result square n := by
  induction n using Nat.strong_induction_on generalizing result square done step with
  | _ n ih =>
    rw [powerFrom, Decimal.powerFrom]
    by_cases none : n = 0
    · rw [if_pos none, if_pos none]
    obtain ⟨taken, product⟩ := taken_of_room room bounded bounded' rest
    rw [if_neg none, if_neg none]
    dsimp only
    rw [taken]
    by_cases last : n / 2 = 0
    · rw [if_pos last, if_pos last]
    · have twice : step * 2 ≤ step * n := Nat.mul_le_mul_left _ (by omega)
      have product' := natAbs_mulNormalized_le_pow bounded' bounded'
      have others : done + step * (n % 2) + (step + step) * (n / 2) = done + step * n := by
        conv_rhs => rw [← Nat.mod_add_div n 2]
        ring
      rw [if_neg last, if_neg last, limit_of_room room (by omega) product']
      exact ih (n / 2) (by omega) _ _ product product' (others.trans_le rest)

theorem naturalPower_eq (room : x.unscaled.natAbs ^ n < 10 ^ a.precision) :
    a.naturalPower x n = x.exactPower n :=
  powerFrom_eq 0 1 room (pow_zero _).ge (pow_one _).ge (by omega)

end Room

section Loop

/-- Two runs of the loop stay related in what has been multiplied, and in the squares. -/
theorem powerFrom_related {R S : Decimal → Decimal → Prop} {result' square' : Decimal}
    (taken : ∀ x x' y y', R x x' → S y y' →
      R (a.limit (x.mulNormalized y)) (a.limit (x'.mulNormalized y')))
    (squared : ∀ y y', S y y' → S (a.limit (y.mulNormalized y)) (a.limit (y'.mulNormalized y')))
    (start : R result result') (base : S square square') :
    R (a.powerFrom result square n) (a.powerFrom result' square' n) := by
  induction n using Nat.strong_induction_on generalizing result square result' square' with
  | _ n ih =>
    rw [powerFrom, powerFrom]
    by_cases none : n = 0
    · rw [if_pos none, if_pos none]
      exact start
    have next : R (if n % 2 = 1 then a.limit (result.mulNormalized square) else result)
        (if n % 2 = 1 then a.limit (result'.mulNormalized square') else result') := by
      split
      next => exact taken _ _ _ _ start base
      next => exact start
    rw [if_neg none, if_neg none]
    dsimp only
    by_cases last : n / 2 = 0
    · rw [if_pos last, if_pos last]
      exact next
    · rw [if_neg last, if_neg last]
      exact ih (n / 2) (by omega) next (squared _ _ base)

theorem powerFrom_preserves {P Q : Decimal → Prop}
    (taken : ∀ x y, P x → Q y → P (a.limit (x.mulNormalized y)))
    (squared : ∀ y, Q y → Q (a.limit (y.mulNormalized y))) (start : P result) (base : Q square) :
    P (a.powerFrom result square n) :=
  @powerFrom_related a result square n (fun x _ => P x) (fun y _ => Q y) result square
    (fun x _ y _ => taken x y) (fun y _ => squared y) start base

theorem toRat_naturalPower_congr {x' : Decimal} (same : x.toRat = x'.toRat) (n : ℕ) :
    (a.naturalPower x n).toRat = (a.naturalPower x' n).toRat := by
  have product (x x' y y' : Decimal) (same : x.toRat = x'.toRat) (same' : y.toRat = y'.toRat) :
      (a.limit (x.mulNormalized y)).toRat = (a.limit (x'.mulNormalized y')).toRat := by
    rw [toRat_limit, toRat_limit, toRat_mulNormalized, toRat_mulNormalized, same, same']
  exact powerFrom_related (R := fun x x' => x.toRat = x'.toRat) product
    (fun y y' same => product y y' y y' same same) rfl same

theorem toRat_naturalPower_ne_zero (nonzero : x.toRat ≠ 0) (n : ℕ) : (a.naturalPower x n).toRat ≠ 0 := by
  have product (x y : Decimal) (nonzero : x.toRat ≠ 0) (nonzero' : y.toRat ≠ 0) :
      (a.limit (x.mulNormalized y)).toRat ≠ 0 := by
    rw [toRat_limit, toRat_mulNormalized]
    exact toDigits_ne_zero a.rounding a.precision_pos (mul_ne_zero nonzero nonzero')
  exact powerFrom_preserves (P := fun x => x.toRat ≠ 0) product
    (fun y nonzero => product y y nonzero nonzero) (by simp) nonzero

/-- No power has more digits than the precision allows, whatever the digits of `x`. -/
theorem digits_normalized_naturalPower (a : Arithmetic) (x : Decimal) (n : ℕ) :
    (a.naturalPower x n).normalized.digits ≤ a.precision := by
  have single : one.normalized.digits ≤ 1 := by decide +kernel
  exact powerFrom_preserves (P := fun x => x.normalized.digits ≤ a.precision) (Q := fun _ => True)
    (fun _ _ _ _ => digits_normalized_limit a _) (fun _ _ => trivial) (single.trans a.precision_pos)
    trivial

end Loop

section Exponents

theorem exponent?_eq {n : ℤ} (same : y.toRat = n) (nonzero : n ≠ 0) (within : n.natAbs ≤ 1000000) :
    exponent? y = some n := by
  have known : y.toRat ≠ 0 := by
    rw [same]
    exact_mod_cast nonzero
  have bound : (10 : ℚ) ^ (y.magnitude - 1) < 10 ^ (7 : ℤ) :=
    calc (10 : ℚ) ^ (y.magnitude - 1) ≤ |y.toRat| := le_abs_toRat known
      _ = (n.natAbs : ℚ) := by rw [same, Nat.cast_natAbs, Int.cast_abs]
      _ ≤ (1000000 : ℕ) := Nat.cast_le.mpr within
      _ < 10 ^ (7 : ℤ) := by norm_num
  have few : ¬7 < y.magnitude := by
    rw [zpow_lt_zpow_iff_right₀ (by norm_num)] at bound
    omega
  have whole : y.isInteger = true := isInteger_iff.mpr ⟨n, same⟩
  simp [exponent?, exponentLimit, few, whole, truncated_eq same, within]

theorem pow_of_positive (x : Decimal) (same : y.toRat = n) (positive : 0 < n) (within : n ≤ 1000000) :
    a.pow x y = .ok (a.naturalPower x n) := by
  have isExponent : exponent? y = some (n : ℤ) := exponent?_eq same (by omega) (by omega)
  simp [pow, isExponent]

theorem pow_of_negative (x : Decimal) (same : y.toRat = -n) (positive : 0 < n) (within : n ≤ 1000000) :
    a.pow x y =
      if x.isZero then .error .zeroToNegativePower else a.div one (a.naturalPower x n) := by
  have isExponent : exponent? y = some (-n : ℤ) :=
    exponent?_eq (by push_cast; exact same) (by omega) (by omega)
  have negative : ¬0 ≤ (-n : ℤ) := by omega
  simp only [pow, isExponent, if_neg negative, Int.natAbs_neg, Int.natAbs_natCast]

end Exponents

/-- A positive integer power that has room in the precision is exact, with no product rounded on the way. A
negative one is the reciprocal of the positive one, and fails for zero only. -/
theorem pow_integral (a : Arithmetic) (x y : Decimal) (n : ℕ) (positive : 0 < n) (within : n ≤ 1000000) :
    (y.toRat = n → x.unscaled.natAbs ^ n < 10 ^ a.precision →
        a.pow x y = .ok (x.exactPower n) ∧ (x.exactPower n).toRat = x.toRat ^ n) ∧
      (y.toRat = -n →
        (x.isZero = true → a.pow x y = .error .zeroToNegativePower) ∧
          (x.isZero = false → ∀ z : Decimal, z.toRat = n → ∃ power r, a.pow x z = .ok power ∧
            a.pow x y = a.div one power ∧ a.div one power = .ok r)) := by
  refine ⟨fun same room => ?exact, fun same => ⟨fun isZero => ?zero, fun nonzero z same' => ?reciprocal⟩⟩
  case exact =>
    rw [pow_of_positive x same positive within, naturalPower_eq room]
    exact ⟨rfl, toRat_exactPower x n⟩
  case zero => rw [pow_of_negative x same positive within, if_pos isZero]
  case reciprocal =>
    have known : x.toRat ≠ 0 := fun isZero => by simp [isZero_iff.mpr isZero] at nonzero
    have divides : (a.naturalPower x n).isZero = false :=
      Bool.eq_false_iff.mpr (mt isZero_iff.mp (toRat_naturalPower_ne_zero known n))
    refine ⟨a.naturalPower x n, a.limit (one.div (a.naturalPower x n)),
      pow_of_positive x same' positive within, ?_, ?_⟩
    · rw [pow_of_negative x same positive within, nonzero]
      rfl
    · rw [div, divides]
      rfl

/-- 1.5 squared, with an exponent that is written with zeros behind its point, and its reciprocal at three
digits. -/
theorem pow_integral_square :
    let a : Arithmetic := { precision := 3 }
    let x : Decimal := ⟨15, 1⟩
    a.pow x ⟨200, 2⟩ = .ok ⟨225, 2⟩ ∧ (⟨225, 2⟩ : Decimal).toRat = x.toRat ^ 2 ∧
      a.pow x ⟨-20, 1⟩ = a.div one ⟨225, 2⟩ ∧ a.pow zero ⟨-20, 1⟩ = .error .zeroToNegativePower := by
  intro a x
  have isSquare : a.pow x ⟨200, 2⟩ = .ok ⟨225, 2⟩ := by decide +kernel
  have isTwo : (⟨200, 2⟩ : Decimal).toRat = (2 : ℕ) := by norm_num [toRat]
  have isMinusTwo : (⟨-20, 1⟩ : Decimal).toRat = -(2 : ℕ) := by norm_num [toRat]
  obtain ⟨exact, value⟩ := (pow_integral a x ⟨200, 2⟩ 2 (by decide) (by decide)).1 isTwo (by decide)
  obtain ⟨-, reciprocal⟩ := (pow_integral a x ⟨-20, 1⟩ 2 (by decide) (by decide)).2 isMinusTwo
  obtain ⟨fails, -⟩ := (pow_integral a zero ⟨-20, 1⟩ 2 (by decide) (by decide)).2 isMinusTwo
  obtain ⟨power, -, isPower, divided, -⟩ := reciprocal (by decide) ⟨200, 2⟩ isTwo
  rw [isSquare] at exact isPower
  obtain rfl := Except.ok.inj isPower
  rw [← Except.ok.inj exact] at value
  exact ⟨isSquare, value, divided, fails (by decide)⟩

end Arithmetic

end Formulary
