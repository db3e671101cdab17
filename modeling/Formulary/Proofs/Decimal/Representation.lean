import Formulary.Function.Signature
import Formulary.Proofs.Decimal.Powers
import Formulary.Proofs.Decimal.Scaling

set_option autoImplicit false

/-!
# Results do not depend on how numbers are written

Branches are taken on digits and scales, and equal numbers may take different ones. What they come to is
rounded from the same exact number, so that the results are equal, or fail for the same reason.
-/

namespace Formulary

theorem Validator.isNone_onNumbers (holds : Decimal → Bool) (complaint : String) (x : Decimal) :
    (onNumbers holds complaint (.number x)).isNone = holds x := by
  cases verdict : holds x <;> simp [onNumbers, verdict]

namespace Arithmetic

open Decimal

variable {a : Arithmetic} {x x' y y' : Decimal}

/-- Equal numbers, or the same error. -/
inductive Agrees : Except ArithmeticError Decimal → Except ArithmeticError Decimal → Prop
  | ok {r r' : Decimal} : r.equal r' = true → Agrees (.ok r) (.ok r')
  | error (e : ArithmeticError) : Agrees (.error e) (.error e)

/-- Sums, differences, products and remainders are the exact ones, rounded once to the precision. -/
structure RoundsOnce (a : Arithmetic) (x y : Decimal) : Prop where
  add : (a.add x y).toRat = a.rounding.toDigits (x.toRat + y.toRat) a.precision
  sub : (a.sub x y).toRat = a.rounding.toDigits (x.toRat - y.toRat) a.precision
  mul : (a.mul x y).toRat = a.rounding.toDigits (x.toRat * y.toRat) a.precision
  fails : y.isZero = true → a.rem x y = .error .divisionByZero
  rem : y.isZero = false → ∃ r m, a.rem x y = .ok r ∧ IsRemainder x.toRat y.toRat m ∧
    r.toRat = a.rounding.toDigits m a.precision

theorem roundsOnce (a : Arithmetic) (x y : Decimal) : RoundsOnce a x y where
  add := by rw [Arithmetic.add, toRat_limit, toRat_add]
  sub := by rw [Arithmetic.sub, toRat_limit, toRat_sub]
  mul := by rw [Arithmetic.mul, toRat_limit, toRat_mul]
  fails isZero := if_pos isZero
  rem nonzero := by
    have known : y.toRat ≠ 0 := fun isZero => by simp [isZero_iff.mpr isZero] at nonzero
    exact ⟨a.limit (x.rem y), (x.rem y).toRat, if_neg (Bool.eq_false_iff.mp nonzero),
      isRemainder_rem x known, toRat_limit a _⟩

section Agreement

theorem limit_agrees (same : x.toRat = x'.toRat) : (a.limit x).equal (a.limit x') = true := by
  rw [equal_iff, toRat_limit, toRat_limit, same]

theorem rem_agrees (same : x.toRat = x'.toRat) (same' : y.toRat = y'.toRat) :
    Agrees (a.rem x y) (a.rem x' y') := by
  have alike : y.isZero = y'.isZero := by
    rw [Bool.eq_iff_iff, isZero_iff, isZero_iff, same']
  cases isZero : y.isZero with
  | true =>
    rw [(roundsOnce a x y).fails isZero, (roundsOnce a x' y').fails (alike.symm.trans isZero)]
    exact .error _
  | false =>
    obtain ⟨r, m, result, rest, rounded⟩ := (roundsOnce a x y).rem isZero
    obtain ⟨r', m', result', rest', rounded'⟩ := (roundsOnce a x' y').rem (alike.symm.trans isZero)
    rw [← same, ← same'] at rest'
    rw [result, result']
    exact .ok (equal_iff.mpr (by rw [rounded, rounded', rest.unique rest']))

theorem round_agrees (same : x.toRat = x'.toRat) (xFits : fitsWord x.scale = true)
    (xFits' : fitsWord x'.scale = true) {scale : ℤ} (fits : fitsWord scale = true) :
    Agrees (a.round x scale) (a.round x' scale) := by
  rcases lt_or_ge scale (-10000) with low | high
  · rw [round_eq_error_iff.mpr ⟨low, rfl⟩, round_eq_error_iff.mpr ⟨low, rfl⟩]
    exact .error _
  · obtain ⟨r, result, rounds⟩ := round_rounds a xFits fits high
    obtain ⟨r', result', rounds'⟩ := round_rounds a xFits' fits high
    rw [result, result']
    exact .ok (equal_iff.mpr (by rw [rounds.prescribed, rounds'.prescribed, same]))

theorem roundInteger_agrees (mode : Rounding) (same : x.toRat = x'.toRat) :
    (roundInteger mode x).equal (roundInteger mode x') = true := by
  rw [equal_iff, (roundInteger_rounds mode x).prescribed, (roundInteger_rounds mode x').prescribed, same]

theorem pow_agrees (same : x.toRat = x'.toRat) (same' : y.toRat = y'.toRat) {n : ℕ} (positive : 0 < n)
    (within : n ≤ 1000000) (integral : y.toRat = n) : Agrees (a.pow x y) (a.pow x' y') := by
  rw [pow_of_positive x integral positive within,
    pow_of_positive x' (same'.symm.trans integral) positive within]
  exact .ok (equal_iff.mpr (toRat_naturalPower_congr same n))

theorem validators_agree (same : x.toRat = x'.toRat) (validator : Validator)
    (isStandard : validator ∈ [Validator.positive, Validator.nonNegative, Validator.integer]) :
    (validator (.number x)).isNone = (validator (.number x')).isNone := by
  simp only [List.mem_cons, List.not_mem_nil, or_false] at isStandard
  rcases isStandard with rfl | rfl | rfl
  · rw [Validator.positive, Validator.isNone_onNumbers, Validator.isNone_onNumbers, Bool.eq_iff_iff,
      isPositive_iff, isPositive_iff, same]
  · have alike : x.isNegative = x'.isNegative := by
      rw [Bool.eq_iff_iff, isNegative_iff, isNegative_iff, same]
    rw [Validator.nonNegative, Validator.isNone_onNumbers, Validator.isNone_onNumbers, alike]
  · rw [Validator.integer, Validator.isNone_onNumbers, Validator.isNone_onNumbers, Bool.eq_iff_iff,
      isInteger_iff, isInteger_iff, same]

end Agreement

/-- Equal numbers give equal results or the same error, however they are written. -/
theorem results_by_value (a : Arithmetic) (x x' y y' : Decimal) (same : x.equal x' = true)
    (same' : y.equal y' = true) (xFits : fitsWord x.scale = true) (xFits' : fitsWord x'.scale = true) :
    (a.add x y).equal (a.add x' y') = true ∧ (a.sub x y).equal (a.sub x' y') = true ∧
      (a.mul x y).equal (a.mul x' y') = true ∧ Agrees (a.rem x y) (a.rem x' y') ∧
      (a.neg x).equal (a.neg x') = true ∧ (a.limit x).equal (a.limit x') = true ∧
      (∀ scale, fitsWord scale = true → Agrees (a.round x scale) (a.round x' scale)) ∧
      (∀ mode, (roundInteger mode x).equal (roundInteger mode x') = true) ∧
      (∀ n : ℕ, 0 < n → n ≤ 1000000 → y.toRat = n → Agrees (a.pow x y) (a.pow x' y')) ∧
      (∀ validator ∈ [Validator.positive, Validator.nonNegative, Validator.integer],
        (validator (.number x)).isNone = (validator (.number x')).isNone) ∧
      RoundsOnce a x y := by
  have same := equal_iff.mp same
  have same' := equal_iff.mp same'
  refine ⟨limit_agrees ?add, limit_agrees ?sub, limit_agrees ?mul, rem_agrees same same', ?neg,
    limit_agrees same, fun _ fits => round_agrees same xFits xFits' fits,
    fun mode => roundInteger_agrees mode same,
    fun n positive within integral => pow_agrees same same' positive within integral,
    validators_agree same, roundsOnce a x y⟩
  case add => rw [toRat_add, toRat_add, same, same']
  case sub => rw [toRat_sub, toRat_sub, same, same']
  case mul => rw [toRat_mul, toRat_mul, same, same']
  case neg => rw [equal_iff, neg, neg, toRat_neg, toRat_neg, same]

/-- Zeros behind the point of 2.50 and 3.000 are seen in the remainder, but make no other one of it. -/
theorem results_by_value_remainder :
    let a : Arithmetic := { precision := 4 }
    a.rem ⟨25, 1⟩ ⟨3, 0⟩ = .ok ⟨25, 1⟩ ∧ a.rem ⟨250, 2⟩ ⟨3000, 3⟩ = .ok ⟨2500, 3⟩ ∧
      Agrees (a.rem ⟨25, 1⟩ ⟨3, 0⟩) (a.rem ⟨250, 2⟩ ⟨3000, 3⟩) ∧
      Agrees (a.round ⟨25, 1⟩ 0) (a.round ⟨250, 2⟩ 0) ∧
      Agrees (a.pow ⟨25, 1⟩ ⟨3, 0⟩) (a.pow ⟨250, 2⟩ ⟨3000, 3⟩) := by
  intro a
  have isThree : (⟨3, 0⟩ : Decimal).toRat = (3 : ℕ) := by norm_num [toRat]
  obtain ⟨-, -, -, rem, -, -, round, -, pow, -, -⟩ := results_by_value a ⟨25, 1⟩ ⟨250, 2⟩ ⟨3, 0⟩ ⟨3000, 3⟩
    (by decide +kernel) (by decide +kernel) (by decide) (by decide)
  exact ⟨by decide +kernel, by decide +kernel, rem, round 0 (by decide),
    pow 3 (by decide) (by decide) isThree⟩

end Arithmetic

end Formulary
