import Formulary.Proofs.Decimal.Representation
import Formulary.Proofs.Library.Rounding

set_option autoImplicit false

/-!
# Negation is not rounded

Every other operation keeps to the precision, whatever the digits of its operands. The negative of a number
has as many digits as the number, and so it differs from what is left when the number is taken from zero
exactly where the number has more digits than the precision.
-/

namespace Formulary

namespace Arithmetic

open Decimal Rounding

variable {a : Arithmetic} {x y r : Decimal}

theorem digits_normalized_approximatePower (h : a.approximatePower x y = .ok r) :
    r.normalized.digits ≤ a.precision := by
  unfold approximatePower at h
  split at h
  · obtain rfl := Except.ok.inj h
    exact digits_normalized_limit a _
  · cases h

/-- What fails or is rounded. -/
theorem digits_normalized_guarded {failed : Prop} [Decidable failed] {e : ArithmeticError}
    (h : (if failed then .error e else .ok (a.limit x)) = Except.ok r) :
    r.normalized.digits ≤ a.precision := by
  split at h
  · cases h
  · obtain rfl := Except.ok.inj h
    exact digits_normalized_limit a x

theorem digits_normalized_pow (h : a.pow x y = .ok r) : r.normalized.digits ≤ a.precision := by
  unfold pow at h
  split at h
  · exact digits_normalized_approximatePower h
  · split at h
    · obtain rfl := Except.ok.inj h
      exact digits_normalized_naturalPower a x _
    · split at h
      · cases h
      · exact digits_normalized_guarded h

theorem digits_normalized_apply {operation : Library.Operation} (h : operation.apply a x y = .ok r) :
    r.normalized.digits ≤ a.precision := by
  cases operation with
  | add | sub | mul =>
    obtain rfl := Except.ok.inj h
    exact digits_normalized_limit a _
  | div => exact digits_normalized_guarded h
  | rem => exact digits_normalized_guarded h
  | pow => exact digits_normalized_pow h

theorem isShort_neg_iff {precision : ℕ} {q : ℚ} : IsShort precision (-q) ↔ IsShort precision q := by
  have neg {q : ℚ} : IsShort precision q → IsShort precision (-q) := by
    rintro ⟨n, scale, rfl, few⟩
    exact ⟨-n, scale, by rw [Int.cast_neg, neg_mul], by rwa [abs_neg]⟩
  exact ⟨fun short => neg_neg q ▸ neg short, neg⟩

theorem digits_normalized_neg_iff :
    (a.neg x).normalized.digits ≤ a.precision ↔ x.normalized.digits ≤ a.precision := by
  rw [digits_normalized_le_iff a.precision_pos, digits_normalized_le_iff a.precision_pos, neg, toRat_neg,
    isShort_neg_iff]

/-- What is rounded is a number that has the digits for it. -/
theorem neg_equal_sub_iff {zero : Decimal} (isZero : zero.isZero = true) :
    (a.neg x).equal (a.sub zero x) = true ↔ x.normalized.digits ≤ a.precision := by
  rw [equal_iff, neg, (roundsOnce a zero x).sub, isZero_iff.mp isZero, zero_sub, toRat_neg,
    digits_normalized_le_iff a.precision_pos, ← isShort_neg_iff]
  constructor
  · intro same
    rw [same]
    exact isShort_toDigits a.rounding a.precision_pos _
  · exact fun short => (toDigits_of_isShort a.rounding short).symm

end Arithmetic

namespace Library

open Decimal

variable {call : Call}

theorem applied_negation (named : Text.upper call.name = Text.upper "prefix -") (x : Decimal) :
    applied call [.number x] = pure (.number (call.context.arithmetic.neg x)) :=
  applied_of_find? [⟨numbers 1, negate⟩, ⟨{ params := [.only .duration] }, negate⟩] rfl named

theorem applied_difference (named : Text.upper call.name = Text.upper "infix -") (x y : Decimal) :
    applied call [.number x, .number y] = pure (.number (call.context.arithmetic.sub x y)) :=
  applied_of_find? [⟨numbers 2, operate .sub⟩, ⟨pair .instant .instant, subTime⟩,
    ⟨pair .instant .duration, subTime⟩, ⟨pair .duration .duration, subTime⟩] rfl named

/-- All operations but negation keep to the precision. A negative does where the number itself does, and
nowhere else is it the same number as the difference from zero. -/
theorem results_limited (a : Arithmetic) (x y : Decimal) :
    (∀ (operation : Operation) (r : Decimal), operation.apply a x y = .ok r →
        r.normalized.digits ≤ a.precision) ∧
      ((a.neg x).normalized.digits ≤ a.precision ↔ x.normalized.digits ≤ a.precision) ∧
      ∀ zero : Decimal, zero.isZero = true →
        ((a.neg x).equal (a.sub zero x) = true ↔ x.normalized.digits ≤ a.precision) ∧
          ∀ minus difference : Call, Text.upper minus.name = Text.upper "prefix -" →
            Text.upper difference.name = Text.upper "infix -" → minus.context.arithmetic = a →
            difference.context.arithmetic = a →
              applied minus [.number x] = pure (.number (a.neg x)) ∧
                applied difference [.number zero, .number x] = pure (.number (a.sub zero x)) := by
  refine ⟨fun _ _ => Arithmetic.digits_normalized_apply, Arithmetic.digits_normalized_neg_iff,
    fun zero isZero => ⟨Arithmetic.neg_equal_sub_iff isZero, ?_⟩⟩
  rintro minus difference named named' rfl same
  refine ⟨applied_negation named x, ?_⟩
  rw [applied_difference named' zero x, same]

/-- At three digits, a number of three digits and zeros behind them. -/
theorem results_limited_short :
    let a : Arithmetic := { precision := 3 }
    let x : Decimal := ⟨1230, 3⟩
    a.mul x x = ⟨151, 2⟩ ∧ (⟨151, 2⟩ : Decimal).normalized.digits ≤ 3 ∧
      (a.neg x).equal (a.sub zero x) = true := by
  intro a x
  obtain ⟨limited, -, negated⟩ := results_limited a x x
  have product : a.mul x x = ⟨151, 2⟩ := by decide +kernel
  obtain ⟨same, -⟩ := negated zero (by decide)
  exact ⟨product, limited .mul _ (congrArg Except.ok product), same.mpr (by decide +kernel)⟩

/-- At three digits, a number of six. -/
theorem negation_unrounded :
    let a : Arithmetic := { precision := 3 }
    let x : Decimal := ⟨123456, 5⟩
    a.neg x = ⟨-123456, 5⟩ ∧ ¬(a.neg x).normalized.digits ≤ a.precision ∧ a.sub zero x = ⟨-123, 2⟩ ∧
      (a.neg x).equal (a.sub zero x) = false := by
  decide +kernel

end Library

end Formulary
