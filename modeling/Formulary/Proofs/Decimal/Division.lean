import Formulary.Proofs.Decimal.Quotient

set_option autoImplicit false

/-!
# Quotients are rounded twice

What is divided is rounded to the precision after it has been cut to a hundred digits. The number is the
one that the mode prescribes for the exact quotient as long as cutting does not take it past a place where
the mode changes over from one number to the next.
-/

namespace Formulary

namespace Rounding

variable {mode : Rounding} {q r : ℚ} {n : ℤ} {precision digits : ℕ}

/-- Two numbers are rounded alike where no place at which the mode changes over lies between them. -/
theorem toInt_eq_iff : mode.toInt q = mode.toInt r ↔ ∀ n, mode.Reaches n q ↔ mode.Reaches n r := by
  simp only [← le_toInt_iff]
  constructor
  · intro same n
    rw [same]
  · exact eq_of_forall_le_iff

theorem toScale_eq_iff {scale : ℤ} : mode.toScale q scale = mode.toScale r scale ↔
    ∀ n, mode.Reaches n (q * 10 ^ scale) ↔ mode.Reaches n (r * 10 ^ scale) := by
  have power : (10 : ℚ) ^ (-scale) ≠ 0 := by positivity
  rw [toScale, toScale, mul_left_inj' power, Int.cast_inj, toInt_eq_iff]

/-- Of a number that has been rounded, and may have become a power of ten by that, the same digits are kept
as of the number itself. -/
theorem toDigits_toDigits {inner : Rounding} (some : 0 < precision) (someDigits : 0 < digits) :
    mode.toDigits (inner.toDigits q digits) precision =
      mode.toScale (inner.toDigits q digits) (precision - magnitude q) := by
  have ofPos (mode inner : Rounding) {q : ℚ} (positive : 0 < q) :
      mode.toDigits (inner.toDigits q digits) precision =
        mode.toScale (inner.toDigits q digits) (precision - magnitude q) := by
    obtain ⟨low, high⟩ := toDigits_between inner someDigits positive
    exact toDigits_eq_toScale mode some low high
  rcases lt_trichotomy q 0 with negative | rfl | positive
  · have mirror := ofPos mode.mirrored inner.mirrored (neg_pos.mpr negative)
    rw [toDigits_neg, mirrored_mirrored, toDigits_neg, toScale_neg, mirrored_mirrored,
      magnitude_neg] at mirror
    exact neg_inj.mp mirror
  · simp only [toDigits_zero, toScale_zero]
  · exact ofPos mode inner positive

theorem IsShort.mono (short : IsShort precision q) (within : precision ≤ digits) : IsShort digits q := by
  obtain ⟨n, scale, same, few⟩ := short
  exact ⟨n, scale, same, few.trans_le (pow_le_pow_right₀ (by norm_num) within)⟩

end Rounding

namespace Arithmetic

open Decimal Rounding

variable {x y : Decimal}

/-- The places at which rounding to the precision changes over are the same for a quotient and for the one
that has been cut. -/
theorem toDigits_div_eq_iff (a : Arithmetic) (x : Decimal) (nonzero : y.toRat ≠ 0) {scale : ℤ}
    (isScale : scale = a.precision - Rounding.magnitude (x.toRat / y.toRat)) :
    a.rounding.toDigits (x.div y).toRat a.precision = a.rounding.toDigits (x.toRat / y.toRat) a.precision ↔
      ∀ n, a.rounding.Reaches n ((x.div y).toRat * 10 ^ scale) ↔
        a.rounding.Reaches n (x.toRat / y.toRat * 10 ^ scale) := by
  have placed : a.rounding.toDigits (x.div y).toRat a.precision =
      a.rounding.toScale (x.div y).toRat scale := by
    rcases toRat_div x nonzero with whole | cut
    · rw [whole, toDigits, isScale]
    · rw [cut, toDigits_toDigits a.precision_pos (cutDigits_pos _ _), isScale]
  rw [placed, toDigits, ← isScale, toScale_eq_iff]

/-- A quotient is rounded to the precision after it has been cut. The result is the exact quotient rounded
once if it has at most a hundred digits, and otherwise exactly if no place at which the mode changes over
lies between it and what it has been cut to. -/
theorem div_rounds_twice (a : Arithmetic) (x y : Decimal) (nonzero : y.isZero = false) :
    let q := x.toRat / y.toRat
    let cut := (x.div y).toRat
    let scale : ℤ := a.precision - Rounding.magnitude q
    (cut = q ∨ cut = halfUp.toDigits q (cutDigits x.unscaled.natAbs y.unscaled.natAbs)) ∧
      ∃ r, a.div x y = .ok r ∧ r.toRat = a.rounding.toDigits cut a.precision ∧
        (IsShort quotientDigits q → r.toRat = a.rounding.toDigits q a.precision) ∧
        (r.toRat = a.rounding.toDigits q a.precision ↔
          ∀ n, a.rounding.Reaches n (cut * 10 ^ scale) ↔ a.rounding.Reaches n (q * 10 ^ scale)) := by
  intro q cut scale
  have known : y.toRat ≠ 0 := fun isZero => by simp [isZero_iff.mpr isZero] at nonzero
  have cuts := toRat_div x known
  refine ⟨cuts, a.limit (x.div y), if_neg (Bool.eq_false_iff.mp nonzero), toRat_limit a _, ?short, ?once⟩
  case short =>
    intro short
    have whole : cut = q := by
      rcases cuts with whole | cut
      · exact whole
      · exact cut.trans (toDigits_of_isShort halfUp (short.mono (le_max_left _ _)))
    rw [toRat_limit]
    exact congrArg (a.rounding.toDigits · a.precision) whole
  case once =>
    rw [toRat_limit]
    exact toDigits_div_eq_iff a x known rfl

theorem div_rounds_twice_quarter :
    let a : Arithmetic := {}
    a.div ⟨1, 0⟩ ⟨4, 0⟩ = .ok ⟨25, 2⟩ ∧
      (⟨25, 2⟩ : Decimal).toRat =
        a.rounding.toDigits ((⟨1, 0⟩ : Decimal).toRat / (⟨4, 0⟩ : Decimal).toRat) a.precision := by
  intro a
  obtain ⟨-, r, isResult, -, once, -⟩ := div_rounds_twice a ⟨1, 0⟩ ⟨4, 0⟩ (by decide)
  have isQuarter : a.div ⟨1, 0⟩ ⟨4, 0⟩ = .ok ⟨25, 2⟩ := by decide +kernel
  rw [isQuarter] at isResult
  obtain rfl := Except.ok.inj isResult
  exact ⟨isQuarter, once ⟨25, 2, by norm_num [toRat], by norm_num [quotientDigits]⟩⟩

/-- The quotient is below the tie after its last digit, by little enough that it is cut to the tie. -/
theorem div_past_tie :
    let a : Arithmetic := {}
    let x : Decimal := ⟨10 ^ 68 + 10 ^ 28 + 15, 68⟩
    let y : Decimal := ⟨10 ^ 40 + 1, 40⟩
    y.isZero = false ∧ ∃ r, a.div x y = .ok r ∧
      r.toRat ≠ a.rounding.toDigits (x.toRat / y.toRat) a.precision := by
  intro a x y
  have past : a.div x y = .ok ⟨10 ^ 67 + 2, 67⟩ := by decide +kernel
  refine ⟨by decide, _, past, ?_⟩
  have isMagnitude : Rounding.magnitude (x.toRat / y.toRat) = 1 := by
    apply magnitude_eq <;> norm_num [x, y, toRat]
  -- the result is even, and half a unit less would be enough for it
  have below : ¬halfEven.Reaches (10 ^ 67 + 2) (x.toRat / y.toRat * 10 ^ (67 : ℤ)) := by
    have even : Even (10 ^ 67 + 2 : ℤ) := by decide
    rw [Reaches, if_pos even]
    norm_num [x, y, toRat]
  have less : halfEven.toInt (x.toRat / y.toRat * 10 ^ (67 : ℤ)) < 10 ^ 67 + 2 :=
    not_le.mp (mt (le_toInt_iff _ _ _).mp below)
  rw [toDigits, isMagnitude]
  refine ne_of_gt ?_
  change (halfEven.toInt (x.toRat / y.toRat * 10 ^ (67 : ℤ)) : ℚ) * 10 ^ (-67 : ℤ) <
    ((10 ^ 67 + 2 : ℤ) : ℚ) * 10 ^ (-67 : ℤ)
  exact mul_lt_mul_of_pos_right (Int.cast_lt.mpr less) (by positivity)

end Arithmetic

end Formulary
