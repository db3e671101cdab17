import Formulary.Proofs.Decimal.Rounded

set_option autoImplicit false

/-!
# Keeping to the precision

Rounding to the precision gives the number that the mode prescribes. What is short enough stays as it
is, zeros at its end included, and what is rounded is written without zeros behind its last digit, except
for those in front of the point.
-/

namespace Formulary.Arithmetic

open Decimal Rounding

variable {a : Arithmetic} {x y : Decimal}

theorem limit_of_few (few : x.digits ≤ a.precision) : a.limit x = x :=
  if_pos few

theorem limit_of_many (many : a.precision < x.digits) :
    a.limit x = trimFraction (withDigits a.rounding x a.precision) :=
  if_neg (not_le.mpr many)

theorem isShort_limit (a : Arithmetic) (x : Decimal) : IsShort a.precision (a.limit x).toRat := by
  rw [toRat_limit]
  exact isShort_toDigits a.rounding a.precision_pos x.toRat

/-- A carry gives a one and zeros, which are not counted. -/
theorem digits_normalized_limit (a : Arithmetic) (x : Decimal) :
    (a.limit x).normalized.digits ≤ a.precision :=
  (digits_normalized_le_iff a.precision_pos).mpr (isShort_limit a x)

theorem not_dvd_limit (many : a.precision < x.digits) (fraction : 0 < (a.limit x).scale) :
    ¬(10 : ℤ) ∣ (a.limit x).unscaled := by
  rw [limit_of_many many] at fraction ⊢
  exact not_dvd_trimFraction fraction

theorem toRat_limit_limit (a : Arithmetic) (x : Decimal) :
    (a.limit (a.limit x)).toRat = (a.limit x).toRat := by
  rw [toRat_limit, toDigits_of_isShort a.rounding (isShort_limit a x)]

theorem toRat_limit_mono (a : Arithmetic) (less : x.toRat ≤ y.toRat) :
    (a.limit x).toRat ≤ (a.limit y).toRat := by
  rw [toRat_limit, toRat_limit]
  exact toDigits_mono a.rounding a.precision_pos less

/-- A decimal that is rounded to the precision stands for the number of so many significant digits that
the mode prescribes. -/
theorem limit_rounds (a : Arithmetic) (x : Decimal) :
    (a.limit x).toRat = a.rounding.toDigits x.toRat a.precision ∧
      (x.digits ≤ a.precision → a.limit x = x) ∧
      (a.limit x).normalized.digits ≤ a.precision ∧
      (a.precision < x.digits → 0 < (a.limit x).scale → ¬(10 : ℤ) ∣ (a.limit x).unscaled) ∧
      (a.limit (a.limit x)).toRat = (a.limit x).toRat ∧
      ∀ y : Decimal, x.toRat ≤ y.toRat → (a.limit x).toRat ≤ (a.limit y).toRat :=
  ⟨toRat_limit a x, limit_of_few, digits_normalized_limit a x, not_dvd_limit, toRat_limit_limit a x,
    fun _ => toRat_limit_mono a⟩

/-- At two digits 0.0996 becomes 0.1, one digit, and 5.0 keeps its zero. -/
theorem limit_rounds_carry :
    let a : Arithmetic := { precision := 2, rounding := .halfUp }
    a.limit ⟨996, 4⟩ = ⟨1, 1⟩ ∧ ¬(10 : ℤ) ∣ (a.limit ⟨996, 4⟩).unscaled ∧ a.limit ⟨50, 1⟩ = ⟨50, 1⟩ ∧
      (a.limit ⟨994, 4⟩).toRat ≤ (a.limit ⟨996, 4⟩).toRat := by
  intro a
  obtain ⟨-, -, -, last, -, -⟩ := limit_rounds a ⟨996, 4⟩
  obtain ⟨-, same, -, -, -, -⟩ := limit_rounds a ⟨50, 1⟩
  obtain ⟨-, -, -, -, -, monotone⟩ := limit_rounds a ⟨994, 4⟩
  have carried : a.limit ⟨996, 4⟩ = ⟨1, 1⟩ := by decide +kernel
  refine ⟨carried, last (by decide) ?_, same (by decide), monotone _ ?_⟩
  · rw [carried]
    decide
  · norm_num [toRat]

end Formulary.Arithmetic
