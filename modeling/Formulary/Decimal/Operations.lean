import Formulary.Decimal.Rounding

set_option autoImplicit false

/-!
# Operations on decimals

Sums, differences, products and remainders are exact. A quotient that does not end and every square
root have a hundred digits. What varies from case to case is only the scale of the result.
-/

namespace Formulary.Decimal

def add (x y : Decimal) : Decimal :=
  let scale := Max.max x.scale y.scale
  ⟨x.unscaledAt scale + y.unscaledAt scale, scale⟩

/-- A zero on either side leaves the scale of the other. -/
def sub (x y : Decimal) : Decimal :=
  if y.isZero then x
  else if x.isZero then -y
  else
    let scale := Max.max x.scale y.scale
    ⟨x.unscaledAt scale - y.unscaledAt scale, scale⟩

/-- A factor that is written as one leaves the other as it is. -/
def mul (x y : Decimal) : Decimal :=
  if x.isOne then y
  else if y.isOne then x
  else ⟨x.unscaled * y.unscaled, x.scale + y.scale⟩

/-- The product whose other factor is normalized where one factor is written as one. -/
def mulNormalized (x y : Decimal) : Decimal :=
  if x.isOne then y.normalized
  else if y.isOne then x.normalized
  else ⟨x.unscaled * y.unscaled, x.scale + y.scale⟩

/-- The remainder of the division toward zero. -/
def rem (x y : Decimal) : Decimal :=
  let scale := Max.max x.scale y.scale
  ⟨(x.unscaledAt scale).tmod (y.unscaledAt scale), scale⟩

def quotientDigits : Nat := 100

/-- How many zeros have to be put behind `n` for it to be no less than `d`. -/
def zerosToReach (n d : Nat) : Nat :=
  if 0 < n ∧ n < d then zerosToReach (10 * n) d + 1 else 0
termination_by d - n

/-- A quotient in the making: `kept` and `places` are what has been written, `rest` what is left of
the dividend. -/
structure Division where
  kept : Nat
  rest : Nat
  places : Nat

/-- Puts more digits behind the quotient until it ends or there is no room. -/
def Division.extend (d : Nat) (division : Division) : Nat → Division
  | 0 => division
  | room + 1 =>
    if division.rest = 0 then division
    else
      let rest := 10 * division.rest
      extend d ⟨10 * division.kept + rest / d, rest % d, division.places + 1⟩ room

/-- The quotient of two magnitudes; a rest counts as one if the next digit is five or more. -/
def divideNat (n d : Nat) : Nat × Nat :=
  let places := zerosToReach n d
  let n := n * power 10 places
  let division : Division := ⟨n / d, n % d, places⟩
  let division := division.extend d (quotientDigits - digitCount division.kept)
  (division.kept + (decide (5 ≤ 10 * division.rest / d)).toNat, division.places)

def div (x y : Decimal) : Decimal :=
  if x.isZero || y.isOne then x
  else
    let scale := x.scale - y.scale
    if x.unscaled = y.unscaled then ⟨1, scale⟩
    else
      let (quotient, places) := divideNat x.unscaled.natAbs y.unscaled.natAbs
      ⟨x.unscaled.sign * y.unscaled.sign * quotient, scale + places⟩

/-- The largest number whose square is not above `n`. -/
def squareRootNat (n : Nat) : Nat :=
  if n < 2 then n
  else
    let root := 2 * squareRootNat (n / 4)
    if (root + 1) * (root + 1) ≤ n then root + 1 else root

theorem squareRootNat_sq_le (n : Nat) : squareRootNat n * squareRootNat n ≤ n := by
  fun_induction squareRootNat n with
  | case1 n small =>
    have : n = 0 ∨ n = 1 := by omega
    rcases this with rfl | rfl <;> decide
  | case2 n big root next => exact next
  | case3 n big root next ih =>
    have : root * root = 4 * (squareRootNat (n / 4) * squareRootNat (n / 4)) := by
      simp only [root, Nat.mul_mul_mul_comm]
    omega

theorem lt_succ_squareRootNat_sq (n : Nat) :
    n < (squareRootNat n + 1) * (squareRootNat n + 1) := by
  fun_induction squareRootNat n with
  | case1 n small =>
    have : n = 0 ∨ n = 1 := by omega
    rcases this with rfl | rfl <;> decide
  | case2 n big root next ih =>
    have : (root + 1 + 1) * (root + 1 + 1) =
        4 * ((squareRootNat (n / 4) + 1) * (squareRootNat (n / 4) + 1)) := by
      rw [show root + 1 + 1 = 2 * (squareRootNat (n / 4) + 1) by omega, Nat.mul_mul_mul_comm]
    omega
  | case3 n big root next ih => exact Nat.lt_of_not_le next

def rootDigits : Nat := 100

/-- Negative numbers have no root. The integer under the root has at least 210 digits. -/
def squareRoot? (x : Decimal) : Option Decimal :=
  if x.isZero || x.isOne then some x
  else if x.isNegative then none
  else
    let places := 210 - x.digits
    let places := if (x.scale + places) % 2 = 0 then places else places + 1
    let root := squareRootNat (x.unscaled.natAbs * power 10 places)
    some (withDigits .halfEven ⟨root, (x.scale + places) / 2⟩ rootDigits)

end Formulary.Decimal
