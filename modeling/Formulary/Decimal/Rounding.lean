import Formulary.Decimal.Basic

set_option autoImplicit false

/-!
# Rounding to a scale

The digits that are dropped are compared exactly with one half of the last place that is kept.
-/

namespace Formulary

inductive Rounding where
  | halfEven
  | halfUp
  | halfDown
  | up
  | down
  | floor
  | ceiling
  deriving DecidableEq, Repr

/-- Whether a magnitude of `kept + rest / unit`, with `rest < unit`, goes to `kept + 1` and not to
`kept`. -/
def Rounding.raises (mode : Rounding) (negative : Bool) (kept rest unit : Nat) : Bool :=
  rest != 0 &&
    match mode with
    | halfEven => unit < 2 * rest || (unit == 2 * rest && kept % 2 == 1)
    | halfUp => unit ≤ 2 * rest
    | halfDown => unit < 2 * rest
    | up => true
    | down => false
    | floor => negative
    | ceiling => !negative

/-- The quotient of `n` and `unit`, rounded to an integer. -/
def Rounding.divide (mode : Rounding) (negative : Bool) (n unit : Nat) : Nat :=
  n / unit + (mode.raises negative (n / unit) (n % unit) unit).toNat

namespace Decimal

/-- Gives a magnitude the sign of `x`. -/
def signed (x : Decimal) (n : Nat) : Int :=
  if x.isNegative then -n else n

/-- `x` at another scale: filled up with zeros, or rounded. -/
def withScale (mode : Rounding) (x : Decimal) (scale : Int) : Decimal :=
  if x.scale ≤ scale then ⟨x.unscaledAt scale, scale⟩
  else
    let unit := power 10 (x.scale - scale).toNat
    ⟨x.signed (mode.divide x.isNegative x.unscaled.natAbs unit), scale⟩

/-- A number of the sign of `x` that is far below one half of the last place at `scale`. -/
def sliver (x : Decimal) (scale : Int) : Decimal :=
  ⟨x.signed 1, saturated (scale + 2)⟩

/-- Whether more places are dropped at `scale` than `x` has digits and one more. Like all scales, what
is counted here stays within 64 bits. -/
def isNegligible (x : Decimal) (scale : Int) : Bool :=
  saturated (saturated x.digits + 1) < saturated (x.scale - scale)

/-- `x` as it is if it has no digits beyond `scale`, and rounded otherwise. Where all digits are
dropped and more places besides, only the sign and the mode count; the power of ten between the
scales, which may be huge, is then not computed. -/
def roundTo (mode : Rounding) (x : Decimal) (scale : Int) : Decimal :=
  if x.isZero then zero
  else if x.scale ≤ scale then x
  else if x.isNegligible scale then withScale mode (x.sliver scale) scale
  else withScale mode x scale

def roundInteger (mode : Rounding) (x : Decimal) : Decimal :=
  roundTo mode x 0

def floor (x : Decimal) : Decimal :=
  roundInteger .floor x

def ceiling (x : Decimal) : Decimal :=
  roundInteger .ceiling x

/-- Drops trailing zeros behind the point, and none before it. -/
def trimFraction (x : Decimal) : Decimal :=
  if x.scale ≤ 0 then x
  else
    let normal := x.normalized
    if normal.scale < 0 then withScale .down normal 0 else normal

/-- `x` with as many digits as `precision` says, one more if rounding carries over. -/
def withDigits (mode : Rounding) (x : Decimal) (precision : Nat) : Decimal :=
  withScale mode x (x.scale + precision - x.digits)

end Decimal

end Formulary
