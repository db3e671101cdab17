set_option autoImplicit false

/-!
# Decimals

A decimal is an integer with a scale: it stands for `unscaled * 10 ^ (-scale)`. Numbers that are
equal may differ in scale, and the scale shows when they are written. Order and equality are those
of the numbers.
-/

namespace Formulary

structure Decimal where
  unscaled : Int
  scale : Int
  deriving DecidableEq, Repr

namespace Decimal

def power (base exponent : Nat) : Nat :=
  Nat.pow base exponent

/-- Scales, and the integers that are taken from decimals, are signed 64-bit numbers. -/
def fitsWord (n : Int) : Bool :=
  -9223372036854775808 ≤ n && n ≤ 9223372036854775807

/-- The signed 64-bit number that is nearest to `n`. -/
def saturated (n : Int) : Int :=
  Max.max (-9223372036854775808) (Min.min n 9223372036854775807)

def zero : Decimal := ⟨0, 0⟩

def one : Decimal := ⟨1, 0⟩

def ofInt (n : Int) : Decimal := ⟨n, 0⟩

def isZero (x : Decimal) : Bool :=
  x.unscaled == 0

def isNegative (x : Decimal) : Bool :=
  x.unscaled < 0

def isPositive (x : Decimal) : Bool :=
  0 < x.unscaled

instance : Neg Decimal := ⟨fun x => ⟨-x.unscaled, x.scale⟩⟩

def abs (x : Decimal) : Decimal :=
  ⟨x.unscaled.natAbs, x.scale⟩

/-- The number of decimal digits; that of zero is one. -/
def digitCount (n : Nat) : Nat :=
  (Nat.toDigits 10 n).length

def digits (x : Decimal) : Nat :=
  digitCount x.unscaled.natAbs

/-- The integer that stands for `x` at a scale not below its own. -/
def unscaledAt (x : Decimal) (scale : Int) : Int :=
  x.unscaled * power 10 (scale - x.scale).toNat

/-- Whether `x` is written as a one with zeros behind the point, at most 38 of them. -/
def isOne (x : Decimal) : Bool :=
  0 ≤ x.scale && x.scale ≤ 38 && x.unscaled == power 10 x.scale.toNat

def trailingZeros (n : Nat) : Nat :=
  if n = 0 then 0 else if n % 10 = 0 then trailingZeros (n / 10) + 1 else 0

/-- The form without trailing zeros, which may have a negative scale. -/
def normalized (x : Decimal) : Decimal :=
  if x.unscaled = 0 then zero
  else
    let zeros := trailingZeros x.unscaled.natAbs
    ⟨x.unscaled.tdiv (power 10 zeros), x.scale - zeros⟩

/-- Whether there is nothing but zeros behind the point. A number with no more digits than places is below
one, so that only the digits of a number that has others before the point are looked at. -/
def isInteger (x : Decimal) : Bool :=
  if x.scale ≤ 0 then true
  else if x.digits ≤ x.scale then x.isZero
  else x.normalized.scale ≤ 0

/-- The least power of ten that is above `|x|`, for `x` other than zero. -/
def magnitude (x : Decimal) : Int :=
  x.digits - x.scale

/-- Numbers of one sign that differ in magnitude are told apart by it, so that the scales of those
that remain differ by no more than their digits do. -/
def compare (x y : Decimal) : Ordering :=
  match Ord.compare x.unscaled.sign y.unscaled.sign with
  | .eq =>
    if x.unscaled = 0 then .eq
    else if x.magnitude = y.magnitude then
      let scale := max x.scale y.scale
      Ord.compare (x.unscaledAt scale) (y.unscaledAt scale)
    else if x.magnitude < y.magnitude then Ord.compare 0 x.unscaled
    else Ord.compare x.unscaled 0
  | unequal => unequal

def equal (x y : Decimal) : Bool :=
  x.compare y == .eq

/-- The integer part; what is behind the point is dropped. -/
def truncated (x : Decimal) : Int :=
  if x.scale ≤ 0 then x.unscaledAt 0 else x.unscaled.tdiv (power 10 x.scale.toNat)

/-- The larger number; of equal ones the second. -/
def max (x y : Decimal) : Decimal :=
  if x.compare y = .gt then x else y

/-- The smaller number; of equal ones the first. -/
def min (x y : Decimal) : Decimal :=
  if x.compare y = .gt then y else x

end Decimal

end Formulary
