import Formulary.Decimal.Basic

set_option autoImplicit false

/-!
# Decimals and binary64

A binary64 number has an exact decimal form, which has no more places than needed unless the number
is subnormal. The other way a decimal is cut to about 25 digits, 19 digits at a time, and then
converted.
-/

namespace Formulary.Decimal

/-- The power by repeated squaring, rounded at each step. -/
def floatPower (result power : Float) (n : Nat) : Float :=
  if n = 0 then result
  else
    let result := if n % 2 = 1 then result * power else result
    floatPower result (power * power) (n / 2)

def infinity : Float := Float.ofBits 0x7ff0000000000000

/-- The number of digits of `n`, from its length in bits; it may be off by one. -/
def approximateDigits (n : Nat) : Nat :=
  (Nat.log2 n + 2) * 30102999566398119521 / 100000000000000000000

/-- Numbers below this power of ten are zero in binary64. -/
def vanishing : Int := -400

def magnitudeToFloat (n : Nat) (scale : Int) : Float :=
  if n = 0 then 0
  else if scale = 0 then Float.ofNat n
  else
    let steps := (approximateDigits n - 25) / 19
    let n := n / power 10 (19 * steps)
    let scale := scale - 19 * steps
    if scale < -2147483648 || 2147483648 ≤ scale then infinity
    else if scale < 0 then Float.ofNat n * floatPower 1 10 (-scale).toNat
    else if digitCount n - scale < vanishing then 0
    else Float.ofScientific n true scale.toNat

def toFloat (x : Decimal) : Float :=
  let magnitude := magnitudeToFloat x.unscaled.natAbs x.scale
  if x.isNegative then -magnitude else magnitude

/-- `n * 2 ^ exponent`, with no more digits behind the point than needed. -/
def ofBinary (n : Nat) (exponent : Int) : Nat × Int :=
  if n = 0 then (0, 0)
  else if n % 2 = 0 then ofBinary (n / 2) (exponent + 1)
  else if exponent < 0 then (n * power 5 (-exponent).toNat, -exponent)
  else (n * power 2 exponent.toNat, 0)

/-- The number of places behind the point of the least positive number. -/
def leastPlaces : Nat := 1074

/-- A number below the normal ones, as a multiple of the least; it has all the places of that. -/
def ofSubnormal (n : Nat) : Nat × Int :=
  if n = 0 then (0, 0) else (n * power 5 leastPlaces, leastPlaces)

/-- The weight of the leading bit of a fraction, which is not written. -/
def hiddenBit : Nat := 4503599627370496

/-- The exact value of a finite number. -/
def ofFloat? (f : Float) : Option Decimal :=
  let bits := f.toBits.toNat
  let fraction := bits % hiddenBit
  let exponent := bits / hiddenBit % 2048
  if exponent = 2047 then none
  else
    let (n, scale) :=
      if exponent = 0 then ofSubnormal fraction
      else ofBinary (fraction + hiddenBit) (exponent - 1075)
    some ⟨if bits / hiddenBit / 2048 = 1 then -n else n, scale⟩

end Formulary.Decimal
