import Formulary.Decimal.Binary64
import Formulary.Decimal.Operations

set_option autoImplicit false

/-!
# Arithmetic of a given precision

Every result is rounded to a number of significant digits. Negation is exact.
-/

namespace Formulary

inductive ArithmeticError where
  | divisionByZero
  | zeroToNegativePower
  | nonFinitePower
  | scaleOutOfRange (scale : Int)
  deriving DecidableEq, Repr

def ArithmeticError.message : ArithmeticError → String
  | divisionByZero => "Division by zero"
  | zeroToNegativePower => "Zero cannot be raised to a negative power"
  | nonFinitePower => "Result of power is not a finite number"
  | scaleOutOfRange scale => "Scale " ++ toString scale ++ " is out of range"

structure Arithmetic where
  precision : Nat := 68
  rounding : Rounding := .halfEven
  precision_pos : 0 < precision := by decide
  deriving DecidableEq

namespace Arithmetic

open Decimal

/-- The largest exponent, either way, of number literals and of rounding before the point. -/
def scaleLimit : Int := 10000

/-- Powers with larger integer exponents are approximated. -/
def exponentLimit : Nat := 1000000

/-- A number that has no more digits than allowed is left as it is. -/
def limit (a : Arithmetic) (x : Decimal) : Decimal :=
  if x.digits ≤ a.precision then x else trimFraction (withDigits a.rounding x a.precision)

def round (a : Arithmetic) (x : Decimal) (scale : Int) : Except ArithmeticError Decimal :=
  if scale < -scaleLimit then .error (.scaleOutOfRange scale) else .ok (roundTo a.rounding x scale)

def add (a : Arithmetic) (x y : Decimal) : Decimal :=
  a.limit (x.add y)

def sub (a : Arithmetic) (x y : Decimal) : Decimal :=
  a.limit (x.sub y)

def mul (a : Arithmetic) (x y : Decimal) : Decimal :=
  a.limit (x.mul y)

def div (a : Arithmetic) (x y : Decimal) : Except ArithmeticError Decimal :=
  if y.isZero then .error .divisionByZero else .ok (a.limit (x.div y))

def rem (a : Arithmetic) (x y : Decimal) : Except ArithmeticError Decimal :=
  if y.isZero then .error .divisionByZero else .ok (a.limit (x.rem y))

/-- Repeated squaring, with every product rounded. -/
def powerFrom (a : Arithmetic) (result square : Decimal) (n : Nat) : Decimal :=
  if n = 0 then result
  else
    let result := if n % 2 = 1 then a.limit (result.mulNormalized square) else result
    if n / 2 = 0 then result
    else powerFrom a result (a.limit (square.mulNormalized square)) (n / 2)

def naturalPower (a : Arithmetic) (x : Decimal) (n : Nat) : Decimal :=
  a.powerFrom one x n

def approximatePower (a : Arithmetic) (x y : Decimal) : Except ArithmeticError Decimal :=
  match ofFloat? (Float.pow x.toFloat y.toFloat) with
  | some power => .ok (a.limit power)
  | none => .error .nonFinitePower

/-- The exponent `y` as an integer, if it is one that is small enough. -/
def exponent? (y : Decimal) : Option Int :=
  if 7 < y.magnitude || !y.isInteger then none
  else
    let n := y.truncated
    if n.natAbs ≤ exponentLimit then some n else none

def pow (a : Arithmetic) (x y : Decimal) : Except ArithmeticError Decimal :=
  match exponent? y with
  | none => a.approximatePower x y
  | some n =>
    if 0 ≤ n then .ok (a.naturalPower x n.toNat)
    else if x.isZero then .error .zeroToNegativePower
    else a.div one (a.naturalPower x n.natAbs)

def neg (_ : Arithmetic) (x : Decimal) : Decimal :=
  -x

/-- The natural logarithm, to the accuracy of binary64. -/
def logarithm? (a : Arithmetic) (x : Decimal) : Option Decimal :=
  (ofFloat? (Float.log x.toFloat)).map a.limit

def squareRoot? (a : Arithmetic) (x : Decimal) : Option Decimal :=
  x.squareRoot?.map a.limit

end Arithmetic

end Formulary
