import Formulary.Decimal.Basic
import Formulary.Text.Character

set_option autoImplicit false

/-!
# Written decimals

Reading keeps the scale that is written: as many digits as stand behind the point, less the
exponent. Digits may be grouped by underscores. Scales are signed 64-bit numbers, and a decimal with
a scale beyond them cannot be read.

A number is written in full where few zeros have to be filled in. With more than five zeros between
the point and the first digit it is written with an exponent, and with more than fifteen zeros
behind the last digit these are replaced by one.
-/

namespace Formulary.Decimal

open Text

def digitValue? (base : Nat) (c : Char) : Option Nat :=
  let value :=
    if isDigit c then c.toNat - '0'.toNat
    else if 'a' ≤ c && c ≤ 'z' then c.toNat - 'a'.toNat + 10
    else if 'A' ≤ c && c ≤ 'Z' then c.toNat - 'A'.toNat + 10
    else base
  if value < base then some value else none

def addDigits? (base : Nat) (sum : Nat) : List Char → Option Nat
  | [] => some sum
  | '_' :: rest => addDigits? base sum rest
  | c :: rest => (digitValue? base c).bind fun value => addDigits? base (sum * base + value) rest

/-- One sign is allowed in front, and no underscore before the first digit. -/
def natural? (base : Nat) (cs : List Char) : Option Nat :=
  let digits := match cs with
    | '+' :: rest => rest
    | _ => cs
  match digits with
  | [] | '_' :: _ => none
  | _ => addDigits? base 0 digits

def integer? (base : Nat) : List Char → Option Int
  | '-' :: '+' :: _ => none
  | '-' :: rest => (natural? base rest).map fun n => -(n : Int)
  | cs => (natural? base cs).map fun n => (n : Int)

/-- The exponent after its mark: an optional sign and digits. -/
def exponent? (cs : List Char) : Option Int :=
  let digits := match cs with
    | '+' :: rest | '-' :: rest => rest
    | _ => cs
  if digits ≠ [] && digits.all isDigit then
    (addDigits? 10 0 digits).map fun n => if cs.head? = some '-' then -(n : Int) else n
  else none

def ofChars? (cs : List Char) : Option Decimal :=
  let isMark := fun c => c == 'e' || c == 'E'
  let mantissa := cs.takeWhile (!isMark ·)
  let whole := mantissa.takeWhile (· != '.')
  let fraction := (mantissa.dropWhile (· != '.')).drop 1
  let exponent := match cs.dropWhile (!isMark ·) with
    | [] => some 0
    | _ :: rest => exponent? rest
  exponent.bind fun exponent =>
    let scale := ((fraction.filter (· != '_')).length : Int) - exponent
    if fitsWord scale then (integer? 10 (whole ++ fraction)).map (⟨·, scale⟩) else none

def ofText? (s : String) : Option Decimal :=
  ofChars? s.toList

/-- At most this many zeros stand between the point and the first digit. -/
def leadingZeroLimit : Int := 5

/-- At most this many zeros are filled in behind the last digit. -/
def trailingZeroLimit : Int := 15

def zeros (n : Nat) : List Char :=
  List.replicate n '0'

/-- The text of `|i| * 10 ^ (-scale)` from the digits of `|i|`. -/
def write (digits : List Char) (scale : Int) : List Char :=
  let length : Int := digits.length
  if scale - length > leadingZeroLimit then
    let mantissa := match digits with
      | first :: second :: rest => first :: '.' :: second :: rest
      | _ => digits
    mantissa ++ 'E' :: (toString (length - 1 - scale)).toList
  else if -scale > trailingZeroLimit then digits ++ 'e' :: '+' :: (toString (-scale)).toList
  else if scale ≤ 0 then digits ++ zeros (-scale).toNat
  else if scale < length then
    let whole := (length - scale).toNat
    digits.take whole ++ '.' :: digits.drop whole
  else '0' :: '.' :: zeros (scale - length).toNat ++ digits

def toText (x : Decimal) : String :=
  let scale := if x.isZero then 0 else x.scale
  let text := write (Nat.toDigits 10 x.unscaled.natAbs) scale
  String.ofList (if x.isNegative then '-' :: text else text)

end Formulary.Decimal
