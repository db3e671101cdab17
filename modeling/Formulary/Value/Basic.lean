import Formulary.Decimal.Basic
import Formulary.Time.Instant
import Formulary.Value.Fields

set_option autoImplicit false

/-!
# Values
-/

namespace Formulary

open Time

inductive ValueType where
  | number
  | text
  | boolean
  | instant
  | duration
  | array
  | record
  | null
  deriving DecidableEq, Repr

def ValueType.word : ValueType → String
  | number => "NUMBER"
  | text => "STRING"
  | boolean => "BOOLEAN"
  | instant => "DATE_TIME"
  | duration => "DURATION"
  | array => "ARRAY"
  | record => "STRUCTURE"
  | null => "NULL"

inductive Value where
  | number (x : Decimal)
  | text (s : String)
  | boolean (b : Bool)
  | instant (t : Instant)
  | duration (d : Duration)
  | array (elements : List Value)
  | record (fields : Fields Value)
  | null

namespace Value

def type : Value → ValueType
  | number _ => .number
  | text _ => .text
  | boolean _ => .boolean
  | instant _ => .instant
  | duration _ => .duration
  | array _ => .array
  | record _ => .record
  | null => .null

def isNull : Value → Bool
  | null => true
  | _ => false

/-- The record with the given fields, of which a later one replaces an earlier one of its name. -/
def ofFields (fields : List (String × Value)) : Value :=
  record (.ofList fields)

mutual

/-- Numbers are equal by value, wherever they stand. Records are equal if they have the same number of
fields and each field of the first has its equal in the second. -/
def equal : Value → Value → Bool
  | number x, number y => x.equal y
  | text s, text t => s == t
  | boolean b, boolean c => b == c
  | instant t, instant u => t == u
  | duration d, duration e => d == e
  | array xs, array ys => equalElements xs ys
  | record fs, record gs =>
    fs.names.length == gs.names.length && (List.finRange fs.names.length).all fun i =>
      (gs.find? (fs.name i)).any fun y => equal (fs.content i) y
  | null, null => true
  | _, _ => false

def equalElements : List Value → List Value → Bool
  | [], [] => true
  | x :: xs, y :: ys => equal x y && equalElements xs ys
  | _, _ => false

end

/-- Only values of one type are ordered, and of arrays, records and nulls none. -/
def compare : Value → Value → Option Ordering
  | number x, number y => some (x.compare y)
  | text s, text t => some (Ord.compare s t)
  | instant t, instant u => some (Ord.compare t.nanos u.nanos)
  | duration d, duration e => some (Ord.compare d.nanos e.nanos)
  | boolean b, boolean c => some (Ord.compare b c)
  | _, _ => none

end Value

end Formulary
