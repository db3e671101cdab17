import Formulary.Function.Table

set_option autoImplicit false

/-!
# Comparisons and joining of texts
-/

namespace Formulary.Library

inductive Comparison where
  | less
  | lessOrEqual
  | greater
  | greaterOrEqual
  deriving DecidableEq, Repr

def Comparison.holds : Comparison → Ordering → Bool
  | less, order => order.isLT
  | lessOrEqual, order => order.isLE
  | greater, order => order.isGT
  | greaterOrEqual, order => order.isGE

def compare (comparison : Comparison) : Implementation := fun call arguments =>
  call.onValues arguments fun x y =>
    match x.compare y with
    | some order => pure (.boolean (comparison.holds order))
    | none => call.unsupported

def equal : Implementation := fun call arguments =>
  call.onValues arguments fun x y => pure (.boolean (x.equal y))

def unequal : Implementation := fun call arguments =>
  call.onValues arguments fun x y => pure (.boolean (!x.equal y))

def join : Implementation := fun call arguments =>
  call.onValues arguments fun x y => pure (.text (x.toText ++ y.toText))

def anyPair : Signature :=
  { params := [.any, .any] }

def pair (first second : ValueType) : Signature :=
  { params := [.only first, .only second] }

def comparisons (name : String) (comparison : Comparison) :
    List (String × Signature × Implementation) :=
  [ValueType.number, .text, .instant, .duration, .boolean].map fun type =>
    (name, pair type type, compare comparison)

def comparison : FunctionTable := .ofDefinitions (
  [("infix ==", anyPair, equal), ("infix !=", anyPair, unequal)] ++
  comparisons "infix <" .less ++ comparisons "infix <=" .lessOrEqual ++
  comparisons "infix >" .greater ++ comparisons "infix >=" .greaterOrEqual)

/-- Either side may be of any type as long as the other is a text. -/
def joining : FunctionTable := .ofDefinitions [
  ("infix +", { params := [.only .text, .any] }, join),
  ("infix +", { params := [.any, .only .text] }, join)]

end Formulary.Library
