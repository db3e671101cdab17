import Formulary.Function.Table

set_option autoImplicit false

/-!
# Access to the elements of arrays and the entries of records

The names hold no letters, so no call in an expression can be written that means them.
-/

namespace Formulary.Library

def elementName : String := "[]"

def entryName : String := "\x7b\x7d"

/-- The element at the integer part of an index. No number below zero is an index, not even one
whose integer part is zero. -/
def element? (elements : List Value) (index : Decimal) : Option Value :=
  if index.isNegative then none else elements[index.truncated.toNat]?

def element : Implementation := fun call arguments =>
  call.onValues arguments fun array index =>
    match array, index with
    | .array elements, .number index =>
      match element? elements index with
      | some value => pure value
      | none => call.fail (.indexOutOfBounds index.toText elements.length)
    | _, _ => call.unsupported

def entry : Implementation := fun call arguments =>
  call.onValues arguments fun associate key =>
    match associate, key with
    | .record fields, .text key =>
      match fields.find? key with
      | some value => pure value
      | none => call.fail (.fieldNotFound key)
    | _, _ => call.unsupported

def access : FunctionTable := .ofDefinitions [
  (elementName, { params := [.only .array, (Param.only .number).checked .integer] }, element),
  (entryName, { params := [.only .record, .only .text] }, entry)]

end Formulary.Library
