import Formulary.Function.Table

set_option autoImplicit false

/-!
# Logic and choice

What is not chosen is not evaluated.
-/

namespace Formulary.Library

def not : Implementation := fun call arguments =>
  call.unary arguments fun x => return .boolean (!(← call.boolean x))

def and : Implementation := fun call arguments =>
  call.binary arguments fun x y => do
    if ← call.boolean x then return .boolean (← call.boolean y) else return .boolean false

def or : Implementation := fun call arguments =>
  call.binary arguments fun x y => do
    if ← call.boolean x then return .boolean true else return .boolean (← call.boolean y)

def choose : Implementation := fun call arguments =>
  match arguments with
  | [condition, first, second] => do
    if ← call.boolean condition then first.evaluate else second.evaluate
  | _ => call.unsupported

/-- The first value that is not null. -/
def firstPresent : List Argument → Routine Value
  | [] => pure .null
  | argument :: rest => do
    let value ← argument.evaluate
    if value.isNull then firstPresent rest else return value

def shortCircuit : Signature :=
  { params := [.only .boolean, (Param.only .boolean).lazily] }

def logic : FunctionTable := .ofDefinitions [
  ("infix &&", shortCircuit, and),
  ("infix ||", shortCircuit, or),
  ("prefix !", { params := [.only .boolean] }, not),
  ("NOT", { params := [.only .boolean] }, not),
  ("IF", { params := [.only .boolean, Param.any.lazily, Param.any.lazily] }, choose),
  ("COALESCE", { variadic := some Param.any.lazily }, fun _ => firstPresent)]

end Formulary.Library
