import Formulary.Function.Table

set_option autoImplicit false

/-!
# Arithmetic operators and functions on numbers
-/

namespace Formulary.Library

inductive Operation where
  | add
  | sub
  | mul
  | div
  | rem
  | pow
  deriving DecidableEq, Repr

def Operation.apply (a : Arithmetic) :
    Operation → Decimal → Decimal → Except ArithmeticError Decimal
  | add, x, y => .ok (a.add x y)
  | sub, x, y => .ok (a.sub x y)
  | mul, x, y => .ok (a.mul x y)
  | div, x, y => a.div x y
  | rem, x, y => a.rem x y
  | pow, x, y => a.pow x y

def operate (operation : Operation) : Implementation := fun call arguments =>
  call.binary arguments fun x y => do
    let x ← call.number x
    let y ← call.number y
    call.arithmetic (operation.apply call.context.arithmetic x y)

/-- Negates a number or a duration. -/
def negate : Implementation := fun call arguments =>
  call.unary arguments fun x => do
    match ← x.evaluate with
    | .number x => pure (.number (call.context.arithmetic.neg x))
    | .duration d => pure (.duration (-d))
    | _ => call.unsupported

def identity : Implementation := fun call arguments =>
  call.unary arguments Argument.evaluate

/-- Combines one or more numbers from left to right. -/
def aggregate (combine : Arithmetic → Decimal → Decimal → Decimal) : Implementation :=
  fun call arguments =>
    match arguments with
    | [] => call.unsupported
    | first :: rest => do
      let first ← call.number first
      let result ← rest.foldlM (fun sum argument => do
        let x ← call.number argument
        return combine call.context.arithmetic sum x) first
      return .number result

def onNumber (compute : Arithmetic → Decimal → Option Decimal) : Implementation :=
  fun call arguments =>
    call.unary arguments fun argument => do
      let x ← call.number argument
      let result := compute call.context.arithmetic x
      return .number (← call.orRaise ("Cannot compute " ++ call.name ++ " of " ++ x.toText) result)

/-- Rounds a number to a scale, or to an integer if none is given. -/
def round : Implementation := fun call arguments =>
  match arguments with
  | [] => call.unsupported
  | argument :: rest => do
    let x ← call.number argument
    let scale ← match rest with
      | [] => pure 0
      | scale :: _ => call.integer scale
    call.arithmetic (call.context.arithmetic.round x scale)

def numberParam : Param := .only .number

def numbers (count : Nat) : Signature :=
  { params := List.replicate count numberParam }

def anyNumbers : Signature :=
  { variadic := some numberParam }

def arithmetic : FunctionTable := .ofDefinitions [
  ("infix +", numbers 2, operate .add),
  ("infix -", numbers 2, operate .sub),
  ("infix *", numbers 2, operate .mul),
  ("infix /", numbers 2, operate .div),
  ("infix %", numbers 2, operate .rem),
  ("infix ^", numbers 2, operate .pow),
  ("prefix -", numbers 1, negate),
  ("prefix -", { params := [.only .duration] }, negate),
  ("prefix +", numbers 1, identity),
  ("MAX", anyNumbers, aggregate fun _ => Decimal.max),
  ("MIN", anyNumbers, aggregate fun _ => Decimal.min),
  ("SUM", anyNumbers, aggregate Arithmetic.add),
  ("ABS", numbers 1, onNumber fun _ x => some x.abs),
  ("FLOOR", numbers 1, onNumber fun _ x => some x.floor),
  ("CEILING", numbers 1, onNumber fun _ x => some x.ceiling),
  ("SQRT", { params := [numberParam.checked .nonNegative] }, onNumber Arithmetic.squareRoot?),
  ("LOG", { params := [numberParam.checked .positive] }, onNumber Arithmetic.logarithm?),
  ("ROUND", numbers 1, round),
  ("ROUND", { params := [numberParam, numberParam.checked .integer] }, round)]

end Formulary.Library
