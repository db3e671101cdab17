import Formulary.Context
import Formulary.Error
import Formulary.Function.Argument

set_option autoImplicit false

/-!
# What implementations of functions can do

An implementation computes a result from its arguments. It may ask for the value of a deferred
argument, and be answered with an error. It may also look at the sketch of one, though the standard
implementations do not.
-/

namespace Formulary

inductive Routine (α : Type) where
  | done (result : Except Error α)
  | force (index : Nat) (next : Except Error Value → Routine α)

namespace Routine

variable {α β γ : Type}

def bind (routine : Routine α) (f : α → Routine β) : Routine β :=
  match routine with
  | done (.ok a) => f a
  | done (.error e) => done (.error e)
  | force index next => force index fun answer => (next answer).bind f

instance : Monad Routine where
  pure a := done (.ok a)
  bind := bind

theorem bind_done_ok (routine : Routine α) : routine.bind (fun a => done (.ok a)) = routine := by
  induction routine with
  | done result => cases result <;> rfl
  | force index next ih => exact congrArg (force index) (funext ih)

theorem bind_assoc (routine : Routine α) (f : α → Routine β) (g : β → Routine γ) :
    (routine.bind f).bind g = routine.bind fun a => (f a).bind g := by
  induction routine with
  | done result => cases result <;> rfl
  | force index next ih => exact congrArg (force index) (funext ih)

instance : LawfulMonad Routine :=
  LawfulMonad.mk' _ bind_done_ok (fun _ _ => rfl) bind_assoc

def fail (e : Error) : Routine α :=
  done (.error e)

def ofExcept : Except Error α → Routine α :=
  done

end Routine

/-- A call of an implementation: the name that is called, and the place and context of the call. -/
structure Call where
  name : String
  span : Span
  context : Context

abbrev Implementation := Call → List Argument → Routine Value

namespace Argument

def evaluate : Argument → Routine Value
  | value v => pure v
  | deferred index _ => .force index .done

end Argument

namespace Call

variable {α : Type}

def error (call : Call) (cause : Error.Cause) : Error :=
  ⟨cause, call.span, [], none⟩

def fail (call : Call) (cause : Error.Cause) : Routine α :=
  .fail (call.error cause)

def unsupported (call : Call) : Routine α :=
  call.fail .unsupportedTypes

/-- The result of an arithmetic operation; its errors are placed at the call. -/
def arithmetic (call : Call) : Except ArithmeticError Decimal → Routine Value
  | .ok x => pure (.number x)
  | .error e => call.fail (.arithmetic e)

/-- A value that may be missing for a reason. -/
def orRaise (call : Call) (message : String) : Option α → Routine α
  | some a => pure a
  | none => call.fail (.raised message)

def number (call : Call) (argument : Argument) : Routine Decimal := do
  match ← argument.evaluate with
  | .number x => pure x
  | _ => call.unsupported

def boolean (call : Call) (argument : Argument) : Routine Bool := do
  match ← argument.evaluate with
  | .boolean b => pure b
  | _ => call.unsupported

/-- The integer part of a number, within the limits of 64 bits. -/
def integer (call : Call) (argument : Argument) : Routine Int := do
  let x ← call.number argument
  let n := x.truncated
  if Decimal.fitsWord n then pure n
  else call.fail (.raised (x.toText ++ " is out of range"))

def unary (call : Call) (arguments : List Argument) (body : Argument → Routine α) : Routine α :=
  match arguments with
  | [x] => body x
  | _ => call.unsupported

def binary (call : Call) (arguments : List Argument) (body : Argument → Argument → Routine α) :
    Routine α :=
  match arguments with
  | [x, y] => body x y
  | _ => call.unsupported

/-- An operation on the values of two arguments, the first of which is evaluated first. -/
def onValues (call : Call) (arguments : List Argument) (body : Value → Value → Routine α) :
    Routine α :=
  call.binary arguments fun x y => do
    let x ← x.evaluate
    let y ← y.evaluate
    body x y

end Call

end Formulary
