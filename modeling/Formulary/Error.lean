import Formulary.Decimal.Arithmetic
import Formulary.SyntaxError
import Formulary.Value.Basic

set_option autoImplicit false

/-!
# Errors of compiling and evaluating an expression
-/

namespace Formulary

inductive Error.Cause where
  | malformed (cause : SyntaxError.Cause)
  | invalidLiteral (text : String)
  | unexpectedNode (kind : Kind)
  | undefinedOperator (role : Role) (text : String)
  | undefinedFunction (name : String) (count : Nat)
  | invalidField (text : String)
  | undefinedVariable (name : String)
  | unsupportedTypes
  | notRecord (type : ValueType)
  | fieldNotFound (name : String)
  | indexOutOfBounds (index : String) (length : Nat)
  | invalidArgument (message : String)
  | arithmetic (error : ArithmeticError)
  | raised (message : String)
  deriving DecidableEq, Repr

def Error.Cause.message : Error.Cause → String
  | malformed cause => cause.message
  | invalidLiteral text => "Invalid literal '" ++ text ++ "'"
  | unexpectedNode kind => "Unexpected token of type '" ++ kind.describe ++ "'"
  | undefinedOperator role text => "could not find " ++ role.word ++ " operator '" ++ text ++ "'"
  | undefinedFunction name count =>
    "could not find evaluatable '" ++ name ++ "' with " ++ toString count ++ " arguments"
  | invalidField text => "Invalid structure field '" ++ text ++ "'"
  | undefinedVariable name => "Variable or constant value for '" ++ name ++ "' not found"
  | unsupportedTypes => "Unsupported data types in operation"
  | notRecord type => "Value of wrong type for structure access: " ++ type.word
  | fieldNotFound name => "Field '" ++ name ++ "' not found in structure"
  | indexOutOfBounds index length =>
    "Index " ++ index ++ " is out of bounds for array of length " ++ toString length
  | invalidArgument message | raised message => message
  | arithmetic error => error.message

/-- Where several validators of one call fail, all but the first are secondary. -/
structure Error where
  cause : Error.Cause
  span : Span
  secondary : List Error.Cause := []
  underlying : Option String := none
  deriving DecidableEq, Repr

def Error.message (e : Error) : String :=
  e.span.place ++ ": " ++ e.cause.message

def Error.ofSyntax (e : SyntaxError) : Error :=
  ⟨.malformed e.cause, e.span, [], none⟩

def Token.fails (token : Token) (cause : Error.Cause) : Error :=
  ⟨cause, token.span, [], none⟩

/-- What compiling or evaluating an expression ends with instead of a result: an error, or a panic, which
tells nothing. -/
inductive Failure where
  | error (e : Error)
  | panic
  deriving DecidableEq, Repr

namespace Failure

variable {α : Type}

instance : Coe Error Failure := ⟨error⟩

/-- The result of what cannot panic. -/
def lift (result : Except Error α) : Except Failure α :=
  result.mapError error

@[simp] theorem lift_ok (a : α) : lift (.ok a) = .ok a := rfl

@[simp] theorem lift_error (e : Error) : lift (.error e : Except Error α) = .error (.error e) := rfl

@[simp] theorem lift_eq_ok_iff {result : Except Error α} {a : α} :
    lift result = .ok a ↔ result = .ok a := by
  cases result <;> simp

@[simp] theorem lift_eq_error_iff {result : Except Error α} {e : Error} :
    lift result = .error (.error e) ↔ result = .error e := by
  cases result <;> simp

theorem exists_of_lift_eq_error {result : Except Error α} {failure : Failure}
    (h : lift result = .error failure) : ∃ e : Error, result = .error e ∧ failure = e := by
  cases result with
  | error e =>
    cases h
    exact ⟨e, rfl, rfl⟩
  | ok a => cases h

end Failure

end Formulary
