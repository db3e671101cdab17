import Formulary.Value.Notation

set_option autoImplicit false

/-!
# Signatures of functions
-/

namespace Formulary

/-- The complaint about a value, if there is one. -/
abbrev Validator := Value → Option String

namespace Validator

/-- A condition on numbers; other values pass, because their types are checked elsewhere. -/
def onNumbers (holds : Decimal → Bool) (complaint : String) : Validator
  | .number x => if holds x then none else some (complaint ++ ": " ++ x.toText)
  | _ => none

def positive : Validator :=
  onNumbers Decimal.isPositive "value is not > 0"

def nonNegative : Validator :=
  onNumbers (!Decimal.isNegative ·) "value is not >= 0"

def integer : Validator :=
  onNumbers Decimal.isInteger "value is not an integer"

end Validator

inductive ParamType where
  | any
  | only (type : ValueType)
  deriving DecidableEq, Repr

namespace ParamType

def accepts : ParamType → ValueType → Bool
  | any, _ => true
  | only expected, type => expected == type

end ParamType

/-- An argument for a deferred parameter is passed on without being evaluated. -/
structure Param where
  type : ParamType
  deferred : Bool := false
  validators : List Validator := []

namespace Param

def any : Param := { type := .any }

def only (type : ValueType) : Param := { type := .only type }

def lazily (p : Param) : Param := { p with deferred := true }

def checked (p : Param) (validator : Validator) : Param :=
  { p with validators := p.validators ++ [validator] }

end Param

/-- Fixed parameters, and one for all further arguments. With the latter there has to be at least
one further argument. -/
structure Signature where
  params : List Param := []
  variadic : Option Param := none

namespace Signature

def acceptsCount (s : Signature) (count : Nat) : Bool :=
  if s.variadic.isSome then s.params.length < count else count == s.params.length

def param? (s : Signature) (index : Nat) : Option Param :=
  s.params[index]?.or s.variadic

end Signature

end Formulary
