set_option autoImplicit false

/-!
# Operators

An operator is known by its role and its text. Where it is bound to an implementation it also has a
precedence; operators of higher precedence bind tighter.
-/

namespace Formulary

inductive Role where
  | prefixOp
  | infixOp
  | postfixOp
  deriving DecidableEq, Repr

namespace Role

def word : Role → String
  | prefixOp => "prefix"
  | infixOp => "infix"
  | postfixOp => "postfix"

/-- The number of operands. -/
def arity : Role → Nat
  | infixOp => 2
  | _ => 1

/-- Tables list prefix operators first and postfix operators last. -/
def rank : Role → Nat
  | prefixOp => 0
  | infixOp => 1
  | postfixOp => 2

/-- The name of the standard implementation of an operator. It holds a space, so no call in an
expression can be written that means it. -/
def implementationName (role : Role) (text : String) : String :=
  role.word ++ " " ++ text

end Role

structure Mapping where
  precedence : Nat
  leftAssociative : Bool := true
  implementation : String
  deriving DecidableEq, Repr

end Formulary
