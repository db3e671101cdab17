import Formulary.Operator.Basic
import Formulary.Source
import Formulary.Text.Escape

set_option autoImplicit false

/-!
# Tokens
-/

namespace Formulary

inductive Bracket where
  | paren
  | square
  | curly
  deriving DecidableEq, Repr

namespace Bracket

def word : Bracket → String
  | paren => "brace"
  | square => "array"
  | curly => "associate"

def capitalized : Bracket → String
  | paren => "Brace"
  | square => "Array"
  | curly => "Associate"

end Bracket

/-- An opening square or curly bracket also gives rise to the operator that takes an element out of
an array or an entry out of an associate. The start of an argument list marks where the operands of
a call begin. -/
inductive Kind where
  | number
  | text
  | name
  | operator (role : Role)
  | function
  | comma
  | opening (bracket : Bracket)
  | closing (bracket : Bracket)
  | element
  | entry
  | field
  | argumentsStart
  deriving DecidableEq, Repr

namespace Kind

def describe : Kind → String
  | number => "number literal"
  | text => "string literal"
  | name => "variable or constant"
  | operator role => role.word ++ " operator"
  | function => "function"
  | comma => "comma"
  | opening bracket => bracket.word ++ " open"
  | closing bracket => bracket.word ++ " close"
  | element => "array index"
  | entry => "associate index"
  | field => "structure separator"
  | argumentsStart => "function parameter start"

def role? : Kind → Option Role
  | operator role => some role
  | _ => none

/-- An operand can end with such a token. -/
def endsOperand : Kind → Bool
  | number | text | name | closing _ => true
  | _ => false

def isOpening : Kind → Bool
  | opening _ => true
  | _ => false

/-- An element, an entry or a field can be taken out of what ends with such a token. -/
def acceptsAccess : Kind → Bool
  | name | text | closing _ => true
  | _ => false

/-- A square or curly bracket can be closed after such a token. -/
def acceptsClosing : Kind → Bool
  | opening _ | function | comma | operator .prefixOp | operator .infixOp => false
  | _ => true

end Kind

structure Token where
  kind : Kind
  span : Span
  deriving DecidableEq, Repr

namespace Token

/-- The text that a string literal means. -/
def literal? (token : Token) : Option String :=
  if token.kind = .text then Text.unquote? token.span.text else none

/-- The multiplication sign that is implied before a token. -/
def impliedProduct (token : Token) : Token :=
  ⟨.operator .infixOp, token.span.start, "*"⟩

end Token

end Formulary
