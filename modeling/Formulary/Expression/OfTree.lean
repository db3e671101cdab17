import Formulary.Expression.Basic
import Formulary.Library.Access

set_option autoImplicit false

/-!
# From a tree to an expression
-/

namespace Formulary

/-- What the names of a tree are bound to. The constants are by the upper case of their names. -/
structure Bindings where
  operators : Operators
  functions : Functions
  constants : List (String × Value)

/-- The absolute value of a signed 64-bit number. That of the least one is none, and asking for it
panics. -/
def wordAbs (n : Int) : Except Failure Nat :=
  if n = -9223372036854775808 then .error .panic else .ok n.natAbs

/-- A point at either end of the digits has a zero beside it. -/
def completed (mantissa : List Char) : List Char :=
  let zero := fun present => if present then ['0'] else []
  zero (mantissa.head? == some '.') ++ mantissa ++ zero (mantissa.getLast? == some '.')

/-- The number that a literal denotes: an integer in hexadecimal, or a decimal. Decimals keep their
scale, which may not be too large either way. -/
def numberLiteral (text : String) : Except Failure (Option Decimal) :=
  match text.toList with
  | '0' :: 'x' :: digits | '0' :: 'X' :: digits =>
    .ok ((Decimal.integer? 16 digits).map Decimal.ofInt)
  | cs =>
    let mantissa := cs.takeWhile (!Lexer.isExponentMark ·)
    let exponent := cs.dropWhile (!Lexer.isExponentMark ·)
    match Decimal.ofChars? (completed mantissa ++ exponent) with
    | none => .ok none
    | some x => do return if (← wordAbs x.scale) ≤ Arithmetic.scaleLimit then some x else none

namespace Expression

def ofLiteral (token : Token) : Option Value → Except Failure Expression
  | some value => .ok (literal value)
  | none => .error (token.fails (.invalidLiteral token.span.text))

/-- The overloads of a name, which fail to be found for the reason given. -/
def bind (bindings : Bindings) (token : Token) (name : String) (count : Nat)
    (missing : Error.Cause) : Except Failure (List Overload) :=
  match bindings.functions.find? name count with
  | none | some [] => .error (token.fails missing)
  | some overloads => .ok overloads

/-- The name of the implementation that a token calls, and what is wrong if there is none. Other
tokens call nothing. -/
def callee (bindings : Bindings) (token : Token) (count : Nat) :
    Except Failure (String × Error.Cause) :=
  let text := token.span.text
  match token.kind with
  | .operator role =>
    match bindings.operators.find? role text with
    | some mapping => .ok (mapping.implementation, .undefinedOperator role text)
    | none => .error (token.fails (.undefinedOperator role text))
  | .function => .ok (text, .undefinedFunction text count)
  | .element => .ok (Library.elementName, .undefinedFunction Library.elementName count)
  | .entry => .ok (Library.entryName, .undefinedFunction Library.entryName count)
  | kind => .error (token.fails (.unexpectedNode kind))

mutual

/-- A node is bound before its children are. -/
def ofTree (bindings : Bindings) : Tree → Except Failure Expression
  | .node token children =>
    let text := token.span.text
    match token.kind, children with
    | .number, _ => do ofLiteral token ((← numberLiteral text).map .number)
    | .text, _ => ofLiteral token (token.literal?.map .text)
    | .name, _ =>
      match bindings.constants.lookup (Text.upper text) with
      | some value => .ok (literal value)
      | none => .ok (reference text token.span)
    | .field, [object, .node fieldToken fieldChildren] =>
      if fieldToken.kind = .name && fieldChildren.isEmpty then do
        let object ← ofTree bindings object
        return member object fieldToken.span.text fieldToken.span
      else
        let text := Tree.render (.node fieldToken fieldChildren)
        .error (fieldToken.fails (.invalidField text))
    | _, children => do
      let count := children.length
      let (name, missing) ← callee bindings token count
      let overloads ← bind bindings token name count missing
      let arguments ← ofTrees bindings children
      return call name overloads arguments token.span

def ofTrees (bindings : Bindings) : List Tree → Except Failure (List Expression)
  | [] => .ok []
  | tree :: trees => do
    let first ← ofTree bindings tree
    let rest ← ofTrees bindings trees
    return first :: rest

end

end Expression

end Formulary
