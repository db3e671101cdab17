import Formulary.Token.Basic

set_option autoImplicit false

/-!
# Syntax trees

A node has no children if it is a literal or a name, one if it is a prefix or postfix operator, two
if it is an infix operator, an element, an entry or a field, and any number if it is a call.
-/

namespace Formulary

inductive Tree where
  | node (token : Token) (children : List Tree)

namespace Tree

def token : Tree → Token
  | node token _ => token

def children : Tree → List Tree
  | node _ children => children

abbrev kind (tree : Tree) : Kind := tree.token.kind

abbrev text (tree : Tree) : String := tree.token.span.text

def leaf (token : Token) : Tree := node token []

mutual

/-- Equality of kinds and texts, wherever the tokens stand. -/
def sameStructure : Tree → Tree → Bool
  | node a as, node b bs => a.kind == b.kind && a.span.text == b.span.text && sameStructures as bs

def sameStructures : List Tree → List Tree → Bool
  | [], [] => true
  | a :: as, b :: bs => sameStructure a b && sameStructures as bs
  | _, _ => false

end

mutual

/-- Equality of lines, offsets and texts, whatever the tokens are taken for. -/
def samePlaces : Tree → Tree → Bool
  | node a as, node b bs =>
    a.span.start.line == b.span.start.line && a.span.start.offset == b.span.start.offset &&
      a.span.text == b.span.text && samePlacesAll as bs

def samePlacesAll : List Tree → List Tree → Bool
  | [], [] => true
  | a :: as, b :: bs => samePlaces a b && samePlacesAll as bs
  | _, _ => false

end

mutual

/-- The tree as an expression with all its groups in parentheses. The objects of accesses are in
parentheses too, so that the point of a field is not taken for one of a number. -/
def render : Tree → String
  | node token children =>
    let text := token.span.text
    match token.kind, renderAll children with
    | .operator .prefixOp, [operand] => "(" ++ text ++ "(" ++ operand ++ "))"
    | .operator .postfixOp, [operand] => "((" ++ operand ++ ")" ++ text ++ ")"
    | .operator .infixOp, [left, right] => "(" ++ left ++ " " ++ text ++ " " ++ right ++ ")"
    | .field, [object, field] => "(" ++ object ++ ")." ++ field
    | .element, [object, index] => "(" ++ object ++ ")[" ++ index ++ "]"
    | .entry, [object, key] => "(" ++ object ++ ")\x7b" ++ key ++ "\x7d"
    | .function, arguments => text ++ "(" ++ ", ".intercalate arguments ++ ")"
    | _, _ => text

def renderAll : List Tree → List String
  | [] => []
  | tree :: trees => render tree :: renderAll trees

end

theorem renderAll_eq (trees : List Tree) : renderAll trees = trees.map render := by
  induction trees with
  | nil => rfl
  | cons tree trees ih => simp [renderAll, ih]

end Tree

end Formulary
