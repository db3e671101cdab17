import Formulary.Function.Table
import Formulary.Text.Quoted

set_option autoImplicit false

/-!
# Compiled expressions

The names of a compiled expression are bound: constants to their values, operators and functions to
the overloads for their number of arguments. What is left is names of variables.
-/

namespace Formulary

inductive Expression where
  | literal (value : Value)
  | reference (name : String) (span : Span)
  | call (name : String) (overloads : List Overload) (arguments : List Expression) (span : Span)
  | member (object : Expression) (field : String) (span : Span)

namespace Expression

mutual

/-- Calls are written by the names of implementations, with a word before deferred arguments. Only
a literal text is quoted. -/
def toText : Expression → String
  | literal (.text s) => Text.quote s
  | literal value => value.toText
  | reference name _ => name
  | call name overloads arguments _ =>
    name ++ "(" ++ ", ".intercalate (argumentTexts (Overload.defers overloads) 0 arguments) ++ ")"
  | member object field _ => "(" ++ toText object ++ ")." ++ field

def argumentTexts (defers : Nat → Bool) (index : Nat) : List Expression → List String
  | [] => []
  | argument :: rest =>
    let text := toText argument
    (if defers index then "lazy " ++ text else text) :: argumentTexts defers (index + 1) rest

end

mutual

/-- What is seen of an expression where it is a deferred argument. -/
def sketch : Expression → Sketch
  | literal value => .literal value
  | reference name span => .reference name span
  | call name overloads arguments span =>
    .call name (overloads.map (·.signature)) (sketches arguments) span
  | member object field span => .member (sketch object) field span

def sketches : List Expression → List Sketch
  | [] => []
  | argument :: rest => sketch argument :: sketches rest

end

end Expression

end Formulary
