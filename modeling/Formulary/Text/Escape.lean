set_option autoImplicit false

/-!
# Escapes in string literals
-/

namespace Formulary.Text

/-- The character meant by a backslash and `c`. -/
def escaped? : Char → Option Char
  | '"' => some '"'
  | '\'' => some '\''
  | '\\' => some '\\'
  | 'n' => some '\n'
  | 'r' => some '\r'
  | 't' => some '\t'
  | 'b' => some '\x08'
  | 'f' => some '\x0c'
  | _ => none

/-- An unknown escape stands for its second character, and a backslash at the very end for nothing.
Literals that were scanned have neither. -/
def unescape : List Char → List Char
  | [] => []
  | ['\\'] => []
  | '\\' :: c :: rest => (escaped? c).getD c :: unescape rest
  | c :: rest => c :: unescape rest

/-- The text of a literal from its written form, quotes included. -/
def unquote? (written : String) : Option String :=
  match written.toList with
  | '"' :: rest =>
    if rest.getLast? = some '"' then some (String.ofList (unescape rest.dropLast)) else none
  | _ => none

end Formulary.Text
