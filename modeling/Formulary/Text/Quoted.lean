import Formulary.Text.Visible

set_option autoImplicit false

/-!
# Quoted texts

A text between quotes, in which hidden and combining characters are written by their number in
hexadecimal, as in `"\u{7f}"`.
-/

namespace Formulary.Text

def hex (n : Nat) : String :=
  String.ofList (Nat.toDigits 16 n)

def quoteChar : Char → String
  | '\x00' => "\\0"
  | '\t' => "\\t"
  | '\r' => "\\r"
  | '\n' => "\\n"
  | '\\' => "\\\\"
  | '"' => "\\\""
  | c => if isVisible c then c.toString else "\\u\x7b" ++ hex c.toNat ++ "\x7d"

def quote (s : String) : String :=
  "\"" ++ String.join (s.toList.map quoteChar) ++ "\""

end Formulary.Text
