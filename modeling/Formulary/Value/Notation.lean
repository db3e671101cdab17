import Formulary.Decimal.Notation
import Formulary.Time.Notation
import Formulary.Value.Basic

set_option autoImplicit false

/-!
# Written values
-/

namespace Formulary.Value

mutual

/-- Texts are written without quotes, even inside arrays and records. -/
def toText : Value → String
  | number x => x.toText
  | text s => s
  | boolean b => if b then "true" else "false"
  | instant t => t.toText
  | duration d => d.toText
  | array xs => "[" ++ ", ".intercalate (elementTexts xs) ++ "]"
  | record fields =>
    let texts := (List.finRange fields.names.length).map fun i =>
      fields.name i ++ ": " ++ toText (fields.content i)
    "\x7b" ++ ", ".intercalate texts ++ "\x7d"
  | null => "null"

def elementTexts : List Value → List String
  | [] => []
  | x :: xs => toText x :: elementTexts xs

end

end Formulary.Value
