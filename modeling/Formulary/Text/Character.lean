import Formulary.Text.Letters
import Formulary.Text.Numerals

set_option autoImplicit false

/-!
# Characters that the grammar tells apart
-/

namespace Formulary.Text

/-- The property White_Space of Unicode. -/
def whitespaceRanges : List (Nat × Nat) := [
  (9, 13), (32, 32), (133, 133), (160, 160), (5760, 5760), (8192, 8202), (8232, 8233), (8239, 8239),
  (8287, 8287), (12288, 12288)]

def isWhitespace (c : Char) : Bool :=
  inRanges whitespaceRanges c.toNat

def isDigit (c : Char) : Bool :=
  '0' ≤ c && c ≤ '9'

def isHexDigit (c : Char) : Bool :=
  isDigit c || ('a' ≤ c && c ≤ 'f') || ('A' ≤ c && c ≤ 'F')

def startsName (c : Char) : Bool :=
  isLetter c || c == '_'

def continuesName (c : Char) : Bool :=
  isLetter c || isNumeral c || c == '_'

end Formulary.Text
