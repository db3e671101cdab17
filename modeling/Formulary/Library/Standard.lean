import Formulary.Library.Access
import Formulary.Library.Arithmetic
import Formulary.Library.Comparison
import Formulary.Library.Logic
import Formulary.Library.Time

set_option autoImplicit false

/-!
# The standard functions and constants
-/

namespace Formulary.Library

/-- Numbers and times are added where both sides are such, and texts are joined otherwise. -/
def standard : FunctionTable :=
  arithmetic ++ time ++ joining ++ comparison ++ logic ++ access

def pi : Decimal :=
  ⟨314159265358979323846264338327950288419716939937510582097494459230781640, 71⟩

def eulerNumber : Decimal :=
  ⟨271828182845904523536028747135266249775724709369995957496696762772407663, 71⟩

def constants : List (String × Value) := [
  ("TRUE", .boolean true),
  ("FALSE", .boolean false),
  ("NULL", .null),
  ("PI", .number pi),
  ("E", .number eulerNumber)]

end Formulary.Library
