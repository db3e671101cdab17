import Formulary.Decimal.Arithmetic
import Formulary.Time.Zone

set_option autoImplicit false

/-!
# The context of an evaluation
-/

namespace Formulary

structure Context where
  arithmetic : Arithmetic := {}
  zone : Time.Zone := .utc

end Formulary
