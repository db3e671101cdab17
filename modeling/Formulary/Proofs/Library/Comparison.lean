import Formulary.Proofs.Library.Rounding
import Formulary.Proofs.Value.Order

set_option autoImplicit false

/-!
# What comparisons say

A comparison has one overload for each type of values that is ordered, and each of them says what the order
of the values does. Any two values can be told to be equal or not.
-/

namespace Formulary.Library

def Comparison.symbol : Comparison → String
  | less => "<"
  | lessOrEqual => "<="
  | greater => ">"
  | greaterOrEqual => ">="

def orderedPairs (c : Comparison) : List Overload :=
  [ValueType.number, .text, .instant, .duration, .boolean].map fun type => ⟨pair type type, compare c⟩

/-- No operand of a comparison is deferred. -/
theorem defers_orderedPairs (c : Comparison) (index : Nat) :
    Overload.defers (orderedPairs c) index = false :=
  Overload.defers_of_eager (by simp [pair, Param.only]) index

theorem defers_anyPair (body : Implementation) (index : Nat) :
    Overload.defers [⟨anyPair, body⟩] index = false :=
  Overload.defers_of_eager (by simp [anyPair, Param.any]) index

variable {call : Call} {v w : Value}

theorem find?_comparison (c : Comparison) :
    standard.find? (Role.infixOp.implementationName c.symbol) 2 = some (orderedPairs c) := by
  cases c <;> rfl

theorem applied_comparison (c : Comparison) {o : Ordering} (ordered : v.compare w = some o)
    (named : call.name = Role.infixOp.implementationName c.symbol) :
    applied call [v, w] = pure (.boolean (c.holds o)) := by
  have selected : Overload.dispatch (orderedPairs c) call [.value v, .value w] =
      compare c call [.value v, .value w] := by
    cases v <;> cases w
    case number.number | text.text | instant.instant | duration.duration | boolean.boolean => rfl
    all_goals cases ordered
  have compared : compare c call [.value v, .value w] = pure (.boolean (c.holds o)) := by
    simp only [compare, Call.onValues, Call.binary, Argument.evaluate, pure_bind, ordered]
  calc applied call [v, w]
      = Overload.dispatch (orderedPairs c) call [.value v, .value w] :=
        applied_of_find? (orderedPairs c) (find?_comparison c) (congrArg _ named)
    _ = compare c call [.value v, .value w] := selected
    _ = pure (.boolean (c.holds o)) := compared

theorem find?_equal :
    standard.find? (Role.infixOp.implementationName "==") 2 = some [⟨anyPair, equal⟩] :=
  rfl

theorem applied_equal (named : call.name = Role.infixOp.implementationName "==") :
    applied call [v, w] = pure (.boolean (v.equal w)) :=
  applied_of_find? [⟨anyPair, equal⟩] find?_equal (congrArg _ named)

theorem find?_unequal :
    standard.find? (Role.infixOp.implementationName "!=") 2 = some [⟨anyPair, unequal⟩] :=
  rfl

theorem applied_unequal (named : call.name = Role.infixOp.implementationName "!=") :
    applied call [v, w] = pure (.boolean (!v.equal w)) :=
  applied_of_find? [⟨anyPair, unequal⟩] find?_unequal (congrArg _ named)

end Formulary.Library
