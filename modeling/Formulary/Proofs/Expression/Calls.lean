import Formulary.Proofs.Expression.Compiled
import Formulary.Proofs.Function.Deferred

set_option autoImplicit false

/-!
# The calls of an expression

What holds of each call is what an expression takes from the functions that it is compiled for: each call
has the overloads that are found under its name for its number of arguments.
-/

namespace Formulary.Expression

/-- A property of all calls in an expression, by their names, overloads and numbers of arguments. -/
inductive Calls (P : String → List Overload → Nat → Prop) : Expression → Prop
  | literal (value : Value) : Calls P (literal value)
  | reference (name : String) (span : Span) : Calls P (reference name span)
  | call {overloads : List Overload} {arguments : List Expression} (name : String) (span : Span) :
      P name overloads arguments.length → (∀ argument ∈ arguments, Calls P argument) →
      Calls P (call name overloads arguments span)
  | member {object : Expression} (field : String) (span : Span) :
      Calls P object → Calls P (member object field span)

theorem Calls.imp {P Q : String → List Overload → Nat → Prop}
    (holds : ∀ name overloads count, P name overloads count → Q name overloads count) {e : Expression}
    (h : e.Calls P) : e.Calls Q := by
  induction h with
  | literal value => exact .literal value
  | reference name span => exact .reference name span
  | call name span bound _ ih => exact .call name span (holds _ _ _ bound) ih
  | member field span _ ih => exact .member field span ih

theorem Calls.and {P Q : String → List Overload → Nat → Prop} {e : Expression} (h : e.Calls P)
    (others : e.Calls Q) : e.Calls fun name overloads count =>
      P name overloads count ∧ Q name overloads count := by
  induction h with
  | literal value => exact .literal value
  | reference name span => exact .reference name span
  | call name span bound _ ih =>
    cases others with
    | call _ _ boundToo each =>
      exact .call name span ⟨bound, boundToo⟩ fun argument member =>
        ih argument member (each argument member)
  | member field span _ ih =>
    cases others with
    | member _ _ each => exact .member field span (ih each)

/-- Each call is bound to what is found under its name for its number of arguments. -/
def Bound (functions : Functions) : Expression → Prop :=
  Calls fun name overloads count => functions.find? name count = some overloads

theorem Compiled.bound {bindings : Bindings} {tree : Tree} {e : Expression}
    (h : Compiled bindings tree e) : e.Bound bindings.functions := by
  induction tree using Tree.induct generalizing e with
  | build token children ih =>
    cases h with
    | number | text | constant => exact .literal _
    | unbound => exact .reference _ _
    | member _ _ object => exact .member _ _ (ih _ (by simp) object)
    | call _ _ bound arguments =>
      have found := (bind_eq_ok_iff_found.mp bound).1
      rw [arguments.length_eq] at found
      refine .call _ _ found fun argument member => ?_
      obtain ⟨child, isChild, compiled⟩ := exists_tree_of_mem arguments member
      exact ih child isChild compiled

/-- Each call does nothing with deferred arguments but evaluate those that it needs. -/
def CallsOnlyEvaluate : Expression → Prop :=
  Calls fun _ overloads _ => Overload.OnlyEvaluate overloads

theorem Bound.onlyEvaluate {functions : Functions} {e : Expression} (h : e.Bound functions)
    (only : functions.OnlyEvaluate) : e.CallsOnlyEvaluate :=
  h.imp fun name overloads count => only name count overloads

end Formulary.Expression
