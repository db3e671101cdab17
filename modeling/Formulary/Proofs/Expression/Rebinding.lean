import Formulary.Proofs.Expression.Queries

set_option autoImplicit false

/-!
# Compiling with other functions

An expression depends on functions only by what is found for the names that it calls, each with its number
of arguments. Functions that are found in the same way lead to the same expression.
-/

namespace Formulary.Expression

mutual

/-- The names that are called, as the implementations are called, each with its number of arguments. -/
def called : Expression → List (String × Nat)
  | literal _ | reference _ _ => []
  | call name _ arguments _ => (name, arguments.length) :: allCalled arguments
  | member object _ _ => called object

def allCalled : List Expression → List (String × Nat)
  | [] => []
  | e :: rest => called e ++ allCalled rest

end

theorem allCalled_eq (arguments : List Expression) : allCalled arguments = arguments.flatMap called := by
  induction arguments with
  | nil => rfl
  | cons argument rest ih => rw [allCalled, ih, List.flatMap_cons]

theorem calls_of_called {P : String → Nat → Prop} {e : Expression}
    (h : ∀ entry ∈ e.called, P entry.1 entry.2) : e.Calls fun name _ count => P name count := by
  induction e using induct with
  | onLiteral value => exact .literal value
  | onReference name span => exact .reference name span
  | onCall name overloads arguments span ih =>
    rw [called, allCalled_eq, List.forall_mem_cons, List.forall_mem_flatMap] at h
    exact .call name span h.1 fun argument member => ih argument member (h.2 argument member)
  | onMember object field span ih => exact .member field span (ih h)

/-- Other functions that bind each call of an expression alike compile the tree to the same expression. -/
theorem Compiled.rebind {bindings : Bindings} {others : Functions} {tree : Tree} {e : Expression}
    (h : Compiled bindings tree e) (bound : e.Bound others) :
    Compiled { bindings with functions := others } tree e := by
  induction tree using Tree.induct generalizing e with
  | build token children ih =>
    cases h with
    | number kind denotes => exact .number kind denotes
    | text kind denotes => exact .text kind denotes
    | constant kind found => exact .constant kind found
    | unbound kind missing => exact .unbound kind missing
    | member kind isName object =>
      cases bound with
      | member _ _ inner => exact .member kind isName (ih _ (by simp) object inner)
    | call isCall calls found compiled =>
      cases bound with
      | call _ _ here inner =>
        rw [← compiled.length_eq] at here
        have nonempty := (bind_eq_ok_iff_found.mp found).2
        refine .call isCall calls (bind_eq_ok_iff_found.mpr ⟨here, nonempty⟩) ?_
        have each : List.Forall₂ (fun child argument => argument.Bound others →
            Compiled { bindings with functions := others } child argument) children _ :=
          ((List.forall₂_and_left _ _).mpr ⟨ih, compiled⟩).imp fun _ _ h => h.1 h.2
        exact ((List.forall₂_and_left _ _).mpr ⟨inner, each.flip⟩).flip.imp fun _ _ h => h.2 h.1

end Formulary.Expression
