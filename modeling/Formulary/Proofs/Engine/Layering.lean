import Formulary.Proofs.Engine.RoundTrip
import Formulary.Proofs.Expression.Rebinding
import Formulary.Proofs.Function.Layering

set_option autoImplicit false

/-!
# Functions on top of those of an engine

They hide functions by name and number of arguments. A formula that calls none of those that are hidden is
the same as before, and so are its values and errors.
-/

namespace Formulary.Engine

open Formulary.Expression

variable {engine : Engine} {functions : Functions} {source : String} {formula : Formula}

theorem parse_withFunctions_kept (engine : Engine) (functions : Functions) (source : String) :
    Kept SyntaxError.Unknown Eq (engine.parse source) ((engine.withFunctions functions).parse source) :=
  parse_kept (Functions.within_upon functions engine.functions) _ _ _

theorem prepare_withFunctions (prepared : engine.prepare source = .ok formula)
    (lacks : ∀ entry ∈ formula.expression.called, functions.find? entry.1 entry.2 = none) :
    (engine.withFunctions functions).parse source = engine.parse source ∧
      (engine.withFunctions functions).prepare source = .ok formula := by
  obtain ⟨tree, e, parsed, compiled, rfl⟩ := prepare_eq_ok_iff.mp prepared
  have kept := parse_withFunctions_kept engine functions source
  rw [parsed] at kept
  obtain ⟨_, parsedAgain, rfl⟩ := kept.exists_ok
  have bound : e.Bound (engine.withFunctions functions).bindings.functions := by
    have hidden : e.Calls fun name _ count => functions.find? name count = none :=
      calls_of_called (P := fun name count => functions.find? name count = none) lacks
    exact (compiled.bound.and hidden).imp fun name overloads count h =>
      (Functions.find?_upon_of_none h.2).trans h.1
  exact ⟨parsedAgain.trans parsed.symm,
    prepare_eq_ok_iff.mpr ⟨tree, e, parsedAgain, compiled.rebind bound, rfl⟩⟩

/-- Functions that are found for nothing that a formula calls leave it as it is, even if there are some of the
same names for other numbers of arguments. -/
theorem withFunctions_conservative (engine : Engine) (functions : Functions) (source : String)
    (formula : Formula) (prepared : engine.prepare source = .ok formula)
    (lacks : ∀ entry ∈ formula.expression.called, functions.find? entry.1 entry.2 = none) :
    (engine.withFunctions functions).parse source = engine.parse source ∧
    (engine.withFunctions functions).prepare source = .ok formula ∧
    ∀ (context : Context) (resolver : Resolver),
      ((engine.withFunctions functions).withContext context).evaluate source resolver =
        (engine.withContext context).evaluate source resolver := by
  obtain ⟨sameTree, sameFormula⟩ := prepare_withFunctions prepared lacks
  refine ⟨sameTree, sameFormula, fun context resolver => ?_⟩
  obtain ⟨tree, e, parsed, compiled, rfl⟩ := prepare_eq_ok_iff.mp prepared
  have here : (engine.withContext context).prepare source = .ok ⟨e, context⟩ :=
    prepare_eq_ok_iff.mpr ⟨tree, e, parsed, compiled, rfl⟩
  have there : ((engine.withContext context).withFunctions functions).prepare source =
      .ok ⟨e, context⟩ :=
    (prepare_withFunctions here lacks).2
  rw [evaluate, evaluate, here]
  exact congrArg (· >>= fun formula => Failure.lift (formula.evaluate resolver)) there

/-- The layers have the operator and the function that the formula calls, but with fewer arguments. -/
theorem withFunctions_conservative_arity :
    let overload : Implementation := fun _ _ => pure .null
    let layers : Layers FunctionTable :=
      .upon (.single (({} : FunctionTable).define "max" {} overload))
        (.single (({} : FunctionTable).define "infix +" { params := [.any] } overload))
    ∃ formula, ({} : Engine).prepare "max(1, a[2]) + 3" = .ok formula ∧
      formula.expression.called = [("infix +", 2), ("max", 2), ("[]", 2)] ∧
      (∀ entry ∈ formula.expression.called, (Functions.ofLayers layers).find? entry.1 entry.2 = none) ∧
      (({} : Engine).withFunctions (.ofLayers layers)).prepare "max(1, a[2]) + 3" = .ok formula := by
  intro overload layers
  have known : (({} : Engine).prepare "max(1, a[2]) + 3").toOption.map (·.expression.called) =
      some [("infix +", 2), ("max", 2), ("[]", 2)] := by decide +kernel
  cases prepared : ({} : Engine).prepare "max(1, a[2]) + 3" with
  | error failure =>
    rw [prepared] at known
    cases known
  | ok formula =>
    rw [prepared] at known
    have called := Option.some.inj known
    have absent : ∀ entry ∈ formula.expression.called, ∀ table ∈ layers.toList,
        table.Lacks entry.1 entry.2 := by
      rw [show formula.expression.called = _ from called]
      decide +kernel
    have lacks : ∀ entry ∈ formula.expression.called,
        (Functions.ofLayers layers).find? entry.1 entry.2 = none :=
      fun entry member => Functions.find?_eq_none_iff.mpr (absent entry member)
    obtain ⟨-, same, -⟩ :=
      withFunctions_conservative {} (.ofLayers layers) "max(1, a[2]) + 3" formula prepared lacks
    exact ⟨formula, rfl, called, lacks, same⟩

end Formulary.Engine
