import Formulary.Engine
import Formulary.Proofs.Expression.Alike
import Formulary.Proofs.Library.Plans
import Formulary.Proofs.Tree.RoundTrip

set_option autoImplicit false

/-!
# The texts of formulas

A tree that can be compiled has a name behind each point, so it is found again in its text. What it
is compiled to then differs from the first time in places only, and no standard function looks at
those.
-/

namespace Formulary

open Formulary.Tree

/-- Only a plain name can be compiled behind a point. -/
theorem Expression.Compiled.fieldOperands {bindings : Bindings} {functions : FunctionArity}
    {tree : Tree} {e : Expression} (h : Compiled bindings tree e) (fits : tree.Fits functions) :
    tree.FieldOperands StandsAfterPoint := by
  induction tree using Tree.induct generalizing e with
  | build token children ih =>
    have admits : token.kind.Admits functions token.span.text children.length :=
      fits _ (self_mem_nodes _)
    cases h with
    | number kind | text kind | constant kind | unbound kind =>
      rw [kind] at admits
      exact fieldOperands_of_childless (by simp [kind]) admits
    | @member _ field objectTree object isField isName compiled =>
      have named : (leaf field).StandsAfterPoint := by
        simp [StandsAfterPoint, IsDigitLed, leaf, Tree.kind, Tree.token, isName, Kind.isAccess]
      have behind : (leaf field).FieldOperands StandsAfterPoint :=
        fieldOperands_of_childless (by simp [isName]) rfl
      have before := ih objectTree (by simp) compiled (fits.child (by simp))
      rw [fieldOperands_node]
      simp [named, behind, before]
    | call isCall _ _ compiled =>
      rw [fieldOperands_node]
      constructor
      · intro isField
        simp [isField, Kind.isCall] at isCall
      · intro child member
        obtain ⟨argument, childCompiled⟩ := compiled_of_mem compiled member
        exact ih child member childCompiled (fits.child member)

namespace Engine

/-- Engines that know the standard operators and functions and no others. -/
inductive Configured : Engine → Prop
  | new : Configured {}
  | withConstant {engine : Engine} (name : String) (value : Value) :
      Configured engine → Configured (engine.withConstant name value)
  | withFeatures {engine : Engine} (features : Features) :
      Configured engine → Configured (engine.withFeatures features)
  | withContext {engine : Engine} (context : Context) :
      Configured engine → Configured (engine.withContext context)

theorem Configured.operators {engine : Engine} (h : engine.Configured) :
    engine.operators = .ofLayers (.single .standard) := by
  induction h with
  | new => rfl
  | withConstant _ _ _ ih | withFeatures _ _ ih | withContext _ _ ih => exact ih

theorem Configured.functions {engine : Engine} (h : engine.Configured) :
    engine.functions = .ofLayers (.single Library.standard) := by
  induction h with
  | new => rfl
  | withConstant _ _ _ ih | withFeatures _ _ ih | withContext _ _ ih => exact ih

theorem Configured.parse_eq {engine : Engine} (h : engine.Configured) (source : String) :
    engine.parse source =
      Formulary.parse Operators.standard engine.functions.arity engine.features source := by
  rw [parse, h.operators]

theorem Configured.ignorePlaces {engine : Engine} (h : engine.Configured) (name : String)
    (count : Nat) (overloads : List Overload)
    (found : engine.bindings.functions.find? name count = some overloads) :
    Overload.IgnorePlaces overloads := by
  rw [bindings, h.functions] at found
  exact fun overload member => (Library.standard_ignoresPlaces.find? found overload member).1

theorem prepare_eq_ok_iff {engine : Engine} {source : String} {formula : Formula} :
    engine.prepare source = .ok formula ↔
      ∃ tree e, engine.parse source = .ok tree ∧ Expression.Compiled engine.bindings tree e ∧
        formula = ⟨e, engine.context⟩ := by
  unfold prepare
  cases parsed : engine.parse source with
  | error e => simp
  | ok tree =>
    constructor
    · intro h
      obtain ⟨e, compiled, h⟩ := bind_eq_ok_iff.mp h
      exact ⟨tree, e, rfl, Expression.compiled_of_ofTree compiled, (Except.ok.inj h).symm⟩
    · rintro ⟨other, e, same, compiled, rfl⟩
      obtain rfl := Except.ok.inj same
      exact bind_eq_ok_iff.mpr ⟨e, Expression.ofTree_of_compiled compiled, rfl⟩

/-- The text of the tree that a formula is compiled from makes a formula of the same text, which
comes to the same values and fails for the same causes. -/
theorem prepare_render (engine : Engine) (configured : engine.Configured) (source : String)
    (formula : Formula) (prepared : engine.prepare source = .ok formula) :
    ∃ tree again, engine.parse source = .ok tree ∧ engine.prepare tree.render = .ok again ∧
      again.toText = formula.toText ∧
      ∀ (resolver : Resolver) (context : Context),
        (again.evaluateIn resolver context).mapError Error.causes =
          (formula.evaluateIn resolver context).mapError Error.causes := by
  obtain ⟨tree, e, parsed, compiled, rfl⟩ := prepare_eq_ok_iff.mp prepared
  have fits : tree.Fits engine.functions.arity := fits_of_parse parsed
  obtain ⟨treeAgain, parsedAgain, alike⟩ :=
    parse_render_of_stands ((configured.parse_eq source).symm.trans parsed)
      (compiled.fieldOperands fits)
  obtain ⟨again, compiledAgain, same⟩ := compiled.alike configured.ignorePlaces alike
  refine ⟨tree, ⟨again, engine.context⟩, parsed, ?_, same.toText_eq.symm, ?_⟩
  · have parsedAgain := (configured.parse_eq tree.render).trans parsedAgain
    exact prepare_eq_ok_iff.mpr ⟨treeAgain, again, parsedAgain, compiledAgain, rfl⟩
  · intro resolver context
    exact same.evaluate.mapError_eq.symm

/-- A constant, a variable with a field, and a product that is implied. -/
theorem prepare_render_rate :
    let engine := ({} : Engine).withConstant "rate" (.number (.ofInt 3))
    ∃ formula tree again, engine.prepare "2(Rate + item.price)" = .ok formula ∧
      engine.parse "2(Rate + item.price)" = .ok tree ∧
      tree.render = "(2 * (Rate + (item).price))" ∧ engine.prepare tree.render = .ok again ∧
      again.toText = formula.toText ∧
      ∀ (resolver : Resolver) (context : Context),
        (again.evaluateIn resolver context).mapError Error.causes =
          (formula.evaluateIn resolver context).mapError Error.causes := by
  intro engine
  have configured : engine.Configured := .withConstant "rate" _ .new
  have accepted : (engine.prepare "2(Rate + item.price)").toOption.isSome = true := by
    decide +kernel
  have rendered : (engine.parse "2(Rate + item.price)").toOption.map Tree.render =
      some "(2 * (Rate + (item).price))" := by
    decide +kernel
  cases prepared : engine.prepare "2(Rate + item.price)" with
  | error e =>
    rw [prepared] at accepted
    cases accepted
  | ok formula =>
    obtain ⟨tree, again, parsed, reread, same⟩ :=
      prepare_render engine configured "2(Rate + item.price)" formula prepared
    rw [parsed] at rendered
    exact ⟨formula, tree, again, rfl, parsed, Option.some.inj rendered, reread, same⟩

end Engine

end Formulary
