import Formulary.Engine
import Formulary.Proofs.Expression.Faults

set_option autoImplicit false

/-!
# Why a formula cannot be prepared

Functions are only ever put on top of the standard ones, so there are always some for accesses, and what is
accepted is found. A source that can be read then fails only for a number, a field or an operator that is
mapped to nothing.
-/

namespace Formulary

/-- The error that there is instead of a result. -/
def Failure.error? {α : Type} : Except Failure α → Option Error
  | .error (.error e) => some e
  | _ => none

theorem Failure.error?_eq_some_iff {α : Type} {result : Except Failure α} {e : Error} :
    error? result = some e ↔ result = .error e := by
  rcases result with (_ | _) | _ <;> simp [error?]

namespace Engine

open Expression

/-- Engines that are configured from the standard one, in any number of steps. Operators and functions may be
looked up in any way, but functions that are accepted have to be found. -/
inductive Built : Engine → Prop
  | new : Built {}
  | withOperators {engine : Engine} (operators : Operators) :
      Built engine → Built (engine.withOperators operators)
  | withFunctions {engine : Engine} {functions : Functions} : functions.Coherent →
      Built engine → Built (engine.withFunctions functions)
  | withConstant {engine : Engine} (name : String) (value : Value) :
      Built engine → Built (engine.withConstant name value)
  | withFeatures {engine : Engine} (features : Features) :
      Built engine → Built (engine.withFeatures features)
  | withContext {engine : Engine} (context : Context) :
      Built engine → Built (engine.withContext context)

theorem Built.coherent {engine : Engine} (h : engine.Built) : engine.functions.Coherent := by
  induction h with
  | new => exact Functions.coherent_ofLayers _
  | withFunctions coherent _ ih => exact coherent.upon ih
  | withOperators _ _ ih | withConstant _ _ _ ih | withFeatures _ _ ih | withContext _ _ ih => exact ih

theorem Built.bindAccesses {engine : Engine} (h : engine.Built) :
    BindAccesses engine.bindings.functions := by
  induction h with
  | new =>
    have bound (name : String) (accepted : Library.standard.accepts name 2 = true) :
        (Functions.ofLayers (.single Library.standard)).Binds name 2 :=
      (Functions.coherent_ofLayers _).bindAccepted name 2 accepted
    exact ⟨bound _ (by decide +kernel), bound _ (by decide +kernel)⟩
  | withFunctions coherent _ ih => exact ⟨ih.element.upon coherent, ih.entry.upon coherent⟩
  | withOperators _ _ ih | withConstant _ _ _ ih | withFeatures _ _ ih | withContext _ _ ih => exact ih

theorem sound_of_parse {engine : Engine} {source : String} {tree : Tree}
    (h : engine.parse source = .ok tree) :
    ∀ part ∈ tree.nodes, part.Sound engine.bindings.operators engine.bindings.functions.arity :=
  Tree.sound_of_parse h

theorem prepare_eq_error_iff {engine : Engine} {source : String} {failure : Failure} :
    engine.prepare source = .error failure ↔
      (∃ s, engine.parse source = .error s ∧ failure = Error.ofSyntax s) ∨
        ∃ tree, engine.parse source = .ok tree ∧ ofTree engine.bindings tree = .error failure := by
  unfold prepare
  cases parsed : engine.parse source with
  | error s => simp [eq_comm]
  | ok tree =>
    cases compiled : ofTree engine.bindings tree <;>
      simp [compile, compiled, Bind.bind, Except.bind, Pure.pure, Except.pure]

/-- A formula that cannot be prepared has a source that cannot be read, or else a number without a value,
a field that is no name, or an operator that is mapped to an implementation which takes no such number of
operands. Every call that was read is bound. Where preparing panics, it is at a number. -/
theorem prepare_accounted (engine : Engine) (built : engine.Built) (source : String) :
    (∀ e : Error, engine.prepare source = .error e →
      ((∃ s, engine.parse source = .error s ∧ e = .ofSyntax s) ∨
        ∃ tree, engine.parse source = .ok tree ∧
          ∃ part ∈ tree.nodes, Fault engine.bindings part e) ∧
      (∀ name count, e.cause ≠ .undefinedFunction name count) ∧
      ∀ kind, e.cause ≠ .unexpectedNode kind) ∧
    (engine.prepare source = .error .panic →
      ∃ tree, engine.parse source = .ok tree ∧ ∃ part ∈ tree.nodes, Fault engine.bindings part .panic) ∧
    ∀ tree, engine.parse source = .ok tree →
      ∀ part ∈ tree.nodes, ∀ name, calledName part = some name →
        engine.bindings.functions.Binds name part.children.length := by
  have accepted := built.coherent.bindAccepted
  have blamed {tree : Tree} {failure : Failure} (parsed : engine.parse source = .ok tree)
      (failed : ofTree engine.bindings tree = .error failure) :
      ∃ part ∈ tree.nodes, Fault engine.bindings part failure :=
    fault_of_ofTree accepted built.bindAccesses (sound_of_parse parsed) failed
  refine ⟨fun e failed => ?errors, fun panics => ?panics, fun tree parsed part member name calls => ?calls⟩
  case errors =>
    rcases prepare_eq_error_iff.mp failed with ⟨s, unread, same⟩ | ⟨tree, parsed, failed⟩
    · cases same
      exact ⟨.inl ⟨s, unread, rfl⟩, by simp [Error.ofSyntax], by simp [Error.ofSyntax]⟩
    · obtain ⟨part, member, fault⟩ := blamed parsed failed
      exact ⟨.inr ⟨tree, parsed, part, member, fault⟩, fault.cause_ne⟩
  case panics =>
    rcases prepare_eq_error_iff.mp panics with ⟨_, _, impossible⟩ | ⟨tree, parsed, panics⟩
    · cases impossible
    · exact ⟨tree, parsed, blamed parsed panics⟩
  case calls =>
    exact binds_of_sound accepted built.bindAccesses (sound_of_parse parsed part member) calls

/-- An operator that is mapped to no implementation is found out when the formula is prepared. -/
theorem prepare_accounted_unmapped :
    let table := ({} : OperatorTable).insert .infixOp "<=>" { precedence := 10, implementation := "cmp" }
    let engine := ({} : Engine).withOperators (.ofLayers (.single table))
    ∃ (tree : Tree) (e : Error), engine.parse "max(1, x) <=> a[2]" = .ok tree ∧
      engine.prepare "max(1, x) <=> a[2]" = .error e ∧
      e.cause = .undefinedOperator .infixOp "<=>" ∧
      (∃ part ∈ tree.nodes, Fault engine.bindings part e) ∧
      ∀ part ∈ tree.nodes, ∀ name, calledName part = some name →
        engine.bindings.functions.Binds name part.children.length := by
  intro table engine
  have built : engine.Built := .withOperators _ .new
  obtain ⟨fails, -, binds⟩ := prepare_accounted engine built "max(1, x) <=> a[2]"
  have isRead : (engine.parse "max(1, x) <=> a[2]").toOption.isSome = true := by decide +kernel
  have fault : (Failure.error? (engine.prepare "max(1, x) <=> a[2]")).map (·.cause) =
      some (.undefinedOperator .infixOp "<=>") := by
    decide +kernel
  obtain ⟨e, failed, cause⟩ := Option.map_eq_some_iff.mp fault
  have failed := Failure.error?_eq_some_iff.mp failed
  cases parsed : engine.parse "max(1, x) <=> a[2]" with
  | error s =>
    rw [parsed] at isRead
    cases isRead
  | ok tree =>
    obtain ⟨⟨s, unread, -⟩ | ⟨other, same, found⟩, -⟩ := fails e failed
    · rw [parsed] at unread
      cases unread
    · rw [parsed] at same
      obtain rfl := Except.ok.inj same
      exact ⟨tree, e, rfl, failed, cause, found, binds tree parsed⟩

end Engine

end Formulary
