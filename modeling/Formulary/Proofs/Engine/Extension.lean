import Formulary.Proofs.Engine.Layering
import Formulary.Proofs.Engine.Located
import Formulary.Proofs.Expression.Extension

set_option autoImplicit false

/-!
# Functions defined behind the standard ones

All operators of the standard engine are bound, so with more overloads behind the standard ones its sources
are read, compiled and evaluated as before. Where that fails for want of a function or an overload, the new
ones may step in.
-/

namespace Formulary

namespace Engine

open Formulary.Expression

/-- Every standard operator is bound to a standard function for its number of operands. -/
theorem binds_standardOperator {role : Role} {text : String} {mapping : Mapping}
    (h : (Operators.ofLayers (.single .standard)).find? role text = some mapping) :
    (Functions.ofLayers (.single Library.standard)).Binds mapping.implementation role.arity := by
  obtain ⟨⟨r, t, m⟩, found, rfl⟩ := Option.map_eq_some_iff.mp
    (show OperatorTable.standard.find? role text = some mapping from h)
  have sameRole : r = role ∧ t = Text.upper text := by simpa using List.find?_some found
  have all : ∀ entry ∈ OperatorTable.standard.entries,
      Library.standard.accepts entry.2.2.implementation entry.1.arity = true := by decide +kernel
  have accepted := all _ (List.mem_of_find?_eq_some found)
  exact (Functions.coherent_ofLayers _).bindAccepted _ _ (sameRole.1 ▸ accepted)

/-- Nothing is undefined in a source that the standard engine can read. -/
theorem not_undefined_of_ofTree {source : String} {tree : Tree} {failure : Failure}
    (parsed : ({} : Engine).parse source = .ok tree)
    (failed : ofTree ({} : Engine).bindings tree = .error failure) : ¬failure.Is Error.Undefined := by
  obtain ⟨part, -, fault⟩ := fault_of_ofTree (Functions.coherent_ofLayers _).bindAccepted
    Built.new.bindAccesses (sound_of_parse parsed) failed
  cases fault with
  | literal | field => simp [Failure.Is, Error.Undefined, Token.fails]
  | panic => simp [Failure.Is]
  | operator _ _ mapped unbound => exact absurd (binds_standardOperator mapped) unbound

/-- An error that more functions can do away with: there is no function of the name or for the number of
arguments, or no overload for their types. -/
def Lost (e : Error) : Prop :=
  e.Unsupported ∨ ∃ s : SyntaxError, s.Unknown ∧ e = .ofSyntax s

/-- The formula has further overloads behind those of its calls, and only what is unknown may be lost. -/
theorem prepare_defineAll_kept (definitions : List (String × Signature × Implementation))
    (source : String) :
    Kept (Failure.Is Lost) (fun formula other => formula.expression.Bound ({} : Engine).functions ∧
        formula.expression.Extends other.expression ∧ formula.context = other.context)
      (({} : Engine).prepare source)
      ((({} : Engine).withFunctions
        (.ofLayers (.single (Library.standard.defineAll definitions)))).prepare source) := by
  generalize isExtended : ({} : Engine).withFunctions
    (.ofLayers (.single (Library.standard.defineAll definitions))) = extended
  have begins : ({} : Engine).bindings.functions.Begins extended.bindings.functions := by
    subst isExtended
    exact Functions.begins_upon (FunctionTable.begins_defineAll _ definitions) _
  have sameBindings : extended.bindings =
      { ({} : Engine).bindings with functions := extended.bindings.functions } := by
    subst isExtended
    rfl
  have parses : Kept SyntaxError.Unknown Eq (({} : Engine).parse source) (extended.parse source) :=
    isExtended ▸ parse_withFunctions_kept {} _ source
  have compiles : ∀ tree, Kept (Failure.Is Error.Undefined) Extends (ofTree ({} : Engine).bindings tree)
      (ofTree extended.bindings tree) := fun tree => sameBindings ▸ ofTree_kept begins tree
  cases prepared : ({} : Engine).prepare source with
  | error failure =>
    rcases prepare_eq_error_iff.mp prepared with ⟨s, unread, rfl⟩ | ⟨tree, parsed, failed⟩
    · rw [unread] at parses
      by_cases unknown : s.Unknown
      · exact .lost _ (Failure.is_error_iff.mpr (.inr ⟨s, unknown, rfl⟩))
      · rw [prepare_eq_error_iff.mpr (.inl ⟨s, parses.error_eq unknown, rfl⟩)]
        exact .error _
    · have kept := compiles tree
      rw [parsed] at parses
      rw [failed] at kept
      obtain ⟨_, parsedToo, rfl⟩ := parses.exists_ok
      -- Unknown functions are refused when the source is read, so this failure is about something else.
      have failedToo := kept.error_eq (not_undefined_of_ofTree parsed failed)
      rw [prepare_eq_error_iff.mpr (.inr ⟨tree, parsedToo, failedToo⟩)]
      exact .error _
  | ok formula =>
    obtain ⟨tree, e, parsed, compiled, rfl⟩ := prepare_eq_ok_iff.mp prepared
    have kept := compiles tree
    rw [parsed] at parses
    rw [ofTree_of_compiled compiled] at kept
    obtain ⟨_, parsedToo, rfl⟩ := parses.exists_ok
    obtain ⟨other, compiledToo, extended⟩ := kept.exists_ok
    rw [prepare_eq_ok_iff.mpr ⟨tree, other, parsedToo, compiled_of_ofTree compiledToo, rfl⟩]
    exact .ok ⟨compiled.bound, extended, isExtended ▸ rfl⟩

/-- Overloads that are defined after the standard ones change no value, and no error but those for want of
a function or an overload. -/
theorem evaluate_defineAll (definitions : List (String × Signature × Implementation)) (source : String)
    (resolver : Resolver) :
    let extended := ({} : Engine).withFunctions
      (.ofLayers (.single (Library.standard.defineAll definitions)))
    (∀ v, ({} : Engine).evaluate source resolver = .ok v →
      extended.evaluate source resolver = .ok v) ∧
    ∀ e : Error, ({} : Engine).evaluate source resolver = .error e → e.cause ≠ .unsupportedTypes →
      (∀ name, e.cause ≠ .malformed (.undefinedFunction name)) →
      (∀ name count, e.cause ≠ .malformed (.argumentCount name count)) →
      extended.evaluate source resolver = .error e := by
  intro extended
  have kept : Kept (Failure.Is Lost) Eq (({} : Engine).evaluate source resolver)
      (extended.evaluate source resolver) := by
    refine (prepare_defineAll_kept definitions source).bind ?_
    rintro ⟨e, context⟩ ⟨other, _⟩ ⟨bound, extended, rfl⟩
    have relay : e.CallsRelay :=
      bound.imp fun name overloads count => Library.relay_standard name count overloads
    have kept : e.KeptIn resolver context other :=
      extended.kept relay (bound.onlyEvaluate Library.onlyEvaluate_standard)
    exact kept.lift fun _ unsupported => .inl unsupported
  constructor
  · intro v evaluated
    rw [evaluated] at kept
    obtain ⟨_, evaluatedToo, rfl⟩ := kept.exists_ok
    exact evaluatedToo
  · intro e failed supported known counted
    rw [failed] at kept
    refine kept.error_eq fun lost => ?_
    rcases Failure.is_error_iff.mp lost with unsupported | ⟨s, ⟨name, unknown⟩ | ⟨name, count, unknown⟩, rfl⟩
    · exact supported unsupported
    · exact known name (congrArg Error.Cause.malformed unknown)
    · exact counted name count (congrArg Error.Cause.malformed unknown)

/-- A quotient and a maximum are what they were, with a value and with an error. -/
theorem evaluate_defineAll_quotient :
    let null : Implementation := fun _ _ => pure .null
    let extended := ({} : Engine).withFunctions (.ofLayers (.single (Library.standard.defineAll
      [("infix /", Library.anyPair, null), ("MAX", { variadic := some Param.any.lazily }, null)])))
    let resolver : Resolver := fun _ => some (.number (.ofInt 0))
    (∃ v, ({} : Engine).evaluate "max(x, 6) / 2" resolver = .ok v ∧
      extended.evaluate "max(x, 6) / 2" resolver = .ok v) ∧
    ∃ e : Error, ({} : Engine).evaluate "max(x, 6) / x" resolver = .error e ∧
      e.cause = .arithmetic .divisionByZero ∧
      extended.evaluate "max(x, 6) / x" resolver = .error e := by
  intro null extended resolver
  constructor
  · have comes : (({} : Engine).evaluate "max(x, 6) / 2" resolver).toOption.isSome = true := by
      decide +kernel
    cases evaluated : ({} : Engine).evaluate "max(x, 6) / 2" resolver with
    | error failure =>
      rw [evaluated] at comes
      cases comes
    | ok v => exact ⟨v, rfl, (evaluate_defineAll _ _ _).1 v evaluated⟩
  · have fails : (Failure.error? (({} : Engine).evaluate "max(x, 6) / x" resolver)).map (·.cause) =
        some (.arithmetic .divisionByZero) := by
      decide +kernel
    obtain ⟨e, failed, cause⟩ := Option.map_eq_some_iff.mp fails
    have failed := Failure.error?_eq_some_iff.mp failed
    refine ⟨e, failed, cause, (evaluate_defineAll _ _ _).2 e failed ?_ ?_ ?_⟩ <;> simp [cause]

end Engine

end Formulary
