import Formulary.Proofs.Engine.Faults
import Formulary.Proofs.Engine.RoundTrip
import Formulary.Proofs.Expression.Located
import Formulary.Proofs.Library.Plans
import Formulary.Proofs.Token.Located
import Formulary.Proofs.Tree.Located

set_option autoImplicit false

/-!
# Where the errors of an engine stand

From reading a source to evaluating the formula, the place of an error is that of a token, so it is a piece
of the source or the place of a multiplication sign that is implied. With the standard functions nothing
else fails.
-/

namespace Formulary.Engine

open Formulary.Expression

variable {engine : Engine} {source : String}

/-- The places that errors can have: pieces of the source, and multiplication signs that are implied. -/
inductive Locates (engine : Engine) (source : String) : Span → Prop
  | cut {span : Span} : span.CutFrom source → Locates engine source span
  | implied {tokens : List Token} {token next : Token} : engine.tokenize source = .ok tokens →
      token.ImpliedBefore next tokens source → Locates engine source ⟨next.span.start, "*"⟩

theorem locates_of_mem {tokens : List Token} (h : engine.tokenize source = .ok tokens) :
    ∀ token ∈ tokens, engine.Locates source token.span := by
  intro token member
  rcases tokenize_located h token member with cut | ⟨next, implied⟩
  · exact .cut cut
  · rw [implied.sign]
    exact .implied h implied

theorem parse_error_locates {e : SyntaxError} (h : engine.parse source = .error e) :
    engine.Locates source e.span := by
  rcases Tree.Stacks.bind_eq_error_iff.mp h with failed | ⟨tokens, tokenized, failed⟩
  · exact .cut (tokenize_error_cutFrom failed)
  · rcases Tree.ofTokens_error_span (locates_of_mem tokenized) failed with placed | whole
    · exact placed
    · exact .cut (whole ▸ Span.whole_cutFrom source)

theorem locates_of_parse {tree : Tree} (h : engine.parse source = .ok tree) :
    ∀ part ∈ tree.nodes, engine.Locates source part.token.span := by
  obtain ⟨tokens, tokenized, read⟩ := bind_eq_ok_iff.mp h
  exact Tree.ofTokens_span (locates_of_mem tokenized) read

theorem prepare_error_locates {e : Error} (h : engine.prepare source = .error e) :
    engine.Locates source e.span := by
  rcases prepare_eq_error_iff.mp h with ⟨s, unread, same⟩ | ⟨tree, parsed, failed⟩
  · cases same
    exact parse_error_locates unread
  · exact ofTree_error_span (locates_of_parse parsed) failed

/-- Where all functions relay errors, so do those that are called. -/
theorem callsRelay_of_compiled (relay : engine.functions.Relay) {tree : Tree} {e : Expression}
    (h : Compiled engine.bindings tree e) : e.CallsRelay :=
  h.bound.imp fun name overloads count => relay name count overloads

theorem evaluateIn_error_locates (relay : engine.functions.Relay) {formula : Formula}
    (h : engine.prepare source = .ok formula) {resolver : Resolver} {context : Context} {e : Error}
    (failed : formula.evaluateIn resolver context = .error e) : engine.Locates source e.span := by
  obtain ⟨tree, expression, parsed, compiled, rfl⟩ := prepare_eq_ok_iff.mp h
  exact evaluate_error_span (compiled.placed (locates_of_parse parsed))
    (callsRelay_of_compiled relay compiled) failed

theorem evaluate_error_locates (relay : engine.functions.Relay) {resolver : Resolver} {e : Error}
    (h : engine.evaluate source resolver = .error e) : engine.Locates source e.span := by
  rcases Tree.Stacks.bind_eq_error_iff.mp h with failed | ⟨formula, prepared, failed⟩
  · exact prepare_error_locates failed
  · exact evaluateIn_error_locates relay prepared (Failure.lift_eq_error_iff.mp failed)

/-- Whatever fails with the standard functions, the error is about a piece of the source, and its line and
column are those at which the piece begins, unless it is about a multiplication sign that is implied. -/
theorem errors_located (engine : Engine)
    (standard : engine.functions = .ofLayers (.single Library.standard)) (source : String) :
    (∀ e, engine.tokenize source = .error e → e.span.CutFrom source) ∧
    (∀ e, engine.parse source = .error e → engine.Locates source e.span) ∧
    (∀ e : Error, engine.prepare source = .error e → engine.Locates source e.span) ∧
    (∀ resolver (e : Error), engine.evaluate source resolver = .error e → engine.Locates source e.span) ∧
    ∀ formula, engine.prepare source = .ok formula → ∀ resolver context e,
      formula.evaluateIn resolver context = .error e → engine.Locates source e.span := by
  have relay : engine.functions.Relay := standard ▸ Library.relay_standard
  exact ⟨fun e => tokenize_error_cutFrom, fun e => parse_error_locates, fun e => prepare_error_locates,
    fun resolver e => evaluate_error_locates relay, fun formula prepared resolver context e =>
      evaluateIn_error_locates relay prepared⟩

/-- A text is multiplied with a number by a sign that is implied in the second line. -/
theorem errors_located_implied :
    ∃ e : Error, ({} : Engine).evaluate "é\n+ 2x" (fun _ => some (.text "a")) = .error e ∧
      e.cause = .unsupportedTypes ∧ e.span = ⟨⟨6, 2, 4⟩, "*"⟩ ∧
      ({} : Engine).Locates "é\n+ 2x" e.span := by
  obtain ⟨-, -, -, located, -⟩ := errors_located {} rfl "é\n+ 2x"
  have failure : (Failure.error? (({} : Engine).evaluate "é\n+ 2x" (fun _ => some (.text "a")))).map
      (fun e => (e.cause, e.span)) = some (.unsupportedTypes, ⟨⟨6, 2, 4⟩, "*"⟩) := by
    decide +kernel
  obtain ⟨e, failed, same⟩ := Option.map_eq_some_iff.mp failure
  obtain ⟨cause, span⟩ := Prod.mk.inj same
  have failed := Failure.error?_eq_some_iff.mp failed
  exact ⟨e, failed, cause, span, located _ e failed⟩

end Formulary.Engine
