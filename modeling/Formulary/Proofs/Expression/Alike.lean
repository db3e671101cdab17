import Formulary.Proofs.Expression.Compiled
import Formulary.Proofs.Function.Places

set_option autoImplicit false

/-!
# Expressions that differ in their places only

They are written alike, and come to the same value or fail for the same causes, provided that no
function that they call looks at places.
-/

namespace Formulary

namespace Outcome

variable {α β γ δ : Type} {R : α → β → Prop} {S : γ → δ → Prop}

theorem bind {first : Run α} {second : Run β} {next : α → Run γ} {other : β → Run δ}
    (h : Outcome R first.outcome second.outcome)
    (continues : ∀ a b, R a b → Outcome S (next a).outcome (other b).outcome) :
    Outcome S (first >>= next).outcome (second >>= other).outcome := by
  obtain ⟨asked, outcome⟩ := first
  obtain ⟨others, result⟩ := second
  cases h with
  | ok related => exact continues _ _ related
  | error same => exact .error same

end Outcome

namespace Pending

/-- Equal values, or ways to come to the same outcome. -/
inductive Alike : Pending → Pending → Prop
  | ready (value : Value) : Alike (ready value) (ready value)
  | waiting (sketch other : Sketch) {first second : Unit → Run Value} :
      Outcome Eq (first ()).outcome (second ()).outcome →
      Alike (waiting sketch first) (waiting other second)

theorem Alike.toArgument {first second : Pending} (h : first.Alike second) (index : Nat) :
    (first.toArgument index).evaluate = (second.toArgument index).evaluate := by
  cases h <;> rfl

theorem Alike.evaluate {first second : Pending} (h : first.Alike second) :
    Outcome Eq first.evaluate.outcome second.evaluate.outcome := by
  cases h with
  | ready value => exact .ok rfl
  | waiting _ _ same => exact same

theorem toArguments_alike {first second : List Pending} (h : List.Forall₂ Alike first second) :
    (toArguments first).map Argument.evaluate = (toArguments second).map Argument.evaluate := by
  unfold toArguments
  generalize 0 = start
  induction h generalizing start with
  | nil => rfl
  | cons alike _ ih => simp only [List.zipIdx_cons, List.map_cons, alike.toArgument, ih]

end Pending

/-- Where the call stands makes no difference to what it comes to. -/
theorem Call.perform_moved {overloads : List Overload} (ignore : Overload.IgnorePlaces overloads)
    {first second : List Pending} (h : List.Forall₂ Pending.Alike first second) (call : Call)
    (span : Span) :
    Outcome Eq (call.perform overloads first).outcome
      ((call.moved span).perform overloads second).outcome := by
  unfold perform
  apply (Overload.dispatch_moved ignore call span (Pending.toArguments_alike h)).run
  intro index
  induction h generalizing index with
  | nil => exact .error rfl
  | cons alike _ ih =>
    cases index with
    | zero => exact alike.evaluate
    | succ index => exact ih index

namespace Expression

/-- A property of expressions that holds of each call if it holds of the arguments. -/
theorem induct {P : Expression → Prop} (onLiteral : ∀ value, P (literal value))
    (onReference : ∀ name span, P (reference name span))
    (onCall : ∀ name overloads arguments span, (∀ argument ∈ arguments, P argument) →
      P (call name overloads arguments span))
    (onMember : ∀ object field span, P object → P (member object field span)) : ∀ e, P e
  | literal value => onLiteral value
  | reference name span => onReference name span
  | call name overloads arguments span =>
    onCall name overloads arguments span fun argument _ =>
      induct onLiteral onReference onCall onMember argument
  | member object field span =>
    onMember object field span (induct onLiteral onReference onCall onMember object)

/-- The same expression at other places, which no function that it calls looks at. -/
inductive Alike : Expression → Expression → Prop
  | literal (value : Value) : Alike (literal value) (literal value)
  | reference (name : String) (span other : Span) : Alike (reference name span) (reference name other)
  | call {name : String} {overloads : List Overload} {firsts seconds : List Expression}
      (span other : Span) : Overload.IgnorePlaces overloads → List.Forall₂ Alike firsts seconds →
      Alike (call name overloads firsts span) (call name overloads seconds other)
  | member {first second : Expression} (field : String) (span other : Span) :
      Alike first second → Alike (member first field span) (member second field other)

theorem argumentTexts_eq {firsts seconds : List Expression} (defers : Nat → Bool)
    (h : List.Forall₂ (fun first second => first.toText = second.toText) firsts seconds)
    (index : Nat) : argumentTexts defers index firsts = argumentTexts defers index seconds := by
  induction h generalizing index with
  | nil => rfl
  | cons same _ ih => simp only [argumentTexts, same, ih]

theorem Alike.toText_eq {first second : Expression} (h : first.Alike second) :
    first.toText = second.toText := by
  induction first using induct generalizing second with
  | onLiteral value =>
    cases h
    rfl
  | onReference name span =>
    cases h
    rfl
  | onCall name overloads arguments span ih =>
    cases h with
    | call _ other _ all =>
      have each := (List.forall₂_and_left _ _).mpr ⟨ih, all⟩
      rw [toText, toText, argumentTexts_eq _ (each.imp fun _ _ h => h.1 h.2)]
  | onMember object field span ih =>
    cases h with
    | member _ _ other alike => rw [toText, toText, ih alike]

section Evaluation

variable {resolver : Resolver} {context : Context}

theorem prepare_alike {firsts seconds : List Expression} (defers : Nat → Bool)
    (h : List.Forall₂ (fun first second => Outcome Eq (first.evaluate resolver context).outcome
      (second.evaluate resolver context).outcome) firsts seconds) (index : Nat) :
    Outcome (List.Forall₂ Pending.Alike) (prepare resolver context defers index firsts).outcome
      (prepare resolver context defers index seconds).outcome := by
  induction h generalizing index with
  | nil => exact .ok .nil
  | @cons first second _ _ same _ ih =>
    rw [prepare, prepare]
    have once : Outcome Pending.Alike
        (if defers index then pure (.waiting first.sketch fun _ => evaluate resolver context first)
          else Pending.ready <$> evaluate resolver context first : Run Pending).outcome
        (if defers index then pure (.waiting second.sketch fun _ => evaluate resolver context second)
          else Pending.ready <$> evaluate resolver context second : Run Pending).outcome := by
      cases defers index with
      | true => exact .ok (.waiting _ _ same)
      | false => exact same.bind fun v w h => h ▸ .ok (.ready v)
    apply once.bind
    intro a b alike
    apply (ih (index + 1)).bind
    intro as bs all
    exact .ok (.cons alike all)

theorem project_alike (field : String) (span other : Span) (value : Value) :
    Outcome Eq (project field span value) (project field other value) := by
  unfold project
  split
  · split
    · exact .ok rfl
    · exact .error rfl
  · exact .error rfl

theorem Alike.evaluate {first second : Expression} (h : first.Alike second) :
    Outcome Eq (first.evaluate resolver context).outcome
      (second.evaluate resolver context).outcome := by
  induction first using induct generalizing second with
  | onLiteral value =>
    cases h
    exact .ok rfl
  | onReference name span =>
    cases h with
    | reference _ _ other =>
      rw [Expression.evaluate, Expression.evaluate, Run.ask, Run.ask]
      cases resolver name with
      | some value => exact .ok rfl
      | none => exact .error rfl
  | onCall name overloads arguments span ih =>
    cases h with
    | call _ other ignore all =>
      have each := (List.forall₂_and_left _ _).mpr ⟨ih, all⟩
      rw [Expression.evaluate, Expression.evaluate]
      apply (prepare_alike _ (each.imp fun _ _ h => h.1 h.2) 0).bind
      intro pending others alike
      exact Call.perform_moved ignore alike ⟨name, span, context⟩ other
  | onMember object field span ih =>
    cases h with
    | member _ _ other alike =>
      rw [Expression.evaluate, Expression.evaluate]
      apply (ih alike).bind
      rintro value _ rfl
      exact project_alike field span other value

end Evaluation

section Compile

variable {bindings : Bindings} {token other : Token}

theorem literal?_eq_of_alike (alike : token.Alike other) : token.literal? = other.literal? := by
  rw [Token.literal?, Token.literal?, alike.1, alike.2]

theorem callee_of_alike (alike : token.Alike other) {count : Nat} {found : String × Error.Cause}
    (h : callee bindings token count = .ok found) : callee bindings other count = .ok found := by
  unfold callee at h ⊢
  rw [← alike.1, ← alike.2]
  split at h
  · dsimp only at h ⊢
    split at h
    · exact h
    · cases h
  · exact h
  · exact h
  · exact h
  · cases h

theorem compiled_alike_all {trees others : List Tree} {expressions : List Expression}
    (h : List.Forall₂ (fun tree e => ∀ other : Tree, tree.Alike other →
      ∃ again, Compiled bindings other again ∧ e.Alike again) trees expressions)
    (alike : List.Forall₂ Tree.Alike trees others) :
    ∃ again, List.Forall₂ (Compiled bindings) others again ∧
      List.Forall₂ Alike expressions again := by
  induction h generalizing others with
  | nil =>
    cases alike
    exact ⟨[], .nil, .nil⟩
  | cons first _ ih =>
    cases alike with
    | cons same rest =>
      obtain ⟨e, compiled, alike⟩ := first _ same
      obtain ⟨es, compiledRest, alikeRest⟩ := ih rest
      exact ⟨e :: es, .cons compiled compiledRest, .cons alike alikeRest⟩

/-- Trees of the same structure are compiled to expressions that differ in their places only. -/
theorem Compiled.alike {first second : Tree} {e : Expression}
    (ignore : ∀ name count overloads, bindings.functions.find? name count = some overloads →
      Overload.IgnorePlaces overloads)
    (h : Compiled bindings first e) (alike : first.Alike second) :
    ∃ other, Compiled bindings second other ∧ e.Alike other := by
  induction first using Tree.induct generalizing second e with
  | build token children ih =>
    obtain ⟨other, others⟩ := second
    obtain ⟨⟨sameKind, sameText⟩, all⟩ := Tree.alike_node.mp alike
    cases h with
    | number isNumber denotes =>
      exact ⟨_, .number (sameKind ▸ isNumber) (sameText ▸ denotes), .literal _⟩
    | text isText denotes =>
      exact ⟨_, .text (sameKind ▸ isText) (literal?_eq_of_alike ⟨sameKind, sameText⟩ ▸ denotes),
        .literal _⟩
    | constant isName found =>
      exact ⟨_, .constant (sameKind ▸ isName) (sameText ▸ found), .literal _⟩
    | unbound isName missing =>
      refine ⟨_, .unbound (sameKind ▸ isName) (sameText ▸ missing), ?_⟩
      rw [sameText]
      exact .reference _ _ _
    | @member _ field objectTree object isField isName compiled =>
      cases all with
      | cons sameObject rest =>
        cases rest with
        | @cons _ fieldTree _ _ sameField none =>
          cases none
          obtain ⟨otherField, fieldChildren⟩ := fieldTree
          obtain ⟨same, noChildren⟩ := Tree.alike_node.mp sameField
          cases noChildren
          obtain ⟨again, compiledAgain, alikeAgain⟩ := ih objectTree (by simp) compiled sameObject
          refine ⟨_, .member (sameKind ▸ isField) (same.1 ▸ isName) compiledAgain, ?_⟩
          rw [same.2]
          exact .member _ _ _ alikeAgain
    | @call _ _ name missing overloads arguments isCall calls bound compiled =>
      have calls := callee_of_alike ⟨sameKind, sameText⟩ calls
      have found := bind_eq_ok_iff_found.mp bound
      have bound : bind bindings other name children.length missing = .ok overloads :=
        bind_eq_ok_iff_found.mpr found
      rw [all.length_eq] at calls bound
      have each : List.Forall₂ (fun tree e => ∀ other : Tree, tree.Alike other →
          ∃ again, Compiled bindings other again ∧ e.Alike again) children arguments :=
        ((List.forall₂_and_left _ _).mpr ⟨ih, compiled⟩).imp fun _ _ h _ => h.1 h.2
      obtain ⟨again, compiledAgain, alikeAgain⟩ := compiled_alike_all each all
      exact ⟨_, .call (sameKind ▸ isCall) calls bound compiledAgain,
        .call _ _ (ignore _ _ _ found.1) alikeAgain⟩

end Compile

end Expression

end Formulary
