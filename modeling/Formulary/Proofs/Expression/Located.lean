import Formulary.Proofs.Expression.Faults
import Formulary.Proofs.Expression.Queries
import Formulary.Proofs.Function.Errors

set_option autoImplicit false

/-!
# Where errors of compiling and evaluating stand

A tree cannot be compiled for the sake of one of its nodes, and a compiled expression has the places of
its tree. So whatever holds of the places of all nodes holds of the place of the error, provided that no
function of the expression has errors of its own elsewhere.
-/

namespace Formulary.Expression

open Formulary.Tree

variable {bindings : Bindings} {resolver : Resolver} {context : Context} {P : Span → Prop}

section Compile

theorem ofLiteral_error_span {token : Token} {value : Option Value} {e : Error}
    (h : ofLiteral token value = .error e) : e.span = token.span := by
  cases value <;> cases h
  rfl

theorem callee_error_span {token : Token} {count : Nat} {e : Error}
    (h : callee bindings token count = .error e) : e.span = token.span := by
  unfold callee at h
  split at h
  case h_1 =>
    dsimp only at h
    split at h <;> cases h
    rfl
  case h_5 =>
    cases h
    rfl
  all_goals cases h

theorem bind_error_span {token : Token} {name : String} {count : Nat} {missing : Error.Cause} {e : Error}
    (h : bind bindings token name count missing = .error e) : e.span = token.span := by
  obtain ⟨-, same⟩ := bind_eq_error_iff_unbound.mp h
  cases same
  rfl

/-- A tree that cannot be compiled has a node that is the place of the error. -/
theorem ofTree_error_span {tree : Tree} {e : Error} (placed : ∀ part ∈ tree.nodes, P part.token.span)
    (h : ofTree bindings tree = .error e) : P e.span := by
  induction tree using Tree.induct with
  | build token children ih =>
    obtain ⟨here, below⟩ := forall_mem_nodes_node.mp placed
    have own : e.span = token.span → P e.span := fun same => same ▸ here
    unfold ofTree at h
    split at h
    case h_1 =>
      rcases Stacks.bind_eq_error_iff.mp h with panics | ⟨_, _, failed⟩
      · cases eq_panic_of_numberLiteral panics
      · exact own (ofLiteral_error_span failed)
    case h_2 => exact own (ofLiteral_error_span h)
    case h_3 =>
      dsimp only at h
      split at h <;> cases h
    case h_4 object field fieldChildren isField =>
      split at h
      · rcases Stacks.bind_eq_error_iff.mp h with failed | ⟨_, _, result⟩
        · exact ih object (by simp) (below object (by simp)) failed
        · cases result
      · cases h
        exact below (node field fieldChildren) (by simp) _ (self_mem_nodes _)
    case h_5 =>
      rcases Stacks.bind_eq_error_iff.mp h with failed | ⟨⟨name, missing⟩, _, h⟩
      · exact own (callee_error_span failed)
      rcases Stacks.bind_eq_error_iff.mp h with failed | ⟨overloads, _, h⟩
      · exact own (bind_error_span failed)
      rcases Stacks.bind_eq_error_iff.mp h with failed | ⟨_, _, result⟩
      · obtain ⟨child, isChild, failed⟩ := exists_of_ofTrees_eq_error failed
        exact ih child isChild (below child isChild) failed
      · cases result

end Compile

/-- All that can fail in an expression has a place with the property. -/
inductive Placed (P : Span → Prop) : Expression → Prop
  | literal (value : Value) : Placed P (literal value)
  | reference (name : String) {span : Span} : P span → Placed P (reference name span)
  | call (name : String) (overloads : List Overload) {arguments : List Expression} {span : Span} :
      P span → (∀ argument ∈ arguments, Placed P argument) →
      Placed P (call name overloads arguments span)
  | member {object : Expression} (field : String) {span : Span} :
      P span → Placed P object → Placed P (member object field span)

theorem Compiled.placed {tree : Tree} {e : Expression} (h : Compiled bindings tree e)
    (placed : ∀ part ∈ tree.nodes, P part.token.span) : e.Placed P := by
  induction tree using Tree.induct generalizing e with
  | build token children ih =>
    obtain ⟨here, below⟩ := forall_mem_nodes_node.mp placed
    cases h with
    | number | text | constant => exact .literal _
    | unbound => exact .reference _ here
    | @member _ field objectTree object _ _ compiled =>
      have atField : P field.span := below (leaf field) (by simp) _ (self_mem_nodes _)
      exact .member _ atField (ih objectTree (by simp) compiled (below objectTree (by simp)))
    | call _ _ _ compiled =>
      refine .call _ _ here fun argument member => ?_
      obtain ⟨child, isChild, compiled⟩ := exists_tree_of_mem compiled member
      exact ih child isChild compiled (below child isChild)

section Evaluation

/-- The overloads of each call relay errors. -/
def CallsRelay : Expression → Prop :=
  Calls fun _ overloads _ => ∀ overload ∈ overloads, overload.body.Relays

theorem project_error_span {field : String} {span : Span} {v : Value} {e : Error}
    (h : project field span v = .error e) : e.span = span := by
  unfold project at h
  split at h
  · split at h <;> cases h
    rfl
  · cases h
    rfl

theorem give_error {defers : Nat → Bool} {arguments : List Expression} {index : Nat} {e : Error}
    (h : (give resolver context defers index arguments).outcome = .error e) :
    ∃ argument ∈ arguments, (argument.evaluate resolver context).outcome = .error e := by
  induction arguments generalizing index with
  | nil => cases h
  | cons argument rest ih =>
    have later : (give resolver context defers (index + 1) rest).outcome = .error e →
        ∃ other ∈ argument :: rest, (other.evaluate resolver context).outcome = .error e := by
      intro failed
      obtain ⟨other, member, failed⟩ := ih failed
      exact ⟨other, List.mem_cons_of_mem _ member, failed⟩
    have mapped : ∀ given : Given,
        ((given :: ·) <$> give resolver context defers (index + 1) rest).outcome = .error e →
          (give resolver context defers (index + 1) rest).outcome = .error e := by
      intro given failed
      rw [Run.outcome_map] at failed
      exact Lexer.map_eq_error failed
    cases deferred : defers index with
    | true =>
      rw [give_cons_of_deferred deferred] at h
      exact later (mapped _ h)
    | false =>
      rw [give_cons_of_eager deferred, Run.outcome_bind] at h
      rcases Stacks.bind_eq_error_iff.mp h with failed | ⟨v, _, failed⟩
      · exact ⟨argument, List.mem_cons_self, failed⟩
      · exact later (mapped _ failed)

/-- What fails in an evaluation is placed like the expression. -/
theorem evaluate_error_span {e : Expression} {failure : Error} (placed : e.Placed P) (relay : e.CallsRelay)
    (h : (e.evaluate resolver context).outcome = .error failure) : P failure.span := by
  induction e using induct with
  | onLiteral value => cases h
  | onReference name span =>
    cases placed with
    | reference _ here =>
      rw [evaluate, Run.ask] at h
      split at h <;> cases h
      exact here
  | onCall name overloads arguments span ih =>
    cases placed with
    | call _ _ here below =>
    cases relay with
    | call _ _ own inner =>
    have each : ∀ argument ∈ arguments, (argument.evaluate resolver context).outcome = .error failure →
        P failure.span := fun argument member failed =>
      ih argument member (below argument member) (inner argument member) failed
    rw [evaluate_call, Run.outcome_bind] at h
    rcases Stacks.bind_eq_error_iff.mp h with failed | ⟨given, isGiven, failed⟩
    · obtain ⟨argument, member, failed⟩ := give_error failed
      exact each argument member failed
    · have relays := Overload.dispatch_relays own ⟨name, span, context⟩ (Given.toArguments 0 given)
      rcases relays.error_of_run failed with atCall | ⟨index, failed⟩
      · exact atCall ▸ here
      -- The error is the answer to a question, so it is that of an argument which is deferred.
      · unfold Given.answer at failed
        rcases (gives_of_give isGiven).found_cases index with found | ⟨v, found⟩ | ⟨argument, member, found⟩ <;>
          rw [found] at failed
        · cases failed
          exact here
        · cases failed
        · exact each argument member failed
  | onMember object field span ih =>
    cases placed with
    | member _ here below =>
    cases relay with
    | member _ _ inner =>
    rw [evaluate, Run.outcome_bind] at h
    rcases Stacks.bind_eq_error_iff.mp h with failed | ⟨v, _, failed⟩
    · exact ih below inner failed
    · exact project_error_span failed ▸ here

end Evaluation

end Formulary.Expression
