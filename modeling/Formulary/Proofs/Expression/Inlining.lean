import Formulary.Proofs.Expression.Alike
import Formulary.Proofs.Expression.Calls
import Formulary.Proofs.Expression.Given

set_option autoImplicit false

/-!
# Constants in the place of variables

A new constant is put in the place of the variables of its name when a tree is compiled. The expression
then comes to what it comes to without the constant, if a resolver answers for these variables.
-/

namespace Formulary

/-- Answers with a value for the names of an upper case, and as before otherwise. -/
def Resolver.answering (resolver : Resolver) (key : String) (v : Value) : Resolver :=
  fun name => if Text.upper name = key then some v else resolver name

def Bindings.withConstant (bindings : Bindings) (key : String) (v : Value) : Bindings :=
  { bindings with constants := (key, v) :: bindings.constants }

/-- What comes of a routine depends on the outcomes of the arguments alone. -/
theorem Routine.outcome_congr {α : Type} {evaluate other : Nat → Run Value} (routine : Routine α)
    (same : ∀ index, (evaluate index).outcome = (other index).outcome) :
    (routine.run evaluate).outcome = (routine.run other).outcome := by
  induction routine with
  | done result => rfl
  | force index next ih =>
    simp only [Routine.run, same index]
    exact ih _

namespace Expression

mutual

/-- A value in the place of the variables whose name has the upper case `key`. -/
def inline (key : String) (v : Value) : Expression → Expression
  | literal w => literal w
  | reference name span => if Text.upper name = key then literal v else reference name span
  | call name overloads arguments span => call name overloads (inlineAll key v arguments) span
  | member object field span => member (inline key v object) field span

def inlineAll (key : String) (v : Value) : List Expression → List Expression
  | [] => []
  | e :: rest => inline key v e :: inlineAll key v rest

end

theorem inlineAll_eq (key : String) (v : Value) (arguments : List Expression) :
    inlineAll key v arguments = arguments.map (inline key v) := by
  induction arguments with
  | nil => rfl
  | cons argument rest ih => rw [inlineAll, ih, List.map_cons]

section Compile

variable {bindings : Bindings} {key : String} {v : Value}

theorem ofTrees_withConstant {trees : List Tree}
    (each : ∀ tree ∈ trees,
      ofTree (bindings.withConstant key v) tree = (ofTree bindings tree).map (inline key v)) :
    ofTrees (bindings.withConstant key v) trees =
      (ofTrees bindings trees).map (List.map (inline key v)) := by
  induction trees with
  | nil => rfl
  | cons tree trees ih =>
    obtain ⟨first, others⟩ := List.forall_mem_cons.mp each
    rw [ofTrees, ofTrees, first, ih others]
    cases ofTree bindings tree with
    | error e => rfl
    | ok one => cases ofTrees bindings trees <;> rfl

theorem inline_ofLiteral (key : String) (v : Value) (token : Token) (value : Option Value) :
    ofLiteral token value = (ofLiteral token value).map (inline key v) := by
  cases value <;> rfl

/-- A tree is compiled as before, or fails as before, but for the variables of the name. -/
theorem ofTree_withConstant (fresh : bindings.constants.lookup key = none) (tree : Tree) :
    ofTree (bindings.withConstant key v) tree = (ofTree bindings tree).map (inline key v) := by
  induction tree using Tree.induct with
  | build token children ih =>
    unfold ofTree
    split
    next number =>
      dsimp only
      cases numberLiteral token.span.text with
      | error e => rfl
      | ok value => exact inline_ofLiteral key v token _
    next text => exact inline_ofLiteral key v token _
    next name =>
      simp only [Bindings.withConstant, List.lookup_cons]
      by_cases same : Text.upper token.span.text = key
      · simp [same, fresh, Except.map, inline]
      · have other : (Text.upper token.span.text == key) = false := beq_eq_false_iff_ne.mpr same
        rw [other]
        cases bindings.constants.lookup (Text.upper token.span.text) with
        | some w => rfl
        | none => simp [Except.map, inline, same]
    next object _ _ field =>
      dsimp only
      split
      next plain =>
        rw [ih object (by simp)]
        cases ofTree bindings object <;> rfl
      next => rfl
    next =>
      have calls : callee (bindings.withConstant key v) token = callee bindings token := rfl
      have binds : bind (bindings.withConstant key v) token = bind bindings token := rfl
      simp only [calls, binds, ofTrees_withConstant ih]
      rcases callee bindings token _ with e | ⟨name, missing⟩
      · rfl
      dsimp only [Bind.bind, Except.bind]
      rcases Expression.bind bindings token name _ missing with e | overloads
      · rfl
      rcases ofTrees bindings _ with e | arguments
      · rfl
      dsimp only [Except.map, Pure.pure, Except.pure]
      rw [inline, inlineAll_eq]

end Compile

section Evaluation

variable {resolver : Resolver} {context : Context} {defers : Nat → Bool} {key : String} {v : Value}

namespace Given

def inline (key : String) (v : Value) : Given → Given
  | value w => value w
  | deferred argument => deferred (argument.inline key v)

theorem toArguments_inline (given : List Given) (start : Nat) :
    (toArguments start (given.map (inline key v))).map Argument.evaluate =
      (toArguments start given).map Argument.evaluate := by
  induction given generalizing start with
  | nil => rfl
  | cons given rest ih =>
    simp only [List.map_cons, toArguments, ih]
    cases given <;> rfl

end Given

theorem outcome_give_inline {arguments : List Expression}
    (each : ∀ argument ∈ arguments, ((argument.inline key v).evaluate resolver context).outcome =
      (argument.evaluate (resolver.answering key v) context).outcome) (index : Nat) :
    (give resolver context defers index (arguments.map (inline key v))).outcome =
      (give (resolver.answering key v) context defers index arguments).outcome.map
        (List.map (Given.inline key v)) := by
  induction arguments generalizing index with
  | nil => rfl
  | cons argument rest ih =>
    obtain ⟨first, others⟩ := List.forall_mem_cons.mp each
    have later := ih others (index + 1)
    rw [List.map_cons]
    cases deferred : defers index with
    | true =>
      rw [give_cons_of_deferred deferred, give_cons_of_deferred deferred, Run.outcome_map,
        Run.outcome_map, later]
      generalize (give _ _ _ _ rest).outcome = outcome
      cases outcome <;> rfl
    | false =>
      rw [give_cons_of_eager deferred, give_cons_of_eager deferred, Run.outcome_bind, Run.outcome_bind,
        first]
      simp only [Run.outcome_map, later]
      generalize (argument.evaluate _ _).outcome = evaluated
      generalize (give _ _ _ _ rest).outcome = outcome
      cases evaluated with
      | error e => rfl
      | ok w => cases outcome <;> rfl

/-- A value in the place of variables makes the difference that an answer for them does, unless something is
done with expressions but to evaluate them. -/
theorem evaluate_inline {e : Expression} (only : e.CallsOnlyEvaluate) :
    ((e.inline key v).evaluate resolver context).outcome =
      (e.evaluate (resolver.answering key v) context).outcome := by
  induction e using induct with
  | onLiteral w => rfl
  | onReference name span =>
    rw [inline, evaluate, Run.ask, Resolver.answering]
    split
    · rfl
    · rfl
  | onCall name overloads arguments span ih =>
    cases only with
    | call _ _ here inner =>
    have each := fun argument member => ih argument member (inner argument member)
    rw [inline, inlineAll_eq, evaluate_call, evaluate_call, Run.outcome_bind, Run.outcome_bind,
      outcome_give_inline each 0]
    cases isGiven : (give (resolver.answering key v) context (Overload.defers overloads) 0
        arguments).outcome with
    | error e => rfl
    | ok given =>
      have gives := gives_of_give isGiven
      dsimp only [Except.map, Except.bind]
      rw [← gives.dispatch_congr here _ (Given.toArguments_inline given 0).symm]
      apply Routine.outcome_congr
      intro index
      unfold Given.answer
      rw [List.getElem?_map]
      rcases gives.found_cases index with found | ⟨w, found⟩ | ⟨argument, member, found⟩ <;> rw [found]
      · rfl
      · rfl
      · exact each argument member
  | onMember object field span ih =>
    cases only with
    | member _ _ inner =>
    rw [inline, evaluate, evaluate, Run.outcome_bind, Run.outcome_bind, ih inner]

end Evaluation

end Expression

end Formulary
