import Formulary.Engine
import Formulary.Proofs.Expression.Queries

set_option autoImplicit false

/-!
# What is not selected

A choice among expressions evaluates what it selects, so anything may stand in place of the rest. The
variables there are not asked for, whatever they are.
-/

namespace Formulary

namespace Library

def chooses : Overload :=
  ⟨{ params := [.only .boolean, Param.any.lazily, Param.any.lazily] }, choose⟩

def firstOfAll : Overload :=
  ⟨{ variadic := some Param.any.lazily }, fun _ => firstPresent⟩

variable {name : String} {count : Nat} {overloads : List Overload}

theorem eq_of_find? {other : String} (known : List Overload)
    (isKnown : standard.find? other count = some known) (same : Text.upper name = Text.upper other)
    (found : standard.find? name count = some overloads) : overloads = known := by
  rw [FunctionTable.find?_congr _ same, isKnown] at found
  exact (Option.some.inj found).symm

theorem overloads_of_coalesce (same : Text.upper name = Text.upper "COALESCE")
    (found : standard.find? name count = some overloads) : overloads = [firstOfAll] := by
  have known : standard.overloads "COALESCE" = [firstOfAll] := by rfl
  rw [FunctionTable.find?_congr _ same] at found
  obtain ⟨nonempty, rfl⟩ := FunctionTable.find?_eq_some_iff.mp found
  rw [known] at nonempty ⊢
  exact List.filter_eq_self.mpr fun one member => by
    obtain rfl := List.mem_singleton.mp member
    by_contra rejects
    simp [rejects] at nonempty

end Library

namespace Expression

variable {resolver : Resolver} {context : Context}

/-- Arguments of a call that differ where the call does not select them: the other branch of a condition,
the second of two conditions where the first one decides, and all that comes after a value that is not
null. -/
inductive Unselected (resolver : Resolver) (context : Context) (name : String) :
    List Expression → List Expression → Prop
  | ifTrue {condition selected one other : Expression} : Text.upper name = Text.upper "IF" →
      (condition.evaluate resolver context).outcome = .ok (.boolean true) →
      Unselected resolver context name [condition, selected, one] [condition, selected, other]
  | ifFalse {condition selected one other : Expression} : Text.upper name = Text.upper "IF" →
      (condition.evaluate resolver context).outcome = .ok (.boolean false) →
      Unselected resolver context name [condition, one, selected] [condition, other, selected]
  | and {condition one other : Expression} : Text.upper name = Text.upper "infix &&" →
      (condition.evaluate resolver context).outcome = .ok (.boolean false) →
      Unselected resolver context name [condition, one] [condition, other]
  | or {condition one other : Expression} : Text.upper name = Text.upper "infix ||" →
      (condition.evaluate resolver context).outcome = .ok (.boolean true) →
      Unselected resolver context name [condition, one] [condition, other]
  | coalesce {before rest others : List Expression} {present : Expression} {v : Value} :
      Text.upper name = Text.upper "COALESCE" →
      (present.evaluate resolver context).outcome = .ok v → v.isNull = false →
      Unselected resolver context name (before ++ present :: rest) (before ++ present :: others)

/-- Expressions that differ, at one call inside of them, in what the call does not select. -/
inductive Diverts (resolver : Resolver) (context : Context) : Expression → Expression → Prop
  | here {name : String} {arguments others : List Expression} (overloads : List Overload) (span : Span) :
      Unselected resolver context name arguments others →
      Diverts resolver context (call name overloads arguments span) (call name overloads others span)
  | argument {argument other : Expression} (name : String) (overloads : List Overload)
      (before after : List Expression) (span : Span) : Diverts resolver context argument other →
      Diverts resolver context (call name overloads (before ++ argument :: after) span)
        (call name overloads (before ++ other :: after) span)
  | object {object other : Expression} (field : String) (span : Span) :
      Diverts resolver context object other →
      Diverts resolver context (member object field span) (member other field span)

/-- What comes of a call if its first argument has a value and all others are deferred. -/
def performDeferred (resolver : Resolver) (call : Call) (overloads : List Overload) (first : Value)
    (rest : List Expression) : Run Value :=
  call.perform overloads (.ready first :: rest.map fun e => .waiting e.sketch fun _ =>
    e.evaluate resolver call.context)

section Deferred

variable {name : String} {overloads : List Overload} {first : Expression} {rest others : List Expression}
  {span : Span}

theorem evaluate_call_of_deferred (eager : Overload.defers overloads 0 = false)
    (all : ∀ place, 1 ≤ place → place < 1 + rest.length → Overload.defers overloads place = true) :
    (call name overloads (first :: rest) span).evaluate resolver context =
      first.evaluate resolver context >>= fun v =>
        performDeferred resolver ⟨name, span, context⟩ overloads v rest := by
  rw [evaluate, prepare_eq_give, give_cons_of_eager eager, give_of_deferred all]
  simp only [map_eq_pure_bind, bind_assoc]
  apply Run.bind_congr
  intro v _
  change Call.perform _ _ (.ready v :: (rest.map .deferred).map (Given.toPending resolver context)) = _
  rw [List.map_map]
  rfl

/-- If the value of the first argument leads to the same run, so do all calls with this argument. -/
theorem evaluate_call_of_first {v : Value} (eager : Overload.defers overloads 0 = false)
    (all : ∀ place, 1 ≤ place → place < 1 + rest.length → Overload.defers overloads place = true)
    (length : others.length = rest.length) (isFirst : (first.evaluate resolver context).outcome = .ok v)
    (same : performDeferred resolver ⟨name, span, context⟩ overloads v others =
      performDeferred resolver ⟨name, span, context⟩ overloads v rest) :
    (call name overloads (first :: others) span).evaluate resolver context =
      (call name overloads (first :: rest) span).evaluate resolver context := by
  rw [evaluate_call_of_deferred eager all, evaluate_call_of_deferred eager (length ▸ all)]
  apply Run.bind_congr
  intro w isValue
  rw [isFirst] at isValue
  obtain rfl := Except.ok.inj isValue
  exact same

end Deferred

theorem defers_shortCircuit (body : Implementation) (place : Nat) (after : 1 ≤ place)
    (inside : place < 2) : Overload.defers [⟨Library.shortCircuit, body⟩] place = true := by
  obtain rfl : place = 1 := by omega
  rfl

theorem defers_chooses (place : Nat) (after : 1 ≤ place) (inside : place < 3) :
    Overload.defers [Library.chooses] place = true := by
  obtain rfl | rfl : place = 1 ∨ place = 2 := by omega
  · rfl
  · rfl

/-- Evaluates one expression after the other until there is a value that is not null. -/
def evaluateFirst (resolver : Resolver) (context : Context) : List Expression → Run Value
  | [] => .ok .null
  | e :: rest => do
    let v ← e.evaluate resolver context
    if v.isNull then evaluateFirst resolver context rest else return v

theorem run_firstPresent {answer : Nat → Run Value} {arguments : List Expression} (start : Nat)
    (answers : ∀ (index : Nat) (inside : index < arguments.length),
      answer (start + index) = arguments[index].evaluate resolver context) :
    (Library.firstPresent (Given.toArguments start (arguments.map .deferred))).run answer =
      evaluateFirst resolver context arguments := by
  induction arguments generalizing start with
  | nil => rfl
  | cons argument rest ih =>
    have asks : Routine.run answer (Argument.deferred start argument.sketch).evaluate =
        argument.evaluate resolver context := by
      have here := answers 0 (Nat.zero_lt_succ _)
      rw [Nat.add_zero] at here
      simp [Argument.evaluate, Routine.run, here]
    have later := ih (start + 1) fun index inside => by
      have there := answers (index + 1) (Nat.succ_lt_succ inside)
      rwa [← Nat.add_assoc, Nat.add_right_comm] at there
    have unfolded := Routine.run_bind answer (Argument.deferred start argument.sketch).evaluate fun v =>
      if v.isNull then Library.firstPresent (Given.toArguments (start + 1) (rest.map .deferred))
      else pure v
    refine unfolded.trans ?_
    rw [asks, evaluateFirst]
    apply Run.bind_congr
    intro v _
    split
    · exact later
    · rfl

theorem dispatch_firstOfAll {call : Call} {arguments : List Argument} (nonempty : arguments ≠ []) :
    Overload.dispatch [Library.firstOfAll] call arguments = Library.firstPresent arguments := by
  have accepts : Library.firstOfAll.signature.accepts arguments = true := by
    refine Bool.and_eq_true_iff.mpr ⟨?_, List.all_eq_true.mpr ?_⟩
    · exact decide_eq_true (List.length_pos_iff.mpr nonempty)
    · rintro ⟨argument, index⟩ _
      cases argument <;> rfl
  have quiet : Library.firstOfAll.signature.allComplaints arguments = [] := by
    refine List.flatMap_eq_nil_iff.mpr ?_
    rintro ⟨argument, index⟩ _
    cases argument <;> rfl
  simp only [Overload.dispatch, Overload.select?, List.find?_cons, accepts, quiet]
  rfl

theorem evaluate_coalesce {name : String} {arguments : List Expression} {span : Span}
    (nonempty : arguments ≠ []) :
    (call name [Library.firstOfAll] arguments span).evaluate resolver context =
      evaluateFirst resolver context arguments := by
  have all : give resolver context (Overload.defers [Library.firstOfAll]) 0 arguments =
      .ok (arguments.map .deferred) := give_of_deferred fun place _ _ => rfl
  have given : Given.toArguments 0 (arguments.map .deferred) ≠ [] := by
    simpa [← List.length_pos_iff] using nonempty
  have answers : ∀ (index : Nat) (inside : index < arguments.length),
      Given.answer resolver ⟨name, span, context⟩ (arguments.map .deferred) (0 + index) =
        arguments[index].evaluate resolver context := by
    intro index inside
    simp [Given.answer, inside, Given.evaluate]
  rw [evaluate_call, all, ← run_firstPresent 0 answers, ← dispatch_firstOfAll given]
  rfl

theorem evaluateFirst_present {rest : List Expression} {present : Expression} {v : Value}
    (isPresent : (present.evaluate resolver context).outcome = .ok v) (notNull : v.isNull = false)
    (before others : List Expression) :
    evaluateFirst resolver context (before ++ present :: others) =
      evaluateFirst resolver context (before ++ present :: rest) := by
  induction before with
  | nil =>
    apply Run.bind_congr
    intro w same
    rw [isPresent] at same
    obtain rfl := Except.ok.inj same
    simp [notNull]
  | cons first before ih => rw [List.cons_append, List.cons_append, evaluateFirst, evaluateFirst, ih]

/-- What a call does not select has no part in it. -/
theorem evaluate_unselected {name : String} {overloads : List Overload}
    {arguments others : List Expression} {span : Span}
    (h : Unselected resolver context name arguments others)
    (found : Library.standard.find? name arguments.length = some overloads) :
    (call name overloads others span).evaluate resolver context =
      (call name overloads arguments span).evaluate resolver context := by
  cases h with
  | ifTrue same isTrue =>
    obtain rfl := Library.eq_of_find? [Library.chooses] rfl same found
    exact evaluate_call_of_first rfl defers_chooses rfl isTrue rfl
  | ifFalse same isFalse =>
    obtain rfl := Library.eq_of_find? [Library.chooses] rfl same found
    exact evaluate_call_of_first rfl defers_chooses rfl isFalse rfl
  | and same isFalse =>
    obtain rfl := Library.eq_of_find? [⟨Library.shortCircuit, Library.and⟩] rfl same found
    exact evaluate_call_of_first rfl (defers_shortCircuit _) rfl isFalse rfl
  | or same isTrue =>
    obtain rfl := Library.eq_of_find? [⟨Library.shortCircuit, Library.or⟩] rfl same found
    exact evaluate_call_of_first rfl (defers_shortCircuit _) rfl isTrue rfl
  | coalesce same isPresent notNull =>
    obtain rfl := Library.overloads_of_coalesce same found
    rw [evaluate_coalesce (by simp), evaluate_coalesce (by simp)]
    exact evaluateFirst_present isPresent notNull _ _

/-- The other expression asks for the same variables and comes to the same. -/
def SameIn (resolver : Resolver) (context : Context) (e other : Expression) : Prop :=
  other.evaluate resolver context = e.evaluate resolver context

/-- What is given looks the same to an implementation that only evaluates it, and comes to the same. -/
structure Given.SameIn (resolver : Resolver) (context : Context) (given other : Given) : Prop where
  asks : ∀ index, (given.toArgument index).evaluate = (other.toArgument index).evaluate
  comes : other.evaluate resolver context = given.evaluate resolver context

namespace Given

variable {given others : List Given}

theorem toArguments_same (h : List.Forall₂ (SameIn resolver context) given others) (start : Nat) :
    (toArguments start given).map Argument.evaluate = (toArguments start others).map Argument.evaluate := by
  induction h generalizing start with
  | nil => rfl
  | cons same _ ih => simp only [toArguments, List.map_cons, same.asks, ih]

theorem answer_same {call : Call} (h : List.Forall₂ (SameIn resolver call.context) given others) :
    answer resolver call others = answer resolver call given := by
  funext index
  induction h generalizing index with
  | nil => rfl
  | cons same _ ih =>
    cases index with
    | zero => exact same.comes
    | succ index => exact ih index

end Given

section Congruence

variable {defers : Nat → Bool} {arguments others : List Expression}

/-- Arguments that come to the same are given alike, whatever is done then. -/
theorem bind_give_congr {α : Type} (each : List.Forall₂ (SameIn resolver context) arguments others)
    {index : Nat} {next further : List Given → Run α}
    (same : ∀ given givenToo, Gives resolver context defers index arguments given →
      List.Forall₂ (Given.SameIn resolver context) given givenToo → further givenToo = next given) :
    give resolver context defers index others >>= further =
      give resolver context defers index arguments >>= next := by
  induction each generalizing index next further with
  | nil =>
    apply Run.bind_congr
    intro given isGiven
    cases isGiven
    exact same [] [] (.nil index) .nil
  | cons first _ ih =>
    cases deferred : defers index with
    | true =>
      rw [give_cons_of_deferred deferred, give_cons_of_deferred deferred, bind_map_left, bind_map_left]
      exact ih fun given givenToo gives all =>
        same _ _ (.deferred deferred gives) (.cons ⟨fun _ => rfl, first⟩ all)
    | false =>
      rw [give_cons_of_eager deferred, give_cons_of_eager deferred, bind_assoc, bind_assoc, first]
      refine Run.bind_congr fun v evaluated => ?_
      rw [bind_map_left, bind_map_left]
      exact ih fun given givenToo gives all =>
        same _ _ (.value deferred evaluated gives) (.cons ⟨fun _ => rfl, rfl⟩ all)

theorem evaluate_call_same {name : String} {overloads : List Overload} {span : Span}
    (only : Overload.OnlyEvaluate overloads)
    (each : List.Forall₂ (SameIn resolver context) arguments others) :
    (call name overloads arguments span).SameIn resolver context (call name overloads others span) := by
  rw [SameIn, evaluate_call, evaluate_call]
  refine bind_give_congr each fun given givenToo gives all => ?_
  rw [Given.answer_same all, ← gives.dispatch_congr only _ (Given.toArguments_same all 0)]

end Congruence

/-- Anything may stand in a place that is not selected: the same variables are asked for, and the value or
error is the same. -/
theorem evaluate_diverts {e other : Expression} (h : Diverts resolver context e other)
    (bound : e.Bound (.ofLayers (.single Library.standard))) :
    other.evaluate resolver context = e.evaluate resolver context := by
  induction h with
  | here overloads span unselected =>
    cases bound with
    | call _ _ found _ => exact evaluate_unselected unselected found
  | argument name overloads before after span _ ih =>
    cases bound with
    | call _ _ found each =>
      have unchanged (arguments : List Expression) :
          List.Forall₂ (SameIn resolver context) arguments arguments :=
        List.forall₂_same.mpr fun _ _ => rfl
      refine evaluate_call_same (Library.onlyEvaluate_standard _ _ _ found) ?_
      exact List.rel_append (unchanged before) (.cons (ih (each _ (by simp))) (unchanged after))
  | object field span _ ih =>
    cases bound with
    | member _ _ object => rw [evaluate, evaluate, ih object]

/-- What an expression of the standard functions asks for is found among its variables from left to right.
Its value or error, and all it asks for, is for the answers to decide; what stands in places that are not
selected has no part in it. -/
theorem evaluate_asks (operators : Operators) (constants : List (String × Value)) (tree : Tree)
    (e : Expression)
    (compiled : ofTree ⟨operators, .ofLayers (.single Library.standard), constants⟩ tree = .ok e)
    (context : Context) (resolver : Resolver) :
    (e.evaluate resolver context).asked.Sublist e.names ∧
      (∀ other : Resolver, (∀ name ∈ (e.evaluate resolver context).asked, other name = resolver name) →
        e.evaluate other context = e.evaluate resolver context) ∧
      ∀ other, Diverts resolver context e other →
        other.evaluate resolver context = e.evaluate resolver context := by
  have bound := (compiled_of_ofTree compiled).bound
  refine ⟨asked_sublist (bound.imp fun _ _ _ => Library.orderly_of_find?) resolver context, ?_, ?_⟩
  · exact evaluate_determined e context resolver
  · exact fun other diverts => evaluate_diverts diverts bound

/-- Where the condition holds the last branch is not asked for, and a constant may stand in its place. -/
theorem evaluate_asks_condition :
    let leaf := fun name : String => Tree.leaf ⟨.name, .whole name⟩
    let tree := Tree.node ⟨.function, .whole "if"⟩ [leaf "a", leaf "b", leaf "c"]
    let resolver : Resolver := fun name => if name = "a" then some (.boolean true) else none
    let named := fun name : String => reference name (.whole name)
    let formula := fun last : Expression =>
      call "if" [Library.chooses] [named "a", named "b", last] (.whole "if")
    ofTree (Engine.bindings {}) tree = .ok (formula (named "c")) ∧
      ((formula (named "c")).evaluate resolver {}).asked = ["a", "b"] ∧
      ["a", "b"].Sublist (formula (named "c")).names ∧
      (formula (named "c")).evaluate (fun name => if name = "b" then none else some (.boolean true)) {} =
        (formula (named "c")).evaluate resolver {} ∧
      (formula (literal .null)).evaluate resolver {} =
        (formula (named "c")).evaluate resolver {} := by
  intro leaf tree resolver named formula
  obtain ⟨inOrder, determined, unselected⟩ := evaluate_asks (.ofLayers (.single .standard))
    Library.constants tree (formula (named "c")) rfl {} resolver
  have asked : ((formula (named "c")).evaluate resolver {}).asked = ["a", "b"] := by rfl
  rw [asked] at inOrder determined
  refine ⟨rfl, asked, inOrder, determined _ ?_, unselected _ (.here _ _ (.ifTrue rfl rfl))⟩
  simp [resolver]

end Expression

end Formulary
