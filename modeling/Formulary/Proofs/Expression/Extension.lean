import Formulary.Proofs.Expression.Located
import Formulary.Proofs.Function.Layering

set_option autoImplicit false

/-!
# Overloads behind those that are there

A call runs the first of its overloads that accepts the arguments, and the first one of all says which
arguments are deferred. Further overloads behind them only have a part in calls that no overload accepts, and
a call of functions that relay errors fails with these.
-/

namespace Formulary

/-- No overload accepts the arguments, or the one that does cannot handle them. -/
def Error.Unsupported (e : Error) : Prop :=
  e.cause = .unsupportedTypes

/-- There is no operator or function to be called. -/
def Error.Undefined (e : Error) : Prop :=
  (∃ role text, e.cause = .undefinedOperator role text) ∨
    ∃ name count, e.cause = .undefinedFunction name count

/-- An error with the property, and not a panic. -/
def Failure.Is (P : Error → Prop) (failure : Failure) : Prop :=
  ∃ e, failure = .error e ∧ P e

theorem Failure.is_error_iff {P : Error → Prop} {e : Error} : Is P e ↔ P e := by
  simp [Is]

theorem Kept.lift {α β : Type} {R : α → β → Prop} {lost may : Error → Prop} {x : Except Error α}
    {y : Except Error β} (h : Kept lost R x y) (weaker : ∀ e, lost e → may e) :
    Kept (Failure.Is may) R (Failure.lift x) (Failure.lift y) := by
  cases h with
  | ok related => exact .ok related
  | error e => exact .error _
  | lost _ known => exact .lost _ (Failure.is_error_iff.mpr (weaker _ known))

/-- A routine that relays errors is kept if the outcomes of the arguments are. -/
theorem Routine.Relays.run_kept {α : Type} {span : Span} {lost : Error → Prop} {routine : Routine α}
    (h : routine.Relays span) {evaluate other : Nat → Run Value}
    (answers : ∀ index, Kept lost Eq (evaluate index).outcome (other index).outcome) :
    Kept lost Eq (routine.run evaluate).outcome (routine.run other).outcome := by
  induction h with
  | ok => exact .refl _
  | error => exact .refl _
  | @force index next passes _ ih =>
    have kept := answers index
    simp only [run]
    generalize (evaluate index).outcome = answer at kept ⊢
    generalize (other index).outcome = otherAnswer at kept ⊢
    cases kept with
    | ok same => exact same ▸ ih _
    | error e =>
      simp only [passes, run]
      exact .error e
    | @lost e _ known =>
      simp only [passes, run]
      exact .lost _ known

namespace Overload

variable {overloads others : List Overload}

theorem defers_prefix (begins : overloads <+: others) (nonempty : overloads ≠ []) :
    defers others = defers overloads := by
  obtain ⟨more, rfl⟩ := begins
  cases overloads with
  | nil => exact absurd rfl nonempty
  | cons first rest => rfl

/-- What is selected stays selected. -/
theorem dispatch_kept (begins : overloads <+: others)
    (relay : ∀ overload ∈ overloads, overload.body.Relays) (call : Call) (arguments : List Argument)
    {evaluate other : Nat → Run Value}
    (answers : ∀ index, Kept Error.Unsupported Eq (evaluate index).outcome (other index).outcome) :
    Kept Error.Unsupported Eq ((dispatch overloads call arguments).run evaluate).outcome
      ((dispatch others call arguments).run other).outcome := by
  obtain ⟨more, rfl⟩ := begins
  cases selected : select? overloads arguments with
  | none =>
    have unsupported : dispatch overloads call arguments = call.unsupported := by
      rw [dispatch, selected]
    rw [unsupported]
    -- An overload behind these may accept the arguments, whatever it does then.
    exact .lost _ rfl
  | some overload =>
    have same : dispatch (overloads ++ more) call arguments = dispatch overloads call arguments := by
      have first : select? (overloads ++ more) arguments = some overload := by
        rw [select?, List.find?_append, ← select?, selected, Option.some_or]
      rw [dispatch, dispatch, first, selected]
    rw [same]
    exact (dispatch_relays relay call arguments).run_kept answers

end Overload

namespace Expression

/-- The same expression with further overloads behind those of its calls. -/
inductive Extends : Expression → Expression → Prop
  | literal (value : Value) : Extends (literal value) (literal value)
  | reference (name : String) (span : Span) : Extends (reference name span) (reference name span)
  | call {overloads others : List Overload} {firsts seconds : List Expression} (name : String)
      (span : Span) : overloads ≠ [] → overloads <+: others → List.Forall₂ Extends firsts seconds →
      Extends (call name overloads firsts span) (call name others seconds span)
  | member {object other : Expression} (field : String) (span : Span) :
      Extends object other → Extends (member object field span) (member other field span)

section Compile

variable {bindings : Bindings} {more : Functions}

theorem ofTrees_kept {trees : List Tree} (each : ∀ tree ∈ trees,
      Kept (Failure.Is Error.Undefined) Extends (ofTree bindings tree)
        (ofTree { bindings with functions := more } tree)) :
    Kept (Failure.Is Error.Undefined) (List.Forall₂ Extends) (ofTrees bindings trees)
      (ofTrees { bindings with functions := more } trees) := by
  induction trees with
  | nil => exact .ok .nil
  | cons tree trees ih =>
    obtain ⟨first, others⟩ := List.forall_mem_cons.mp each
    exact first.bind fun _ _ one => (ih others).bind fun _ _ rest => .ok (.cons one rest)

/-- What cannot be bound is the only thing that can become different when a call is bound. -/
theorem bind_kept (begins : bindings.functions.Begins more) {token : Token} {name : String} {count : Nat}
    {missing : Error.Cause} (undefined : (token.fails missing).Undefined) :
    Kept (Failure.Is Error.Undefined) (fun overloads others => overloads ≠ [] ∧ overloads <+: others)
      (bind bindings token name count missing)
      (bind { bindings with functions := more } token name count missing) := by
  cases bound : bind bindings token name count missing with
  | error e =>
    obtain ⟨-, rfl⟩ := bind_eq_error_iff_unbound.mp bound
    exact .lost _ (Failure.is_error_iff.mpr undefined)
  | ok overloads =>
    obtain ⟨found, nonempty⟩ := bind_eq_ok_iff_found.mp bound
    obtain ⟨others, isOthers, isPrefix⟩ := begins name count overloads found
    have boundToo : bind { bindings with functions := more } token name count missing = .ok others :=
      bind_eq_ok_iff_found.mpr ⟨isOthers, isPrefix.ne_nil nonempty⟩
    rw [boundToo]
    exact .ok ⟨nonempty, isPrefix⟩

theorem undefined_of_callee {token : Token} {count : Nat} {name : String} {missing : Error.Cause}
    (h : callee bindings token count = .ok (name, missing)) : (token.fails missing).Undefined := by
  unfold callee at h
  split at h
  case h_1 role _ =>
    dsimp only at h
    split at h <;> cases h
    exact .inl ⟨_, _, rfl⟩
  case h_5 => cases h
  all_goals
    cases h
    exact .inr ⟨_, _, rfl⟩

theorem ofLiteral_kept (token : Token) (value : Option Value) :
    Kept (Failure.Is Error.Undefined) Extends (ofLiteral token value) (ofLiteral token value) := by
  cases value with
  | none => exact .error _
  | some v => exact .ok (.literal v)

/-- Trees are compiled as before, or fail as before unless something was not defined. -/
theorem ofTree_kept (begins : bindings.functions.Begins more) (tree : Tree) :
    Kept (Failure.Is Error.Undefined) Extends (ofTree bindings tree)
      (ofTree { bindings with functions := more } tree) := by
  induction tree using Tree.induct with
  | build token children ih =>
    unfold ofTree
    split
    case h_1 => exact .bind_right _ fun _ => ofLiteral_kept token _
    case h_2 => exact ofLiteral_kept token _
    case h_3 =>
      dsimp only
      split
      · exact .ok (.literal _)
      · exact .ok (.reference _ _)
    case h_4 object field fieldChildren isField =>
      split
      · exact (ih object (by simp)).bind fun _ _ known => .ok (.member _ _ known)
      · exact .error _
    case h_5 =>
      have same : callee { bindings with functions := more } token = callee bindings token := rfl
      dsimp only
      rw [same]
      rcases calls : callee bindings token _ with e | ⟨name, missing⟩
      · exact .error e
      · refine (bind_kept begins (undefined_of_callee calls)).bind fun _ _ found => ?_
        obtain ⟨nonempty, isPrefix⟩ := found
        exact (ofTrees_kept ih).bind fun _ _ each => .ok (.call _ _ nonempty isPrefix each)

end Compile

section Evaluation

variable {resolver : Resolver} {context : Context} {defers : Nat → Bool}

/-- The outcome of the one expression is that of the other, unless it is not supported. -/
def KeptIn (resolver : Resolver) (context : Context) (e other : Expression) : Prop :=
  Kept Error.Unsupported Eq (e.evaluate resolver context).outcome (other.evaluate resolver context).outcome

namespace Given

/-- The same value, or deferred arguments of which the outcome is kept. -/
inductive KeptIn (resolver : Resolver) (context : Context) : Given → Given → Prop
  | value (v : Value) : KeptIn resolver context (value v) (value v)
  | deferred {argument other : Expression} : argument.KeptIn resolver context other →
      KeptIn resolver context (deferred argument) (deferred other)

variable {given others : List Given}

theorem toArguments_kept (h : List.Forall₂ (KeptIn resolver context) given others) (start : Nat) :
    (toArguments start given).map Argument.evaluate = (toArguments start others).map Argument.evaluate := by
  induction h generalizing start with
  | nil => rfl
  | cons first _ ih =>
    simp only [toArguments, List.map_cons, ih]
    cases first <;> rfl

theorem answer_kept (call : Call) (h : List.Forall₂ (KeptIn resolver call.context) given others)
    (index : Nat) : Kept Error.Unsupported Eq (answer resolver call given index).outcome
      (answer resolver call others index).outcome := by
  induction h generalizing index with
  | nil => exact .refl _
  | cons first _ ih =>
    cases index with
    | zero =>
      cases first with
      | value v => exact .refl _
      | deferred kept => exact kept
    | succ index => exact ih index

end Given

theorem give_kept {arguments others : List Expression}
    (each : List.Forall₂ (KeptIn resolver context) arguments others) (index : Nat) :
    Kept Error.Unsupported (List.Forall₂ (Given.KeptIn resolver context))
      (give resolver context defers index arguments).outcome
      (give resolver context defers index others).outcome := by
  induction each generalizing index with
  | nil => exact .ok .nil
  | cons first _ ih =>
    cases deferred : defers index with
    | true =>
      simp only [give_cons_of_deferred deferred, map_eq_pure_bind, Run.outcome_bind]
      exact (ih (index + 1)).bind fun _ _ rest => .ok (.cons (.deferred first) rest)
    | false =>
      simp only [give_cons_of_eager deferred, map_eq_pure_bind, Run.outcome_bind]
      refine first.bind fun v _ same => ?_
      subst same
      exact (ih (index + 1)).bind fun _ _ rest => .ok (.cons (.value v) rest)

/-- An extension comes to the same as the expression, provided that its functions relay errors and do nothing
but evaluate what is deferred. -/
theorem Extends.kept {e other : Expression} (h : e.Extends other) (relay : e.CallsRelay)
    (only : e.CallsOnlyEvaluate) : e.KeptIn resolver context other := by
  induction e using induct generalizing other with
  | onLiteral value =>
    cases h
    exact .refl _
  | onReference name span =>
    cases h
    exact .refl _
  | onCall name overloads arguments span ih =>
    cases h with
    | @call _ others _ seconds _ _ nonempty begins each =>
    cases relay with
    | call _ _ own inner =>
    cases only with
    | call _ _ plain innerOnly =>
    have every : ∀ argument ∈ arguments, ∀ other, argument.Extends other →
        argument.KeptIn resolver context other := fun argument member other extended =>
      ih argument member extended (inner argument member) (innerOnly argument member)
    have kept : List.Forall₂ (KeptIn resolver context) arguments seconds :=
      ((List.forall₂_and_left _ _).mpr ⟨every, each⟩).imp fun _ _ h => h.1 _ h.2
    rw [KeptIn, evaluate_call, evaluate_call, Overload.defers_prefix begins nonempty,
      Run.outcome_bind, Run.outcome_bind]
    refine (give_kept kept 0).bind_of_ok fun given givenToo isGiven related => ?_
    rw [(gives_of_give isGiven).dispatch_congr plain _ (Given.toArguments_kept related 0)]
    exact Overload.dispatch_kept begins own _ _ (Given.answer_kept ⟨name, span, context⟩ related)
  | onMember object field span ih =>
    cases h with
    | member _ _ extended =>
    cases relay with
    | member _ _ inner =>
    cases only with
    | member _ _ innerOnly =>
    rw [KeptIn, evaluate, evaluate, Run.outcome_bind, Run.outcome_bind]
    exact (ih extended inner innerOnly).bind fun _ _ same => same ▸ .refl _

end Evaluation

end Expression

end Formulary
