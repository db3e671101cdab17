import Formulary.Proofs.Expression.Given
import Mathlib.Data.List.Forall2

set_option autoImplicit false

/-!
# What an implementation receives

Whether an argument is deferred is for the first overload of a call to say, and what types and validators
it has to meet for the overload that is selected. The implementation of the latter then receives values
wherever the former asks for them, and these meet its own signature; the other arguments it receives
unevaluated, even where its own signature asks for values.
-/

namespace Formulary

namespace Signature

variable {signature : Signature} {arguments : List Argument} {index : Nat} {argument : Argument}

theorem acceptsArgument_of_accepts (h : signature.accepts arguments = true)
    (isArgument : arguments[index]? = some argument) :
    signature.acceptsArgument index argument = true := by
  have all := List.all_eq_true.mp (Bool.and_eq_true_iff.mp h).2
  exact all (argument, index) (List.mk_mem_zipIdx_iff_getElem?.mpr isArgument)

theorem complaints_eq_nil (h : signature.allComplaints arguments = [])
    (isArgument : arguments[index]? = some argument) :
    signature.complaints index argument = [] :=
  List.flatMap_eq_nil_iff.mp h (argument, index) (List.mk_mem_zipIdx_iff_getElem?.mpr isArgument)

theorem exists_param (h : signature.acceptsArgument index argument = true) :
    ∃ param, signature.param? index = some param := by
  unfold acceptsArgument at h
  cases isParam : signature.param? index with
  | none => simp [isParam] at h
  | some param => exact ⟨param, rfl⟩

/-- A value that is accepted without complaint has the type of its parameter and passes its validators. -/
theorem meets_of_value {param : Param} {v : Value} (isParam : signature.param? index = some param)
    (accepted : signature.acceptsArgument index (.value v) = true)
    (quiet : signature.complaints index (.value v) = []) :
    param.type.accepts v.type = true ∧ ∀ validator ∈ param.validators, validator v = none := by
  simp only [acceptsArgument, complaints, isParam, List.filterMap_eq_nil_iff] at accepted quiet
  exact ⟨accepted, quiet⟩

end Signature

namespace Overload

variable {overloads others : List Overload} {overload : Overload} {arguments : List Argument}

theorem accepts_of_select? (h : select? overloads arguments = some overload) :
    overload.signature.accepts arguments = true := by
  unfold select? at h
  simpa using List.find?_some h

/-- Of two lists with the same signatures, overloads at the same place are selected. -/
theorem select?_forall₂ {R : Overload → Overload → Prop}
    (h : List.Forall₂ (fun one other => one.signature = other.signature ∧ R one other) overloads others)
    (arguments : List Argument) :
    select? overloads arguments = none ∧ select? others arguments = none ∨
      ∃ one other, select? overloads arguments = some one ∧ select? others arguments = some other ∧
        one.signature = other.signature ∧ R one other := by
  induction h with
  | nil => exact .inl ⟨rfl, rfl⟩
  | @cons one other _ _ same _ ih =>
    unfold select? at ih ⊢
    rw [List.find?_cons, List.find?_cons, ← same.1]
    cases one.signature.accepts arguments with
    | true => exact .inr ⟨one, other, rfl, rfl, same⟩
    | false => exact ih

/-- Only the body that is selected, where no validator complains, has a part in dispatching. -/
theorem dispatch_congr {call : Call}
    (h : List.Forall₂ (fun one other => one.signature = other.signature ∧
      (select? overloads arguments = some one → one.signature.allComplaints arguments = [] →
        one.body call arguments = other.body call arguments)) overloads others) :
    dispatch overloads call arguments = dispatch others call arguments := by
  unfold dispatch
  rcases select?_forall₂ h arguments with ⟨none, otherNone⟩ | ⟨one, other, isOne, isOther, same, bodies⟩
  · rw [none, otherNone]
  · rw [isOne, isOther]
    dsimp only
    rw [← same]
    cases complaints : one.signature.allComplaints arguments with
    | nil => exact bodies isOne complaints
    | cons first rest => rfl

theorem defers_congr {R : Overload → Overload → Prop}
    (h : List.Forall₂ (fun one other => one.signature = other.signature ∧ R one other) overloads others) :
    defers overloads = defers others := by
  funext index
  cases h with
  | nil => rfl
  | cons same _ => simp [defers, same.1]

end Overload

namespace Expression

variable {resolver : Resolver} {context : Context} {overloads : List Overload}
  {arguments : List Expression}

/-- Evaluating a call runs the implementation of one of its overloads on the arguments as given: they have
been prepared, the overload is the one that is selected for them, and no validator of it complains. -/
structure Invokes (resolver : Resolver) (context : Context) (overloads : List Overload)
    (arguments : List Expression) (overload : Overload) (given : List Argument) : Prop where
  prepared : ∃ pending, (prepare resolver context (Overload.defers overloads) 0 arguments).outcome =
    .ok pending ∧ Pending.toArguments pending = given
  selected : Overload.select? overloads given = some overload
  passes : overload.signature.allComplaints given = []

theorem Invokes.gives {overload : Overload} {given : List Argument}
    (h : Invokes resolver context overloads arguments overload given) :
    ∃ collected, Gives resolver context (Overload.defers overloads) 0 arguments collected ∧
      Given.toArguments 0 collected = given := by
  obtain ⟨pending, prepared, rfl⟩ := h.prepared
  rw [prepare_eq_give, map_eq_pure_bind] at prepared
  obtain ⟨collected, given, same⟩ := Run.outcome_bind_eq_ok_iff.mp prepared
  cases same
  exact ⟨collected, gives_of_give given, (Given.toArguments_toPending collected).symm⟩

theorem Invokes.receives {overload : Overload} {given : List Argument}
    (h : Invokes resolver context overloads arguments overload given) {index : Nat}
    (inside : index < arguments.length) :
    ∃ param, overload.signature.param? index = some param ∧
      (Overload.defers overloads index = false →
        ∃ v, given[index]? = some (.value v) ∧
          (arguments[index].evaluate resolver context).outcome = .ok v ∧
          param.type.accepts v.type = true ∧ ∀ validator ∈ param.validators, validator v = none) ∧
      (Overload.defers overloads index = true →
        given[index]? = some (.deferred index arguments[index].sketch)) := by
  obtain ⟨collected, gives, rfl⟩ := h.gives
  obtain ⟨whenDeferred, whenEager⟩ := gives.getElem? inside
  rw [Nat.zero_add] at whenDeferred whenEager
  have accepts : overload.signature.accepts (Given.toArguments 0 collected) = true :=
    Overload.accepts_of_select? h.selected
  have isGiven : ∀ one, collected[index]? = some one →
      (Given.toArguments 0 collected)[index]? = some (one.toArgument index) := by
    intro one same
    rw [Given.getElem?_toArguments, same, Option.map_some]
  cases deferred : Overload.defers overloads index with
  | true =>
    have given := isGiven _ (whenDeferred deferred)
    obtain ⟨param, isParam⟩ :=
      Signature.exists_param (Signature.acceptsArgument_of_accepts accepts given)
    exact ⟨param, isParam, by simp, fun _ => given⟩
  | false =>
    obtain ⟨v, same, evaluated⟩ := whenEager deferred
    have given := isGiven _ same
    have accepted := Signature.acceptsArgument_of_accepts accepts given
    obtain ⟨param, isParam⟩ := Signature.exists_param accepted
    have meets :=
      Signature.meets_of_value isParam accepted (Signature.complaints_eq_nil h.passes given)
    exact ⟨param, isParam, fun _ => ⟨v, given, evaluated, meets⟩, by simp⟩

/-- Evaluating a call depends on implementations only by what they do where they are invoked. -/
theorem evaluate_call_congr {others : List Overload} {name : String} {span : Span}
    (h : List.Forall₂ (fun one other => one.signature = other.signature ∧
      ∀ given, Invokes resolver context overloads arguments one given →
        one.body ⟨name, span, context⟩ given = other.body ⟨name, span, context⟩ given) overloads others) :
    (call name overloads arguments span).evaluate resolver context =
      (call name others arguments span).evaluate resolver context := by
  rw [evaluate, evaluate, ← Overload.defers_congr h]
  apply Run.bind_congr
  intro pending prepared
  unfold Call.perform
  rw [Overload.dispatch_congr (h.imp ?_)]
  rintro one other ⟨same, bodies⟩
  exact ⟨same, fun selected passes => bodies _ ⟨⟨pending, prepared, rfl⟩, selected, passes⟩⟩

/-- Where the first overload asks for values, the implementation that is invoked receives values, of types
that its own parameters accept and that pass their validators; where the first overload defers, it receives
the argument unevaluated. No implementation is run but one that is invoked in this way. -/
theorem invokes_receives (resolver : Resolver) (context : Context) (name : String)
    (overloads : List Overload) (arguments : List Expression) (span : Span) :
    (∀ overload given, Invokes resolver context overloads arguments overload given →
      overload ∈ overloads ∧ given.length = arguments.length ∧
      ∀ (index : Nat) (inside : index < arguments.length),
        ∃ param, overload.signature.param? index = some param ∧
          (Overload.defers overloads index = false →
            ∃ v, given[index]? = some (.value v) ∧
              (arguments[index].evaluate resolver context).outcome = .ok v ∧
              param.type.accepts v.type = true ∧
              ∀ validator ∈ param.validators, validator v = none) ∧
          (Overload.defers overloads index = true →
            given[index]? = some (.deferred index arguments[index].sketch))) ∧
    ∀ others, List.Forall₂ (fun one other => one.signature = other.signature ∧
        ∀ given, Invokes resolver context overloads arguments one given →
          one.body ⟨name, span, context⟩ given = other.body ⟨name, span, context⟩ given) overloads others →
      (call name overloads arguments span).evaluate resolver context =
        (call name others arguments span).evaluate resolver context := by
  constructor
  · intro overload given invoked
    obtain ⟨collected, gives, isGiven⟩ := invoked.gives
    have length : given.length = arguments.length := by
      rw [← isGiven, Given.length_toArguments, gives.length_eq]
    have member := List.mem_of_find?_eq_some invoked.selected
    exact ⟨member, length, fun index inside => invoked.receives inside⟩
  · intro others same
    exact evaluate_call_congr same

/-- Two overloads take their first argument unevaluated and differ in the type of the second, which the
one that is invoked receives as a value. -/
theorem invokes_receives_text :
    let number : Overload := ⟨{ params := [Param.any.lazily, .only .number] }, fun call _ => call.unsupported⟩
    let text : Overload := ⟨{ params := [Param.any.lazily, .only .text] }, fun _ _ => pure .null⟩
    let arguments := [reference "x" (.whole "x"), literal (.text "y")]
    ∃ given, Invokes (fun _ => none) {} [number, text] arguments text given ∧
      given[0]? = some (.deferred 0 (.reference "x" (.whole "x"))) ∧
      ∃ v, given[1]? = some (.value v) ∧ ParamType.accepts (.only .text) v.type = true := by
  intro number text arguments
  have invoked : Invokes (fun _ => none) {} [number, text] arguments text
      [.deferred 0 (.reference "x" (.whole "x")), .value (.text "y")] := ⟨⟨_, rfl, rfl⟩, rfl, rfl⟩
  obtain ⟨-, -, receives⟩ :=
    (invokes_receives (fun _ => none) {} "f" [number, text] arguments (.whole "f")).1 _ _ invoked
  obtain ⟨_, -, -, unevaluated⟩ := receives 0 (by decide)
  obtain ⟨param, isParam, evaluated, -⟩ := receives 1 (by decide)
  obtain ⟨v, isGiven, -, accepted, -⟩ := evaluated rfl
  obtain rfl : Param.only .text = param := Option.some.inj isParam
  exact ⟨_, invoked, unevaluated rfl, v, isGiven, accepted⟩

/-- Where the first overload of a call defers an argument, another one receives it unevaluated for a
parameter that asks for a number. -/
theorem invokes_unevaluated :
    ¬∀ (resolver : Resolver) (context : Context) (overloads : List Overload)
        (arguments : List Expression) (overload : Overload) (given : List Argument),
      (∀ one ∈ overloads, one.signature.acceptsCount arguments.length = true) →
      Invokes resolver context overloads arguments overload given →
      ∀ index param, index < arguments.length → overload.signature.param? index = some param →
        param.deferred = false →
        ∃ v, given[index]? = some (.value v) ∧ param.type.accepts v.type = true ∧
          ∀ validator ∈ param.validators, validator v = none := by
  intro receives
  let deferring : Overload :=
    ⟨{ params := [Param.any.lazily, .only .number] }, fun call _ => call.unsupported⟩
  let eager : Overload := ⟨{ params := [.only .number, .only .text] }, fun _ _ => pure .null⟩
  have invoked : Invokes (fun _ => none) {} [deferring, eager] [literal (.text "x"), literal (.text "y")]
      eager [.deferred 0 (.literal (.text "x")), .value (.text "y")] := ⟨⟨_, rfl, rfl⟩, rfl, rfl⟩
  have counts : ∀ one ∈ [deferring, eager], one.signature.acceptsCount 2 = true := by
    simp only [List.forall_mem_cons, List.not_mem_nil, false_implies, implies_true, and_true]
    exact ⟨rfl, rfl⟩
  obtain ⟨v, isValue, -⟩ := receives _ _ _ _ _ _ counts invoked 0 (.only .number) (by decide) rfl rfl
  cases isValue

end Expression

end Formulary
