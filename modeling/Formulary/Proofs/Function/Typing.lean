import Formulary.Proofs.Expression.Invocation
import Formulary.Proofs.Function.Plans

set_option autoImplicit false

/-!
# Implementations that suit their signatures

A plan suits a signature if it can handle all arguments of the number and the types that the signature asks
for, and has results of one type. Whether the arguments pass the validators has no part in it. A deferred
argument may turn out not to be of the type of its parameter; only from then on may the plan end for want of
support.
-/

namespace Formulary

/-- Arguments that match the signature, and are values where it does not defer. -/
structure Signature.Admits (signature : Signature) (arguments : List Argument) : Prop where
  accepts : signature.accepts arguments = true
  eager : ∀ index place sketch, arguments[index]? = some (.deferred place sketch) →
    (signature.param? index).any (·.deferred) = true

/-- A deferred argument comes to a value that is not of the type of its parameter. -/
def Signature.Surprises (signature : Signature) (arguments : List Argument) (evaluate : Nat → Run Value) :
    Prop :=
  ∃ place param index sketch v, signature.param? place = some param ∧ param.deferred = true ∧
    arguments[place]? = some (.deferred index sketch) ∧ (evaluate index).outcome = .ok v ∧
    param.type.accepts v.type = false

theorem Argument.deferred_of_error {argument : Argument} {evaluate : Nat → Run Value} {e : Error}
    (failed : (argument.evaluate.run evaluate).outcome = .error e) :
    ∃ index sketch, argument = .deferred index sketch ∧ (evaluate index).outcome = .error e := by
  cases argument with
  | value v => cases failed
  | deferred index sketch => exact ⟨index, sketch, rfl, failed⟩

namespace Plan

/-- The plan suits the parameters from a place on, unless it is excused from supporting what it meets. -/
def Suits (signature : Signature) (count : Nat) (type? : Option ValueType) :
    Bool → Nat → Plan Value → Prop
  | _, _, done (.ok v) => ∀ type ∈ type?, v.type = type
  | excused, _, done (.error cause) => cause = .unsupportedTypes → excused = true
  | excused, place, take next => place < count ∧
    ∀ param, signature.param? place = some param → ∀ v,
      (param.type.accepts v.type = true → Suits signature count type? excused (place + 1) (next v)) ∧
      (param.type.accepts v.type = false → param.deferred = true →
        Suits signature count type? true (place + 1) (next v))
  | excused, place, skip rest => place < count ∧ Suits signature count type? excused (place + 1) rest

section Run

variable {signature : Signature} {type? : Option ValueType} {excused : Bool} {plan : Plan Value}
  {call : Call} {arguments : List Argument} {evaluate : Nat → Run Value}

/-- The first of the remaining arguments is evaluated. What comes of it suits its parameter, or it is a
deferred one that does not. -/
theorem Suits.next {next : Value → Plan Value} {place : Nat} {argument : Argument}
    (admitted : signature.Admits arguments) (isArgument : arguments[place]? = some argument)
    (suits : (take next).Suits signature arguments.length type? excused place) {v : Value}
    (evaluated : (argument.evaluate.run evaluate).outcome = .ok v) :
    (next v).Suits signature arguments.length type? excused (place + 1) ∨
      signature.Surprises arguments evaluate ∧
        (next v).Suits signature arguments.length type? true (place + 1) := by
  have accepted := Signature.acceptsArgument_of_accepts admitted.accepts isArgument
  obtain ⟨param, isParam⟩ := Signature.exists_param accepted
  obtain ⟨whenAccepted, whenNot⟩ := suits.2 param isParam v
  cases isAccepted : param.type.accepts v.type with
  | true => exact .inl (whenAccepted isAccepted)
  | false =>
    cases argument with
    | value w =>
      obtain rfl : w = v := Except.ok.inj evaluated
      simp [Signature.acceptsArgument, isParam, isAccepted] at accepted
    | deferred index sketch =>
      have deferred : param.deferred = true := by
        simpa [isParam] using admitted.eager place index sketch isArgument
      exact .inr ⟨⟨place, param, index, sketch, v, isParam, deferred, isArgument, evaluated, isAccepted⟩,
        whenNot isAccepted deferred⟩

/-- An end for want of support is that of a deferred argument or comes after a surprise, and results are of
the type, if there is one. -/
def Delivers (signature : Signature) (arguments : List Argument) (evaluate : Nat → Run Value)
    (type? : Option ValueType) (excused : Bool) : Except Error Value → Prop
  | .ok v => ∀ type ∈ type?, v.type = type
  | .error e => e.cause = .unsupportedTypes →
    (excused = true ∨ signature.Surprises arguments evaluate) ∨
      ∃ index sketch, .deferred index sketch ∈ arguments ∧ (evaluate index).outcome = .error e

theorem Delivers.of_surprise {outcome : Except Error Value}
    (h : Delivers signature arguments evaluate type? true outcome)
    (surprised : signature.Surprises arguments evaluate) :
    Delivers signature arguments evaluate type? excused outcome := by
  cases outcome with
  | ok v => exact h
  | error e => exact fun _ => .inl (.inr surprised)

theorem Suits.delivers (admitted : signature.Admits arguments) {place : Nat}
    (suits : plan.Suits signature arguments.length type? excused place) :
    Delivers signature arguments evaluate type? excused
      ((plan.perform call (arguments.drop place)).run evaluate).outcome := by
  induction plan generalizing excused place with
  | done result =>
    cases result with
    | ok v => exact suits
    | error cause => exact fun unsupported => .inl (.inl (suits unsupported))
  | skip rest ih =>
    rw [List.drop_eq_getElem_cons suits.1]
    exact ih suits.2
  | take next ih =>
    have inside : place < arguments.length := suits.1
    have isArgument := List.getElem?_eq_getElem inside
    rw [List.drop_eq_getElem_cons inside, perform_take]
    change Delivers _ _ _ _ _ ((Routine.bind _ _).run evaluate).outcome
    rw [Routine.run_bind]
    change Delivers _ _ _ _ _ (_ >>= _ : Run Value).outcome
    rw [Run.outcome_bind]
    cases evaluated : (arguments[place].evaluate.run evaluate).outcome with
    | error e =>
      obtain ⟨index, sketch, isDeferred, failed⟩ := Argument.deferred_of_error evaluated
      exact fun _ => .inr ⟨index, sketch, List.mem_of_getElem? (isDeferred ▸ isArgument), failed⟩
    | ok v =>
      rcases suits.next admitted isArgument evaluated with suits | ⟨surprised, suits⟩
      · exact ih v suits
      · exact (ih v suits).of_surprise surprised

end Run

section Steps

variable {signature : Signature} {count place : Nat} {type? : Option ValueType} {type : ValueType}
  {excused : Bool}

theorem suits_ok {v : Value} (typed : v.type = type) :
    (ok v).Suits signature count (some type) excused place :=
  fun _ same => typed.trans (Option.some.inj same)

theorem suits_ok_any (v : Value) : (ok v).Suits signature count none excused place :=
  fun _ impossible => nomatch impossible

theorem suits_fail {cause : Error.Cause} (supported : cause ≠ .unsupportedTypes) :
    (fail cause).Suits signature count type? excused place :=
  fun unsupported => absurd unsupported supported

theorem suits_arithmetic (result : Except ArithmeticError Decimal) :
    (arithmetic result).Suits signature count (some .number) excused place := by
  cases result with
  | ok x => exact suits_ok rfl
  | error e => exact suits_fail (by simp)

theorem suits_orRaise {α : Type} {message : String} {result : Option α} {next : α → Plan Value}
    (each : ∀ a ∈ result, (next a).Suits signature count type? excused place) :
    (orRaise message result next).Suits signature count type? excused place := by
  cases result with
  | none => exact suits_fail (by simp)
  | some a => exact each a rfl

/-- The value of an argument that is not deferred has the type of its parameter. -/
theorem suits_take {param : Param} {next : Value → Plan Value} (inside : place < count)
    (isParam : signature.param? place = some param) (eager : param.deferred = false)
    (each : ∀ v, param.type.accepts v.type = true →
      (next v).Suits signature count type? excused (place + 1)) :
    (take next).Suits signature count type? excused place := by
  refine ⟨inside, fun other isOther v => ?_⟩
  obtain rfl : param = other := Option.some.inj (isParam.symm.trans isOther)
  exact ⟨each v, fun _ deferred => absurd (eager.symm.trans deferred) Bool.false_ne_true⟩

theorem suits_take_ok (inside : place < count) :
    (take ok).Suits signature count none excused place :=
  ⟨inside, fun _ _ v => ⟨fun _ => suits_ok_any v, fun _ _ => suits_ok_any v⟩⟩

theorem suits_number {next : Decimal → Plan Value} (inside : place < count)
    (isNumber : (signature.param? place).map (·.type) = some (.only .number))
    (each : ∀ x, (next x).Suits signature count type? excused (place + 1)) :
    (number next).Suits signature count type? excused place := by
  refine ⟨inside, fun param isParam v => ?_⟩
  have typed : param.type = .only .number := by simpa [isParam] using isNumber
  rw [typed]
  cases v with
  | number x => exact ⟨fun _ => each x, fun refused _ => (by cases refused)⟩
  | _ => exact ⟨fun accepted => (by cases accepted), fun _ _ _ => rfl⟩

theorem suits_boolean {next : Bool → Plan Value} (inside : place < count)
    (isBoolean : (signature.param? place).map (·.type) = some (.only .boolean))
    (each : ∀ b, (next b).Suits signature count type? excused (place + 1)) :
    (boolean next).Suits signature count type? excused place := by
  refine ⟨inside, fun param isParam v => ?_⟩
  have typed : param.type = .only .boolean := by simpa [isParam] using isBoolean
  rw [typed]
  cases v with
  | boolean b => exact ⟨fun _ => each b, fun refused _ => (by cases refused)⟩
  | _ => exact ⟨fun accepted => (by cases accepted), fun _ _ _ => rfl⟩

theorem suits_integer {next : Int → Plan Value} (inside : place < count)
    (isNumber : (signature.param? place).map (·.type) = some (.only .number))
    (each : ∀ n, (next n).Suits signature count type? excused (place + 1)) :
    (integer next).Suits signature count type? excused place := by
  refine suits_number inside isNumber fun x => ?_
  split
  · exact each _
  · exact suits_fail (by simp)

theorem suits_integers {amount : Nat} {next : List Int → Plan Value}
    (inside : place + amount ≤ count)
    (areNumbers : ∀ other < count, (signature.param? other).map (·.type) = some (.only .number))
    (each : ∀ parts, (next parts).Suits signature count type? excused (place + amount)) :
    (integers amount next).Suits signature count type? excused place := by
  induction amount generalizing place next with
  | zero => exact each []
  | succ amount ih =>
    refine suits_integer (by omega) (areNumbers place (by omega)) fun n => ?_
    refine ih (by omega) fun parts => ?_
    rw [Nat.add_right_comm]
    exact each (n :: parts)

end Steps

end Plan

/-- The implementation follows a plan that suits the signature. -/
def Implementation.Suits (body : Implementation) (signature : Signature) (type? : Option ValueType) : Prop :=
  ∃ strategy, body.Follows strategy ∧ ∀ name context count, signature.acceptsCount count = true →
    (strategy name context count).Suits signature count type? false 0

theorem Implementation.Suits.delivers {body : Implementation} {signature : Signature}
    {type? : Option ValueType} (h : body.Suits signature type?) (call : Call) {arguments : List Argument}
    (admitted : signature.Admits arguments) (evaluate : Nat → Run Value) :
    Plan.Delivers signature arguments evaluate type? false
      ((body call arguments).run evaluate).outcome := by
  obtain ⟨strategy, follows, suits⟩ := h
  have counted : signature.acceptsCount arguments.length = true :=
    (Bool.and_eq_true_iff.mp admitted.accepts).1
  rw [follows, ← List.drop_zero (l := arguments)]
  exact Plan.Suits.delivers admitted (suits _ _ _ counted)

end Formulary
