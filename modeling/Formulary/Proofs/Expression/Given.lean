import Formulary.Expression.Evaluation
import Formulary.Proofs.Function.Deferred
import Mathlib.Data.List.Forall2

set_option autoImplicit false

/-!
# What a call is given

When a call is performed each of its arguments is a value or an expression that is deferred. Which of
them it is does not depend on the values of variables, so runs with different resolvers can be compared
argument by argument. Other modules follow the evaluation of a call by `evaluate_call` and `Gives`.
-/

namespace Formulary

namespace Run

variable {α β : Type}

theorem outcome_bind (run : Run α) (f : α → Run β) :
    (run >>= f).outcome = run.outcome.bind fun a => (f a).outcome := by
  obtain ⟨asked, outcome⟩ := run
  cases outcome <;> rfl

theorem asked_map (f : α → β) (run : Run α) : (f <$> run).asked = run.asked := by
  obtain ⟨asked, outcome⟩ := run
  cases outcome with
  | error e => rfl
  | ok a => exact List.append_nil asked

theorem outcome_map (f : α → β) (run : Run α) : (f <$> run).outcome = run.outcome.map f := by
  obtain ⟨asked, outcome⟩ := run
  cases outcome <;> rfl

theorem outcome_bind_eq_ok_iff {run : Run α} {f : α → Run β} {b : β} :
    (run >>= f).outcome = .ok b ↔ ∃ a, run.outcome = .ok a ∧ (f a).outcome = .ok b := by
  rw [outcome_bind]
  cases run.outcome <;> simp [Except.bind]

/-- What is asked for after a run, if it succeeds. -/
theorem asked_bind_of_ok {run : Run α} {a : α} (f : α → Run β) (h : run.outcome = .ok a) :
    (run >>= f).asked = run.asked ++ (f a).asked := by
  obtain ⟨asked, outcome⟩ := run
  cases h
  rfl

theorem bind_congr {run : Run α} {f g : α → Run β} (h : ∀ a, run.outcome = .ok a → f a = g a) :
    run >>= f = run >>= g := by
  obtain ⟨asked, outcome⟩ := run
  cases outcome with
  | error e => rfl
  | ok a =>
    change (⟨asked ++ (f a).asked, (f a).outcome⟩ : Run β) = ⟨asked ++ (g a).asked, (g a).outcome⟩
    rw [h a rfl]

theorem asked_bind_of_error {run : Run α} {e : Error} (f : α → Run β) (h : run.outcome = .error e) :
    (run >>= f).asked = run.asked := by
  obtain ⟨asked, outcome⟩ := run
  cases h
  rfl

end Run

namespace Expression

variable {resolver : Resolver} {context : Context} {defers : Nat → Bool}

/-- An argument before its call is performed: its value, or the expression that is deferred. -/
inductive Given where
  | value (v : Value)
  | deferred (argument : Expression)

namespace Given

def toPending (resolver : Resolver) (context : Context) : Given → Pending
  | value v => .ready v
  | deferred argument => .waiting argument.sketch fun _ => argument.evaluate resolver context

def toArgument (index : Nat) : Given → Argument
  | value v => .value v
  | deferred argument => .deferred index argument.sketch

/-- The arguments as an implementation receives them, the first of which has the index `start`. -/
def toArguments (start : Nat) : List Given → List Argument
  | [] => []
  | given :: rest => given.toArgument start :: toArguments (start + 1) rest

def evaluate (resolver : Resolver) (context : Context) : Given → Run Value
  | value v => .ok v
  | deferred argument => argument.evaluate resolver context

/-- What comes of asking for an argument by its index. -/
def answer (resolver : Resolver) (call : Call) (given : List Given) (index : Nat) : Run Value :=
  match given[index]? with
  | some argument => argument.evaluate resolver call.context
  | none => .fail (call.error .unsupportedTypes)

theorem toArguments_eq (given : List Given) (start : Nat) :
    toArguments start given = (given.zipIdx start).map fun (g, index) => g.toArgument index := by
  induction given generalizing start with
  | nil => rfl
  | cons given rest ih => rw [toArguments, ih, List.zipIdx_cons, List.map_cons]

theorem getElem?_toArguments (given : List Given) (index : Nat) :
    (toArguments 0 given)[index]? = given[index]?.map (·.toArgument index) := by
  rw [toArguments_eq, List.getElem?_map, List.getElem?_zipIdx, Option.map_map, Nat.zero_add]
  rfl

@[simp] theorem length_toArguments (given : List Given) (start : Nat) :
    (toArguments start given).length = given.length := by
  rw [toArguments_eq, List.length_map, List.length_zipIdx]

theorem toArguments_values (start : Nat) (values : List Value) :
    toArguments start (values.map .value) = values.map .value := by
  induction values generalizing start with
  | nil => rfl
  | cons v values ih => exact congrArg _ (ih (start + 1))

theorem exists_of_deferred_mem {given : List Given} {start index : Nat} {sketch : Sketch}
    (member : .deferred index sketch ∈ toArguments start given) : ∃ argument, .deferred argument ∈ given := by
  rw [toArguments_eq] at member
  obtain ⟨⟨one, place⟩, isGiven, same⟩ := List.mem_map.mp member
  cases one with
  | value v => cases same
  | deferred argument => exact ⟨argument, List.fst_mem_of_mem_zipIdx isGiven⟩

theorem toArguments_toPending (given : List Given) :
    Pending.toArguments (given.map (toPending resolver context)) = toArguments 0 given := by
  rw [toArguments_eq, Pending.toArguments, List.zipIdx_map, List.map_map]
  apply List.map_congr_left
  rintro ⟨given, index⟩ _
  cases given <;> rfl

theorem perform_eq (call : Call) (overloads : List Overload) (given : List Given) :
    call.perform overloads (given.map (toPending resolver call.context)) =
      (Overload.dispatch overloads call (toArguments 0 given)).run (answer resolver call given) := by
  rw [Call.perform, toArguments_toPending]
  congr 1
  funext index
  rw [List.getElem?_map, answer]
  rcases given[index]? with _ | (v | argument) <;> rfl

end Given

/-- Evaluates the arguments that are not deferred, and keeps the others as they are. -/
def give (resolver : Resolver) (context : Context) (defers : Nat → Bool) (index : Nat) :
    List Expression → Run (List Given)
  | [] => .ok []
  | argument :: rest => do
    let first ← (if defers index then pure (.deferred argument)
      else Given.value <$> argument.evaluate resolver context)
    let others ← give resolver context defers (index + 1) rest
    return first :: others

section Give

variable {argument : Expression} {rest : List Expression} {index : Nat}

theorem give_cons_of_eager (eager : defers index = false) :
    give resolver context defers index (argument :: rest) =
      argument.evaluate resolver context >>= fun v =>
        (Given.value v :: ·) <$> give resolver context defers (index + 1) rest := by
  simp [give, eager]

theorem give_cons_of_deferred (deferred : defers index = true) :
    give resolver context defers index (argument :: rest) =
      (Given.deferred argument :: ·) <$> give resolver context defers (index + 1) rest := by
  simp [give, deferred]

/-- Nothing is evaluated where all arguments are deferred. -/
theorem give_of_deferred {arguments : List Expression}
    (all : ∀ place, index ≤ place → place < index + arguments.length → defers place = true) :
    give resolver context defers index arguments = .ok (arguments.map .deferred) := by
  induction arguments generalizing index with
  | nil => rfl
  | cons argument rest ih =>
    rw [List.length_cons] at all
    have later : give resolver context defers (index + 1) rest = .ok (rest.map .deferred) :=
      ih fun place after inside => all place (by omega) (by omega)
    rw [give_cons_of_deferred (all index (by omega) (by omega)), later]
    rfl

end Give

theorem prepare_eq_give (index : Nat) (arguments : List Expression) :
    prepare resolver context defers index arguments =
      List.map (Given.toPending resolver context) <$> give resolver context defers index arguments := by
  induction arguments generalizing index with
  | nil => rfl
  | cons argument rest ih =>
    rw [prepare, give, ih]
    cases defers index <;> simp [Given.toPending]

/-- A call evaluates the arguments that are not deferred and dispatches on what it is given then. -/
theorem evaluate_call (name : String) (overloads : List Overload) (arguments : List Expression)
    (span : Span) : (call name overloads arguments span).evaluate resolver context =
      give resolver context (Overload.defers overloads) 0 arguments >>= fun given =>
        (Overload.dispatch overloads ⟨name, span, context⟩ (Given.toArguments 0 given)).run
          (Given.answer resolver ⟨name, span, context⟩ given) := by
  rw [evaluate, prepare_eq_give, bind_map_left]
  congr 1
  funext given
  exact Given.perform_eq ⟨name, span, context⟩ overloads given

section Values

variable {arguments : List Expression} {values : List Value}

theorem outcome_give_of_values (eager : ∀ index, defers index = false)
    (all : List.Forall₂ (fun e v => (e.evaluate resolver context).outcome = .ok v) arguments values)
    (index : Nat) :
    (give resolver context defers index arguments).outcome = .ok (values.map .value) := by
  induction all generalizing index with
  | nil => rfl
  | cons first _ ih =>
    rw [give_cons_of_eager (eager index), Run.outcome_bind, first]
    change Run.outcome (_ <$> _) = _
    rw [Run.outcome_map, ih]
    rfl

/-- A call that defers nothing dispatches on the values of its arguments. -/
theorem outcome_call_of_values {name : String} {overloads : List Overload} {span : Span}
    {result : Except Error Value} (eager : ∀ index, Overload.defers overloads index = false)
    (all : List.Forall₂ (fun e v => (e.evaluate resolver context).outcome = .ok v) arguments values)
    (comes : Overload.dispatch overloads ⟨name, span, context⟩ (values.map .value) = .done result) :
    ((call name overloads arguments span).evaluate resolver context).outcome = result := by
  rw [evaluate_call, Run.outcome_bind, outcome_give_of_values eager all]
  change Run.outcome (Routine.run _ _) = _
  rw [Given.toArguments_values, comes]
  rfl

end Values

/-- Each argument is given as its value or deferred. -/
inductive Gives (resolver : Resolver) (context : Context) (defers : Nat → Bool) :
    Nat → List Expression → List Given → Prop
  | nil (index : Nat) : Gives resolver context defers index [] []
  | value {index : Nat} {argument : Expression} {v : Value} {rest : List Expression}
      {given : List Given} :
      defers index = false → (argument.evaluate resolver context).outcome = .ok v →
      Gives resolver context defers (index + 1) rest given →
      Gives resolver context defers index (argument :: rest) (.value v :: given)
  | deferred {index : Nat} {argument : Expression} {rest : List Expression} {given : List Given} :
      defers index = true → Gives resolver context defers (index + 1) rest given →
      Gives resolver context defers index (argument :: rest) (.deferred argument :: given)

theorem gives_of_give {index : Nat} {arguments : List Expression} {given : List Given}
    (h : (give resolver context defers index arguments).outcome = .ok given) :
    Gives resolver context defers index arguments given := by
  induction arguments generalizing index given with
  | nil =>
    cases h
    exact .nil index
  | cons argument rest ih =>
    rw [give] at h
    obtain ⟨first, isFirst, h⟩ := Run.outcome_bind_eq_ok_iff.mp h
    obtain ⟨others, areOthers, h⟩ := Run.outcome_bind_eq_ok_iff.mp h
    cases h
    cases deferred : defers index with
    | true =>
      rw [deferred, if_pos rfl] at isFirst
      cases isFirst
      exact .deferred deferred (ih areOthers)
    | false =>
      rw [deferred, if_neg Bool.false_ne_true, map_eq_pure_bind] at isFirst
      obtain ⟨v, evaluated, same⟩ := Run.outcome_bind_eq_ok_iff.mp isFirst
      cases same
      exact .value deferred evaluated (ih areOthers)

namespace Gives

variable {index : Nat} {arguments : List Expression} {given : List Given}

theorem length_eq (h : Gives resolver context defers index arguments given) :
    given.length = arguments.length := by
  induction h with
  | nil => rfl
  | value _ _ _ ih | deferred _ _ ih => rw [List.length_cons, List.length_cons, ih]

/-- Each argument is given at its own place. -/
theorem getElem? (h : Gives resolver context defers index arguments given) {place : Nat}
    (inside : place < arguments.length) :
    (defers (index + place) = true → given[place]? = some (.deferred arguments[place])) ∧
      (defers (index + place) = false → ∃ v, given[place]? = some (.value v) ∧
        (arguments[place].evaluate resolver context).outcome = .ok v) := by
  induction h generalizing place with
  | nil => cases inside
  | @value index argument v _ _ eager evaluated _ ih =>
    cases place with
    | zero => simpa [eager] using evaluated
    | succ place =>
      rw [← Nat.add_assoc, Nat.add_right_comm]
      exact ih (Nat.lt_of_succ_lt_succ inside)
  | @deferred index argument _ _ isDeferred _ ih =>
    cases place with
    | zero => simp [isDeferred]
    | succ place =>
      rw [← Nat.add_assoc, Nat.add_right_comm]
      exact ih (Nat.lt_of_succ_lt_succ inside)

/-- What is deferred is one of the arguments. -/
theorem mem_of_deferred (h : Gives resolver context defers index arguments given)
    {argument : Expression} (member : .deferred argument ∈ given) : argument ∈ arguments := by
  induction h with
  | nil => cases member
  | value _ _ _ ih => exact List.mem_cons_of_mem _ (ih (by simpa using member))
  | deferred _ _ ih =>
    rcases List.mem_cons.mp member with same | member
    · cases same
      exact List.mem_cons_self
    · exact List.mem_cons_of_mem _ (ih member)

/-- What is found at a place is a value or one of the arguments. -/
theorem found_cases (h : Gives resolver context defers index arguments given) (place : Nat) :
    given[place]? = none ∨ (∃ v, given[place]? = some (.value v)) ∨
      ∃ argument ∈ arguments, given[place]? = some (.deferred argument) := by
  cases found : given[place]? with
  | none => exact .inl rfl
  | some one =>
    cases one with
    | value v => exact .inr (.inl ⟨v, rfl⟩)
    | deferred argument =>
      exact .inr (.inr ⟨argument, h.mem_of_deferred (List.mem_of_getElem? found), rfl⟩)

theorem defers_of_mem (h : Gives resolver context defers index arguments given) {argument : Expression}
    (member : .deferred argument ∈ given) : ∃ place, defers place = true := by
  induction h with
  | nil => cases member
  | value _ _ _ ih => exact ih (by simpa using member)
  | deferred isDeferred _ _ => exact ⟨_, isDeferred⟩

/-- What is evaluated alike is dispatched alike. -/
theorem dispatch_congr {overloads : List Overload}
    (h : Gives resolver context (Overload.defers overloads) 0 arguments given)
    (only : Overload.OnlyEvaluate overloads) (call : Call) {others : List Given}
    (same : (Given.toArguments 0 given).map Argument.evaluate =
      (Given.toArguments 0 others).map Argument.evaluate) :
    Overload.dispatch overloads call (Given.toArguments 0 given) =
      Overload.dispatch overloads call (Given.toArguments 0 others) := by
  refine only.dispatch_eq call (fun index sketch member => ?_) same
  obtain ⟨argument, isGiven⟩ := Given.exists_of_deferred_mem member
  exact h.defers_of_mem isGiven

end Gives

end Expression

end Formulary
