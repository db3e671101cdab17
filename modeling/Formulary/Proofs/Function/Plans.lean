import Formulary.Proofs.Function.Deferred
import Formulary.Proofs.Function.Errors
import Formulary.Proofs.Function.Order
import Formulary.Proofs.Function.Places

set_option autoImplicit false

/-!
# Implementations that follow a plan

A plan goes through the arguments from left to right. It takes the value of one or leaves it alone, and
decides what to do next by the values taken so far. An implementation that follows a plan has its errors at
the call and those of arguments that it takes, ignores where the call stands, takes no argument twice, and
does nothing else with its arguments.
-/

namespace Formulary

inductive Plan (α : Type) where
  | done (result : Except Error.Cause α)
  | take (next : Value → Plan α)
  | skip (rest : Plan α)

namespace Plan

variable {α : Type}

/-- Carries out a plan on behalf of a call. -/
def perform (call : Call) : Plan α → List Argument → Routine α
  | done (.ok a), _ => pure a
  | done (.error cause), _ => call.fail cause
  | take next, argument :: rest => do
    let v ← argument.evaluate
    perform call (next v) rest
  | skip plan, _ :: rest => perform call plan rest
  | take _, [] | skip _, [] => call.unsupported

variable (call : Call)

theorem perform_moved (span : Span) (plan : Plan α) (arguments : List Argument) :
    (plan.perform call arguments).Alike (plan.perform (call.moved span) arguments) := by
  fun_induction perform call plan arguments with
  | case1 a => exact .pure a
  | case2 cause => exact call.fail_moved span cause
  | case3 next argument rest ih => exact (Routine.Alike.evaluate argument).bind ih
  | case4 plan argument rest ih => exact ih
  | case5 => exact call.fail_moved span _
  | case6 => exact call.fail_moved span _

theorem perform_relays (plan : Plan α) (arguments : List Argument) :
    (plan.perform call arguments).Relays call.span := by
  fun_induction perform call plan arguments with
  | case1 a => exact .ok
  | case2 cause => exact .error rfl
  | case3 next argument rest ih => exact (Routine.Relays.evaluate argument).bind ih
  | case4 plan argument rest ih => exact ih
  | case5 => exact .error rfl
  | case6 => exact .error rfl

theorem perform_ascends (plan : Plan α) {arguments : List Argument} {first : Nat}
    (inPlace : Argument.InPlace first arguments) :
    (plan.perform call arguments).Ascends first (first + arguments.length) := by
  fun_induction perform call plan arguments generalizing first with
  | case1 a => exact .pure a
  | case2 cause => exact .done _
  | case3 next argument rest ih =>
    rw [List.length_cons, ← Nat.add_assoc, Nat.add_right_comm]
    exact (Routine.Ascends.evaluate inPlace.1).bind (ih · inPlace.2) (by omega) (by omega)
  | case4 plan argument rest ih =>
    rw [List.length_cons, ← Nat.add_assoc, Nat.add_right_comm]
    exact (ih inPlace.2).mono (by omega) (Nat.le_refl _)
  | case5 => exact .done _
  | case6 => exact .done _

theorem perform_congr (plan : Plan α) {arguments others : List Argument}
    (same : arguments.map Argument.evaluate = others.map Argument.evaluate) :
    plan.perform call arguments = plan.perform call others := by
  fun_induction perform call plan arguments generalizing others with
  | case1 | case2 => rfl
  | case3 next argument rest ih =>
    obtain ⟨other, others, rfl, alike, rests⟩ := List.map_eq_cons_iff.mp same.symm
    rw [perform, alike]
    exact congrArg _ (funext fun v => ih v rests.symm)
  | case4 plan argument rest ih =>
    obtain ⟨other, others, rfl, -, rests⟩ := List.map_eq_cons_iff.mp same.symm
    exact ih rests.symm
  | case5 | case6 =>
    rw [List.map_eq_nil_iff.mp same.symm]
    rfl

end Plan

/-- What to do under a name, in a context, with a number of arguments. -/
abbrev Strategy := String → Context → Nat → Plan Value

/-- However it is called, the implementation carries out the plan for the call. -/
def Implementation.Follows (body : Implementation) (strategy : Strategy) : Prop :=
  ∀ (call : Call) (arguments : List Argument), body call arguments =
    (strategy call.name call.context arguments.length).perform call arguments

def Implementation.Planned (body : Implementation) : Prop :=
  ∃ strategy, body.Follows strategy

namespace Implementation.Follows

variable {body : Implementation} {strategy : Strategy}

theorem planned (h : body.Follows strategy) : body.Planned :=
  ⟨strategy, h⟩

theorem ignoresPlaces (h : body.Follows strategy) : body.IgnoresPlaces := by
  intro call span arguments others same
  have length : arguments.length = others.length := by simpa using congrArg List.length same
  rw [h, h, length, Plan.perform_congr call _ same]
  exact Plan.perform_moved call span _ others

theorem relays (h : body.Follows strategy) : body.Relays := by
  intro call arguments
  rw [h]
  exact Plan.perform_relays call _ arguments

theorem ascends (h : body.Follows strategy) : body.Ascends := by
  intro call arguments inPlace
  rw [h, ← Nat.zero_add arguments.length]
  exact Plan.perform_ascends call _ inPlace

theorem onlyEvaluates (h : body.Follows strategy) : body.OnlyEvaluates := by
  intro call arguments others same
  have length : arguments.length = others.length := by simpa using congrArg List.length same
  rw [h, h, length]
  exact Plan.perform_congr call _ same

end Implementation.Follows

/-! Steps of plans do what those of implementations do. -/

namespace Plan

variable {α β : Type}

def ok (a : α) : Plan α :=
  done (.ok a)

def fail (cause : Error.Cause) : Plan α :=
  done (.error cause)

def unsupported : Plan α :=
  fail .unsupportedTypes

def arithmetic : Except ArithmeticError Decimal → Plan Value
  | .ok x => ok (.number x)
  | .error e => fail (.arithmetic e)

def orRaise (message : String) (result : Option α) (next : α → Plan β) : Plan β :=
  match result with
  | some a => next a
  | none => fail (.raised message)

def number (next : Decimal → Plan α) : Plan α :=
  take fun
    | .number x => next x
    | _ => unsupported

def boolean (next : Bool → Plan α) : Plan α :=
  take fun
    | .boolean b => next b
    | _ => unsupported

def integer (next : Int → Plan α) : Plan α :=
  number fun x =>
    if Decimal.fitsWord x.truncated then next x.truncated
    else fail (.raised (x.toText ++ " is out of range"))

def integers : Nat → (List Int → Plan α) → Plan α
  | 0, next => next []
  | count + 1, next => integer fun n => integers count fun rest => next (n :: rest)

/-- Goes on if there are as many arguments as expected. -/
def exactly (expected count : Nat) (plan : Plan α) : Plan α :=
  if count = expected then plan else unsupported

theorem exactly_self (count : Nat) (plan : Plan α) : exactly count count plan = plan :=
  if_pos rfl

section Perform

variable (call : Call) (argument : Argument) (arguments : List Argument)

@[simp] theorem perform_ok (a : α) : (ok a).perform call arguments = pure a := rfl

@[simp] theorem perform_fail (cause : Error.Cause) :
    (fail cause : Plan α).perform call arguments = call.fail cause := rfl

@[simp] theorem perform_unsupported :
    (unsupported : Plan α).perform call arguments = call.unsupported := rfl

@[simp] theorem perform_take (next : Value → Plan α) :
    (take next).perform call (argument :: arguments) =
      argument.evaluate >>= fun v => (next v).perform call arguments := rfl

@[simp] theorem perform_skip (plan : Plan α) :
    (skip plan).perform call (argument :: arguments) = plan.perform call arguments := rfl

@[simp] theorem perform_arithmetic (result : Except ArithmeticError Decimal) :
    (arithmetic result).perform call arguments = call.arithmetic result := by
  cases result <;> rfl

@[simp] theorem perform_orRaise (message : String) (result : Option α) (next : α → Plan β) :
    (orRaise message result next).perform call arguments =
      call.orRaise message result >>= fun a => (next a).perform call arguments := by
  cases result <;> rfl

@[simp] theorem perform_number (next : Decimal → Plan α) :
    (number next).perform call (argument :: arguments) =
      call.number argument >>= fun x => (next x).perform call arguments := by
  rw [number, perform_take, Call.number, bind_assoc]
  congr
  funext v
  cases v <;> rfl

@[simp] theorem perform_boolean (next : Bool → Plan α) :
    (boolean next).perform call (argument :: arguments) =
      call.boolean argument >>= fun b => (next b).perform call arguments := by
  rw [boolean, perform_take, Call.boolean, bind_assoc]
  congr
  funext v
  cases v <;> rfl

@[simp] theorem perform_integer (next : Int → Plan α) :
    (integer next).perform call (argument :: arguments) =
      call.integer argument >>= fun n => (next n).perform call arguments := by
  rw [integer, perform_number, Call.integer, bind_assoc]
  congr
  funext x
  dsimp only
  split <;> rfl

theorem perform_integers {count : Nat} {arguments : List Argument} (enough : count ≤ arguments.length)
    (next : List Int → Plan α) : (integers count next).perform call arguments =
      (arguments.take count).mapM call.integer >>= fun parts =>
        (next parts).perform call (arguments.drop count) := by
  induction count generalizing arguments next with
  | zero => rfl
  | succ count ih =>
    obtain ⟨first, rest, rfl⟩ := List.exists_cons_of_length_pos (Nat.zero_lt_of_lt enough)
    rw [integers, perform_integer, List.take_succ_cons, List.drop_succ_cons, List.mapM_cons]
    simp only [bind_assoc, pure_bind, ih (Nat.le_of_succ_le_succ enough)]

theorem unary_eq_perform {plan : Plan α} {body : Argument → Routine α}
    (same : ∀ x, body x = plan.perform call [x]) :
    call.unary arguments body = (exactly 1 arguments.length plan).perform call arguments := by
  match arguments with
  | [] | _ :: _ :: _ => rfl
  | [x] => exact same x

theorem binary_eq_perform {plan : Plan α} {body : Argument → Argument → Routine α}
    (same : ∀ x y, body x y = plan.perform call [x, y]) :
    call.binary arguments body = (exactly 2 arguments.length plan).perform call arguments := by
  match arguments with
  | [] | [_] | _ :: _ :: _ :: _ => rfl
  | [x, y] => exact same x y

theorem onValues_eq_perform {next : Value → Value → Plan α} {body : Value → Value → Routine α}
    (same : ∀ x y, body x y = (next x y).perform call []) :
    call.onValues arguments body =
      (exactly 2 arguments.length (take fun x => take (next x))).perform call arguments := by
  refine binary_eq_perform call arguments fun x y => ?_
  simp only [perform_take, same]

end Perform

end Plan

end Formulary
