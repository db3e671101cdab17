import Formulary.Proofs.Function.Places

set_option autoImplicit false

/-!
# How calls end

A routine that relays errors ends with that of any argument that it asks for in vain. All other errors are
its own, and it has them at the place of the call.
-/

namespace Formulary

/-- Has its own errors at a place, and ends at once with an error that it is answered with. -/
inductive Routine.Relays {α : Type} (span : Span) : Routine α → Prop
  | ok {a : α} : Relays span (.done (.ok a))
  | error {e : Error} : e.span = span → Relays span (.done (.error e))
  | force {index : Nat} {next : Except Error Value → Routine α} :
      (∀ e, next (.error e) = .done (.error e)) → (∀ v, Relays span (next (.ok v))) →
      Relays span (.force index next)

namespace Routine.Relays

variable {α β : Type} {span : Span}

theorem bind {routine : Routine α} {next : α → Routine β} (h : Relays span routine)
    (continues : ∀ a, Relays span (next a)) : Relays span (routine >>= next) := by
  induction h with
  | ok => exact continues _
  | error atSpan => exact .error atSpan
  | @force index inner passes _ ih =>
    refine .force (fun e => ?_) ih
    rw [passes]
    rfl

theorem evaluate (argument : Argument) : Relays span argument.evaluate := by
  cases argument with
  | value v => exact .ok
  | deferred index _ => exact .force (fun _ => rfl) fun _ => .ok

/-- An error of a run is one of the routine's own, or that of an argument. -/
theorem error_of_run {routine : Routine α} (h : Relays span routine) {evaluate : Nat → Run Value}
    {e : Error} (failed : (routine.run evaluate).outcome = .error e) :
    e.span = span ∨ ∃ index, (evaluate index).outcome = .error e := by
  induction h with
  | ok => cases failed
  | error atSpan =>
    cases failed
    exact .inl atSpan
  | @force index next passes _ ih =>
    rw [run] at failed
    cases answer : (evaluate index).outcome with
    | error f =>
      rw [answer, passes] at failed
      cases failed
      exact .inr ⟨index, answer⟩
    | ok v =>
      rw [answer] at failed
      exact ih v failed

end Routine.Relays

/-- However it is called, the implementation has its own errors at the call. -/
def Implementation.Relays (body : Implementation) : Prop :=
  ∀ (call : Call) (arguments : List Argument), (body call arguments).Relays call.span

namespace Overload

theorem dispatch_relays {overloads : List Overload}
    (relay : ∀ overload ∈ overloads, overload.body.Relays) (call : Call) (arguments : List Argument) :
    (dispatch overloads call arguments).Relays call.span := by
  unfold dispatch
  cases selected : select? overloads arguments with
  | none => exact .error rfl
  | some overload =>
    dsimp only
    cases overload.signature.allComplaints arguments with
    | nil => exact relay overload (List.mem_of_find?_eq_some selected) call arguments
    | cons first rest => exact .error rfl

end Overload

/-- All functions that can be found relay errors. -/
def Functions.Relay (functions : Functions) : Prop :=
  ∀ name count overloads, functions.find? name count = some overloads →
    ∀ overload ∈ overloads, overload.body.Relays

end Formulary
