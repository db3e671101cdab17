import Formulary.Expression.Evaluation
import Formulary.Proofs.Function.Deferred

set_option autoImplicit false

/-!
# What a call does apart from where it stands

Two outcomes are alike if they are equal values, or errors with the same causes. An implementation
ignores places if it does the same, up to that, wherever it is called and wherever its arguments stand.
-/

namespace Formulary

/-- What is wrong, wherever it is. -/
def Error.causes (e : Error) : List Error.Cause :=
  e.cause :: e.secondary

/-- Related values, or errors with the same causes. -/
inductive Outcome {α β : Type} (R : α → β → Prop) : Except Error α → Except Error β → Prop
  | ok {a : α} {b : β} : R a b → Outcome R (.ok a) (.ok b)
  | error {e f : Error} : e.causes = f.causes → Outcome R (.error e) (.error f)

namespace Outcome

variable {α β : Type}

theorem mapError_eq {x y : Except Error α} (h : Outcome Eq x y) :
    x.mapError Error.causes = y.mapError Error.causes := by
  cases h with
  | ok same => rw [same]
  | error same => exact congrArg Except.error same

end Outcome

/-- Routines that ask for the same arguments and come to the same outcome if the answers are alike. -/
inductive Routine.Alike {α : Type} : Routine α → Routine α → Prop
  | done {x y : Except Error α} : Outcome Eq x y → Alike (.done x) (.done y)
  | force {index : Nat} {next other : Except Error Value → Routine α} :
      (∀ x y, Outcome Eq x y → Alike (next x) (other y)) →
      Alike (.force index next) (.force index other)

namespace Routine.Alike

variable {α β : Type}

theorem pure (a : α) : Alike (Pure.pure a) (Pure.pure a) :=
  .done (.ok rfl)

theorem bind {first second : Routine α} {next other : α → Routine β} (h : Alike first second)
    (continues : ∀ a, Alike (next a) (other a)) : Alike (first >>= next) (second >>= other) := by
  induction h with
  | done same =>
    cases same with
    | ok same => exact same ▸ continues _
    | error same => exact .done (.error same)
  | force _ ih => exact .force fun x y same => ih x y same

theorem run {first second : Routine α} {evaluate other : Nat → Run Value} (h : Alike first second)
    (answers : ∀ index, Outcome Eq (evaluate index).outcome (other index).outcome) :
    Outcome Eq (first.run evaluate).outcome (second.run other).outcome := by
  induction h with
  | done same => exact same
  | force _ ih => exact ih _ _ (answers _)

theorem evaluate (argument : Argument) : Alike argument.evaluate argument.evaluate := by
  cases argument with
  | value v => exact pure v
  | deferred index _ => exact .force fun x y same => .done same

end Routine.Alike

/-- The same call at another place. -/
def Call.moved (call : Call) (span : Span) : Call :=
  { call with span }

/-- What is computed depends neither on the place of the call nor on the sketches of deferred arguments, which
tell the places of these. -/
def Implementation.IgnoresPlaces (body : Implementation) : Prop :=
  ∀ (call : Call) (span : Span) (arguments others : List Argument),
    arguments.map Argument.evaluate = others.map Argument.evaluate →
      (body call arguments).Alike (body (call.moved span) others)

theorem Call.fail_moved {α : Type} (call : Call) (span : Span) (cause : Error.Cause) :
    (call.fail cause : Routine α).Alike ((call.moved span).fail cause) :=
  .done (.error rfl)

namespace Overload

/-- No overload looks at places. -/
def IgnorePlaces (overloads : List Overload) : Prop :=
  ∀ overload ∈ overloads, overload.body.IgnoresPlaces

theorem dispatch_moved {overloads : List Overload} (ignore : IgnorePlaces overloads) (call : Call)
    (span : Span) {arguments others : List Argument}
    (same : arguments.map Argument.evaluate = others.map Argument.evaluate) :
    (dispatch overloads call arguments).Alike (dispatch overloads (call.moved span) others) := by
  unfold dispatch
  rw [select?_congr overloads same]
  cases selected : select? overloads others with
  | none => exact call.fail_moved span _
  | some overload =>
    dsimp only
    rw [overload.signature.allComplaints_congr same]
    cases overload.signature.allComplaints others with
    | nil => exact ignore overload (List.mem_of_find?_eq_some selected) call span arguments others same
    | cons first rest => exact .done (.error rfl)

end Overload

end Formulary
