import Formulary.Library.Standard
import Formulary.Proofs.Function.Lookup
import Formulary.Proofs.Function.Plans

set_option autoImplicit false

/-!
# The plans of the standard functions

What each standard implementation does with its arguments is told by one plan, and all that is known of
implementations that follow plans holds of the standard functions.
-/

namespace Formulary

namespace Strategy

open Library Plan

def operate (operation : Operation) : Strategy := fun _ context count =>
  exactly 2 count <| number fun x => number fun y =>
    arithmetic (operation.apply context.arithmetic x y)

def negate : Strategy := fun _ context count =>
  exactly 1 count <| take fun
    | .number x => ok (.number (context.arithmetic.neg x))
    | .duration d => ok (.duration (-d))
    | _ => unsupported

def identity : Strategy := fun _ _ count =>
  exactly 1 count (take ok)

/-- Takes some more numbers and combines each of them with the result so far. -/
def combineAll (combine : Decimal → Decimal → Decimal) : Nat → Decimal → Plan Value
  | 0, result => ok (.number result)
  | count + 1, result => number fun x => combineAll combine count (combine result x)

def aggregate (combine : Arithmetic → Decimal → Decimal → Decimal) : Strategy :=
  fun _ context count =>
    match count with
    | 0 => unsupported
    | count + 1 => number (combineAll (combine context.arithmetic) count)

def onNumber (compute : Arithmetic → Decimal → Option Decimal) : Strategy :=
  fun name context count =>
    exactly 1 count <| number fun x =>
      orRaise ("Cannot compute " ++ name ++ " of " ++ x.toText) (compute context.arithmetic x) fun y =>
        ok (.number y)

def round : Strategy := fun _ context count =>
  match count with
  | 0 => unsupported
  | 1 => number fun x => arithmetic (context.arithmetic.round x 0)
  | _ => number fun x => integer fun scale => arithmetic (context.arithmetic.round x scale)

/-- Takes the values of two arguments. -/
def onValues (next : Value → Value → Plan Value) : Strategy := fun _ _ count =>
  exactly 2 count (take fun x => take (next x))

def inLimits (result : Option Value) : Plan Value :=
  orRaise "Date-time or duration overflow" result ok

def addTime : Strategy :=
  onValues fun
    | .instant t, .duration d => inLimits ((t.add? d).map .instant)
    | .duration d, .duration e => inLimits ((d.add? e).map .duration)
    | _, _ => unsupported

def subTime : Strategy :=
  onValues fun
    | .instant t, .instant u => ok (.duration (t.since u))
    | .instant t, .duration d => inLimits ((t.sub? d).map .instant)
    | .duration d, .duration e => inLimits ((d.sub? e).map .duration)
    | _, _ => unsupported

def newDate : Strategy := fun _ context count =>
  integers (min 6 count) fun parts =>
    if count ≠ 3 && count ≠ 6 then unsupported
    else
      let parts := parts ++ List.replicate (6 - parts.length) 0
      let instant := (reading? parts).bind context.zone.instant?
      orRaise ("Invalid date-time: " ++ readingText parts) instant fun t => ok (.instant t)

def durationFromMillis : Strategy := fun _ _ count =>
  exactly 1 count <| integer fun millis =>
    orRaise ("Duration of " ++ toString millis ++ " ms is out of range")
      (Time.Duration.ofMillis? millis) fun d => ok (.duration d)

def compare (comparison : Comparison) : Strategy :=
  onValues fun x y =>
    match x.compare y with
    | some order => ok (.boolean (comparison.holds order))
    | none => unsupported

def not : Strategy := fun _ _ count =>
  exactly 1 count <| boolean fun b => ok (.boolean !b)

def and : Strategy := fun _ _ count =>
  exactly 2 count <| boolean fun b =>
    if b then boolean fun c => ok (.boolean c) else ok (.boolean false)

def or : Strategy := fun _ _ count =>
  exactly 2 count <| boolean fun b =>
    if b then ok (.boolean true) else boolean fun c => ok (.boolean c)

def choose : Strategy := fun _ _ count =>
  exactly 3 count <| boolean fun b => if b then take ok else skip (take ok)

def firstOf : Nat → Plan Value
  | 0 => ok .null
  | count + 1 => take fun v => if v.isNull then firstOf count else ok v

def firstPresent : Strategy := fun _ _ count =>
  firstOf count

def element : Strategy :=
  onValues fun
    | .array elements, .number index =>
      match element? elements index with
      | some v => ok v
      | none => fail (.indexOutOfBounds index.toText elements.length)
    | _, _ => unsupported

def entry : Strategy :=
  onValues fun
    | .record fields, .text key =>
      match fields.find? key with
      | some v => ok v
      | none => fail (.fieldNotFound key)
    | _, _ => unsupported

end Strategy

namespace Library

open Plan

theorem operate_follows (operation : Operation) : (operate operation).Follows (.operate operation) :=
  fun call _ => binary_eq_perform call _ fun x y => by
    simp only [perform_number, perform_arithmetic]

theorem negate_follows : negate.Follows .negate :=
  fun call _ => unary_eq_perform call _ fun x => by
    rw [perform_take]
    congr
    funext v
    cases v <;> rfl

theorem identity_follows : identity.Follows .identity :=
  fun call _ => unary_eq_perform call _ fun x => by simp only [perform_take, perform_ok, bind_pure]

theorem perform_combineAll (call : Call) (combine : Decimal → Decimal → Decimal)
    (arguments : List Argument) (result : Decimal) :
    (Strategy.combineAll combine arguments.length result).perform call arguments =
      arguments.foldlM (fun sum argument => do
        let x ← call.number argument
        return combine sum x) result >>= fun result => pure (.number result) := by
  induction arguments generalizing result with
  | nil => rfl
  | cons argument arguments ih =>
    simp only [List.length_cons, Strategy.combineAll, perform_number, List.foldlM_cons, bind_assoc,
      pure_bind, ih]

theorem aggregate_follows (combine : Arithmetic → Decimal → Decimal → Decimal) :
    (aggregate combine).Follows (.aggregate combine) := by
  intro call arguments
  cases arguments with
  | nil => rfl
  | cons first rest => simp only [aggregate, Strategy.aggregate, List.length_cons, perform_number,
      perform_combineAll]

theorem onNumber_follows (compute : Arithmetic → Decimal → Option Decimal) :
    (onNumber compute).Follows (.onNumber compute) :=
  fun call _ => unary_eq_perform call _ fun x => by
    simp only [perform_number, perform_orRaise, perform_ok]

theorem round_follows : round.Follows .round := by
  intro call arguments
  match arguments with
  | [] => rfl
  | [x] => simp only [round, Strategy.round, List.length_singleton, perform_number,
      perform_arithmetic, pure_bind]
  | x :: scale :: rest => simp only [round, Strategy.round, List.length_cons, perform_number,
      perform_integer, perform_arithmetic]

theorem onValues_follows {body : Call → Value → Value → Routine Value}
    {next : Value → Value → Plan Value}
    (same : ∀ call x y, body call x y = (next x y).perform call []) :
    Implementation.Follows (fun call arguments => call.onValues arguments (body call))
      (.onValues next) :=
  fun call arguments => onValues_eq_perform call arguments (same call)

theorem perform_inLimits (call : Call) (arguments : List Argument) (result : Option Value) :
    (Strategy.inLimits result).perform call arguments = inLimits call result := by
  simp only [Strategy.inLimits, inLimits, perform_orRaise, perform_ok, bind_pure]

theorem addTime_follows : addTime.Follows .addTime := by
  refine onValues_follows fun call x y => ?_
  cases x <;> cases y <;> simp only [perform_inLimits, perform_unsupported]

theorem subTime_follows : subTime.Follows .subTime := by
  refine onValues_follows fun call x y => ?_
  cases x <;> cases y <;> simp only [perform_ok, perform_inLimits, perform_unsupported]

theorem newDate_follows : newDate.Follows .newDate := by
  intro call arguments
  rw [Strategy.newDate, perform_integers call (Nat.min_le_right _ _), newDate, ← List.take_eq_take_min]
  congr
  funext parts
  split
  · rfl
  · simp only [perform_orRaise, perform_ok]

theorem durationFromMillis_follows : durationFromMillis.Follows .durationFromMillis :=
  fun call _ => unary_eq_perform call _ fun x => by
    simp only [perform_integer, perform_orRaise, perform_ok]

theorem compare_follows (comparison : Comparison) : (compare comparison).Follows (.compare comparison) := by
  refine onValues_follows fun call x y => ?_
  cases x.compare y <;> rfl

/-- A function of two values that cannot fail. -/
theorem onValues_pure_follows (compute : Value → Value → Value) :
    Implementation.Follows (fun call arguments => call.onValues arguments fun x y => pure (compute x y))
      (.onValues fun x y => ok (compute x y)) :=
  onValues_follows fun _ _ _ => rfl

theorem not_follows : not.Follows .not :=
  fun call _ => unary_eq_perform call _ fun x => by simp only [perform_boolean, perform_ok]

theorem and_follows : and.Follows .and :=
  fun call _ => binary_eq_perform call _ fun x y => by
    rw [perform_boolean]
    congr
    funext b
    cases b <;> simp

theorem or_follows : or.Follows .or :=
  fun call _ => binary_eq_perform call _ fun x y => by
    rw [perform_boolean]
    congr
    funext b
    cases b <;> simp

theorem choose_follows : choose.Follows .choose := by
  intro call arguments
  match arguments with
  | [] | [_] | [_, _] | _ :: _ :: _ :: _ :: _ => rfl
  | [condition, first, second] =>
    change _ = (boolean _).perform call _
    rw [perform_boolean, choose]
    congr
    funext b
    cases b <;> simp

theorem firstPresent_follows : Implementation.Follows (fun _ => firstPresent) .firstPresent := by
  intro call arguments
  induction arguments with
  | nil => rfl
  | cons argument rest ih =>
    change firstPresent (argument :: rest) = (take _).perform call (argument :: rest)
    rw [firstPresent, perform_take]
    congr
    funext v
    cases v.isNull
    · rfl
    · exact ih

theorem element_follows : element.Follows .element := by
  refine onValues_follows fun call array index => ?_
  cases array with
  | array elements =>
    cases index with
    | number index => cases found : element? elements index <;> simp [found]
    | _ => rfl
  | _ => cases index <;> rfl

theorem entry_follows : entry.Follows .entry := by
  refine onValues_follows fun call associate key => ?_
  cases associate with
  | record fields =>
    cases key with
    | text key => cases found : fields.find? key <;> simp [found]
    | _ => rfl
  | _ => cases key <;> rfl

theorem arithmetic_planned : arithmetic.Each (·.body.Planned) := by
  apply FunctionTable.each_ofDefinitions
  simp [(operate_follows _).planned, negate_follows.planned, identity_follows.planned,
    (aggregate_follows _).planned, (onNumber_follows _).planned, round_follows.planned]

theorem time_planned : time.Each (·.body.Planned) := by
  apply FunctionTable.each_ofDefinitions
  simp [addTime_follows.planned, subTime_follows.planned, newDate_follows.planned,
    durationFromMillis_follows.planned]

theorem joining_planned : joining.Each (·.body.Planned) := by
  have joins : join.Planned := (onValues_pure_follows _).planned
  apply FunctionTable.each_ofDefinitions
  simp [joins]

theorem comparison_planned : comparison.Each (·.body.Planned) := by
  have equals : equal.Planned := (onValues_pure_follows _).planned
  have differs : unequal.Planned := (onValues_pure_follows _).planned
  apply FunctionTable.each_ofDefinitions
  simp [comparisons, equals, differs, (compare_follows _).planned]

theorem logic_planned : logic.Each (·.body.Planned) := by
  apply FunctionTable.each_ofDefinitions
  simp [and_follows.planned, or_follows.planned, not_follows.planned, choose_follows.planned,
    firstPresent_follows.planned]

theorem access_planned : access.Each (·.body.Planned) := by
  apply FunctionTable.each_ofDefinitions
  simp [element_follows.planned, entry_follows.planned]

/-- Every standard implementation follows a plan. -/
theorem standard_planned : standard.Each (·.body.Planned) :=
  ((((arithmetic_planned.append time_planned).append joining_planned).append
    comparison_planned).append logic_planned).append access_planned

/-- No standard function looks at places. -/
theorem standard_ignoresPlaces : standard.Each (·.body.IgnoresPlaces) :=
  standard_planned.imp fun _ ⟨_, follows⟩ => follows.ignoresPlaces

/-- None of them recovers from an error of an argument. -/
theorem standard_relays : standard.Each (·.body.Relays) :=
  standard_planned.imp fun _ ⟨_, follows⟩ => follows.relays

/-- None of them asks twice for an argument or goes back to an earlier one. -/
theorem standard_ascends : standard.Each (·.body.Ascends) :=
  standard_planned.imp fun _ ⟨_, follows⟩ => follows.ascends

/-- None of them looks at the sketch of an argument. -/
theorem standard_onlyEvaluates : standard.Each (·.body.OnlyEvaluates) :=
  standard_planned.imp fun _ ⟨_, follows⟩ => follows.onlyEvaluates

theorem relay_standard : (Functions.ofLayers (.single standard)).Relay :=
  fun _ _ _ found overload member => (standard_relays.find? found overload member).1

theorem onlyEvaluate_standard : (Functions.ofLayers (.single standard)).OnlyEvaluate :=
  Functions.onlyEvaluate_single standard_onlyEvaluates

theorem standard_defersLast : standard.Each (·.signature.DefersLast) := by
  unfold FunctionTable.Each
  decide +kernel

end Library

end Formulary
