import Formulary.Function.Table

set_option autoImplicit false

/-!
# Instants and durations
-/

namespace Formulary.Library

open Time

/-- The result of an operation that may leave the limits of instants or durations. -/
def inLimits (call : Call) : Option Value → Routine Value :=
  call.orRaise "Date-time or duration overflow"

def addTime : Implementation := fun call arguments =>
  call.onValues arguments fun x y =>
    match x, y with
    | .instant t, .duration d => inLimits call ((t.add? d).map .instant)
    | .duration d, .duration e => inLimits call ((d.add? e).map .duration)
    | _, _ => call.unsupported

def subTime : Implementation := fun call arguments =>
  call.onValues arguments fun x y =>
    match x, y with
    | .instant t, .instant u => pure (.duration (t.since u))
    | .instant t, .duration d => inLimits call ((t.sub? d).map .instant)
    | .duration d, .duration e => inLimits call ((d.sub? e).map .duration)
    | _, _ => call.unsupported

/-- The six components as they were given. -/
def readingText (parts : List Int) : String :=
  match parts.map toString with
  | [year, month, day, hour, minute, second] =>
    year ++ "-" ++ month ++ "-" ++ day ++ " " ++ hour ++ ":" ++ minute ++ ":" ++ second
  | _ => ""

/-- Components other than the year are unsigned 32-bit numbers. The largest of them stands for all numbers
that are none, because it is too large for every component. -/
def component (n : Int) : Nat :=
  if 0 ≤ n && n ≤ 4294967295 then n.toNat else 4294967295

/-- A year is a signed 32-bit number. -/
def reading? : List Int → Option Reading
  | [year, month, day, hour, minute, second] =>
    if -2147483648 ≤ year && year ≤ 2147483647 then
      some ⟨⟨year, component month, component day⟩, component hour, component minute,
        component second⟩
    else none
  | _ => none

/-- The instant of a date, at midnight or at a given time, on the clocks of the context. -/
def newDate : Implementation := fun call arguments => do
  let parts ← (arguments.take 6).mapM call.integer
  if arguments.length ≠ 3 && arguments.length ≠ 6 then call.unsupported
  else
    let parts := parts ++ List.replicate (6 - parts.length) 0
    let instant := (reading? parts).bind call.context.zone.instant?
    return .instant (← call.orRaise ("Invalid date-time: " ++ readingText parts) instant)

def durationFromMillis : Implementation := fun call arguments =>
  call.unary arguments fun argument => do
    let millis ← call.integer argument
    let message := "Duration of " ++ toString millis ++ " ms is out of range"
    return .duration (← call.orRaise message (Duration.ofMillis? millis))

def integers (count : Nat) : Signature :=
  { params := List.replicate count ((Param.only .number).checked .integer) }

def time : FunctionTable := .ofDefinitions [
  ("infix +", { params := [.only .instant, .only .duration] }, addTime),
  ("infix +", { params := [.only .duration, .only .duration] }, addTime),
  ("infix -", { params := [.only .instant, .only .instant] }, subTime),
  ("infix -", { params := [.only .instant, .only .duration] }, subTime),
  ("infix -", { params := [.only .duration, .only .duration] }, subTime),
  ("DT_DATE_NEW", integers 3, newDate),
  ("DT_DATE_NEW", integers 6, newDate),
  ("DT_DURATION_FROM_MILLIS", integers 1, durationFromMillis)]

end Formulary.Library
