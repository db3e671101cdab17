import Formulary.Proofs.Library.Rounding

set_option autoImplicit false

/-!
# Operators on instants and durations

What is added to a time or taken from it is exact to the nanosecond. Where there is no instant or duration
of so many nanoseconds the operator fails, at its own place.
-/

namespace Formulary

namespace Time

variable {n : ℤ}

theorem Instant.ofNanos?_eq_none_iff :
    ofNanos? n = none ↔ ¬(firstInstant ≤ n ∧ n ≤ lastInstant) := by
  unfold ofNanos?
  split
  next within => simp [within]
  next outside => simp [outside]

theorem Duration.ofNanos?_eq_none_iff :
    ofNanos? n = none ↔ ¬(-longestDuration ≤ n ∧ n ≤ longestDuration) := by
  unfold ofNanos?
  split
  next within => simp [within]
  next outside => simp [outside]

end Time

namespace Library

open Time

section Exact

variable {α : Type} {build : α → Value} {nanos : α → ℤ} {low high n : ℤ} {span : Span}
  {outcome : Except Failure Value}

def overflow (span : Span) : Error :=
  ⟨.raised "Date-time or duration overflow", span, [], none⟩

/-- The outcome is the value of `n` nanoseconds if they are between the limits, and an overflow otherwise. -/
structure Exact (build : α → Value) (nanos : α → ℤ) (low high : ℤ) (span : Span) (n : ℤ)
    (outcome : Except Failure Value) : Prop where
  value (v : Value) : outcome = .ok v ↔ ∃ a, v = build a ∧ nanos a = n
  error (failure : Failure) : outcome = .error failure ↔ ¬(low ≤ n ∧ n ≤ high) ∧ failure = overflow span

abbrev ExactInstant : Span → ℤ → Except Failure Value → Prop :=
  Exact .instant Instant.nanos firstInstant lastInstant

abbrev ExactDuration : Span → ℤ → Except Failure Value → Prop :=
  Exact .duration Duration.nanos (-longestDuration) longestDuration

theorem Exact.eq_ok (h : Exact build nanos low high span n outcome) {a : α} (same : nanos a = n) :
    outcome = .ok (build a) :=
  (h.value _).mpr ⟨a, rfl, same⟩

/-- What is checked against the limits is exact. -/
theorem exact_inLimits (call : Call) {found : Option α} (isFound : ∀ a, found = some a ↔ n = nanos a)
    (isNone : found = none ↔ ¬(low ≤ n ∧ n ≤ high)) :
    ∃ outcome, inLimits call (found.map build) = .done outcome ∧
      Exact build nanos low high call.span n (Failure.lift outcome) := by
  cases found with
  | none =>
    refine ⟨.error (overflow call.span), rfl, ⟨fun v => ?_, fun failure => ?_⟩⟩
    · simp only [Failure.lift_error, reduceCtorEq, false_iff, not_exists, not_and]
      rintro a - rfl
      exact absurd ((isFound a).mpr rfl) nofun
    · simp [isNone.mp rfl, eq_comm]
  | some a =>
    have same : n = nanos a := (isFound a).mp rfl
    refine ⟨.ok (build a), rfl, ⟨fun v => ?_, fun failure => ?_⟩⟩
    · constructor
      · intro isValue
        exact ⟨a, (Except.ok.inj isValue).symm, same.symm⟩
      · rintro ⟨other, rfl, isOther⟩
        rw [Option.some.inj ((isFound other).mpr isOther.symm), Failure.lift_ok]
    · have within : low ≤ n ∧ n ≤ high := not_not.mp fun outside => by cases isNone.mpr outside
      simp [within]

theorem exact_instant (call : Call) (n : ℤ) :
    ∃ outcome, inLimits call ((Instant.ofNanos? n).map .instant) = .done outcome ∧
      ExactInstant call.span n (Failure.lift outcome) :=
  exact_inLimits call (fun _ => Instant.ofNanos?_eq_some) Instant.ofNanos?_eq_none_iff

theorem exact_duration (call : Call) (n : ℤ) :
    ∃ outcome, inLimits call ((Duration.ofNanos? n).map .duration) = .done outcome ∧
      ExactDuration call.span n (Failure.lift outcome) :=
  exact_inLimits call (fun _ => Duration.ofNanos?_eq_some) Duration.ofNanos?_eq_none_iff

/-- A duration that needs no check. -/
theorem exact_of_duration (call : Call) {d : Duration} (same : d.nanos = n) :
    ∃ outcome, (pure (.duration d) : Routine Value) = .done outcome ∧
      ExactDuration call.span n (Failure.lift outcome) := by
  have exact := exact_duration call n
  rwa [Duration.ofNanos?_eq_some.mpr same.symm] at exact

end Exact

section Operators

def sums : List Overload := [
  ⟨numbers 2, operate .add⟩,
  ⟨pair .instant .duration, addTime⟩,
  ⟨pair .duration .duration, addTime⟩,
  ⟨{ params := [.only .text, .any] }, join⟩,
  ⟨{ params := [.any, .only .text] }, join⟩]

def differences : List Overload := [
  ⟨numbers 2, operate .sub⟩,
  ⟨pair .instant .instant, subTime⟩,
  ⟨pair .instant .duration, subTime⟩,
  ⟨pair .duration .duration, subTime⟩]

def negatives : List Overload := [
  ⟨numbers 1, negate⟩,
  ⟨{ params := [.only .duration] }, negate⟩]

theorem find?_sums : standard.find? (Role.infixOp.implementationName "+") 2 = some sums := rfl

theorem find?_differences : standard.find? (Role.infixOp.implementationName "-") 2 = some differences := rfl

theorem find?_negatives : standard.find? (Role.prefixOp.implementationName "-") 1 = some negatives := rfl

theorem eager_sums (index : Nat) : Overload.defers sums index = false :=
  Overload.defers_of_eager (by decide) index

theorem eager_differences (index : Nat) : Overload.defers differences index = false :=
  Overload.defers_of_eager (by decide) index

theorem eager_negatives (index : Nat) : Overload.defers negatives index = false :=
  Overload.defers_of_eager (by decide) index

/-- The operators on instants and durations, with the nanoseconds of what they come to. -/
inductive Operates : Role → String → List Value → (Span → ℤ → Except Failure Value → Prop) → ℤ → Prop
  | later (t : Instant) (d : Duration) :
      Operates .infixOp "+" [.instant t, .duration d] ExactInstant (t.nanos + d.nanos)
  | longer (d e : Duration) :
      Operates .infixOp "+" [.duration d, .duration e] ExactDuration (d.nanos + e.nanos)
  | since (t u : Instant) :
      Operates .infixOp "-" [.instant t, .instant u] ExactDuration (t.nanos - u.nanos)
  | earlier (t : Instant) (d : Duration) :
      Operates .infixOp "-" [.instant t, .duration d] ExactInstant (t.nanos - d.nanos)
  | shorter (d e : Duration) :
      Operates .infixOp "-" [.duration d, .duration e] ExactDuration (d.nanos - e.nanos)
  | opposite (d : Duration) : Operates .prefixOp "-" [.duration d] ExactDuration (-d.nanos)

/-- The overloads before the one that takes the operands do not accept them. -/
theorem Operates.applied {role : Role} {symbol : String} {values : List Value}
    {exact : Span → ℤ → Except Failure Value → Prop} {n : ℤ} (h : Operates role symbol values exact n)
    {call : Call} (named : call.name = role.implementationName symbol) :
    ∃ outcome, applied call values = .done outcome ∧ exact call.span n (Failure.lift outcome) := by
  cases h with
  | later t d =>
    have selected : Library.applied call [.instant t, .duration d] =
        inLimits call ((t.add? d).map .instant) :=
      applied_of_find? sums find?_sums (congrArg _ named)
    rw [selected]
    exact exact_instant call _
  | longer d e =>
    have selected : Library.applied call [.duration d, .duration e] =
        inLimits call ((d.add? e).map .duration) :=
      applied_of_find? sums find?_sums (congrArg _ named)
    rw [selected]
    exact exact_duration call _
  | since t u =>
    have selected : Library.applied call [.instant t, .instant u] = pure (.duration (t.since u)) :=
      applied_of_find? differences find?_differences (congrArg _ named)
    rw [selected]
    exact exact_of_duration call rfl
  | earlier t d =>
    have selected : Library.applied call [.instant t, .duration d] =
        inLimits call ((t.sub? d).map .instant) :=
      applied_of_find? differences find?_differences (congrArg _ named)
    rw [selected]
    exact exact_instant call _
  | shorter d e =>
    have selected : Library.applied call [.duration d, .duration e] =
        inLimits call ((d.sub? e).map .duration) :=
      applied_of_find? differences find?_differences (congrArg _ named)
    rw [selected]
    exact exact_duration call _
  | opposite d =>
    have selected : Library.applied call [.duration d] = pure (.duration (-d)) :=
      applied_of_find? negatives find?_negatives (congrArg _ named)
    rw [selected]
    exact exact_of_duration call rfl

end Operators

end Library

end Formulary
