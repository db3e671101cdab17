import Formulary.Proofs.Engine.Comparison
import Formulary.Proofs.Library.Times

set_option autoImplicit false

/-!
# Instants and durations in sources

Differences of instants, and instants that are moved by durations, obey the laws of exact arithmetic. An
operator whose result would be out of limits fails at its own place, and no result is wrapped round.
-/

namespace Formulary

open Time Library Formulary.Tree

namespace Engine

variable {engine : Engine} {resolver : Resolver} {place p q r : Position} {x y z w : Tree}

section Operators

variable {role : Role} {symbol : String} {values : List Value}
  {exact : Span → ℤ → Except Failure Value → Prop} {n : ℤ}

/-- The standard table knows each operator on times. -/
theorem mapped_of_operates (h : Operates role symbol values exact n) :
    ∃ mapping, OperatorTable.standard.find? role symbol = some mapping ∧
      mapping.implementation = role.implementationName symbol ∧
      Eager (role.implementationName symbol) values.length := by
  cases h with
  | later | longer =>
    exact ⟨⟨20, true, Role.infixOp.implementationName "+"⟩, by decide +kernel, rfl, _, find?_sums, eager_sums⟩
  | since | earlier | shorter =>
    exact ⟨⟨20, true, Role.infixOp.implementationName "-"⟩, by decide +kernel, rfl, _, find?_differences,
      eager_differences⟩
  | opposite =>
    exact ⟨⟨60, false, Role.prefixOp.implementationName "-"⟩, by decide +kernel, rfl, _, find?_negatives,
      eager_negatives⟩

theorem exact_of_operates (configured : engine.Configured) (h : Operates role symbol values exact n)
    {operands : List Tree} (all : engine.Comes resolver operands values) (place : Position) :
    exact ⟨place, symbol⟩ n
      (engine.outcome resolver (.node ⟨.operator role, ⟨place, symbol⟩⟩ operands)) := by
  obtain ⟨mapping, mapped, named, eager⟩ := mapped_of_operates h
  rw [← named] at eager
  let call : Call := ⟨mapping.implementation, ⟨place, symbol⟩, engine.context⟩
  obtain ⟨outcome, isOutcome, exact⟩ := h.applied (show call.name = _ from named)
  rw [outcome_operator configured mapped all eager isOutcome]
  exact exact

theorem outcome_equal_self (configured : engine.Configured) {v : Value}
    (first : engine.outcome resolver x = .ok v) (second : engine.outcome resolver y = .ok v)
    (place : Position) : engine.outcome resolver (between place "==" x y) = .ok (.boolean true) := by
  rw [← Value.equal_equivalence.refl v]
  exact outcome_equal configured (.cons first (.cons second .nil)) place

end Operators

section Laws

variable {t u : Instant} {d : Duration}

theorem outcome_difference (configured : engine.Configured)
    (isX : engine.outcome resolver x = .ok (.instant t)) (isY : engine.outcome resolver y = .ok (.instant u))
    (p : Position) : engine.outcome resolver (between p "-" x y) = .ok (.duration (t.since u)) :=
  (exact_of_operates configured (.since t u) (.cons isX (.cons isY .nil)) p).eq_ok rfl

theorem outcome_negative (configured : engine.Configured)
    (isX : engine.outcome resolver x = .ok (.duration d)) (p : Position) :
    engine.outcome resolver (negative p x) = .ok (.duration (-d)) :=
  (exact_of_operates configured (.opposite d) (.cons isX .nil) p).eq_ok rfl

/-- The way from an instant to another leads to that one. -/
theorem outcome_there (configured : engine.Configured)
    (isX : engine.outcome resolver x = .ok (.instant u)) (isY : engine.outcome resolver y = .ok (.instant t))
    (isZ : engine.outcome resolver z = .ok (.instant u)) (p q : Position) :
    engine.outcome resolver (between p "+" x (between q "-" y z)) = .ok (.instant t) := by
  have way := outcome_difference configured isY isZ q
  have arrives : t.nanos = u.nanos + (t.since u).nanos := (add_sub_cancel u.nanos t.nanos).symm
  exact (exact_of_operates configured (.later u (t.since u)) (.cons isX (.cons way .nil)) p).eq_ok arrives

/-- Where an instant that is moved gets to, it can be moved back from, and it is as far from there as it
was moved. -/
theorem outcome_back (configured : engine.Configured)
    (isX : engine.outcome resolver x = .ok (.instant t)) (isY : engine.outcome resolver y = .ok (.duration d))
    {v : Value} (moves : engine.outcome resolver (between p "+" x y) = .ok v) (q : Position) :
    (engine.outcome resolver z = .ok (.duration d) →
        engine.outcome resolver (between q "-" (between p "+" x y) z) = .ok (.instant t)) ∧
      (engine.outcome resolver z = .ok (.instant t) →
        engine.outcome resolver (between q "-" (between p "+" x y) z) = .ok (.duration d)) := by
  have exact := exact_of_operates configured (.later t d) (.cons isX (.cons isY .nil)) p
  obtain ⟨moved, rfl, gets⟩ := (exact.value v).mp moves
  constructor
  · intro isZ
    have start : t.nanos = moved.nanos - d.nanos := by omega
    exact (exact_of_operates configured (.earlier moved d) (.cons moves (.cons isZ .nil)) q).eq_ok start
  · intro isZ
    have way : d.nanos = moved.nanos - t.nanos := by omega
    exact (exact_of_operates configured (.since moved t) (.cons moves (.cons isZ .nil)) q).eq_ok way

/-- Moving an instant back is moving it by the opposite, where there is such an instant. -/
theorem outcome_earlier_iff (configured : engine.Configured)
    (isX : engine.outcome resolver x = .ok (.instant t)) (isY : engine.outcome resolver y = .ok (.duration d))
    (isZ : engine.outcome resolver z = .ok (.instant t)) (isW : engine.outcome resolver w = .ok (.duration d))
    (p q r : Position) (v : Value) :
    engine.outcome resolver (between p "-" x y) = .ok v ↔
      engine.outcome resolver (between r "+" z (negative q w)) = .ok v := by
  have opposite := outcome_negative configured isW q
  have earlier := exact_of_operates configured (.earlier t d) (.cons isX (.cons isY .nil)) p
  have later := exact_of_operates configured (.later t (-d)) (.cons isZ (.cons opposite .nil)) r
  exact (earlier.value v).trans (later.value v).symm

end Laws

/-- Operators on times are exact within their limits, and fail outside. So an instant is reached by adding
the way to it, moving one is undone by moving it back, and that is the same as moving it by the opposite. -/
theorem times_exact (engine : Engine) (configured : engine.Configured) (resolver : Resolver) :
    let comes := fun (v : Value) (x : Tree) => engine.outcome resolver x = .ok v
    (∀ (source : String) (tree : Tree), engine.parse source = .ok tree →
        engine.evaluate source resolver = engine.outcome resolver tree) ∧
      (∀ (role : Role) (symbol : String) (values : List Value) (n : ℤ)
          (exact : Span → ℤ → Except Failure Value → Prop) (operands : List Tree) (place : Position),
        Operates role symbol values exact n → engine.Comes resolver operands values →
          exact ⟨place, symbol⟩ n
            (engine.outcome resolver (.node ⟨.operator role, ⟨place, symbol⟩⟩ operands))) ∧
      ∀ (t u : Instant) (d : Duration) (p q r : Position) (x y z w : Tree),
        (comes (.instant u) x → comes (.instant t) y → comes (.instant u) z → comes (.instant t) w →
          comes (.boolean true) (between r "==" (between p "+" x (between q "-" y z)) w)) ∧
        (comes (.instant t) x → comes (.duration d) y → ∀ v, comes v (between p "+" x y) →
          (comes (.duration d) z → comes (.instant t) w →
            comes (.boolean true) (between r "==" (between q "-" (between p "+" x y) z) w)) ∧
          (comes (.instant t) z → comes (.duration d) w →
            comes (.boolean true) (between r "==" (between q "-" (between p "+" x y) z) w))) ∧
        (comes (.instant t) x → comes (.duration d) y → comes (.instant t) z → comes (.duration d) w →
          ∀ v, comes v (between p "-" x y) ↔ comes v (between r "+" z (negative q w))) := by
  intro comes
  refine ⟨fun _ _ => evaluate_of_parse, fun _ _ _ _ _ _ place operates all =>
    exact_of_operates configured operates all place, fun t u d p q r x y z w => ⟨?there, ?back, ?earlier⟩⟩
  case there =>
    intro isX isY isZ isW
    exact outcome_equal_self configured (outcome_there configured isX isY isZ p q) isW r
  case back =>
    intro isX isY v moves
    constructor
    · intro isZ isW
      exact outcome_equal_self configured ((outcome_back configured isX isY moves q).1 isZ) isW r
    · intro isZ isW
      exact outcome_equal_self configured ((outcome_back configured isX isY moves q).2 isZ) isW r
  case earlier =>
    intro isX isY isZ isW v
    exact outcome_earlier_iff configured isX isY isZ isW p q r v

/-- The whole range of instants can be crossed, but not left by a nanosecond. -/
theorem times_exact_limits :
    let first : Instant := ⟨firstInstant, by decide, by decide⟩
    let last : Instant := ⟨lastInstant, by decide, by decide⟩
    let tick : Duration := ⟨1, by decide, by decide⟩
    let resolver : Resolver := fun name =>
      some (if name = "u" then .instant first else if name = "t" then .instant last else .duration tick)
    let named := fun name : String => Tree.leaf ⟨.name, .whole name⟩
    let outcome := ({} : Engine).outcome resolver
    outcome (between .start "==" (between .start "+" (named "u") (between .start "-" (named "t") (named "u")))
        (named "t")) = .ok (.boolean true) ∧
      outcome (between .start "+" (named "t") (named "d")) = .error (overflow ⟨.start, "+"⟩) ∧
      outcome (between .start "==" (between .start "-" (between .start "+" (named "u") (named "d"))
        (named "u")) (named "d")) = .ok (.boolean true) := by
  intro first last tick resolver named outcome
  have isFirst : outcome (named "u") = .ok (.instant first) := outcome_name (by decide +kernel) rfl
  have isLast : outcome (named "t") = .ok (.instant last) := outcome_name (by decide +kernel) rfl
  have isTick : outcome (named "d") = .ok (.duration tick) := outcome_name (by decide +kernel) rfl
  obtain ⟨-, exact, laws⟩ := times_exact {} .new resolver
  have moved : outcome (between .start "+" (named "u") (named "d")) =
      .ok (.instant ⟨firstInstant + 1, by decide, by decide⟩) :=
    (exact _ _ _ _ _ _ _ (.later first tick) (.cons isFirst (.cons isTick .nil))).eq_ok rfl
  refine ⟨?_, ?_, ?_⟩
  · exact (laws last first tick .start .start .start _ _ _ _).1 isFirst isLast isFirst isLast
  · refine ((exact _ _ _ _ _ _ _ (.later last tick) (.cons isLast (.cons isTick .nil))).error _).mpr ?_
    exact ⟨by decide, rfl⟩
  · exact ((laws first first tick .start .start .start _ _ _ _).2.1 isFirst isTick _ moved).2 isFirst isTick

end Engine

end Formulary
