import Formulary.Proofs.Engine.Integers
import Formulary.Proofs.Library.Dates

set_option autoImplicit false

/-!
# Dates in sources

In UTC a date is made of all numbers that the calendar has a date and time for, and of no others. The numbers
can be read back from it, and dates are in the order of the numbers they are made of.
-/

namespace Formulary

namespace Engine

open Decimal Library Time

variable {engine : Engine} {resolver : Resolver} {xs ys : List Decimal} {name other : String}
  {operands others : List Tree} {r s : Reading}

/-- A call by which a date is made of integers, three or six of them. -/
structure MakesDate (engine : Engine) (resolver : Resolver) (xs : List Decimal) (name : String)
    (operands : List Tree) : Prop where
  named : Text.upper name = Text.upper "DT_DATE_NEW"
  counted : xs.length = 3 ∨ xs.length = 6
  whole : ∀ x ∈ xs, ∃ n : ℤ, x.toRat = n
  comes : engine.Comes resolver operands (xs.map .number)

namespace MakesDate

theorem isInteger (makes : engine.MakesDate resolver xs name operands) : ∀ x ∈ xs, x.isInteger = true :=
  fun x member => isInteger_iff.mpr (makes.whole x member)

theorem outcome_eq (configured : engine.Configured) (makes : engine.MakesDate resolver xs name operands)
    (place : Position) : engine.outcome resolver (.called place name operands) =
      Failure.lift (dateOf ⟨place, name⟩ engine.context.zone xs (xs.map truncated)) :=
  outcome_date configured makes.named makes.counted makes.isInteger makes.comes place

theorem outcome_eq_ok_iff (configured : engine.Configured) (utc : engine.context.zone.KeepsUtc)
    (makes : engine.MakesDate resolver xs name operands) (place : Position) (v : Value) :
    engine.outcome resolver (.called place name operands) = .ok v ↔
      ∃ t r, v = .instant t ∧ Tells xs r ∧ r.Valid ∧ t.Shows r := by
  rw [makes.outcome_eq configured place, Failure.lift_eq_ok_iff, dateOf_eq_ok_iff utc makes.isInteger]

theorem exists_shown (configured : engine.Configured) (utc : engine.context.zone.KeepsUtc)
    (makes : engine.MakesDate resolver xs name operands) (tells : Tells xs r) (valid : r.Valid)
    (place : Position) : ∃ t, t.Shows r ∧
      engine.outcome resolver (.called place name operands) = .ok (.instant t) := by
  obtain ⟨t, isShown⟩ := Instant.exists_shows valid
  exact ⟨t, isShown, (makes.outcome_eq_ok_iff configured utc place _).mpr ⟨t, r, rfl, tells, valid, isShown⟩⟩

/-- A comparison of two dates compares the numbers, the years first. -/
theorem outcome_less (configured : engine.Configured) (utc : engine.context.zone.KeepsUtc)
    (makes : engine.MakesDate resolver xs name operands) (makes' : engine.MakesDate resolver ys other others)
    (tells : Tells xs r) (tells' : Tells ys s) (valid : r.Valid) (valid' : s.Valid) (p q q' : Position) :
    engine.outcome resolver (.between p "<" (.called q name operands) (.called q' other others)) =
      .ok (.boolean (decide (r.fields < s.fields))) := by
  obtain ⟨t, isShown, first⟩ := makes.exists_shown configured utc tells valid q
  obtain ⟨u, isShown', second⟩ := makes'.exists_shown configured utc tells' valid' q'
  have same : (compare t.nanos u.nanos).isLT = decide (r.fields < s.fields) := by
    rw [Bool.eq_iff_iff, decide_eq_true_eq, Ordering.isLT_iff_eq_lt, compare_lt_iff_lt]
    exact isShown.lt_iff isShown' valid valid'
  rw [← same]
  exact outcome_comparison configured .less rfl (.cons first (.cons second .nil)) p

end MakesDate

/-- The calls that make a date of integers succeed on the components of valid readings, to which the date can
be read back, and they fail on all others. -/
theorem dates_exact (engine : Engine) (configured : engine.Configured)
    (utc : engine.context.zone.KeepsUtc) (resolver : Resolver) :
    let outcome := engine.outcome resolver
    (∀ (source : String) (tree : Tree), engine.parse source = .ok tree →
        engine.evaluate source resolver = outcome tree) ∧
      (∀ (xs : List Decimal) (name : String) (operands : List Tree) (place : Position),
        engine.MakesDate resolver xs name operands →
          (∀ v, outcome (.called place name operands) = .ok v ↔
            ∃ t r, v = .instant t ∧ Tells xs r ∧ r.Valid ∧ t.Shows r) ∧
          ((∃ v, outcome (.called place name operands) = .ok v) ↔ ∃ r, Tells xs r ∧ r.Valid) ∧
          ∀ failure, outcome (.called place name operands) = .error failure →
            ∃ message, failure = (⟨.raised message, ⟨place, name⟩, [], none⟩ : Error)) ∧
      ∀ (xs ys : List Decimal) (name other : String) (operands others : List Tree) (p q q' : Position)
          (r s : Reading),
        engine.MakesDate resolver xs name operands → engine.MakesDate resolver ys other others →
          Tells xs r → Tells ys s → r.Valid → s.Valid →
            outcome (.between p "<" (.called q name operands) (.called q' other others)) =
              .ok (.boolean (decide (r.fields < s.fields))) := by
  intro outcome
  refine ⟨fun _ _ => evaluate_of_parse, ?makes, ?order⟩
  case makes =>
    intro xs name operands place makes
    refine ⟨makes.outcome_eq_ok_iff configured utc place, ⟨?_, ?_⟩, ?_⟩
    · rintro ⟨v, made⟩
      obtain ⟨t, r, -, tells, valid, -⟩ := (makes.outcome_eq_ok_iff configured utc place v).mp made
      exact ⟨r, tells, valid⟩
    · rintro ⟨r, tells, valid⟩
      obtain ⟨t, -, made⟩ := makes.exists_shown configured utc tells valid place
      exact ⟨_, made⟩
    · intro failure fails
      have lifted := (makes.outcome_eq configured place).symm.trans fails
      obtain ⟨e, failed, rfl⟩ := Failure.exists_of_lift_eq_error lifted
      obtain ⟨message, rfl⟩ := dateOf_error failed
      exact ⟨message, rfl⟩
  case order =>
    intro xs ys name other operands others p q q' r s makes makes' tells tells' valid valid'
    exact makes.outcome_less configured utc makes' tells tells' valid valid' p q q'

/-- There is a 29 February in 2024, but none in 2023; and it is in the month 2, not in one that is 2 in the
last 32 bits. -/
theorem dates_exact_leap :
    let resolver : Resolver := fun name => some (.number (if name = "y" then ⟨2024, 0⟩
      else if name = "m" then ⟨2, 0⟩ else if name = "d" then ⟨29, 0⟩
      else if name = "c" then ⟨2023, 0⟩ else ⟨4294967298, 0⟩))
    let named := fun name : String => Tree.leaf ⟨.name, .whole name⟩
    let date := fun year month day : String =>
      Tree.called .start "DT_DATE_NEW" [named year, named month, named day]
    let outcome := ({} : Engine).outcome resolver
    (∃ t : Instant, outcome (date "y" "m" "d") = .ok (.instant t) ∧ t.Shows ⟨⟨2024, 2, 29⟩, 0, 0, 0⟩) ∧
      (¬∃ v, outcome (date "c" "m" "d") = .ok v) ∧ (¬∃ v, outcome (date "y" "w" "d") = .ok v) ∧
      outcome (.between .start "<" (date "y" "m" "m") (date "y" "m" "d")) = .ok (.boolean true) := by
  intro resolver named date outcome
  obtain ⟨-, made, order⟩ := dates_exact {} .new (fun _ => rfl) resolver
  have isYear : outcome (named "y") = .ok (.number ⟨2024, 0⟩) := outcome_name (by decide +kernel) rfl
  have isMonth : outcome (named "m") = .ok (.number ⟨2, 0⟩) := outcome_name (by decide +kernel) rfl
  have isDay : outcome (named "d") = .ok (.number ⟨29, 0⟩) := outcome_name (by decide +kernel) rfl
  have isCommon : outcome (named "c") = .ok (.number ⟨2023, 0⟩) := outcome_name (by decide +kernel) rfl
  have isWide : outcome (named "w") = .ok (.number ⟨4294967298, 0⟩) := outcome_name (by decide +kernel) rfl
  have makes {a b c : Tree} {x y z : Decimal} (isX : outcome a = .ok (.number x))
      (isY : outcome b = .ok (.number y)) (isZ : outcome c = .ok (.number z))
      (whole : ∀ w ∈ [x, y, z], w.isInteger = true) :
      ({} : Engine).MakesDate resolver [x, y, z] "DT_DATE_NEW" [a, b, c] :=
    ⟨rfl, .inl rfl, fun w member => isInteger_iff.mp (whole w member), .cons isX (.cons isY (.cons isZ .nil))⟩
  have leap : Tells [⟨2024, 0⟩, ⟨2, 0⟩, ⟨29, 0⟩] ⟨⟨2024, 2, 29⟩, 0, 0, 0⟩ := (tells_iff (by decide)).mpr rfl
  have early : Tells [⟨2024, 0⟩, ⟨2, 0⟩, ⟨2, 0⟩] ⟨⟨2024, 2, 2⟩, 0, 0, 0⟩ := (tells_iff (by decide)).mpr rfl
  have leapValid : Reading.Valid ⟨⟨2024, 2, 29⟩, 0, 0, 0⟩ := by decide
  have earlyValid : Reading.Valid ⟨⟨2024, 2, 2⟩, 0, 0, 0⟩ := by decide
  have makesLeap := makes isYear isMonth isDay (by decide)
  refine ⟨?leap, ?common, ?wide, ?order⟩
  case leap =>
    obtain ⟨v, isMade⟩ := (made _ _ _ .start makesLeap).2.1.mpr ⟨_, leap, leapValid⟩
    obtain ⟨t, r, rfl, tells, -, isShown⟩ := ((made _ _ _ .start makesLeap).1 v).mp isMade
    obtain rfl : r = ⟨⟨2024, 2, 29⟩, 0, 0, 0⟩ := Reading.eq_of_fields ((tells_iff (by decide)).mp tells)
    exact ⟨t, isMade, isShown⟩
  case common =>
    rw [(made _ _ _ .start (makes isCommon isMonth isDay (by decide))).2.1]
    rintro ⟨r, tells, valid⟩
    obtain rfl : r = ⟨⟨2023, 2, 29⟩, 0, 0, 0⟩ := Reading.eq_of_fields ((tells_iff (by decide)).mp tells)
    exact absurd valid.date.day.2 (by decide)
  case wide =>
    rw [(made _ _ _ .start (makes isYear isWide isDay (by decide))).2.1]
    rintro ⟨r, tells, valid⟩
    obtain rfl : r = ⟨⟨2024, 4294967298, 29⟩, 0, 0, 0⟩ :=
      Reading.eq_of_fields ((tells_iff (by decide)).mp tells)
    exact absurd valid.date.month.2 (by decide)
  case order =>
    exact order _ _ _ _ _ _ .start .start .start _ _ (makes isYear isMonth isMonth (by decide)) makesLeap
      early leap earlyValid leapValid

end Engine

end Formulary
