import Formulary.Proofs.Engine.Comparison
import Formulary.Proofs.Library.Integers

set_option autoImplicit false

/-!
# Integers in sources

A number is an integer if it is equal to itself rounded down, and to itself rounded up. Indices, scales and
components of dates are the numbers that are written, without any loss; those that are not integers are
rejected.
-/

namespace Formulary

namespace Engine

open Decimal Library

variable {engine : Engine} {resolver : Resolver} {name : String} {place : Position} {span : Span}
  {x y : Decimal} {a b : Tree}

section Rounding

theorem outcome_always (configured : engine.Configured) {known : String} {compute : Decimal → Decimal}
    (found : standard.find? known 1 = some [always compute]) (named : Text.upper name = Text.upper known)
    (isX : engine.outcome resolver a = .ok (.number x)) (place : Position) :
    engine.outcome resolver (.called place name [a]) = .ok (.number (compute x)) := by
  have eager : Eager name 1 := by
    refine eager_of_find? named found ?_
    change ∀ param ∈ (numbers 1).params ++ (numbers 1).variadic.toList, param.deferred = false
    decide
  refine outcome_function configured (.cons isX .nil) eager (applied_always found ?_ x)
  exact named

/-- Whether a number is an integer can be asked in a source. -/
theorem outcome_equal_rounded (configured : engine.Configured)
    (named : Text.upper name ∈ [Text.upper "FLOOR", Text.upper "CEILING"])
    (isX : engine.outcome resolver a = .ok (.number x)) (isX' : engine.outcome resolver b = .ok (.number x))
    (p q : Position) :
    engine.outcome resolver (.between p "==" a (.called q name [b])) = .ok (.boolean x.isInteger) := by
  simp only [List.mem_cons, List.not_mem_nil, or_false] at named
  rcases named with isFloor | isCeiling
  · rw [← equal_roundInteger .floor x]
    have rounds := outcome_always configured find?_floor isFloor isX' q
    exact outcome_equal configured (.cons isX (.cons rounds .nil)) p
  · rw [← equal_roundInteger .ceiling x]
    have rounds := outcome_always configured find?_ceiling isCeiling isX' q
    exact outcome_equal configured (.cons isX (.cons rounds .nil)) p

end Rounding

section Uses

theorem outcome_scale (configured : engine.Configured) (named : Text.upper name = Text.upper "ROUND")
    (whole : x.isInteger = true) (isY : engine.outcome resolver a = .ok (.number y))
    (isX : engine.outcome resolver b = .ok (.number x)) (place : Position) {n : ℤ} (same : x.toRat = n) :
    engine.outcome resolver (.called place name [a, b]) = Failure.lift (if fitsWord n then
      numberOf ⟨place, name⟩ (engine.context.arithmetic.round y n)
      else .error (outOfRange ⟨place, name⟩ x)) := by
  have eager : Eager name 2 := eager_of_find? named find?_scale (by decide)
  refine outcome_function configured (.cons isY (.cons isX .nil)) eager (applied_scale ?_ y whole same)
  exact named

theorem outcome_date (configured : engine.Configured) {xs : List Decimal} {operands : List Tree}
    (named : Text.upper name = Text.upper "DT_DATE_NEW") (counted : xs.length = 3 ∨ xs.length = 6)
    (whole : ∀ x ∈ xs, x.isInteger = true) (all : engine.Comes resolver operands (xs.map .number))
    (place : Position) : engine.outcome resolver (.called place name operands) =
      Failure.lift (dateOf ⟨place, name⟩ engine.context.zone xs (xs.map truncated)) := by
  have eager : Eager name (xs.map Value.number).length := by
    rw [List.length_map]
    refine eager_of_find? named (find?_date counted) ?_
    rcases counted with three | six
    · rw [three]
      decide
    · rw [six]
      decide
  exact outcome_function configured all eager (applied_date named counted whole)

theorem eager_element : Eager elementName 2 :=
  eager_of_find? rfl find?_element (by decide)

theorem outcome_indexes (configured : engine.Configured) (whole : x.isInteger = true)
    {elements : List Value} (isArray : engine.outcome resolver a = .ok (.array elements))
    (isX : engine.outcome resolver b = .ok (.number x)) (span : Span) :
    Indexes elements x span (engine.outcome resolver (.indexed span a b)) := by
  rw [outcome_indexed configured (.cons isArray (.cons isX .nil)) eager_element
    (applied_element rfl whole elements)]
  exact indexes_elementOf whole span elements

theorem outcome_fraction (configured : engine.Configured) (fraction : x.isInteger = false)
    {elements : List Value} (isArray : engine.outcome resolver a = .ok (.array elements))
    (isX : engine.outcome resolver b = .ok (.number x)) (span : Span) :
    engine.outcome resolver (.indexed span a b) =
      .error (⟨.invalidArgument ("value is not an integer: " ++ x.toText), span, [], none⟩ : Error) :=
  outcome_indexed configured (.cons isArray (.cons isX .nil)) eager_element
    (applied_element_fraction rfl fraction elements)

end Uses

/-- The numbers that are integers are those that rounding does not change. They are what the validator lets
through, and are then used for what they are: as the scale to which a number is rounded, as the components of
a date and as the positions of elements. -/
theorem integers_exact (engine : Engine) (configured : engine.Configured) (resolver : Resolver) :
    let outcome := engine.outcome resolver
    (∀ (source : String) (tree : Tree), engine.parse source = .ok tree →
        engine.evaluate source resolver = outcome tree) ∧
      (∀ x : Decimal, (x.isInteger = true ↔ x.equal x.floor = true) ∧
        (x.isInteger = true ↔ x.equal x.ceiling = true) ∧
        (x.isInteger = true ↔ ∃ n : ℤ, x.toRat = n) ∧
        (Validator.integer (.number x) = none ↔ x.isInteger = true)) ∧
      (∀ (x : Decimal) (a b : Tree) (p q : Position) (name : String),
        Text.upper name ∈ [Text.upper "FLOOR", Text.upper "CEILING"] →
          outcome a = .ok (.number x) → outcome b = .ok (.number x) →
            outcome (.between p "==" a (.called q name [b])) = .ok (.boolean x.isInteger)) ∧
      (∀ (x y : Decimal) (a b : Tree) (place : Position) (name : String),
        Text.upper name = Text.upper "ROUND" → Validator.integer (.number x) = none →
          outcome a = .ok (.number y) → outcome b = .ok (.number x) →
            ∃ n : ℤ, x.toRat = n ∧ outcome (.called place name [a, b]) =
              Failure.lift (if fitsWord n then numberOf ⟨place, name⟩ (engine.context.arithmetic.round y n)
                else .error (outOfRange ⟨place, name⟩ x))) ∧
      (∀ (xs : List Decimal) (operands : List Tree) (place : Position) (name : String),
        Text.upper name = Text.upper "DT_DATE_NEW" → xs.length = 3 ∨ xs.length = 6 →
          (∀ x ∈ xs, Validator.integer (.number x) = none) →
            engine.Comes resolver operands (xs.map .number) →
              ∃ ns : List ℤ, xs.map toRat = ns.map Int.cast ∧ outcome (.called place name operands) =
                Failure.lift (dateOf ⟨place, name⟩ engine.context.zone xs ns)) ∧
      ∀ (elements : List Value) (x : Decimal) (a b : Tree) (span : Span),
        outcome a = .ok (.array elements) → outcome b = .ok (.number x) →
          (Validator.integer (.number x) = none →
            Indexes elements x span (outcome (.indexed span a b))) ∧
          (Validator.integer (.number x) ≠ none → outcome (.indexed span a b) = .error
            (⟨.invalidArgument ("value is not an integer: " ++ x.toText), span, [], none⟩ : Error)) := by
  intro outcome
  refine ⟨fun _ _ => evaluate_of_parse, ?integers, ?rounded, ?scales, ?dates, ?indices⟩
  case integers =>
    intro x
    have down : x.equal x.floor = x.isInteger := equal_roundInteger .floor x
    have up : x.equal x.ceiling = x.isInteger := equal_roundInteger .ceiling x
    rw [down, up]
    exact ⟨.rfl, .rfl, isInteger_iff, Validator.integer_eq_none_iff⟩
  case rounded =>
    intro x a b p q name named isX isX'
    exact outcome_equal_rounded configured named isX isX' p q
  case scales =>
    intro x y a b place name named passes isY isX
    have whole := Validator.integer_eq_none_iff.mp passes
    obtain ⟨n, same⟩ := isInteger_iff.mp whole
    exact ⟨n, same, outcome_scale configured named whole isY isX place same⟩
  case dates =>
    intro xs operands place name named counted passes all
    have whole : ∀ x ∈ xs, x.isInteger = true :=
      fun x member => Validator.integer_eq_none_iff.mp (passes x member)
    refine ⟨xs.map truncated, ?_, outcome_date configured named counted whole all place⟩
    rw [List.map_map]
    exact List.map_congr_left fun x member => (toRat_truncated (whole x member)).symm
  case indices =>
    intro elements x a b span isArray isX
    constructor
    · intro passes
      exact outcome_indexes configured (Validator.integer_eq_none_iff.mp passes) isArray isX span
    · intro complains
      have fraction := Bool.eq_false_iff.mpr (mt Validator.integer_eq_none_iff.mpr complains)
      exact outcome_fraction configured fraction isArray isX span

/-- 2.000 is an integer, and so it is the last position of an array of three and a scale. -/
theorem integers_exact_written :
    let resolver : Resolver := fun name => some (
      if name = "a" then .array [.boolean true, .boolean false, .null]
      else .number (if name = "n" then ⟨2000, 3⟩ else ⟨-25, 1⟩))
    let named := fun name : String => Tree.leaf ⟨.name, .whole name⟩
    let outcome := ({} : Engine).outcome resolver
    outcome (.indexed (.whole "[]") (named "a") (named "n")) = .ok .null ∧
      outcome (.indexed (.whole "[]") (named "a") (named "x")) =
        .error (⟨.invalidArgument "value is not an integer: -2.5", .whole "[]", [], none⟩ : Error) ∧
      outcome (.between .start "==" (named "n") (.called .start "Floor" [named "n"])) = .ok (.boolean true) ∧
      outcome (.between .start "==" (named "x") (.called .start "Ceiling" [named "x"])) =
        .ok (.boolean false) ∧
      outcome (.called .start "ROUND" [named "x", named "n"]) = .ok (.number ⟨-25, 1⟩) ∧
      outcome (.called .start "DT_DATE_NEW" [named "n", named "n", named "n"]) =
        .ok (.instant ⟨-62101296000000000000, by decide, by decide⟩) := by
  intro resolver named outcome
  have isArray : outcome (named "a") = .ok (.array [.boolean true, .boolean false, .null]) :=
    outcome_name (by decide +kernel) rfl
  have isN : outcome (named "n") = .ok (.number ⟨2000, 3⟩) := outcome_name (by decide +kernel) rfl
  have isX : outcome (named "x") = .ok (.number ⟨-25, 1⟩) := outcome_name (by decide +kernel) rfl
  obtain ⟨-, -, rounded, scales, dates, indices⟩ := integers_exact {} .new resolver
  have passes : Validator.integer (.number ⟨2000, 3⟩) = none := by decide +kernel
  have two : toRat ⟨2000, 3⟩ = (2 : ℤ) := by norm_num [toRat]
  refine ⟨?element, ?fraction, ?floor, ?ceiling, ?scale, ?date⟩
  case element => exact (((indices _ _ _ _ _ isArray isN).1 passes).value _).mpr ⟨2, two, rfl⟩
  case fraction => exact (indices _ _ _ _ _ isArray isX).2 (by decide +kernel)
  case floor =>
    have whole : isInteger ⟨2000, 3⟩ = true := by decide +kernel
    exact (rounded _ _ _ .start .start "Floor" (by decide +kernel) isN isN).trans (by rw [whole])
  case ceiling =>
    have fraction : isInteger ⟨-25, 1⟩ = false := by decide +kernel
    exact (rounded _ _ _ .start .start "Ceiling" (by decide +kernel) isX isX).trans (by rw [fraction])
  case scale =>
    obtain ⟨n, same, rounds⟩ := scales _ _ _ _ .start "ROUND" rfl passes isX isN
    obtain rfl : n = 2 := by exact_mod_cast same.symm.trans two
    exact rounds
  case date =>
    obtain ⟨ns, same, made⟩ := dates [⟨2000, 3⟩, ⟨2000, 3⟩, ⟨2000, 3⟩] _ .start "DT_DATE_NEW" rfl
      (.inl rfl) (by simp [passes]) (.cons isN (.cons isN (.cons isN .nil)))
    have injective : Function.Injective (Int.cast : ℤ → ℚ) := Int.cast_injective
    obtain rfl : [2, 2, 2] = ns := List.map_injective_iff.mpr injective (by simp [← same, two])
    exact made

end Engine

end Formulary
