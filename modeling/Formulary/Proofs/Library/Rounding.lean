import Formulary.Library.Standard
import Formulary.Proofs.Decimal.Scaling
import Formulary.Proofs.Function.Lookup
import Formulary.Proofs.Function.Values

set_option autoImplicit false

/-!
# The functions that round

`FLOOR`, `CEILING` and `ROUND` give the numbers that rounding to a scale prescribes. Only `ROUND` follows
the mode of the arithmetic, and only it can fail, where the scale is too low.
-/

namespace Formulary.Library

open Decimal Rounding

/-- What a call of a standard function comes to on the values of its arguments. -/
def applied (call : Call) (values : List Value) : Routine Value :=
  match standard.find? call.name values.length with
  | some overloads => Overload.dispatch overloads call (values.map .value)
  | none => call.unsupported

variable {call : Call} {x : Decimal}

theorem applied_of_find? {name : String} {values : List Value} (overloads : List Overload)
    (found : standard.find? name values.length = some overloads)
    (named : Text.upper call.name = Text.upper name) :
    applied call values = Overload.dispatch overloads call (values.map .value) := by
  rw [applied, FunctionTable.find?_congr _ named, found]

/-- A function of one number that never fails. -/
def always (compute : Decimal → Decimal) : Overload :=
  ⟨numbers 1, onNumber fun _ x => some (compute x)⟩

theorem find?_floor : standard.find? "FLOOR" 1 = some [always floor] := rfl

theorem find?_ceiling : standard.find? "CEILING" 1 = some [always ceiling] := rfl

theorem applied_always {known : String} {compute : Decimal → Decimal}
    (found : standard.find? known 1 = some [always compute])
    (named : Text.upper call.name = Text.upper known) (x : Decimal) :
    applied call [.number x] = pure (.number (compute x)) :=
  applied_of_find? [always compute] found named

theorem applied_round (named : Text.upper call.name = Text.upper "ROUND") (x : Decimal) :
    applied call [.number x] = call.arithmetic (call.context.arithmetic.round x 0) :=
  applied_of_find? [⟨numbers 1, round⟩] rfl named

def roundsToScale : Overload :=
  ⟨{ params := [numberParam, numberParam.checked .integer] }, round⟩

theorem find?_scale : standard.find? "ROUND" 2 = some [roundsToScale] := rfl

theorem meets_number (x : Decimal) : numberParam.Meets (.number x) :=
  ⟨rfl, nofun⟩

/-- What is checked is whether it is an integer, however it is written. -/
theorem meets_integer (whole : x.isInteger = true) : (numberParam.checked .integer).Meets (.number x) where
  accepted := rfl
  passes := by
    intro validator member
    obtain rfl := List.mem_singleton.mp member
    exact if_pos whole

theorem integer_number (call : Call) (x : Decimal) : call.integer (.value (.number x)) =
    if fitsWord x.truncated then pure x.truncated
    else call.fail (.raised (x.toText ++ " is out of range")) := rfl

theorem applied_round_scale (named : Text.upper call.name = Text.upper "ROUND") (x : Decimal)
    {places : Decimal} (whole : places.isInteger = true) :
    applied call [.number x, .number places] = (call.integer (.value (.number places)) >>= fun scale =>
      call.arithmetic (call.context.arithmetic.round x scale)) :=
  calc applied call [.number x, .number places]
      = Overload.dispatch [roundsToScale] call [.value (.number x), .value (.number places)] :=
        applied_of_find? [roundsToScale] find?_scale named
    _ = round call [.value (.number x), .value (.number places)] :=
        Overload.dispatch_of_meets (.cons (meets_number x) (.cons (meets_integer whole) .nil))
    _ = _ := rfl

theorem rounds_floor (x : Decimal) :
    Rounds .floor x 0 x.floor ∧ x.floor.toRat ≤ x.toRat ∧ x.toRat < x.floor.toRat + 1 := by
  have rounds : Rounds .floor x 0 x.floor := roundInteger_rounds .floor x
  rw [rounds.prescribed]
  exact ⟨rounds, toScale_floor_le x.toRat⟩

theorem rounds_ceiling (x : Decimal) :
    Rounds .ceiling x 0 x.ceiling ∧ x.ceiling.toRat - 1 < x.toRat ∧ x.toRat ≤ x.ceiling.toRat := by
  have rounds : Rounds .ceiling x 0 x.ceiling := roundInteger_rounds .ceiling x
  rw [rounds.prescribed]
  exact ⟨rounds, le_toScale_ceiling x.toRat⟩

/-- Rounding fails where the scale is below the limit and nowhere else. What it gives is prescribed by the
mode, and the shortcut for numbers that lose all their digits gives what rounding them directly does, at
every scale. -/
theorem rounding_prescribed (a : Arithmetic) (x : Decimal) (scale : ℤ) (xFits : fitsWord x.scale = true)
    (fits : fitsWord scale = true) :
    (∀ e, a.round x scale = .error e ↔ scale < -10000 ∧ e = .scaleOutOfRange scale) ∧
      (-10000 ≤ scale → ∃ r, a.round x scale = .ok r ∧ Rounds a.rounding x scale r) ∧
      (∀ mode, Rounds mode x 0 (roundInteger mode x) ∧ Rounds mode x scale (roundTo mode x scale)) ∧
      (∀ mode, x.isZero = false → x.isNegligible scale = true →
        (withScale mode (x.sliver scale) scale).toRat = (withScale mode x scale).toRat) ∧
      (∀ call, Text.upper call.name = Text.upper "FLOOR" →
        ∃ r, applied call [.number x] = pure (.number r) ∧
          Rounds .floor x 0 r ∧ r.toRat ≤ x.toRat ∧ x.toRat < r.toRat + 1) ∧
      (∀ call, Text.upper call.name = Text.upper "CEILING" →
        ∃ r, applied call [.number x] = pure (.number r) ∧
          Rounds .ceiling x 0 r ∧ r.toRat - 1 < x.toRat ∧ x.toRat ≤ r.toRat) ∧
      ∀ call, Text.upper call.name = Text.upper "ROUND" → call.context.arithmetic = a →
        applied call [.number x] = call.arithmetic (a.round x 0) ∧
          ∀ places : Decimal, places.isInteger = true → places.truncated = scale →
            applied call [.number x, .number places] = call.arithmetic (a.round x scale) := by
  refine ⟨fun _ => Arithmetic.round_eq_error_iff, Arithmetic.round_rounds a xFits fits, ?modes, ?shortcut,
    ?floor, ?ceiling, ?round⟩
  case modes => exact fun mode => ⟨roundInteger_rounds mode x, roundTo_rounds mode xFits fits⟩
  case shortcut =>
    intro mode nonzero negligible
    exact toRat_withScale_sliver mode (fitsWord_of_isNegligible xFits fits negligible) nonzero negligible
  case floor => exact fun call named => ⟨x.floor, applied_always find?_floor named x, rounds_floor x⟩
  case ceiling => exact fun call named => ⟨x.ceiling, applied_always find?_ceiling named x, rounds_ceiling x⟩
  case round =>
    rintro call named rfl
    refine ⟨applied_round named x, ?_⟩
    rintro places whole rfl
    rw [applied_round_scale named x whole, integer_number, if_pos fits, pure_bind]

/-- Away from zero 123.45 goes up to a power of ten that is far above it, but not to one that is out of
range. -/
theorem rounding_prescribed_far :
    let a : Arithmetic := { precision := 1, rounding := .up }
    let x : Decimal := ⟨12345, 2⟩
    a.round x (-9000) = .ok ⟨1, -9000⟩ ∧ Rounds .up x (-9000) ⟨1, -9000⟩ ∧
      (withScale .up (x.sliver (-9000)) (-9000)).toRat = (withScale .up x (-9000)).toRat ∧
      a.round x (-10001) = .error (.scaleOutOfRange (-10001)) := by
  intro a x
  obtain ⟨-, gives, -, shortcut, -⟩ := rounding_prescribed a x (-9000) (by decide) (by decide)
  obtain ⟨fails, -⟩ := rounding_prescribed a x (-10001) (by decide) (by decide)
  have isFar : a.round x (-9000) = .ok ⟨1, -9000⟩ := by decide +kernel
  obtain ⟨r, isResult, rounds⟩ := gives (by decide)
  rw [isFar] at isResult
  obtain rfl := Except.ok.inj isResult
  exact ⟨isFar, rounds, shortcut .up (by decide) (by decide +kernel), (fails _).mpr ⟨by decide, rfl⟩⟩

end Formulary.Library
