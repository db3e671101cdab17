import Formulary.Proofs.Decimal.Representation
import Formulary.Proofs.Library.Rounding

set_option autoImplicit false

/-!
# Where integers are asked for

Indices, scales and the components of dates are integers. A number is one if rounding it down or up does not
change it, and what is then taken from it is the number itself.
-/

namespace Formulary

namespace Decimal

variable {x : Decimal}

/-- In whatever mode, rounding changes the numbers that are no integers, and only those. -/
theorem equal_roundInteger (mode : Rounding) (x : Decimal) :
    x.equal (roundInteger mode x) = x.isInteger := by
  rw [Bool.eq_iff_iff, equal_iff, isInteger_iff, toRat_roundInteger]
  constructor
  · exact fun same => ⟨_, same⟩
  · rintro ⟨n, same⟩
    rw [same, Rounding.toInt_intCast]

/-- No fraction is lost. -/
theorem toRat_truncated (whole : x.isInteger = true) : (x.truncated : ℚ) = x.toRat := by
  obtain ⟨n, same⟩ := isInteger_iff.mp whole
  rw [truncated_eq same, same]

end Decimal

theorem Validator.integer_eq_none_iff {x : Decimal} :
    Validator.integer (.number x) = none ↔ x.isInteger = true := by
  rw [← Option.isNone_iff_eq_none, Validator.integer, Validator.isNone_onNumbers]

namespace Library

open Decimal

variable {call : Call} {x : Decimal}

/-- A number that does not fit is an error of the call that would use it. -/
def outOfRange (span : Span) (x : Decimal) : Error :=
  ⟨.raised (x.toText ++ " is out of range"), span, [], none⟩

section Scales

/-- What a call comes to whose arithmetic has the result. -/
def numberOf (span : Span) : Except ArithmeticError Decimal → Except Error Value
  | .ok r => .ok (.number r)
  | .error e => .error ⟨.arithmetic e, span, [], none⟩

theorem arithmetic_eq_done (call : Call) (result : Except ArithmeticError Decimal) :
    call.arithmetic result = .done (numberOf call.span result) := by
  cases result <;> rfl

theorem applied_scale (named : Text.upper call.name = Text.upper "ROUND") (y : Decimal)
    (whole : x.isInteger = true) {n : ℤ} (same : x.toRat = n) :
    applied call [.number y, .number x] = .done (if fitsWord n then
      numberOf call.span (call.context.arithmetic.round y n) else .error (outOfRange call.span x)) := by
  rw [applied_round_scale named y whole, integer_number, truncated_eq same]
  split
  · rw [pure_bind, arithmetic_eq_done]
  · rfl

end Scales

section Components

/-- The numbers are taken in their order, and the first that does not fit is reported. -/
theorem mapM_integer (call : Call) (xs : List Decimal) :
    (xs.map fun x => .value (.number x)).mapM call.integer =
      match xs.find? fun x => !fitsWord x.truncated with
      | some x => call.fail (.raised (x.toText ++ " is out of range"))
      | none => pure (xs.map truncated) := by
  induction xs with
  | nil => rfl
  | cons x xs ih =>
    rw [List.map_cons, List.mapM_cons, integer_number, ih, List.find?_cons]
    cases fitsWord x.truncated with
    | false => rfl -- the others are not looked at
    | true =>
      simp only [if_true, pure_bind, Bool.not_true]
      cases xs.find? fun x => !fitsWord x.truncated <;> rfl

theorem meets_integers {xs : List Decimal} (whole : ∀ x ∈ xs, x.isInteger = true) :
    List.Forall₂ Param.Meets (integers xs.length).params (xs.map .number) := by
  induction xs with
  | nil => exact .nil
  | cons x xs ih =>
    obtain ⟨first, rest⟩ := List.forall_mem_cons.mp whole
    exact .cons (meets_integer first) (ih rest)

/-- The instant that the six parts of a reading tell in a zone, if they tell one. -/
def instantOf (span : Span) (zone : Time.Zone) (parts : List ℤ) : Except Error Value :=
  match (reading? parts).bind zone.instant? with
  | some t => .ok (.instant t)
  | none => .error ⟨.raised ("Invalid date-time: " ++ readingText parts), span, [], none⟩

/-- The instant of a date whose components are the integers `ns`, at midnight if they tell no time. -/
def dateOf (span : Span) (zone : Time.Zone) (xs : List Decimal) (ns : List ℤ) : Except Error Value :=
  match xs.find? fun x => !fitsWord x.truncated with
  | some x => .error (outOfRange span x)
  | none => instantOf span zone (ns ++ List.replicate (6 - ns.length) 0)

theorem newDate_numbers {xs : List Decimal} (counted : xs.length = 3 ∨ xs.length = 6) :
    newDate call (xs.map fun x => .value (.number x)) =
      .done (dateOf call.span call.context.zone xs (xs.map truncated)) := by
  have all : (xs.map fun x => Argument.value (.number x)).take 6 = xs.map fun x => .value (.number x) := by
    refine List.take_of_length_le ?_
    rw [List.length_map]
    omega
  have supported : ¬(decide (xs.length ≠ 3) && decide (xs.length ≠ 6)) = true := by
    simp only [Bool.and_eq_true, decide_eq_true_eq]
    omega
  unfold newDate dateOf
  rw [all, mapM_integer, List.length_map]
  cases xs.find? fun x => !fitsWord x.truncated with
  | some x => rfl
  | none =>
    rw [pure_bind, if_neg supported]
    dsimp only [instantOf]
    cases (reading? (xs.map truncated ++ List.replicate (6 - (xs.map truncated).length) 0)).bind
      call.context.zone.instant? <;> rfl

theorem find?_date {count : ℕ} (counted : count = 3 ∨ count = 6) :
    standard.find? "DT_DATE_NEW" count = some [⟨integers count, newDate⟩] := by
  rcases counted with rfl | rfl <;> rfl

theorem applied_date {xs : List Decimal} (named : Text.upper call.name = Text.upper "DT_DATE_NEW")
    (counted : xs.length = 3 ∨ xs.length = 6) (whole : ∀ x ∈ xs, x.isInteger = true) :
    applied call (xs.map .number) =
      .done (dateOf call.span call.context.zone xs (xs.map truncated)) := by
  have found : standard.find? "DT_DATE_NEW" (xs.map Value.number).length =
      some [⟨integers xs.length, newDate⟩] := by
    rw [List.length_map, find?_date counted]
  calc applied call (xs.map .number)
      = Overload.dispatch [⟨integers xs.length, newDate⟩] call ((xs.map .number).map .value) :=
        applied_of_find? _ found named
    _ = newDate call ((xs.map .number).map .value) := Overload.dispatch_of_meets (meets_integers whole)
    _ = newDate call (xs.map fun x => .value (.number x)) := by
        rw [List.map_map]
        rfl
    _ = .done (dateOf call.span call.context.zone xs (xs.map truncated)) := newDate_numbers counted

end Components

section Indices

variable {elements : List Value}

def indexed : List Overload :=
  [⟨{ params := [.only .array, numberParam.checked .integer] }, element⟩]

theorem find?_element : standard.find? elementName 2 = some indexed := rfl

theorem meets_array (elements : List Value) : (Param.only .array).Meets (.array elements) :=
  ⟨rfl, nofun⟩

theorem element?_eq_some_iff (whole : x.isInteger = true) {v : Value} : element? elements x = some v ↔
    ∃ position : ℕ, x.toRat = position ∧ elements[position]? = some v := by
  obtain ⟨n, same⟩ := isInteger_iff.mp whole
  unfold element?
  split
  next negative =>
    have below := isNegative_iff.mp negative
    constructor
    · nofun
    · rintro ⟨position, isPosition, -⟩
      rw [isPosition] at below
      exact absurd below (Nat.cast_nonneg position).not_gt
  next nonneg =>
    have above : 0 ≤ n := by
      have := not_lt.mp (mt isNegative_iff.mpr nonneg)
      rw [same] at this
      exact_mod_cast this
    obtain ⟨position, rfl⟩ := Int.eq_ofNat_of_zero_le above
    rw [truncated_eq same, Int.toNat_natCast, same]
    constructor
    · exact fun isElement => ⟨position, Int.cast_natCast position, isElement⟩
    · rintro ⟨other, isPosition, isElement⟩
      obtain rfl : position = other := by exact_mod_cast isPosition
      exact isElement

theorem element?_eq_none_iff (whole : x.isInteger = true) :
    element? elements x = none ↔ ¬(0 ≤ x.toRat ∧ x.toRat < elements.length) := by
  rw [← not_iff_not, ← ne_eq, Option.ne_none_iff_exists', not_not]
  simp only [element?_eq_some_iff whole]
  constructor
  · rintro ⟨v, position, isPosition, isElement⟩
    obtain ⟨inside, -⟩ := List.getElem?_eq_some_iff.mp isElement
    rw [isPosition]
    exact ⟨Nat.cast_nonneg position, Nat.cast_lt.mpr inside⟩
  · rintro ⟨above, below⟩
    obtain ⟨n, same⟩ := isInteger_iff.mp whole
    rw [same] at above below ⊢
    obtain ⟨position, rfl⟩ := Int.eq_ofNat_of_zero_le (show 0 ≤ n by exact_mod_cast above)
    have inside : position < elements.length := by exact_mod_cast below
    exact ⟨elements[position], position, by simp, List.getElem?_eq_getElem inside⟩

/-- The outcome of an access to an element: the one at the position, if the array is long enough. -/
structure Indexes (elements : List Value) (x : Decimal) (span : Span) (outcome : Except Failure Value) :
    Prop where
  value (v : Value) : outcome = .ok v ↔ ∃ position : ℕ, x.toRat = position ∧ elements[position]? = some v
  error (failure : Failure) : outcome = .error failure ↔ ¬(0 ≤ x.toRat ∧ x.toRat < elements.length) ∧
    failure = (⟨.indexOutOfBounds x.toText elements.length, span, [], none⟩ : Error)

def elementOf (span : Span) (elements : List Value) (x : Decimal) : Except Error Value :=
  match element? elements x with
  | some v => .ok v
  | none => .error ⟨.indexOutOfBounds x.toText elements.length, span, [], none⟩

theorem indexes_elementOf (whole : x.isInteger = true) (span : Span) (elements : List Value) :
    Indexes elements x span (Failure.lift (elementOf span elements x)) where
  value v := by
    rw [← element?_eq_some_iff whole, elementOf]
    cases element? elements x <;> simp
  error failure := by
    rw [← element?_eq_none_iff whole, elementOf]
    cases element? elements x <;> simp [eq_comm]

theorem applied_element (named : Text.upper call.name = Text.upper elementName)
    (whole : x.isInteger = true) (elements : List Value) :
    applied call [.array elements, .number x] = .done (elementOf call.span elements x) := by
  have selected : applied call [.array elements, .number x] =
      element call [.value (.array elements), .value (.number x)] :=
    (applied_of_find? indexed find?_element named).trans
      (Overload.dispatch_of_meets (.cons (meets_array elements) (.cons (meets_integer whole) .nil)))
  rw [selected]
  simp only [element, Call.onValues, Call.binary, Argument.evaluate, pure_bind, elementOf]
  cases element? elements x <;> rfl

/-- An index that is no integer is not even compared with the length. -/
theorem applied_element_fraction (named : Text.upper call.name = Text.upper elementName)
    (fraction : x.isInteger = false) (elements : List Value) :
    applied call [.array elements, .number x] =
      call.fail (.invalidArgument ("value is not an integer: " ++ x.toText)) := by
  have complaint : Validator.integer (.number x) = some ("value is not an integer: " ++ x.toText) :=
    if_neg (Bool.eq_false_iff.mp fraction)
  have complaints : Signature.allComplaints { params := [.only .array, numberParam.checked .integer] }
      [.value (.array elements), .value (.number x)] = ["value is not an integer: " ++ x.toText] := by
    simp [Signature.allComplaints, Signature.complaints, Signature.param?, numberParam, Param.checked,
      Param.only, complaint]
  exact (applied_of_find? indexed find?_element named).trans
    (Overload.dispatch_of_complaints (.cons rfl (.cons rfl .nil)) complaints)

end Indices

end Library

end Formulary
