import Formulary.Decimal.Notation
import Formulary.Proofs.Decimal.Value
import Formulary.Proofs.Token.Spelling
import Mathlib.Data.Nat.Digits.Defs
import Mathlib.Tactic.FieldSimp
import Mathlib.Tactic.Ring

set_option autoImplicit false

/-!
# The numbers that written decimals mean

Digits have the value of their positions, a point divides those behind it by a power of ten, and an
exponent multiplies by one. Reading gives exactly that number, with the scale that is written, unless
the scale is no signed 64-bit number.
-/

namespace Formulary.Decimal

open Text Lexer

/-- The value of a digit, in decimal and in hexadecimal. -/
def digitOf (c : Char) : Nat :=
  "0123456789abcdef".toList.idxOf c.toLower

/-- The value of digits, the last of which counts ones. -/
def valueOf (base : Nat) (digits : List Char) : Nat :=
  Nat.ofDigits base (digits.reverse.map digitOf)

@[simp] theorem valueOf_nil (base : Nat) : valueOf base [] = 0 := rfl

theorem valueOf_append (base : Nat) (front back : List Char) :
    valueOf base (front ++ back) = valueOf base front * base ^ back.length + valueOf base back := by
  simp only [valueOf, List.reverse_append, List.map_append, Nat.ofDigits_append, List.length_map,
    List.length_reverse]
  ring

theorem valueOf_singleton (base : Nat) (d : Char) : valueOf base [d] = digitOf d :=
  Nat.ofDigits_singleton

section Digits

variable {base : Nat} {digits : List Char}

theorem digitValue?_hexadecimal {d : Char} (digit : isHexDigit d = true) :
    digitValue? 16 d = some (digitOf d) := by
  have all : ∀ d ∈ hexDigits, digitValue? 16 d = some (digitOf d) :=
    forall_mem_of_all (by decide +kernel)
  exact all d (mem_of_isHexDigit digit)

theorem digitValue?_decimal {d : Char} (digit : isDigit d = true) :
    digitValue? 10 d = some (digitOf d) := by
  have all : ∀ d ∈ hexDigits.take 10, digitValue? 10 d = some (digitOf d) :=
    forall_mem_of_all (by decide +kernel)
  exact all d (mem_of_isDigit digit)

/-- Signs and underscores are no digits. -/
theorem ne_of_digitValue? {d other : Char} {value : Nat} (known : digitValue? base d = some value)
    (isOther : other ∈ ['+', '-', '_']) : d ≠ other := by
  rintro rfl
  have none : digitValue? base d = if base < base then some base else none := by
    rcases (by simpa using isOther : d = '+' ∨ d = '-' ∨ d = '_') with rfl | rfl | rfl <;> rfl
  simp [none] at known

theorem addDigits?_eq (known : ∀ d ∈ digits, digitValue? base d = some (digitOf d)) (sum : Nat) :
    addDigits? base sum digits = some (sum * base ^ digits.length + valueOf base digits) := by
  induction digits generalizing sum with
  | nil => simp [addDigits?]
  | cons d rest ih =>
    have isDigit := known d List.mem_cons_self
    have noUnderscore : d ≠ '_' := ne_of_digitValue? isDigit (by simp)
    have split : valueOf base (d :: rest) =
        digitOf d * base ^ rest.length + valueOf base rest := by
      rw [← List.singleton_append, valueOf_append, valueOf_singleton]
    rw [addDigits?, isDigit, Option.bind_some,
      ih fun other member => known other (List.mem_cons_of_mem _ member), split, List.length_cons]
    · congr 1
      ring
    · exact noUnderscore

theorem natural?_eq (nonempty : digits ≠ [])
    (known : ∀ d ∈ digits, digitValue? base d = some (digitOf d)) :
    natural? base digits = some (valueOf base digits) := by
  obtain ⟨d, rest, rfl⟩ := List.exists_cons_of_ne_nil nonempty
  have isDigit := known d List.mem_cons_self
  have noPlus : d ≠ '+' := ne_of_digitValue? isDigit (by simp)
  have noUnderscore : d ≠ '_' := ne_of_digitValue? isDigit (by simp)
  simp [natural?, noPlus, noUnderscore, addDigits?_eq known]

theorem integer?_eq (nonempty : digits ≠ [])
    (known : ∀ d ∈ digits, digitValue? base d = some (digitOf d)) :
    integer? base digits = some (valueOf base digits : Int) := by
  obtain ⟨d, rest, rfl⟩ := List.exists_cons_of_ne_nil nonempty
  have noMinus : d ≠ '-' := ne_of_digitValue? (known d List.mem_cons_self) (by simp)
  rw [integer?, natural?_eq nonempty known]
  · rfl
  · exact fun _ same => noMinus (List.cons.inj same).1
  · exact fun _ same => noMinus (List.cons.inj same).1

end Digits

/-- A written exponent and its value: nothing, or a mark, a sign that may be missing, and digits. -/
inductive HasExponent : List Char → Int → Prop
  | none : HasExponent [] 0
  | positive {mark : Char} {sign digits : List Char} :
      mark = 'e' ∨ mark = 'E' → sign = [] ∨ sign = ['+'] → digits ≠ [] →
      (∀ d ∈ digits, isDigit d = true) → HasExponent (mark :: (sign ++ digits)) (valueOf 10 digits)
  | negative {mark : Char} {digits : List Char} :
      mark = 'e' ∨ mark = 'E' → digits ≠ [] → (∀ d ∈ digits, isDigit d = true) →
      HasExponent (mark :: '-' :: digits) (-valueOf 10 digits)

theorem isExponentMark_iff {d : Char} : isExponentMark d = true ↔ d = 'e' ∨ d = 'E' := by
  simp [isExponentMark]

theorem exponent?_eq {mark : Char} {rest : List Char} {value : Int}
    (h : HasExponent (mark :: rest) value) : exponent? rest = some value := by
  generalize isText : mark :: rest = text at h
  cases h with
  | none => cases isText
  | @positive _ sign digits _ isSign nonempty all =>
    obtain ⟨-, rfl⟩ := List.cons.inj isText
    have read := addDigits?_eq (fun d member => digitValue?_decimal (all d member)) 0
    have each : digits.all isDigit = true := List.all_eq_true.mpr all
    rcases isSign with rfl | rfl
    · obtain ⟨d, rest, rfl⟩ := List.exists_cons_of_ne_nil nonempty
      have digit := digitValue?_decimal (all d List.mem_cons_self)
      have noPlus : d ≠ '+' := ne_of_digitValue? digit (by simp)
      have noMinus : d ≠ '-' := ne_of_digitValue? digit (by simp)
      simp [exponent?, noPlus, noMinus, each, read]
    · simp [exponent?, nonempty, each, read]
  | @negative _ digits _ nonempty all =>
    obtain ⟨-, rfl⟩ := List.cons.inj isText
    have read := addDigits?_eq (fun d member => digitValue?_decimal (all d member)) 0
    have each : digits.all isDigit = true := List.all_eq_true.mpr all
    simp [exponent?, nonempty, each, read]

theorem HasExponent.isExponent {exponent : List Char} {value : Int}
    (h : HasExponent exponent value) : IsExponent exponent := by
  cases h with
  | none => exact .none
  | positive isMark isSign nonempty all =>
    exact .marked (isExponentMark_iff.mpr isMark) (isSign.imp_right .inl) nonempty all
  | @negative mark digits isMark nonempty all =>
    have isSign : ['-'] = [] ∨ ['-'] = ['+'] ∨ ['-'] = ['-'] := by simp
    exact .marked (isExponentMark_iff.mpr isMark) isSign nonempty all

theorem exists_hasExponent {exponent : List Char} (h : IsExponent exponent) :
    ∃ value, HasExponent exponent value := by
  cases h with
  | none => exact ⟨0, .none⟩
  | marked isMark isSign nonempty all =>
    have isMark := isExponentMark_iff.mp isMark
    rcases isSign with rfl | rfl | rfl
    · exact ⟨_, .positive isMark (.inl rfl) nonempty all⟩
    · exact ⟨_, .positive isMark (.inr rfl) nonempty all⟩
    · exact ⟨_, .negative isMark nonempty all⟩

section Parts

variable {whole point fraction mantissa exponent : List Char} {value : Int}

theorem not_mark_of_isDigit {d : Char} (digit : isDigit d = true) : isExponentMark d = false := by
  cases marks : isExponentMark d with
  | false => rfl
  | true => exact absurd digit (by simp [(not_digit_of_isExponentMark marks).1])

/-- The exponent begins at the first mark. -/
theorem split_exponent (plain : ∀ d ∈ mantissa, isDigit d = true ∨ d = '.')
    (hasExponent : HasExponent exponent value) :
    (mantissa ++ exponent).takeWhile (!isExponentMark ·) = mantissa ∧
      (mantissa ++ exponent).dropWhile (!isExponentMark ·) = exponent := by
  have all : ∀ d ∈ mantissa, (!isExponentMark d) = true := by
    intro d member
    rcases plain d member with digit | rfl
    · simp [not_mark_of_isDigit digit]
    · rfl
  have stop : ∀ d ∈ exponent.head?, (!isExponentMark d) = false := fun d isHead => by
    simp [isExponent_head hasExponent.isExponent d isHead]
  exact ⟨takeWhile_append_of_stop all stop, dropWhile_append_of_stop all stop⟩

/-- A point with the digits behind it, or neither. -/
def IsPointed (point fraction : List Char) : Prop :=
  point = ['.'] ∨ point = [] ∧ fraction = []

theorem split_point (all : ∀ d ∈ whole, isDigit d = true) (isPointed : IsPointed point fraction) :
    (whole ++ (point ++ fraction)).takeWhile (· != '.') = whole ∧
      ((whole ++ (point ++ fraction)).dropWhile (· != '.')).drop 1 = fraction := by
  have noPoint : ∀ d ∈ whole, (d != '.') = true := by
    intro d member
    rw [bne_iff_ne]
    rintro rfl
    cases all _ member
  have stop : ∀ d ∈ (point ++ fraction).head?, (d != '.') = false := by
    rcases isPointed with rfl | ⟨rfl, rfl⟩ <;> simp
  rw [takeWhile_append_of_stop noPoint stop, dropWhile_append_of_stop noPoint stop]
  rcases isPointed with rfl | ⟨rfl, rfl⟩ <;> simp

theorem ofChars?_eq (nonempty : whole ≠ []) (allWhole : ∀ d ∈ whole, isDigit d = true)
    (allFraction : ∀ d ∈ fraction, isDigit d = true) (isPointed : IsPointed point fraction)
    (hasExponent : HasExponent exponent value) :
    ofChars? (whole ++ (point ++ fraction) ++ exponent) =
      if fitsWord (fraction.length - value) then
        some ⟨valueOf 10 (whole ++ fraction), fraction.length - value⟩
      else none := by
  have plain : ∀ d ∈ whole ++ (point ++ fraction), isDigit d = true ∨ d = '.' := by
    intro d member
    rcases List.mem_append.mp member with inWhole | member
    · exact .inl (allWhole d inWhole)
    rcases List.mem_append.mp member with inPoint | inFraction
    · rcases isPointed with rfl | ⟨rfl, -⟩
      · exact .inr (List.mem_singleton.mp inPoint)
      · cases inPoint
    · exact .inl (allFraction d inFraction)
  obtain ⟨isMantissa, isExponent⟩ := split_exponent plain hasExponent
  obtain ⟨isWhole, isFraction⟩ := split_point allWhole isPointed
  have known : ∀ d ∈ whole ++ fraction, digitValue? 10 d = some (digitOf d) := by
    intro d member
    rcases List.mem_append.mp member with inWhole | inFraction
    · exact digitValue?_decimal (allWhole d inWhole)
    · exact digitValue?_decimal (allFraction d inFraction)
  have noUnderscore : fraction.filter (· != '_') = fraction := by
    refine List.filter_eq_self.mpr fun d member => bne_iff_ne.mpr ?_
    exact ne_of_digitValue? (known d (List.mem_append_right _ member)) (by simp)
  have digits : integer? 10 (whole ++ fraction) = some (valueOf 10 (whole ++ fraction) : Int) :=
    integer?_eq (by simp [nonempty]) known
  simp only [isExponentMark] at isMantissa isExponent
  simp only [ofChars?, isMantissa, isExponent, isWhole, isFraction, noUnderscore, digits,
    Option.map_some]
  cases exponent with
  | nil =>
    cases hasExponent
    rfl
  | cons mark rest =>
    dsimp only
    rw [exponent?_eq hasExponent]
    rfl

end Parts

end Formulary.Decimal
