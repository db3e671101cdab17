import Formulary.Expression.OfTree
import Formulary.Proofs.Decimal.Reading

set_option autoImplicit false

/-!
# The numbers that literals denote

Every number literal of a source denotes a number and is written with a scale. It is compiled to
exactly that number where the scale is within the limits, and refused elsewhere, but for the least
scale of 64 bits: it has no magnitude of 64 bits, and compiling it panics.
-/

namespace Formulary

open Text Lexer Decimal

/-- The digits before and behind the point of a literal. A point at the end has a zero behind it. -/
inductive HasDigits : List Char → (whole fraction : List Char) → Prop
  | integer {whole : List Char} :
      whole ≠ [] → (∀ d ∈ whole, isDigit d = true) → HasDigits whole whole []
  | pointed {whole : List Char} :
      whole ≠ [] → (∀ d ∈ whole, isDigit d = true) → HasDigits (whole ++ ['.']) whole ['0']
  | fraction {whole fraction : List Char} :
      (∀ d ∈ whole, isDigit d = true) → fraction ≠ [] → (∀ d ∈ fraction, isDigit d = true) →
      HasDigits (whole ++ '.' :: fraction) whole fraction

/-- The number that a literal denotes, and its scale: the count of the digits behind the point, less
the exponent. -/
inductive Denotes : List Char → (value : ℚ) → (scale : Int) → Prop
  | hexadecimal {x : Char} {digits : List Char} :
      x = 'x' ∨ x = 'X' → digits ≠ [] → (∀ d ∈ digits, isHexDigit d = true) →
      Denotes ('0' :: x :: digits) (valueOf 16 digits) 0
  | decimal {mantissa whole fraction exponent : List Char} {e : Int} :
      HasDigits mantissa whole fraction → HasExponent exponent e →
      Denotes (mantissa ++ exponent)
        ((valueOf 10 whole + valueOf 10 fraction / 10 ^ fraction.length) * 10 ^ e)
        (fraction.length - e)

theorem toRat_eq (whole fraction : List Char) (e : Int) :
    (⟨valueOf 10 (whole ++ fraction), fraction.length - e⟩ : Decimal).toRat =
      (valueOf 10 whole + valueOf 10 fraction / 10 ^ fraction.length) * 10 ^ e := by
  have ten : (10 : ℚ) ≠ 0 := by norm_num
  have exponent : -((fraction.length : Int) - e) = e - fraction.length := by ring
  rw [toRat, exponent, zpow_sub₀ ten, zpow_natCast, valueOf_append]
  push_cast
  field_simp

section Reading

variable {mantissa whole fraction exponent cs : List Char} {value : ℚ} {scale e : Int}

theorem ne_point_of_isDigit {d : Char} (digit : isDigit d = true) : d ≠ '.' := by
  rintro rfl
  cases digit

theorem head?_ne_point {digits rest : List Char} (nonempty : digits ≠ [])
    (all : ∀ d ∈ digits, isDigit d = true) : ((digits ++ rest).head? == some '.') = false := by
  obtain ⟨d, others, rfl⟩ := List.exists_cons_of_ne_nil nonempty
  simpa using ne_point_of_isDigit (all d List.mem_cons_self)

theorem getLast?_ne_point {front digits : List Char} (nonempty : digits ≠ [])
    (all : ∀ d ∈ digits, isDigit d = true) : ((front ++ digits).getLast? == some '.') = false := by
  rw [List.getLast?_append_of_ne_nil _ nonempty, List.getLast?_eq_some_getLast nonempty]
  simpa using ne_point_of_isDigit (all _ (List.getLast_mem nonempty))

/-- A mantissa is read once it is complete: digits, perhaps a point, and the digits behind it. -/
theorem HasDigits.completed (h : HasDigits mantissa whole fraction) :
    ∃ front point, completed mantissa = front ++ (point ++ fraction) ∧ front ≠ [] ∧
      (∀ d ∈ front, isDigit d = true) ∧ (∀ d ∈ fraction, isDigit d = true) ∧
      IsPointed point fraction ∧ valueOf 10 (front ++ fraction) = valueOf 10 (whole ++ fraction) := by
  unfold Formulary.completed
  cases h with
  | integer nonempty all =>
    have first : ((mantissa ++ []).head? == some '.') = false := head?_ne_point nonempty all
    have last : (([] ++ mantissa).getLast? == some '.') = false := getLast?_ne_point nonempty all
    rw [List.append_nil] at first
    rw [List.nil_append] at last
    refine ⟨mantissa, [], ?_, nonempty, all, by simp, .inr ⟨rfl, rfl⟩, rfl⟩
    simp [first, last]
  | pointed nonempty all =>
    refine ⟨whole, ['.'], ?_, nonempty, all, by simp; rfl, .inl rfl, rfl⟩
    rw [head?_ne_point nonempty all, List.getLast?_append]
    simp
  | fraction all nonempty allFraction =>
    rw [List.append_cons, getLast?_ne_point nonempty allFraction]
    by_cases noWhole : whole = []
    · subst noWhole
      refine ⟨['0'], ['.'], by simp, by simp, by simp; rfl, allFraction, .inl rfl, ?_⟩
      rw [valueOf_append]
      simp [valueOf_singleton, digitOf]
    · refine ⟨whole, ['.'], ?_, noWhole, all, allFraction, .inl rfl, rfl⟩
      rw [List.append_assoc whole, head?_ne_point noWhole all]
      simp

theorem HasDigits.split (h : HasDigits mantissa whole fraction) :
    ∃ pointed, mantissa = whole ++ pointed ∧ (∀ d ∈ whole, isDigit d = true) ∧ IsFraction pointed := by
  cases h with
  | integer _ all => exact ⟨[], by simp, all, .none⟩
  | pointed _ all => exact ⟨['.'], rfl, all, .point (by simp)⟩
  | fraction all _ allFraction => exact ⟨_, rfl, all, .point allFraction⟩

theorem HasDigits.plain (h : HasDigits mantissa whole fraction) :
    ∀ d ∈ mantissa, isDigit d = true ∨ d = '.' := by
  obtain ⟨pointed, rfl, all, isFraction⟩ := h.split
  intro d member
  rcases List.mem_append.mp member with inWhole | inPointed
  · exact .inl (all d inWhole)
  · cases isFraction with
    | none => cases inPointed
    | point digits =>
      rcases List.mem_cons.mp inPointed with isPoint | inDigits
      · exact .inr isPoint
      · exact .inl (digits d inDigits)

theorem numberLiteral_of_no_x (noX : ∀ d ∈ cs, d ≠ 'x' ∧ d ≠ 'X') :
    numberLiteral (String.ofList cs) =
      match ofChars? (Formulary.completed (cs.takeWhile (!isExponentMark ·)) ++
        cs.dropWhile (!isExponentMark ·)) with
      | none => .ok none
      | some x => (wordAbs x.scale).bind fun magnitude =>
        .ok (if magnitude ≤ Arithmetic.scaleLimit then some x else none) := by
  unfold numberLiteral
  rw [String.toList_ofList]
  split
  next => exact absurd rfl (noX 'x' (by simp)).1
  next => exact absurd rfl (noX 'X' (by simp)).2
  next => rfl

/-- A literal is read as the number that it denotes, or not read because of its scale. The least scale
is within 64 bits, but its magnitude is not. -/
theorem numberLiteral_eq (h : Denotes cs value scale) : ∃ x : Decimal, x.toRat = value ∧
    x.scale = scale ∧
      (scale ≠ -9223372036854775808 → numberLiteral (String.ofList cs) =
        .ok (if -10000 ≤ scale ∧ scale ≤ 10000 then some x else none)) ∧
      (scale = -9223372036854775808 → numberLiteral (String.ofList cs) = .error .panic) := by
  cases h with
  | @hexadecimal x digits isMark nonempty all =>
    have read := integer?_eq nonempty fun d member => digitValue?_hexadecimal (all d member)
    refine ⟨ofInt (valueOf 16 digits), by simp [toRat, ofInt], rfl, fun _ => ?_, by simp⟩
    rcases isMark with rfl | rfl <;> simp [numberLiteral, read]
  | @decimal mantissa whole fraction exponent e hasDigits hasExponent =>
    obtain ⟨isMantissa, isExponent⟩ := split_exponent hasDigits.plain hasExponent
    obtain ⟨front, point, complete, nonempty, allFront, allFraction, isPointed, same⟩ :=
      hasDigits.completed
    have noX : ∀ d ∈ mantissa ++ exponent, d ≠ 'x' ∧ d ≠ 'X' := by
      obtain ⟨pointed, rfl, all, isFraction⟩ := hasDigits.split
      rw [List.append_assoc]
      exact not_x_of_mem_decimal all isFraction hasExponent.isExponent
    have read : ofChars? (Formulary.completed ((mantissa ++ exponent).takeWhile (!isExponentMark ·)) ++
        (mantissa ++ exponent).dropWhile (!isExponentMark ·)) =
          if fitsWord (fraction.length - e) then
            some ⟨valueOf 10 (whole ++ fraction), fraction.length - e⟩ else none := by
      rw [isMantissa, isExponent, complete,
        ofChars?_eq nonempty allFront allFraction isPointed hasExponent, same]
    refine ⟨⟨valueOf 10 (whole ++ fraction), fraction.length - e⟩, toRat_eq _ _ _, rfl, ?_⟩
    generalize (fraction.length : Int) - e = scale at read ⊢
    cases fits : fitsWord scale with
    | false =>
      rw [fits, if_neg Bool.false_ne_true] at read
      have beyond : ¬(-9223372036854775808 ≤ scale ∧ scale ≤ 9223372036854775807) := by
        simpa [fitsWord] using fits
      rw [numberLiteral_of_no_x noX, read, if_neg (by omega)]
      exact ⟨fun _ => rfl, fun least => by omega⟩
    | true =>
      rw [fits, if_pos rfl] at read
      rw [numberLiteral_of_no_x noX, read]
      constructor
      · intro notLeast
        have within : (scale.natAbs : Int) ≤ Arithmetic.scaleLimit ↔ -10000 ≤ scale ∧ scale ≤ 10000 := by
          unfold Arithmetic.scaleLimit
          omega
        simp only [wordAbs, if_neg notLeast, Except.bind, within]
      · rintro rfl
        rfl

/-- What is spelled as a number literal denotes a number. -/
theorem exists_denotes {c : Char} {rest : List Char}
    (starts : (isDigit c || (c == '.' && rest.head?.any isDigit)) = true)
    (h : IsNumeral (c :: rest)) : ∃ value scale, Denotes (c :: rest) value scale := by
  generalize isText : c :: rest = text at h
  cases h with
  | hexadecimal isMark nonempty all => exact ⟨_, _, .hexadecimal isMark nonempty all⟩
  | @decimal whole pointed exponent all isFraction isExponent =>
    obtain ⟨e, hasExponent⟩ := exists_hasExponent isExponent
    have noStart : exponent.head? ≠ some c ∧ exponent.head?.any isDigit = false := by
      cases exponent with
      | nil => simp
      | cons mark others =>
        have noDigit := not_digit_of_isExponentMark (isExponent_head isExponent mark rfl)
        refine ⟨?_, by simp [noDigit.1]⟩
        rintro ⟨⟩
        simp [noDigit] at starts
    cases isFraction with
    | none =>
      have nonempty : whole ≠ [] := by
        rintro rfl
        obtain rfl : c :: rest = exponent := isText
        exact noStart.1 rfl
      exact ⟨_, _, .decimal (.integer nonempty all) hasExponent⟩
    | @point digits allDigits =>
      by_cases noDigits : digits = []
      · have nonempty : whole ≠ [] := by
          rintro rfl
          subst noDigits
          obtain ⟨rfl, rfl⟩ := List.cons.inj isText
          rw [noStart.2] at starts
          exact absurd starts (by decide)
        subst noDigits
        have denotes := Denotes.decimal (.pointed nonempty all) hasExponent
        exact ⟨_, _, by simpa using denotes⟩
      · have denotes := Denotes.decimal (.fraction all noDigits allDigits) hasExponent
        exact ⟨_, _, by simpa using denotes⟩

end Reading

/-- What a number literal is compiled to: the number that it denotes, in the scale that it is written
in, or an error if that is beyond the limits. -/
structure Compiles (bindings : Bindings) (token : Token) (children : List Tree) (value : ℚ)
    (scale : Int) : Prop where
  kept : -10000 ≤ scale ∧ scale ≤ 10000 → ∃ x : Decimal, x.toRat = value ∧ x.scale = scale ∧
    Expression.ofTree bindings (.node token children) = .ok (.literal (.number x))
  refused : ¬(-10000 ≤ scale ∧ scale ≤ 10000) →
    Expression.ofTree bindings (.node token children) =
      .error (token.fails (.invalidLiteral token.span.text))

theorem ofTree_number {token : Token} (isNumber : token.kind = .number) (bindings : Bindings)
    (children : List Tree) : Expression.ofTree bindings (.node token children) =
      (numberLiteral token.span.text).bind fun number =>
        Expression.ofLiteral token (number.map .number) := by
  rw [Expression.ofTree]
  · rfl
  · exact isNumber

section Literal

variable {token : Token} {value : ℚ} {scale : Int}

theorem panics_of_least (isNumber : token.kind = .number)
    (denotes : Denotes token.span.text.toList value (-9223372036854775808)) (bindings : Bindings)
    (children : List Tree) : Expression.ofTree bindings (.node token children) = .error .panic := by
  obtain ⟨x, -, -, -, panics⟩ := numberLiteral_eq denotes
  rw [String.ofList_toList] at panics
  rw [ofTree_number isNumber, panics rfl]
  rfl

/-- The least scale is the only one that is not treated as it should be. -/
theorem compiles_iff (isNumber : token.kind = .number)
    (denotes : Denotes token.span.text.toList value scale) (bindings : Bindings)
    (children : List Tree) :
    Compiles bindings token children value scale ↔ scale ≠ -9223372036854775808 := by
  constructor
  · rintro compiles rfl
    have refused := compiles.refused (by decide)
    rw [panics_of_least isNumber denotes] at refused
    cases refused
  · intro notLeast
    obtain ⟨x, isValue, isScale, read, -⟩ := numberLiteral_eq denotes
    rw [String.ofList_toList] at read
    constructor
    · intro within
      refine ⟨x, isValue, isScale, ?_⟩
      rw [ofTree_number isNumber, read notLeast, if_pos within]
      rfl
    · intro beyond
      rw [ofTree_number isNumber, read notLeast, if_neg beyond]
      rfl

end Literal

section Source

variable {operators : Operators} {features : Features} {source : String} {tokens : List Token}
  {token : Token}

theorem denotes_of_tokenize (tokenized : tokenize operators features source = .ok tokens)
    (member : token ∈ tokens) (isNumber : token.kind = .number) :
    ∃ value scale, Denotes token.span.text.toList value scale := by
  rcases tokenize_scanned tokenized token member with ⟨s, c, rest, length, scanned, spelled⟩ | ⟨_, rfl⟩
  · rw [isNumber] at scanned
    obtain ⟨starts, read⟩ := number_of_scan scanned
    obtain ⟨-, -, -, isNumeral⟩ := isNumeral_of_scanNumber read
    obtain ⟨positive, starts⟩ := scanNumber_head starts read
    obtain ⟨more, rfl⟩ : ∃ more, length = more + 1 := ⟨length - 1, by omega⟩
    rw [spelled, String.toList_ofList]
    exact exists_denotes starts isNumeral
  · cases isNumber

/-- Each number literal of a source denotes a number, and it is compiled to that number or refused
because of its scale, unless the scale is the least one there is. Then compiling it panics. -/
theorem tokenize_compiles (tokenized : tokenize operators features source = .ok tokens)
    (member : token ∈ tokens) (isNumber : token.kind = .number) :
    (∃ value scale, Denotes token.span.text.toList value scale) ∧
      ∀ value scale, Denotes token.span.text.toList value scale → ∀ bindings children,
        (Compiles bindings token children value scale ↔ scale ≠ -9223372036854775808) ∧
        (scale = -9223372036854775808 →
          Expression.ofTree bindings (.node token children) = .error .panic) := by
  refine ⟨denotes_of_tokenize tokenized member isNumber, fun value scale denotes bindings children => ?_⟩
  refine ⟨compiles_iff isNumber denotes bindings children, ?_⟩
  rintro rfl
  exact panics_of_least isNumber denotes bindings children

end Source

/-- A point behind the digits counts as one with a zero behind it. -/
theorem tokenize_compiles_pointed :
    let token : Token := ⟨.number, .start, "5.e3"⟩
    tokenize .standard {} "5.e3" = .ok [token] ∧
      ∀ bindings, ∃ x : Decimal, x.toRat = 5000 ∧ x.scale = -2 ∧
        Expression.ofTree bindings (.leaf token) = .ok (.literal (.number x)) := by
  intro token
  have tokenized : tokenize .standard {} "5.e3" = .ok [token] := by decide +kernel
  have hasDigits : HasDigits (['5'] ++ ['.']) ['5'] ['0'] := .pointed (by simp) (List.all_eq_true.mp rfl)
  have hasExponent : HasExponent ['e', '3'] 3 :=
    .positive (.inl rfl) (.inl rfl) (by simp) (List.all_eq_true.mp rfl)
  have value : ((valueOf 10 ['5'] : ℚ) + valueOf 10 ['0'] / 10 ^ ['0'].length) * 10 ^ (3 : Int) =
      5000 := by
    rw [show valueOf 10 ['5'] = 5 by decide, show valueOf 10 ['0'] = 0 by decide]
    norm_num
  have denotes : Denotes "5.e3".toList 5000 (-2) := value ▸ Denotes.decimal hasDigits hasExponent
  refine ⟨tokenized, fun bindings => ?_⟩
  have compiles := (tokenize_compiles tokenized List.mem_cons_self rfl).2 _ _ denotes bindings []
  exact (compiles.1.mpr (by decide)).kept (by decide)

/-- A literal with the least scale is neither compiled nor refused. -/
theorem least_scale_panics :
    let token : Token := ⟨.number, .start, "1e9223372036854775808"⟩
    tokenize .standard {} "1e9223372036854775808" = .ok [token] ∧
      ∃ value, Denotes token.span.text.toList value (-9223372036854775808) ∧
        ∀ bindings children, ¬Compiles bindings token children value (-9223372036854775808) ∧
          Expression.ofTree bindings (.node token children) = .error .panic := by
  intro token
  have hasDigits : HasDigits ['1'] ['1'] [] := .integer (by simp) (List.all_eq_true.mp rfl)
  have hasExponent : HasExponent ('e' :: "9223372036854775808".toList) 9223372036854775808 :=
    .positive (.inl rfl) (.inl rfl) (by simp) (List.all_eq_true.mp rfl)
  have spelled : token.span.text.toList = ['1'] ++ 'e' :: "9223372036854775808".toList := by decide
  have denotes := spelled ▸ Denotes.decimal hasDigits hasExponent
  refine ⟨by decide +kernel, _, denotes, fun bindings children => ⟨fun compiles => ?_, ?_⟩⟩
  · exact (compiles_iff rfl denotes bindings children).mp compiles rfl
  · exact panics_of_least rfl denotes bindings children

end Formulary
