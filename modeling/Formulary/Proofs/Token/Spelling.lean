import Formulary.Proofs.Operator.Symbols
import Formulary.Proofs.Token.Lexing

set_option autoImplicit false

/-!
# How tokens are spelled

The text of a token tells its kind, whatever comes after it, as long as that does not go on like the
token itself. A token that has been read once is therefore read again wherever its text stands
between brackets, blanks and commas.
-/

namespace Formulary

open Text

/-- What stands after a text that was taken while `holds`. -/
theorem takeWhile_append_of_stop {holds : Char → Bool} {taken rest : List Char}
    (all : ∀ c ∈ taken, holds c = true) (stop : ∀ c ∈ rest.head?, holds c = false) :
    (taken ++ rest).takeWhile holds = taken := by
  rw [List.takeWhile_append_of_pos all]
  cases rest with
  | nil => simp
  | cons c rest => simp [stop c rfl]

theorem dropWhile_append_of_stop {holds : Char → Bool} {taken rest : List Char}
    (all : ∀ c ∈ taken, holds c = true) (stop : ∀ c ∈ rest.head?, holds c = false) :
    (taken ++ rest).dropWhile holds = rest := by
  have split := List.takeWhile_append_dropWhile (p := holds) (l := taken ++ rest)
  rw [takeWhile_append_of_stop all stop] at split
  exact List.append_cancel_left split

namespace Lexer

/-- Nothing, or a point and the digits after it. -/
inductive IsFraction : List Char → Prop
  | none : IsFraction []
  | point {digits : List Char} :
      (∀ d ∈ digits, isDigit d = true) → IsFraction ('.' :: digits)

/-- Nothing, or a mark and digits with a sign or without. -/
inductive IsExponent : List Char → Prop
  | none : IsExponent []
  | marked {mark : Char} {sign digits : List Char} :
      isExponentMark mark = true → sign = [] ∨ sign = ['+'] ∨ sign = ['-'] → digits ≠ [] →
      (∀ d ∈ digits, isDigit d = true) → IsExponent (mark :: (sign ++ digits))

inductive IsNumeral : List Char → Prop
  | decimal {whole fraction exponent : List Char} :
      (∀ d ∈ whole, isDigit d = true) → IsFraction fraction → IsExponent exponent →
      IsNumeral (whole ++ (fraction ++ exponent))
  | hexadecimal {x : Char} {digits : List Char} :
      x = 'x' ∨ x = 'X' → digits ≠ [] → (∀ d ∈ digits, isHexDigit d = true) →
      IsNumeral ('0' :: x :: digits)

/-- A string literal without the quote at its start. -/
inductive IsLiteral : List Char → Prop
  | close : IsLiteral ['"']
  | escape {c : Char} {rest : List Char} :
      (escaped? c).isSome → IsLiteral rest → IsLiteral ('\\' :: c :: rest)
  | plain {c : Char} {rest : List Char} :
      c ≠ '"' → c ≠ '\\' → IsLiteral rest → IsLiteral (c :: rest)

section Digits

/-- The digits of hexadecimal numbers, those of decimal ones first. -/
def hexDigits : List Char :=
  ['0', '1', '2', '3', '4', '5', '6', '7', '8', '9', 'a', 'b', 'c', 'd', 'e', 'f',
    'A', 'B', 'C', 'D', 'E', 'F']

theorem mem_of_char_range {c : Char} {first count : Nat} {chars : List Char}
    (all : ∀ n ∈ List.range' first count, Char.ofNat n ∈ chars) (least : first ≤ c.toNat)
    (most : c.toNat < first + count) : c ∈ chars := by
  rw [← Char.ofNat_toNat c]
  exact all _ (List.mem_range'_1.mpr ⟨least, most⟩)

theorem mem_of_isDigit {c : Char} (digit : isDigit c = true) : c ∈ hexDigits.take 10 := by
  simp only [isDigit, Bool.and_eq_true, decide_eq_true_eq, Char.le_def, UInt32.le_iff_toNat_le]
    at digit
  exact mem_of_char_range (by decide : ∀ n ∈ List.range' 48 10, _) digit.1
    (Nat.lt_succ_of_le digit.2)

theorem mem_of_isHexDigit {c : Char} (digit : isHexDigit c = true) : c ∈ hexDigits := by
  simp only [isHexDigit, Bool.or_eq_true] at digit
  rcases digit with (digit | lower) | upper
  · exact List.take_subset 10 _ (mem_of_isDigit digit)
  · simp only [Bool.and_eq_true, decide_eq_true_eq, Char.le_def, UInt32.le_iff_toNat_le] at lower
    exact mem_of_char_range (by decide : ∀ n ∈ List.range' 97 6, _) lower.1
      (Nat.lt_succ_of_le lower.2)
  · simp only [Bool.and_eq_true, decide_eq_true_eq, Char.le_def, UInt32.le_iff_toNat_le] at upper
    exact mem_of_char_range (by decide : ∀ n ∈ List.range' 65 6, _) upper.1
      (Nat.lt_succ_of_le upper.2)

end Digits

section Numerals

variable {s : State} {cs rest : List Char}

theorem digits_split (cs : List Char) : ∃ digits rest, cs = digits ++ rest ∧
    digitCount cs = digits.length ∧ ∀ d ∈ digits, isDigit d = true :=
  ⟨_, _, List.takeWhile_append_dropWhile.symm, rfl, fun _ => List.all_eq_true.mp List.all_takeWhile _⟩

theorem digitCount_append {digits : List Char} (all : ∀ d ∈ digits, isDigit d = true)
    (stop : ∀ d ∈ rest.head?, isDigit d = false) : digitCount (digits ++ rest) = digits.length := by
  rw [digitCount, takeWhile_append_of_stop all stop]

theorem mantissa_split (cs : List Char) : ∃ whole fraction rest, cs = whole ++ (fraction ++ rest) ∧
    mantissaLength cs = whole.length + fraction.length ∧
    (∀ d ∈ whole, isDigit d = true) ∧ IsFraction fraction := by
  obtain ⟨whole, rest, rfl, count, all⟩ := digits_split cs
  unfold mantissaLength
  rw [count]
  dsimp only
  rw [List.drop_left]
  split
  next after =>
    obtain ⟨digits, rest, rfl, fractionCount, fractionAll⟩ := digits_split after
    refine ⟨whole, '.' :: digits, rest, by simp, ?_, all, .point fractionAll⟩
    rw [fractionCount, List.length_cons]
    omega
  next => exact ⟨whole, [], rest, rfl, rfl, all, .none⟩

theorem mantissaLength_append {whole fraction : List Char}
    (all : ∀ d ∈ whole, isDigit d = true) (isFraction : IsFraction fraction)
    (stop : ∀ d ∈ rest.head?, isDigit d = false ∧ d ≠ '.') :
    mantissaLength (whole ++ (fraction ++ rest)) = whole.length + fraction.length := by
  have noDigit : ∀ d ∈ rest.head?, isDigit d = false := fun d isHead => (stop d isHead).1
  unfold mantissaLength
  cases isFraction with
  | none =>
    rw [List.nil_append, digitCount_append all noDigit]
    dsimp only
    rw [List.drop_left]
    split
    next after => exact absurd rfl (stop '.' rfl).2
    next => rfl
  | @point digits allFraction =>
    have count : digitCount (whole ++ ('.' :: digits ++ rest)) = whole.length := by
      apply digitCount_append all
      rintro d ⟨⟩
      rfl
    rw [count]
    dsimp only
    rw [List.drop_left]
    change whole.length + 1 + digitCount (digits ++ rest) = _
    rw [digitCount_append allFraction noDigit, List.length_cons]
    omega

theorem sign_split (cs : List Char) : ∃ sign rest, cs = sign ++ rest ∧
    signLength cs = sign.length ∧ (sign = [] ∨ sign = ['+'] ∨ sign = ['-']) := by
  unfold signLength
  split
  next rest => exact ⟨['+'], rest, rfl, rfl, by simp⟩
  next rest => exact ⟨['-'], rest, rfl, rfl, by simp⟩
  next => exact ⟨[], cs, rfl, rfl, by simp⟩

theorem signLength_append {sign digits : List Char} (isSign : sign = [] ∨ sign = ['+'] ∨ sign = ['-'])
    (nonempty : digits ≠ []) (all : ∀ d ∈ digits, isDigit d = true) :
    signLength (sign ++ (digits ++ rest)) = sign.length := by
  rcases isSign with rfl | rfl | rfl
  · cases digits with
    | nil => exact absurd rfl nonempty
    | cons d digits =>
      have digit := all d List.mem_cons_self
      unfold signLength
      split
      next eq =>
        obtain ⟨rfl, -⟩ := List.cons.inj eq
        cases digit
      next eq =>
        obtain ⟨rfl, -⟩ := List.cons.inj eq
        cases digit
      next => rfl
  · rfl
  · rfl

theorem exponent_split (cs : List Char) : ∃ exponent rest, cs = exponent ++ rest ∧
    exponentLength cs = exponent.length ∧ IsExponent exponent := by
  cases cs with
  | nil => exact ⟨[], [], rfl, rfl, .none⟩
  | cons mark after =>
    obtain ⟨sign, after, rfl, signCount, isSign⟩ := sign_split after
    obtain ⟨digits, rest, rfl, count, all⟩ := digits_split after
    unfold exponentLength
    dsimp only
    rw [signCount, List.drop_left, count]
    split
    next marked =>
      simp only [Bool.and_eq_true, bne_iff_ne, ne_eq, List.length_eq_zero_iff] at marked
      refine ⟨mark :: (sign ++ digits), rest, by simp, ?_, .marked marked.1 isSign marked.2 all⟩
      simp only [List.length_cons, List.length_append]
      omega
    next => exact ⟨[], _, rfl, rfl, .none⟩

theorem exponentLength_append {exponent : List Char} (isExponent : IsExponent exponent)
    (stop : ∀ d ∈ rest.head?, isDigit d = false ∧ isExponentMark d = false) :
    exponentLength (exponent ++ rest) = exponent.length := by
  cases isExponent with
  | none =>
    cases rest with
    | nil => rfl
    | cons d rest => simp [exponentLength, (stop d rfl).2]
  | @marked mark sign digits marked isSign nonempty all =>
    have count : digitCount (digits ++ rest) = digits.length :=
      digitCount_append all fun d isHead => (stop d isHead).1
    change exponentLength (mark :: (sign ++ digits ++ rest)) = _
    unfold exponentLength
    dsimp only
    rw [List.append_assoc, signLength_append isSign nonempty all, List.drop_left, count]
    have some : digits.length ≠ 0 := by simpa using nonempty
    simp only [marked, Bool.true_and, bne_iff_ne, ne_eq, some, not_false_eq_true, if_true,
      List.length_cons, List.length_append]
    omega

/-- What cannot go on a number. -/
def EndsNumeral (rest : List Char) : Prop :=
  ∀ d ∈ rest.head?, isHexDigit d = false ∧ d ≠ '.' ∧ d ≠ 'x' ∧ d ≠ 'X'

theorem isDigit_of_ends (ends : EndsNumeral rest) : ∀ d ∈ rest.head?, isDigit d = false := by
  intro d isHead
  have hex := (ends d isHead).1
  simp only [isHexDigit, Bool.or_eq_false_iff] at hex
  exact hex.1.1

theorem isExponentMark_of_ends (ends : EndsNumeral rest) :
    ∀ d ∈ rest.head?, isExponentMark d = false := by
  intro d isHead
  have hex := (ends d isHead).1
  simp only [isExponentMark, Bool.or_eq_false_iff, beq_eq_false_iff_ne, ne_eq]
  constructor
  · rintro rfl
    cases hex
  · rintro rfl
    cases hex

theorem decimal_split (cs : List Char) : ∃ whole fraction exponent rest,
    cs = whole ++ (fraction ++ exponent) ++ rest ∧
    decimalLength cs = (whole ++ (fraction ++ exponent)).length ∧
    (∀ d ∈ whole, isDigit d = true) ∧ IsFraction fraction ∧ IsExponent exponent := by
  obtain ⟨whole, fraction, after, rfl, count, all, isFraction⟩ := mantissa_split cs
  obtain ⟨exponent, rest, rfl, exponentCount, isExponent⟩ := exponent_split after
  refine ⟨whole, fraction, exponent, rest, by simp, ?_, all, isFraction, isExponent⟩
  unfold decimalLength
  dsimp only
  rw [count, ← List.append_assoc, ← List.length_append, List.drop_left, exponentCount]
  simp only [List.length_append]
  omega

theorem isExponent_head {exponent : List Char} (isExponent : IsExponent exponent) :
    ∀ d ∈ exponent.head?, isExponentMark d = true := by
  cases isExponent with
  | none => simp
  | marked marked =>
    rintro d ⟨⟩
    exact marked

theorem not_digit_of_isExponentMark {d : Char} (marks : isExponentMark d = true) :
    isDigit d = false ∧ d ≠ '.' ∧ d ≠ 'x' ∧ d ≠ 'X' := by
  rcases (by simpa [isExponentMark] using marks : d = 'e' ∨ d = 'E') with rfl | rfl <;> decide

theorem not_x_of_isDigit {d : Char} (digit : isDigit d = true) : d ≠ 'x' ∧ d ≠ 'X' := by
  constructor <;> rintro rfl <;> cases digit

theorem not_x_of_mem_decimal {whole fraction exponent : List Char}
    (all : ∀ d ∈ whole, isDigit d = true) (isFraction : IsFraction fraction)
    (isExponent : IsExponent exponent) :
    ∀ d ∈ whole ++ (fraction ++ exponent), d ≠ 'x' ∧ d ≠ 'X' := by
  intro d member
  rcases List.mem_append.mp member with inWhole | member
  · exact not_x_of_isDigit (all d inWhole)
  rcases List.mem_append.mp member with inFraction | inExponent
  · cases isFraction with
    | none => cases inFraction
    | point digits =>
      rcases List.mem_cons.mp inFraction with rfl | inDigits
      · decide
      · exact not_x_of_isDigit (digits d inDigits)
  · cases isExponent with
    | none => cases inExponent
    | marked marked isSign _ digits =>
      rcases List.mem_cons.mp inExponent with rfl | member
      · exact (not_digit_of_isExponentMark marked).2.2
      rcases List.mem_append.mp member with inSign | inDigits
      · rcases isSign with rfl | rfl | rfl
        · cases inSign
        · obtain rfl := List.mem_singleton.mp inSign
          decide
        · obtain rfl := List.mem_singleton.mp inSign
          decide
      · exact not_x_of_isDigit (digits d inDigits)

theorem scanDecimal_append {whole fraction exponent : List Char}
    (all : ∀ d ∈ whole, isDigit d = true) (isFraction : IsFraction fraction)
    (isExponent : IsExponent exponent)
    (stop : ∀ d ∈ rest.head?, isDigit d = false ∧ isExponentMark d = false ∧ d ≠ '.') :
    scanDecimal s (whole ++ (fraction ++ exponent) ++ rest) =
      .ok (whole ++ (fraction ++ exponent)).length := by
  have mantissa : mantissaLength (whole ++ (fraction ++ (exponent ++ rest))) =
      (whole ++ fraction).length := by
    rw [mantissaLength_append all isFraction, List.length_append]
    intro d isHead
    rw [List.head?_append, Option.mem_def] at isHead
    cases head : exponent.head? with
    | some mark =>
      obtain rfl : mark = d := by simpa [head] using isHead
      obtain ⟨digit, point, -⟩ := not_digit_of_isExponentMark (isExponent_head isExponent mark head)
      exact ⟨digit, point⟩
    | none =>
      have isHead : rest.head? = some d := by simpa [head] using isHead
      exact ⟨(stop d isHead).1, (stop d isHead).2.2⟩
  have length : decimalLength (whole ++ (fraction ++ exponent) ++ rest) =
      (whole ++ (fraction ++ exponent)).length := by
    unfold decimalLength
    dsimp only
    rw [List.append_assoc, List.append_assoc, mantissa, ← List.append_assoc, List.drop_left,
      exponentLength_append isExponent fun d isHead => ⟨(stop d isHead).1, (stop d isHead).2.1⟩]
    simp only [List.length_append]
    omega
  unfold scanDecimal
  dsimp only
  rw [length, List.drop_left]
  cases rest with
  | nil => rfl
  | cons d rest =>
    simp [(stop d rfl).2.1, (stop d rfl).2.2]

theorem scanDecimal_eq_ok {length : Nat} (h : scanDecimal s cs = .ok length) :
    length = decimalLength cs := by
  unfold scanDecimal at h
  dsimp only at h
  split at h
  · exact (Except.ok.inj h).symm
  · split at h
    · cases h
    · split at h
      · cases h
      · exact (Except.ok.inj h).symm

theorem digitCount_pos {d : Char} (digit : isDigit d = true) : 0 < digitCount (d :: cs) := by
  simp [digitCount, digit]

/-- A number has its first character, and if that is a point the digit after it. -/
theorem scanNumber_head {c : Char} {length : Nat}
    (starts : (isDigit c || (c == '.' && rest.head?.any isDigit)) = true)
    (h : scanNumber s (c :: rest) = .ok length) :
    0 < length ∧ (isDigit c || (c == '.' && (rest.take (length - 1)).head?.any isDigit)) = true := by
  by_cases digit : isDigit c = true
  · refine ⟨?_, by simp [digit]⟩
    have decimal : ∀ length, scanDecimal s (c :: rest) = .ok length → 0 < length := by
      intro length scanned
      have positive : 0 < digitCount (c :: rest) := digitCount_pos digit
      rw [scanDecimal_eq_ok scanned, decimalLength]
      unfold mantissaLength
      dsimp only
      split <;> omega
    unfold scanNumber at h
    split at h
    next x after split =>
      split at h
      next =>
        dsimp only at h
        split at h <;> cases h
        omega
      next => exact decimal length h
    next => exact decimal length h
  · simp only [digit, Bool.false_or, Bool.and_eq_true, beq_iff_eq] at starts
    obtain ⟨rfl, follows⟩ := starts
    cases rest with
    | nil => cases follows
    | cons d rest =>
      have follows : isDigit d = true := follows
      have positive : 0 < digitCount (d :: rest) := digitCount_pos follows
      have scanned : scanDecimal s ('.' :: d :: rest) = .ok length := h
      have two : 2 ≤ length := by
        rw [scanDecimal_eq_ok scanned, decimalLength]
        have mantissa : mantissaLength ('.' :: d :: rest) = 0 + 1 + digitCount (d :: rest) := rfl
        omega
      obtain ⟨more, rfl⟩ : ∃ more, length = more + 2 := ⟨length - 2, by omega⟩
      refine ⟨by omega, ?_⟩
      simp [follows]

theorem isNumeral_of_scanDecimal {length : Nat} (h : scanDecimal s cs = .ok length) :
    ∃ rest, cs = cs.take length ++ rest ∧ (cs.take length).length = length ∧
      IsNumeral (cs.take length) := by
  have same := scanDecimal_eq_ok h
  obtain ⟨whole, fraction, exponent, rest, split, count, all, isFraction, isExponent⟩ :=
    decimal_split cs
  have taken : cs.take length = whole ++ (fraction ++ exponent) := by
    rw [same, count, split]
    exact List.take_left
  refine ⟨rest, by rw [taken]; exact split, ?_, ?_⟩
  · rw [taken, same, count]
  · rw [taken]
    exact .decimal all isFraction isExponent

theorem isNumeral_of_scanNumber {length : Nat} (h : scanNumber s cs = .ok length) :
    ∃ rest, cs = cs.take length ++ rest ∧ (cs.take length).length = length ∧
      IsNumeral (cs.take length) := by
  unfold scanNumber at h
  split at h
  next x after =>
    split at h
    next isMark =>
      dsimp only at h
      split at h
      next => cases h
      next some =>
        cases h
        have taken : ('0' :: x :: after).take (2 + (after.takeWhile isHexDigit).length) =
            '0' :: x :: after.takeWhile isHexDigit := by
          rw [Nat.add_comm, List.take_succ_cons, List.take_succ_cons,
            ← List.prefix_iff_eq_take.mp (List.takeWhile_prefix _)]
        rw [taken]
        refine ⟨after.dropWhile isHexDigit, by simp, by simp; omega, ?_⟩
        apply IsNumeral.hexadecimal isMark (by simpa using some)
        intro d member
        exact List.all_eq_true.mp List.all_takeWhile d member
    next => exact isNumeral_of_scanDecimal h
  next => exact isNumeral_of_scanDecimal h

/-- A number is read again before anything that cannot go on it. -/
theorem scanNumber_append {text : List Char} (isNumeral : IsNumeral text) (nonempty : text ≠ [])
    (ends : EndsNumeral rest) : scanNumber s (text ++ rest) = .ok text.length := by
  cases isNumeral with
  | @hexadecimal x digits isMark some all =>
    have taken : (digits ++ rest).takeWhile isHexDigit = digits :=
      takeWhile_append_of_stop all fun d isHead => (ends d isHead).1
    have count : digits.length ≠ 0 := by simpa using some
    change scanNumber s ('0' :: x :: (digits ++ rest)) = _
    change (if x = 'x' ∨ x = 'X' then
      if ((digits ++ rest).takeWhile isHexDigit).length = 0 then _ else
        Except.ok (2 + ((digits ++ rest).takeWhile isHexDigit).length) else _) = _
    rw [if_pos isMark, taken, if_neg count]
    simp only [List.length_cons, Except.ok.injEq]
    omega
  | @decimal whole fraction exponent all isFraction isExponent =>
    have decimal := scanDecimal_append (s := s) all isFraction isExponent fun d isHead =>
      ⟨isDigit_of_ends ends d isHead, isExponentMark_of_ends ends d isHead, (ends d isHead).2.1⟩
    unfold scanNumber
    split
    next x after split =>
      have noMark : ¬(x = 'x' ∨ x = 'X') := by
        generalize isText : whole ++ (fraction ++ exponent) = text at *
        match text with
        | [] => exact absurd rfl nonempty
        | [_] =>
          obtain ⟨-, isRest⟩ := List.cons.inj split
          have last := ends x (by rw [show rest = x :: after from isRest]; rfl)
          simp [last.2.2.1, last.2.2.2]
        | _ :: second :: _ =>
          obtain ⟨-, isRest⟩ := List.cons.inj split
          obtain ⟨rfl, -⟩ := List.cons.inj isRest
          have inText := not_x_of_mem_decimal all isFraction isExponent second (by simp [isText])
          simp [inText]
      rw [if_neg noMark]
      exact decimal
    next => exact decimal

end Numerals

theorem isLiteral_of_scanText {s : State} {written cs : List Char} {read length : Nat}
    (h : scanText s written read cs = .ok length) :
    ∃ body rest, cs = body ++ rest ∧ length = read + body.length ∧ IsLiteral body := by
  fun_induction scanText s written read cs with
  | case1 | case2 => cases h
  | case3 read rest =>
    cases h
    exact ⟨['"'], rest, rfl, rfl, .close⟩
  | case4 read c rest known ih =>
    obtain ⟨body, after, rfl, rfl, isBody⟩ := ih h
    refine ⟨'\\' :: c :: body, after, rfl, ?_, .escape known isBody⟩
    simp only [List.length_cons]
    omega
  | case5 => cases h
  | case6 read c rest notEnd notQuote notEscape ih =>
    obtain ⟨body, after, rfl, rfl, isBody⟩ := ih h
    refine ⟨c :: body, after, rfl, ?_, .plain ?_ ?_ isBody⟩
    · simp only [List.length_cons]
      omega
    · exact notQuote
    · rintro rfl
      cases split : body ++ after with
      | nil => exact notEnd rfl split
      | cons next rest => exact notEscape next rest rfl split

theorem scanText_append {s : State} {written body rest : List Char} (isBody : IsLiteral body)
    (read : Nat) : scanText s written read (body ++ rest) = .ok (read + body.length) := by
  induction isBody generalizing read with
  | close => rfl
  | @escape c rest' known _ ih =>
    rw [List.cons_append, List.cons_append, scanText, if_pos known, ih]
    simp only [List.length_cons, Except.ok.injEq]
    omega
  | @plain c rest' noQuote noEscape _ ih =>
    rw [List.cons_append, scanText, ih]
    · simp only [List.length_cons, Except.ok.injEq]
      omega
    · exact fun escapes _ => noEscape escapes
    · exact noQuote
    · exact fun _ _ escapes _ => noEscape escapes

/-- The texts of a kind that the lexer can read where the standard operators are known. An access has
the text of its bracket. -/
inductive Spelled (features : Features) : Kind → List Char → Prop
  | number {c : Char} {rest : List Char} :
      (isDigit c || (c == '.' && rest.head?.any isDigit)) = true → IsNumeral (c :: rest) →
      Spelled features .number (c :: rest)
  | text {body : List Char} : IsLiteral body → Spelled features .text ('"' :: body)
  | name {c : Char} {rest : List Char} :
      startsName c = true → (∀ d ∈ rest, continuesName d = true) →
      Spelled features .name (c :: rest)
  | function {c : Char} {rest : List Char} :
      startsName c = true → (∀ d ∈ rest, continuesName d = true) →
      Spelled features .function (c :: rest)
  | operator {role : Role} {text : List Char} :
      (Operators.standard.find? role (String.ofList text)).isSome →
      Spelled features (.operator role) text
  | field : features.structures = true → Spelled features .field ['.']
  | element : features.arrays = true → Spelled features .element ['[']
  | entry : features.associates = true → Spelled features .entry ['\x7b']
  | comma : Spelled features .comma [',']
  | opening {c : Char} {bracket : Bracket} :
      bracket? features c = some (.opening bracket) → Spelled features (.opening bracket) [c]
  | closing {c : Char} {bracket : Bracket} :
      bracket? features c = some (.closing bracket) → Spelled features (.closing bracket) [c]

section Scan

variable {features : Features} {s : State} {c : Char} {rest : List Char} {kind : Kind} {length : Nat}

theorem spelled_of_scanName
    (starts : startsName c = true) (h : scanName Operators.standard s.previous c rest = (kind, length)) :
    Spelled features kind (c :: rest.take (length - 1)) := by
  unfold scanName at h
  obtain ⟨kindEq, rfl⟩ := Prod.mk.inj h
  have continues : ∀ d ∈ rest.takeWhile continuesName, continuesName d = true :=
    fun d => List.all_eq_true.mp List.all_takeWhile d
  rw [take_name]
  split at kindEq
  next role isRole =>
    cases kindEq
    exact .operator (roleOf?_eq_some isRole).2
  next =>
    split at kindEq <;> cases kindEq
    · exact .function starts continues
    · exact .name starts continues

theorem spelled_of_scan (h : scan Operators.standard features s c rest = .ok (kind, length)) :
    Spelled features kind (c :: rest.take (length - 1)) := by
  have scans := scans_of_scan h
  cases tokenAt_of_scan h with
  | bracket isBracket =>
    obtain ⟨_, rfl⟩ | ⟨_, rfl⟩ := bracket?_eq_some isBracket
    · exact .opening isBracket
    · exact .closing isBracket
  | text isQuote read =>
    obtain ⟨body, after, rfl, rfl, isBody⟩ := isLiteral_of_scanText read
    rw [isQuote, Nat.add_sub_cancel_left, List.take_left]
    exact .text isBody
  | comma isComma =>
    rw [isComma]
    exact .comma
  | number isStart read =>
    obtain ⟨-, -, -, isNumeral⟩ := isNumeral_of_scanNumber read
    obtain ⟨positive, starts⟩ := scanNumber_head isStart read
    obtain ⟨more, rfl⟩ : ∃ more, length = more + 1 := ⟨length - 1, by omega⟩
    exact .number starts isNumeral
  | field isPoint on =>
    rw [isPoint]
    exact .field on
  | name starts named => exact spelled_of_scanName starts named
  | operator =>
    cases scans with
    | operator _ _ _ found => exact .operator found

end Scan

end Lexer

open Lexer

/-- Each token of a source is spelled as one of its kind. -/
theorem tokenize_spelled {features : Features} {source : String} {tokens : List Token}
    (h : tokenize Operators.standard features source = .ok tokens) :
    ∀ token ∈ tokens, Spelled features token.kind token.span.text.toList := by
  intro token member
  rcases tokenize_scanned h token member with ⟨s, c, rest, length, scanned, spelled⟩ | ⟨next, rfl⟩
  · rw [spelled, String.toList_ofList]
    exact spelled_of_scan scanned
  · have found : (Operators.standard.find? .infixOp "*").isSome := by decide +kernel
    exact .operator (by simpa [Token.impliedProduct] using found)

end Formulary
