import Formulary.Proofs.Token.Faults
import Formulary.Proofs.Token.Spelling

set_option autoImplicit false

/-!
# Reading the text of a token again

Where an operand may begin, the text of a literal, a name or a function is read as the same token if
a bracket, a comma or a blank comes after it, and so are brackets, commas and operators where they
belong. Each step leaves the rest of the source alone.
-/

namespace Formulary.Lexer

open Text

variable {operators : Operators} {features : Features}

/-- The state after a token that is added on its own. -/
def State.put (s : State) (kind : Kind) (text : List Char) : State :=
  s.add kind text [s.token kind text]

@[simp] theorem State.put_previous (s : State) (kind : Kind) (text : List Char) :
    (s.put kind text).previous = some kind := rfl

@[simp] theorem State.put_tokens (s : State) (kind : Kind) (text : List Char) :
    (s.put kind text).tokens = s.token kind text :: s.tokens := rfl

@[simp] theorem State.put_brackets (s : State) (kind : Kind) (text : List Char) :
    (s.put kind text).brackets = track (s.token kind text) s.brackets := rfl

/-- The state after a blank. -/
def State.skip (s : State) : State :=
  { s with position := s.position.next ' ' }

/-- An operand may begin, and no product is implied before it. -/
def AwaitsOperand (previous : Option Kind) : Prop :=
  ∀ p ∈ previous, p.isOpening = true ∨ p = .comma ∨ p = .field ∨ p = .operator .prefixOp ∨
    p = .operator .infixOp

/-- An operand has just ended. -/
def EndedOperand (previous : Option Kind) : Prop :=
  ∃ p, previous = some p ∧ p.endsOperand = true

/-- What may come after an operand: a closing bracket, a comma, or a blank and then no
parenthesis. -/
structure Delimits (rest : List Char) : Prop where
  head : ∀ d ∈ rest.head?, d ∈ [')', ']', '\x7d', ',', ' ']
  noCall : (rest.dropWhile isWhitespace).head? ≠ some '('

section Characters

theorem digits_plain : ∀ d ∈ hexDigits.take 10, isWhitespace d = false ∧ startsName d = false ∧
    d ≠ '"' ∧ d ≠ ',' ∧ d ∉ ['(', ')', '[', ']', '\x7b', '\x7d'] :=
  forall_mem_of_all (by decide +kernel)

theorem hexDigits_continue : ∀ d ∈ hexDigits, continuesName d = true :=
  forall_mem_of_all (by decide +kernel)

theorem letters_visible : ∀ r ∈ letterRanges, ∀ w ∈ whitespaceRanges, r.2 < w.1 ∨ w.2 < r.1 := by
  decide +kernel

theorem visible_of_startsName {c : Char} (starts : startsName c = true) : isWhitespace c = false := by
  rcases Bool.or_eq_true_iff.mp starts with letter | underscore
  · cases blank : isWhitespace c with
    | false => rfl
    | true =>
      obtain ⟨r, isLetter, letter⟩ := mem_of_inRanges letter
      obtain ⟨w, isBlank, blank⟩ := mem_of_inRanges blank
      have apart := letters_visible r isLetter w isBlank
      omega
  · obtain rfl := beq_iff_eq.mp underscore
    decide

theorem not_digit_of_startsName {c : Char} (starts : startsName c = true) : isDigit c = false := by
  cases digit : isDigit c with
  | false => rfl
  | true =>
    have none := (digits_plain c (mem_of_isDigit digit)).2.1
    exact absurd (none.symm.trans starts) (by simp)

/-- No other token begins with a character that begins a name. -/
theorem plain_of_startsName {c : Char} (starts : startsName c = true) : c ≠ '"' ∧ c ≠ ',' ∧ c ≠ '.' ∧
    c ∉ ['(', ')', '[', ']', '\x7b', '\x7d'] := by
  have others : ∀ d ∈ ['"', ',', '.', '(', ')', '[', ']', '\x7b', '\x7d'], startsName d = false :=
    forall_mem_of_all (by decide +kernel)
  have other : c ∉ ['"', ',', '.', '(', ')', '[', ']', '\x7b', '\x7d'] := by
    intro member
    exact absurd ((others c member).symm.trans starts) (by simp)
  simpa using other

theorem symbols_plain : ∀ c ∈ symbols, isWhitespace c = false ∧ c ≠ '"' ∧ c ≠ ',' ∧ c ≠ '.' ∧
    isDigit c = false ∧ startsName c = false ∧ c ∉ ['(', ')', '[', ']', '\x7b', '\x7d'] :=
  forall_mem_of_all (by decide +kernel)

theorem bracket?_eq_none {c : Char} (other : c ∉ ['(', ')', '[', ']', '\x7b', '\x7d']) :
    bracket? features c = none := by
  simp only [List.mem_cons, List.not_mem_nil, or_false, not_or] at other
  unfold bracket?
  split <;> simp_all

namespace Delimits

variable {rest : List Char}

theorem endsNumeral (delimits : Delimits rest) : EndsNumeral rest := by
  have all : ∀ d ∈ [')', ']', '\x7d', ',', ' '], isHexDigit d = false ∧ d ≠ '.' ∧ d ≠ 'x' ∧ d ≠ 'X' :=
    forall_mem_of_all (by decide)
  exact fun d isHead => all d (delimits.head d isHead)

theorem endsName (delimits : Delimits rest) : ∀ d ∈ rest.head?, continuesName d = false := by
  have all : ∀ d ∈ [')', ']', '\x7d', ',', ' '], continuesName d = false :=
    forall_mem_of_all (by decide +kernel)
  exact fun d isHead => all d (delimits.head d isHead)

end Delimits

end Characters

section Arrange

variable {previous : Option Kind} {token : Token}

theorem arrange_eq_single_of {previous : Option Kind} {token : Token}
    (notEmpty : leavesArgumentEmpty previous token.kind = false)
    (noProduct : impliesProduct previous token.kind = false)
    (afterInfix : previous = some (.operator .infixOp) → cannotFollowInfix token.kind = false)
    (operand : token.kind = .operator .infixOp → permitsInfix previous = true) :
    arrange features previous token = .ok [token] := by
  unfold arrange
  simp only [notEmpty, noProduct, Bool.false_eq_true, if_false]
  rw [if_neg (by simpa using afterInfix), if_neg (by simpa using operand)]

theorem AwaitsOperand.arrange (awaits : AwaitsOperand previous)
    (kind : token.kind = .number ∨ token.kind = .text ∨ token.kind = .name ∨
      token.kind = .function ∨ token.kind = .opening .paren) :
    Lexer.arrange features previous token = .ok [token] := by
  have product : previous ≠ some .number ∧ previous ≠ some (.closing .paren) := by
    constructor
    · rintro rfl
      simpa [Kind.isOpening] using awaits _ rfl
    · rintro rfl
      simpa [Kind.isOpening] using awaits _ rfl
  rcases kind with kind | kind | kind | kind | kind <;>
    apply arrange_eq_single_of <;>
    simp [kind, leavesArgumentEmpty, impliesProduct, cannotFollowInfix, product]

theorem EndedOperand.arrange (ended : EndedOperand previous)
    (kind : token.kind = .comma ∨ token.kind = .operator .infixOp ∨
      ∃ bracket, token.kind = .closing bracket) :
    Lexer.arrange features previous token = .ok [token] := by
  obtain ⟨p, rfl, ends⟩ := ended
  have noComma : p ≠ .comma ∧ p.isOpening = false ∧ p ≠ .operator .infixOp := by
    cases p <;> simp_all [Kind.endsOperand, Kind.isOpening]
  rcases kind with kind | kind | ⟨bracket, kind⟩
  · apply arrange_eq_single_of <;>
      simp [kind, leavesArgumentEmpty, impliesProduct, permitsInfix, ends, noComma]
  · apply arrange_eq_single_of <;>
      simp [kind, leavesArgumentEmpty, impliesProduct, permitsInfix, ends, noComma]
  · cases bracket <;> apply arrange_eq_single_of <;>
      simp [kind, leavesArgumentEmpty, impliesProduct, cannotFollowInfix, noComma]

end Arrange

section Run

variable {s : State} {rest : List Char}

theorem run_of_scan {c : Char} {tail : List Char} {kind : Kind} (visible : isWhitespace c = false)
    (scanned : scan operators features s c (tail ++ rest) = .ok (kind, tail.length + 1)) :
    run operators features s (c :: tail ++ rest) =
      (arrange features s.previous (s.token kind (c :: tail))).bind fun added =>
        run operators features (s.add kind (c :: tail) added) rest := by
  rw [List.cons_append, run]
  simp only [visible, Bool.false_eq_true, if_false, scanned, Nat.add_sub_cancel, List.take_left,
    List.drop_left]
  unfold State.token
  rcases arrange features s.previous _ with e | added
  · rfl
  · rfl

theorem run_token {c : Char} {tail : List Char} {kind : Kind} (visible : isWhitespace c = false)
    (scanned : scan operators features s c (tail ++ rest) = .ok (kind, tail.length + 1))
    (arranged : arrange features s.previous (s.token kind (c :: tail)) =
      .ok [s.token kind (c :: tail)]) :
    run operators features s (c :: tail ++ rest) =
      run operators features (s.put kind (c :: tail)) rest := by
  rw [run_of_scan visible scanned, arranged]
  rfl

theorem run_single {c : Char} {kind : Kind} (visible : isWhitespace c = false)
    (scanned : scan operators features s c rest = .ok (kind, 1))
    (arranged : arrange features s.previous (s.token kind [c]) = .ok [s.token kind [c]]) :
    run operators features s (c :: rest) = run operators features (s.put kind [c]) rest :=
  run_token visible scanned arranged

theorem run_blank : run Operators.standard features s (' ' :: rest) =
    run Operators.standard features s.skip rest := by
  rw [run, if_pos (by decide)]
  rfl

theorem scan_of_plain {c : Char} (other : c ∉ ['(', ')', '[', ']', '\x7b', '\x7d'])
    (noQuote : c ≠ '"') (noComma : c ≠ ',') :
    scan operators features s c rest =
      if isDigit c || (c == '.' && rest.head?.any isDigit) then
        (scanNumber s (c :: rest)).map ((.number, ·))
      else if c = '.' && features.structures then
        if s.previous.any Kind.acceptsAccess then .ok (.field, 1)
        else .error (s.error .misplacedField [c])
      else if startsName c then .ok (scanName operators s.previous c rest)
      else
        let found := scanOperator operators s.previous "" {} (c :: rest)
        match found.found with
        | some (length, role) => .ok (.operator role, length)
        | none =>
          let text := (c :: rest).take found.read
          .error (s.error (.undefinedOperator (String.ofList text)) text) := by
  rw [scan, bracket?_eq_none other]
  dsimp only
  rw [if_neg noQuote]
  exact if_neg noComma

theorem run_number {text : List Char} (spelled : Spelled features .number text)
    (awaits : AwaitsOperand s.previous) (ends : EndsNumeral rest) :
    run Operators.standard features s (text ++ rest) =
      run Operators.standard features (s.put .number text) rest := by
  cases spelled with
  | @number c tail starts isNumeral =>
    have starts' : (isDigit c || (c == '.' && (tail ++ rest).head?.any isDigit)) = true := by
      cases tail with
      | nil => simp_all
      | cons d tail => exact starts
    have plain : isWhitespace c = false ∧ c ≠ '"' ∧ c ≠ ',' ∧
        c ∉ ['(', ')', '[', ']', '\x7b', '\x7d'] := by
      rcases Bool.or_eq_true_iff.mp starts with digit | point
      · obtain ⟨visible, -, rest⟩ := digits_plain c (mem_of_isDigit digit)
        exact ⟨visible, rest⟩
      · obtain rfl := beq_iff_eq.mp (Bool.and_eq_true_iff.mp point).1
        decide
    obtain ⟨visible, noQuote, noComma, other⟩ := plain
    apply run_token visible ?_ (awaits.arrange (.inl rfl))
    rw [scan_of_plain other noQuote noComma, if_pos starts']
    have scanned := scanNumber_append (s := s) isNumeral (by simp) ends
    rw [List.cons_append] at scanned
    rw [scanned]
    rfl

theorem run_text {text : List Char} (spelled : Spelled features .text text)
    (awaits : AwaitsOperand s.previous) :
    run Operators.standard features s (text ++ rest) =
      run Operators.standard features (s.put .text text) rest := by
  cases spelled with
  | @text body isLiteral =>
    apply run_token (by decide) ?_ (awaits.arrange (.inr (.inl rfl)))
    rw [scan, bracket?_eq_none (by decide)]
    simp only [if_true, scanText_append isLiteral, Nat.add_comm]
    rfl

/-- A name is no standard operator. -/
theorem roleOf?_of_startsName {c : Char} {tail : List Char} (starts : startsName c = true)
    (previous : Option Kind) :
    roleOf? Operators.standard previous (String.ofList (c :: tail)) = none := by
  cases role : roleOf? Operators.standard previous (String.ofList (c :: tail)) with
  | none => rfl
  | some role =>
    obtain ⟨-, ofSymbols⟩ := OperatorTable.symbols_of_find? (roleOf?_eq_some ‹_›).2
    have none := (symbols_plain c (ofSymbols c List.mem_cons_self)).2.2.2.2.2.1
    exact absurd (none.symm.trans starts) (by simp)

theorem scanName_append {c : Char} {tail : List Char} (starts : startsName c = true)
    (continues : ∀ d ∈ tail, continuesName d = true) (ends : ∀ d ∈ rest.head?, continuesName d = false)
    (previous : Option Kind) :
    scanName Operators.standard previous c (tail ++ rest) =
      (if (rest.dropWhile isWhitespace).head? = some '(' then .function else .name,
        tail.length + 1) := by
  unfold scanName
  rw [takeWhile_append_of_stop continues ends]
  dsimp only
  rw [roleOf?_of_startsName starts]
  simp only [List.length_cons, Nat.add_sub_cancel, List.drop_left]

theorem scan_of_startsName {c : Char} (starts : startsName c = true) :
    scan operators features s c rest = .ok (scanName operators s.previous c rest) := by
  obtain ⟨noQuote, noComma, noPoint, other⟩ := plain_of_startsName starts
  rw [scan_of_plain other noQuote noComma]
  simp only [not_digit_of_startsName starts, beq_eq_false_iff_ne.mpr noPoint, noPoint, starts,
    Bool.false_and, Bool.or_false, Bool.false_eq_true, decide_false, if_false, if_true]

theorem scan_name {c : Char} {tail : List Char} (starts : startsName c = true)
    (continues : ∀ d ∈ tail, continuesName d = true)
    (ends : ∀ d ∈ rest.head?, continuesName d = false) :
    scan Operators.standard features s c (tail ++ rest) =
      .ok (if (rest.dropWhile isWhitespace).head? = some '(' then .function else .name,
        tail.length + 1) := by
  rw [scan_of_startsName starts, scanName_append starts continues ends]

theorem run_name {text : List Char} (spelled : Spelled features .name text)
    (awaits : AwaitsOperand s.previous) (delimits : Delimits rest) :
    run Operators.standard features s (text ++ rest) =
      run Operators.standard features (s.put .name text) rest := by
  cases spelled with
  | name starts continues =>
    apply run_token (visible_of_startsName starts) ?_ (awaits.arrange (.inr (.inr (.inl rfl))))
    rw [scan_name starts continues delimits.endsName, if_neg delimits.noCall]

theorem run_function {text : List Char} (spelled : Spelled features .function text)
    (awaits : AwaitsOperand s.previous) :
    run Operators.standard features s (text ++ '(' :: rest) =
      run Operators.standard features (s.put .function text) ('(' :: rest) := by
  cases spelled with
  | function starts continues =>
    apply run_token (visible_of_startsName starts) ?_ (awaits.arrange (.inr (.inr (.inr (.inl rfl)))))
    rw [scan_name starts continues (by rintro d ⟨⟩; decide +kernel)]
    rfl

/-- The longest operator is found, if the character after it goes on none. -/
theorem scanOperator_append {previous : Option Kind} {role : Role} {scan : OperatorScan}
    (seen text : List Char) (nonempty : text ≠ [])
    (grows : ∀ beginning, beginning ≠ [] → beginning <+: text →
      canGrow operators previous (String.ofList (seen ++ beginning)) = true)
    (isRole : roleOf? operators previous (String.ofList (seen ++ text)) = some role)
    (stops : ∀ d ∈ rest.head?,
      canGrow operators previous (String.ofList (seen ++ text ++ [d])) = false) :
    (scanOperator operators previous (String.ofList seen) scan (text ++ rest)).found =
      some (scan.read + text.length, role) := by
  induction text generalizing seen scan with
  | nil => exact absurd rfl nonempty
  | cons c text ih =>
    have pushed : ∀ (seen : List Char) (c : Char),
        (String.ofList seen).push c = String.ofList (seen ++ [c]) := by
      simp
    rw [List.cons_append, scanOperator]
    dsimp only
    rw [pushed, if_pos (grows [c] (by simp) (by simp))]
    by_cases last : text = []
    · subst last
      rw [List.nil_append, isRole]
      cases rest with
      | nil => rfl
      | cons d rest =>
        rw [scanOperator]
        dsimp only
        rw [pushed, if_neg (by rw [stops d rfl]; simp)]
        rfl
    · rw [ih (seen ++ [c]) last]
      · simp only [List.length_cons, Option.some.injEq, Prod.mk.injEq, and_true]
        omega
      · intro beginning given within
        simpa using grows (c :: beginning) (by simp) (by simpa using within)
      · simpa using isRole
      · simpa using stops

theorem canGrow_standard_snoc {previous : Option Kind} {text : List Char} {d : Char}
    (other : d ∉ symbols) :
    canGrow Operators.standard previous (String.ofList (text ++ [d])) = false := by
  cases grows : canGrow Operators.standard previous (String.ofList (text ++ [d])) with
  | false => rfl
  | true =>
    obtain ⟨role, -, starts⟩ := List.any_eq_true.mp grows
    have ofSymbols := OperatorTable.symbols_of_canStart (Bool.and_eq_true_iff.mp starts).2
    exact absurd (ofSymbols d (by simp)) other

theorem scan_operator {text : List Char} {role : Role} {c d : Char} {tail : List Char}
    (split : text = c :: tail) (permitted : permits s.previous role = true)
    (found : (Operators.standard.find? role (String.ofList text)).isSome)
    (isRole : roleOf? Operators.standard s.previous (String.ofList text) = some role)
    (other : d ∉ symbols) :
    scan Operators.standard features s c (tail ++ d :: rest) =
      .ok (.operator role, tail.length + 1) := by
  obtain ⟨nonempty, ofSymbols⟩ := OperatorTable.symbols_of_find? found
  obtain ⟨-, noQuote, noComma, noPoint, noDigit, noName, noBracket⟩ :=
    symbols_plain c (ofSymbols c (by simp [split]))
  have foresees := Operators.ofLayers_foresees (.single .standard)
  have scanned : (scanOperator Operators.standard s.previous "" {} (text ++ d :: rest)).found =
      some (0 + text.length, role) := by
    apply scanOperator_append [] text nonempty ?_ isRole
    · rintro _ ⟨⟩
      exact canGrow_standard_snoc other
    · intro beginning _ within
      exact canGrow_of_canStart permitted (foresees role text beginning found within)
  rw [scan_of_plain noBracket noQuote noComma]
  rw [split, List.cons_append] at scanned
  simp only [noDigit, noName, beq_eq_false_iff_ne.mpr noPoint, noPoint, Bool.false_and,
    Bool.or_false, Bool.false_eq_true, decide_false, if_false, scanned, List.length_cons, Nat.zero_add]

theorem run_operator {text : List Char} {role : Role} {d : Char}
    (permitted : permits s.previous role = true)
    (found : (Operators.standard.find? role (String.ofList text)).isSome)
    (isRole : roleOf? Operators.standard s.previous (String.ofList text) = some role)
    (other : d ∉ symbols)
    (arranged : arrange features s.previous (s.token (.operator role) text) =
      .ok [s.token (.operator role) text]) :
    run Operators.standard features s (text ++ d :: rest) =
      run Operators.standard features (s.put (.operator role) text) (d :: rest) := by
  obtain ⟨nonempty, ofSymbols⟩ := OperatorTable.symbols_of_find? found
  cases text with
  | nil => exact absurd rfl nonempty
  | cons c tail =>
    have visible := (symbols_plain c (ofSymbols c List.mem_cons_self)).1
    exact run_token visible (scan_operator rfl permitted found isRole other) arranged

/-- A prefix operator at the start of a parenthesis. -/
theorem run_prefix {text : List Char} {d : Char} (opened : s.previous = some (.opening .paren))
    (found : (Operators.standard.find? .prefixOp (String.ofList text)).isSome) (other : d ∉ symbols) :
    run Operators.standard features s (text ++ d :: rest) =
      run Operators.standard features (s.put (.operator .prefixOp) text) (d :: rest) := by
  have permitted : permits s.previous .prefixOp = true := by
    rw [opened]
    rfl
  apply run_operator permitted found ?_ other
  · apply arrange_eq_single_of <;>
      simp [opened, State.token, leavesArgumentEmpty, impliesProduct, cannotFollowInfix]
  · simp [roleOf?, permitted, found]

/-- An infix operator after a blank. -/
theorem run_infix {text : List Char} {d : Char} (ended : EndedOperand s.previous)
    (found : (Operators.standard.find? .infixOp (String.ofList text)).isSome) (other : d ∉ symbols) :
    run Operators.standard features s (text ++ d :: rest) =
      run Operators.standard features (s.put (.operator .infixOp) text) (d :: rest) := by
  apply run_operator rfl found ?_ other (ended.arrange (.inr (.inl rfl)))
  obtain ⟨p, isPrevious, ends⟩ := ended
  have noPrefix : permits s.previous .prefixOp = false := by
    rw [isPrevious]
    cases p <;> simp_all [Kind.endsOperand, permits]
  have permitted : permits s.previous .infixOp = true := rfl
  simp [roleOf?, noPrefix, permitted, found, Operators.find?_standard_postfixOp]

theorem run_openParen (awaits : AwaitsOperand s.previous ∨ s.previous = some .function) :
    run Operators.standard features s ('(' :: rest) =
      run Operators.standard features (s.put (.opening .paren) ['(']) rest := by
  apply run_single (by decide) rfl
  rcases awaits with awaits | called
  · exact awaits.arrange (.inr (.inr (.inr (.inr rfl))))
  · apply arrange_eq_single_of <;>
      simp [called, State.token, leavesArgumentEmpty, impliesProduct, cannotFollowInfix]

theorem run_closeParen {opening : Token} {outer : List (Bracket × Token)}
    (innermost : s.brackets = (.paren, opening) :: outer)
    (ended : EndedOperand s.previous ∨ s.previous = some (.opening .paren)) :
    run Operators.standard features s (')' :: rest) =
      run Operators.standard features (s.put (.closing .paren) [')']) rest := by
  apply run_single (by decide)
  · simp [scan, bracket?, checkBracket, checkClosing, innermost, Except.map]
  · rcases ended with ended | opened
    · exact ended.arrange (.inr (.inr ⟨_, rfl⟩))
    · apply arrange_eq_single_of <;>
        simp [opened, State.token, leavesArgumentEmpty, impliesProduct, cannotFollowInfix]

theorem visible_of_bracket {c : Char} {kind : Kind} (isBracket : bracket? features c = some kind) :
    isWhitespace c = false := by
  have visible : ∀ c ∈ ['(', ')', '[', ']', '\x7b', '\x7d'], isWhitespace c = false :=
    forall_mem_of_all (by decide)
  by_cases member : c ∈ ['(', ')', '[', ']', '\x7b', '\x7d']
  · exact visible c member
  · cases (bracket?_eq_none member).symm.trans isBracket

theorem run_openAccess {c : Char} {bracket : Bracket}
    (isBracket : bracket? features c = some (.opening bracket)) (isAccess : bracket ≠ .paren)
    (closed : s.previous = some (.closing .paren)) :
    run Operators.standard features s (c :: rest) =
      run Operators.standard features (s.put (.opening bracket) [c]) rest := by
  apply run_single (visible_of_bracket isBracket)
  · cases bracket with
    | paren => exact absurd rfl isAccess
    | square | curly =>
      simp [scan, isBracket, checkBracket, closed, Kind.acceptsAccess, Except.map]
  · apply arrange_eq_single_of <;> cases bracket <;>
      simp_all [State.token, leavesArgumentEmpty, impliesProduct, cannotFollowInfix]

theorem run_closeAccess {c : Char} {bracket : Bracket} {opening : Token}
    {outer : List (Bracket × Token)} (isBracket : bracket? features c = some (.closing bracket))
    (isAccess : bracket ≠ .paren) (innermost : s.brackets = (bracket, opening) :: outer)
    (ended : EndedOperand s.previous) :
    run Operators.standard features s (c :: rest) =
      run Operators.standard features (s.put (.closing bracket) [c]) rest := by
  apply run_single (visible_of_bracket isBracket) ?_ (ended.arrange (.inr (.inr ⟨_, rfl⟩)))
  obtain ⟨p, isPrevious, ends⟩ := ended
  have accepts : p.acceptsClosing = true := by
    cases p <;> simp_all [Kind.endsOperand, Kind.acceptsClosing]
  cases bracket with
  | paren => exact absurd rfl isAccess
  | square | curly =>
    simp [scan, isBracket, checkBracket, checkClosing, isPrevious, accepts, innermost, Except.map]

theorem run_comma (ended : EndedOperand s.previous) :
    run Operators.standard features s (',' :: rest) =
      run Operators.standard features (s.put .comma [',']) rest := by
  apply run_single (by decide) ?_ (ended.arrange (.inl rfl))
  rw [scan, bracket?_eq_none (by decide)]
  rfl

theorem run_field (structures : features.structures = true)
    (closed : s.previous = some (.closing .paren)) (noDigit : ∀ d ∈ rest.head?, isDigit d = false) :
    run Operators.standard features s ('.' :: rest) =
      run Operators.standard features (s.put .field ['.']) rest := by
  apply run_single (by decide)
  · have noNumber : (isDigit '.' || ('.' == '.' && rest.head?.any isDigit)) = false := by
      cases rest with
      | nil => rfl
      | cons d rest => exact noDigit d rfl
    rw [scan_of_plain (by decide) (by decide) (by decide), noNumber]
    simp [structures, closed, Kind.acceptsAccess]
  · apply arrange_eq_single_of <;>
      simp [closed, State.token, leavesArgumentEmpty, impliesProduct, cannotFollowInfix]

/-- A number after a bracket that closes is added as it is. -/
theorem arrange_number {token : Token} (kind : token.kind = .number)
    (closed : s.previous = some (.closing .paren)) :
    arrange features s.previous token = .ok [token] := by
  apply arrange_eq_single_of <;>
    simp [closed, kind, leavesArgumentEmpty, impliesProduct, cannotFollowInfix]

theorem scan_point {digits : List Char} (digit : (digits ++ rest).head?.any isDigit = true) :
    scan Operators.standard features s '.' (digits ++ rest) =
      (scanDecimal s ('.' :: (digits ++ rest))).map ((.number, ·)) := by
  rw [scan_of_plain (by decide) (by decide) (by decide)]
  exact if_pos digit

theorem run_of_scan_error {c : Char} {e : SyntaxError} (visible : isWhitespace c = false)
    (failed : scan operators features s c rest = .error e) :
    run operators features s (c :: rest) = .error e := by
  rw [run]
  simp only [visible, Bool.false_eq_true, if_false, failed]

/-- After a number, a name is a factor, or it may not stand there at all. -/
theorem run_factor {c : Char} {tail : List Char} (starts : startsName c = true)
    (continues : ∀ d ∈ tail, continuesName d = true) (afterNumber : s.previous = some .number)
    (delimits : Delimits rest) :
    (∃ e, run Operators.standard features s (c :: tail ++ rest) = .error e) ∨
      run Operators.standard features s (c :: tail ++ rest) =
        run Operators.standard features
          (s.add .name (c :: tail) [(s.token .name (c :: tail)).impliedProduct,
            s.token .name (c :: tail)]) rest := by
  have scanned := @scan_name features s rest c tail starts continues delimits.endsName
  rw [if_neg delimits.noCall] at scanned
  rw [run_of_scan (visible_of_startsName starts) scanned]
  cases implicit : features.implicitMultiplication with
  | true =>
    have arranged : arrange features s.previous (s.token .name (c :: tail)) =
        .ok [(s.token .name (c :: tail)).impliedProduct, s.token .name (c :: tail)] := by
      simp [arrange, afterNumber, State.token, leavesArgumentEmpty, impliesProduct, implicit]
    rw [arranged]
    exact .inr rfl
  | false =>
    have arranged : arrange features s.previous (s.token .name (c :: tail)) =
        .error ((s.token .name (c :: tail)).error .missingOperator) := by
      simp [arrange, afterNumber, State.token, leavesArgumentEmpty, impliesProduct, implicit]
    rw [arranged]
    exact .inl ⟨_, rfl⟩

/-- What has been read between two states, the last of it the end of an operand. -/
structure Past (s u : State) (added : List Token) : Prop where
  tokens : u.tokens = added.reverse ++ s.tokens
  brackets : u.brackets = s.brackets
  ended : EndedOperand u.previous

namespace Past

variable {u v : State} {added : List Token} {kind : Kind} {text : List Char}

theorem trans {later : List Token} (h : Past s u added) (next : Past u v later) :
    Past s v (added ++ later) :=
  ⟨by simp [next.tokens, h.tokens], next.brackets.trans h.brackets, next.ended⟩

theorem skip (h : Past s.skip u added) : Past s u added :=
  ⟨h.tokens, h.brackets, h.ended⟩

theorem operand (ends : kind.endsOperand = true)
    (plain : track (s.token kind text) s.brackets = s.brackets) :
    Past s (s.put kind text) [s.token kind text] :=
  ⟨rfl, plain, ⟨kind, rfl, ends⟩⟩

theorem cons (h : Past (s.put kind text) u added)
    (plain : track (s.token kind text) s.brackets = s.brackets) :
    Past s u (s.token kind text :: added) :=
  ⟨by simp [h.tokens], h.brackets.trans plain, h.ended⟩

theorem enclosed {bracket : Bracket} {opening : List Char}
    (h : Past (s.put (.opening bracket) opening) u added) (closing : List Char) :
    Past s (u.put (.closing bracket) closing)
      (s.token (.opening bracket) opening :: (added ++ [u.token (.closing bracket) closing])) :=
  ⟨by simp [h.tokens], congrArg List.tail h.brackets, ⟨_, rfl, rfl⟩⟩

end Past

theorem run_pointed_hexadecimal {x : Char} {digits : List Char} (isMark : x = 'x' ∨ x = 'X')
    (all : ∀ d ∈ digits, isHexDigit d = true) (closed : s.previous = some (.closing .paren))
    (delimits : Delimits rest) :
    (∃ e, run Operators.standard features s ('.' :: ('0' :: x :: digits ++ rest)) = .error e) ∨
    ∃ (u : State) (added : List Token),
      run Operators.standard features s ('.' :: ('0' :: x :: digits ++ rest)) =
        run Operators.standard features u rest ∧
      Past s u added ∧ ∀ token ∈ added, token.kind ≠ .field := by
  have noDigits : ∀ d ∈ ([] : List Char), isDigit d = true := by simp
  have zero : ∀ d ∈ ['0'], isDigit d = true := forall_mem_of_all (by decide)
  have decimal : scanDecimal s ('.' :: (['0'] ++ (x :: digits ++ rest))) = .ok 2 := by
    apply scanDecimal_append noDigits (.point zero) .none
    rintro d ⟨⟩
    rcases isMark with rfl | rfl <;> decide
  have scanned : scan Operators.standard features s '.' (['0'] ++ (x :: digits ++ rest)) =
      .ok (.number, 2) := by
    rw [scan_point rfl, decimal]
    rfl
  have first := run_token (by decide) scanned (arrange_number rfl closed)
  have starts : startsName x = true := by
    rcases isMark with rfl | rfl <;> decide +kernel
  have continues : ∀ d ∈ digits, continuesName d = true :=
    fun d member => hexDigits_continue d (mem_of_isHexDigit (all d member))
  have factor := @run_factor features (s.put .number ['.', '0']) rest x digits starts continues rfl
    delimits
  rw [← first] at factor
  rcases factor with failed | read
  · exact .inl failed
  · refine .inr ⟨_, [s.token .number ['.', '0'],
      ((s.put .number ['.', '0']).token .name (x :: digits)).impliedProduct,
      (s.put .number ['.', '0']).token .name (x :: digits)], read, ⟨rfl, rfl, ⟨.name, rfl, rfl⟩⟩, ?_⟩
    simp [State.token, Token.impliedProduct]

theorem run_pointed_whole {whole exponent : List Char} (nonempty : whole ≠ [])
    (all : ∀ d ∈ whole, isDigit d = true) (isExponent : IsExponent exponent)
    (closed : s.previous = some (.closing .paren)) (ends : EndsNumeral rest) :
    run Operators.standard features s ('.' :: (whole ++ exponent ++ rest)) =
      run Operators.standard features (s.put .number ('.' :: (whole ++ exponent))) rest := by
  have noDigits : ∀ d ∈ ([] : List Char), isDigit d = true := by simp
  have decimal : scanDecimal s ('.' :: (whole ++ exponent ++ rest)) =
      .ok ((whole ++ exponent).length + 1) :=
    scanDecimal_append noDigits (.point all) isExponent fun d isHead =>
      ⟨isDigit_of_ends ends d isHead, isExponentMark_of_ends ends d isHead, (ends d isHead).2.1⟩
  apply run_token (by decide) ?_ (arrange_number rfl closed)
  rw [scan_point ?_, decimal]
  · rfl
  · cases whole with
    | nil => exact absurd rfl nonempty
    | cons d whole => exact all d List.mem_cons_self

theorem scanDecimal_twice {whole : List Char} (all : ∀ d ∈ whole, isDigit d = true)
    (after : List Char) :
    ∃ e, scanDecimal s ('.' :: (whole ++ '.' :: after)) = .error e := by
  have count : digitCount (whole ++ '.' :: after) = whole.length :=
    digitCount_append all (by rintro d ⟨⟩; decide)
  have mantissa : mantissaLength ('.' :: (whole ++ '.' :: after)) =
      0 + 1 + digitCount (whole ++ '.' :: after) :=
    rfl
  have rest : ('.' :: (whole ++ '.' :: after)).drop (0 + 1 + whole.length) = '.' :: after := by
    rw [Nat.zero_add, Nat.add_comm, List.drop_succ_cons, List.drop_left]
  have exponent : exponentLength ('.' :: after) = 0 := rfl
  unfold scanDecimal decimalLength
  dsimp only
  rw [mantissa, count, rest, exponent, Nat.add_zero, rest]
  exact ⟨_, rfl⟩

/-- A point before a number that begins with a digit is its decimal point. If the number has one
already, that is an error, and after the point the `x` of a hexadecimal number begins a name. -/
theorem run_pointed {text : List Char} (isNumeral : IsNumeral text)
    (digit : text.head?.any isDigit = true) (closed : s.previous = some (.closing .paren))
    (delimits : Delimits rest) :
    (∃ e, run Operators.standard features s ('.' :: (text ++ rest)) = .error e) ∨
    ∃ (u : State) (added : List Token), run Operators.standard features s ('.' :: (text ++ rest)) =
        run Operators.standard features u rest ∧
      Past s u added ∧ ∀ token ∈ added, token.kind ≠ .field := by
  cases isNumeral with
  | hexadecimal isMark _ all => exact run_pointed_hexadecimal isMark all closed delimits
  | @decimal whole fraction exponent all isFraction isExponent =>
    have nonempty : whole ≠ [] := by
      rintro rfl
      cases isFraction with
      | point => cases digit
      | none =>
        cases isExponent with
        | none => cases digit
        | marked marked =>
          have noDigit := (not_digit_of_isExponentMark marked).1
          exact absurd (noDigit.symm.trans digit) (by simp)
    cases isFraction with
    | none =>
      have read := @run_pointed_whole features s rest whole exponent nonempty all isExponent closed
        delimits.endsNumeral
      exact .inr ⟨_, [_], read, ⟨rfl, rfl, ⟨.number, rfl, rfl⟩⟩, by simp [State.token]⟩
    | @point digits _ =>
      obtain ⟨e, failed⟩ := scanDecimal_twice (s := s) all (digits ++ exponent ++ rest)
      have split : whole ++ ('.' :: digits ++ exponent) ++ rest =
          whole ++ '.' :: (digits ++ exponent ++ rest) := by
        simp
      refine .inl ⟨e, run_of_scan_error (by decide) ?_⟩
      rw [split, scan_point ?_, failed]
      · rfl
      · cases whole with
        | nil => exact absurd rfl nonempty
        | cons d whole => exact all d List.mem_cons_self

end Run

end Formulary.Lexer
