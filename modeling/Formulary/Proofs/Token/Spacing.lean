import Formulary.Proofs.Token.Neighbours
import Formulary.Proofs.Token.Rereading

set_option autoImplicit false

/-!
# The layout between tokens does not matter

Where no operator holds a blank, the texts of the tokens of a source are read as the same tokens
however they are spaced. The sign of a product that was implied is then written, so what follows it
stands after an operator instead of a number or a bracket.
-/

namespace Formulary

open Text

/-- What a token is, wherever it stands. -/
def Token.lexeme (token : Token) : Kind × String :=
  (token.kind, token.span.text)

/-- A source in which some texts stand one after the other, with blanks between them. -/
inductive Separated : List String → List Char → Prop
  | none : Separated [] []
  | last (text : String) : Separated [text] text.toList
  | more {text next : String} {texts : List String} {blanks rest : List Char} :
      blanks ≠ [] → (∀ c ∈ blanks, isWhitespace c = true) → Separated (next :: texts) rest →
      Separated (text :: next :: texts) (text.toList ++ (blanks ++ rest))

/-- After the first text there are blanks, or nothing at all. -/
theorem Separated.uncons {text : String} {texts : List String} {cs : List Char}
    (h : Separated (text :: texts) cs) :
    ∃ blanks rest, cs = text.toList ++ (blanks ++ rest) ∧ (∀ c ∈ blanks, isWhitespace c = true) ∧
      (∀ d ∈ (blanks ++ rest).head?, isWhitespace d = true) ∧ Separated texts rest := by
  cases h with
  | last => exact ⟨[], [], by simp, by simp, by simp, .none⟩
  | @more _ _ _ blanks rest nonempty all separated =>
    refine ⟨blanks, rest, rfl, all, ?_, separated⟩
    cases blanks with
    | nil => exact absurd rfl nonempty
    | cons d blanks =>
      rintro _ ⟨⟩
      exact all d List.mem_cons_self

namespace Text

theorem caseRuns_avoid_blanks : ∀ run ∈ caseRuns, ∀ blank ∈ whitespaceRanges,
    run.last < blank.1 ∨ blank.2 < run.first := by
  decide +kernel

theorem spreadingCases_avoid_blanks : ∀ entry ∈ spreadingCases, ∀ blank ∈ whitespaceRanges,
    entry.1 < blank.1 ∨ blank.2 < entry.1 := by
  decide +kernel

theorem numerals_visible : ∀ r ∈ numeralRanges, ∀ blank ∈ whitespaceRanges,
    r.2 < blank.1 ∨ blank.2 < r.1 := by
  decide +kernel

variable {d : Char}

/-- A blank is its own upper case. -/
theorem upperChar_of_isWhitespace (blank : isWhitespace d = true) : upperChar d = [d] := by
  obtain ⟨range, isBlank, within⟩ := mem_of_inRanges blank
  unfold upperChar
  split
  next run found =>
    obtain ⟨member, first, last⟩ := covers_of_findCaseRun found
    have apart := caseRuns_avoid_blanks run member range isBlank
    omega
  next =>
    split
    next spread found =>
      have apart := spreadingCases_avoid_blanks _ (mem_of_findSpreadingCase found) range isBlank
      omega
    next => rfl

theorem not_continuesName_of_isWhitespace (blank : isWhitespace d = true) :
    continuesName d = false := by
  obtain ⟨range, isBlank, within⟩ := mem_of_inRanges blank
  cases continues : continuesName d with
  | false => rfl
  | true =>
    simp only [continuesName, Bool.or_eq_true, beq_iff_eq] at continues
    rcases continues with (letter | numeral) | rfl
    · have visible := Lexer.visible_of_startsName (c := d) (by simp [startsName, letter])
      cases visible.symm.trans blank
    · obtain ⟨r, isNumeral, numeral⟩ := mem_of_inRanges numeral
      have apart := numerals_visible r isNumeral range isBlank
      omega
    · cases blank

end Text

namespace Lexer

variable {operators : Operators} {features : Features}

/-- Blanks may stand between tokens, for no operator holds one. Where the sign of a product is
written, it is read as an infix operator and a name after it as a name. -/
structure AdmitsBlanks (operators : Operators) : Prop where
  foresees : operators.Foresees
  stops : ∀ role text d, isWhitespace d = true →
    operators.canStart role (String.ofList (text ++ [d])) = false
  product : (operators.find? .infixOp "*").isSome
  noPostfix : operators.find? .postfixOp "*" = none
  names : ∀ c rest, startsName c = true → (∀ d ∈ rest, continuesName d = true) →
    operators.find? .prefixOp (String.ofList (c :: rest)) = none

/-- The same tokens have been found, at other places. -/
structure State.Alike (s s' : State) : Prop where
  lexemes : s'.tokens.map Token.lexeme = s.tokens.map Token.lexeme
  brackets : s'.brackets.map Prod.fst = s.brackets.map Prod.fst

/-- A blank comes next, or nothing. -/
def Ends (after : List Char) : Prop :=
  ∀ d ∈ after.head?, isWhitespace d = true

/-- The same is seen behind the blanks after a name, by which the name of a function is told. -/
def SeesAlike (kind : Kind) (after rest : List Char) : Prop :=
  kind = .name ∨ kind = .function →
    (after.dropWhile isWhitespace).head? = (rest.dropWhile isWhitespace).head?

section Ends

variable {after : List Char}

theorem Ends.endsNumeral (ends : Ends after) : EndsNumeral after := by
  intro d isHead
  have continues := not_continuesName_of_isWhitespace (ends d isHead)
  have others : ∀ x ∈ ['x', 'X'], continuesName x = true := forall_mem_of_all (by decide +kernel)
  refine ⟨?_, ?_, ?_, ?_⟩
  · cases hex : isHexDigit d with
    | false => rfl
    | true => cases continues.symm.trans (hexDigits_continue d (mem_of_isHexDigit hex))
  · rintro rfl
    cases ends _ isHead
  · rintro rfl
    cases continues.symm.trans (others 'x' (by simp))
  · rintro rfl
    cases continues.symm.trans (others 'X' (by simp))

theorem Ends.endsName (ends : Ends after) : ∀ d ∈ after.head?, continuesName d = false :=
  fun d isHead => not_continuesName_of_isWhitespace (ends d isHead)

end Ends

section Scan

variable {s s' : State} {c : Char} {rest after : List Char} {kind : Kind} {length : Nat}

theorem State.Alike.previous (alike : s.Alike s') : s'.previous = s.previous := by
  have heads := congrArg (fun lexemes => lexemes.head?.map Prod.fst) alike.lexemes
  simpa [State.previous, Token.lexeme, Function.comp_def] using heads

theorem checkClosing_again {bracket : Bracket} (alike : s.Alike s')
    (h : checkClosing s bracket c = .ok ()) : checkClosing s' bracket c = .ok () := by
  obtain ⟨opening, outer, eq⟩ := checkClosing_eq_ok h
  have brackets := alike.brackets
  rw [eq, List.map_cons, List.map_eq_cons_iff] at brackets
  obtain ⟨⟨innermost, token⟩, others, eq', rfl, -⟩ := brackets
  rw [checkClosing, eq']
  exact if_pos rfl

theorem checkBracket_again (alike : s.Alike s') (h : checkBracket s c kind = .ok ()) :
    checkBracket s' c kind = .ok () := by
  unfold checkBracket at h ⊢
  rw [alike.previous]
  split at h
  next => rfl
  next =>
    split at h
    next accepted => exact if_pos accepted
    next => cases h
  next => exact checkClosing_again alike h
  next =>
    split at h
    next accepted =>
      rw [if_pos accepted]
      exact checkClosing_again alike h
    next => cases h
  next => rfl

/-- A name is read again where it has the same role, and the same is seen after it. -/
theorem scanName_again {previous previous' : Option Kind} (ends : Ends after)
    (scanned : scanName operators previous c rest = (kind, length))
    (same : roleOf? operators previous' (String.ofList (c :: rest.take (length - 1))) =
      roleOf? operators previous (String.ofList (c :: rest.take (length - 1))))
    (sees : SeesAlike kind after (rest.drop (length - 1))) :
    scanName operators previous' c (rest.take (length - 1) ++ after) =
      (kind, (rest.take (length - 1)).length + 1) := by
  unfold scanName at scanned ⊢
  obtain ⟨kindEq, rfl⟩ := Prod.mk.inj scanned
  have again : (rest.takeWhile continuesName ++ after).takeWhile continuesName =
      rest.takeWhile continuesName :=
    takeWhile_append_of_stop (fun d => List.all_eq_true.mp List.all_takeWhile d) ends.endsName
  rw [take_name] at same ⊢
  rw [again]
  dsimp only
  rw [same]
  refine Prod.ext ?_ rfl
  rw [← kindEq] at sees ⊢
  dsimp only at sees ⊢
  cases role : roleOf? operators previous (String.ofList (c :: rest.takeWhile continuesName)) with
  | some role => rfl
  | none =>
    rw [role] at sees
    dsimp only at sees ⊢
    rw [← sees (by split <;> simp)]
    simp only [List.length_cons, Nat.add_sub_cancel, List.drop_left]

/-- An operator is found again before a blank, for none holds one. -/
theorem scanOperator_again (admits : AdmitsBlanks operators) {previous : Option Kind} {role : Role}
    {text : List Char} (nonempty : text ≠ []) (ends : Ends after)
    (isRole : roleOf? operators previous (String.ofList text) = some role) :
    (scanOperator operators previous "" {} (text ++ after)).found = some (text.length, role) := by
  obtain ⟨permitted, found⟩ := roleOf?_eq_some isRole
  have stops : ∀ d ∈ after.head?, canGrow operators previous (String.ofList (text ++ [d])) = false := by
    intro d isHead
    simp only [canGrow, admits.stops _ text d (ends d isHead)]
    simp
  have scanned := @scanOperator_append operators after previous role {} [] text nonempty
    (fun beginning _ within =>
      canGrow_of_canStart permitted (admits.foresees role text beginning found within)) isRole stops
  simpa using scanned

/-- No digit comes with a blank. -/
theorem head_digit_append (ends : Ends after) (text : List Char) :
    (text ++ after).head?.any isDigit = text.head?.any isDigit := by
  cases text with
  | cons d text => rfl
  | nil =>
    cases after with
    | nil => rfl
    | cons d after => exact isDigit_of_ends ends.endsNumeral d rfl

theorem scanNumber_again (s' : State) (ends : Ends after)
    (starts : (isDigit c || (c == '.' && rest.head?.any isDigit)) = true)
    (scanned : scanNumber s (c :: rest) = .ok length) :
    (isDigit c || (c == '.' && (rest.take (length - 1) ++ after).head?.any isDigit)) = true ∧
      scanNumber s' (c :: (rest.take (length - 1) ++ after)) =
        .ok ((rest.take (length - 1)).length + 1) := by
  obtain ⟨positive, startsAgain⟩ := scanNumber_head starts scanned
  obtain ⟨-, -, -, isNumeral⟩ := isNumeral_of_scanNumber scanned
  obtain ⟨more, rfl⟩ : ∃ more, length = more + 1 := ⟨length - 1, by omega⟩
  rw [List.take_succ_cons] at isNumeral
  rw [head_digit_append ends]
  exact ⟨startsAgain, scanNumber_append isNumeral (by simp) ends.endsNumeral⟩

/-- After the same tokens, a token is read again where a blank comes after it, or nothing. -/
theorem scan_again (admits : AdmitsBlanks operators) (alike : s.Alike s') (ends : Ends after)
    (scanned : scan operators features s c rest = .ok (kind, length))
    (sees : SeesAlike kind after (rest.drop (length - 1))) :
    scan operators features s' c (rest.take (length - 1) ++ after) =
      .ok (kind, (rest.take (length - 1)).length + 1) := by
  by_cases starts : startsName c = true
  · rw [scan_of_startsName starts] at scanned ⊢
    rw [scanName_again ends (Except.ok.inj scanned) (by rw [alike.previous]) sees]
  rw [scan] at scanned ⊢
  split at scanned
  next isBracket =>
    obtain ⟨_, checked, eq⟩ := map_eq_ok scanned
    cases eq
    rw [checkBracket_again alike checked]
    rfl
  next noBracket =>
    split at scanned
    next quote =>
      obtain ⟨_, read, eq⟩ := map_eq_ok scanned
      cases eq
      obtain ⟨body, later, rfl, rfl, isBody⟩ := isLiteral_of_scanText read
      rw [if_pos quote, Nat.add_sub_cancel_left, List.take_left, scanText_append isBody, Nat.add_comm]
      rfl
    next noQuote =>
    rw [if_neg noQuote]
    split at scanned
    next comma =>
      cases scanned
      exact if_pos comma
    next noComma =>
    rw [if_neg noComma]
    split at scanned
    next isStart =>
      obtain ⟨_, read, eq⟩ := map_eq_ok scanned
      cases eq
      obtain ⟨startsAgain, again⟩ := scanNumber_again s' ends isStart read
      rw [if_pos startsAgain, again]
      rfl
    next noStart =>
    have noStartAgain : ¬(isDigit c ||
        (c == '.' && (rest.take (length - 1) ++ after).head?.any isDigit)) = true := by
      rw [head_digit_append ends, List.head?_take]
      split <;> simp_all
    rw [if_neg noStartAgain, if_neg starts]
    split at scanned
    next isField =>
      split at scanned
      next accepted =>
        cases scanned
        rw [if_pos isField, alike.previous, if_pos accepted]
        rfl
      next => cases scanned
    next noField =>
    rw [if_neg noField]
    dsimp only at scanned ⊢
    split at scanned
    next isFound =>
      cases scanned
      obtain ⟨isRole, positive⟩ := scanOperator_found (c :: rest) [] (c :: rest) rfl rfl
        (by simp) _ _ isFound
      obtain ⟨more, rfl⟩ : ∃ more, length = more + 1 := ⟨length - 1, by omega⟩
      rw [List.take_succ_cons] at isRole
      rw [Nat.add_sub_cancel, alike.previous, ← List.cons_append,
        scanOperator_again admits (by simp) ends isRole]
      rfl
    next => cases scanned

theorem bracket?_eq_openParen (h : bracket? features c = some (.opening .paren)) : c = '(' := by
  unfold bracket? at h
  split at h <;> (try split at h) <;> first | rfl | cases h

theorem noRole_of_scanName {previous : Option Kind}
    (scanned : scanName operators previous c rest = (kind, length)) (noOperator : kind.role? = none) :
    roleOf? operators previous (String.ofList (c :: rest.take (length - 1))) = none ∧
      ∀ d ∈ rest.take (length - 1), continuesName d = true := by
  unfold scanName at scanned
  obtain ⟨kindEq, rfl⟩ := Prod.mk.inj scanned
  rw [take_name]
  cases role : roleOf? operators previous (String.ofList (c :: rest.takeWhile continuesName)) with
  | none => exact ⟨rfl, fun d => List.all_eq_true.mp List.all_takeWhile d⟩
  | some role =>
    rw [role] at kindEq
    rw [← kindEq] at noOperator
    cases noOperator

/-- A factor before which a product is implied begins with a parenthesis or is a name. -/
theorem factor_of_scan (scanned : scan operators features s c rest = .ok (kind, length))
    (factor : kind = .opening .paren ∨ kind = .name ∨ kind = .function) :
    startsName c = true ∧ scanName operators s.previous c rest = (kind, length) ∨
      c = '(' ∧ kind = .opening .paren ∧ length = 1 := by
  cases tokenAt_of_scan scanned with
  | bracket isBracket =>
    rcases factor with rfl | rfl | rfl
    · exact .inr ⟨bracket?_eq_openParen isBracket, rfl, rfl⟩
    all_goals obtain ⟨_, eq⟩ | ⟨_, eq⟩ := bracket?_eq_some isBracket <;> cases eq
  | name starts named => exact .inl ⟨starts, named⟩
  | text | comma | number | field | operator => simp at factor

theorem roleOf?_after_infix {name : String} (noPrefix : operators.find? .prefixOp name = none)
    (noInfix : operators.find? .infixOp name = none) :
    roleOf? operators (some (.operator .infixOp)) name = none := by
  simp [roleOf?, permits, Kind.endsOperand, noPrefix, noInfix]

/-- A factor is read after the sign of the product as it is read where the sign is implied. -/
theorem scan_factor (admits : AdmitsBlanks operators) (ends : Ends after)
    (implied : impliesProduct s.previous kind = true)
    (signed : s'.previous = some (.operator .infixOp))
    (scanned : scan operators features s c rest = .ok (kind, length))
    (sees : SeesAlike kind after (rest.drop (length - 1))) :
    scan operators features s' c (rest.take (length - 1) ++ after) =
      .ok (kind, (rest.take (length - 1)).length + 1) := by
  have factor := (impliesProduct_eq_true implied).2
  rcases factor_of_scan scanned factor with ⟨starts, named⟩ | ⟨rfl, rfl, rfl⟩
  · have noOperator : kind.role? = none := by
      rcases factor with rfl | rfl | rfl <;> rfl
    obtain ⟨noRole, continues⟩ := noRole_of_scanName named noOperator
    have noRoleAgain := roleOf?_after_infix (admits.names c _ starts continues)
      (roleOf?_eq_none noRole (rfl : permits s.previous .infixOp = true))
    rw [← signed] at noRoleAgain
    rw [scan_of_startsName starts, scanName_again ends named (noRoleAgain.trans noRole.symm) sees]
  · rfl

theorem scan_product (admits : AdmitsBlanks operators) (ends : Ends after)
    (ended : EndedOperand s.previous) :
    scan operators features s '*' ([] ++ after) = .ok (.operator .infixOp, 1) := by
  have isRole : roleOf? operators s.previous (String.ofList ['*']) = some .infixOp := by
    obtain ⟨p, isPrevious, ends⟩ := ended
    have noPrefix : permits s.previous .prefixOp = false := by
      rw [isPrevious]
      cases p <;> simp_all [Kind.endsOperand, permits]
    have permitted : permits s.previous .infixOp = true := rfl
    have noPostfix : operators.find? .postfixOp (String.ofList ['*']) = none := admits.noPostfix
    have found : (operators.find? .infixOp (String.ofList ['*'])).isSome := admits.product
    simp [roleOf?, noPrefix, permitted, noPostfix, found]
  obtain ⟨-, noQuote, noComma, noPoint, noDigit, noName, noBracket⟩ := symbols_plain '*' (by decide)
  have scanned := scanOperator_again admits (by simp) ends isRole
  rw [List.nil_append, scan_of_plain noBracket noQuote noComma]
  rw [List.singleton_append] at scanned
  simp only [noDigit, noName, beq_eq_false_iff_ne.mpr noPoint, noPoint, Bool.false_and,
    Bool.or_false, Bool.false_eq_true, decide_false, if_false, scanned]
  rfl

end Scan

section Run

variable {s s' t : State} {c : Char} {rest after : List Char} {kind : Kind} {length : Nat}
  {text : List Char} {texts : List String}

theorem arrange_again {previous : Option Kind} {token other : Token}
    (h : arrange features previous token = .ok [token]) (same : other.kind = token.kind) :
    arrange features previous other = .ok [other] := by
  obtain ⟨notEmpty, afterInfix, operand⟩ := arrange_eq_single h
  have noProduct : impliesProduct previous token.kind = false := by
    cases implied : impliesProduct previous token.kind with
    | false => rfl
    | true =>
      rw [arrange, if_neg (by simp [notEmpty]), if_pos implied] at h
      split at h <;> simp at h
  rw [← same] at notEmpty afterInfix operand noProduct
  exact arrange_eq_single_of notEmpty noProduct afterInfix operand

theorem map_fst_track {token other : Token} {brackets others : List (Bracket × Token)}
    (same : other.kind = token.kind) (alike : others.map Prod.fst = brackets.map Prod.fst) :
    (track other others).map Prod.fst = (track token brackets).map Prod.fst := by
  unfold track
  rw [same]
  split
  · simp [alike]
  · rw [List.map_tail, List.map_tail, alike]
  · exact alike

theorem State.Alike.put (alike : s.Alike s') (kind : Kind) (text : List Char) :
    (s.put kind text).Alike (s'.put kind text) where
  lexemes := congrArg (List.cons (kind, String.ofList text)) alike.lexemes
  brackets := map_fst_track rfl alike.brackets

/-- The sign of a product stands before a factor alike where it is implied and where it is written. -/
theorem State.Alike.factor (alike : (s.put (.operator .infixOp) ['*']).Alike s') (kind : Kind)
    (text : List Char) :
    (s.add kind text [(s.token kind text).impliedProduct, s.token kind text]).Alike
      (s'.put kind text) where
  lexemes := congrArg (List.cons (kind, String.ofList text)) alike.lexemes
  brackets := map_fst_track rfl alike.brackets

/-- Where an operand has ended, the sign of a product is read as an infix operator. -/
theorem run_product (admits : AdmitsBlanks operators) (ends : Ends after)
    (ended : EndedOperand s.previous) :
    run operators features s ('*' :: after) =
      run operators features (s.put (.operator .infixOp) ['*']) after :=
  run_token (by decide) (scan_product admits ends ended) (ended.arrange (.inr (.inl rfl)))

theorem impliesProduct_after_name {previous : Option Kind}
    (named : previous = some .name ∨ previous = some .function) (kind : Kind) :
    impliesProduct previous kind = false := by
  rcases named with rfl | rfl <;> unfold impliesProduct <;> split <;> rfl

/-- Blanks change nothing but the position. -/
theorem run_blanks {blanks : List Char} (all : ∀ d ∈ blanks, isWhitespace d = true)
    (alike : s.Alike s')
    (later : ∀ u, s.Alike u → ∃ t', run operators features u after = .ok t' ∧ t.Alike t') :
    ∃ t', run operators features s' (blanks ++ after) = .ok t' ∧ t.Alike t' := by
  induction blanks generalizing s' with
  | nil => exact later s' alike
  | cons d blanks ih =>
    obtain ⟨blank, others⟩ := List.forall_mem_cons.mp all
    rw [List.cons_append, run, if_pos blank]
    exact ih others ⟨alike.lexemes, alike.brackets⟩

/-- What is left of a source at a state is read alike where the texts of its tokens are spaced
otherwise. What comes after a name tells whether it is that of a function. -/
structure Rereads (operators : Operators) (features : Features) (s : State) (cs : List Char)
    (texts : List String) (t : State) : Prop where
  head : s.previous = some .name ∨ s.previous = some .function → ∀ other, Separated texts other →
    (other.dropWhile isWhitespace).head? = (cs.dropWhile isWhitespace).head?
  again : ∀ s' other, s.Alike s' → Separated texts other →
    ∃ t', run operators features s' other = .ok t' ∧ t.Alike t'

namespace Rereads

theorem done (s : State) : Rereads operators features s [] [] s where
  head := by
    rintro - other ⟨⟩
    rfl
  again := by
    rintro s' other alike ⟨⟩
    exact ⟨s', by rw [run], alike⟩

theorem blank (isBlank : isWhitespace c = true)
    (rereads : Rereads operators features { s with position := s.position.next c } rest texts t) :
    Rereads operators features s (c :: rest) texts t where
  head named other separated := by
    rw [List.dropWhile_cons_of_pos isBlank]
    exact rereads.head named other separated
  again s' other alike separated := rereads.again s' other ⟨alike.lexemes, alike.brackets⟩ separated

theorem sees {blanks other : List Char} {added : List Token}
    (rereads : Rereads operators features (s.add kind text added) rest texts t)
    (last : (s.add kind text added).previous = some kind)
    (all : ∀ d ∈ blanks, isWhitespace d = true) (separated : Separated texts other) :
    SeesAlike kind (blanks ++ other) rest := by
  intro named
  rw [List.dropWhile_append_of_pos all]
  exact rereads.head (by simpa [last] using named) other separated

theorem token (admits : AdmitsBlanks operators) (visible : isWhitespace c = false)
    (scanned : scan operators features s c rest = .ok (kind, length))
    (arranged : arrange features s.previous (s.token kind (c :: rest.take (length - 1))) =
      .ok [s.token kind (c :: rest.take (length - 1))])
    (rereads : Rereads operators features (s.add kind (c :: rest.take (length - 1))
      [s.token kind (c :: rest.take (length - 1))]) (rest.drop (length - 1)) texts t) :
    Rereads operators features s (c :: rest)
      (String.ofList (c :: rest.take (length - 1)) :: texts) t where
  head := by
    rintro - other separated
    obtain ⟨blanks, later, rfl, -⟩ := separated.uncons
    rw [String.toList_ofList, List.cons_append, List.dropWhile_cons_of_neg (by simp [visible]),
      List.dropWhile_cons_of_neg (by simp [visible])]
    rfl
  again := by
    intro s' other alike separated
    obtain ⟨blanks, later, rfl, all, ends, separated⟩ := separated.uncons
    have scannedAgain := scan_again admits alike ends scanned (rereads.sees rfl all separated)
    have arrangedAgain := arrange_again arranged
      (rfl : (s'.token kind (c :: rest.take (length - 1))).kind = _)
    rw [← alike.previous] at arrangedAgain
    rw [String.toList_ofList, run_token visible scannedAgain arrangedAgain]
    exact run_blanks all (alike.put _ _) fun u isAlike => rereads.again u later isAlike separated

/-- Where a product is implied, its sign is read first, and then the factor. -/
theorem product (admits : AdmitsBlanks operators) (visible : isWhitespace c = false)
    (scanned : scan operators features s c rest = .ok (kind, length))
    (implied : impliesProduct s.previous kind = true)
    (rereads : Rereads operators features (s.add kind (c :: rest.take (length - 1))
      [(s.token kind (c :: rest.take (length - 1))).impliedProduct,
        s.token kind (c :: rest.take (length - 1))]) (rest.drop (length - 1)) texts t) :
    Rereads operators features s (c :: rest)
      ("*" :: String.ofList (c :: rest.take (length - 1)) :: texts) t where
  head := by
    intro named
    cases (impliesProduct_after_name named kind).symm.trans implied
  again := by
    intro s' other alike separated
    obtain ⟨ended, factor⟩ := impliesProduct_eq_true implied
    have endedAgain : EndedOperand s'.previous := by
      rw [alike.previous]
      exact ended
    obtain ⟨blanks, factors, rfl, all, ends, separated⟩ := separated.uncons
    obtain ⟨blanksAfter, later, rfl, allAfter, endsAfter, separated⟩ := separated.uncons
    have isSign : "*".toList = ['*'] := rfl
    rw [isSign, List.singleton_append, run_product admits ends endedAgain]
    apply run_blanks all (alike.put (.operator .infixOp) ['*'])
    intro u isAlike
    have afterSign : u.previous = some (.operator .infixOp) := isAlike.previous
    have scannedAgain := scan_factor admits endsAfter implied afterSign scanned
      (rereads.sees rfl allAfter separated)
    have awaits : AwaitsOperand u.previous := by
      rw [afterSign]
      rintro p ⟨⟩
      simp
    have arrangedAgain : arrange features u.previous (u.token kind (c :: rest.take (length - 1))) =
        .ok [u.token kind (c :: rest.take (length - 1))] := by
      apply awaits.arrange
      rcases factor with rfl | rfl | rfl <;> simp [State.token]
    rw [String.toList_ofList, run_token visible scannedAgain arrangedAgain]
    exact run_blanks allAfter (isAlike.factor _ _)
      fun v isAlike => rereads.again v later isAlike separated

end Rereads

theorem Runs.rereads (admits : AdmitsBlanks operators) {cs : List Char}
    (h : Runs operators features s cs t) :
    ∃ later : List Token, t.tokens.reverse = s.tokens.reverse ++ later ∧
      Rereads operators features s cs (later.map (·.span.text)) t := by
  induction h with
  | done s => exact ⟨[], by simp, .done s⟩
  | blank isBlank _ ih =>
    obtain ⟨later, tokens, rereads⟩ := ih
    exact ⟨later, tokens, rereads.blank isBlank⟩
  | @token s t c rest kind length added visible scanned arranged _ ih =>
    obtain ⟨later, tokens, rereads⟩ := ih
    refine ⟨added ++ later, by simp [tokens, State.add], ?_⟩
    rcases arrange_eq_ok arranged with rfl | ⟨rfl, implied⟩
    · exact rereads.token admits visible scanned arranged
    · exact rereads.product admits visible scanned implied

end Run

end Lexer

open Lexer

/-- What ends with a blank is the beginning of no operator, if none holds a blank. -/
theorem OperatorTable.canStart_blank {table : OperatorTable} {role : Role} {text : List Char}
    {d : Char}
    (visible : ∀ entry ∈ table.entries, ∀ c ∈ entry.2.1.toList, isWhitespace c = false)
    (blank : isWhitespace d = true) :
    table.canStart role (String.ofList (text ++ [d])) = false := by
  cases starts : table.canStart role (String.ofList (text ++ [d])) with
  | false => rfl
  | true =>
    obtain ⟨entry, member, -, begins⟩ := canStart_iff.mp starts
    simp only [upper, String.toList_ofList] at begins
    have within : d ∈ upperChars (text ++ [d]) := by
      simp [upperChars, upperChar_of_isWhitespace blank]
    cases blank.symm.trans (visible entry member d (begins.subset within))

/-- The tokens of a source, the signs of products that are implied among them, are the tokens of
every other source that has their texts with blanks between them. -/
theorem tokenize_respaced (layers : Layers OperatorTable) (features : Features)
    (visible : ∀ table ∈ layers.toList, ∀ entry ∈ table.entries,
      ∀ c ∈ entry.2.1.toList, isWhitespace c = false)
    (isInfix : ((Operators.ofLayers layers).find? .infixOp "*").isSome)
    (noPostfix : (Operators.ofLayers layers).find? .postfixOp "*" = none)
    (names : ∀ c rest, startsName c = true → (∀ d ∈ rest, continuesName d = true) →
      (Operators.ofLayers layers).find? .prefixOp (String.ofList (c :: rest)) = none)
    (source other : String) (tokens : List Token)
    (h : tokenize (.ofLayers layers) features source = .ok tokens)
    (separated : Separated (tokens.map (·.span.text)) other.toList) :
    ∃ again, tokenize (.ofLayers layers) features other = .ok again ∧
      again.map Token.lexeme = tokens.map Token.lexeme := by
  have admits : AdmitsBlanks (.ofLayers layers) := by
    refine ⟨Operators.ofLayers_foresees layers, ?_, isInfix, noPostfix, names⟩
    intro role text d blank
    change layers.any _ = false
    rw [Layers.any_eq, List.any_eq_false]
    intro table member
    rw [OperatorTable.canStart_blank (visible table member) blank]
    exact Bool.false_ne_true
  obtain ⟨t, runs, closed, rfl⟩ := tokenize_eq_ok h
  obtain ⟨later, isLater, rereads⟩ := runs.rereads admits
  rw [isLater] at separated
  obtain ⟨t', ran, alike⟩ := rereads.again {} other.toList ⟨rfl, rfl⟩ separated
  have closedAgain : t'.brackets = [] := by
    simpa [closed] using alike.brackets
  refine ⟨t'.tokens.reverse, ?_, by rw [List.map_reverse, List.map_reverse, alike.lexemes]⟩
  rw [tokenize, ran]
  dsimp only
  rw [closedAgain]

/-- A call after a number, and the product with other blanks than none. -/
theorem tokenize_respaced_call :
    let tokens : List Token := [⟨.number, ⟨0, 1, 1⟩, "2"⟩, ⟨.operator .infixOp, ⟨1, 1, 2⟩, "*"⟩,
      ⟨.function, ⟨1, 1, 2⟩, "f"⟩, ⟨.opening .paren, ⟨2, 1, 3⟩, "("⟩, ⟨.name, ⟨3, 1, 4⟩, "x"⟩,
      ⟨.closing .paren, ⟨4, 1, 5⟩, ")"⟩]
    tokenize .standard {} "2f(x)" = .ok tokens ∧
      ∃ again, tokenize .standard {} "2 *\tf\n( x )" = .ok again ∧
        again.map Token.lexeme = tokens.map Token.lexeme := by
  intro tokens
  have tokenized : tokenize .standard {} "2f(x)" = .ok tokens := by
    have found : (tokenize .standard {} "2f(x)").toOption = some tokens := by
      decide +kernel
    cases result : tokenize .standard {} "2f(x)" with
    | error => simp [result, Except.toOption] at found
    | ok => simpa [result, Except.toOption] using found
  have separated : Separated ["2", "*", "f", "(", "x", ")"] "2 *\tf\n( x )".toList := by
    have parts : "2 *\tf\n( x )".toList = "2".toList ++ ([' '] ++ ("*".toList ++ (['\t'] ++
        ("f".toList ++ (['\n'] ++ ("(".toList ++ ([' '] ++ ("x".toList ++ ([' '] ++
          ")".toList))))))))) := by
      decide
    rw [parts]
    repeat' apply Separated.more
    all_goals first
      | exact .last _
      | exact List.cons_ne_nil _ _
      | exact List.forall_mem_singleton.mpr (by decide +kernel)
  have ofSymbols : ∀ entry ∈ OperatorTable.standard.entries, ∀ c ∈ entry.2.1.toList, c ∈ symbols :=
    fun entry member => (OperatorTable.standard_symbols entry member).2
  refine ⟨tokenized, tokenize_respaced (.single .standard) {} ?_ (by decide +kernel)
    (Operators.find?_standard_postfixOp "*") ?_ _ _ tokens tokenized separated⟩
  · intro table isTable entry member c within
    obtain rfl := List.mem_singleton.mp isTable
    exact (symbols_plain c (ofSymbols entry member c within)).1
  · intro c rest starts _
    exact roleOf?_eq_none (roleOf?_of_startsName starts none) rfl

end Formulary
