import Formulary.Token.Lexer

set_option autoImplicit false

/-!
# What reading a source can do

`Runs` is the lexer as a relation, one token or one blank at a time. `Scans` says for each kind of
token what is known where one is found: which token is before it, which bracket is open, what
follows it.
-/

namespace Formulary

namespace Lexer

open Text

variable {operators : Operators} {features : Features}

/-- The token of the text at the position of a state. -/
def State.token (s : State) (kind : Kind) (text : List Char) : Token :=
  ⟨kind, s.position, String.ofList text⟩

/-- The state after a token, in whose place the tokens `added` stand. -/
def State.add (s : State) (kind : Kind) (text : List Char) (added : List Token) : State where
  position := s.position.advance text
  tokens := added.reverse ++ s.tokens
  brackets := track (s.token kind text) s.brackets

inductive Runs (operators : Operators) (features : Features) : State → List Char → State → Prop
  | done (s : State) : Runs operators features s [] s
  | blank {s t : State} {c : Char} {rest : List Char} :
      isWhitespace c = true →
      Runs operators features { s with position := s.position.next c } rest t →
      Runs operators features s (c :: rest) t
  | token {s t : State} {c : Char} {rest : List Char} {kind : Kind} {length : Nat}
      {added : List Token} :
      isWhitespace c = false → scan operators features s c rest = .ok (kind, length) →
      arrange features s.previous (s.token kind (c :: rest.take (length - 1))) = .ok added →
      Runs operators features (s.add kind (c :: rest.take (length - 1)) added)
        (rest.drop (length - 1)) t →
      Runs operators features s (c :: rest) t

theorem runs_of_run {s t : State} {cs : List Char} (h : run operators features s cs = .ok t) :
    Runs operators features s cs t := by
  fun_induction run operators features s cs with
  | case1 =>
    cases h
    exact .done _
  | case2 s c rest blank ih => exact .blank blank (ih h)
  | case3 => cases h
  | case4 => cases h
  | case5 s c rest visible kind length scanned text token added arranged next ih =>
    exact .token (by simpa using visible) scanned arranged (ih h)

theorem map_eq_ok {ε α β : Type} {f : α → β} {result : Except ε α} {value : β}
    (h : result.map f = .ok value) : ∃ found, result = .ok found ∧ f found = value := by
  cases result with
  | error => cases h
  | ok found =>
    cases h
    exact ⟨found, rfl, rfl⟩

/-- How a token of each kind is read at the start of `c :: rest`. -/
inductive TokenAt (operators : Operators) (features : Features) (s : State) (c : Char)
    (rest : List Char) : Kind → Nat → Prop
  | bracket {kind : Kind} :
      bracket? features c = some kind → checkBracket s c kind = .ok () →
      TokenAt operators features s c rest kind 1
  | text {length : Nat} :
      c = '"' → scanText s (c :: rest) 1 rest = .ok length →
      TokenAt operators features s c rest .text length
  | comma : c = ',' → TokenAt operators features s c rest .comma 1
  | number {length : Nat} :
      (isDigit c || (c == '.' && rest.head?.any isDigit)) = true →
      scanNumber s (c :: rest) = .ok length → TokenAt operators features s c rest .number length
  | field :
      c = '.' → features.structures = true → s.previous.any Kind.acceptsAccess = true →
      TokenAt operators features s c rest .field 1
  | name {kind : Kind} {length : Nat} :
      startsName c = true → scanName operators s.previous c rest = (kind, length) →
      TokenAt operators features s c rest kind length
  | operator {role : Role} {length : Nat} :
      (scanOperator operators s.previous "" {} (c :: rest)).found = some (length, role) →
      TokenAt operators features s c rest (.operator role) length

theorem tokenAt_of_scan {s : State} {c : Char} {rest : List Char} {kind : Kind} {length : Nat}
    (h : scan operators features s c rest = .ok (kind, length)) :
    TokenAt operators features s c rest kind length := by
  rw [scan] at h
  split at h
  next isBracket =>
    obtain ⟨_, checked, eq⟩ := map_eq_ok h
    cases eq
    exact .bracket isBracket checked
  next =>
    split at h
    next isQuote =>
      obtain ⟨_, read, eq⟩ := map_eq_ok h
      cases eq
      exact .text isQuote read
    next =>
    split at h
    next isComma =>
      cases h
      exact .comma isComma
    next =>
    split at h
    next starts =>
      obtain ⟨_, read, eq⟩ := map_eq_ok h
      cases eq
      exact .number starts read
    next =>
    split at h
    next isField =>
      simp only [Bool.and_eq_true, decide_eq_true_eq] at isField
      split at h
      next accepted =>
        cases h
        exact .field isField.1 isField.2 accepted
      next => cases h
    next =>
    split at h
    next starts => exact .name starts (Except.ok.inj h)
    next =>
      dsimp only at h
      split at h
      next isFound =>
        cases h
        exact .operator isFound
      next => cases h

/-- What is known where a token is found. -/
inductive Scans (operators : Operators) (s : State) (c : Char) (rest : List Char) :
    Kind → Nat → Prop
  | number (length : Nat) : Scans operators s c rest .number length
  | text (length : Nat) : Scans operators s c rest .text length
  | name (length : Nat) : Scans operators s c rest .name length
  | comma : Scans operators s c rest .comma 1
  | function (length : Nat) :
      ((rest.drop (length - 1)).dropWhile isWhitespace).head? = some '(' →
      Scans operators s c rest .function length
  | operator (role : Role) (length : Nat) :
      permits s.previous role = true →
      (operators.find? role (String.ofList (c :: rest.take (length - 1)))).isSome →
      Scans operators s c rest (.operator role) length
  | openParen : Scans operators s c rest (.opening .paren) 1
  | openAccess {bracket : Bracket} :
      bracket ≠ .paren → s.previous.any Kind.acceptsAccess = true →
      Scans operators s c rest (.opening bracket) 1
  | closing {bracket : Bracket} {opening : Token} {brackets : List (Bracket × Token)} :
      s.brackets = (bracket, opening) :: brackets →
      bracket = .paren ∨ s.previous.any Kind.acceptsClosing = true →
      Scans operators s c rest (.closing bracket) 1
  | field : s.previous.any Kind.acceptsAccess = true → Scans operators s c rest .field 1

theorem checkClosing_eq_ok {s : State} {bracket : Bracket} {c : Char}
    (h : checkClosing s bracket c = .ok ()) :
    ∃ opening brackets, s.brackets = (bracket, opening) :: brackets := by
  rw [checkClosing] at h
  split at h
  · cases h
  next innermost opening brackets eq =>
    split at h
    next same => exact ⟨opening, brackets, same ▸ eq⟩
    next => cases h

theorem bracket?_eq_some {c : Char} {kind : Kind} (h : bracket? features c = some kind) :
    (∃ bracket, kind = .opening bracket) ∨ ∃ bracket, kind = .closing bracket := by
  unfold bracket? at h
  split at h <;> (try split at h) <;> cases h <;> simp

theorem roleOf?_eq_some {previous : Option Kind} {text : String} {role : Role}
    (h : roleOf? operators previous text = some role) :
    permits previous role = true ∧ (operators.find? role text).isSome = true := by
  simpa using List.find?_some h

/-- The operator that is found is the text that was read up to its end. -/
theorem scanOperator_found {previous : Option Kind} {scan : OperatorScan}
    (all seen cs : List Char) (split : all = seen ++ cs) (count : scan.read = seen.length)
    (found : ∀ length role, scan.found = some (length, role) →
      roleOf? operators previous (String.ofList (all.take length)) = some role ∧ 0 < length) :
    ∀ length role,
      (scanOperator operators previous (String.ofList seen) scan cs).found = some (length, role) →
      roleOf? operators previous (String.ofList (all.take length)) = some role ∧ 0 < length := by
  induction cs generalizing seen scan with
  | nil => exact found
  | cons c rest ih =>
    have pushed : (String.ofList seen).push c = String.ofList (seen ++ [c]) := by
      simp
    rw [scanOperator]
    dsimp only
    split
    next =>
      rw [pushed]
      apply ih _ (by simp [split]) (by simp [count])
      intro length role isFound
      cases known : roleOf? operators previous (String.ofList (seen ++ [c])) with
      | none =>
        rw [known] at isFound
        exact found length role isFound
      | some other =>
        rw [known] at isFound
        cases isFound
        refine ⟨?_, by omega⟩
        rw [split, count, show seen ++ c :: rest = (seen ++ [c]) ++ rest by simp,
          List.take_left' (by simp)]
        exact known
    next => exact found

/-- A name is its first character and what continues it. -/
theorem take_name (c : Char) (rest : List Char) :
    rest.take ((c :: rest.takeWhile continuesName).length - 1) = rest.takeWhile continuesName := by
  rw [List.length_cons, Nat.add_sub_cancel]
  exact (List.prefix_iff_eq_take.mp (List.takeWhile_prefix _)).symm

theorem scans_of_scanName {s : State} {c : Char} {rest : List Char} {kind : Kind} {length : Nat}
    (h : scanName operators s.previous c rest = (kind, length)) :
    Scans operators s c rest kind length := by
  rw [scanName] at h
  obtain ⟨kindEq, rfl⟩ := Prod.mk.inj h
  split at kindEq
  next role isRole =>
    cases kindEq
    obtain ⟨permitted, known⟩ := roleOf?_eq_some isRole
    refine .operator role _ permitted ?_
    rw [take_name]
    exact known
  next =>
    split at kindEq
    next follows =>
      cases kindEq
      exact .function _ follows
    next =>
      cases kindEq
      exact .name _

theorem scans_of_checkBracket {s : State} {c : Char} {rest : List Char} {kind : Kind}
    (isBracket : bracket? features c = some kind) (h : checkBracket s c kind = .ok ()) :
    Scans operators s c rest kind 1 := by
  cases kind with
  | opening bracket =>
    by_cases paren : bracket = .paren
    · subst paren
      exact .openParen
    · rw [checkBracket] at h
      · split at h
        next accepted => exact .openAccess paren accepted
        next => cases h
      · exact paren
  | closing bracket =>
    by_cases paren : bracket = .paren
    · subst paren
      obtain ⟨opening, brackets, eq⟩ := checkClosing_eq_ok h
      exact .closing eq (.inl rfl)
    · rw [checkBracket] at h
      · split at h
        next accepted =>
          obtain ⟨opening, brackets, eq⟩ := checkClosing_eq_ok h
          exact .closing eq (.inr accepted)
        next => cases h
      · exact paren
  | _ =>
    obtain ⟨_, eq⟩ | ⟨_, eq⟩ := bracket?_eq_some isBracket <;> cases eq

theorem kind_of_scanName {previous : Option Kind} {c : Char} {rest : List Char} {kind : Kind}
    {length : Nat} (h : scanName operators previous c rest = (kind, length)) :
    kind = .name ∨ kind = .function ∨ ∃ role, kind = .operator role := by
  rw [scanName] at h
  obtain ⟨rfl, -⟩ := Prod.mk.inj h
  split
  next role _ => exact .inr (.inr ⟨role, rfl⟩)
  next => split <;> simp

theorem number_of_scan {s : State} {c : Char} {rest : List Char} {length : Nat}
    (h : scan operators features s c rest = .ok (.number, length)) :
    (isDigit c || (c == '.' && rest.head?.any isDigit)) = true ∧
      scanNumber s (c :: rest) = .ok length := by
  cases tokenAt_of_scan h with
  | bracket isBracket => obtain ⟨_, same⟩ | ⟨_, same⟩ := bracket?_eq_some isBracket <;> cases same
  | number starts read => exact ⟨starts, read⟩
  | name _ named => rcases kind_of_scanName named with same | same | ⟨_, same⟩ <;> cases same

theorem text_of_scan {s : State} {c : Char} {rest : List Char} {length : Nat}
    (h : scan operators features s c rest = .ok (.text, length)) :
    c = '"' ∧ scanText s (c :: rest) 1 rest = .ok length := by
  cases tokenAt_of_scan h with
  | bracket isBracket => obtain ⟨_, same⟩ | ⟨_, same⟩ := bracket?_eq_some isBracket <;> cases same
  | text isQuote read => exact ⟨isQuote, read⟩
  | name _ named => rcases kind_of_scanName named with same | same | ⟨_, same⟩ <;> cases same

theorem scans_of_scan {s : State} {c : Char} {rest : List Char} {kind : Kind} {length : Nat}
    (h : scan operators features s c rest = .ok (kind, length)) :
    Scans operators s c rest kind length := by
  cases tokenAt_of_scan h with
  | bracket isBracket checked => exact scans_of_checkBracket isBracket checked
  | text => exact .text _
  | comma => exact .comma
  | number => exact .number _
  | field _ _ accepted => exact .field accepted
  | name _ named => exact scans_of_scanName named
  | operator isFound =>
    obtain ⟨isRole, positive⟩ := scanOperator_found (c :: rest) [] (c :: rest) rfl rfl
      (by simp) _ _ isFound
    obtain ⟨permitted, known⟩ := roleOf?_eq_some isRole
    refine .operator _ _ permitted ?_
    rwa [← List.take_succ_cons, Nat.sub_add_cancel positive]

/-- A token may come after a multiplication sign that it implies. -/
theorem arrange_eq_ok {previous : Option Kind} {token : Token} {added : List Token}
    (h : arrange features previous token = .ok added) :
    added = [token] ∨
      added = [token.impliedProduct, token] ∧ impliesProduct previous token.kind = true := by
  rw [arrange] at h
  repeat' split at h
  all_goals cases h
  next implied _ => exact .inr ⟨rfl, implied⟩
  next => exact .inl rfl

/-- What every blank and every token preserves holds at the end. -/
theorem Runs.preserves {P : State → List Char → Prop}
    (blank : ∀ (s : State) (c : Char) (rest : List Char), isWhitespace c = true →
      P s (c :: rest) → P { s with position := s.position.next c } rest)
    (token : ∀ (s : State) (c : Char) (rest : List Char) (kind : Kind) (length : Nat)
      (added : List Token), isWhitespace c = false →
      scan operators features s c rest = .ok (kind, length) →
      arrange features s.previous (s.token kind (c :: rest.take (length - 1))) = .ok added →
      P s (c :: rest) →
      P (s.add kind (c :: rest.take (length - 1)) added) (rest.drop (length - 1)))
    {s t : State} {cs : List Char} (h : Runs operators features s cs t) (holds : P s cs) :
    P t [] := by
  induction h with
  | done s => exact holds
  | blank isBlank _ ih => exact ih (blank _ _ _ isBlank holds)
  | token visible scanned arranged _ ih => exact ih (token _ _ _ _ _ _ visible scanned arranged holds)

end Lexer

open Lexer

theorem tokenize_eq_ok {operators : Operators} {features : Features} {source : String}
    {tokens : List Token} (h : tokenize operators features source = .ok tokens) :
    ∃ s, Runs operators features {} source.toList s ∧ s.brackets = [] ∧
      tokens = s.tokens.reverse := by
  rw [tokenize] at h
  split at h
  next => cases h
  next s ran =>
    split at h
    next closed =>
      cases h
      exact ⟨s, runs_of_run ran, closed, rfl⟩
    next => cases h

/-- Each token has been scanned where its text begins, unless it is a multiplication sign that is
implied. -/
theorem tokenize_scanned {operators : Operators} {features : Features} {source : String}
    {tokens : List Token} (h : tokenize operators features source = .ok tokens) :
    ∀ token ∈ tokens,
      (∃ (s : State) (c : Char) (rest : List Char) (length : Nat),
        scan operators features s c rest = .ok (token.kind, length) ∧
          token.span.text = String.ofList (c :: rest.take (length - 1))) ∨
        ∃ next : Token, token = next.impliedProduct := by
  obtain ⟨s, runs, -, rfl⟩ := tokenize_eq_ok h
  simp only [List.mem_reverse]
  refine runs.preserves (P := fun s _ => ∀ token ∈ s.tokens,
    (∃ (s : State) (c : Char) (rest : List Char) (length : Nat),
      scan operators features s c rest = .ok (token.kind, length) ∧
        token.span.text = String.ofList (c :: rest.take (length - 1))) ∨
      ∃ next : Token, token = next.impliedProduct) ?_ ?_ (by simp)
  · intro s c rest _ holds
    exact holds
  · intro s c rest kind length added _ scanned arranged holds token member
    rcases List.mem_append.mp member with isNew | isOld
    · rcases arrange_eq_ok arranged with rfl | ⟨rfl, -⟩
      · obtain rfl : token = s.token kind (c :: rest.take (length - 1)) := by simpa using isNew
        exact .inl ⟨s, c, rest, length, scanned, rfl⟩
      · rcases (by simpa using isNew : token = s.token kind (c :: rest.take (length - 1)) ∨
          token = (s.token kind (c :: rest.take (length - 1))).impliedProduct) with rfl | rfl
        · exact .inl ⟨s, c, rest, length, scanned, rfl⟩
        · exact .inr ⟨_, rfl⟩
    · exact holds token isOld

/-- An operator has been found in its role, unless it is a multiplication sign that is implied before
the next token. -/
theorem tokenize_operator_cases {operators : Operators} {features : Features} {source : String}
    {tokens : List Token} (h : tokenize operators features source = .ok tokens) :
    ∀ token ∈ tokens, ∀ role, token.kind = .operator role →
      (operators.find? role token.span.text).isSome ∨
        ∃ next : Token, token = next.impliedProduct ∧ [token, next] <:+: tokens := by
  obtain ⟨s, runs, -, rfl⟩ := tokenize_eq_ok h
  suffices holds : ∀ token ∈ s.tokens, ∀ role, token.kind = .operator role →
      (operators.find? role token.span.text).isSome ∨
        ∃ next : Token, token = next.impliedProduct ∧ [next, token] <:+: s.tokens by
    intro token member role isOperator
    rcases holds token (List.mem_reverse.mp member) role isOperator with found | ⟨next, rfl, within⟩
    · exact .inl found
    · exact .inr ⟨next, rfl, by simpa using List.reverse_infix.mpr within⟩
  refine runs.preserves (P := fun s _ => ∀ token ∈ s.tokens, ∀ role, token.kind = .operator role →
    (operators.find? role token.span.text).isSome ∨
      ∃ next : Token, token = next.impliedProduct ∧ [next, token] <:+: s.tokens) ?_ ?_ (by simp)
  · intro s c rest _ holds
    exact holds
  · intro s c rest kind length added _ scanned arranged holds token member role isOperator
    have new : token = s.token kind (c :: rest.take (length - 1)) →
        (operators.find? role token.span.text).isSome := by
      rintro rfl
      obtain rfl : kind = .operator role := isOperator
      cases scans_of_scan scanned with
      | operator _ _ _ known => exact known
    rcases List.mem_append.mp member with isNew | isOld
    · rcases arrange_eq_ok arranged with rfl | ⟨rfl, -⟩
      · exact .inl (new (by simpa using isNew))
      · rcases (by simpa using isNew : token = s.token kind (c :: rest.take (length - 1)) ∨
          token = (s.token kind (c :: rest.take (length - 1))).impliedProduct) with same | rfl
        · exact .inl (new same)
        · exact .inr ⟨_, rfl, List.prefix_append _ _ |>.isInfix⟩
    · rcases holds token isOld role isOperator with found | ⟨next, isProduct, within⟩
      · exact .inl found
      · exact .inr ⟨next, isProduct, within.trans (List.suffix_append _ _).isInfix⟩

/-- An operator has been found in its role, unless it is an implied multiplication sign. -/
theorem tokenize_operator {operators : Operators} {features : Features} {source : String}
    {tokens : List Token} (h : tokenize operators features source = .ok tokens) :
    ∀ token ∈ tokens, ∀ role, token.kind = .operator role →
      role = .infixOp ∨ (operators.find? role token.span.text).isSome := by
  intro token member role isOperator
  rcases tokenize_operator_cases h token member role isOperator with found | ⟨next, rfl, -⟩
  · exact .inr found
  · cases isOperator
    exact .inl rfl

end Formulary
