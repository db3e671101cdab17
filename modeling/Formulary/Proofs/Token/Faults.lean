import Formulary.Proofs.Token.Lexing

set_option autoImplicit false

/-!
# What can be wrong with a source

An error of the lexer is about the place that it has come to: what is there is no token, or one that
may not be added to those before it. That an operator is undefined is said only where none matches.
-/

namespace Formulary

open Text

/-- The causes of an error about a token that cannot be read. That no operator is found is not among
them. -/
def SyntaxError.Cause.isMisread : Cause → Bool
  | unknownEscape | unterminatedText | malformedExponent | malformedHexadecimal | repeatedPoint
  | misplacedField | misplacedBracket _ _ | unexpectedClosing _ | unclosed _ => true
  | _ => false

/-- The beginnings of an operator can grow into it. -/
def Operators.Foresees (operators : Operators) : Prop :=
  ∀ role text beginning, (operators.find? role (String.ofList text)).isSome →
    beginning <+: text → operators.canStart role (String.ofList beginning) = true

theorem OperatorTable.canStart_of_find? {table : OperatorTable} {role : Role}
    {text beginning : List Char} (found : (table.find? role (String.ofList text)).isSome)
    (isBeginning : beginning <+: text) : table.canStart role (String.ofList beginning) = true := by
  obtain ⟨rest, rfl⟩ := isBeginning
  rw [find?, Option.isSome_map, List.find?_isSome] at found
  obtain ⟨⟨entryRole, entryText, mapping⟩, member, same⟩ := found
  obtain ⟨rfl, rfl⟩ := of_decide_eq_true same
  exact canStart_iff.mpr ⟨_, member, rfl, by simp⟩

theorem Operators.ofLayers_foresees (layers : Layers OperatorTable) :
    (Operators.ofLayers layers).Foresees := by
  intro role text beginning found isBeginning
  change (layers.first? _).isSome = true at found
  change layers.any _ = true
  rw [Layers.first?_eq, List.findSome?_isSome_iff] at found
  obtain ⟨table, member, found⟩ := found
  rw [Layers.any_eq, List.any_eq_true]
  exact ⟨table, member, OperatorTable.canStart_of_find? found isBeginning⟩

namespace Lexer

variable {operators : Operators} {features : Features} {source : String}

/-- The states that the lexer comes to, each with what is left of the source. -/
inductive Reached (operators : Operators) (features : Features) (source : String) :
    State → List Char → Prop
  | start : Reached operators features source {} source.toList
  | blank {s : State} {c : Char} {rest : List Char} :
      Reached operators features source s (c :: rest) → isWhitespace c = true →
      Reached operators features source { s with position := s.position.next c } rest
  | token {s : State} {c : Char} {rest : List Char} {kind : Kind} {length : Nat}
      {added : List Token} :
      Reached operators features source s (c :: rest) → isWhitespace c = false →
      scan operators features s c rest = .ok (kind, length) →
      arrange features s.previous (s.token kind (c :: rest.take (length - 1))) = .ok added →
      Reached operators features source (s.add kind (c :: rest.take (length - 1)) added)
        (rest.drop (length - 1))

/-- No operator that may stand after `previous` is at the start of `rest`, as far as the beginnings
of its text are known as such. -/
def Unmatched (operators : Operators) (previous : Option Kind) (rest : List Char) : Prop :=
  ∀ role text, permits previous role = true → text ≠ [] → text <+: rest →
    (∀ beginning, beginning ≠ [] → beginning <+: text →
      operators.canStart role (String.ofList beginning) = true) →
    operators.find? role (String.ofList text) = none

theorem Unmatched.find?_eq_none {previous : Option Kind} {rest : List Char}
    (unmatched : Unmatched operators previous rest) (foresees : operators.Foresees)
    {role : Role} {text : List Char} (permitted : permits previous role = true)
    (nonempty : text ≠ []) (isBeginning : text <+: rest) :
    operators.find? role (String.ofList text) = none := by
  cases found : operators.find? role (String.ofList text) with
  | none => rfl
  | some mapping =>
    have grows := fun beginning => foresees role text beginning (Option.isSome_of_eq_some found)
    have missing := unmatched role text permitted nonempty isBeginning fun part _ => grows part
    exact found.symm.trans missing

theorem roleOf?_eq_none {previous : Option Kind} {text : String}
    (h : roleOf? operators previous text = none) {role : Role}
    (permitted : permits previous role = true) : operators.find? role text = none := by
  have missing := List.find?_eq_none.mp h role (by cases role <;> simp)
  simpa [permitted] using missing

theorem canGrow_of_canStart {previous : Option Kind} {text : String} {role : Role}
    (permitted : permits previous role = true) (starts : operators.canStart role text = true) :
    canGrow operators previous text = true :=
  List.any_eq_true.mpr ⟨role, by cases role <;> simp, by simp [permitted, starts]⟩

/-- Where no operator is found, no text that can be read in search of one is an operator. -/
theorem scanOperator_none {previous : Option Kind} {scan : OperatorScan} (seen cs : List Char)
    (h : (scanOperator operators previous (String.ofList seen) scan cs).found = none) :
    scan.found = none ∧ ∀ text, text ≠ [] → text <+: cs →
      (∀ beginning, beginning ≠ [] → beginning <+: text →
        canGrow operators previous (String.ofList (seen ++ beginning)) = true) →
      roleOf? operators previous (String.ofList (seen ++ text)) = none := by
  induction cs generalizing seen scan with
  | nil =>
    refine ⟨h, ?_⟩
    intro text nonempty isBeginning
    exact absurd (List.prefix_nil.mp isBeginning) nonempty
  | cons c rest ih =>
    have pushed : (String.ofList seen).push c = String.ofList (seen ++ [c]) := by
      simp
    rw [scanOperator] at h
    dsimp only at h
    rw [pushed] at h
    split at h
    next =>
      obtain ⟨found, later⟩ := ih _ h
      dsimp only at found
      cases role : roleOf? operators previous (String.ofList (seen ++ [c])) with
      | some _ =>
        rw [role] at found
        cases found
      | none =>
        rw [role] at found
        refine ⟨found, ?_⟩
        intro text nonempty isBeginning grows
        cases text with
        | nil => exact absurd rfl nonempty
        | cons first text =>
          obtain ⟨rfl, begins⟩ := List.cons_prefix_cons.mp isBeginning
          by_cases single : text = []
          · exact single ▸ role
          · have rested := later text single begins ?_
            · simpa using rested
            · intro beginning _ within
              simpa using grows (first :: beginning) (by simp) (by simpa using within)
    next stuck =>
      refine ⟨h, ?_⟩
      intro text nonempty isBeginning grows
      cases text with
      | nil => exact absurd rfl nonempty
      | cons first text =>
        obtain ⟨rfl, -⟩ := List.cons_prefix_cons.mp isBeginning
        exact absurd (grows [first] (by simp) (by simp)) stuck

theorem unmatched_of_scanOperator {previous : Option Kind} {cs : List Char}
    (h : (scanOperator operators previous "" {} cs).found = none) :
    Unmatched operators previous cs := by
  intro role text permitted nonempty isBeginning grows
  obtain ⟨-, none⟩ := scanOperator_none [] cs h
  apply roleOf?_eq_none (none text nonempty isBeginning ?_) permitted
  intro beginning given within
  exact canGrow_of_canStart permitted (grows beginning given within)

theorem map_eq_error {ε α β : Type} {f : α → β} {result : Except ε α} {e : ε}
    (h : result.map f = .error e) : result = .error e := by
  cases result with
  | error =>
    cases h
    rfl
  | ok => cases h

theorem checkClosing_eq_error {s : State} {bracket : Bracket} {c : Char} {e : SyntaxError}
    (h : checkClosing s bracket c = .error e) : e.cause.isMisread = true := by
  rw [checkClosing] at h
  split at h
  · cases h
    rfl
  · split at h <;> cases h
    rfl

theorem checkBracket_eq_error {s : State} {c : Char} {kind : Kind} {e : SyntaxError}
    (h : checkBracket s c kind = .error e) : e.cause.isMisread = true := by
  unfold checkBracket at h
  split at h
  · cases h
  · split at h <;> cases h
    rfl
  · exact checkClosing_eq_error h
  · split at h
    · exact checkClosing_eq_error h
    · cases h
      rfl
  · cases h

theorem scanText_eq_error {s : State} {written cs : List Char} {read : Nat} {e : SyntaxError}
    (h : scanText s written read cs = .error e) : e.cause.isMisread = true := by
  fun_induction scanText s written read cs with
  | case1 | case2 | case5 =>
    cases h
    rfl
  | case3 => cases h
  | case4 _ _ _ _ ih => exact ih h
  | case6 _ _ _ _ _ _ ih => exact ih h

theorem scanDecimal_eq_error {s : State} {cs : List Char} {e : SyntaxError}
    (h : scanDecimal s cs = .error e) : e.cause.isMisread = true := by
  unfold scanDecimal at h
  dsimp only at h
  split at h
  · cases h
  · split at h
    · cases h
      rfl
    · split at h <;> cases h
      rfl

theorem scanNumber_eq_error {s : State} {cs : List Char} {e : SyntaxError}
    (h : scanNumber s cs = .error e) : e.cause.isMisread = true := by
  unfold scanNumber at h
  split at h
  · split at h
    · dsimp only at h
      split at h <;> cases h
      rfl
    · exact scanDecimal_eq_error h
  · exact scanDecimal_eq_error h

/-- What is no token is malformed or misplaced, or else an operator that does not match. -/
theorem scan_eq_error {s : State} {c : Char} {rest : List Char} {e : SyntaxError}
    (h : scan operators features s c rest = .error e) :
    e.cause.isMisread = true ∨ Unmatched operators s.previous (c :: rest) ∧
      ∃ text, e = s.error (.undefinedOperator (String.ofList text)) text := by
  rw [scan] at h
  split at h
  next => exact .inl (checkBracket_eq_error (map_eq_error h))
  next =>
    split at h
    next => exact .inl (scanText_eq_error (map_eq_error h))
    next =>
    split at h
    next => cases h
    next =>
    split at h
    next => exact .inl (scanNumber_eq_error (map_eq_error h))
    next =>
    split at h
    next =>
      split at h
      next => cases h
      next =>
        cases h
        exact .inl rfl
    next =>
    split at h
    next => cases h
    next =>
      dsimp only at h
      split at h
      next => cases h
      next missing =>
        cases h
        exact .inr ⟨unmatched_of_scanOperator missing, _, rfl⟩

/-- A token that may not be added leaves an argument empty or is next to a token it may not be next
to; only an infix operator lacks an operand. -/
theorem arrange_eq_error {previous : Option Kind} {token : Token} {e : SyntaxError}
    (h : arrange features previous token = .error e) :
    ∃ cause, e = token.error cause ∧ (cause = .emptyArgument ∨ cause = .missingOperator ∨
      cause = .unexpectedAfterInfix ∨ cause = .missingOperand ∧ token.kind = .operator .infixOp) := by
  rw [arrange] at h
  split at h
  next =>
    cases h
    exact ⟨_, rfl, .inl rfl⟩
  next =>
    split at h
    next =>
      split at h <;> cases h
      exact ⟨_, rfl, .inr (.inl rfl)⟩
    next =>
      split at h
      next =>
        cases h
        exact ⟨_, rfl, .inr (.inr (.inl rfl))⟩
      next =>
        split at h
        next lacks =>
          cases h
          simp only [Bool.and_eq_true, decide_eq_true_eq] at lacks
          exact ⟨_, rfl, .inr (.inr (.inr ⟨rfl, lacks.1⟩))⟩
        next => cases h

/-- The lexer fails at a place it has come to: there is no token, or one that may not be added. -/
theorem run_eq_error {s : State} {cs : List Char} {e : SyntaxError}
    (reached : Reached operators features source s cs)
    (h : run operators features s cs = .error e) :
    ∃ t c rest, Reached operators features source t (c :: rest) ∧
      (scan operators features t c rest = .error e ∨ ∃ kind length,
        arrange features t.previous (t.token kind (c :: rest.take (length - 1))) = .error e) := by
  fun_induction run operators features s cs with
  | case1 => cases h
  | case2 s c rest blank ih => exact ih (reached.blank blank) h
  | case3 s c rest visible e' failed =>
    cases h
    exact ⟨s, c, rest, reached, .inl failed⟩
  | case4 s c rest visible kind length scanned text token e' failed =>
    cases h
    exact ⟨s, c, rest, reached, .inr ⟨kind, length, failed⟩⟩
  | case5 s c rest visible kind length scanned text token added arranged next ih =>
    exact ih (reached.token (by simpa using visible) scanned arranged) h

end Lexer

open Lexer

/-- What an error of the lexer says, and where. -/
theorem tokenize_eq_error {operators : Operators} {features : Features} {source : String}
    {e : SyntaxError} (h : tokenize operators features source = .error e) :
    e.cause.isMisread = true ∨
      (∃ s rest text, Reached operators features source s rest ∧
        Unmatched operators s.previous rest ∧
        e = s.error (.undefinedOperator (String.ofList text)) text) ∨
      ∃ token cause, e = Token.error token cause ∧ (cause = .emptyArgument ∨
        cause = .missingOperator ∨ cause = .unexpectedAfterInfix ∨
        cause = .missingOperand ∧ token.kind = .operator .infixOp) := by
  rw [tokenize] at h
  split at h
  next failed =>
    cases h
    obtain ⟨s, c, rest, reached, noToken | ⟨kind, length, notAdded⟩⟩ :=
      run_eq_error .start failed
    · rcases scan_eq_error noToken with misread | ⟨unmatched, text, rfl⟩
      · exact .inl misread
      · exact .inr (.inl ⟨s, c :: rest, text, reached, unmatched, rfl⟩)
    · exact .inr (.inr ⟨_, arrange_eq_error notAdded⟩)
  next =>
    split at h <;> cases h
    exact .inl rfl

end Formulary
