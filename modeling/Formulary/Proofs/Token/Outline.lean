import Formulary.Proofs.Token.Lexing

set_option autoImplicit false

/-!
# The brackets of a source

An `Outline` is a sequence of tokens in which each bracket is held together with the one that closes
it, and a function with the brackets around its arguments. Every source that is split into tokens has
one, because the lexer keeps the open brackets and looks for the parenthesis after a function.
-/

namespace Formulary

/-- Tokens that are neither brackets nor functions. -/
def Kind.isPlain : Kind → Bool
  | number | text | name | operator _ | comma | field => true
  | _ => false

inductive Outline where
  | nil
  | item (token : Token) (plain : token.kind.isPlain = true) (rest : Outline)
  | group (opening closing : Token) (opens : opening.kind = .opening .paren)
      (closes : closing.kind = .closing .paren) (inner rest : Outline)
  | call (function opening closing : Token) (isCall : function.kind = .function)
      (opens : opening.kind = .opening .paren) (closes : closing.kind = .closing .paren)
      (inner rest : Outline)
  | access (opening closing : Token) (bracket : Bracket) (isAccess : bracket ≠ .paren)
      (opens : opening.kind = .opening bracket) (closes : closing.kind = .closing bracket)
      (inner rest : Outline)

namespace Outline

def tokens : Outline → List Token
  | nil => []
  | item token _ rest => token :: rest.tokens
  | group opening closing _ _ inner rest => opening :: (inner.tokens ++ closing :: rest.tokens)
  | call function opening closing _ _ _ inner rest =>
    function :: opening :: (inner.tokens ++ closing :: rest.tokens)
  | access opening closing _ _ _ _ inner rest =>
    opening :: (inner.tokens ++ closing :: rest.tokens)

def append : Outline → Outline → Outline
  | nil, second => second
  | item token plain rest, second => item token plain (rest.append second)
  | group opening closing opens closes inner rest, second =>
    group opening closing opens closes inner (rest.append second)
  | call function opening closing isCall opens closes inner rest, second =>
    call function opening closing isCall opens closes inner (rest.append second)
  | access opening closing bracket isAccess opens closes inner rest, second =>
    access opening closing bracket isAccess opens closes inner (rest.append second)

@[simp] theorem tokens_append (first second : Outline) :
    (first.append second).tokens = first.tokens ++ second.tokens := by
  induction first with
  | nil => rfl
  | item _ _ _ ih => simp [append, tokens, ih]
  | group _ _ _ _ _ _ _ ih => simp [append, tokens, ih]
  | call _ _ _ _ _ _ _ _ _ ih => simp [append, tokens, ih]
  | access _ _ _ _ _ _ _ _ _ ih => simp [append, tokens, ih]

/-- The tokens end, or go on with a bracket that closes. -/
def Closes (tokens : List Token) : Prop :=
  ∀ token ∈ tokens.head?, ∃ bracket, token.kind = .closing bracket

theorem closes_cons {closing : Token} {bracket : Bracket} (closes : closing.kind = .closing bracket)
    (rest : List Token) : Closes (closing :: rest) := by
  intro token isHead
  obtain rfl : closing = token := by simpa using isHead
  exact ⟨bracket, closes⟩

theorem eq_nil_of_closes {outline : Outline} {rest others : List Token} (closesOthers : Closes others)
    (h : outline.tokens ++ rest = others) : outline = nil := by
  subst h
  cases outline with
  | nil => rfl
  | item token plain =>
    obtain ⟨bracket, closes⟩ := closesOthers token rfl
    simp [closes, Kind.isPlain] at plain
  | group opening _ opens =>
    obtain ⟨bracket, closes⟩ := closesOthers opening rfl
    cases opens.symm.trans closes
  | call function _ _ isCall =>
    obtain ⟨bracket, closes⟩ := closesOthers function rfl
    cases isCall.symm.trans closes
  | access opening _ _ _ opens =>
    obtain ⟨bracket, closes⟩ := closesOthers opening rfl
    cases opens.symm.trans closes

/-- An outline is known from its tokens, and ends where a bracket closes that it does not open. -/
theorem tokens_append_injective {first second : Outline} {rest others : List Token}
    (closesRest : Closes rest) (closesOthers : Closes others)
    (h : first.tokens ++ rest = second.tokens ++ others) : first = second ∧ rest = others := by
  induction first generalizing second rest others with
  | nil =>
    obtain rfl : second = nil := eq_nil_of_closes closesRest h.symm
    exact ⟨rfl, h⟩
  | item token plain outline ih =>
    have plain : token.kind.isPlain = true := plain
    cases second with
    | nil => cases eq_nil_of_closes closesOthers h
    | item =>
      obtain ⟨rfl, tail⟩ := List.cons.inj h
      obtain ⟨rfl, rfl⟩ := ih closesRest closesOthers tail
      exact ⟨rfl, rfl⟩
    | group _ _ kind | call _ _ _ kind | access _ _ _ _ kind =>
      obtain ⟨rfl, -⟩ := List.cons.inj h
      simp [kind, Kind.isPlain] at plain
  | group opening closing opens closes inner outline inner_ih ih =>
    cases second with
    | nil => cases eq_nil_of_closes closesOthers h
    | item _ plain =>
      obtain ⟨rfl, -⟩ := List.cons.inj h
      simp [opens, Kind.isPlain] at plain
    | group _ _ _ otherCloses =>
      obtain ⟨rfl, within⟩ := List.cons.inj h
      rw [List.append_eq, List.append_eq, List.append_assoc, List.append_assoc] at within
      obtain ⟨rfl, ended⟩ := inner_ih (closes_cons closes _) (closes_cons otherCloses _) within
      obtain ⟨rfl, tail⟩ := List.cons.inj ended
      obtain ⟨rfl, rfl⟩ := ih closesRest closesOthers tail
      exact ⟨rfl, rfl⟩
    | call _ _ _ kind =>
      obtain ⟨rfl, -⟩ := List.cons.inj h
      cases opens.symm.trans kind
    | access _ _ _ isAccess kind =>
      obtain ⟨rfl, -⟩ := List.cons.inj h
      exact absurd (Kind.opening.inj (kind.symm.trans opens)) isAccess
  | call function opening closing isCall opens closes inner outline inner_ih ih =>
    cases second with
    | nil => cases eq_nil_of_closes closesOthers h
    | item _ plain =>
      obtain ⟨rfl, -⟩ := List.cons.inj h
      simp [isCall, Kind.isPlain] at plain
    | call _ _ _ _ _ otherCloses =>
      obtain ⟨rfl, bracketed⟩ := List.cons.inj h
      obtain ⟨rfl, within⟩ := List.cons.inj bracketed
      rw [List.append_eq, List.append_eq, List.append_assoc, List.append_assoc] at within
      obtain ⟨rfl, ended⟩ := inner_ih (closes_cons closes _) (closes_cons otherCloses _) within
      obtain ⟨rfl, tail⟩ := List.cons.inj ended
      obtain ⟨rfl, rfl⟩ := ih closesRest closesOthers tail
      exact ⟨rfl, rfl⟩
    | group _ _ kind | access _ _ _ _ kind =>
      obtain ⟨rfl, -⟩ := List.cons.inj h
      cases isCall.symm.trans kind
  | access opening closing bracket isAccess opens closes inner outline inner_ih ih =>
    cases second with
    | nil => cases eq_nil_of_closes closesOthers h
    | item _ plain =>
      obtain ⟨rfl, -⟩ := List.cons.inj h
      simp [opens, Kind.isPlain] at plain
    | group _ _ kind =>
      obtain ⟨rfl, -⟩ := List.cons.inj h
      exact absurd (Kind.opening.inj (opens.symm.trans kind)) isAccess
    | call _ _ _ kind =>
      obtain ⟨rfl, -⟩ := List.cons.inj h
      cases opens.symm.trans kind
    | access _ _ _ _ kind otherCloses =>
      obtain ⟨rfl, within⟩ := List.cons.inj h
      obtain rfl := Kind.opening.inj (opens.symm.trans kind)
      rw [List.append_eq, List.append_eq, List.append_assoc, List.append_assoc] at within
      obtain ⟨rfl, ended⟩ := inner_ih (closes_cons closes _) (closes_cons otherCloses _) within
      obtain ⟨rfl, tail⟩ := List.cons.inj ended
      obtain ⟨rfl, rfl⟩ := ih closesRest closesOthers tail
      exact ⟨rfl, rfl⟩

theorem tokens_injective {first second : Outline} (h : first.tokens = second.tokens) :
    first = second := by
  have nothing : Closes [] := by simp [Closes]
  have h : first.tokens ++ [] = second.tokens ++ [] := by rw [h]
  exact (tokens_append_injective nothing nothing h).1

end Outline

namespace Lexer

variable {operators : Operators} {features : Features}

/-- Tokens among which some brackets are still open, the innermost first. -/
inductive Opened : List (Bracket × Token) → List Token → Prop
  | outermost (inner : Outline) : Opened [] inner.tokens
  | group {brackets : List (Bracket × Token)} {before : List Token} {opening : Token}
      (inner : Outline) :
      Opened brackets before → opening.kind = .opening .paren →
      Opened ((.paren, opening) :: brackets) (before ++ opening :: inner.tokens)
  | call {brackets : List (Bracket × Token)} {before : List Token} {function opening : Token}
      (inner : Outline) :
      Opened brackets before → function.kind = .function → opening.kind = .opening .paren →
      Opened ((.paren, opening) :: brackets) (before ++ function :: opening :: inner.tokens)
  | access {brackets : List (Bracket × Token)} {before : List Token} {opening : Token}
      {bracket : Bracket} (inner : Outline) :
      Opened brackets before → bracket ≠ .paren → opening.kind = .opening bracket →
      Opened ((bracket, opening) :: brackets) (before ++ opening :: inner.tokens)

theorem Opened.append {brackets : List (Bracket × Token)} {before : List Token}
    (h : Opened brackets before) (next : Outline) : Opened brackets (before ++ next.tokens) := by
  cases h with
  | outermost inner => simpa using Opened.outermost (inner.append next)
  | group inner opened opens => simpa using Opened.group (inner.append next) opened opens
  | call inner opened isCall opens =>
    simpa using Opened.call (inner.append next) opened isCall opens
  | access inner opened isAccess opens =>
    simpa using Opened.access (inner.append next) opened isAccess opens

theorem Opened.close {brackets : List (Bracket × Token)} {before : List Token} {bracket : Bracket}
    {opening closing : Token} (h : Opened ((bracket, opening) :: brackets) before)
    (closes : closing.kind = .closing bracket) : Opened brackets (before ++ [closing]) := by
  cases h with
  | group inner opened opens =>
    simpa [Outline.tokens] using opened.append (.group opening closing opens closes inner .nil)
  | @call _ before function _ inner opened isCall opens =>
    simpa [Outline.tokens] using
      opened.append (.call function opening closing isCall opens closes inner .nil)
  | access inner opened isAccess opens =>
    simpa [Outline.tokens] using
      opened.append (.access opening closing bracket isAccess opens closes inner .nil)

/-- The open brackets are those that the lexer keeps, and the parenthesis after a function follows. -/
def Follows (s : State) (cs : List Char) : Prop :=
  Opened s.brackets s.tokens.reverse ∨
    ∃ function before, s.tokens = function :: before ∧ function.kind = .function ∧
      Opened s.brackets before.reverse ∧ (cs.dropWhile Text.isWhitespace).head? = some '('

/-- An implied sign is no bracket, so it is part of the outline before its token. -/
theorem Opened.before_last {previous : Option Kind} {token : Token} {added before : List Token}
    {brackets : List (Bracket × Token)} (opened : Opened brackets before)
    (arranged : arrange features previous token = .ok added) :
    ∃ signs, added = signs ++ [token] ∧ Opened brackets (before ++ signs) := by
  rcases arrange_eq_ok arranged with rfl | ⟨rfl, -⟩
  · exact ⟨[], rfl, by simpa using opened⟩
  · exact ⟨[token.impliedProduct], rfl, opened.append (.item _ rfl .nil)⟩

theorem follows_token {s : State} {c : Char} {rest : List Char} {kind : Kind} {length : Nat}
    {added : List Token} (visible : Text.isWhitespace c = false)
    (scanned : scan operators features s c rest = .ok (kind, length))
    (arranged : arrange features s.previous (s.token kind (c :: rest.take (length - 1))) = .ok added)
    (h : Follows s (c :: rest)) :
    Follows (s.add kind (c :: rest.take (length - 1)) added) (rest.drop (length - 1)) := by
  have scans := scans_of_scan scanned
  generalize (c :: rest.take (length - 1)) = text at arranged ⊢
  rcases h with opened | ⟨function, before, tokens, isCall, opened, paren⟩
  · obtain ⟨signs, rfl, opened⟩ := opened.before_last arranged
    have read : (s.add kind text (signs ++ [s.token kind text])).tokens.reverse =
        s.tokens.reverse ++ signs ++ [s.token kind text] := by
      simp [State.add]
    have plain (isPlain : kind.isPlain = true) :
        Opened s.brackets (s.add kind text (signs ++ [s.token kind text])).tokens.reverse := by
      rw [read]
      exact opened.append (.item (s.token kind text) isPlain .nil)
    cases scans with
    | number | text | name | comma | operator | field => exact .inl (plain rfl)
    | function _ paren =>
      refine .inr ⟨s.token .function text, signs.reverse ++ s.tokens, ?_, rfl, ?_, paren⟩
      · simp [State.add]
      · simpa [State.add, track, State.token] using opened
    | openParen =>
      rw [Follows, read]
      exact .inl (opened.group .nil rfl)
    | openAccess isAccess =>
      rw [Follows, read]
      exact .inl (opened.access .nil isAccess rfl)
    | closing innermost =>
      rw [innermost] at opened
      rw [Follows, read]
      apply Or.inl
      simp only [State.add, track, State.token, innermost, List.tail_cons]
      exact opened.close rfl
  · obtain rfl : c = '(' := by simpa [visible] using paren
    cases scanned
    have previous : s.previous = some .function := by simp [State.previous, tokens, isCall]
    rw [previous] at arranged
    cases arranged
    apply Or.inl
    have read : (s.add (.opening .paren) text [s.token (.opening .paren) text]).tokens.reverse =
        before.reverse ++ function :: s.token (.opening .paren) text :: Outline.nil.tokens := by
      simp [State.add, tokens, Outline.tokens]
    rw [read]
    exact opened.call .nil isCall rfl

theorem follows_of_runs {s t : State} {cs : List Char} (h : Runs operators features s cs t)
    (follows : Follows s cs) : Follows t [] := by
  apply h.preserves ?_ ?_ follows
  · intro s c rest blank h
    rcases h with opened | ⟨function, before, tokens, isCall, opened, paren⟩
    · exact .inl opened
    · refine .inr ⟨function, before, tokens, isCall, opened, ?_⟩
      simpa [blank] using paren
  · intro s c rest kind length added visible scanned arranged follows
    exact follows_token visible scanned arranged follows

end Lexer

open Lexer in
/-- In the tokens of a source every bracket is closed by one of its kind, and every function is
followed by its arguments in parentheses. -/
theorem tokenize_outline {operators : Operators} {features : Features} {source : String}
    {tokens : List Token} (h : tokenize operators features source = .ok tokens) :
    ∃ outline : Outline, outline.tokens = tokens := by
  obtain ⟨s, runs, closed, rfl⟩ := tokenize_eq_ok h
  rcases follows_of_runs runs (.inl (.outermost .nil)) with opened | ⟨_, _, _, _, _, paren⟩
  · rw [closed] at opened
    generalize s.tokens.reverse = read at opened ⊢
    cases opened with
    | outermost inner => exact ⟨inner, rfl⟩
  · simp at paren

end Formulary
