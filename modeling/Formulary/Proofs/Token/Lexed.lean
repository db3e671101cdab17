import Formulary.Proofs.Token.Neighbours
import Formulary.Proofs.Token.Outline
import Formulary.Proofs.Token.Places
import Formulary.Proofs.Tree.Listing

set_option autoImplicit false

/-!
# What is known of the tokens of a source

Brackets match, neighbours belong to each other, no token occurs twice, and only a product that is
implied begins where another token does. What is proved about reading tokens that come from a source
rests on these facts alone.
-/

namespace Formulary

/-- What is known of the tokens of a source when they are read. -/
structure Lexed (tokens : List Token) : Prop where
  placed : WellPlaced tokens
  nodup : tokens.Nodup
  kinds : ∀ token ∈ tokens, token.kind.isPlain = true ∨ token.kind = .function ∨
    (∃ bracket, token.kind = .opening bracket) ∨ ∃ bracket, token.kind = .closing bracket
  atFunction : ∀ before token after, tokens = before ++ token :: after →
    ∀ function ∈ tokens, function.kind = .function → token.offset = function.offset →
      token = function ∨ before.getLast?.map (·.kind) = some .number

theorem Outline.kind_of_mem (outline : Outline) : ∀ token ∈ outline.tokens,
    token.kind.isPlain = true ∨ token.kind = .function ∨
      (∃ bracket, token.kind = .opening bracket) ∨ ∃ bracket, token.kind = .closing bracket := by
  induction outline with
  | nil => simp [tokens]
  | item token plain rest ih => simpa [tokens, plain] using ih
  | group opening closing opens closes inner rest inner_ih ih =>
    intro token member
    simp only [tokens, List.mem_cons, List.mem_append] at member
    rcases member with rfl | inside | rfl | after
    · exact .inr (.inr (.inl ⟨_, opens⟩))
    · exact inner_ih token inside
    · exact .inr (.inr (.inr ⟨_, closes⟩))
    · exact ih token after
  | call function opening closing isCall opens closes inner rest inner_ih ih =>
    intro token member
    simp only [tokens, List.mem_cons, List.mem_append] at member
    rcases member with rfl | rfl | inside | rfl | after
    · exact .inr (.inl isCall)
    · exact .inr (.inr (.inl ⟨_, opens⟩))
    · exact inner_ih token inside
    · exact .inr (.inr (.inr ⟨_, closes⟩))
    · exact ih token after
  | access opening closing bracket _ opens closes inner rest inner_ih ih =>
    intro token member
    simp only [tokens, List.mem_cons, List.mem_append] at member
    rcases member with rfl | inside | rfl | after
    · exact .inr (.inr (.inl ⟨_, opens⟩))
    · exact inner_ih token inside
    · exact .inr (.inr (.inr ⟨_, closes⟩))
    · exact ih token after

theorem lexed_of_tokenize {operators : Operators} {features : Features} {source : String}
    {tokens : List Token} (h : tokenize operators features source = .ok tokens) : Lexed tokens := by
  refine ⟨wellPlaced_of_tokenize h, tokenize_nodup h, ?_, ?_⟩
  · obtain ⟨outline, rfl⟩ := tokenize_outline h
    exact outline.kind_of_mem
  · intro before token after split function member isFunction sameOffset
    exact tokenize_at_function h split member isFunction sameOffset

/-- A function begins where the token does. -/
def AtFunction (tokens : List Token) (token : Token) : Prop :=
  ∃ function ∈ tokens, function.kind = .function ∧ function.offset = token.offset

section Lexed

variable {tokens before after : List Token} {token : Token}

theorem Lexed.called (lexed : Lexed tokens) (split : tokens = before ++ token :: after)
    (other : token.kind ≠ .opening .paren) :
    before.getLast?.map (·.kind) ≠ some .function := by
  intro isCall
  obtain ⟨function, isLast, isFunction⟩ := Option.map_eq_some_iff.mp isCall
  obtain ⟨earlier, rfl⟩ := List.getLast?_eq_some_iff.mp isLast
  have leads := (lexed.placed.placed earlier function (token :: after) (by simpa using split)).2
  rw [isFunction] at leads
  exact other (Option.some.inj leads)

/-- A parenthesis that no function comes before is none of a call. -/
theorem Lexed.not_call (lexed : Lexed tokens) (split : tokens = before ++ token :: after)
    (noCall : before.getLast?.map (·.kind) ≠ some .function) :
    ∀ function, function.kind = .function → ¬[function, token] <:+: tokens := by
  rintro function isFunction ⟨earlier, later, within⟩
  have nodup := lexed.nodup
  rw [split] at nodup within
  have same : before ++ token :: after = (earlier ++ [function]) ++ token :: later := by
    simpa using within.symm
  obtain ⟨rfl, -⟩ := split_unique nodup same
  simp [isFunction] at noCall

theorem Lexed.not_atFunction (lexed : Lexed tokens) (split : tokens = before ++ token :: after)
    {bracket : Bracket} (opens : token.kind = .opening bracket) (isAccess : bracket ≠ .paren)
    {access : Token} (content : token.content? = some access) : ¬AtFunction tokens access := by
  rintro ⟨function, member, isFunction, sameOffset⟩
  have sameSpan : access.span = token.span := by
    cases bracket <;> simp only [Token.content?, opens, reduceCtorEq, Option.some.injEq] at content
      <;> rw [← content]
  have same : token.offset = function.offset := by
    rw [sameOffset, Token.offset, Token.offset, sameSpan]
  rcases lexed.atFunction before token after split function member isFunction same with
    rfl | afterNumber
  · cases opens.symm.trans isFunction
  · have follows := (lexed.placed.placed before token after split).1
    rw [afterNumber, opens] at follows
    cases bracket with
    | paren => exact isAccess rfl
    | square | curly =>
      obtain ⟨previous, isPrevious, kinds⟩ := follows
      obtain rfl := Option.some.inj isPrevious
      simp at kinds

theorem Lexed.ends (lexed : Lexed tokens) : tokens.getLast?.map (·.kind) ≠ some .function := by
  intro isCall
  obtain ⟨function, isLast, isFunction⟩ := Option.map_eq_some_iff.mp isCall
  obtain ⟨before, split⟩ := List.getLast?_eq_some_iff.mp isLast
  have leads := (lexed.placed.placed before function [] split).2
  rw [isFunction] at leads
  cases leads

theorem Lexed.paren_of_function (lexed : Lexed tokens) {function : Token}
    (isFunction : function.kind = .function) (within : [function, token] <:+: tokens) :
    token.kind = .opening .paren := by
  obtain ⟨before, after, rfl⟩ := within
  have leads := (lexed.placed.placed before function (token :: after) (by simp)).2
  rw [isFunction] at leads
  exact Option.some.inj leads

/-- One token is right before another. -/
theorem Lexed.unique_before (lexed : Lexed tokens) {first second : Token}
    (isFirst : [first, token] <:+: tokens) (isSecond : [second, token] <:+: tokens) :
    first = second := by
  obtain ⟨before, after, rfl⟩ := isFirst
  obtain ⟨earlier, later, same⟩ := isSecond
  have nodup := lexed.nodup
  have together : (before ++ [first]) ++ token :: after = (earlier ++ [second]) ++ token :: later := by
    simpa using same.symm
  rw [show before ++ [first, token] ++ after = (before ++ [first]) ++ token :: after by simp] at nodup
  have last := congrArg List.getLast? (split_unique nodup together).1
  simpa using last

end Lexed

end Formulary
