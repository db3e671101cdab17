import Formulary.Proofs.Token.Located
import Formulary.Proofs.Token.Places

set_option autoImplicit false

/-!
# Tokens account for the whole source

The tokens that are written in a source fill it from its beginning to its end, but for blanks. The
others are the signs of products, which stand between factors that meet and have the place of the
second.
-/

namespace Formulary

open Text

namespace Kind

/-- Two factors meet where a number is followed by a name, a call or a group, and between groups. -/
def meetsFactor : Kind → Kind → Bool
  | number, name | number, function | number, opening .paren => true
  | closing .paren, opening .paren => true
  | _, _ => false

end Kind

/-- The tokens with the sign of a product, at the same place, before each that meets another factor. -/
def withProducts (previous : Option Kind) : List Token → List Token
  | [] => []
  | token :: tokens =>
    if previous.any (·.meetsFactor token.kind) then
      ⟨.operator .infixOp, token.span.start, "*"⟩ :: token :: withProducts (some token.kind) tokens
    else token :: withProducts (some token.kind) tokens

/-- A text from a position on is that of the tokens, each at its own place, with only blanks before,
between and after them. -/
inductive Fills : Position → List Char → List Token → Prop
  | done {p : Position} {blanks : List Char} :
      (∀ c ∈ blanks, isWhitespace c = true) → Fills p blanks []
  | token {p : Position} {blanks text rest : List Char} {kind : Kind} {tokens : List Token} :
      (∀ c ∈ blanks, isWhitespace c = true) → text ≠ [] →
      Fills (p.advance (blanks ++ text)) rest tokens →
      Fills p (blanks ++ (text ++ rest)) (⟨kind, p.advance blanks, String.ofList text⟩ :: tokens)

namespace Fills

variable {p : Position} {cs : List Char} {tokens : List Token}

theorem blank {c : Char} (isBlank : isWhitespace c = true) (h : Fills (p.next c) cs tokens) :
    Fills p (c :: cs) tokens := by
  cases h with
  | done all => exact .done (List.forall_mem_cons.mpr ⟨isBlank, all⟩)
  | @token _ blanks _ _ _ _ all nonempty fills =>
    exact @Fills.token _ (c :: blanks) _ _ _ _ (List.forall_mem_cons.mpr ⟨isBlank, all⟩) nonempty fills

theorem text_ne_empty (h : Fills p cs tokens) : ∀ token ∈ tokens, token.span.text ≠ "" := by
  induction h with
  | done => simp
  | token _ nonempty _ ih => exact List.forall_mem_cons.mpr ⟨by simpa using nonempty, ih⟩

theorem cutFrom {source : String} (h : Fills p cs tokens) (leaves : p.Leaves source cs) :
    ∀ token ∈ tokens, token.span.CutFrom source := by
  induction h with
  | done => simp
  | token _ _ _ ih =>
    have atText := leaves.advance
    refine List.forall_mem_cons.mpr ⟨Span.cutFrom_of_leaves atText, ih ?_⟩
    rw [Position.advance_append]
    exact atText.advance

theorem offset_le (h : Fills p cs tokens) : ∀ token ∈ tokens, p.offset ≤ token.offset := by
  induction h with
  | done => simp
  | @token p blanks text rest kind tokens _ _ _ ih =>
    refine List.forall_mem_cons.mpr ⟨p.offset_le_advance blanks, fun token member => ?_⟩
    exact Nat.le_trans (p.offset_le_advance _) (ih token member)

/-- Each token ends where or before the next one begins. -/
theorem pairwise_stop_le (h : Fills p cs tokens) :
    tokens.Pairwise fun first next => first.span.stop ≤ next.offset := by
  induction h with
  | done => exact .nil
  | @token p blanks text rest kind tokens _ _ fills ih =>
    refine List.pairwise_cons.mpr ⟨fun next member => ?_, ih⟩
    have stop : (Span.mk (p.advance blanks) (String.ofList text)).stop =
        (p.advance (blanks ++ text)).offset := by
      rw [Position.advance_append]
      exact (Position.offset_advance _ _).symm
    rw [stop]
    exact fills.offset_le next member

end Fills

namespace Lexer

variable {operators : Operators} {features : Features}

theorem impliesProduct_eq (previous : Option Kind) (kind : Kind) :
    impliesProduct previous kind = previous.any (·.meetsFactor kind) := by
  cases previous with
  | none => rcases kind with _ | _ | _ | _ | _ | _ | (_ | _ | _) | _ | _ | _ | _ | _ <;> rfl
  | some p =>
    rw [Option.any_some]
    unfold impliesProduct Kind.meetsFactor
    split <;> split <;> simp_all

theorem withProducts_of_arrange {previous : Option Kind} {token : Token} {added : List Token}
    (h : arrange features previous token = .ok added) (tokens : List Token) :
    withProducts previous (token :: tokens) = added ++ withProducts (some token.kind) tokens := by
  rw [withProducts, ← impliesProduct_eq]
  rw [arrange] at h
  split at h
  next => cases h
  next =>
    split at h
    next implied =>
      split at h <;> cases h
      rw [if_pos implied]
      rfl
    next other =>
      rw [if_neg other]
      split at h
      next => cases h
      next => split at h <;> cases h; rfl

/-- What a run of the lexer reads is filled by the tokens that it finds. -/
theorem exists_fills_of_runs {s t : State} {cs : List Char} (h : Runs operators features s cs t) :
    ∃ written, t.tokens.reverse = s.tokens.reverse ++ withProducts s.previous written ∧
      Fills s.position cs written := by
  induction h with
  | done s => exact ⟨[], by simp [withProducts], .done (by simp)⟩
  | blank isBlank _ ih =>
    obtain ⟨written, tokens, fills⟩ := ih
    exact ⟨written, tokens, fills.blank isBlank⟩
  | @token s t c rest kind length added visible scanned arranged _ ih =>
    obtain ⟨written, tokens, fills⟩ := ih
    let text := c :: rest.take (length - 1)
    have last : (s.add kind text added).previous = some kind := by
      rcases arrange_eq_ok arranged with rfl | ⟨rfl, -⟩ <;> rfl
    refine ⟨s.token kind text :: written, ?_, ?_⟩
    · rw [tokens, last, withProducts_of_arrange arranged]
      simp [State.add, State.token]
    · have filled : Fills s.position ([] ++ (text ++ rest.drop (length - 1)))
          (s.token kind text :: written) := .token (by simp) (by simp [text]) fills
      simpa [text] using filled

end Lexer

open Lexer

/-- The tokens that are written in a source, and all else in it. -/
structure Accounts (written : List Token) (source : String) : Prop where
  nonempty : ∀ token ∈ written, token.span.text ≠ ""
  placed : ∀ token ∈ written, token.span.CutFrom source
  apart : written.Pairwise fun first next => first.span.stop ≤ next.offset
  complete : Fills .start source.toList written

/-- The tokens of a source are those written in it, which leave nothing of it but blanks, and the signs
of the products between factors that meet. -/
theorem tokenize_accounts (operators : Operators) (features : Features) (source : String)
    (tokens : List Token) (h : tokenize operators features source = .ok tokens) :
    ∃ written, tokens = withProducts none written ∧ Accounts written source := by
  obtain ⟨s, runs, -, rfl⟩ := tokenize_eq_ok h
  obtain ⟨written, isTokens, fills⟩ := exists_fills_of_runs runs
  exact ⟨written, by simpa [State.previous] using isTokens, fills.text_ne_empty,
    fills.cutFrom (Position.start_leaves source), fills.pairwise_stop_le, fills⟩

/-- A letter of two bytes, a line feed between tokens, and a product that is implied. -/
theorem tokenize_accounts_lines :
    let tokens : List Token := [⟨.name, ⟨0, 1, 1⟩, "é"⟩, ⟨.operator .infixOp, ⟨3, 1, 3⟩, "+"⟩,
      ⟨.number, ⟨5, 2, 1⟩, "2"⟩, ⟨.operator .infixOp, ⟨6, 2, 2⟩, "*"⟩,
      ⟨.opening .paren, ⟨6, 2, 2⟩, "("⟩, ⟨.name, ⟨7, 2, 3⟩, "x"⟩, ⟨.closing .paren, ⟨8, 2, 4⟩, ")"⟩]
    tokenize (.ofLayers (.single .standard)) {} "é +\n2(x)" = .ok tokens ∧
      ∃ written, tokens = withProducts none written ∧ Accounts written "é +\n2(x)" := by
  intro tokens
  have tokenized : tokenize (.ofLayers (.single .standard)) {} "é +\n2(x)" = .ok tokens := by
    decide +kernel
  exact ⟨tokenized, tokenize_accounts _ _ _ _ tokenized⟩

end Formulary
