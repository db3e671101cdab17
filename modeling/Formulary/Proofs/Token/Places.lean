import Formulary.Proofs.Token.Lexing
import Mathlib.Data.List.Nodup

set_option autoImplicit false

/-!
# Tokens stand one after the other

Each token begins after those before it, except that an implied multiplication sign is where the
token after it begins. So no token occurs twice.
-/

namespace Formulary

namespace Position

theorem offset_lt_next (p : Position) (c : Char) : p.offset < (p.next c).offset := by
  have size := c.utf8Size_pos
  rw [next]
  split <;> simp [size]

theorem offset_le_advance (p : Position) (cs : List Char) : p.offset ≤ (p.advance cs).offset := by
  induction cs generalizing p with
  | nil => exact Nat.le_refl _
  | cons c cs ih => exact Nat.le_trans (Nat.le_of_lt (p.offset_lt_next c)) (ih (p.next c))

theorem offset_lt_advance (p : Position) (c : Char) (cs : List Char) :
    p.offset < (p.advance (c :: cs)).offset :=
  Nat.lt_of_lt_of_le (p.offset_lt_next c) ((p.next c).offset_le_advance cs)

end Position

namespace Token

abbrev offset (token : Token) : Nat := token.span.start.offset

abbrev IsInfix (token : Token) : Prop := token.kind = .operator .infixOp

/-- One token stands before another. Only an infix operator can do so at the same place. -/
def Precedes (first next : Token) : Prop :=
  first.offset < next.offset ∨ first.offset = next.offset ∧ first.IsInfix ∧ ¬next.IsInfix

theorem Precedes.ne {first next : Token} (h : first.Precedes next) : first ≠ next := by
  rintro rfl
  rcases h with before | ⟨-, isInfix, other⟩
  · exact Nat.lt_irrefl _ before
  · exact other isInfix

theorem Precedes.offset_le {first next : Token} (h : first.Precedes next) :
    first.offset ≤ next.offset := by
  rcases h with less | ⟨same, -⟩
  · exact Nat.le_of_lt less
  · exact Nat.le_of_eq same

theorem impliedProduct_precedes {token : Token} (other : ¬token.IsInfix) :
    token.impliedProduct.Precedes token :=
  .inr ⟨rfl, rfl, other⟩

end Token

namespace Lexer

variable {operators : Operators} {features : Features}

/-- The tokens stand one after the other, and all before the position. -/
def Sorted (s : State) : Prop :=
  s.tokens.Pairwise (fun next first => first.Precedes next) ∧
    ∀ token ∈ s.tokens, token.offset < s.position.offset

theorem not_isInfix_of_impliesProduct {previous : Option Kind} {kind : Kind}
    (h : impliesProduct previous kind = true) : kind ≠ .operator .infixOp := by
  rintro rfl
  cases h

theorem Sorted.add {s : State} {kind : Kind} {c : Char} {cs : List Char} {added : List Token}
    (sorted : Sorted s)
    (arranged : arrange features s.previous (s.token kind (c :: cs)) = .ok added) :
    Sorted (s.add kind (c :: cs) added) := by
  obtain ⟨pairwise, before⟩ := sorted
  have advanced := s.position.offset_lt_advance c cs
  have later : ∀ old ∈ s.tokens, ∀ new ∈ added, old.Precedes new := by
    intro old isOld new isNew
    have place : new.offset = s.position.offset := by
      rcases arrange_eq_ok arranged with rfl | ⟨rfl, -⟩ <;>
        simp only [List.mem_cons, List.not_mem_nil, or_false] at isNew
      · rw [isNew]; rfl
      · rcases isNew with rfl | rfl <;> rfl
    exact .inl (place ▸ before old isOld)
  have among : added.reverse.Pairwise (fun next first => first.Precedes next) := by
    rcases arrange_eq_ok arranged with rfl | ⟨rfl, implied⟩
    · simp
    · simpa using Token.impliedProduct_precedes (not_isInfix_of_impliesProduct implied)
  refine ⟨List.pairwise_append.mpr ⟨among, pairwise, ?_⟩, ?_⟩
  · intro new isNew old isOld
    exact later old isOld new (List.mem_reverse.mp isNew)
  · intro token member
    apply Nat.lt_of_le_of_lt ?_ advanced
    rcases List.mem_append.mp member with isNew | isOld
    · rcases arrange_eq_ok arranged with rfl | ⟨rfl, -⟩ <;>
        simp only [List.mem_reverse, List.mem_cons, List.not_mem_nil, or_false] at isNew
      · rw [isNew]; exact Nat.le_refl _
      · rcases isNew with rfl | rfl <;> exact Nat.le_refl _
    · exact Nat.le_of_lt (before token isOld)

theorem sorted_of_runs {s t : State} {cs : List Char} (h : Runs operators features s cs t)
    (sorted : Sorted s) : Sorted t := by
  refine h.preserves (P := fun s _ => Sorted s) ?_ ?_ sorted
  · intro s c rest _ ⟨pairwise, before⟩
    refine ⟨pairwise, fun token member => ?_⟩
    exact Nat.lt_trans (before token member) (s.position.offset_lt_next c)
  · intro s c rest kind length added _ _ arranged sorted
    exact sorted.add arranged

/-- Where a token is at the place of a function after it, a number comes before both. -/
structure ProductsPlaced (s : State) : Prop where
  sorted : Sorted s
  afterNumber : ∀ after token before, s.tokens = after ++ token :: before →
    ∀ function ∈ after, function.kind = .function → token.offset = function.offset →
      before.head?.map (·.kind) = some .number

theorem ProductsPlaced.add {s : State} {kind : Kind} {c : Char} {cs : List Char}
    {added : List Token} (placed : ProductsPlaced s)
    (arranged : arrange features s.previous (s.token kind (c :: cs)) = .ok added) :
    ProductsPlaced (s.add kind (c :: cs) added) := by
  refine ⟨placed.sorted.add arranged, ?_⟩
  intro after token before split function member isFunction sameOffset
  -- The token at hand is at the position, which no token before it is.
  have earlier : ∀ old ∈ s.tokens, old.offset < s.position.offset := placed.sorted.2
  have old : ∀ after, s.tokens = after ++ token :: before →
      function.offset = s.position.offset ∨ function ∈ after →
      before.head?.map (·.kind) = some .number := by
    intro after split among
    rcases among with new | isOld
    · have isEarlier := earlier token (by simp [split])
      omega
    · exact placed.afterNumber after token before split function isOld isFunction sameOffset
  rcases arrange_eq_ok arranged with rfl | ⟨rfl, implied⟩
  · cases after with
    | nil => cases member
    | cons latest after =>
      obtain ⟨isLatest, rest⟩ := List.cons.inj split
      apply old after rest
      rcases List.mem_cons.mp member with same | isOld
      · exact .inl ((same.trans isLatest.symm) ▸ rfl)
      · exact .inr isOld
  · match after with
    | [] => cases member
    | [latest] =>
      obtain ⟨isLatest, rest⟩ := List.cons.inj split
      obtain ⟨-, rfl⟩ := List.cons.inj rest
      have same : function = s.token kind (c :: cs) :=
        (List.mem_singleton.mp member).trans isLatest.symm
      rw [← same, isFunction] at implied
      exact beq_iff_eq.mp implied
    | latest :: product :: after =>
      obtain ⟨isLatest, rest⟩ := List.cons.inj split
      obtain ⟨isProduct, rest⟩ := List.cons.inj rest
      apply old after rest
      rcases List.mem_cons.mp member with same | member
      · exact .inl ((same.trans isLatest.symm) ▸ rfl)
      rcases List.mem_cons.mp member with same | isOld
      · exact .inl ((same.trans isProduct.symm) ▸ rfl)
      · exact .inr isOld

theorem productsPlaced_of_runs {s t : State} {cs : List Char} (h : Runs operators features s cs t)
    (placed : ProductsPlaced s) : ProductsPlaced t := by
  refine h.preserves (P := fun s _ => ProductsPlaced s) ?_ ?_ placed
  · intro s c rest _ placed
    refine ⟨⟨placed.sorted.1, ?_⟩, placed.afterNumber⟩
    intro token member
    exact Nat.lt_trans (placed.sorted.2 token member) (s.position.offset_lt_next c)
  · intro s c rest kind length added _ _ arranged placed
    exact placed.add arranged

end Lexer

open Lexer

variable {operators : Operators} {features : Features} {source : String} {tokens : List Token}

theorem tokenize_pairwise_precedes (h : tokenize operators features source = .ok tokens) :
    tokens.Pairwise Token.Precedes := by
  obtain ⟨s, runs, -, rfl⟩ := tokenize_eq_ok h
  have sorted : Sorted s := sorted_of_runs runs ⟨.nil, by simp⟩
  exact List.pairwise_reverse.mpr sorted.1

theorem tokenize_nodup (h : tokenize operators features source = .ok tokens) : tokens.Nodup :=
  (tokenize_pairwise_precedes h).imp Token.Precedes.ne

/-- Without duplicates a token splits a list in one way. -/
theorem split_unique {before after first second : List Token} {token : Token}
    (nodup : (before ++ token :: after).Nodup)
    (same : before ++ token :: after = first ++ token :: second) :
    before = first ∧ after = second := by
  have fresh := (List.nodup_cons.mp (List.nodup_middle.mp nodup)).1
  rw [List.mem_append, not_or] at fresh
  obtain ⟨isFirst, -, isSecond⟩ :=
    (List.append_cons_inj_of_notMem fresh.1 fresh.2).mp same
  exact ⟨isFirst, isSecond⟩

/-- A token that begins where a function does is that function, or a product implied after a
number. -/
theorem tokenize_at_function (h : tokenize operators features source = .ok tokens)
    {before after : List Token} {token function : Token} (split : tokens = before ++ token :: after)
    (member : function ∈ tokens) (isFunction : function.kind = .function)
    (sameOffset : token.offset = function.offset) :
    token = function ∨ before.getLast?.map (·.kind) = some .number := by
  have sorted := tokenize_pairwise_precedes h
  obtain ⟨s, runs, -, rfl⟩ := tokenize_eq_ok h
  have placed : ProductsPlaced s := by
    refine productsPlaced_of_runs runs ⟨⟨.nil, by simp⟩, ?_⟩
    intro after token before none
    simp at none
  have reversed : s.tokens = after.reverse ++ token :: before.reverse := by
    simpa using congrArg List.reverse split
  rw [split] at member sorted
  rcases List.mem_append.mp member with isBefore | member
  · -- A function before the token is before it in the source.
    have precedes := (List.pairwise_append.mp sorted).2.2 function isBefore token (by simp)
    rcases precedes with less | ⟨-, isInfix, -⟩
    · omega
    · cases isFunction.symm.trans isInfix
  · rcases List.mem_cons.mp member with rfl | isAfter
    · exact .inl rfl
    · right
      simpa using placed.afterNumber _ _ _ reversed function (List.mem_reverse.mpr isAfter)
        isFunction sameOffset

end Formulary
