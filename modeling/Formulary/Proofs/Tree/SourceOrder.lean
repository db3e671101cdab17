import Formulary.Proofs.Operator.Symbols
import Formulary.Proofs.Token.Places
import Formulary.Proofs.Tree.Contiguity

set_option autoImplicit false

/-!
# When a tree has its tokens in the order of the source

No operator of the standard table stands after its operand. So the tokens of a tree are in the order
of the source just in case the operands next to each operator can be counted.
-/

namespace Formulary

namespace Token

/-- What stands for an access is at the same place, and no operator. -/
theorem content?_eq_some {token root : Token} (h : token.content? = some root) :
    root.offset = token.offset ∧
      ∀ role, root.kind = .operator role ↔ token.kind = .operator role := by
  unfold content? at h
  split at h <;> cases h <;> simp_all

theorem Precedes.content {first next firstRoot nextRoot : Token} (h : first.Precedes next)
    (isFirst : first.content? = some firstRoot) (isNext : next.content? = some nextRoot) :
    firstRoot.Precedes nextRoot := by
  obtain ⟨firstOffset, firstRole⟩ := content?_eq_some isFirst
  obtain ⟨nextOffset, nextRole⟩ := content?_eq_some isNext
  unfold Precedes IsInfix
  rw [firstOffset, nextOffset, firstRole, nextRole]
  exact h

end Token

theorem content_pairwise_precedes {operators : Operators} {features : Features} {source : String}
    {tokens : List Token} (h : tokenize operators features source = .ok tokens) :
    (content tokens).Pairwise Token.Precedes := by
  apply List.pairwise_filterMap.mpr
  apply (tokenize_pairwise_precedes h).imp
  intro first next precedes firstRoot isFirst nextRoot isNext
  exact precedes.content isFirst isNext

/-- No operator of the standard table stands after its operand. -/
theorem regular_content {features : Features} {source : String} {tokens : List Token}
    (h : tokenize (.ofLayers (.single .standard)) features source = .ok tokens) :
    Tree.Regular (content tokens) := by
  constructor
  · exact (content_pairwise_precedes h).imp Token.Precedes.ne
  · intro root member kind
    obtain ⟨token, inTokens, isRoot⟩ := List.mem_filterMap.mp member
    have postfixOp := ((Token.content?_eq_some isRoot).2 _).mp kind
    rcases tokenize_operator h token inTokens .postfixOp postfixOp with isInfix | found
    · cases isInfix
    · simp [Operators.find?_standard_postfixOp] at found

namespace Tree

open Stacks Split

variable {operators : Operators} {functions : FunctionArity} {source : String} {outline : Outline}
  {tree : Tree}

theorem inPlace_of_inOrder (h : ofTokens operators functions source outline.tokens = .ok tree)
    (regular : Regular (content outline.tokens)) (inOrder : tree.inOrder = content outline.tokens) :
    outline.InPlace := by
  obtain ⟨s, reading, joins, -⟩ := ofTokens_outline h
  have stands : ForAll (Stands (content outline.tokens)) [tree] := by
    intro other member _
    obtain rfl := List.mem_singleton.mp member
    exact inOrder ▸ List.infix_refl _
  have start : content outline.tokens =
      [] ++ ({} : Split).listing ++ (content outline.tokens ++ []) := by
    simp
  obtain ⟨u, placed, rfl⟩ := placed_of_stands reading (toStacks_nil [] []).symm
    (stands_before_joins joins stands) regular start below_nil
  have split : content outline.tokens = [] ++ u.listing ++ [] := by
    simp [placed.listing_eq]
  obtain ⟨run, settles, -⟩ := settles_to_bottom_of_stands joins stands regular split below_nil
  obtain ⟨rest, read, alike⟩ :
      ∃ rest, outline.tally {} = some ⟨u.run.length, rest⟩ ∧ Tally.Alike rest u.pending :=
    placed.tally_eq Tally.alike_nil
  unfold Outline.InPlace
  rw [read, Option.bind_some, completed_of_settles alike settles]
  rfl

theorem inOrder_of_inPlace (h : ofTokens operators functions source outline.tokens = .ok tree)
    (inPlace : outline.InPlace) : tree.inOrder = content outline.tokens := by
  obtain ⟨s, reading, joins, -⟩ := ofTokens_outline h
  obtain ⟨count, counted⟩ := Option.isSome_iff_exists.mp inPlace
  obtain ⟨t, read, completes⟩ := Option.bind_eq_some_iff.mp counted
  obtain ⟨u, placed, rfl⟩ :=
    placed_of_tally reading (toStacks_nil [] []).symm Tally.alike_nil read completes
  obtain ⟨left, settles, same, -⟩ := placed.settles_to_bottom read completes joins
  obtain rfl : [tree] = left := same.trans (List.append_nil left)
  have listing := settles.listing_eq.trans placed.listing_eq
  simpa [Split.listing, listedBefore] using listing

theorem inOrder_infix_of_mem_nodes {part : Tree} :
    ∀ {tree : Tree}, part ∈ tree.nodes → part.inOrder <:+: tree.inOrder
  | node token children, member => by
    rw [nodes_node] at member
    rcases List.mem_cons.mp member with rfl | below
    · exact List.infix_refl _
    · obtain ⟨child, isChild, inChild⟩ := List.mem_flatMap.mp below
      have deeper := inOrder_infix_of_mem_nodes inChild
      exact deeper.trans (inOrder_infix_of_mem isChild)

/-- The operands of a node stand in the source on the sides of its token that they should. -/
def Beside : Tree → Prop
  | node token children =>
    (∀ child ∈ children.take token.kind.before, ∀ other ∈ child.inOrder, other.Precedes token) ∧
      ∀ child ∈ children.drop token.kind.before, ∀ other ∈ child.inOrder, token.Precedes other

theorem beside_of_pairwise (sorted : tree.inOrder.Pairwise Token.Precedes) {part : Tree}
    (member : part ∈ tree.nodes) : part.Beside := by
  have sortedPart := sorted.sublist (inOrder_infix_of_mem_nodes member).sublist
  obtain ⟨token, children⟩ := part
  rw [inOrder_node] at sortedPart
  obtain ⟨-, after, before⟩ := List.pairwise_append.mp sortedPart
  constructor
  · intro child isChild other inChild
    exact before other (List.mem_flatMap_of_mem isChild inChild) token List.mem_cons_self
  · intro child isChild other inChild
    exact (List.pairwise_cons.mp after).1 other (List.mem_flatMap_of_mem isChild inChild)

end Tree

open Tree.Stacks

/-- The tokens of a tree are in the order of the source, and so each operator between or before its
operands, just in case these can be counted next to each operator. -/
theorem parse_inOrder (functions : FunctionArity) (features : Features) (source : String)
    (tree : Tree)
    (h : parse (.ofLayers (.single .standard)) functions features source = .ok tree) :
    ∃ outline : Outline,
      tokenize (.ofLayers (.single .standard)) features source = .ok outline.tokens ∧
      (tree.inOrder = content outline.tokens ↔ outline.InPlace) ∧
      (outline.InPlace → ∀ part ∈ tree.nodes, part.Beside) := by
  obtain ⟨outline, tokenized, read⟩ := parse_eq_ok h
  have sorted := content_pairwise_precedes tokenized
  have inOrder := Tree.inOrder_of_inPlace read
  refine ⟨outline, tokenized, ⟨?_, inOrder⟩, ?_⟩
  · exact Tree.inPlace_of_inOrder read (regular_content tokenized)
  · intro inPlace part member
    rw [← inOrder inPlace] at sorted
    exact Tree.beside_of_pairwise sorted member

/-- The operands of an infix operator on its two sides. -/
theorem parse_inOrder_sum :
    ∃ tree, parse (.ofLayers (.single .standard)) ⟨fun _ => true, fun _ _ => true⟩ {}
        "1 + 2" = .ok tree ∧
      ∃ outline : Outline,
        tokenize (.ofLayers (.single .standard)) {} "1 + 2" = .ok outline.tokens ∧
        (tree.inOrder = content outline.tokens ↔ outline.InPlace) ∧
        (outline.InPlace → ∀ part ∈ tree.nodes, part.Beside) := by
  let one : Token := ⟨.number, ⟨0, 1, 1⟩, "1"⟩
  let sum : Token := ⟨.operator .infixOp, ⟨2, 1, 3⟩, "+"⟩
  let two : Token := ⟨.number, ⟨4, 1, 5⟩, "2"⟩
  have tokenized : tokenize (.ofLayers (.single .standard)) {} "1 + 2" = .ok [one, sum, two] := by
    decide +kernel
  have found : mapping (.ofLayers (.single .standard)) sum = .ok ⟨20, true, "infix +"⟩ := by
    decide +kernel
  have read : parse (.ofLayers (.single .standard)) ⟨fun _ => true, fun _ _ => true⟩ {}
      "1 + 2" = .ok (.node sum [.leaf one, .leaf two]) := by
    rw [parse_of_tokenize tokenized]
    simp [Tree.ofTokens, addAll, add, addOperator, one, sum, two, found]
    rfl
  exact ⟨_, read, parse_inOrder _ _ _ _ read⟩

/-- A prefix operator that is alone in its parentheses takes the operand before these. -/
theorem parse_inOrder_enclosed :
    ∃ (tokens : List Token) (operator operand : Token),
      tokenize (.ofLayers (.single .standard)) {} "\"a\"(-)" = .ok tokens ∧
      parse (.ofLayers (.single .standard)) ⟨fun _ => true, fun _ _ => true⟩ {} "\"a\"(-)" =
        .ok (.node operator [.leaf operand]) ∧
      operator.kind = .operator .prefixOp ∧ operand.Precedes operator ∧
      (Tree.node operator [.leaf operand]).inOrder ≠ content tokens := by
  let operand : Token := ⟨.text, ⟨0, 1, 1⟩, "\"a\""⟩
  let opening : Token := ⟨.opening .paren, ⟨3, 1, 4⟩, "("⟩
  let operator : Token := ⟨.operator .prefixOp, ⟨4, 1, 5⟩, "-"⟩
  let closing : Token := ⟨.closing .paren, ⟨5, 1, 6⟩, ")"⟩
  have tokenized : tokenize (.ofLayers (.single .standard)) {} "\"a\"(-)" =
      .ok [operand, opening, operator, closing] := by
    decide +kernel
  have found : mapping (.ofLayers (.single .standard)) operator =
      .ok ⟨60, false, "prefix -"⟩ := by
    decide +kernel
  refine ⟨_, operator, operand, tokenized, ?_, rfl, .inl (by decide), by decide⟩
  rw [parse_of_tokenize tokenized]
  simp [Tree.ofTokens, addAll, add, addOperator, operand, opening, operator, closing, found]
  rfl

end Formulary
