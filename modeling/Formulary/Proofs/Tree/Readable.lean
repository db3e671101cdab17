import Formulary.Proofs.Token.Spelling
import Formulary.Proofs.Tree.Conservation
import Mathlib.Data.List.Basic

set_option autoImplicit false

/-!
# The trees that are read where the standard operators are known

Each node has as many children as its kind asks for, and the text of its token is one that the lexer
takes for a token of that kind. None is a postfix operator.
-/

namespace Formulary

open Lexer

namespace Lexer.Spelled

variable {features : Features} {text : List Char}

theorem bracket?_opening_square {c : Char} (h : bracket? features c = some (.opening .square)) :
    c = '[' ∧ features.arrays = true := by
  unfold bracket? at h
  split at h <;> simp_all

theorem bracket?_opening_curly {c : Char} (h : bracket? features c = some (.opening .curly)) :
    c = '\x7b' ∧ features.associates = true := by
  unfold bracket? at h
  split at h <;> simp_all

theorem element_of_opening (spelled : Spelled features (.opening .square) text) :
    Spelled features .element text := by
  cases spelled with
  | opening isBracket =>
    obtain ⟨rfl, arrays⟩ := bracket?_opening_square isBracket
    exact .element arrays

theorem entry_of_opening (spelled : Spelled features (.opening .curly) text) :
    Spelled features .entry text := by
  cases spelled with
  | opening isBracket =>
    obtain ⟨rfl, associates⟩ := bracket?_opening_curly isBracket
    exact .entry associates

theorem not_postfix (spelled : Spelled features (.operator .postfixOp) text) : False := by
  cases spelled with
  | operator found => simp [Operators.find?_standard_postfixOp] at found

/-- An access is spelled like its bracket. -/
theorem content {token root : Token} (spelled : Spelled features token.kind token.span.text.toList)
    (isRoot : token.content? = some root) : Spelled features root.kind root.span.text.toList := by
  unfold Token.content? at isRoot
  split at isRoot
  · cases isRoot
  · cases isRoot
  · cases isRoot
  next square =>
    cases isRoot
    rw [square] at spelled
    exact spelled.element_of_opening
  next curly =>
    cases isRoot
    rw [curly] at spelled
    exact spelled.entry_of_opening
  · cases isRoot
    exact spelled

end Lexer.Spelled

namespace Tree

/-- Trees as they are read from a source in which the standard operators are known. -/
inductive Readable (functions : FunctionArity) (features : Features) : Tree → Prop
  | leaf {token : Token} :
      token.IsLeaf → Spelled features token.kind token.span.text.toList →
      Readable functions features (leaf token)
  | prefixed {token : Token} {operand : Tree} :
      token.kind = .operator .prefixOp → Spelled features token.kind token.span.text.toList →
      Readable functions features operand → Readable functions features (node token [operand])
  | infixed {token : Token} {left right : Tree} :
      token.kind = .operator .infixOp → Spelled features token.kind token.span.text.toList →
      Readable functions features left → Readable functions features right →
      Readable functions features (node token [left, right])
  | field {token : Token} {object operand : Tree} :
      token.kind = .field → Spelled features token.kind token.span.text.toList →
      Readable functions features object → Readable functions features operand →
      Readable functions features (node token [object, operand])
  | access {token : Token} {object key : Tree} :
      token.kind = .element ∨ token.kind = .entry →
      Spelled features token.kind token.span.text.toList →
      Readable functions features object → Readable functions features key →
      Readable functions features (node token [object, key])
  | call {token : Token} {arguments : List Tree} :
      token.kind = .function → Spelled features token.kind token.span.text.toList →
      functions.has token.span.text = true →
      functions.accepts token.span.text arguments.length = true →
      (∀ argument ∈ arguments, Readable functions features argument) →
      Readable functions features (node token arguments)

theorem readable_node {functions : FunctionArity} {features : Features} {token : Token}
    {children : List Tree} (admits : token.kind.Admits functions token.span.text children.length)
    (spelled : Spelled features token.kind token.span.text.toList)
    (readable : ∀ child ∈ children, Readable functions features child) :
    Readable functions features (node token children) := by
  cases kind : token.kind with
  | number | text | name =>
    have isLeaf : token.IsLeaf := by simp [Token.IsLeaf, kind]
    rw [kind] at admits
    obtain rfl : children = [] := List.eq_nil_of_length_eq_zero admits
    exact .leaf isLeaf spelled
  | operator role =>
    rw [kind] at admits
    cases role with
    | prefixOp =>
      obtain ⟨operand, rfl⟩ := List.length_eq_one_iff.mp admits
      exact .prefixed kind spelled (readable operand (by simp))
    | infixOp =>
      obtain ⟨left, right, rfl⟩ := List.length_eq_two.mp admits
      exact .infixed kind spelled (readable left (by simp)) (readable right (by simp))
    | postfixOp =>
      rw [kind] at spelled
      exact spelled.not_postfix.elim
  | field =>
    rw [kind] at admits
    obtain ⟨object, operand, rfl⟩ := List.length_eq_two.mp admits
    exact .field kind spelled (readable object (by simp)) (readable operand (by simp))
  | element | entry =>
    rw [kind] at admits
    obtain ⟨object, key, rfl⟩ := List.length_eq_two.mp admits
    exact .access (by simp [kind]) spelled (readable object (by simp)) (readable key (by simp))
  | function =>
    rw [kind] at admits
    exact .call kind spelled admits.1 admits.2 readable
  | comma | opening | closing | argumentsStart =>
    rw [kind] at admits
    exact admits.elim

end Tree

theorem readable_of_parse {functions : FunctionArity} {features : Features} {source : String}
    {tree : Tree} (h : parse Operators.standard functions features source = .ok tree) :
    tree.Readable functions features := by
  obtain ⟨tokens, tokenized, read⟩ := bind_eq_ok_iff.mp h
  have spelled : ∀ token ∈ tree.tokens, Spelled features token.kind token.span.text.toList := by
    intro root member
    have inContent := (Tree.tokens_perm_content read).mem_iff.mp member
    obtain ⟨token, inTokens, isRoot⟩ := List.mem_filterMap.mp inContent
    exact (tokenize_spelled tokenized token inTokens).content isRoot
  have built : (∀ token ∈ tree.tokens, Spelled features token.kind token.span.text.toList) →
      tree.Readable functions features := by
    refine @Tree.ofTokens_induction _ _ _ _ _ (fun tree => (∀ token ∈ tree.tokens,
      Spelled features token.kind token.span.text.toList) → tree.Readable functions features) ?_ read
    intro token children admits ih spelled
    rw [Tree.tokens_node, List.forall_mem_cons] at spelled
    apply Tree.readable_node admits spelled.1
    intro child isChild
    exact ih child isChild fun other member =>
      spelled.2 other (List.mem_flatMap.mpr ⟨child, isChild, member⟩)
  exact built spelled

end Formulary
