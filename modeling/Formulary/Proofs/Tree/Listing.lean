import Formulary.Tree.OfTokens

set_option autoImplicit false

/-!
# Trees and token lists as lists of what they mean

Brackets and commas are no part of a tree, and a square or curly bracket that opens an access stands
for the access.
-/

namespace Formulary

namespace Kind

/-- Operators and accesses with one operand on either side. -/
def isBinary : Kind → Bool
  | operator .infixOp | field | element | entry => true
  | _ => false

def isUnary : Kind → Bool
  | operator .prefixOp | operator .postfixOp => true
  | _ => false

/-- How many of the children of a node stand before its token. -/
def before : Kind → Nat
  | operator .infixOp | operator .postfixOp | field | element | entry => 1
  | _ => 0

theorem before_of_isBinary {kind : Kind} (binary : kind.isBinary) : kind.before = 1 := by
  rcases kind with _ | _ | _ | (_ | _ | _) | _ | _ | _ | _ | _ | _ | _ | _ <;>
    simp_all [isBinary, before]

theorem isBinary_of_isUnary {kind : Kind} (unary : kind.isUnary) : kind.isBinary = false := by
  rcases kind with _ | _ | _ | (_ | _ | _) | _ | _ | _ | _ | _ | _ | _ | _ <;>
    simp_all [isUnary, isBinary]

/-- The numbers of children that a node may have. -/
def Admits (functions : FunctionArity) (text : String) (count : Nat) : Kind → Prop
  | number | Kind.text | name => count = 0
  | operator role => count = role.arity
  | field | element | entry => count = 2
  | function => functions.has text = true ∧ functions.accepts text count = true
  | comma | opening _ | closing _ | argumentsStart => False

theorem Admits.of_isUnary {functions : FunctionArity} {text : String} {kind : Kind}
    (unary : kind.isUnary) : kind.Admits functions text 1 := by
  rcases kind with _ | _ | _ | (_ | _ | _) | _ | _ | _ | _ | _ | _ | _ | _ <;>
    simp_all [isUnary, Admits, Role.arity]

theorem Admits.of_isBinary {functions : FunctionArity} {text : String} {kind : Kind}
    (binary : kind.isBinary) : kind.Admits functions text 2 := by
  rcases kind with _ | _ | _ | (_ | _ | _) | _ | _ | _ | _ | _ | _ | _ | _ <;>
    simp_all [isBinary, Admits, Role.arity]

end Kind

namespace Token

/-- The token as the root of a node, if it can be one. -/
def content? (token : Token) : Option Token :=
  match token.kind with
  | .comma | .closing _ | .opening .paren => none
  | .opening .square => some { token with kind := .element }
  | .opening .curly => some { token with kind := .entry }
  | _ => some token

theorem isBinary_of_content? {opening access : Token} {bracket : Bracket}
    (kind : opening.kind = .opening bracket) (h : opening.content? = some access) :
    access.kind.isBinary := by
  cases bracket <;> simp only [content?, kind, reduceCtorEq, Option.some.injEq] at h <;>
    cases h <;> rfl

theorem kind_of_content? {opening access : Token} {bracket : Bracket}
    (kind : opening.kind = .opening bracket) (h : opening.content? = some access) :
    access.kind = .element ∨ access.kind = .entry := by
  cases bracket <;> simp only [content?, kind, reduceCtorEq, Option.some.injEq] at h <;>
    cases h <;> simp

theorem span_of_content? {token root : Token} (h : token.content? = some root) :
    root.span = token.span := by
  unfold content? at h
  split at h <;> cases h <;> rfl

/-- Literals and names are whole operands. -/
def IsLeaf (token : Token) : Prop :=
  token.kind = .number ∨ token.kind = .text ∨ token.kind = .name

theorem IsLeaf.content?_eq {token : Token} (leaf : token.IsLeaf) : token.content? = some token := by
  rcases leaf with kind | kind | kind <;> simp [content?, kind]

end Token

def content (tokens : List Token) : List Token :=
  tokens.filterMap Token.content?

@[simp] theorem content_nil : content [] = [] := rfl

@[simp] theorem content_cons (token : Token) (tokens : List Token) :
    content (token :: tokens) = token.content?.toList ++ content tokens := by
  rw [content, List.filterMap_cons]
  cases token.content? <;> rfl

@[simp] theorem content_append (first second : List Token) :
    content (first ++ second) = content first ++ content second :=
  List.filterMap_append

namespace Tree

abbrev isMark (tree : Tree) : Prop := tree.kind = .argumentsStart

theorem not_isMark_of_isLeaf {token : Token} (isLeaf : token.IsLeaf) : ¬(leaf token).isMark := by
  rcases isLeaf with kind | kind | kind <;> simp [leaf, Tree.kind, Tree.token, kind]

mutual

/-- The tree and all trees below it. -/
def nodes : Tree → List Tree
  | node token children => node token children :: nodesAll children

def nodesAll : List Tree → List Tree
  | [] => []
  | tree :: trees => nodes tree ++ nodesAll trees

end

theorem nodesAll_eq (trees : List Tree) : nodesAll trees = trees.flatMap nodes := by
  induction trees with
  | nil => rfl
  | cons tree trees ih => simp [nodesAll, ih]

@[simp] theorem nodes_node (token : Token) (children : List Tree) :
    (node token children).nodes = node token children :: children.flatMap nodes := by
  rw [nodes, nodesAll_eq]

theorem self_mem_nodes (tree : Tree) : tree ∈ tree.nodes := by
  cases tree
  simp

theorem forall_mem_nodes_node {P : Tree → Prop} {token : Token} {children : List Tree} :
    (∀ part ∈ (node token children).nodes, P part) ↔
      P (node token children) ∧ ∀ child ∈ children, ∀ part ∈ child.nodes, P part := by
  rw [nodes_node, List.forall_mem_cons]
  simp only [List.forall_mem_flatMap]

mutual

/-- The tokens of a tree, each between the children that stand before it and those after. -/
def inOrder : Tree → List Token
  | node token children =>
    let parts := inOrderAll children
    (parts.take token.kind.before).flatten ++ token :: (parts.drop token.kind.before).flatten

def inOrderAll : List Tree → List (List Token)
  | [] => []
  | tree :: trees => inOrder tree :: inOrderAll trees

end

theorem inOrderAll_eq (trees : List Tree) : inOrderAll trees = trees.map inOrder := by
  induction trees with
  | nil => rfl
  | cons tree trees ih => simp [inOrderAll, ih]

theorem inOrder_node (token : Token) (children : List Tree) :
    (node token children).inOrder = (children.take token.kind.before).flatMap inOrder ++
      token :: (children.drop token.kind.before).flatMap inOrder := by
  simp only [inOrder, inOrderAll_eq, List.flatMap, List.map_take, List.map_drop]

@[simp] theorem inOrder_leaf (token : Token) : (leaf token).inOrder = [token] := by
  simp [leaf, inOrder_node]

theorem inOrder_prefixed {token : Token} (role : token.kind = .operator .prefixOp) (operand : Tree) :
    (node token [operand]).inOrder = token :: operand.inOrder := by
  simp [inOrder_node, role, Kind.before]

theorem inOrder_binary {token : Token} (binary : token.kind.isBinary) (first second : Tree) :
    (node token [first, second]).inOrder = first.inOrder ++ token :: second.inOrder := by
  simp [inOrder_node, Kind.before_of_isBinary binary]

theorem inOrder_call {token : Token} (function : token.kind = .function) (arguments : List Tree) :
    (node token arguments).inOrder = token :: arguments.flatMap inOrder := by
  simp [inOrder_node, function, Kind.before]

theorem inOrder_ne_nil (tree : Tree) : tree.inOrder ≠ [] := by
  cases tree
  simp [inOrder_node]

end Tree

end Formulary
