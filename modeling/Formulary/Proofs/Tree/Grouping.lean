import Formulary.Proofs.Tree.Listing

set_option autoImplicit false

/-!
# Expressions and how their operators are grouped

`Derives` is the grammar of expressions, in which operators only alternate with operands. `Groups`
says which tree such a sequence of tokens stands for: what is in brackets is one subtree, and an
operator takes what binds tighter. Every expression is grouped in some way.
-/

namespace Formulary

namespace Token

def mapping? (operators : Operators) (token : Token) : Option Mapping :=
  token.kind.role?.bind fun role => operators.find? role token.span.text

def IsDefined (operators : Operators) (token : Token) : Prop :=
  (token.mapping? operators).isSome

/-- The operator `first` takes the operand between it and `next`: it binds tighter, or both bind
alike and `next` is left-associative. -/
def Binds (operators : Operators) (first next : Token) : Prop :=
  ∃ f ∈ first.mapping? operators, ∃ n ∈ next.mapping? operators,
    n.precedence < f.precedence ∨ f.precedence = n.precedence ∧ n.leftAssociative = true

theorem Binds.trans {operators : Operators} {first between next : Token}
    (h : first.Binds operators between) (next_h : between.Binds operators next) :
    first.Binds operators next := by
  obtain ⟨f, isFirst, b, isBetween, bound⟩ := h
  obtain ⟨b', isBetween', n, isNext, boundNext⟩ := next_h
  obtain rfl : b = b' := Option.mem_unique isBetween isBetween'
  refine ⟨f, isFirst, n, isNext, ?_⟩
  rcases bound with tighter | ⟨alike, -⟩ <;> rcases boundNext with tighterNext | ⟨alikeNext, left⟩
  · exact .inl (by omega)
  · exact .inl (by omega)
  · exact .inl (by omega)
  · exact .inr ⟨alike.trans alikeNext, left⟩

end Token

inductive Category where
  | expression
  | operand
  | atom
  | arguments (count : Nat)

/-- The grammar of expressions. Operators have to be defined in their roles, and a function has to
be known with as many arguments as it is given. -/
inductive Derives (operators : Operators) (functions : FunctionArity) :
    Category → List Token → Prop
  | operand {tokens : List Token} :
      Derives operators functions .operand tokens → Derives operators functions .expression tokens
  | infixed {left right : List Token} {operator : Token} :
      Derives operators functions .expression left →
      operator.kind = .operator .infixOp → operator.IsDefined operators →
      Derives operators functions .operand right →
      Derives operators functions .expression (left ++ operator :: right)
  | atom {tokens : List Token} :
      Derives operators functions .atom tokens → Derives operators functions .operand tokens
  | prefixed {tokens : List Token} {operator : Token} :
      operator.kind = .operator .prefixOp → operator.IsDefined operators →
      Derives operators functions .operand tokens →
      Derives operators functions .operand (operator :: tokens)
  | leaf {token : Token} : token.IsLeaf → Derives operators functions .atom [token]
  | group {tokens : List Token} {opening closing : Token} :
      opening.kind = .opening .paren → closing.kind = .closing .paren →
      Derives operators functions .expression tokens →
      Derives operators functions .atom (opening :: tokens ++ [closing])
  | call {tokens : List Token} {function opening closing : Token} {count : Nat} :
      function.kind = .function → opening.kind = .opening .paren →
      closing.kind = .closing .paren →
      functions.has function.span.text = true →
      functions.accepts function.span.text count = true →
      Derives operators functions (.arguments count) tokens →
      Derives operators functions .atom (function :: opening :: tokens ++ [closing])
  | access {object key : List Token} {opening closing : Token} {bracket : Bracket} :
      bracket ≠ .paren → opening.kind = .opening bracket → closing.kind = .closing bracket →
      Derives operators functions .atom object → Derives operators functions .expression key →
      Derives operators functions .atom (object ++ opening :: key ++ [closing])
  | field {object : List Token} {separator name : Token} :
      separator.kind = .field → name.kind = .name →
      Derives operators functions .atom object →
      Derives operators functions .atom (object ++ [separator, name])
  | noArgument : Derives operators functions (.arguments 0) []
  | firstArgument {tokens : List Token} :
      Derives operators functions .expression tokens →
      Derives operators functions (.arguments 1) tokens
  | nextArgument {before tokens : List Token} {comma : Token} {count : Nat} :
      Derives operators functions (.arguments (count + 1)) before → comma.kind = .comma →
      Derives operators functions .expression tokens →
      Derives operators functions (.arguments (count + 2)) (before ++ comma :: tokens)

/-- What a sequence of tokens can stand for. An expression has the operators in its `spine` next to
its right end, outside of all brackets, and the infix operator `root` on top of it if that one is
outside of all brackets. -/
inductive Meaning where
  | expression (tree : Tree) (root : Option Token) (spine : List Token)
  | arguments (trees : List Tree)

/-- The tokens stand for trees in which operators are grouped by precedence and associativity, and
each group in brackets and each argument is one subtree. -/
inductive Groups (operators : Operators) (functions : FunctionArity) :
    List Token → Meaning → Prop
  | leaf {token : Token} :
      token.IsLeaf → Groups operators functions [token] (.expression (.leaf token) none [])
  | group {tokens spine : List Token} {tree : Tree} {root : Option Token}
      {opening closing : Token} :
      opening.kind = .opening .paren → closing.kind = .closing .paren →
      Groups operators functions tokens (.expression tree root spine) →
      Groups operators functions (opening :: tokens ++ [closing]) (.expression tree none [])
  | call {tokens : List Token} {trees : List Tree} {function opening closing : Token} :
      function.kind = .function → opening.kind = .opening .paren →
      closing.kind = .closing .paren →
      functions.has function.span.text = true →
      functions.accepts function.span.text trees.length = true →
      Groups operators functions tokens (.arguments trees) →
      Groups operators functions (function :: opening :: tokens ++ [closing])
        (.expression (.node function trees) none [])
  | access {object key spine : List Token} {objectTree keyTree : Tree} {root : Option Token}
      {opening access closing : Token} {bracket : Bracket} :
      bracket ≠ .paren → opening.kind = .opening bracket → closing.kind = .closing bracket →
      opening.content? = some access →
      Groups operators functions object (.expression objectTree none []) →
      Groups operators functions key (.expression keyTree root spine) →
      Groups operators functions (object ++ opening :: key ++ [closing])
        (.expression (.node access [objectTree, keyTree]) none [])
  | field {object : List Token} {objectTree : Tree} {separator name : Token} :
      separator.kind = .field → name.kind = .name →
      Groups operators functions object (.expression objectTree none []) →
      Groups operators functions (object ++ [separator, name])
        (.expression (.node separator [objectTree, .leaf name]) none [])
  | prefixed {tokens spine : List Token} {tree : Tree} {root : Option Token} {operator : Token} :
      operator.kind = .operator .prefixOp → operator.IsDefined operators →
      Groups operators functions tokens (.expression tree root spine) →
      (∀ next ∈ root, ¬operator.Binds operators next) →
      Groups operators functions (operator :: tokens)
        (.expression (.node operator [tree]) none (operator :: spine))
  | infixed {left right leftSpine rightSpine : List Token} {leftTree rightTree : Tree}
      {leftRoot rightRoot : Option Token} {operator : Token} :
      operator.kind = .operator .infixOp → operator.IsDefined operators →
      Groups operators functions left (.expression leftTree leftRoot leftSpine) →
      Groups operators functions right (.expression rightTree rightRoot rightSpine) →
      (∀ first ∈ leftSpine, first.Binds operators operator) →
      (∀ next ∈ rightRoot, ¬operator.Binds operators next) →
      Groups operators functions (left ++ operator :: right)
        (.expression (.node operator [leftTree, rightTree]) (some operator)
          (operator :: rightSpine))
  | noArgument : Groups operators functions [] (.arguments [])
  | firstArgument {tokens spine : List Token} {tree : Tree} {root : Option Token} :
      Groups operators functions tokens (.expression tree root spine) →
      Groups operators functions tokens (.arguments [tree])
  | nextArgument {before tokens spine : List Token} {first tree : Tree} {trees : List Tree}
      {root : Option Token} {comma : Token} :
      Groups operators functions before (.arguments (first :: trees)) → comma.kind = .comma →
      Groups operators functions tokens (.expression tree root spine) →
      Groups operators functions (before ++ comma :: tokens) (.arguments (first :: trees ++ [tree]))

namespace Meaning

def trees : Meaning → List Tree
  | expression tree _ _ => [tree]
  | arguments trees => trees

end Meaning

namespace Groups

variable {operators : Operators} {functions : FunctionArity}

theorem flatMap_inOrder {tokens : List Token} {meaning : Meaning}
    (h : Groups operators functions tokens meaning) :
    meaning.trees.flatMap Tree.inOrder = content tokens := by
  induction h with
  | leaf leaf => simp [Meaning.trees, leaf.content?_eq]
  | @group tokens _ _ _ opening closing isOpening isClosing _ ih =>
    simp only [Meaning.trees] at ih ⊢
    rw [ih]
    simp [Token.content?, isOpening, isClosing]
  | @call tokens trees function opening closing isFunction isOpening isClosing _ _ _ ih =>
    simp only [Meaning.trees] at ih ⊢
    simp [Tree.inOrder_call isFunction, ih, Token.content?, isFunction, isOpening, isClosing]
  | @access object key _ objectTree keyTree _ opening access closing _ _ isOpening isClosing
      isAccess _ _ object_ih key_ih =>
    simp only [Meaning.trees, List.flatMap_cons, List.flatMap_nil, List.append_nil] at object_ih key_ih ⊢
    have noClosing : closing.content? = none := by simp [Token.content?, isClosing]
    rw [Tree.inOrder_binary (Token.isBinary_of_content? isOpening isAccess), object_ih, key_ih]
    simp [isAccess, noClosing]
  | @field object objectTree separator name isField isName _ ih =>
    simp only [Meaning.trees, List.flatMap_cons, List.flatMap_nil, List.append_nil] at ih ⊢
    rw [Tree.inOrder_binary (by simp [isField, Kind.isBinary]), ih]
    simp [Token.content?, isField, isName]
  | @prefixed tokens _ tree _ operator isPrefix _ _ _ ih =>
    simp only [Meaning.trees, List.flatMap_cons, List.flatMap_nil, List.append_nil] at ih ⊢
    rw [Tree.inOrder_prefixed isPrefix, ih]
    simp [Token.content?, isPrefix]
  | @infixed left right _ _ leftTree rightTree _ _ operator isInfix _ _ _ _ _ left_ih right_ih =>
    simp only [Meaning.trees, List.flatMap_cons, List.flatMap_nil, List.append_nil] at left_ih right_ih ⊢
    rw [Tree.inOrder_binary (by simp [isInfix, Kind.isBinary]), left_ih, right_ih]
    simp [Token.content?, isInfix]
  | noArgument => rfl
  | firstArgument _ ih => exact ih
  | @nextArgument before tokens _ first tree trees _ comma _ isComma _ before_ih ih =>
    simp only [Meaning.trees] at before_ih ih ⊢
    rw [List.flatMap_append, before_ih, ih]
    simp [Token.content?, isComma]

theorem inOrder_eq {tokens spine : List Token} {tree : Tree} {root : Option Token}
    (h : Groups operators functions tokens (.expression tree root spine)) :
    tree.inOrder = content tokens := by
  simpa [Meaning.trees] using h.flatMap_inOrder

section Extend

variable {right rightSpine : List Token} {rightTree : Tree} {operator : Token}
  (isInfix : operator.kind = .operator .infixOp) (defined : operator.IsDefined operators)
  (rightGroups : Groups operators functions right (.expression rightTree none rightSpine))

include isInfix defined rightGroups

/-- Where some operator at the right end does not bind tighter than the one that follows, the root
stays in place. -/
theorem extend_below {left : List Token} {meaning : Meaning}
    (leftGroups : Groups operators functions left meaning) {tree : Tree} {root : Option Token}
    {spine : List Token} (same : meaning = .expression tree root spine)
    (some : ¬∀ first ∈ spine, first.Binds operators operator) :
    ∃ extended extendedSpine, Groups operators functions (left ++ operator :: right)
      (.expression extended root extendedSpine) := by
  induction leftGroups generalizing tree root spine with
  | leaf | group | call | access | field =>
    cases same
    exact absurd (by simp) some
  | @prefixed tokens spine tree root first isPrefix firstDefined groups below ih =>
    cases same
    by_cases all : ∀ other ∈ spine, other.Binds operators operator
    · have notFirst : ¬first.Binds operators operator := fun binds =>
        some (List.forall_mem_cons.mpr ⟨binds, all⟩)
      exact ⟨_, _, .prefixed isPrefix firstDefined
        (.infixed isInfix defined groups rightGroups all (by simp)) (by simpa using notFirst)⟩
    · obtain ⟨extended, extendedSpine, extendedGroups⟩ := ih rfl all
      exact ⟨_, _, .prefixed isPrefix firstDefined extendedGroups below⟩
  | @infixed outer inner outerSpine spine outerTree tree outerRoot root first isFirst firstDefined
      outerGroups groups tighter below _ ih =>
    cases same
    rw [List.append_assoc, List.cons_append]
    by_cases all : ∀ other ∈ spine, other.Binds operators operator
    · have notFirst : ¬first.Binds operators operator := fun binds =>
        some (List.forall_mem_cons.mpr ⟨binds, all⟩)
      exact ⟨_, _, .infixed isFirst firstDefined outerGroups
        (.infixed isInfix defined groups rightGroups all (by simp)) tighter (by simpa using notFirst)⟩
    · obtain ⟨extended, extendedSpine, extendedGroups⟩ := ih rfl all
      exact ⟨_, _, .infixed isFirst firstDefined outerGroups extendedGroups tighter below⟩
  | noArgument | firstArgument | nextArgument => cases same

theorem extend {left spine : List Token} {tree : Tree} {root : Option Token}
    (leftGroups : Groups operators functions left (.expression tree root spine)) :
    ∃ extended extendedRoot extendedSpine, Groups operators functions (left ++ operator :: right)
      (.expression extended extendedRoot extendedSpine) := by
  by_cases all : ∀ first ∈ spine, first.Binds operators operator
  · exact ⟨_, _, _, .infixed isInfix defined leftGroups rightGroups all (by simp)⟩
  · obtain ⟨extended, extendedSpine, groups⟩ :=
      extend_below isInfix defined rightGroups leftGroups rfl all
    exact ⟨_, _, _, groups⟩

end Extend

/-- What the tokens of each category stand for. -/
def HasMeaning (operators : Operators) (functions : FunctionArity) (tokens : List Token) :
    Category → Prop
  | .expression => ∃ tree root spine,
      Groups operators functions tokens (.expression tree root spine)
  | .operand => ∃ tree spine, Groups operators functions tokens (.expression tree none spine)
  | .atom => ∃ tree, Groups operators functions tokens (.expression tree none [])
  | .arguments count => ∃ trees, Groups operators functions tokens (.arguments trees) ∧
      trees.length = count

theorem hasMeaning_of_derives {category : Category} {tokens : List Token}
    (h : Derives operators functions category tokens) :
    HasMeaning operators functions tokens category := by
  induction h with
  | operand _ ih =>
    obtain ⟨tree, spine, groups⟩ := ih
    exact ⟨tree, none, spine, groups⟩
  | infixed _ isInfix defined _ left_ih right_ih =>
    obtain ⟨tree, root, spine, leftGroups⟩ := left_ih
    obtain ⟨rightTree, rightSpine, rightGroups⟩ := right_ih
    exact extend isInfix defined rightGroups leftGroups
  | atom _ ih =>
    obtain ⟨tree, groups⟩ := ih
    exact ⟨tree, [], groups⟩
  | prefixed isPrefix defined _ ih =>
    obtain ⟨tree, spine, groups⟩ := ih
    exact ⟨_, _, .prefixed isPrefix defined groups (by simp)⟩
  | leaf leaf => exact ⟨_, .leaf leaf⟩
  | group isOpening isClosing _ ih =>
    obtain ⟨tree, root, spine, groups⟩ := ih
    exact ⟨tree, .group isOpening isClosing groups⟩
  | call isFunction isOpening isClosing known accepted _ ih =>
    obtain ⟨trees, groups, rfl⟩ := ih
    exact ⟨_, .call isFunction isOpening isClosing known accepted groups⟩
  | @access _ _ opening _ bracket square isOpening isClosing _ _ object_ih key_ih =>
    obtain ⟨objectTree, objectGroups⟩ := object_ih
    obtain ⟨keyTree, root, spine, keyGroups⟩ := key_ih
    obtain ⟨access, isAccess⟩ : ∃ access, opening.content? = some access := by
      cases bracket with
      | paren => exact absurd rfl square
      | square | curly => simp [Token.content?, isOpening]
    exact ⟨_, .access square isOpening isClosing isAccess objectGroups keyGroups⟩
  | field isField isName _ ih =>
    obtain ⟨tree, groups⟩ := ih
    exact ⟨_, .field isField isName groups⟩
  | noArgument => exact ⟨[], .noArgument, rfl⟩
  | firstArgument _ ih =>
    obtain ⟨tree, root, spine, groups⟩ := ih
    exact ⟨[tree], .firstArgument groups, rfl⟩
  | nextArgument _ isComma _ before_ih ih =>
    obtain ⟨trees, beforeGroups, count⟩ := before_ih
    obtain ⟨tree, root, spine, groups⟩ := ih
    cases trees with
    | nil => cases count
    | cons first trees =>
      exact ⟨_, .nextArgument beforeGroups isComma groups, by simpa using count⟩

/-- The root is the first of the operators on the right end. -/
theorem root_mem_spine {tokens spine : List Token} {tree : Tree} {root : Option Token}
    (h : Groups operators functions tokens (.expression tree root spine)) :
    ∀ top ∈ root, top ∈ spine := by
  cases h <;> simp

theorem isDefined_of_mem_spine {tokens : List Token} {meaning : Meaning}
    (h : Groups operators functions tokens meaning) {tree : Tree} {root : Option Token}
    {spine : List Token} (same : meaning = .expression tree root spine) :
    ∀ token ∈ spine, token.IsDefined operators := by
  induction h generalizing tree root spine with
  | prefixed _ defined _ _ ih | infixed _ defined _ _ _ _ _ ih =>
    cases same
    exact List.forall_mem_cons.mpr ⟨defined, ih rfl⟩
  | leaf | group | call | access | field =>
    cases same
    simp
  | noArgument | firstArgument | nextArgument => cases same

end Groups

end Formulary
