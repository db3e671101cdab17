import Formulary.Proofs.Tree.Stacks

set_option autoImplicit false

/-!
# A tree holds what was read

Every token that is no bracket and no comma is held exactly once at all times: by an operand, or
because it waits. So the tree of a token list has these tokens, with the number of children that the
kind of each admits.
-/

namespace Formulary

namespace Tree

def tokens (tree : Tree) : List Token :=
  tree.nodes.map token

@[simp] theorem tokens_node (token : Token) (children : List Tree) :
    (node token children).tokens = token :: children.flatMap tokens := by
  rw [tokens, nodes_node, List.map_cons, List.map_flatMap]
  rfl

@[simp] theorem tokens_leaf (token : Token) : (leaf token).tokens = [token] := by
  simp [leaf]

/-- Each node has a number of children that its kind admits. -/
def Fits (functions : FunctionArity) (tree : Tree) : Prop :=
  ∀ part ∈ tree.nodes, part.kind.Admits functions part.text part.children.length

theorem fits_node {functions : FunctionArity} {token : Token} {children : List Tree}
    (admits : token.kind.Admits functions token.span.text children.length)
    (fits : ∀ child ∈ children, child.Fits functions) : (node token children).Fits functions := by
  intro part member
  rw [nodes_node, List.mem_cons, List.mem_flatMap] at member
  rcases member with rfl | ⟨child, isChild, inside⟩
  · exact admits
  · exact fits child isChild part inside

theorem Fits.child {functions : FunctionArity} {token : Token} {children : List Tree}
    (fits : (node token children).Fits functions) {child : Tree} (isChild : child ∈ children) :
    child.Fits functions := by
  intro part member
  apply fits part
  rw [nodes_node]
  exact List.mem_cons_of_mem _ (List.mem_flatMap.mpr ⟨child, isChild, member⟩)

namespace Stacks

def operandTokens (operands : List Tree) : List Token :=
  (operands.filter fun tree => tree.kind ≠ .argumentsStart).flatMap tokens

/-- The tokens in operands and those that wait, other than brackets. -/
def held (s : Stacks) : List Token :=
  operandTokens s.operands ++ s.waiting.filter fun token => !token.kind.isOpening

theorem operandTokens_cons {tree : Tree} (real : ¬tree.isMark) (operands : List Tree) :
    operandTokens (tree :: operands) = tree.tokens ++ operandTokens operands := by
  simp [operandTokens, real]

theorem operandTokens_mark {mark : Tree} (isMark : mark.isMark) (operands : List Tree) :
    operandTokens (mark :: operands) = operandTokens operands := by
  simp [operandTokens, isMark]

theorem operandTokens_append {first : List Tree} (real : ∀ tree ∈ first, ¬tree.isMark)
    (second : List Tree) :
    operandTokens (first ++ second) = first.flatMap tokens ++ operandTokens second := by
  have unchanged : first.filter (fun tree => tree.kind ≠ .argumentsStart) = first := by
    simpa [List.filter_eq_self] using real
  rw [operandTokens, List.filter_append, unchanged, List.flatMap_append, operandTokens]

theorem Joined.isOpening_eq_false {token : Token} {operands joined : List Tree}
    (h : Joined token operands joined) : token.kind.isOpening = false := by
  have operator := h.isUnary_or_isBinary
  cases kind : token.kind with
  | opening bracket => simp [kind, Kind.isUnary, Kind.isBinary] at operator
  | _ => rfl

theorem operandTokens_of_joined {token : Token} {operands joined : List Tree}
    (h : Joined token operands joined) :
    (operandTokens joined).Perm (token :: operandTokens operands) := by
  have real (children : List Tree) : ¬(node token children).isMark := by
    intro mark
    have kind : token.kind = .argumentsStart := mark
    simpa [kind, Kind.isUnary, Kind.isBinary] using h.isUnary_or_isBinary
  cases h with
  | unary _ realOperand =>
    rw [operandTokens_cons (real _), operandTokens_cons realOperand]
    simp
  | @binary first second rest _ realSecond realFirst =>
    rw [operandTokens_cons (real _), operandTokens_cons realSecond, operandTokens_cons realFirst,
      tokens_node, List.cons_append, List.perm_cons]
    simp only [List.flatMap_cons, List.flatMap_nil, List.append_nil, ← List.append_assoc]
    exact List.perm_append_comm.append_right _

theorem operandTokens_of_call {functions : FunctionArity} {function : Token}
    {operands called : List Tree} (kind : function.kind = .function)
    (h : call functions function operands = .ok called) :
    (operandTokens called).Perm (function :: operandTokens operands) := by
  obtain ⟨taken, mark, rest, rfl, isMark, real, rfl, -⟩ := call_eq_ok h
  have realCall : ¬(node function taken.reverse).isMark := by
    intro mark
    cases kind.symm.trans mark
  rw [operandTokens_cons realCall, operandTokens_append real, operandTokens_mark isMark,
    tokens_node, List.cons_append, List.perm_cons]
  apply List.Perm.append_right _
  exact (List.reverse_perm taken).flatMap_right _

theorem held_of_joins {ready : Token → Prop} {s t : Stacks} (h : Joins ready s t) :
    (held t).Perm (held s) := by
  induction h with
  | refl s => exact .refl _
  | @step token waiting operands joined s _ isJoined _ ih =>
    apply ih.trans
    simp only [held, List.filter_cons, isJoined.isOpening_eq_false, Bool.not_false, if_true]
    exact ((operandTokens_of_joined isJoined).append_right _).trans List.perm_middle.symm

/-- A waiting token that is no bracket is held. -/
theorem held_wait {token : Token} (kind : token.kind.isOpening = false) (operands : List Tree)
    (waiting : List Token) :
    (held ⟨operands, token :: waiting⟩).Perm (token :: held ⟨operands, waiting⟩) := by
  simp only [held, List.filter_cons, kind, Bool.not_false, if_true]
  exact List.perm_middle

theorem held_opening {token : Token} (kind : token.kind.isOpening = true) (operands : List Tree)
    (waiting : List Token) :
    held ⟨operands, token :: waiting⟩ = held ⟨operands, waiting⟩ := by
  simp [held, kind]

theorem held_of_step {functions : FunctionArity} {previous : Option Kind} {token : Token}
    {s t : Stacks} (h : Step functions previous token s t) :
    (held t).Perm (token.content?.toList ++ held s) := by
  cases h with
  | operand kind =>
    have kept : token.content? = some token := by
      rcases kind with kind | kind | kind <;> simp [Token.content?, kind]
    have real : ¬(leaf token).isMark := by
      rcases kind with kind | kind | kind <;> simp [leaf, Tree.kind, Tree.token, kind]
    simp [kept, held, operandTokens_cons real]
  | wait kind =>
    have kept : token.content? = some token := by
      rcases kind with kind | kind <;> simp [Token.content?, kind]
    rw [kept]
    exact held_wait (by rcases kind with kind | kind <;> simp [kind, Kind.isOpening]) _ _
  | @operator t role kind _ joins =>
    simp only [Token.content?, kind]
    exact (held_wait (by simp [kind, Kind.isOpening]) _ _).trans (.cons _ (held_of_joins joins))
  | field kind joins =>
    simp only [Token.content?, kind]
    exact (held_wait (by simp [kind, Kind.isOpening]) _ _).trans (.cons _ (held_of_joins joins))
  | comma kind joins =>
    simp only [Token.content?, kind]
    exact held_of_joins joins
  | openGroup kind =>
    rw [held_opening (by simp [kind, Kind.isOpening])]
    simp [Token.content?, kind]
  | openCall kind =>
    rw [held_opening (by simp [kind, Kind.isOpening])]
    simp only [Token.content?, kind, held]
    exact .refl _
  | @openAccess t access kind isAccess joins =>
    rw [isAccess, held_opening (by rcases kind with kind | kind <;> simp [kind, Kind.isOpening])]
    have accessKind : access.kind.isOpening = false := by
      rcases kind with kind | kind <;> simp only [Token.content?, kind] at isAccess <;>
        cases isAccess <;> rfl
    exact (held_wait accessKind _ _).trans (.cons _ (held_of_joins joins))
  | @closeGroup operands opening waiting kind joins opens =>
    have joined := held_of_joins joins
    rw [held_opening opens] at joined
    simpa [Token.content?, kind] using joined
  | @closeCall operands called opening function waiting kind joins opens isCall result =>
    have joined := held_of_joins joins
    rw [held_opening opens] at joined
    have plain : function.kind.isOpening = false := by simp [isCall, Kind.isOpening]
    have waits := held_wait plain operands waiting
    simp only [Token.content?, kind]
    apply List.Perm.trans ?_ (waits.symm.trans joined)
    exact (operandTokens_of_call isCall result).append_right _
  | @closeAccess operands joined opening access waiting kind joins opens isJoined =>
    have joined := held_of_joins joins
    rw [held_opening opens] at joined
    have waits := held_wait isJoined.isOpening_eq_false operands waiting
    have none : token.content? = none := by
      rcases kind with kind | kind <;> simp [Token.content?, kind]
    rw [none]
    apply List.Perm.trans ?_ (waits.symm.trans joined)
    exact (operandTokens_of_joined isJoined).append_right _

theorem held_of_addAll {operators : Operators} {functions : FunctionArity}
    {previous : Option Kind} {read : List Token} {s t : Stacks}
    (h : addAll operators functions previous s read = .ok t) :
    (held t).Perm (content read ++ held s) := by
  induction read generalizing previous s with
  | nil =>
    cases h
    exact .refl _
  | cons token rest ih =>
    obtain ⟨between, added, h⟩ := addAll_cons_eq_ok.mp h
    have step := held_of_step (step_of_add added)
    have remaining := (ih h).trans (step.append_left (content rest))
    rw [content_cons, List.append_assoc]
    apply remaining.trans
    simp only [← List.append_assoc]
    exact List.perm_append_comm.append_right _

/-- All operands that are no marks. -/
def ForAll (P : Tree → Prop) (operands : List Tree) : Prop :=
  ∀ tree ∈ operands, ¬tree.isMark → P tree

section Build

variable {functions : FunctionArity} {P : Tree → Prop}

theorem Joined.not_function {token : Token} {operands joined : List Tree}
    (h : Joined token operands joined) : token.kind ≠ .function := by
  intro function
  have operator := h.isUnary_or_isBinary
  simp [function, Kind.isUnary, Kind.isBinary] at operator

section Operators

variable (build : ∀ (token : Token) (children : List Tree), token.kind ≠ .function →
    token.kind.Admits functions token.span.text children.length →
    (∀ child ∈ children, P child) → P (node token children))

include build

theorem forAll_of_leaf {token : Token} {operands : List Tree}
    (kind : token.IsLeaf)
    (holds : ForAll P operands) : ForAll P (leaf token :: operands) := by
  intro tree member real
  rcases List.mem_cons.mp member with rfl | inRest
  · exact build _ _ (by rcases kind with kind | kind | kind <;> simp [kind])
      (by rcases kind with kind | kind | kind <;> simp [kind, Kind.Admits]) (by simp)
  · exact holds tree inRest real

theorem forAll_of_joined {token : Token} {operands joined : List Tree}
    (h : Joined token operands joined) (holds : ForAll P operands) : ForAll P joined := by
  have function := h.not_function
  cases h with
  | unary unary real =>
    intro tree member _
    rcases List.mem_cons.mp member with rfl | inRest
    · apply build _ _ function (.of_isUnary unary)
      simpa using holds _ (by simp) real
    · exact holds tree (by simp [inRest]) ‹_›
  | binary binary realSecond realFirst =>
    intro tree member _
    rcases List.mem_cons.mp member with rfl | inRest
    · apply build _ _ function (.of_isBinary binary)
      simpa using ⟨holds _ (by simp) realFirst, holds _ (by simp) realSecond⟩
    · exact holds tree (by simp [inRest]) ‹_›

theorem forAll_of_joins {ready : Token → Prop} {s t : Stacks} (h : Joins ready s t)
    (holds : ForAll P s.operands) : ForAll P t.operands := by
  induction h with
  | refl s => exact holds
  | step _ isJoined _ ih => exact ih (forAll_of_joined build isJoined holds)

end Operators

theorem forAll_of_mark {mark : Tree} {operands : List Tree} (isMark : mark.isMark)
    (holds : ForAll P operands) : ForAll P (mark :: operands) := by
  intro tree member real
  rcases List.mem_cons.mp member with rfl | inRest
  · exact absurd isMark real
  · exact holds tree inRest real

variable (build : ∀ (token : Token) (children : List Tree),
    token.kind.Admits functions token.span.text children.length →
    (∀ child ∈ children, P child) → P (node token children))

include build

theorem forAll_of_call {function : Token} {operands called : List Tree}
    (kind : function.kind = .function) (h : call functions function operands = .ok called)
    (holds : ForAll P operands) : ForAll P called := by
  obtain ⟨taken, mark, rest, rfl, -, real, rfl, known, accepted⟩ := call_eq_ok h
  intro tree member _
  rcases List.mem_cons.mp member with rfl | inRest
  · apply build _ _
    · rw [kind, List.length_reverse]
      exact ⟨known, accepted⟩
    · intro child isChild
      have inTaken := List.mem_reverse.mp isChild
      exact holds child (by simp [inTaken]) (real child inTaken)
  · exact holds tree (by simp [inRest]) ‹_›

theorem forAll_of_step {previous : Option Kind} {token : Token} {s t : Stacks}
    (h : Step functions previous token s t) (holds : ForAll P s.operands) :
    ForAll P t.operands := by
  have buildOperator (token : Token) (children : List Tree) (_ : token.kind ≠ .function) :=
    build token children
  cases h with
  | operand kind => exact forAll_of_leaf buildOperator kind holds
  | wait | openGroup => exact holds
  | operator _ _ joins | field _ joins | comma _ joins | openAccess _ _ joins =>
    have kept := forAll_of_joins buildOperator joins holds
    exact kept
  | openCall => exact forAll_of_mark rfl holds
  | closeGroup _ joins =>
    have kept := forAll_of_joins buildOperator joins holds
    exact kept
  | closeCall _ joins _ isCall result =>
    exact forAll_of_call build isCall result (forAll_of_joins buildOperator joins holds)
  | closeAccess _ joins _ isJoined =>
    exact forAll_of_joined buildOperator isJoined (forAll_of_joins buildOperator joins holds)

/-- What building a node preserves holds of every operand at all times. -/
theorem forAll_of_addAll {operators : Operators} {previous : Option Kind} {read : List Token}
    {s t : Stacks} (h : addAll operators functions previous s read = .ok t)
    (holds : ForAll P s.operands) : ForAll P t.operands := by
  induction read generalizing previous s with
  | nil =>
    cases h
    exact holds
  | cons token rest ih =>
    obtain ⟨between, added, h⟩ := addAll_cons_eq_ok.mp h
    exact ih h (forAll_of_step build (step_of_add added) holds)

end Build

end Stacks

open Stacks

variable {operators : Operators} {functions : FunctionArity} {source : String} {read : List Token}
  {tree : Tree}

/-- A property that building a node preserves holds of every tree that is read. -/
theorem ofTokens_induction {P : Tree → Prop}
    (build : ∀ (token : Token) (children : List Tree),
      token.kind.Admits functions token.span.text children.length →
      (∀ child ∈ children, P child) → P (node token children))
    (h : ofTokens operators functions source read = .ok tree) : P tree := by
  obtain ⟨s, added, joins, real⟩ := ofTokens_eq_ok h
  have start : ForAll P ({} : Stacks).operands := by simp [ForAll]
  exact forAll_of_joins (fun token children _ => build token children) joins
    (forAll_of_addAll build added start) tree (by simp) real

theorem tokens_perm_content (h : ofTokens operators functions source read = .ok tree) :
    tree.tokens.Perm (content read) := by
  obtain ⟨s, added, joins, real⟩ := ofTokens_eq_ok h
  have kept := (held_of_joins joins).trans (held_of_addAll added)
  simp only [held, operandTokens_cons real] at kept
  simpa [operandTokens] using kept

/-- The root of a node is a token of the source, or the access that a bracket of the source opens. -/
theorem exists_token_of_mem_nodes {part : Tree}
    (h : ofTokens operators functions source read = .ok tree) (member : part ∈ tree.nodes) :
    ∃ token ∈ read, token.content? = some part.token :=
  List.mem_filterMap.mp <| (tokens_perm_content h).mem_iff.mp (List.mem_map_of_mem member)

theorem fits_of_ofTokens (h : ofTokens operators functions source read = .ok tree) :
    tree.Fits functions :=
  ofTokens_induction (fun _ _ => fits_node) h

/-- Whatever tokens a tree is read from, it has those that are no brackets and no commas, each once,
an access for each bracket that opens one, and under each as many children as belong there. -/
theorem ofTokens_conserves (operators : Operators) (functions : FunctionArity) (source : String)
    (read : List Token) (tree : Tree)
    (h : ofTokens operators functions source read = .ok tree) :
    tree.tokens.Perm (content read) ∧
      (∀ part ∈ tree.nodes, part.kind.Admits functions part.text part.children.length) ∧
      ∀ part ∈ tree.nodes, ¬part.isMark := by
  have fits : tree.Fits functions := ofTokens_induction (fun _ _ => fits_node) h
  refine ⟨tokens_perm_content h, fits, ?_⟩
  intro part member mark
  have admits := fits part member
  rw [mark] at admits
  exact admits

/-- Brackets that do not match are no obstacle. -/
theorem ofTokens_conserves_crossed :
    let object : Token := ⟨.name, ⟨0, 1, 1⟩, "a"⟩
    let opening : Token := ⟨.opening .square, ⟨1, 1, 2⟩, "["⟩
    let index : Token := ⟨.number, ⟨2, 1, 3⟩, "1"⟩
    let closing : Token := ⟨.closing .paren, ⟨3, 1, 4⟩, ")"⟩
    let functions : FunctionArity := ⟨fun _ => false, fun _ _ => false⟩
    ∃ tree, ofTokens ⟨fun _ _ => none, fun _ _ => false⟩ functions "a[1)"
        [object, opening, index, closing] = .ok tree ∧
      tree.tokens.Perm [object, { opening with kind := .element }, index] ∧
      (∀ part ∈ tree.nodes, part.kind.Admits functions part.text part.children.length) ∧
      ∀ part ∈ tree.nodes, ¬part.isMark := by
  intro object opening index closing functions
  have read : ofTokens ⟨fun _ _ => none, fun _ _ => false⟩ functions "a[1)"
      [object, opening, index, closing] =
        .ok (.node { opening with kind := .element } [.leaf object, .leaf index]) := rfl
  exact ⟨_, read, ofTokens_conserves _ _ _ _ _ read⟩

end Tree

end Formulary
