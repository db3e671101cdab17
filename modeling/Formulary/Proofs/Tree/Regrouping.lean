import Formulary.Proofs.Tree.Precedence
import Formulary.Proofs.Tree.Writing

set_option autoImplicit false

/-!
# How the text of a tree is grouped again

There are no parentheses around what stands after the point of a field. If this is an access, the
field is complete as soon as the object of the access is, and becomes its object.
-/

namespace Formulary

/-- An element, an entry or a field. -/
def Kind.isAccess : Kind → Bool
  | element | entry | field => true
  | _ => false

namespace Tree

/-- The object of a field and its point, while the operand is still to be read. -/
abbrev Pending := Option (Tree × Token)

/-- The tree as the operand of the field that is pending. -/
def under (pending : Pending) (tree : Tree) : Tree :=
  match pending with
  | none => tree
  | some (object, point) => node point [object, tree]

mutual

/-- What the text of a tree is read as. A field that is pending takes the first operand that is
complete. -/
def regroup (pending : Pending) : Tree → Tree
  | node token children =>
    match token.kind, children with
    | .field, [object, operand] => regroup (some (under pending (regroup none object), token)) operand
    | .element, [object, key] | .entry, [object, key] =>
      node token [under pending (regroup none object), regroup none key]
    | _, children => under pending (node token (regroupAll children))

def regroupAll : List Tree → List Tree
  | [] => []
  | tree :: trees => regroup none tree :: regroupAll trees

end

theorem regroupAll_eq (trees : List Tree) : regroupAll trees = trees.map (regroup none) := by
  induction trees with
  | nil => rfl
  | cons tree trees ih => simp [regroupAll, ih]

section Regroup

variable {pending : Pending} {token : Token}

theorem regroup_field (kind : token.kind = .field) (object operand : Tree) :
    regroup pending (node token [object, operand]) =
      regroup (some (under pending (regroup none object), token)) operand := by
  simp only [regroup, kind]

theorem regroup_access (kind : token.kind = .element ∨ token.kind = .entry) (object key : Tree) :
    regroup pending (node token [object, key]) =
      node token [under pending (regroup none object), regroup none key] := by
  rcases kind with kind | kind <;> simp only [regroup, kind]

theorem regroup_other (kind : token.kind.isAccess = false) (children : List Tree) :
    regroup pending (node token children) =
      under pending (node token (children.map (regroup none))) := by
  have others : token.kind ≠ .field ∧ token.kind ≠ .element ∧ token.kind ≠ .entry := by
    refine ⟨?_, ?_, ?_⟩ <;> intro same <;> simp [same, Kind.isAccess] at kind
  rw [regroup, regroupAll_eq] <;> simp [others]

end Regroup

namespace Stacks

variable {functions : FunctionArity} {pending : Pending} {s t : Stacks} {tree : Tree}

/-- The stacks while an operand is still to be read. -/
def awaiting (s : Stacks) (pending : Pending) : Stacks :=
  match pending with
  | none => s
  | some (object, point) => ⟨object :: s.operands, point :: s.waiting⟩

/-- What is pending is a field. -/
def IsField (pending : Pending) : Prop :=
  ∀ p ∈ pending, p.2.kind = .field ∧ ¬p.1.isMark

theorem not_isMark_under (isField : IsField pending) (real : ¬tree.isMark) :
    ¬(under pending tree).isMark := by
  cases pending with
  | none => exact real
  | some p => simp [under, isMark, Tree.kind, Tree.token, (isField p rfl).1]

/-- The field that is pending takes the operand. -/
theorem Holds.under (isField : IsField pending) (real : ¬tree.isMark)
    (h : Holds [] tree (s.awaiting pending) t) : Holds [] (under pending tree) s t := by
  cases pending with
  | none => exact h
  | some p =>
    obtain ⟨kind, realObject⟩ := isField p rfl
    have joined : Joined p.2 (tree :: p.1 :: s.operands) (node p.2 [p.1, tree] :: s.operands) :=
      .binary (by simp [kind, Kind.isBinary]) real realObject
    intro ready _ fields
    rw [h ready (by simp) fields]
    exact reduce_of_ready (fields p.2 kind) joined s.waiting

theorem not_function_awaiting {operators : Operators} (isField : IsField pending)
    (begins : Begins operators s.waiting) :
    ∀ top ∈ (s.awaiting pending).waiting.head?, top.kind ≠ .function := by
  cases pending with
  | none => exact begins.not_function
  | some p =>
    rintro top ⟨⟩
    simp [(isField p rfl).1]

/-- What reading the tokens of a phrase does, whatever is below on the stacks. -/
def Rereads (functions : FunctionArity) (tokens : List Token) : Phrase → Prop
  | .tree root => ∀ (pending : Pending) (previous : Option Kind) (s : Stacks), IsField pending →
      previous ≠ some .function → Begins Operators.standard s.waiting →
      ¬(regroup pending root).isMark ∧
        ∃ t, addAll Operators.standard functions previous (s.awaiting pending) tokens = .ok t ∧
          Holds [] (regroup pending root) s t
  | .arguments roots => (∀ root ∈ roots, ¬(regroup none root).isMark) ∧
      ∀ (previous : Option Kind) (s : Stacks), previous ≠ some .function →
        (∀ top ∈ s.waiting.head?, top.kind.isOpening = true) →
        Within Operators.standard functions previous tokens (roots.map (regroup none)).reverse s

section Bracketed

variable {previous : Option Kind} {root : Tree} {tokens : List Token} {token opening closing : Token}

theorem Rereads.real (h : Rereads functions tokens (.tree root)) : ¬(regroup none root).isMark :=
  (h none none {} (by simp [IsField]) (by simp) (by simp [Begins])).1

theorem Rereads.within (h : Rereads functions tokens (.tree root)) (start : previous ≠ some .function)
    (opens : ∀ top ∈ s.waiting.head?, top.kind.isOpening = true) :
    Within Operators.standard functions previous tokens [regroup none root] s := by
  obtain ⟨-, t, read, holds⟩ := h none previous s (by simp [IsField]) start
    (begins_of_isOpening opens)
  exact ⟨t, read, @Holds.toOpening_eq Operators.standard _ _ _ _ holds (by simp) opens⟩

theorem Rereads.addAll_group (h : Rereads functions tokens (.tree root))
    (isOpening : opening.kind = .opening .paren) (isClosing : closing.kind = .closing .paren)
    (start : previous ≠ some .function) (group : ∀ top ∈ s.waiting.head?, top.kind ≠ .function) :
    addAll Operators.standard functions previous s (opening :: tokens ++ [closing]) =
      .ok ⟨regroup none root :: s.operands, s.waiting⟩ := by
  have within : Within Operators.standard functions (some opening.kind) tokens [regroup none root]
      ⟨s.operands, opening :: s.waiting⟩ := by
    apply h.within (by simp [isOpening])
    simp [isOpening, Kind.isOpening]
  exact within.addAll_group isOpening isClosing start group

theorem within_prefixed {inner innerEnd : Token} (kind : token.kind = .operator .prefixOp)
    (defined : token.IsDefined Operators.standard) (isInner : inner.kind = .opening .paren)
    (isInnerEnd : innerEnd.kind = .closing .paren) (ih : Rereads functions tokens (.tree root))
    (opens : ∀ top ∈ s.waiting.head?, top.kind.isOpening = true) :
    Within Operators.standard functions previous (token :: (inner :: tokens ++ [innerEnd]))
      [node token [regroup none root]] s := by
  have group : addAll Operators.standard functions (some token.kind) ⟨s.operands, token :: s.waiting⟩
      (inner :: tokens ++ [innerEnd]) = .ok ⟨regroup none root :: s.operands, token :: s.waiting⟩ := by
    apply ih.addAll_group isInner isInnerEnd (by simp [kind])
    rintro top ⟨⟩
    simp [kind]
  have joined : Joined token (regroup none root :: s.operands)
      (node token [regroup none root] :: s.operands) :=
    .unary (by simp [kind, Kind.isUnary]) ih.real
  have holds : Holds [token] (node token [regroup none root]) s
      ⟨regroup none root :: s.operands, token :: s.waiting⟩ :=
    (Holds.refl _ ⟨s.operands, token :: s.waiting⟩).join joined
  exact ⟨_, (addAll_cons (add_prefixed kind defined) _).trans group,
    holds.toOpening_eq (by simpa using defined) opens⟩

theorem within_infixed {left right : Tree} {first second : List Token}
    (kind : token.kind = .operator .infixOp) (defined : token.IsDefined Operators.standard)
    (left_ih : Rereads functions first (.tree left)) (ih : Rereads functions second (.tree right))
    (start : previous ≠ some .function)
    (opens : ∀ top ∈ s.waiting.head?, top.kind.isOpening = true) :
    Within Operators.standard functions previous (first ++ token :: second)
      [node token [regroup none left, regroup none right]] s := by
  obtain ⟨mapping, isMapping⟩ := Option.isSome_iff_exists.mp defined
  have begins : Begins Operators.standard s.waiting := begins_of_isOpening opens
  obtain ⟨-, t, readLeft, leftHolds⟩ := left_ih none previous s (by simp [IsField]) start begins
  have reduced : reduce (bindsBefore Operators.standard mapping) t.operands t.waiting =
      .ok ⟨regroup none left :: s.operands, s.waiting⟩ := by
    rw [leftHolds _ (by simp) fun top isField => by simp [bindsBefore, isField]]
    apply reduce_of_not_ready
    intro top isTop
    cases topKind : top.kind <;> simp_all [bindsBefore, Kind.isOpening]
  obtain ⟨-, u, read, holds⟩ := ih none (some token.kind)
    ⟨regroup none left :: s.operands, token :: s.waiting⟩ (by simp [IsField]) (by simp [kind])
    (begins_cons (.inr defined) _)
  have joined : Joined token (regroup none right :: regroup none left :: s.operands)
      (node token [regroup none left, regroup none right] :: s.operands) :=
    .binary (by simp [kind, Kind.isBinary]) ih.real left_ih.real
  exact ⟨u, (addAll_append readLeft _).trans ((addAll_cons (add_infixed kind isMapping reduced) _).trans
    read), (holds.join joined).toOpening_eq (by simpa using defined) opens⟩

/-- A group takes the place of an operand, also after a point. -/
theorem Rereads.addAll_operand (h : Rereads functions tokens (.tree root))
    (isOpening : opening.kind = .opening .paren) (isClosing : closing.kind = .closing .paren)
    (isField : IsField pending) (start : previous ≠ some .function)
    (begins : Begins Operators.standard s.waiting) :
    ∃ t, addAll Operators.standard functions previous (s.awaiting pending)
        (opening :: tokens ++ [closing]) = .ok t ∧ Holds [] (under pending (regroup none root)) s t :=
  ⟨_, h.addAll_group isOpening isClosing start (not_function_awaiting isField begins),
    (Holds.refl _ (s.awaiting pending)).under isField h.real⟩

/-- What is read between parentheses is an operand. -/
theorem rereads_enclosed (other : token.kind.isAccess = false) {children : List Tree}
    (real : ¬(node token (children.map (regroup none))).isMark)
    (isOpening : opening.kind = .opening .paren) (isClosing : closing.kind = .closing .paren)
    (within : ∀ s : Stacks, (∀ top ∈ s.waiting.head?, top.kind.isOpening = true) →
      Within Operators.standard functions (some (.opening .paren)) tokens
        [node token (children.map (regroup none))] s) :
    Rereads functions (opening :: tokens ++ [closing]) (.tree (node token children)) := by
  intro pending previous s isField start begins
  rw [regroup_other other]
  refine ⟨not_isMark_under isField real, ?_⟩
  have inside := within ⟨(s.awaiting pending).operands, opening :: (s.awaiting pending).waiting⟩
    (by simp [isOpening, Kind.isOpening])
  rw [← isOpening] at inside
  exact ⟨_, inside.addAll_group isOpening isClosing start (not_function_awaiting isField begins),
    (Holds.refl _ (s.awaiting pending)).under isField real⟩

theorem rereads_field {object operand : Tree} {first second : List Token} (kind : token.kind = .field)
    (isOpening : opening.kind = .opening .paren) (isClosing : closing.kind = .closing .paren)
    (object_ih : Rereads functions first (.tree object))
    (ih : Rereads functions second (.tree operand)) :
    Rereads functions (opening :: (first ++ closing :: token :: second))
      (.tree (node token [object, operand])) := by
  intro pending previous s isField start begins
  obtain ⟨t, readObject, holds⟩ := object_ih.addAll_operand isOpening isClosing isField start begins
  have isNext : IsField (some (under pending (regroup none object), token)) := by
    rintro p ⟨⟩
    exact ⟨kind, not_isMark_under isField object_ih.real⟩
  obtain ⟨real, u, read, result⟩ := ih _ (some token.kind) s isNext (by simp [kind]) begins
  rw [regroup_field kind]
  refine ⟨real, u, ?_, result⟩
  have whole := (addAll_append readObject (token :: second)).trans
    ((addAll_cons (add_field kind (holds.fields_eq begins)) second).trans read)
  simpa using whole

theorem rereads_access {bracket bracketEnd : Token} {shape : Bracket} {object key : Tree}
    {first second : List Token} (isOpening : opening.kind = .opening .paren)
    (isClosing : closing.kind = .closing .paren) (notParen : shape ≠ .paren)
    (isBracket : bracket.kind = .opening shape) (isBracketEnd : bracketEnd.kind = .closing shape)
    (isAccess : bracket.content? = some token) (object_ih : Rereads functions first (.tree object))
    (ih : Rereads functions second (.tree key)) :
    Rereads functions (opening :: (first ++ closing :: bracket :: (second ++ [bracketEnd])))
      (.tree (node token [object, key])) := by
  intro pending previous s isField start begins
  obtain ⟨t, readObject, holds⟩ := object_ih.addAll_operand isOpening isClosing isField start begins
  have kind := Token.kind_of_content? isBracket isAccess
  have within : Within Operators.standard functions (some bracket.kind) second [regroup none key]
      ⟨under pending (regroup none object) :: s.operands, bracket :: token :: s.waiting⟩ := by
    apply ih.within (by simp [isBracket])
    simp [isBracket, Kind.isOpening]
  have whole := (addAll_append readObject (bracket :: second ++ [bracketEnd])).trans
    (within.addAll_access notParen isBracket isBracketEnd isAccess (holds.fields_eq begins)
      (not_isMark_under isField object_ih.real) ih.real)
  rw [regroup_access kind]
  refine ⟨?_, _, by simpa using whole, .refl _ s⟩
  rcases kind with kind | kind <;> simp [isMark, Tree.kind, Tree.token, kind]

theorem rereads_call {arguments : List Tree} (kind : token.kind = .function)
    (isOpening : opening.kind = .opening .paren) (isClosing : closing.kind = .closing .paren)
    (known : functions.has token.span.text = true)
    (accepted : functions.accepts token.span.text arguments.length = true)
    (ih : Rereads functions tokens (.arguments arguments)) :
    Rereads functions (token :: opening :: (tokens ++ [closing])) (.tree (node token arguments)) := by
  intro pending previous s isField start begins
  rw [regroup_other (by simp [kind, Kind.isAccess])]
  have real : ¬(node token (arguments.map (regroup none))).isMark := by
    simp [isMark, Tree.kind, Tree.token, kind]
  have within := ih.2 (some opening.kind)
    ⟨leaf { opening with kind := .argumentsStart } :: (s.awaiting pending).operands,
      opening :: token :: (s.awaiting pending).waiting⟩ (by simp [isOpening])
    (by simp [isOpening, Kind.isOpening])
  have whole := @Within.addAll_call Operators.standard functions previous (s.awaiting pending) tokens
    opening closing token (arguments.map (regroup none)) within kind isOpening isClosing known
    (by simpa using accepted) (by simpa using ih.1)
  exact ⟨not_isMark_under isField real, _, by simpa using whole,
    (Holds.refl _ (s.awaiting pending)).under isField real⟩

theorem rereads_nextArgument {argument : Tree} {arguments : List Tree} {first rest : List Token}
    {comma : Token} (isComma : comma.kind = .comma) (ih : Rereads functions first (.tree argument))
    (rest_ih : Rereads functions rest (.arguments arguments)) :
    Rereads functions (first ++ comma :: rest) (.arguments (argument :: arguments)) := by
  refine ⟨by simpa using ⟨ih.real, by simpa using rest_ih.1⟩, ?_⟩
  intro previous s start opens
  obtain ⟨t, readFirst, closes⟩ := ih.within start opens
  obtain ⟨u, read, result⟩ := rest_ih.2 (some comma.kind)
    ⟨regroup none argument :: s.operands, s.waiting⟩ (by simp [isComma]) opens
  refine ⟨u, (addAll_append readFirst _).trans ((addAll_cons ((add_comma isComma).trans closes)
    rest).trans read), ?_⟩
  simpa using result

end Bracketed

theorem all_child {holds : Tree → Prop} {token : Token} {children : List Tree} {child : Tree}
    (all : ∀ tree ∈ (Phrase.tree (node token children)).trees, FieldOperands holds tree)
    (isChild : child ∈ children) : ∀ tree ∈ (Phrase.tree child).trees, FieldOperands holds tree := by
  intro tree member
  obtain rfl := List.mem_singleton.mp member
  exact (all _ (List.mem_singleton.mpr rfl)).child isChild

theorem rereads_of_written {phrase : Phrase} {tokens : List Token}
    (h : Written functions phrase tokens)
    (apart : ∀ tree ∈ phrase.trees, FieldOperands (fun operand => ¬operand.IsDigitLed) tree) :
    Rereads functions tokens phrase := by
  induction h with
  | @leaf token isLeaf =>
    intro pending previous s isField _ _
    have real := not_isMark_of_isLeaf isLeaf
    have other : token.kind.isAccess = false := by
      rcases isLeaf with kind | kind | kind <;> simp [kind, Kind.isAccess]
    rw [Tree.leaf, regroup_other other]
    exact ⟨not_isMark_under isField real, _, addAll_cons (add_leaf isLeaf) [],
      (Holds.refl _ (s.awaiting pending)).under isField real⟩
  | @prefixed token outer inner innerEnd outerEnd operand tokens kind defined isOuter isInner isInnerEnd
      isOuterEnd _ ih =>
    have ih := ih (all_child apart (by simp))
    have enclosed := @rereads_enclosed functions (token :: (inner :: tokens ++ [innerEnd])) token outer
      outerEnd (by simp [kind, Kind.isAccess]) [operand]
      (by simp [isMark, Tree.kind, Tree.token, kind]) isOuter isOuterEnd
      fun s opens => within_prefixed kind defined isInner isInnerEnd ih opens
    simpa using enclosed
  | @infixed token opening closing left right first second kind defined isOpening isClosing _ _ left_ih
      ih =>
    have left_ih := left_ih (all_child apart (by simp))
    have ih := ih (all_child apart (by simp))
    have enclosed := @rereads_enclosed functions (first ++ token :: second) token opening closing
      (by simp [kind, Kind.isAccess]) [left, right]
      (by simp [isMark, Tree.kind, Tree.token, kind]) isOpening isClosing
      fun s opens => within_infixed kind defined left_ih ih (by simp) opens
    simpa using enclosed
  | field kind isOpening isClosing _ _ _ object_ih ih =>
    exact rereads_field kind isOpening isClosing (object_ih (all_child apart (by simp)))
      (ih (all_child apart (by simp)))
  | @merged token _ _ object operand _ _ kind _ _ digitLed =>
    have whole : FieldOperands (fun operand => ¬operand.IsDigitLed) (node token [object, operand]) :=
      apart _ (by simp [Phrase.trees])
    exact absurd digitLed ((fieldOperands_node.mp whole).1 kind operand (by simp))
  | access isOpening isClosing square isBracket isBracketEnd isAccess _ _ object_ih ih =>
    exact rereads_access isOpening isClosing square isBracket isBracketEnd isAccess
      (object_ih (all_child apart (by simp))) (ih (all_child apart (by simp)))
  | call kind known accepted isOpening isClosing _ ih =>
    apply rereads_call kind isOpening isClosing known accepted
    exact ih fun tree member => (apart _ (List.mem_singleton.mpr rfl)).child member
  | noArgument =>
    refine ⟨by simp, ?_⟩
    intro previous s _ opens
    exact ⟨s, rfl, reduce_of_not_ready (fun top isTop => by simp [opens top isTop]) _⟩
  | lastArgument _ ih =>
    have ih := ih apart
    exact ⟨by simpa using ih.real, fun previous s start opens => ih.within start opens⟩
  | nextArgument isComma _ _ ih rest_ih =>
    apply rereads_nextArgument isComma
    · exact ih fun tree member => apart tree (by simp_all [Phrase.trees])
    · exact rest_ih fun tree member => apart tree (by simp_all [Phrase.trees])

end Stacks

/-- The tokens of the text of a tree are read as the tree that is grouped again. -/
theorem ofTokens_of_written {functions : FunctionArity} {tree : Tree} {tokens : List Token}
    (h : Written functions (.tree tree) tokens)
    (apart : FieldOperands (fun operand => ¬operand.IsDigitLed) tree) (source : String) :
    ofTokens Operators.standard functions source tokens = .ok (regroup none tree) := by
  have reads := Stacks.rereads_of_written h (by simpa [Phrase.trees] using apart)
  obtain ⟨real, t, read, holds⟩ := reads none none {} (by simp [Stacks.IsField]) (by simp)
    (by simp [Stacks.Begins])
  exact ofTokens_of_holds read holds real source

end Tree

end Formulary
