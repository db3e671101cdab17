import Formulary.Proofs.Tree.Grouping
import Formulary.Proofs.Tree.Stacks

set_option autoImplicit false

/-!
# Reading groups operators by precedence and associativity

While an expression is read, the operators at its right end wait, and what stands below on the
stacks is not touched. So what matters of the stacks after an expression is only what joining those
operators makes of them.
-/

namespace Formulary.Tree.Stacks

variable {operators : Operators} {functions : FunctionArity}

/-- Once the operators in `spine` and fields are joined, `tree` is the latest operand above `s`. -/
def Holds (spine : List Token) (tree : Tree) (s t : Stacks) : Prop :=
  ∀ ready : Token → Except SyntaxError Bool,
    (∀ token ∈ spine, ready token = .ok true) →
    (∀ token : Token, token.kind = .field → ready token = .ok true) →
    reduce ready t.operands t.waiting = reduce ready (tree :: s.operands) s.waiting

/-- An operand may begin: no field waits for its name. -/
def Begins (operators : Operators) (waiting : List Token) : Prop :=
  ∀ top ∈ waiting.head?, top.kind.isOpening = true ∨ top.IsDefined operators

theorem reduce_of_ready {ready : Token → Except SyntaxError Bool} {token : Token}
    (isReady : ready token = .ok true) {operands joined : List Tree}
    (result : Joined token operands joined) (waiting : List Token) :
    reduce ready operands (token :: waiting) = reduce ready joined waiting := by
  rw [reduce, isReady]
  change (join token operands).bind _ = _
  rw [join_eq_ok_iff.mpr result]
  rfl

theorem reduce_of_not_ready {ready : Token → Except SyntaxError Bool} {waiting : List Token}
    (stop : ∀ top ∈ waiting.head?, ready top = .ok false) (operands : List Tree) :
    reduce ready operands waiting = .ok ⟨operands, waiting⟩ := by
  cases waiting with
  | nil => rfl
  | cons top below =>
    rw [reduce, stop top rfl]
    rfl

theorem mapping_eq_ok {token : Token} {mapping : Mapping}
    (h : token.mapping? operators = some mapping) :
    Stacks.mapping operators token = .ok mapping := by
  rw [Token.mapping?] at h
  rw [Stacks.mapping, h]

theorem mapping?_eq_some {token : Token} {mapping : Mapping}
    (h : Stacks.mapping operators token = .ok mapping) :
    token.mapping? operators = some mapping := by
  rw [Stacks.mapping] at h
  rw [Token.mapping?]
  split at h
  next found =>
    cases h
    exact found
  next => cases h

theorem bindsBefore_operator {token : Token} {first next : Mapping}
    (h : token.mapping? operators = some first) :
    bindsBefore operators next token = .ok (decide (next.precedence < first.precedence) ||
      (next.leftAssociative && first.precedence == next.precedence)) := by
  have isOperator : ∃ role, token.kind = .operator role := by
    cases kind : token.kind with
    | operator role => exact ⟨role, rfl⟩
    | _ => simp [Token.mapping?, kind, Kind.role?] at h
  obtain ⟨role, kind⟩ := isOperator
  simp only [bindsBefore, kind]
  change (Stacks.mapping operators token).bind _ = _
  rw [mapping_eq_ok h]
  rfl

theorem bindsBefore_of_binds {first next : Token} {mapping : Mapping}
    (isNext : next.mapping? operators = some mapping) (h : first.Binds operators next) :
    bindsBefore operators mapping first = .ok true := by
  obtain ⟨f, isFirst, n, isNext', bound⟩ := h
  obtain rfl : mapping = n := Option.mem_unique isNext isNext'
  rw [bindsBefore_operator isFirst]
  rcases bound with tighter | ⟨alike, left⟩
  · simp [tighter]
  · simp [alike, left]

/-- What is joined before an operator binds to its operands. -/
theorem binds_of_bindsBefore {token next : Token} {mapping : Mapping} {role : Role}
    (kind : token.kind = .operator role)
    (isNext : Stacks.mapping operators next = .ok mapping)
    (h : bindsBefore operators mapping token = .ok true) : token.Binds operators next := by
  have isNext := mapping?_eq_some isNext
  simp only [bindsBefore, kind] at h
  obtain ⟨first, isFirst, bound⟩ := bind_eq_ok_iff.mp h
  refine ⟨first, mapping?_eq_some isFirst, mapping, isNext, ?_⟩
  have bound : (decide (mapping.precedence < first.precedence) ||
      (mapping.leftAssociative && first.precedence == mapping.precedence)) = true :=
    Except.ok.inj bound
  simp only [Bool.or_eq_true, decide_eq_true_eq, Bool.and_eq_true, beq_iff_eq] at bound
  exact bound.imp_right And.symm

theorem bindsBefore_of_not_binds {next : Token} {mapping : Mapping} {waiting : List Token}
    (isNext : next.mapping? operators = some mapping) (begins : Begins operators waiting)
    (looser : ∀ top ∈ waiting.head?, ¬top.Binds operators next) :
    ∀ top ∈ waiting.head?, bindsBefore operators mapping top = .ok false := by
  intro top isTop
  rcases begins top isTop with opens | defined
  · cases kind : top.kind <;> simp_all [bindsBefore, Kind.isOpening]
  · obtain ⟨f, isFirst⟩ := Option.isSome_iff_exists.mp defined
    rw [bindsBefore_operator isFirst]
    congr
    rw [Bool.or_eq_false_iff, decide_eq_false_iff_not, Bool.and_eq_false_imp, beq_eq_false_iff_ne]
    constructor
    · intro tighter
      exact looser top isTop ⟨f, isFirst, mapping, isNext, .inl tighter⟩
    · intro left alike
      exact looser top isTop ⟨f, isFirst, mapping, isNext, .inr ⟨alike, left⟩⟩

theorem isOperator_of_isDefined {token : Token} (h : token.IsDefined operators) :
    ∃ role, token.kind = .operator role := by
  cases kind : token.kind with
  | operator role => exact ⟨role, rfl⟩
  | _ => simp [Token.IsDefined, Token.mapping?, kind, Kind.role?] at h

theorem Holds.refl (tree : Tree) (s : Stacks) : Holds [] tree s ⟨tree :: s.operands, s.waiting⟩ :=
  fun _ _ _ => rfl

theorem Holds.fields_eq {tree : Tree} {s t : Stacks} (h : Holds [] tree s t)
    (begins : Begins operators s.waiting) : t.fields = .ok ⟨tree :: s.operands, s.waiting⟩ := by
  rw [fields, reduceWhile, h _ (by simp) (by simp)]
  apply reduce_of_not_ready ?_ _
  intro top isTop
  rcases begins top isTop with opens | defined
  · cases kind : top.kind <;> simp_all [Kind.isOpening]
  · obtain ⟨role, kind⟩ := isOperator_of_isDefined defined
    simp [kind]

theorem Holds.toOpening_eq {spine : List Token} {tree : Tree} {s t : Stacks}
    (h : Holds spine tree s t) (defined : ∀ token ∈ spine, token.IsDefined operators)
    (opens : ∀ top ∈ s.waiting.head?, top.kind.isOpening = true) :
    t.toOpening = .ok ⟨tree :: s.operands, s.waiting⟩ := by
  rw [toOpening, reduceWhile, h]
  · exact reduce_of_not_ready (fun top isTop => by simp [opens top isTop]) _
  · intro token inSpine
    obtain ⟨role, kind⟩ := isOperator_of_isDefined (defined token inSpine)
    simp [kind, Kind.isOpening]
  · intro token isField
    simp [isField, Kind.isOpening]

/-- The operator that has just been put on the stack joins what follows it. -/
theorem Holds.join {spine : List Token} {tree joined : Tree} {operator : Token} {s t : Stacks}
    {operands : List Tree} (h : Holds spine tree ⟨operands, operator :: s.waiting⟩ t)
    (result : Joined operator (tree :: operands) (joined :: s.operands)) :
    Holds (operator :: spine) joined s t := by
  intro ready inSpine isField
  rw [h ready (fun token member => inSpine token (by simp [member])) isField]
  exact reduce_of_ready (inSpine operator (by simp)) result s.waiting

theorem addAll_cons {previous : Option Kind} {token : Token} {s between : Stacks}
    (h : s.add operators functions previous token = .ok between) (tokens : List Token) :
    addAll operators functions previous s (token :: tokens) =
      addAll operators functions (some token.kind) between tokens := by
  rw [addAll]
  change (s.add operators functions previous token).bind _ = _
  rw [h]
  rfl

theorem addAll_append {previous : Option Kind} {first : List Token} {s between : Stacks}
    (h : addAll operators functions previous s first = .ok between) (second : List Token) :
    addAll operators functions previous s (first ++ second) =
      addAll operators functions (lastKind previous first) between second := by
  induction first generalizing previous s with
  | nil =>
    cases h
    rfl
  | cons token first ih =>
    obtain ⟨next, added, h⟩ := addAll_cons_eq_ok.mp h
    rw [List.cons_append, addAll_cons added, ih h]
    rfl

section Add

variable {previous : Option Kind} {token : Token} {s : Stacks}

theorem add_leaf (leaf : token.IsLeaf) :
    s.add operators functions previous token = .ok ⟨.leaf token :: s.operands, s.waiting⟩ := by
  rcases leaf with kind | kind | kind <;> simp [add, kind]

theorem add_function (kind : token.kind = .function) :
    s.add operators functions previous token = .ok ⟨s.operands, token :: s.waiting⟩ := by
  simp [add, kind]

theorem add_comma (kind : token.kind = .comma) :
    s.add operators functions previous token = s.toOpening := by
  simp [add, kind]

theorem add_prefixed (kind : token.kind = .operator .prefixOp) (defined : token.IsDefined operators) :
    s.add operators functions previous token = .ok ⟨s.operands, token :: s.waiting⟩ := by
  obtain ⟨mapping, isMapping⟩ := Option.isSome_iff_exists.mp defined
  simp only [add, kind]
  rw [addOperator_prefixed kind, mapping_eq_ok isMapping]
  rfl

theorem add_infixed (kind : token.kind = .operator .infixOp) {mapping : Mapping}
    (isMapping : token.mapping? operators = some mapping) {t : Stacks}
    (reduced : reduce (bindsBefore operators mapping) s.operands s.waiting = .ok t) :
    s.add operators functions previous token = .ok ⟨t.operands, token :: t.waiting⟩ := by
  simp only [add, kind]
  rw [addOperator_of_ne (by simp [kind]), mapping_eq_ok isMapping]
  change (reduce (bindsBefore operators mapping) s.operands s.waiting).bind _ = _
  rw [reduced]
  rfl

theorem add_field (kind : token.kind = .field) {t : Stacks} (reduced : s.fields = .ok t) :
    s.add operators functions previous token = .ok ⟨t.operands, token :: t.waiting⟩ := by
  simp only [add, kind]
  change s.fields.bind _ = _
  rw [reduced]
  rfl

theorem add_openGroup (kind : token.kind = .opening .paren) (group : previous ≠ some .function) :
    s.add operators functions previous token = .ok ⟨s.operands, token :: s.waiting⟩ := by
  simp [add, kind, openParen, group]

theorem add_openCall (kind : token.kind = .opening .paren) :
    s.add operators functions (some .function) token =
      .ok ⟨leaf { token with kind := .argumentsStart } :: s.operands, token :: s.waiting⟩ := by
  simp [add, kind, openParen]

theorem add_openAccess {access : Token} {bracket : Bracket} (kind : token.kind = .opening bracket)
    (square : bracket ≠ .paren) (isAccess : token.content? = some access) {t : Stacks}
    (reduced : s.fields = .ok t) :
    s.add operators functions previous token =
      .ok ⟨t.operands, token :: access :: t.waiting⟩ := by
  cases bracket with
  | paren => exact absurd rfl square
  | square | curly =>
    simp only [Token.content?, kind] at isAccess
    cases isAccess
    simp only [add, kind]
    change s.fields.bind _ = _
    rw [reduced]
    rfl

theorem add_closeGroup (kind : token.kind = .closing .paren) {operands : List Tree}
    {opening : Token} {waiting : List Token}
    (reduced : s.toOpening = .ok ⟨operands, opening :: waiting⟩)
    (group : ∀ top ∈ waiting.head?, top.kind ≠ .function) :
    s.add operators functions previous token = .ok ⟨operands, waiting⟩ := by
  simp only [add, kind]
  change s.toOpening.bind _ = _
  rw [reduced]
  cases waiting with
  | nil => rfl
  | cons top below => exact if_neg (group top rfl)

theorem arguments_eq {taken : List Tree} (real : ∀ tree ∈ taken, ¬tree.isMark) {mark : Tree}
    (isMark : mark.isMark) (function : Token) (found rest : List Tree) :
    arguments function found (taken ++ mark :: rest) = .ok (taken.reverse ++ found, rest) := by
  induction taken generalizing found with
  | nil => simp [arguments, isMark]
  | cons top taken ih =>
    obtain ⟨realTop, real⟩ := List.forall_mem_cons.mp real
    rw [List.cons_append, arguments, if_neg realTop, ih real]
    simp

theorem add_closeCall (kind : token.kind = .closing .paren) {taken rest : List Tree} {mark : Tree}
    {opening function : Token} {waiting : List Token}
    (reduced : s.toOpening = .ok ⟨taken ++ mark :: rest, opening :: function :: waiting⟩)
    (isFunction : function.kind = .function) (real : ∀ tree ∈ taken, ¬tree.isMark)
    (isMark : mark.isMark) (known : functions.has function.span.text = true)
    (accepted : functions.accepts function.span.text taken.length = true) :
    s.add operators functions previous token =
      .ok ⟨node function taken.reverse :: rest, waiting⟩ := by
  have called : call functions function (taken ++ mark :: rest) =
      .ok (node function taken.reverse :: rest) := by
    rw [call, arguments_eq real isMark]
    simp [known, accepted, bind, Except.bind, pure, Except.pure]
  simp only [add, kind]
  change s.toOpening.bind _ = _
  rw [reduced]
  change (if function.kind = .function then _ else _) = _
  rw [if_pos isFunction]
  change (call functions function (taken ++ mark :: rest)).bind _ = _
  rw [called]
  rfl

theorem add_closeAccess {bracket : Bracket} (kind : token.kind = .closing bracket)
    (square : bracket ≠ .paren) {operands joined : List Tree} {opening access : Token}
    {waiting : List Token} (reduced : s.toOpening = .ok ⟨operands, opening :: access :: waiting⟩)
    (result : Joined access operands joined) :
    s.add operators functions previous token = .ok ⟨joined, waiting⟩ := by
  have closes : s.add operators functions previous token = s.closeAccess token := by
    cases bracket with
    | paren => exact absurd rfl square
    | square | curly => simp [add, kind]
  rw [closes]
  change s.toOpening.bind _ = _
  rw [reduced]
  change (join access operands).bind _ = _
  rw [join_eq_ok_iff.mpr result]
  rfl

end Add

theorem not_isMark_of_groups {tokens : List Token} {meaning : Meaning}
    (h : Groups operators functions tokens meaning) : ∀ tree ∈ meaning.trees, ¬tree.isMark := by
  induction h with
  | leaf leaf =>
    rcases leaf with kind | kind | kind <;>
      simp [Meaning.trees, Tree.leaf, Tree.kind, Tree.token, kind]
  | group _ _ _ ih => exact ih
  | call isFunction => simp [Meaning.trees, Tree.kind, Tree.token, isFunction]
  | access _ isOpening _ isAccess =>
    have binary := Token.isBinary_of_content? isOpening isAccess
    simp only [Meaning.trees, List.mem_singleton, forall_eq]
    intro mark
    rw [isMark, Tree.kind, Tree.token] at mark
    simp [mark, Kind.isBinary] at binary
  | field isField => simp [Meaning.trees, Tree.kind, Tree.token, isField]
  | prefixed isPrefix => simp [Meaning.trees, Tree.kind, Tree.token, isPrefix]
  | infixed isInfix => simp [Meaning.trees, Tree.kind, Tree.token, isInfix]
  | noArgument => simp [Meaning.trees]
  | firstArgument _ ih => exact ih
  | nextArgument _ _ _ before_ih ih =>
    exact List.forall_mem_append.mpr ⟨before_ih, ih⟩

/-- What reading tokens does that stand for something. The stacks before may hold anything that does
not take the operands of the expression away from its root. -/
def Reads (operators : Operators) (functions : FunctionArity) (tokens : List Token) :
    Meaning → Prop
  | .expression tree root spine => ∀ (previous : Option Kind) (s : Stacks),
      previous ≠ some .function → Begins operators s.waiting →
      (∀ next ∈ root, ∀ top ∈ s.waiting.head?, ¬top.Binds operators next) →
      ∃ t, addAll operators functions previous s tokens = .ok t ∧ Holds spine tree s t
  | .arguments trees => ∀ (previous : Option Kind) (s : Stacks),
      previous ≠ some .function → (∀ top ∈ s.waiting.head?, top.kind.isOpening = true) →
      ∃ t, addAll operators functions previous s tokens = .ok t ∧
        t.toOpening = .ok ⟨trees.reverse ++ s.operands, s.waiting⟩

theorem not_binds_of_isOpening {token next : Token} (opens : token.kind.isOpening = true) :
    ¬token.Binds operators next := by
  rintro ⟨f, isFirst, -⟩
  obtain ⟨role, kind⟩ := isOperator_of_isDefined (Option.isSome_iff_exists.mpr ⟨f, isFirst⟩)
  simp [kind, Kind.isOpening] at opens

theorem begins_of_isOpening {waiting : List Token}
    (opens : ∀ top ∈ waiting.head?, top.kind.isOpening = true) : Begins operators waiting :=
  fun top isTop => .inl (opens top isTop)

/-- An expression behind a bracket or a comma is read whatever its root is. -/
theorem Reads.within {tokens spine : List Token} {tree : Tree} {root : Option Token}
    (h : Reads operators functions tokens (.expression tree root spine))
    (groups : Groups operators functions tokens (.expression tree root spine))
    (previous : Option Kind) (s : Stacks) (start : previous ≠ some .function)
    (opens : ∀ top ∈ s.waiting.head?, top.kind.isOpening = true) :
    ∃ t, addAll operators functions previous s tokens = .ok t ∧
      t.toOpening = .ok ⟨tree :: s.operands, s.waiting⟩ := by
  obtain ⟨t, read, holds⟩ := h previous s start (begins_of_isOpening opens)
    (fun _ _ top isTop => not_binds_of_isOpening (opens top isTop))
  exact ⟨t, read, holds.toOpening_eq (groups.isDefined_of_mem_spine rfl) opens⟩

theorem Begins.not_function {waiting : List Token} (begins : Begins operators waiting) :
    ∀ top ∈ waiting.head?, top.kind ≠ .function := by
  intro top isTop kind
  rcases begins top isTop with opens | defined
  · simp [kind, Kind.isOpening] at opens
  · obtain ⟨role, isOperator⟩ := isOperator_of_isDefined defined
    simp [kind] at isOperator

theorem begins_cons {token : Token} (begins : token.kind.isOpening = true ∨ token.IsDefined operators)
    (waiting : List Token) : Begins operators (token :: waiting) := by
  rintro top ⟨⟩
  exact begins

section Brackets

variable {previous : Option Kind} {s t : Stacks} {tokens spine : List Token} {tree : Tree}
  {root : Option Token} {opening closing : Token}

/-- Above `s`, where a bracket has been opened, tokens are read as `trees`, the latest first. -/
def Within (operators : Operators) (functions : FunctionArity) (previous : Option Kind)
    (tokens : List Token) (trees : List Tree) (s : Stacks) : Prop :=
  ∃ t, addAll operators functions previous s tokens = .ok t ∧
    t.toOpening = .ok ⟨trees ++ s.operands, s.waiting⟩

theorem Within.addAll_group
    (h : Within operators functions (some opening.kind) tokens [tree]
      ⟨s.operands, opening :: s.waiting⟩)
    (isOpening : opening.kind = .opening .paren) (isClosing : closing.kind = .closing .paren)
    (start : previous ≠ some .function) (group : ∀ top ∈ s.waiting.head?, top.kind ≠ .function) :
    addAll operators functions previous s (opening :: tokens ++ [closing]) =
      .ok ⟨tree :: s.operands, s.waiting⟩ := by
  obtain ⟨t, read, closes⟩ := h
  rw [List.cons_append, addAll_cons (add_openGroup isOpening start), addAll_append read,
    addAll_cons (add_closeGroup isClosing closes group)]
  rfl

theorem Within.addAll_call {function : Token} {trees : List Tree}
    (h : Within operators functions (some opening.kind) tokens trees.reverse
      ⟨leaf { opening with kind := .argumentsStart } :: s.operands, opening :: function :: s.waiting⟩)
    (isFunction : function.kind = .function) (isOpening : opening.kind = .opening .paren)
    (isClosing : closing.kind = .closing .paren)
    (known : functions.has function.span.text = true)
    (accepted : functions.accepts function.span.text trees.length = true)
    (real : ∀ tree ∈ trees, ¬tree.isMark) :
    addAll operators functions previous s (function :: opening :: tokens ++ [closing]) =
      .ok ⟨node function trees :: s.operands, s.waiting⟩ := by
  obtain ⟨t, read, closes⟩ := h
  have realReverse : ∀ tree ∈ trees.reverse, ¬tree.isMark := by
    intro tree member
    exact real tree (List.mem_reverse.mp member)
  rw [List.cons_append, List.cons_append, addAll_cons (add_function isFunction), isFunction,
    addAll_cons (add_openCall isOpening), addAll_append read,
    addAll_cons (add_closeCall isClosing closes isFunction realReverse rfl known
      (by simpa using accepted)), List.reverse_reverse]
  rfl

theorem Within.addAll_access {object : Tree} {access : Token} {bracket : Bracket}
    (h : Within operators functions (some opening.kind) tokens [tree]
      ⟨object :: s.operands, opening :: access :: s.waiting⟩)
    (square : bracket ≠ .paren) (isOpening : opening.kind = .opening bracket)
    (isClosing : closing.kind = .closing bracket) (isAccess : opening.content? = some access)
    (fields : t.fields = .ok ⟨object :: s.operands, s.waiting⟩)
    (realObject : ¬object.isMark) (real : ¬tree.isMark) :
    addAll operators functions previous t (opening :: tokens ++ [closing]) =
      .ok ⟨node access [object, tree] :: s.operands, s.waiting⟩ := by
  obtain ⟨u, read, closes⟩ := h
  have joined : Joined access (tree :: object :: s.operands)
      (node access [object, tree] :: s.operands) :=
    .binary (Token.isBinary_of_content? isOpening isAccess) real realObject
  rw [List.cons_append, addAll_cons (add_openAccess isOpening square isAccess fields),
    addAll_append read, addAll_cons (add_closeAccess isClosing square closes joined)]
  rfl

theorem addAll_group (isOpening : opening.kind = .opening .paren)
    (isClosing : closing.kind = .closing .paren)
    (groups : Groups operators functions tokens (.expression tree root spine))
    (ih : Reads operators functions tokens (.expression tree root spine))
    (start : previous ≠ some .function) (begins : Begins operators s.waiting) :
    addAll operators functions previous s (opening :: tokens ++ [closing]) =
      .ok ⟨tree :: s.operands, s.waiting⟩ := by
  have within := ih.within groups (some opening.kind) ⟨s.operands, opening :: s.waiting⟩
    (by simp [isOpening]) (by simp [isOpening, Kind.isOpening])
  exact Within.addAll_group within isOpening isClosing start begins.not_function

theorem addAll_call {function : Token} {trees : List Tree} (isFunction : function.kind = .function)
    (isOpening : opening.kind = .opening .paren) (isClosing : closing.kind = .closing .paren)
    (known : functions.has function.span.text = true)
    (accepted : functions.accepts function.span.text trees.length = true)
    (groups : Groups operators functions tokens (.arguments trees))
    (ih : Reads operators functions tokens (.arguments trees)) :
    addAll operators functions previous s (function :: opening :: tokens ++ [closing]) =
      .ok ⟨node function trees :: s.operands, s.waiting⟩ := by
  have within := ih (some opening.kind)
    ⟨leaf { opening with kind := .argumentsStart } :: s.operands,
      opening :: function :: s.waiting⟩
    (by simp [isOpening]) (by simp [isOpening, Kind.isOpening])
  exact Within.addAll_call within isFunction isOpening isClosing known accepted
    (not_isMark_of_groups groups)

theorem addAll_access {object key : List Token} {objectTree : Tree} {access : Token}
    {bracket : Bracket} (square : bracket ≠ .paren) (isOpening : opening.kind = .opening bracket)
    (isClosing : closing.kind = .closing bracket) (isAccess : opening.content? = some access)
    (objectGroups : Groups operators functions object (.expression objectTree none []))
    (groups : Groups operators functions key (.expression tree root spine))
    (object_ih : Reads operators functions object (.expression objectTree none []))
    (ih : Reads operators functions key (.expression tree root spine))
    (start : previous ≠ some .function) (begins : Begins operators s.waiting) :
    addAll operators functions previous s (object ++ opening :: key ++ [closing]) =
      .ok ⟨node access [objectTree, tree] :: s.operands, s.waiting⟩ := by
  obtain ⟨t, readObject, holds⟩ := object_ih previous s start begins (by simp)
  have within := ih.within groups (some opening.kind)
    ⟨objectTree :: s.operands, opening :: access :: s.waiting⟩ (by simp [isOpening])
    (by simp [isOpening, Kind.isOpening])
  rw [List.append_assoc, addAll_append readObject]
  exact Within.addAll_access within square isOpening isClosing isAccess (holds.fields_eq begins)
    (not_isMark_of_groups objectGroups objectTree (by simp [Meaning.trees]))
    (not_isMark_of_groups groups tree (by simp [Meaning.trees]))

end Brackets

theorem reads_of_groups {tokens : List Token} {meaning : Meaning}
    (h : Groups operators functions tokens meaning) :
    Reads operators functions tokens meaning := by
  induction h with
  | leaf leaf =>
    intro previous s _ _ _
    exact ⟨_, addAll_cons (add_leaf leaf) [], .refl _ s⟩
  | group isOpening isClosing groups ih =>
    intro previous s start begins _
    exact ⟨_, addAll_group isOpening isClosing groups ih start begins, .refl _ s⟩
  | call isFunction isOpening isClosing known accepted groups ih =>
    intro previous s _ _ _
    exact ⟨_, addAll_call isFunction isOpening isClosing known accepted groups ih, .refl _ s⟩
  | access square isOpening isClosing isAccess objectGroups groups object_ih ih =>
    intro previous s start begins _
    exact ⟨_, addAll_access square isOpening isClosing isAccess objectGroups groups object_ih ih
      start begins, .refl _ s⟩
  | @field object objectTree separator name isField isName groups ih =>
    intro previous s start begins _
    obtain ⟨t, readObject, holds⟩ := ih previous s start begins (by simp)
    have leaf : name.IsLeaf := .inr (.inr isName)
    have joined : Joined separator (.leaf name :: objectTree :: s.operands)
        (node separator [objectTree, .leaf name] :: s.operands) :=
      .binary (by simp [isField, Kind.isBinary]) (by simp [Tree.leaf, Tree.kind, Tree.token, isName])
        (not_isMark_of_groups groups objectTree (by simp [Meaning.trees]))
    refine ⟨_, (addAll_append readObject _).trans
      ((addAll_cons (add_field isField (holds.fields_eq begins)) _).trans
        (addAll_cons (add_leaf leaf) [])), ?_⟩
    intro ready _ fieldReady
    exact reduce_of_ready (fieldReady separator isField) joined s.waiting
  | @prefixed tokens spine tree root operator isPrefix defined groups below ih =>
    intro previous s _ _ _
    obtain ⟨t, read, holds⟩ := ih (some operator.kind) ⟨s.operands, operator :: s.waiting⟩
      (by simp [isPrefix]) (begins_cons (.inr defined) _)
      (by rintro next isRoot top ⟨⟩; exact below next isRoot)
    have joined : Joined operator (tree :: s.operands) (node operator [tree] :: s.operands) :=
      .unary (by simp [isPrefix, Kind.isUnary])
        (not_isMark_of_groups groups tree (by simp [Meaning.trees]))
    exact ⟨t, (addAll_cons (add_prefixed isPrefix defined) tokens).trans read, holds.join joined⟩
  | @infixed left right leftSpine spine leftTree tree leftRoot root operator isInfix defined
      leftGroups groups tighter below left_ih ih =>
    intro previous s start begins looser
    obtain ⟨mapping, isMapping⟩ := Option.isSome_iff_exists.mp defined
    have looserOperator : ∀ top ∈ s.waiting.head?, ¬top.Binds operators operator := looser _ rfl
    -- the root of the left operand binds tighter than `operator`, so what waits leaves it alone too
    obtain ⟨t, readLeft, leftHolds⟩ := left_ih previous s start begins (by
      intro next isRoot top isTop binds
      have inSpine := leftGroups.root_mem_spine next isRoot
      exact looserOperator top isTop (binds.trans (tighter next inSpine)))
    have reduced : reduce (bindsBefore operators mapping) t.operands t.waiting =
        .ok ⟨leftTree :: s.operands, s.waiting⟩ := by
      rw [leftHolds]
      · exact reduce_of_not_ready (bindsBefore_of_not_binds isMapping begins looserOperator) _
      · exact fun token inSpine => bindsBefore_of_binds isMapping (tighter token inSpine)
      · intro token isField
        simp [bindsBefore, isField]
    obtain ⟨u, read, holds⟩ := ih (some operator.kind)
      ⟨leftTree :: s.operands, operator :: s.waiting⟩ (by simp [isInfix])
      (begins_cons (.inr defined) _) (by rintro next isRoot top ⟨⟩; exact below next isRoot)
    have joined : Joined operator (tree :: leftTree :: s.operands)
        (node operator [leftTree, tree] :: s.operands) :=
      .binary (by simp [isInfix, Kind.isBinary])
        (not_isMark_of_groups groups tree (by simp [Meaning.trees]))
        (not_isMark_of_groups leftGroups leftTree (by simp [Meaning.trees]))
    exact ⟨u, (addAll_append readLeft _).trans
      ((addAll_cons (add_infixed isInfix isMapping reduced) right).trans read), holds.join joined⟩
  | noArgument =>
    intro previous s _ opens
    exact ⟨s, rfl, reduce_of_not_ready (fun top isTop => by simp [opens top isTop]) _⟩
  | firstArgument groups ih =>
    intro previous s start opens
    exact ih.within groups previous s start opens
  | @nextArgument before tokens spine first tree trees root comma _ isComma groups before_ih ih =>
    intro previous s start opens
    obtain ⟨t, readBefore, closes⟩ := before_ih previous s start opens
    obtain ⟨u, read, holds⟩ := ih.within groups (some comma.kind)
      ⟨(first :: trees).reverse ++ s.operands, s.waiting⟩ (by simp [isComma]) opens
    refine ⟨u, (addAll_append readBefore _).trans
      ((addAll_cons ((add_comma isComma).trans closes) tokens).trans read), ?_⟩
    simpa using holds

end Formulary.Tree.Stacks

namespace Formulary.Tree

open Stacks

variable {operators : Operators} {functions : FunctionArity}

theorem ofTokens_of_holds {tokens spine : List Token} {tree : Tree} {t : Stacks}
    (read : addAll operators functions none {} tokens = .ok t) (holds : Holds spine tree {} t)
    (real : ¬tree.isMark) (source : String) :
    ofTokens operators functions source tokens = .ok tree := by
  have reduced : t.reduceWhile (fun _ => true) = .ok ⟨[tree], []⟩ := holds _ (by simp) (by simp)
  rw [ofTokens]
  change (addAll operators functions none {} tokens).bind _ = _
  rw [read]
  change (t.reduceWhile fun _ => true).bind _ = _
  rw [reduced]
  exact if_neg real

/-- Tokens that are grouped in some way are read as the tree that they stand for. -/
theorem ofTokens_eq_of_groups {tokens spine : List Token} {tree : Tree} {root : Option Token}
    (h : Groups operators functions tokens (.expression tree root spine)) (source : String) :
    ofTokens operators functions source tokens = .ok tree := by
  obtain ⟨t, read, holds⟩ := reads_of_groups h none {} (by simp) (by simp [Begins]) (by simp)
  have real := not_isMark_of_groups h tree (by simp [Meaning.trees])
  exact ofTokens_of_holds read holds real source

/-- Every expression is read, as a tree that has its tokens in order and in which operators are
grouped by precedence and associativity. -/
theorem ofTokens_groups (operators : Operators) (functions : FunctionArity) (source : String)
    (tokens : List Token) (h : Derives operators functions .expression tokens) :
    ∃ tree root spine, ofTokens operators functions source tokens = .ok tree ∧
      tree.inOrder = content tokens ∧
      Groups operators functions tokens (.expression tree root spine) := by
  obtain ⟨tree, root, spine, groups⟩ := Groups.hasMeaning_of_derives h
  exact ⟨tree, root, spine, ofTokens_eq_of_groups groups source, groups.inOrder_eq, groups⟩

/-- A prefix operator of low precedence takes all that follows. -/
theorem ofTokens_groups_loose_negation :
    let operators : Operators :=
      ⟨fun role _ => some (if role = .prefixOp then ⟨3, false, ""⟩ else ⟨7, true, ""⟩),
        fun _ _ => false⟩
    let functions : FunctionArity := ⟨fun _ => false, fun _ _ => false⟩
    let a : Token := ⟨.name, ⟨0, 1, 1⟩, "a"⟩
    let first : Token := ⟨.operator .infixOp, ⟨2, 1, 3⟩, "=="⟩
    let negation : Token := ⟨.operator .prefixOp, ⟨5, 1, 6⟩, "not"⟩
    let b : Token := ⟨.name, ⟨9, 1, 10⟩, "b"⟩
    let second : Token := ⟨.operator .infixOp, ⟨11, 1, 12⟩, "=="⟩
    let c : Token := ⟨.name, ⟨14, 1, 15⟩, "c"⟩
    Derives operators functions .expression [a, first, negation, b, second, c] ∧
      ∃ tree root spine,
        ofTokens operators functions "a == not b == c" [a, first, negation, b, second, c] =
          .ok tree ∧
        tree.inOrder = content [a, first, negation, b, second, c] ∧
        Groups operators functions [a, first, negation, b, second, c]
          (.expression tree root spine) := by
  intro operators functions a first negation b second c
  have isA : Derives operators functions .expression [a] := .operand (.atom (.leaf (.inr (.inr rfl))))
  have isB : Derives operators functions .atom [b] := .leaf (.inr (.inr rfl))
  have isC : Derives operators functions .atom [c] := .leaf (.inr (.inr rfl))
  have left : Derives operators functions .expression ([a] ++ first :: [negation, b]) :=
    .infixed isA rfl rfl (.prefixed rfl rfl (.atom isB))
  have whole : Derives operators functions .expression ([a, first, negation, b] ++ second :: [c]) :=
    .infixed left rfl rfl (.atom isC)
  exact ⟨whole, ofTokens_groups operators functions _ _ whole⟩

end Formulary.Tree
