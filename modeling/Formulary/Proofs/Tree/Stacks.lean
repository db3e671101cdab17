import Formulary.Proofs.Tree.Listing

set_option autoImplicit false

/-!
# What reading a token does to the stacks

Each step is described once, by all that it can do and under which condition. What later modules say
about reading follows from `Step`, and none of them looks at how a step is computed.
-/

namespace Formulary

/-- Two computations in a row succeed if both do. -/
theorem bind_eq_ok_iff {ε α β : Type} {first : Except ε α} {next : α → Except ε β} {result : β} :
    first.bind next = .ok result ↔ ∃ value, first = .ok value ∧ next value = .ok result := by
  cases first <;> simp [Except.bind]

namespace Tree.Stacks

/-- The operands before and after an operator is put on top of those that belong to it. -/
inductive Joined (token : Token) : List Tree → List Tree → Prop
  | unary {operand : Tree} {rest : List Tree} :
      token.kind.isUnary → ¬operand.isMark →
      Joined token (operand :: rest) (node token [operand] :: rest)
  | binary {first second : Tree} {rest : List Tree} :
      token.kind.isBinary → ¬second.isMark → ¬first.isMark →
      Joined token (second :: first :: rest) (node token [first, second] :: rest)

theorem operand_eq_ok {operands : List Tree} {token : Token} {missing : SyntaxError.Cause}
    {found : Tree × List Tree} :
    operand operands token missing = .ok found ↔
      operands = found.1 :: found.2 ∧ ¬found.1.isMark := by
  obtain ⟨tree, rest⟩ := found
  cases operands with
  | nil => simp [operand]
  | cons top below =>
    by_cases mark : top.isMark
    · simp only [operand, if_pos mark, reduceCtorEq, List.cons.injEq, false_iff]
      rintro ⟨⟨rfl, -⟩, real⟩
      exact real mark
    · simp only [operand, if_neg mark, Except.ok.injEq, Prod.mk.injEq, List.cons.injEq]
      constructor
      · rintro ⟨rfl, rfl⟩
        exact ⟨⟨rfl, rfl⟩, mark⟩
      · exact And.left

theorem join_unary {token : Token} (unary : token.kind.isUnary) (operands : List Tree) :
    join token operands = (operand operands token .missingOperand).bind fun (tree, rest) =>
      .ok (node token [tree] :: rest) := by
  rw [join]
  split <;> simp_all [Kind.isUnary] <;> rfl

theorem join_binary {token : Token} (binary : token.kind.isBinary) (operands : List Tree) :
    join token operands = (operand operands token .missingOperand).bind fun (second, rest) =>
      (operand rest token .missingSecondOperand).bind fun (first, rest) =>
        .ok (node token [first, second] :: rest) := by
  rw [join]
  split <;> simp_all [Kind.isBinary] <;> rfl

theorem join_eq_ok_iff {token : Token} {operands joined : List Tree} :
    join token operands = .ok joined ↔ Joined token operands joined := by
  constructor
  · intro h
    by_cases unary : token.kind.isUnary
    · rw [join_unary unary] at h
      obtain ⟨⟨tree, rest⟩, found, result⟩ := bind_eq_ok_iff.mp h
      obtain ⟨rfl, real⟩ := operand_eq_ok.mp found
      cases result
      exact .unary unary real
    by_cases binary : token.kind.isBinary
    · rw [join_binary binary] at h
      obtain ⟨⟨second, rest⟩, foundSecond, h⟩ := bind_eq_ok_iff.mp h
      obtain ⟨⟨first, rest⟩, foundFirst, result⟩ := bind_eq_ok_iff.mp h
      obtain ⟨rfl, realSecond⟩ := operand_eq_ok.mp foundSecond
      obtain ⟨rfl, realFirst⟩ := operand_eq_ok.mp foundFirst
      cases result
      exact .binary binary realSecond realFirst
    rw [join] at h
    split at h <;> simp_all [Kind.isUnary, Kind.isBinary]
  · intro h
    cases h with
    | unary unary real =>
      rw [join_unary unary]
      exact bind_eq_ok_iff.mpr ⟨(_, _), operand_eq_ok.mpr ⟨rfl, real⟩, rfl⟩
    | binary binary realSecond realFirst =>
      rw [join_binary binary]
      exact bind_eq_ok_iff.mpr ⟨(_, _), operand_eq_ok.mpr ⟨rfl, realSecond⟩,
        bind_eq_ok_iff.mpr ⟨(_, _), operand_eq_ok.mpr ⟨rfl, realFirst⟩, rfl⟩⟩

theorem Joined.isUnary_or_isBinary {token : Token} {operands joined : List Tree}
    (h : Joined token operands joined) : token.kind.isUnary ∨ token.kind.isBinary := by
  cases h with
  | unary unary => exact .inl unary
  | binary binary => exact .inr binary

/-- Some of the latest waiting tokens are joined, latest first, all of which are `ready`. -/
inductive Joins (ready : Token → Prop) : Stacks → Stacks → Prop
  | refl (s : Stacks) : Joins ready s s
  | step {token : Token} {waiting : List Token} {operands joined : List Tree} {s : Stacks} :
      ready token → Joined token operands joined → Joins ready ⟨joined, waiting⟩ s →
      Joins ready ⟨operands, token :: waiting⟩ s

theorem joins_of_reduce {ready : Token → Except SyntaxError Bool} {operands : List Tree}
    {waiting : List Token} {s : Stacks} (h : reduce ready operands waiting = .ok s) :
    Joins (fun token => ready token = .ok true) ⟨operands, waiting⟩ s ∧
      ∀ token ∈ s.waiting.head?, ready token = .ok false := by
  induction waiting generalizing operands with
  | nil =>
    cases h
    exact ⟨.refl _, by simp⟩
  | cons token waiting ih =>
    rw [reduce] at h
    obtain ⟨isReady, eq, h⟩ := bind_eq_ok_iff.mp h
    cases isReady with
    | false =>
      cases h
      exact ⟨.refl _, by simpa using eq⟩
    | true =>
      obtain ⟨joined, result, h⟩ := bind_eq_ok_iff.mp h
      obtain ⟨joins, stop⟩ := ih h
      exact ⟨.step eq (join_eq_ok_iff.mp result) joins, stop⟩

theorem joins_of_reduceWhile {ready : Token → Bool} {s t : Stacks}
    (h : s.reduceWhile ready = .ok t) :
    Joins (fun token => ready token = true) s t ∧
      ∀ token ∈ t.waiting.head?, ready token = false := by
  obtain ⟨joins, stop⟩ := joins_of_reduce h
  simp only [Except.ok.injEq] at joins stop
  exact ⟨joins, stop⟩

/-- What a token does to the stacks. -/
inductive Step (functions : FunctionArity) (previous : Option Kind) (token : Token) :
    Stacks → Stacks → Prop
  | operand {s : Stacks} :
      token.IsLeaf →
      Step functions previous token s ⟨leaf token :: s.operands, s.waiting⟩
  | wait {s : Stacks} :
      token.kind = .function ∨ token.kind = .operator .prefixOp →
      Step functions previous token s ⟨s.operands, token :: s.waiting⟩
  | operator {s t : Stacks} {role : Role} :
      token.kind = .operator role → role ≠ .prefixOp → Joins (fun _ => True) s t →
      Step functions previous token s ⟨t.operands, token :: t.waiting⟩
  | field {s t : Stacks} :
      token.kind = .field → Joins (·.kind = .field) s t →
      (∀ top ∈ t.waiting.head?, top.kind ≠ .field) →
      Step functions previous token s ⟨t.operands, token :: t.waiting⟩
  | comma {s t : Stacks} :
      token.kind = .comma → Joins (·.kind.isOpening = false) s t →
      (∀ top ∈ t.waiting.head?, top.kind.isOpening) →
      Step functions previous token s t
  | openGroup {s : Stacks} :
      token.kind = .opening .paren → previous ≠ some .function →
      Step functions previous token s ⟨s.operands, token :: s.waiting⟩
  | openCall {s : Stacks} :
      token.kind = .opening .paren → previous = some .function →
      Step functions previous token s
        ⟨leaf { token with kind := .argumentsStart } :: s.operands, token :: s.waiting⟩
  | openAccess {s t : Stacks} {access : Token} :
      token.kind = .opening .square ∨ token.kind = .opening .curly →
      token.content? = some access → Joins (·.kind = .field) s t →
      (∀ top ∈ t.waiting.head?, top.kind ≠ .field) →
      Step functions previous token s ⟨t.operands, token :: access :: t.waiting⟩
  | closeGroup {s : Stacks} {operands : List Tree} {opening : Token} {waiting : List Token} :
      token.kind = .closing .paren →
      Joins (·.kind.isOpening = false) s ⟨operands, opening :: waiting⟩ →
      opening.kind.isOpening → (∀ top ∈ waiting.head?, top.kind ≠ .function) →
      Step functions previous token s ⟨operands, waiting⟩
  | closeCall {s : Stacks} {operands called : List Tree} {opening function : Token}
      {waiting : List Token} :
      token.kind = .closing .paren →
      Joins (·.kind.isOpening = false) s ⟨operands, opening :: function :: waiting⟩ →
      opening.kind.isOpening → function.kind = .function →
      call functions function operands = .ok called →
      Step functions previous token s ⟨called, waiting⟩
  | closeAccess {s : Stacks} {operands joined : List Tree} {opening access : Token}
      {waiting : List Token} :
      token.kind = .closing .square ∨ token.kind = .closing .curly →
      Joins (·.kind.isOpening = false) s ⟨operands, opening :: access :: waiting⟩ →
      opening.kind.isOpening → Joined access operands joined →
      Step functions previous token s ⟨joined, waiting⟩

theorem arguments_eq_ok {function : Token} {found operands args rest : List Tree}
    (h : arguments function found operands = .ok (args, rest)) :
    ∃ taken mark, operands = taken ++ mark :: rest ∧ mark.isMark ∧
      (∀ tree ∈ taken, ¬tree.isMark) ∧ args = taken.reverse ++ found := by
  induction operands generalizing found with
  | nil => cases h
  | cons top below ih =>
    rw [arguments] at h
    by_cases mark : top.isMark
    · cases (if_pos mark).symm.trans h
      exact ⟨[], top, rfl, mark, by simp, rfl⟩
    · obtain ⟨taken, last, rfl, isLast, real, rfl⟩ := ih ((if_neg mark).symm.trans h)
      exact ⟨top :: taken, last, rfl, isLast, by simp_all, by simp⟩

/-- A call takes the operands since the latest mark, and the registry knows it with so many. -/
theorem call_eq_ok {functions : FunctionArity} {function : Token} {operands called : List Tree}
    (h : call functions function operands = .ok called) :
    ∃ taken mark rest, operands = taken ++ mark :: rest ∧ mark.isMark ∧
      (∀ tree ∈ taken, ¬tree.isMark) ∧ called = node function taken.reverse :: rest ∧
      functions.has function.span.text ∧
      functions.accepts function.span.text taken.length := by
  obtain ⟨⟨args, rest⟩, found, h⟩ := bind_eq_ok_iff.mp h
  obtain ⟨taken, mark, rfl, isMark, real, rfl⟩ := arguments_eq_ok found
  by_cases known : functions.has function.span.text
  · by_cases accepted : functions.accepts function.span.text taken.length
    · simp only [List.append_nil, List.length_reverse, known, accepted, Bool.not_true] at h
      cases h
      exact ⟨taken, mark, rest, rfl, isMark, real, rfl, known, accepted⟩
    · simp [known, accepted] at h
  · simp [known] at h

theorem joins_of_toOpening {s t : Stacks} (h : s.toOpening = .ok t) :
    Joins (·.kind.isOpening = false) s t ∧ ∀ top ∈ t.waiting.head?, top.kind.isOpening := by
  simpa using joins_of_reduceWhile h

theorem joins_of_fields {s t : Stacks} (h : s.fields = .ok t) :
    Joins (·.kind = .field) s t ∧ ∀ top ∈ t.waiting.head?, top.kind ≠ .field := by
  simpa using joins_of_reduceWhile h

theorem takeWaiting_eq_ok {s : Stacks} {closing : Token} {taken : Token × Stacks}
    (h : s.takeWaiting closing = .ok taken) :
    s = ⟨taken.2.operands, taken.1 :: taken.2.waiting⟩ := by
  obtain ⟨operands, waiting⟩ := s
  cases waiting with
  | nil => cases h
  | cons top below =>
    cases h
    rfl

theorem Joins.mono {ready weaker : Token → Prop} {s t : Stacks}
    (implies : ∀ token, ready token → weaker token) (h : Joins ready s t) : Joins weaker s t := by
  induction h with
  | refl s => exact .refl s
  | step isReady joined _ ih => exact .step (implies _ isReady) joined ih

theorem addOperator_prefixed {token : Token} (role : token.kind = .operator .prefixOp)
    (operators : Operators) (s : Stacks) :
    s.addOperator operators token = (mapping operators token).bind fun _ =>
      .ok ⟨s.operands, token :: s.waiting⟩ := by
  simp only [addOperator, if_pos role]
  rfl

theorem addOperator_of_ne {token : Token} (role : token.kind ≠ .operator .prefixOp)
    (operators : Operators) (s : Stacks) :
    s.addOperator operators token = (mapping operators token).bind fun current =>
      (reduce (bindsBefore operators current) s.operands s.waiting).bind fun t =>
        .ok ⟨t.operands, token :: t.waiting⟩ := by
  simp only [addOperator, if_neg role]
  rfl

theorem step_of_addOperator {operators : Operators} {functions : FunctionArity}
    {previous : Option Kind} {token : Token} {s t : Stacks} {role : Role}
    (kind : token.kind = .operator role) (h : s.addOperator operators token = .ok t) :
    Step functions previous token s t := by
  by_cases isPrefix : token.kind = .operator .prefixOp
  · rw [addOperator_prefixed isPrefix] at h
    obtain ⟨_, -, result⟩ := bind_eq_ok_iff.mp h
    cases result
    exact .wait (.inr isPrefix)
  · rw [addOperator_of_ne isPrefix] at h
    obtain ⟨current, -, h⟩ := bind_eq_ok_iff.mp h
    obtain ⟨between, reduced, result⟩ := bind_eq_ok_iff.mp h
    cases result
    refine .operator kind ?_ ((joins_of_reduce reduced).1.mono fun _ _ => trivial)
    rintro rfl
    exact isPrefix kind

theorem step_of_openAccess {functions : FunctionArity} {previous : Option Kind}
    {token : Token} {s t : Stacks} {kind : Kind}
    (opens : token.kind = .opening .square ∨ token.kind = .opening .curly)
    (access : token.content? = some { token with kind }) (h : s.openAccess token kind = .ok t) :
    Step functions previous token s t := by
  obtain ⟨between, reduced, result⟩ := bind_eq_ok_iff.mp h
  cases result
  obtain ⟨joins, stop⟩ := joins_of_fields reduced
  exact .openAccess opens access joins stop

theorem step_of_closeParen {functions : FunctionArity} {previous : Option Kind} {token : Token}
    {s t : Stacks} (kind : token.kind = .closing .paren)
    (h : s.closeParen functions token = .ok t) : Step functions previous token s t := by
  obtain ⟨between, reduced, h⟩ := bind_eq_ok_iff.mp h
  obtain ⟨joins, stop⟩ := joins_of_toOpening reduced
  obtain ⟨⟨opening, ⟨operands, waiting⟩⟩, taken, h⟩ := bind_eq_ok_iff.mp h
  cases takeWaiting_eq_ok taken
  have opens : opening.kind.isOpening := stop opening rfl
  cases waiting with
  | nil =>
    cases h
    exact .closeGroup kind joins opens (by simp)
  | cons function waiting =>
    by_cases isCall : function.kind = .function
    · obtain ⟨called, result, h⟩ := bind_eq_ok_iff.mp ((if_pos isCall).symm.trans h)
      cases h
      exact .closeCall kind joins opens isCall result
    · cases (if_neg isCall).symm.trans h
      exact .closeGroup kind joins opens (by simpa using isCall)

theorem step_of_closeAccess {functions : FunctionArity} {previous : Option Kind} {token : Token}
    {s t : Stacks} (kind : token.kind = .closing .square ∨ token.kind = .closing .curly)
    (h : s.closeAccess token = .ok t) : Step functions previous token s t := by
  obtain ⟨between, reduced, h⟩ := bind_eq_ok_iff.mp h
  obtain ⟨joins, stop⟩ := joins_of_toOpening reduced
  obtain ⟨⟨opening, below⟩, takenOpening, h⟩ := bind_eq_ok_iff.mp h
  obtain ⟨⟨access, last⟩, takenAccess, h⟩ := bind_eq_ok_iff.mp h
  obtain ⟨joined, result, same⟩ := bind_eq_ok_iff.mp h
  cases same
  obtain rfl := takeWaiting_eq_ok takenOpening
  obtain rfl := takeWaiting_eq_ok takenAccess
  exact .closeAccess kind joins (stop opening rfl) (join_eq_ok_iff.mp result)

theorem step_of_add {operators : Operators} {functions : FunctionArity} {previous : Option Kind}
    {token : Token} {s t : Stacks} (h : s.add operators functions previous token = .ok t) :
    Step functions previous token s t := by
  rw [add] at h
  split at h
  case h_1 kind => cases h; exact .operand (.inl kind)
  case h_2 kind => cases h; exact .operand (.inr (.inl kind))
  case h_3 kind => cases h; exact .operand (.inr (.inr kind))
  case h_4 kind => cases h; exact .wait (.inl kind)
  case h_5 kind =>
    obtain ⟨joins, stop⟩ := joins_of_toOpening h
    exact .comma kind joins stop
  case h_6 kind => exact step_of_addOperator kind h
  case h_7 kind =>
    cases h
    rw [openParen]
    split
    next isCall => exact .openCall kind isCall
    next isGroup => exact .openGroup kind isGroup
  case h_8 kind => exact step_of_openAccess (.inl kind) (by simp [Token.content?, kind]) h
  case h_9 kind => exact step_of_openAccess (.inr kind) (by simp [Token.content?, kind]) h
  case h_10 kind => exact step_of_closeParen kind h
  case h_11 bracket other kind =>
    apply step_of_closeAccess ?_ h
    cases bracket with
    | paren => exact absurd rfl other
    | square => exact .inl kind
    | curly => exact .inr kind
  case h_12 kind =>
    obtain ⟨between, reduced, result⟩ := bind_eq_ok_iff.mp h
    cases result
    obtain ⟨joins, stop⟩ := joins_of_fields reduced
    exact .field kind joins stop
  case h_13 => cases h

@[simp] theorem addAll_nil (operators : Operators) (functions : FunctionArity)
    (previous : Option Kind) (s : Stacks) :
    addAll operators functions previous s [] = .ok s := rfl

theorem addAll_cons_eq_ok {operators : Operators} {functions : FunctionArity}
    {previous : Option Kind} {token : Token} {tokens : List Token} {s t : Stacks} :
    addAll operators functions previous s (token :: tokens) = .ok t ↔
      ∃ between, s.add operators functions previous token = .ok between ∧
        addAll operators functions (some token.kind) between tokens = .ok t :=
  bind_eq_ok_iff

/-- The kind of the token before those that follow `tokens`. -/
def lastKind (previous : Option Kind) (tokens : List Token) : Option Kind :=
  tokens.foldl (fun _ token => some token.kind) previous

theorem addAll_append_eq_ok {operators : Operators} {functions : FunctionArity}
    {previous : Option Kind} {first second : List Token} {s t : Stacks} :
    addAll operators functions previous s (first ++ second) = .ok t ↔
      ∃ between, addAll operators functions previous s first = .ok between ∧
        addAll operators functions (lastKind previous first) between second = .ok t := by
  induction first generalizing previous s with
  | nil => simp [lastKind]
  | cons token first ih =>
    simp only [List.cons_append, addAll_cons_eq_ok, ih]
    constructor
    · rintro ⟨afterToken, added, between, read, rest⟩
      exact ⟨between, ⟨afterToken, added, read⟩, rest⟩
    · rintro ⟨between, ⟨afterToken, added, read⟩, rest⟩
      exact ⟨afterToken, added, between, read, rest⟩

end Tree.Stacks

open Tree.Stacks in
/-- A tree is what remains when all tokens are read and all that wait are joined. -/
theorem Tree.ofTokens_eq_ok {operators : Operators} {functions : FunctionArity} {source : String}
    {tokens : List Token} {tree : Tree}
    (h : ofTokens operators functions source tokens = .ok tree) :
    ∃ s, addAll operators functions none {} tokens = .ok s ∧
      Joins (fun _ => True) s ⟨[tree], []⟩ ∧ ¬tree.isMark := by
  obtain ⟨s, read, h⟩ := bind_eq_ok_iff.mp h
  obtain ⟨⟨operands, waiting⟩, reduced, h⟩ := bind_eq_ok_iff.mp h
  obtain ⟨joins, stop⟩ := joins_of_reduceWhile reduced
  have empty : waiting = [] := by
    cases waiting with
    | nil => rfl
    | cons top below => simp at stop
  subst empty
  dsimp only at h
  split at h
  case h_1 => cases h
  case h_2 root =>
    by_cases mark : root.isMark
    · cases (if_pos mark).symm.trans h
    · cases (if_neg mark).symm.trans h
      exact ⟨s, read, joins.mono fun _ _ => trivial, mark⟩
  case h_3 => cases h

end Formulary
