import Formulary.Proofs.Token.Lexed
import Formulary.Proofs.Tree.Precedence
import Formulary.Proofs.Tree.SourceOrder

set_option autoImplicit false

/-!
# When a postfix operator is applied to what stands before it

A postfix operator waits like any other, though its operand is there already. It is applied to that
operand if what comes next completes it. Otherwise something is read on top of it, and it takes the
operand that results.
-/

namespace Formulary

/-- What comes after a waiting token completes it before anything else is read but parentheses and
commas in them. The number is of those that are open since the token. -/
def Token.Completed (operators : Operators) (token : Token) : Nat → List Token → Prop
  | _, [] => True
  | depth, next :: rest =>
    match next.kind, depth with
    | .opening .paren, depth => token.Completed operators (depth + 1) rest
    | .closing .paren, depth + 1 => token.Completed operators depth rest
    | .comma, depth + 1 => token.Completed operators (depth + 1) rest
    | .closing _, _ | .comma, 0 => True
    | .operator .infixOp, 0 | .operator .postfixOp, 0 => token.Binds operators next
    | _, _ => False

namespace Tree

/-- All that a node is applied to stands before its own token. -/
def AllBefore (tree : Tree) : Prop :=
  ∀ child ∈ tree.children, ∀ token ∈ child.tokens, token.offset < tree.token.offset

namespace Stacks

/-- A token has been joined, under or in one of the operands, to what stands before it just in case
`alone` holds. -/
def Applied (token : Token) (alone : Prop) (operands : List Tree) : Prop :=
  ∃ operand ∈ operands, ¬operand.isMark ∧
    ∃ part ∈ operand.nodes, part.token = token ∧ (part.AllBefore ↔ alone)

variable {operators : Operators} {functions : FunctionArity} {previous : Option Kind}
  {token next : Token} {alone : Prop} {operands results : List Tree} {s t : Stacks}

section Applied

/-- What has been joined stays what it is under every other node. -/
theorem Applied.under {children rest : List Tree} (applied : Applied token alone operands)
    (real : ¬(node next children).isMark)
    (kept : ∀ tree ∈ operands, ¬tree.isMark → tree ∈ children ∨ tree ∈ rest) :
    Applied token alone (node next children :: rest) := by
  obtain ⟨operand, member, isReal, part, inside, isToken⟩ := applied
  rcases kept operand member isReal with isChild | inRest
  · refine ⟨_, List.mem_cons_self, real, part, ?_, isToken⟩
    rw [nodes_node]
    exact List.mem_cons_of_mem _ (List.mem_flatMap.mpr ⟨operand, isChild, inside⟩)
  · exact ⟨operand, List.mem_cons_of_mem _ inRest, isReal, part, inside, isToken⟩

theorem Applied.cons (applied : Applied token alone operands) (top : Tree) :
    Applied token alone (top :: operands) := by
  obtain ⟨operand, member, others⟩ := applied
  exact ⟨operand, List.mem_cons_of_mem _ member, others⟩

theorem Applied.joined (applied : Applied token alone operands)
    (h : Joined next operands results) : Applied token alone results := by
  have real := h.not_isMark
  cases h with
  | unary | binary => exact applied.under (real _) (by grind)

theorem Applied.joins {ready : Token → Prop} (applied : Applied token alone s.operands)
    (h : Joins ready s t) : Applied token alone t.operands := by
  induction h with
  | refl s => exact applied
  | step _ isJoined _ ih => exact ih (applied.joined isJoined)

theorem Applied.call {function : Token} {called : List Tree} (isCall : function.kind = .function)
    (applied : Applied token alone operands)
    (h : Stacks.call functions function operands = .ok called) : Applied token alone called := by
  obtain ⟨taken, mark, rest, rfl, isMark, -, rfl, -⟩ := call_eq_ok h
  have real : ¬(node function taken.reverse).isMark := by
    intro mark
    cases isCall.symm.trans mark
  apply applied.under real
  intro tree member isReal
  rcases List.mem_append.mp member with inTaken | inRest
  · exact .inl (List.mem_reverse.mpr inTaken)
  · rcases List.mem_cons.mp inRest with rfl | inRest
    · exact absurd isMark isReal
    · exact .inr inRest

theorem Applied.step (applied : Applied token alone s.operands)
    (h : Step functions previous next s t) : Applied token alone t.operands := by
  cases h with
  | operand | openCall => exact applied.cons _
  | wait | openGroup => exact applied
  | operator _ _ joins | field _ joins | comma _ joins | openAccess _ _ joins =>
    have kept := applied.joins joins
    exact kept
  | closeGroup _ joins =>
    have kept := applied.joins joins
    exact kept
  | closeCall _ joins _ isCall result => exact (applied.joins joins).call isCall result
  | closeAccess _ joins _ isJoined => exact (applied.joins joins).joined isJoined

/-- A postfix operator is applied to the latest operand. -/
theorem applied_of_joined (isPostfix : token.kind = .operator .postfixOp)
    (h : Joined token operands results)
    (top : ∀ operand ∈ operands.head?, ¬operand.isMark →
      ((∀ other ∈ operand.tokens, other.offset < token.offset) ↔ alone)) :
    Applied token alone results := by
  have real := h.not_isMark
  cases h with
  | @unary operand rest _ isReal =>
    refine ⟨_, List.mem_cons_self, real _, _, self_mem_nodes _, rfl, ?_⟩
    simpa [AllBefore, children, Tree.token] using top operand rfl isReal
  | binary binary => simp [isPostfix, Kind.isBinary] at binary

end Applied

/-- A bracket opens, and the access that it stands for does not. -/
theorem access_opening {access : Token}
    (kind : next.kind = .opening .square ∨ next.kind = .opening .curly)
    (isAccess : next.content? = some access) :
    next.kind.isOpening = true ∧ access.kind.isOpening = false := by
  rcases kind with kind | kind <;>
    rcases Token.kind_of_content? kind isAccess with accessKind | accessKind <;>
    simp [kind, accessKind, Kind.isOpening]

section Buried

variable {waiting : List Token}

/-- Something has been read on top of a token that waits, and the latest of it stands after the
token. -/
structure Covered (token : Token) (operands : List Tree) (above : List Token) : Prop where
  late : ∀ other ∈ above, other.kind.isOpening = false → token.offset ≤ other.offset
  top : (∃ other ∈ above, other.kind.isOpening = false) ∨
    ∃ top ∈ operands.head?, ∃ other ∈ top.tokens, token.offset ≤ other.offset

/-- A token waits under what has been read after it, or has been joined to some of that. -/
def Buried (token : Token) (s : Stacks) : Prop :=
  Applied token False s.operands ∨
    ∃ above below, s.waiting = above ++ token :: below ∧ Covered token s.operands above

theorem exists_above {top : Token} {above below : List Token} (other : top ≠ token)
    (split : top :: waiting = above ++ token :: below) :
    ∃ left, above = top :: left ∧ waiting = left ++ token :: below := by
  cases above with
  | nil => exact absurd (List.cons.inj split).1 other
  | cons latest left =>
    obtain ⟨rfl, rfl⟩ := List.cons.inj split
    exact ⟨left, rfl, rfl⟩

theorem Buried.operand (buried : Buried token s) {top : Tree}
    (late : ∃ other ∈ top.tokens, token.offset ≤ other.offset) :
    Buried token ⟨top :: s.operands, s.waiting⟩ := by
  rcases buried with applied | ⟨above, below, split, covered⟩
  · exact .inl (applied.cons top)
  · exact .inr ⟨above, below, split, covered.late, .inr ⟨top, rfl, late⟩⟩

theorem Buried.wait (buried : Buried token s) (plain : next.kind.isOpening = false)
    (late : token.offset ≤ next.offset) : Buried token ⟨s.operands, next :: s.waiting⟩ := by
  rcases buried with applied | ⟨above, below, split, covered⟩
  · exact .inl applied
  · refine .inr ⟨next :: above, below, congrArg _ split, ?_, .inl ⟨next, by simp, plain⟩⟩
    exact List.forall_mem_cons.mpr ⟨fun _ => late, covered.late⟩

theorem Buried.push (buried : Buried token s) (opens : next.kind.isOpening = true) :
    Buried token ⟨s.operands, next :: s.waiting⟩ := by
  rcases buried with applied | ⟨above, below, split, covered⟩
  · exact .inl applied
  · refine .inr ⟨next :: above, below, congrArg _ split, ?_, ?_⟩
    · refine List.forall_mem_cons.mpr ⟨fun plain => ?_, covered.late⟩
      cases opens.symm.trans plain
    · rcases covered.top with ⟨other, member, plain⟩ | top
      · exact .inl ⟨other, List.mem_cons_of_mem _ member, plain⟩
      · exact .inr top

theorem Buried.pop (buried : Buried token ⟨operands, next :: waiting⟩)
    (isPostfix : token.kind = .operator .postfixOp) (opens : next.kind.isOpening = true) :
    Buried token ⟨operands, waiting⟩ := by
  rcases buried with applied | ⟨above, below, split, covered⟩
  · exact .inl applied
  · have other : next ≠ token := by
      rintro rfl
      simp [isPostfix, Kind.isOpening] at opens
    obtain ⟨left, rfl, rest⟩ := exists_above other split
    refine .inr ⟨left, below, rest, (List.forall_mem_cons.mp covered.late).2, ?_⟩
    rcases covered.top with ⟨other, member, plain⟩ | top
    · rcases List.mem_cons.mp member with rfl | isAbove
      · cases opens.symm.trans plain
      · exact .inl ⟨other, isAbove, plain⟩
    · exact .inr top

/-- The token takes what has been read after it, and what waits above the token makes an operand
that stands after it. -/
theorem Buried.joined (buried : Buried token ⟨operands, next :: waiting⟩)
    (isPostfix : token.kind = .operator .postfixOp) (h : Joined next operands results) :
    Buried token ⟨results, waiting⟩ := by
  rcases buried with applied | ⟨above, below, split, covered⟩
  · exact .inl (applied.joined h)
  cases above with
  | nil =>
    obtain ⟨rfl, rfl⟩ := List.cons.inj split
    refine .inl (applied_of_joined isPostfix h ?_)
    intro operand isTop _
    obtain ⟨other, member, -⟩ | ⟨top, isHead, other, member, late⟩ := covered.top
    · cases member
    · obtain rfl : operand = top := Option.mem_unique isTop isHead
      exact iff_of_false (fun before => Nat.not_lt.mpr late (before other member)) id
  | cons latest left =>
    obtain ⟨rfl, rfl⟩ := List.cons.inj split
    have isLate := covered.late next List.mem_cons_self h.isOpening_eq_false
    refine .inr ⟨left, below, rfl, (List.forall_mem_cons.mp covered.late).2, .inr ?_⟩
    cases h with
    | unary | binary => exact ⟨_, rfl, next, by simp, isLate⟩

theorem Buried.joins {ready : Token → Prop} (buried : Buried token s)
    (isPostfix : token.kind = .operator .postfixOp) (h : Joins ready s t) : Buried token t := by
  induction h with
  | refl s => exact buried
  | step _ isJoined _ ih => exact ih (buried.joined isPostfix isJoined)

theorem Buried.call {called : List Tree} (buried : Buried token ⟨operands, next :: waiting⟩)
    (isPostfix : token.kind = .operator .postfixOp) (isCall : next.kind = .function)
    (h : Stacks.call functions next operands = .ok called) : Buried token ⟨called, waiting⟩ := by
  rcases buried with applied | ⟨above, below, split, covered⟩
  · exact .inl (applied.call isCall h)
  · have other : next ≠ token := by
      rintro rfl
      cases isCall.symm.trans isPostfix
    obtain ⟨left, rfl, rest⟩ := exists_above other split
    have isLate := covered.late next List.mem_cons_self (by simp [isCall, Kind.isOpening])
    obtain ⟨taken, mark, outer, -, -, -, rfl, -⟩ := call_eq_ok h
    exact .inr ⟨left, below, rest, (List.forall_mem_cons.mp covered.late).2,
      .inr ⟨_, rfl, next, by simp, isLate⟩⟩

theorem Buried.step (buried : Buried token s) (isPostfix : token.kind = .operator .postfixOp)
    (late : token.offset ≤ next.offset) (h : Step functions previous next s t) :
    Buried token t := by
  cases h with
  | operand => exact buried.operand ⟨next, by simp, late⟩
  | wait kind =>
    apply buried.wait ?_ late
    rcases kind with kind | kind <;> simp [kind, Kind.isOpening]
  | operator kind _ joins | field kind joins =>
    exact (buried.joins isPostfix joins).wait (by simp [kind, Kind.isOpening]) late
  | comma _ joins => exact buried.joins isPostfix joins
  | openGroup kind => exact buried.push (by simp [kind, Kind.isOpening])
  | openCall kind =>
    let mark : Token := { next with kind := .argumentsStart }
    have marked : Buried token ⟨leaf mark :: s.operands, s.waiting⟩ :=
      buried.operand ⟨mark, by simp, late⟩
    exact marked.push (by simp [kind, Kind.isOpening])
  | openAccess kind isAccess joins =>
    obtain ⟨opens, plain⟩ := access_opening kind isAccess
    rw [← (Token.content?_eq_some isAccess).1] at late
    exact ((buried.joins isPostfix joins).wait plain late).push opens
  | closeGroup _ joins opens => exact (buried.joins isPostfix joins).pop isPostfix opens
  | closeCall _ joins opens isCall result =>
    exact ((buried.joins isPostfix joins).pop isPostfix opens).call isPostfix isCall result
  | closeAccess _ joins opens isJoined =>
    exact ((buried.joins isPostfix joins).pop isPostfix opens).joined isPostfix isJoined

end Buried

section Untouched

variable {parens rest waiting : List Token}

/-- A token waits with nothing on top of it but open parentheses, and the latest operand stands
before it. -/
structure Untouched (token : Token) (parens : List Token) (s : Stacks) : Prop where
  waits : ∃ below, s.waiting = parens ++ token :: below
  parens : ∀ paren ∈ parens, paren.kind = .opening .paren
  early : ∀ top ∈ s.operands.head?, ¬top.isMark → ∀ other ∈ top.tokens, other.offset < token.offset

theorem eq_of_not_ready {ready : Token → Prop} (h : Joins ready s t)
    (stop : ∀ top ∈ s.waiting.head?, ¬ready top) : t = s := by
  cases h with
  | refl => rfl
  | step isReady => exact absurd isReady (stop _ rfl)

theorem Untouched.head (untouched : Untouched token parens s) :
    ∀ top ∈ s.waiting.head?, top.kind = .opening .paren ∨ parens = [] ∧ top = token := by
  obtain ⟨below, waits⟩ := untouched.waits
  intro top isTop
  cases parens with
  | nil => simp_all
  | cons paren parens =>
    obtain rfl : paren = top := by simpa [waits] using isTop
    exact .inl (untouched.parens paren List.mem_cons_self)

/-- No field waits on top of a postfix operator for its name. -/
theorem Untouched.eq_of_fields (untouched : Untouched token parens s)
    (isPostfix : token.kind = .operator .postfixOp) (joins : Joins (·.kind = .field) s t) :
    t = s := by
  apply eq_of_not_ready joins
  intro top isTop isField
  rcases untouched.head top isTop with opens | ⟨-, rfl⟩
  · cases opens.symm.trans isField
  · cases isPostfix.symm.trans isField

theorem Untouched.wait (untouched : Untouched token parens s) (plain : next.kind.isOpening = false)
    (late : token.offset ≤ next.offset) : Buried token ⟨s.operands, next :: s.waiting⟩ := by
  obtain ⟨below, waits⟩ := untouched.waits
  refine .inr ⟨next :: parens, below, congrArg _ waits, ?_, .inl ⟨next, by simp, plain⟩⟩
  intro other member opening
  rcases List.mem_cons.mp member with rfl | isParen
  · exact late
  · simp [untouched.parens other isParen, Kind.isOpening] at opening

theorem Untouched.operand (untouched : Untouched token parens s)
    (late : token.offset ≤ next.offset) :
    Buried token ⟨leaf next :: s.operands, s.waiting⟩ := by
  obtain ⟨below, waits⟩ := untouched.waits
  refine .inr ⟨parens, below, waits, ?_, .inr ⟨leaf next, rfl, next, by simp, late⟩⟩
  intro other isParen opening
  simp [untouched.parens other isParen, Kind.isOpening] at opening

theorem Untouched.push (untouched : Untouched token parens s)
    (opens : next.kind = .opening .paren) :
    Untouched token (next :: parens) ⟨s.operands, next :: s.waiting⟩ := by
  obtain ⟨below, waits⟩ := untouched.waits
  refine ⟨⟨below, congrArg _ waits⟩, ?_, untouched.early⟩
  exact List.forall_mem_cons.mpr ⟨opens, untouched.parens⟩

theorem Untouched.joined (untouched : Untouched token [] ⟨operands, next :: waiting⟩)
    (isPostfix : token.kind = .operator .postfixOp) (h : Joined next operands results) :
    Applied token True results := by
  obtain ⟨below, waits⟩ := untouched.waits
  obtain ⟨rfl, -⟩ := List.cons.inj waits
  apply applied_of_joined isPostfix h
  intro operand isTop real
  exact iff_true_intro (untouched.early operand isTop real)

theorem Untouched.pop {paren : Token}
    (untouched : Untouched token (paren :: parens) ⟨operands, next :: waiting⟩) :
    Untouched token parens ⟨operands, waiting⟩ := by
  obtain ⟨below, waits⟩ := untouched.waits
  obtain ⟨-, rest⟩ := List.cons.inj waits
  exact ⟨⟨below, rest⟩, (List.forall_mem_cons.mp untouched.parens).2, untouched.early⟩

/-- Where the token on top is completed, it takes the operand before it. -/
theorem Untouched.joins {ready : Token → Prop} (untouched : Untouched token [] s)
    (isPostfix : token.kind = .operator .postfixOp) (h : Joins ready s t)
    (gone : ∀ top ∈ t.waiting.head?, top ≠ token) : Applied token True t.operands := by
  obtain ⟨below, waits⟩ := untouched.waits
  cases h with
  | refl => exact absurd rfl (gone token (by simp [waits]))
  | step _ isJoined joins => exact (untouched.joined isPostfix isJoined).joins joins

/-- A comma or a closing bracket completes the token, unless a parenthesis is open on top of it. -/
theorem Untouched.toOpening (untouched : Untouched token parens s)
    (isPostfix : token.kind = .operator .postfixOp) (joins : Joins (·.kind.isOpening = false) s t)
    (stop : ∀ top ∈ t.waiting.head?, top.kind.isOpening = true) :
    parens = [] ∧ Applied token True t.operands ∨
      ∃ paren outer, parens = paren :: outer ∧ t = s := by
  cases parens with
  | nil =>
    refine .inl ⟨rfl, untouched.joins isPostfix joins ?_⟩
    rintro top isTop rfl
    simpa [isPostfix, Kind.isOpening] using stop top isTop
  | cons paren outer =>
    refine .inr ⟨paren, outer, rfl, eq_of_not_ready joins ?_⟩
    intro top isTop isPlain
    rcases untouched.head top isTop with opens | ⟨empty, -⟩
    · simp [opens, Kind.isOpening] at isPlain
    · cases empty

end Untouched

section Phases

variable {parens rest : List Token}

/-- Where a postfix operator may be while what comes after it is read. Until something is read on top
of it, what is left to read still decides whether it is applied alone. -/
inductive Phase (operators : Operators) (token : Token) (alone : Prop) (previous : Option Kind)
    (s : Stacks) (rest : List Token) : Prop
  | untouched {parens : List Token} :
      previous ≠ some .function → Untouched token parens s →
      (alone ↔ token.Completed operators parens.length rest) →
      Phase operators token alone previous s rest
  | buried : Buried token s → ¬alone → Phase operators token alone previous s rest
  | applied : Applied token alone s.operands → Phase operators token alone previous s rest

/-- The next operator completes the token on top if the token binds to its operand, and otherwise is
read on top of it. -/
theorem Untouched.operator {role : Role} (untouched : Untouched token parens s)
    (isPostfix : token.kind = .operator .postfixOp) (late : token.offset ≤ next.offset)
    (kind : next.kind = .operator role) (notPrefix : role ≠ .prefixOp)
    (completed : alone ↔ token.Completed operators parens.length (next :: rest))
    (h : s.addOperator operators next = .ok t) :
    Phase operators token alone (some next.kind) t rest := by
  rw [addOperator_of_ne (by simpa [kind] using notPrefix)] at h
  obtain ⟨current, mapped, h⟩ := bind_eq_ok_iff.mp h
  obtain ⟨u, reduced, result⟩ := bind_eq_ok_iff.mp h
  cases result
  obtain ⟨joins, stop⟩ := joins_of_reduce reduced
  by_cases binds : parens = [] ∧ token.Binds operators next
  · obtain ⟨rfl, binds⟩ := binds
    have isAlone : alone := by
      rw [completed]
      cases role <;> simp_all [Token.Completed]
    have isReady := bindsBefore_of_binds (mapping?_eq_some mapped) binds
    have applied := untouched.joins isPostfix joins (by
      rintro top isTop rfl
      cases isReady.symm.trans (stop top isTop))
    exact .applied (by rwa [eq_true isAlone])
  · have notAlone : ¬alone := by
      rw [completed]
      cases parens with
      | nil => cases role <;> simp_all [Token.Completed]
      | cons paren parens => cases role <;> simp [Token.Completed, kind]
    have same := eq_of_not_ready joins fun top isTop isReady => by
      rcases untouched.head top isTop with opens | ⟨empty, rfl⟩
      · simp [bindsBefore, opens] at isReady
      · exact binds ⟨empty, binds_of_bindsBefore isPostfix mapped isReady⟩
    subst same
    exact .buried (untouched.wait (by simp [kind, Kind.isOpening]) late) notAlone

theorem Untouched.step (untouched : Untouched token parens s)
    (isPostfix : token.kind = .operator .postfixOp) (late : token.offset ≤ next.offset)
    (notCalled : previous ≠ some .function)
    (completed : alone ↔ token.Completed operators parens.length (next :: rest))
    (h : s.add operators functions previous next = .ok t) :
    Phase operators token alone (some next.kind) t rest := by
  cases step_of_add h with
  | operand isLeaf =>
    refine .buried (untouched.operand late) ?_
    rw [completed]
    rcases isLeaf with kind | kind | kind <;> simp [Token.Completed, kind]
  | wait kind =>
    refine .buried (untouched.wait ?_ late) ?_
    · rcases kind with kind | kind <;> simp [kind, Kind.isOpening]
    · rw [completed]
      rcases kind with kind | kind <;> simp [Token.Completed, kind]
  | operator kind notPrefix =>
    exact untouched.operator isPostfix late kind notPrefix completed (by simpa [add, kind] using h)
  | @field t kind joins =>
    obtain rfl := untouched.eq_of_fields isPostfix joins
    refine .buried (untouched.wait (by simp [kind, Kind.isOpening]) late) ?_
    simp [completed, Token.Completed, kind]
  | comma kind joins stop =>
    rcases untouched.toOpening isPostfix joins stop with ⟨rfl, applied⟩ | ⟨paren, outer, rfl, rfl⟩
    · have isAlone : alone := by simp [completed, Token.Completed, kind]
      exact .applied (by rwa [eq_true isAlone])
    · exact .untouched (by simp [kind]) untouched (by simpa [Token.Completed, kind] using completed)
  | openGroup kind =>
    exact .untouched (by simp [kind]) (untouched.push kind)
      (by simpa [Token.Completed, kind] using completed)
  | openCall _ isCall => exact absurd isCall notCalled
  | @openAccess t access kind isAccess joins =>
    obtain rfl := untouched.eq_of_fields isPostfix joins
    obtain ⟨opens, plain⟩ := access_opening kind isAccess
    rw [← (Token.content?_eq_some isAccess).1] at late
    refine .buried ((untouched.wait plain late).push opens) ?_
    rw [completed]
    rcases kind with kind | kind <;> simp [Token.Completed, kind]
  | closeGroup kind joins opens =>
    rcases untouched.toOpening isPostfix joins (by simpa using opens) with
      ⟨rfl, applied⟩ | ⟨paren, outer, rfl, rfl⟩
    · have isAlone : alone := by simp [completed, Token.Completed, kind]
      exact .applied (by rwa [eq_true isAlone])
    · exact .untouched (by simp [kind]) untouched.pop
        (by simpa [Token.Completed, kind] using completed)
  | closeCall kind joins opens isCall result =>
    rcases untouched.toOpening isPostfix joins (by simpa using opens) with
      ⟨rfl, applied⟩ | ⟨paren, outer, rfl, rfl⟩
    · have isAlone : alone := by simp [completed, Token.Completed, kind]
      exact .applied (by rw [eq_true isAlone]; exact applied.call isCall result)
    · rcases untouched.pop.head _ rfl with opens | ⟨-, rfl⟩
      · cases isCall.symm.trans opens
      · cases isCall.symm.trans isPostfix
  | closeAccess kind joins opens isJoined =>
    have isAlone : alone := by
      rw [completed]
      rcases kind with kind | kind <;> cases parens <;> simp [Token.Completed, kind]
    rw [eq_true isAlone]
    rcases untouched.toOpening isPostfix joins (by simpa using opens) with
      ⟨rfl, applied⟩ | ⟨paren, outer, rfl, rfl⟩
    · exact .applied (applied.joined isJoined)
    · rcases untouched.pop.head _ rfl with opens | ⟨rfl, rfl⟩
      · have plain := isJoined.isOpening_eq_false
        simp [opens, Kind.isOpening] at plain
      · exact .applied (untouched.pop.joined isPostfix isJoined)

theorem Phase.add (phase : Phase operators token alone previous s (next :: rest))
    (isPostfix : token.kind = .operator .postfixOp) (late : token.offset ≤ next.offset)
    (h : s.add operators functions previous next = .ok t) :
    Phase operators token alone (some next.kind) t rest := by
  cases phase with
  | untouched notCalled untouched completed =>
    exact untouched.step isPostfix late notCalled completed h
  | buried buried notAlone => exact .buried (buried.step isPostfix late (step_of_add h)) notAlone
  | applied applied => exact .applied (applied.step (step_of_add h))

theorem Phase.addAll (phase : Phase operators token alone previous s rest)
    (isPostfix : token.kind = .operator .postfixOp)
    (late : ∀ other ∈ rest, token.offset ≤ other.offset)
    (h : addAll operators functions previous s rest = .ok t) :
    Phase operators token alone (lastKind previous rest) t [] := by
  induction rest generalizing previous s with
  | nil =>
    cases h
    exact phase
  | cons next rest ih =>
    obtain ⟨between, added, h⟩ := addAll_cons_eq_ok.mp h
    obtain ⟨nextLate, restLate⟩ := List.forall_mem_cons.mp late
    exact ih (phase.add isPostfix nextLate added) restLate h

/-- At the end of the source, what waits is applied. -/
theorem Phase.applied_of_joins (phase : Phase operators token alone previous s [])
    (isPostfix : token.kind = .operator .postfixOp) (joins : Joins (fun _ => True) s t)
    (done : t.waiting = []) : Applied token alone t.operands := by
  cases phase with
  | @untouched parens _ untouched completed =>
    have isAlone : alone := by simp [completed, Token.Completed]
    have noParens : parens = [] := by
      obtain ⟨below, waits⟩ := untouched.waits
      cases parens with
      | nil => rfl
      | cons paren outer =>
        have opens := untouched.parens paren List.mem_cons_self
        cases joins with
        | refl => simp [done] at waits
        | step _ isJoined =>
          obtain ⟨rfl, -⟩ := List.cons.inj waits
          have plain := isJoined.isOpening_eq_false
          simp [opens, Kind.isOpening] at plain
    subst noParens
    rw [eq_true isAlone]
    exact untouched.joins isPostfix joins (by simp [done])
  | buried buried notAlone =>
    rw [eq_false notAlone]
    rcases buried.joins isPostfix joins with applied | ⟨above, below, split, -⟩
    · exact applied
    · simp [done] at split
  | applied applied => exact applied.joins joins

end Phases

end Stacks

open Stacks

variable {operators : Operators} {functions : FunctionArity} {source : String}
  {before after : List Token} {token : Token} {tree : Tree}

/-- What is on top when a postfix operator is read was read before it. -/
theorem untouched_of_add {first previous : Option Kind} {s t : Stacks}
    (read : addAll operators functions first {} before = .ok s)
    (isPostfix : token.kind = .operator .postfixOp)
    (early : ∀ other ∈ content before, other.offset < token.offset)
    (added : s.add operators functions previous token = .ok t) : Untouched token [] t := by
  rw [add, isPostfix] at added
  rw [addOperator_of_ne (by simp [isPostfix])] at added
  obtain ⟨current, -, added⟩ := bind_eq_ok_iff.mp added
  obtain ⟨r, reduced, result⟩ := bind_eq_ok_iff.mp added
  cases result
  have heldBefore := (held_of_joins (joins_of_reduce reduced).1).trans (held_of_addAll read)
  refine ⟨⟨r.waiting, rfl⟩, by simp, ?_⟩
  intro top isTop real other member
  obtain ⟨below, isBelow⟩ := List.head?_eq_some_iff.mp isTop
  have isHeld : other ∈ held r := by
    rw [held, isBelow, operandTokens_cons real]
    simp [member]
  have inBefore : other ∈ content before := by
    simpa [held, operandTokens] using heldBefore.mem_iff.mp isHeld
  exact early other inBefore

/-- It depends on the tokens after a postfix operator alone whether it is applied to nothing but
what stands before it. -/
theorem applied_of_ofTokens
    (h : ofTokens operators functions source (before ++ token :: after) = .ok tree)
    (isPostfix : token.kind = .operator .postfixOp)
    (early : ∀ other ∈ content before, other.offset < token.offset)
    (late : ∀ other ∈ after, token.offset ≤ other.offset) :
    Applied token (token.Completed operators 0 after) [tree] := by
  obtain ⟨s, read, joins, -⟩ := ofTokens_eq_ok h
  obtain ⟨between, readBefore, read⟩ := addAll_append_eq_ok.mp read
  obtain ⟨t, added, readAfter⟩ := addAll_cons_eq_ok.mp read
  have waits := untouched_of_add readBefore isPostfix early added
  have start : Phase operators token (token.Completed operators 0 after) (some token.kind) t after :=
    .untouched (by simp [isPostfix]) waits Iff.rfl
  exact (start.addAll isPostfix late readAfter).applied_of_joins isPostfix joins rfl

end Tree

section Source

variable {operators : Operators} {features : Features} {source : String}
  {tokens before after : List Token} {token : Token}

/-- What a postfix operator stands after is no product that is implied at its place. -/
theorem offset_lt_of_postfix
    (h : tokenize operators features source = .ok (before ++ token :: after))
    (isPostfix : token.kind = .operator .postfixOp) :
    ∀ other ∈ before, other.offset < token.offset := by
  have sorted := tokenize_pairwise_precedes h
  have follows := ((lexed_of_tokenize h).placed.placed before token after rfl).1
  rw [isPostfix] at follows
  obtain ⟨kind, isKind, ends⟩ := follows
  obtain ⟨last, isLast, rfl⟩ := Option.map_eq_some_iff.mp isKind
  obtain ⟨earlier, rfl⟩ := List.getLast?_eq_some_iff.mp isLast
  obtain ⟨sortedBefore, -, apart⟩ := List.pairwise_append.mp sorted
  have lastBefore : last.offset < token.offset := by
    rcases apart last (by simp) token List.mem_cons_self with less | ⟨-, isInfix, -⟩
    · exact less
    · simp [isInfix, Kind.endsOperand] at ends
  intro other member
  rcases List.mem_append.mp member with isEarlier | isLast
  · have precedes := (List.pairwise_append.mp sortedBefore).2.2 other isEarlier last (by simp)
    exact Nat.lt_of_le_of_lt precedes.offset_le lastBefore
  · obtain rfl := List.mem_singleton.mp isLast
    exact lastBefore

end Source

open Tree.Stacks

/-- A postfix operator is applied to nothing but what stands before it, just in case what comes
after it completes it. -/
theorem parse_postfix (operators : Operators) (functions : FunctionArity) (features : Features)
    (source : String) (tree : Tree)
    (h : parse operators functions features source = .ok tree) :
    ∃ tokens, tokenize operators features source = .ok tokens ∧
      ∀ part ∈ tree.nodes, part.kind = .operator .postfixOp →
        ∃ before after, tokens = before ++ part.token :: after ∧
          (part.AllBefore ↔ part.token.Completed operators 0 after) := by
  obtain ⟨tokens, tokenized, read⟩ := bind_eq_ok_iff.mp h
  refine ⟨tokens, tokenized, ?_⟩
  intro part member isPostfix
  obtain ⟨token, inTokens, isRoot⟩ := Tree.exists_token_of_mem_nodes read member
  have kind : token.kind = .operator .postfixOp :=
    ((Token.content?_eq_some isRoot).2 _).mp isPostfix
  obtain rfl : token = part.token := by simpa [Token.content?, kind] using isRoot
  obtain ⟨before, after, rfl⟩ := List.append_of_mem inTokens
  refine ⟨before, after, rfl, ?_⟩
  have early : ∀ other ∈ content before, other.offset < part.token.offset := by
    intro other inContent
    obtain ⟨earlier, inBefore, isOther⟩ := List.mem_filterMap.mp inContent
    rw [(Token.content?_eq_some isOther).1]
    exact offset_lt_of_postfix tokenized kind earlier inBefore
  have late : ∀ other ∈ after, part.token.offset ≤ other.offset := by
    intro other inAfter
    have sorted := (List.pairwise_append.mp (tokenize_pairwise_precedes tokenized)).2.1
    exact ((List.pairwise_cons.mp sorted).1 other inAfter).offset_le
  obtain ⟨operand, isTree, -, found, inside, sameToken, applied⟩ :=
    Tree.applied_of_ofTokens read kind early late
  obtain rfl := List.mem_singleton.mp isTree
  have distinct : operand.tokens.Nodup := (Tree.tokens_perm_content read).nodup_iff.mpr
    ((content_pairwise_precedes tokenized).imp Token.Precedes.ne)
  obtain rfl : found = part := List.inj_on_of_nodup_map distinct inside member sameToken
  exact applied

/-- The standard operators with a postfix operator on top of them. -/
def withFactorial (precedence : Nat) : Operators :=
  .ofLayers (.upon (.single (OperatorTable.empty.insert .postfixOp "!" ⟨precedence, true, "!"⟩))
    (.single .standard))

/-- A product comes after a postfix operator that binds tighter. -/
theorem parse_postfix_product :
    let operators := withFactorial 50
    let functions : FunctionArity := ⟨fun _ => true, fun _ _ => true⟩
    ∃ tree, parse operators functions {} "n! * 2" = .ok tree ∧
      ∃ tokens, tokenize operators {} "n! * 2" = .ok tokens ∧
        ∀ part ∈ tree.nodes, part.kind = .operator .postfixOp →
          ∃ before after, tokens = before ++ part.token :: after ∧
            (part.AllBefore ↔ part.token.Completed operators 0 after) := by
  intro operators functions
  let name : Token := ⟨.name, ⟨0, 1, 1⟩, "n"⟩
  let factorial : Token := ⟨.operator .postfixOp, ⟨1, 1, 2⟩, "!"⟩
  let product : Token := ⟨.operator .infixOp, ⟨3, 1, 4⟩, "*"⟩
  let two : Token := ⟨.number, ⟨5, 1, 6⟩, "2"⟩
  have tokenized : tokenize operators {} "n! * 2" = .ok [name, factorial, product, two] := by
    decide +kernel
  have isFactorial : mapping operators factorial = .ok ⟨50, true, "!"⟩ := by decide +kernel
  have isProduct : mapping operators product = .ok ⟨30, true, "infix *"⟩ := by decide +kernel
  have read : parse operators functions {} "n! * 2" =
      .ok (.node product [.node factorial [.leaf name], .leaf two]) := by
    rw [parse_of_tokenize tokenized]
    simp [Tree.ofTokens, addAll, add, addOperator, name, factorial, product, two, isFactorial,
      isProduct]
    rfl
  exact ⟨_, read, parse_postfix _ _ _ _ _ read⟩

/-- A power that comes after a postfix operator that binds less tightly is what it is applied to. -/
theorem parse_postfix_power :
    ∃ tree part, parse (withFactorial 10) ⟨fun _ => true, fun _ _ => true⟩ {} "n! ^ 2" = .ok tree ∧
      part ∈ tree.nodes ∧ part.kind = .operator .postfixOp ∧ ¬part.AllBefore := by
  let name : Token := ⟨.name, ⟨0, 1, 1⟩, "n"⟩
  let factorial : Token := ⟨.operator .postfixOp, ⟨1, 1, 2⟩, "!"⟩
  let power : Token := ⟨.operator .infixOp, ⟨3, 1, 4⟩, "^"⟩
  let two : Token := ⟨.number, ⟨5, 1, 6⟩, "2"⟩
  have tokenized : tokenize (withFactorial 10) {} "n! ^ 2" = .ok [name, factorial, power, two] := by
    decide +kernel
  have isFactorial : mapping (withFactorial 10) factorial = .ok ⟨10, true, "!"⟩ := by
    decide +kernel
  have isPower : mapping (withFactorial 10) power = .ok ⟨40, false, "infix ^"⟩ := by decide +kernel
  have read : parse (withFactorial 10) ⟨fun _ => true, fun _ _ => true⟩ {} "n! ^ 2" =
      .ok (.node factorial [.node power [.leaf name, .leaf two]]) := by
    rw [parse_of_tokenize tokenized]
    simp [Tree.ofTokens, addAll, add, addOperator, name, factorial, power, two, isFactorial,
      isPower]
    rfl
  refine ⟨_, _, read, Tree.self_mem_nodes _, rfl, ?_⟩
  intro allBefore
  have before := allBefore _ List.mem_cons_self two (by simp)
  exact absurd before (by decide)

end Formulary
