import Formulary.Proofs.Tree.Levels

set_option autoImplicit false

/-!
# What a call can reach

The mark where an argument list starts is a wall between the operands of a call and those before it.
How many operands are left above it does not depend on precedences: a literal, a name or a call adds
one, an operator or an access with two operands takes one away, and a comma does neither.
-/

namespace Formulary

namespace Kind

/-- How many operands more there are when such a token has been read and joined. -/
def balance : Kind → Int
  | number | text | name => 1
  | operator .infixOp | field => -1
  | _ => 0

theorem balance_of_isLeaf {token : Token} (isLeaf : token.IsLeaf) : token.kind.balance = 1 := by
  rcases isLeaf with kind | kind | kind <;> simp [kind, balance]

theorem balance_operator (role : Role) :
    (operator role).balance = -if (operator role).isBinary then 1 else 0 := by
  cases role <;> rfl

end Kind

namespace Outline

/-- How many operands more there are after an outline. Those in a call are its own. -/
def balance : Outline → Int
  | nil => 0
  | item token _ rest => token.kind.balance + rest.balance
  | group _ _ _ _ inner rest => inner.balance + rest.balance
  | call _ _ _ _ _ _ _ rest => 1 + rest.balance
  | access _ _ _ _ _ _ inner rest => inner.balance - 1 + rest.balance

end Outline

namespace Tree.Stacks

/-- Operands that are no marks. -/
def Real (operands : List Tree) : Prop :=
  ∀ tree ∈ operands, ¬tree.isMark

/-- Operands that nothing above them can take, because a mark is on top of them. -/
def Walled (operands : List Tree) : Prop :=
  ∀ top ∈ operands.head?, top.isMark

/-- How many operands will be left when all that waits is joined. -/
def surplus (operands : List Tree) (waiting : List Token) : Int :=
  operands.length - waiting.countP fun token => token.kind.isBinary

theorem split_at_mark {taken above rest outside : List Tree} {mark other : Tree}
    (same : taken ++ mark :: rest = above ++ other :: outside) (taken_real : Real taken)
    (isMark : mark.isMark) (above_real : Real above) (otherIsMark : other.isMark) :
    taken = above ∧ rest = outside := by
  induction taken generalizing above with
  | nil =>
    cases above with
    | nil => exact ⟨rfl, (List.cons.inj same).2⟩
    | cons top above =>
      obtain rfl := (List.cons.inj same).1
      exact absurd isMark (above_real _ (by simp))
  | cons first taken ih =>
    cases above with
    | nil =>
      obtain rfl := (List.cons.inj same).1
      exact absurd otherIsMark (taken_real _ (by simp))
    | cons top above =>
      obtain ⟨rfl, below⟩ := List.cons.inj same
      obtain ⟨rfl, rfl⟩ := ih below (fun tree member => taken_real tree (by simp [member]))
        (fun tree member => above_real tree (by simp [member]))
      exact ⟨rfl, rfl⟩

theorem Joined.not_isMark {token : Token} {operands joined : List Tree}
    (h : Joined token operands joined) (children : List Tree) : ¬(node token children).isMark := by
  intro mark
  have kind : token.kind = .argumentsStart := mark
  simpa [kind, Kind.isUnary, Kind.isBinary] using h.isUnary_or_isBinary

section Surplus

variable {functions : FunctionArity} {above outside : List Tree}

theorem real_nil : Real [] := by
  simp [Real]

theorem walled_mark {mark : Tree} (isMark : mark.isMark) (rest : List Tree) :
    Walled (mark :: rest) := by
  simpa [Walled] using isMark

theorem Real.cons {tree : Tree} {trees : List Tree} (real : ¬tree.isMark) (rest : Real trees) :
    Real (tree :: trees) := by
  simpa [Real] using ⟨real, rest⟩

theorem Real.of_cons {tree : Tree} {trees : List Tree} (real : Real (tree :: trees)) :
    Real trees :=
  fun other member => real other (by simp [member])

theorem surplus_cons (tree : Tree) (operands : List Tree) (waiting : List Token) :
    surplus (tree :: operands) waiting = surplus operands waiting + 1 := by
  simp only [surplus, List.length_cons]
  omega

theorem surplus_wait (token : Token) (operands : List Tree) (waiting : List Token) :
    surplus operands (token :: waiting) =
      surplus operands waiting - if token.kind.isBinary then 1 else 0 := by
  by_cases binary : token.kind.isBinary
  · simp only [surplus, List.countP_cons, binary, if_true]
    omega
  · simp [surplus, binary]

theorem surplus_eq (operands : List Tree) (waiting : List Token) :
    surplus operands waiting =
      surplus operands [] - waiting.countP fun token => token.kind.isBinary := by
  simp [surplus]

/-- An operator takes its operands from above a wall. -/
theorem Joined.above_wall {token : Token} {operands joined : List Tree}
    (h : Joined token operands joined) (split : operands = above ++ outside) (real : Real above)
    (walled : Walled outside) (waiting : List Token) :
    ∃ left, joined = left ++ outside ∧ Real left ∧
      surplus left waiting = surplus above (token :: waiting) := by
  have newReal := h.not_isMark
  rw [surplus_wait]
  cases h with
  | @unary operand rest unary realOperand =>
    cases above with
    | nil =>
      obtain rfl : operand :: rest = outside := split
      exact absurd (walled operand rfl) realOperand
    | cons top above =>
      obtain ⟨rfl, rfl⟩ := List.cons.inj split
      refine ⟨node token [operand] :: above, rfl, real.of_cons.cons (newReal _), ?_⟩
      have notBinary : token.kind.isBinary = false := Kind.isBinary_of_isUnary unary
      simp [surplus_cons, notBinary]
  | @binary first second rest binary realSecond realFirst =>
    match above with
    | [] =>
      obtain rfl : second :: first :: rest = outside := split
      exact absurd (walled second rfl) realSecond
    | [top] =>
      obtain rfl : first :: rest = outside := (List.cons.inj split).2
      exact absurd (walled first rfl) realFirst
    | top :: below :: above =>
      obtain ⟨rfl, splitRest⟩ := List.cons.inj split
      obtain ⟨rfl, rfl⟩ := List.cons.inj splitRest
      refine ⟨node token [first, second] :: above, rfl, real.of_cons.of_cons.cons (newReal _), ?_⟩
      simp only [surplus_cons, binary, if_true]
      omega

theorem Joins.above_wall {ready : Token → Prop} {s t : Stacks} (h : Joins ready s t)
    (split : s.operands = above ++ outside) (real : Real above) (walled : Walled outside) :
    ∃ left, t.operands = left ++ outside ∧ Real left ∧
      surplus left t.waiting = surplus above s.waiting := by
  induction h generalizing above with
  | refl s => exact ⟨above, split, real, rfl⟩
  | @step token waiting operands joined t _ isJoined _ ih =>
    obtain ⟨left, leftSplit, leftReal, count⟩ := isJoined.above_wall split real walled waiting
    obtain ⟨rest, restSplit, restReal, restCount⟩ := ih leftSplit leftReal
    exact ⟨rest, restSplit, restReal, restCount.trans count⟩

/-- A call takes what is above its mark. -/
theorem call_above_mark {function : Token} {operands called rest : List Tree} {mark : Tree}
    (h : call functions function operands = .ok called) (split : operands = above ++ mark :: rest)
    (real : Real above) (isMark : mark.isMark) :
    called = node function above.reverse :: rest ∧
      functions.has function.span.text ∧ functions.accepts function.span.text above.length := by
  obtain ⟨taken, other, below, rfl, otherIsMark, takenReal, rfl, known, accepted⟩ := call_eq_ok h
  obtain ⟨rfl, rfl⟩ := split_at_mark split takenReal otherIsMark real isMark
  exact ⟨rfl, known, accepted⟩

/-- What is read above a wall stays above it, and as many operands are left there as it says. -/
theorem Reading.above_wall {outline : Outline} {s t : Stacks}
    (h : Reading functions outline s t) (split : s.operands = above ++ outside) (real : Real above)
    (walled : Walled outside) :
    ∃ left, t.operands = left ++ outside ∧ Real left ∧
      surplus left t.waiting = surplus above s.waiting + outline.balance := by
  induction h generalizing above outside with
  | nil s => exact ⟨above, split, real, by simp [Outline.balance]⟩
  | operand isLeaf _ ih =>
    obtain ⟨left, leftSplit, leftReal, count⟩ :=
      ih (congrArg (leaf _ :: ·) split) (real.cons (not_isMark_of_isLeaf isLeaf)) walled
    refine ⟨left, leftSplit, leftReal, ?_⟩
    dsimp only at count
    rw [count, surplus_cons, Outline.balance, Kind.balance_of_isLeaf isLeaf]
    omega
  | prefixed kind _ ih =>
    obtain ⟨left, leftSplit, leftReal, count⟩ := ih split real walled
    refine ⟨left, leftSplit, leftReal, ?_⟩
    rw [count, surplus_wait, Outline.balance]
    simp [kind, Kind.balance, Kind.isBinary]
  | operator kind _ joins _ ih =>
    obtain ⟨between, betweenSplit, betweenReal, betweenCount⟩ := joins.above_wall split real walled
    obtain ⟨left, leftSplit, leftReal, count⟩ := ih betweenSplit betweenReal walled
    refine ⟨left, leftSplit, leftReal, ?_⟩
    rw [count, surplus_wait, betweenCount, Outline.balance, kind, Kind.balance_operator]
    omega
  | field kind joins _ _ ih =>
    obtain ⟨between, betweenSplit, betweenReal, betweenCount⟩ := joins.above_wall split real walled
    obtain ⟨left, leftSplit, leftReal, count⟩ := ih betweenSplit betweenReal walled
    refine ⟨left, leftSplit, leftReal, ?_⟩
    rw [count, surplus_wait, betweenCount, Outline.balance, kind]
    simp only [Kind.isBinary, Kind.balance, if_true]
    omega
  | comma kind joins _ ih =>
    obtain ⟨between, betweenSplit, betweenReal, betweenCount⟩ := joins.above_wall split real walled
    obtain ⟨left, leftSplit, leftReal, count⟩ := ih betweenSplit betweenReal walled
    refine ⟨left, leftSplit, leftReal, ?_⟩
    rw [count, betweenCount, Outline.balance, kind]
    simp only [Kind.balance]
    omega
  | group _ joins _ inner_ih ih =>
    obtain ⟨read, readSplit, readReal, readCount⟩ := inner_ih split real walled
    obtain ⟨between, betweenSplit, betweenReal, betweenCount⟩ :=
      joins.above_wall readSplit readReal walled
    obtain ⟨left, leftSplit, leftReal, count⟩ := ih betweenSplit betweenReal walled
    refine ⟨left, leftSplit, leftReal, ?_⟩
    dsimp only at count betweenCount readCount
    rw [surplus_eq between] at count
    rw [Outline.balance, surplus_eq above, count]
    omega
  | @call function _ _ isCall _ _ _ _ _ _ _ _ _ _ joins result _ inner_ih ih =>
    obtain ⟨read, readSplit, readReal, -⟩ :=
      inner_ih (List.nil_append _).symm real_nil (walled_mark rfl _)
    obtain ⟨args, argsSplit, argsReal, -⟩ := joins.above_wall readSplit readReal (walled_mark rfl _)
    obtain ⟨rfl, -⟩ := call_above_mark result argsSplit argsReal rfl
    have callReal : ¬(node function args.reverse).isMark := by
      intro mark
      cases isCall.symm.trans mark
    obtain ⟨left, leftSplit, leftReal, count⟩ :=
      ih (congrArg (node function args.reverse :: ·) split) (real.cons callReal) walled
    refine ⟨left, leftSplit, leftReal, ?_⟩
    dsimp only at count
    rw [count, surplus_cons, Outline.balance]
    omega
  | @access _ _ accessed _ _ opens _ _ _ _ _ _ _ _ _ isAccessed fields _ _ joins isJoined _
      inner_ih ih =>
    obtain ⟨object, objectSplit, objectReal, objectCount⟩ := fields.above_wall split real walled
    obtain ⟨read, readSplit, readReal, readCount⟩ := inner_ih objectSplit objectReal walled
    obtain ⟨key, keySplit, keyReal, keyCount⟩ := joins.above_wall readSplit readReal walled
    obtain ⟨result, resultSplit, resultReal, resultCount⟩ :=
      isJoined.above_wall keySplit keyReal walled []
    obtain ⟨left, leftSplit, leftReal, count⟩ := ih resultSplit resultReal walled
    refine ⟨left, leftSplit, leftReal, ?_⟩
    have binary := Token.isBinary_of_content? opens isAccessed
    rw [surplus_wait, binary] at resultCount
    dsimp only at count keyCount readCount
    rw [surplus_eq result] at count
    rw [surplus_eq object] at objectCount
    rw [Outline.balance, count]
    simp only [if_true] at resultCount
    omega

/-- A call takes what has been read in its parentheses. -/
theorem Reading.call_eq {ready : Token → Prop} {inner : Outline} {function : Token} {mark : Tree}
    {rest joined called : List Tree} {within : Stacks}
    (h : Reading functions inner ⟨mark :: rest, []⟩ within) (joins : Joins ready within ⟨joined, []⟩)
    (isMark : mark.isMark) (result : Stacks.call functions function joined = .ok called) :
    ∃ args, joined = args ++ mark :: rest ∧ called = node function args.reverse :: rest ∧
      Real args ∧ (args.length : Int) = inner.balance := by
  obtain ⟨read, readSplit, readReal, readCount⟩ :=
    h.above_wall (List.nil_append _).symm real_nil (walled_mark isMark rest)
  obtain ⟨args, argsSplit, argsReal, argsCount⟩ :=
    joins.above_wall readSplit readReal (walled_mark isMark rest)
  obtain ⟨rfl, -⟩ := call_above_mark result argsSplit argsReal isMark
  refine ⟨args, argsSplit, rfl, argsReal, ?_⟩
  have left := argsCount.trans readCount
  simpa [surplus] using left

end Surplus

end Tree.Stacks

end Formulary
