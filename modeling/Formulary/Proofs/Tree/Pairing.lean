import Formulary.Proofs.Token.Lexed
import Formulary.Proofs.Tree.Walls
import Mathlib.Data.List.Induction

set_option autoImplicit false

/-!
# Brackets and marks are met in pairs

The brackets that wait are those that are open in the source, each with the access or the function
that it belongs to right below it, and each call has its mark among the operands. So what a closing
bracket takes off is always there, and it is its own.
-/

namespace Formulary

namespace Tree.Stacks

/-- There is an operand that can be taken. -/
def Fed (operands : List Tree) : Prop :=
  ∃ top ∈ operands.head?, ¬top.isMark

/-- The mark of the call whose parenthesis is opened. -/
def markOf (opening : Token) : Tree :=
  leaf { opening with kind := .argumentsStart }

/-- Which brackets are open, and what waits with each of them. A product that is implied before a
function has an operand when it begins to wait. -/
inductive Paired (tokens : List Token) : List Token → List Tree → List Token → Prop
  | nil : Paired tokens [] [] []
  | operand {opened waiting : List Token} {operands : List Tree} {tree : Tree} :
      Paired tokens opened operands waiting → ¬tree.isMark →
      Paired tokens opened (tree :: operands) waiting
  | wait {opened waiting : List Token} {operands : List Tree} {token : Token} :
      Paired tokens opened operands waiting → token ∈ tokens →
      token.kind.isUnary ∨ token.kind.isBinary → (AtFunction tokens token → Fed operands) →
      Paired tokens opened operands (token :: waiting)
  | group {opened waiting : List Token} {operands : List Tree} {opening : Token} :
      Paired tokens opened operands waiting → opening.kind = .opening .paren →
      (∀ function, function.kind = .function → ¬[function, opening] <:+: tokens) →
      Paired tokens (opening :: opened) operands (opening :: waiting)
  | call {opened waiting : List Token} {operands : List Tree} {function opening : Token} :
      Paired tokens opened operands waiting → opening.kind = .opening .paren →
      function.kind = .function → [function, opening] <:+: tokens →
      Paired tokens (opening :: opened) (markOf opening :: operands)
        (opening :: function :: waiting)
  | access {opened waiting : List Token} {operands : List Tree} {opening access : Token}
      {bracket : Bracket} :
      Paired tokens opened operands waiting → opening.kind = .opening bracket →
      opening.content? = some access → ¬AtFunction tokens access →
      Paired tokens (opening :: opened) operands (opening :: access :: waiting)

/-- What is on the stacks below the innermost bracket that is open. -/
inductive Innermost (tokens : List Token) (opening : Token) (opened : List Token) :
    List Tree → List Token → Prop
  | group {operands : List Tree} {waiting : List Token} :
      Paired tokens opened operands waiting → opening.kind = .opening .paren →
      (∀ function, function.kind = .function → ¬[function, opening] <:+: tokens) →
      Innermost tokens opening opened operands waiting
  | call {args operands : List Tree} {function : Token} {waiting : List Token} :
      Paired tokens opened operands waiting → opening.kind = .opening .paren →
      function.kind = .function → [function, opening] <:+: tokens → Real args →
      Innermost tokens opening opened (args ++ markOf opening :: operands) (function :: waiting)
  | access {operands : List Tree} {access : Token} {bracket : Bracket} {waiting : List Token} :
      Paired tokens opened operands waiting → opening.kind = .opening bracket →
      opening.content? = some access → ¬AtFunction tokens access →
      Innermost tokens opening opened operands (access :: waiting)

section Paired

variable {tokens opened waiting : List Token} {operands : List Tree} {token : Token}

theorem isOpening_eq_false {kind : Kind} (joinable : kind.isUnary ∨ kind.isBinary) :
    kind.isOpening = false := by
  cases kind <;> simp_all [Kind.isUnary, Kind.isBinary, Kind.isOpening]

theorem not_isOpening_of_function {function : Token} (isFunction : function.kind = .function) :
    ¬function.kind.isOpening = true := by
  simp [isFunction, Kind.isOpening]

theorem isOpening_of_kind {opening : Token} {bracket : Bracket}
    (opens : opening.kind = .opening bracket) : opening.kind.isOpening = true := by
  rw [opens]
  rfl

theorem Paired.mem_opened (h : Paired tokens opened operands waiting) :
    ∀ top ∈ waiting, top.kind.isOpening = true → top ∈ opened := by
  induction h with
  | nil => simp
  | operand _ _ ih => exact ih
  | wait _ _ joinable _ ih =>
    intro top member isOpening
    rcases List.mem_cons.mp member with rfl | member
    · simp [isOpening_eq_false joinable] at isOpening
    · exact ih top member isOpening
  | group _ _ _ ih =>
    intro top member isOpening
    rcases List.mem_cons.mp member with rfl | member
    · exact List.mem_cons_self
    · exact List.mem_cons_of_mem _ (ih top member isOpening)
  | call _ _ isFunction _ ih =>
    intro top member isOpening
    rcases List.mem_cons.mp member with rfl | member
    · exact List.mem_cons_self
    rcases List.mem_cons.mp member with rfl | member
    · exact absurd isOpening (not_isOpening_of_function isFunction)
    · exact List.mem_cons_of_mem _ (ih top member isOpening)
  | access _ opens isAccess _ ih =>
    intro top member isOpening
    rcases List.mem_cons.mp member with rfl | member
    · exact List.mem_cons_self
    rcases List.mem_cons.mp member with rfl | member
    · have joinable : top.kind.isUnary ∨ top.kind.isBinary :=
        .inr (Token.isBinary_of_content? opens isAccess)
      simp [isOpening_eq_false joinable] at isOpening
    · exact List.mem_cons_of_mem _ (ih top member isOpening)

theorem Paired.mem_waiting (h : Paired tokens opened operands waiting) :
    ∀ opening ∈ opened, opening ∈ waiting := by
  induction h with
  | nil => simp
  | operand _ _ ih => exact ih
  | wait _ _ _ _ ih =>
    intro opening member
    exact List.mem_cons_of_mem _ (ih opening member)
  | group _ _ _ ih =>
    intro opening member
    rcases List.mem_cons.mp member with rfl | member
    · exact List.mem_cons_self
    · exact List.mem_cons_of_mem _ (ih opening member)
  | call _ _ _ _ ih | access _ _ _ _ ih =>
    intro opening member
    rcases List.mem_cons.mp member with rfl | member
    · exact List.mem_cons_self
    · exact List.mem_cons_of_mem _ (List.mem_cons_of_mem _ (ih opening member))

/-- What is on top of the stacks waits for operands, or it is the innermost bracket that is open. -/
theorem Paired.top_cases (h : Paired tokens opened operands (token :: waiting)) :
    Paired tokens opened operands waiting ∧ token ∈ tokens ∧
        (token.kind.isUnary ∨ token.kind.isBinary) ∧ (AtFunction tokens token → Fed operands) ∨
      ∃ outer, opened = token :: outer ∧ Innermost tokens token outer operands waiting := by
  generalize split : token :: waiting = all at h
  induction h with
  | nil => cases split
  | @operand _ _ _ tree below real ih =>
    rcases ih split with ⟨paired, member, joinable, -⟩ | ⟨outer, rfl, innermost⟩
    · exact .inl ⟨paired.operand real, member, joinable, fun _ => ⟨tree, rfl, real⟩⟩
    · refine .inr ⟨outer, rfl, ?_⟩
      cases innermost with
      | group paired opens noCall => exact .group (paired.operand real) opens noCall
      | @call args _ _ _ paired opens isFunction within realArgs =>
        exact Innermost.call paired opens isFunction within (realArgs.cons real)
      | access paired opens isAccess other =>
        exact .access (paired.operand real) opens isAccess other
  | wait paired member joinable fed =>
    cases split
    exact .inl ⟨paired, member, joinable, fed⟩
  | group paired opens noCall =>
    cases split
    exact .inr ⟨_, rfl, .group paired opens noCall⟩
  | call paired opens isFunction within =>
    cases split
    have innermost := Innermost.call paired opens isFunction within real_nil
    exact .inr ⟨_, rfl, innermost⟩
  | access paired opens isAccess other =>
    cases split
    exact .inr ⟨_, rfl, .access paired opens isAccess other⟩

theorem Paired.not_function (h : Paired tokens opened operands waiting) :
    ∀ top ∈ waiting.head?, top.kind ≠ .function := by
  intro top isTop isFunction
  obtain ⟨below, rfl⟩ : ∃ below, waiting = top :: below := List.head?_eq_some_iff.mp isTop
  rcases h.top_cases with ⟨-, -, joinable, -⟩ | ⟨outer, -, innermost⟩
  · simp [isFunction, Kind.isUnary, Kind.isBinary] at joinable
  · cases innermost <;> simp_all

theorem exists_wall (operands : List Tree) :
    ∃ above outside, operands = above ++ outside ∧ Real above ∧ Walled outside := by
  induction operands with
  | nil => exact ⟨[], [], rfl, real_nil, by simp [Walled]⟩
  | cons tree operands ih =>
    by_cases mark : tree.isMark
    · exact ⟨[], tree :: operands, rfl, real_nil, walled_mark mark operands⟩
    · obtain ⟨above, outside, rfl, real, walled⟩ := ih
      exact ⟨tree :: above, outside, rfl, real.cons mark, walled⟩

theorem Paired.add_operands (h : Paired tokens opened operands waiting) {above : List Tree}
    (real : Real above) : Paired tokens opened (above ++ operands) waiting := by
  induction above with
  | nil => exact h
  | cons tree above ih => exact (ih real.of_cons).operand (real tree (by simp))

theorem fed_append {above outside : List Tree} (real : Real above) (walled : Walled outside) :
    Fed (above ++ outside) ↔ above ≠ [] := by
  cases above with
  | nil =>
    simp only [List.nil_append, ne_eq, not_true_eq_false, iff_false]
    rintro ⟨top, isTop, notMark⟩
    exact notMark (walled top isTop)
  | cons tree above =>
    simp only [ne_eq, reduceCtorEq, not_false_eq_true, iff_true]
    exact ⟨tree, rfl, real tree (by simp)⟩

/-- What is above the latest mark can be exchanged for other operands. -/
theorem Paired.exchange {above left outside : List Tree}
    (h : Paired tokens opened (above ++ outside) waiting) (real : Real above)
    (walled : Walled outside) (realLeft : Real left) (keeps : above ≠ [] → left ≠ []) :
    Paired tokens opened (left ++ outside) waiting := by
  generalize split : above ++ outside = all at h
  induction h generalizing above outside with
  | nil =>
    obtain ⟨rfl, rfl⟩ := List.append_eq_nil_iff.mp split
    exact Paired.nil.add_operands realLeft
  | @operand _ _ operands tree below notMark ih =>
    cases above with
    | nil =>
      obtain rfl : outside = tree :: operands := split
      exact absurd (walled tree rfl) notMark
    | cons top above =>
      obtain ⟨rfl, rest⟩ := List.cons.inj split
      by_cases single : above = []
      · subst single
        obtain rfl : outside = operands := rest
        exact below.add_operands realLeft
      · exact ih real.of_cons walled (fun _ => keeps (by simp)) rest
  | wait paired member joinable fed ih =>
    refine .wait (ih real walled keeps split) member joinable ?_
    intro atFunction
    rw [fed_append realLeft walled]
    apply keeps
    rw [← fed_append real walled, split]
    exact fed atFunction
  | group paired opens noCall ih => exact .group (ih real walled keeps split) opens noCall
  | @call _ _ operands _ opening paired opens isFunction within ih =>
    cases above with
    | nil =>
      obtain rfl : outside = markOf opening :: operands := split
      exact (Paired.call paired opens isFunction within).add_operands realLeft
    | cons top above =>
      obtain ⟨rfl, -⟩ := List.cons.inj split
      exact absurd rfl (real (markOf opening) (by simp))
  | access paired opens isAccess other ih =>
    exact .access (ih real walled keeps split) opens isAccess other

theorem Joined.fed {joined : List Tree} (h : Joined token operands joined) : Fed joined := by
  have real := h.not_isMark
  cases h with
  | unary | binary => exact ⟨_, rfl, real _⟩

theorem Paired.joined {joined : List Tree} (h : Paired tokens opened operands waiting)
    (isJoined : Joined token operands joined) : Paired tokens opened joined waiting := by
  obtain ⟨above, outside, rfl, real, walled⟩ := exists_wall operands
  obtain ⟨left, rfl, realLeft, -⟩ := isJoined.above_wall rfl real walled []
  exact h.exchange real walled realLeft fun _ => (fed_append realLeft walled).mp isJoined.fed

theorem Paired.pop (h : Paired tokens opened operands (token :: waiting))
    (joinable : token.kind.isUnary ∨ token.kind.isBinary) :
    Paired tokens opened operands waiting ∧ token ∈ tokens ∧
      (AtFunction tokens token → Fed operands) := by
  rcases h.top_cases with ⟨paired, member, -, fed⟩ | ⟨outer, -, innermost⟩
  · exact ⟨paired, member, fed⟩
  · have noOpening := isOpening_eq_false joinable
    cases innermost <;> simp_all [Kind.isOpening]

theorem Paired.joins {ready : Token → Prop} {s t : Stacks}
    (h : Paired tokens opened s.operands s.waiting) (joins : Joins ready s t) :
    Paired tokens opened t.operands t.waiting ∧ (Fed s.operands → Fed t.operands) := by
  induction joins with
  | refl s => exact ⟨h, id⟩
  | step _ isJoined _ ih =>
    obtain ⟨paired, -⟩ := h.pop isJoined.isUnary_or_isBinary
    obtain ⟨rest, fed⟩ := ih (paired.joined isJoined)
    exact ⟨rest, fun _ => fed isJoined.fed⟩

theorem Paired.innermost {opening top : Token} {outer : List Token}
    (h : Paired tokens (opening :: outer) operands (top :: waiting))
    (isOpening : top.kind.isOpening = true) :
    top = opening ∧ Innermost tokens opening outer operands waiting := by
  rcases h.top_cases with ⟨-, -, joinable, -⟩ | ⟨_, same, innermost⟩
  · simp [isOpening_eq_false joinable] at isOpening
  · obtain ⟨rfl, rfl⟩ := List.cons.inj same
    exact ⟨rfl, innermost⟩

/-- The bracket that a closing bracket meets is the innermost one that is open. -/
theorem Paired.toOpening {s t : Stacks} {opening : Token} {outer : List Token}
    (paired : Paired tokens (opening :: outer) s.operands s.waiting) (h : s.toOpening = .ok t) :
    ∃ waiting, t.waiting = opening :: waiting ∧ Innermost tokens opening outer t.operands waiting := by
  obtain ⟨joins, stop⟩ := joins_of_toOpening h
  obtain ⟨rest, -⟩ := paired.joins joins
  obtain ⟨operands, waiting⟩ := t
  cases waiting with
  | nil =>
    have none := rest.mem_waiting opening List.mem_cons_self
    cases none
  | cons top below =>
    have isOpening := stop top rfl
    obtain ⟨rfl, innermost⟩ := rest.innermost isOpening
    exact ⟨below, rfl, innermost⟩

end Paired

/-- What is on the stacks after some of the tokens of a source: a function that is the last of them
waits on top. -/
structure PairedAfter (tokens before : List Token) (s : Stacks) : Prop where
  paired : ∃ opened below, stillOpen before = some opened ∧ Paired tokens opened s.operands below ∧
    (s.waiting = below ∧ before.getLast?.map (·.kind) ≠ some .function ∨
      ∃ function ∈ before.getLast?, function.kind = .function ∧ s.waiting = function :: below)
  fed : before.getLast?.map (·.kind) = some .number → Fed s.operands

section Steps

variable {operators : Operators} {functions : FunctionArity}
  {tokens before after opened : List Token} {token : Token} {s t : Stacks}

theorem pairedAfter_nil (tokens : List Token) : PairedAfter tokens [] {} :=
  ⟨⟨[], [], rfl, .nil, .inl ⟨rfl, by simp⟩⟩, by simp⟩

/-- Where no function waits for its parenthesis, what waits is paired with the open brackets. -/
theorem PairedAfter.settled (h : PairedAfter tokens before s)
    (noCall : before.getLast?.map (·.kind) ≠ some .function) :
    ∃ opened, stillOpen before = some opened ∧ Paired tokens opened s.operands s.waiting := by
  obtain ⟨opened, below, isOpen, paired, ⟨rfl, -⟩ | ⟨function, isLast, isFunction, -⟩⟩ := h.paired
  · exact ⟨opened, isOpen, paired⟩
  · simp [Option.mem_def.mp isLast, isFunction] at noCall

/-- A token with operands that begins where a function does has one when it begins to wait. -/
theorem PairedAfter.fed_of_atFunction (h : PairedAfter tokens before s) (lexed : Lexed tokens)
    (split : tokens = before ++ token :: after) (other : token.kind ≠ .function)
    (atFunction : AtFunction tokens token) : Fed s.operands := by
  obtain ⟨function, member, isFunction, sameOffset⟩ := atFunction
  rcases lexed.atFunction before token after split function member isFunction sameOffset.symm with
    rfl | afterNumber
  · exact absurd isFunction other
  · exact h.fed afterNumber

theorem PairedAfter.closes (h : PairedAfter tokens before s) (lexed : Lexed tokens)
    (split : tokens = before ++ token :: after) {bracket : Bracket}
    (closes : token.kind = .closing bracket) :
    ∃ opening outer, stillOpen before = some (opening :: outer) ∧
      opening.kind = .opening bracket ∧ Paired tokens (opening :: outer) s.operands s.waiting ∧
      stillOpen (before ++ [token]) = some outer := by
  obtain ⟨opened, isOpen, paired⟩ := h.settled (lexed.called split (by simp [closes]))
  obtain ⟨outer, isOuter⟩ := lexed.placed.exists_stillOpen
    (show tokens = (before ++ [token]) ++ after by simpa using split)
  have nests : nest opened token = some outer := by
    rw [stillOpen_snoc, isOpen] at isOuter
    exact isOuter
  obtain ⟨opening, rfl, opens⟩ := exists_of_nest_closing closes nests
  exact ⟨opening, outer, isOpen, opens, paired, isOuter⟩

theorem pairedAfter_snoc {opened : List Token} (isOpen : stillOpen (before ++ [token]) = some opened)
    (paired : Paired tokens opened t.operands t.waiting) (noCall : token.kind ≠ .function)
    (noNumber : token.kind ≠ .number) : PairedAfter tokens (before ++ [token]) t := by
  refine ⟨⟨opened, t.waiting, isOpen, paired, .inl ⟨rfl, ?_⟩⟩, ?_⟩
  · simpa using noCall
  · simp [noNumber]

theorem stillOpen_of_other (token : Token) (isOpen : stillOpen before = some opened)
    (noOpening : ∀ bracket, token.kind ≠ .opening bracket)
    (noClosing : ∀ bracket, token.kind ≠ .closing bracket) :
    stillOpen (before ++ [token]) = some opened := by
  rw [stillOpen_snoc, isOpen]
  exact nest_other noOpening noClosing

theorem stillOpen_of_opening (isOpen : stillOpen before = some opened) {bracket : Bracket}
    (opens : token.kind = .opening bracket) :
    stillOpen (before ++ [token]) = some (token :: opened) := by
  rw [stillOpen_snoc, isOpen]
  exact nest_opening opens

theorem PairedAfter.openCall (h : PairedAfter tokens before s)
    (split : tokens = before ++ token :: after) (opens : token.kind = .opening .paren)
    (called : before.getLast?.map (·.kind) = some .function) :
    PairedAfter tokens (before ++ [token]) ⟨markOf token :: s.operands, token :: s.waiting⟩ := by
  obtain ⟨opened, below, isOpen, paired, ⟨-, noCall⟩ | ⟨function, isLast, isFunction, waits⟩⟩ :=
    h.paired
  · exact absurd called noCall
  · obtain ⟨earlier, rfl⟩ := List.getLast?_eq_some_iff.mp isLast
    apply pairedAfter_snoc (stillOpen_of_opening isOpen opens) ?_ (by simp [opens]) (by simp [opens])
    dsimp only
    rw [waits]
    exact .call paired opens isFunction ⟨earlier, after, by simpa using split.symm⟩

theorem PairedAfter.closeGroup {operands : List Tree} {opening : Token} {waiting : List Token}
    (h : PairedAfter tokens before s) (lexed : Lexed tokens)
    (split : tokens = before ++ token :: after) (closes : token.kind = .closing .paren)
    (joins : Joins (·.kind.isOpening = false) s ⟨operands, opening :: waiting⟩)
    (opens : opening.kind.isOpening) (noCall : ∀ top ∈ waiting.head?, top.kind ≠ .function) :
    PairedAfter tokens (before ++ [token]) ⟨operands, waiting⟩ := by
  obtain ⟨own, outer, -, isOwn, paired, isOpen⟩ := h.closes lexed split closes
  obtain ⟨rfl, innermost⟩ := (paired.joins joins).1.innermost opens
  apply pairedAfter_snoc isOpen ?_ (by simp [closes]) (by simp [closes])
  cases innermost with
  | group below => exact below
  | call _ _ isFunction => exact absurd isFunction (noCall _ rfl)
  | access _ _ isAccess => simp [Token.content?, isOwn] at isAccess

theorem PairedAfter.closeCall {operands called : List Tree} {opening function : Token}
    {waiting : List Token} (h : PairedAfter tokens before s) (lexed : Lexed tokens)
    (split : tokens = before ++ token :: after) (closes : token.kind = .closing .paren)
    (joins : Joins (·.kind.isOpening = false) s ⟨operands, opening :: function :: waiting⟩)
    (opens : opening.kind.isOpening) (isFunction : function.kind = .function)
    (result : call functions function operands = .ok called) :
    PairedAfter tokens (before ++ [token]) ⟨called, waiting⟩ := by
  obtain ⟨own, outer, -, isOwn, paired, isOpen⟩ := h.closes lexed split closes
  obtain ⟨rfl, innermost⟩ := (paired.joins joins).1.innermost opens
  apply pairedAfter_snoc isOpen ?_ (by simp [closes]) (by simp [closes])
  cases innermost with
  | group below => exact absurd isFunction (below.not_function function rfl)
  | call below _ _ _ real =>
    obtain ⟨rfl, -⟩ := call_above_mark result rfl real rfl
    refine below.operand ?_
    intro mark
    cases isFunction.symm.trans mark
  | access _ _ isAccess => simp [Token.content?, isOwn] at isAccess

theorem PairedAfter.closeAccess {operands joined : List Tree} {opening access : Token}
    {waiting : List Token} {bracket : Bracket} (h : PairedAfter tokens before s)
    (lexed : Lexed tokens) (split : tokens = before ++ token :: after)
    (closes : token.kind = .closing bracket) (isAccess : bracket ≠ .paren)
    (joins : Joins (·.kind.isOpening = false) s ⟨operands, opening :: access :: waiting⟩)
    (opens : opening.kind.isOpening) (isJoined : Joined access operands joined) :
    PairedAfter tokens (before ++ [token]) ⟨joined, waiting⟩ := by
  obtain ⟨own, outer, -, isOwn, paired, isOpen⟩ := h.closes lexed split closes
  obtain ⟨rfl, innermost⟩ := (paired.joins joins).1.innermost opens
  apply pairedAfter_snoc isOpen ?_ (by simp [closes]) (by simp [closes])
  cases innermost with
  | group _ isParen | call _ isParen =>
    exact absurd (Kind.opening.inj (isOwn.symm.trans isParen)) isAccess
  | access below => exact below.joined isJoined

/-- A token that joins operands has one when it begins to wait, if it needs one that early. -/
theorem PairedAfter.wait {operands : List Tree} {waiting : List Token}
    (h : PairedAfter tokens before s) (lexed : Lexed tokens)
    (split : tokens = before ++ token :: after) (isOpen : stillOpen before = some opened)
    (joinable : token.kind.isUnary ∨ token.kind.isBinary)
    (paired : Paired tokens opened operands waiting) (fed : Fed s.operands → Fed operands) :
    PairedAfter tokens (before ++ [token]) ⟨operands, token :: waiting⟩ := by
  have differs : ∀ kind : Kind, ¬(kind.isUnary ∨ kind.isBinary) → token.kind ≠ kind :=
    fun kind other same => other (same ▸ joinable)
  have noCall : token.kind ≠ .function := differs _ (by simp [Kind.isUnary, Kind.isBinary])
  have same : stillOpen (before ++ [token]) = some opened := by
    apply stillOpen_of_other token isOpen
    · exact fun bracket => differs _ (by simp [Kind.isUnary, Kind.isBinary])
    · exact fun bracket => differs _ (by simp [Kind.isUnary, Kind.isBinary])
  apply pairedAfter_snoc same ?_ noCall (differs _ (by simp [Kind.isUnary, Kind.isBinary]))
  apply Paired.wait paired (by simp [split]) joinable
  intro atFunction
  exact fed (h.fed_of_atFunction lexed split noCall atFunction)

theorem PairedAfter.step (h : PairedAfter tokens before s) (lexed : Lexed tokens)
    (split : tokens = before ++ token :: after)
    (step : Step functions (before.getLast?.map (·.kind)) token s t) :
    PairedAfter tokens (before ++ [token]) t := by
  by_cases isCall : before.getLast?.map (·.kind) = some .function
  · have opens : token.kind = .opening .paren :=
      Classical.byContradiction fun other => lexed.called split other isCall
    cases step with
    | openCall => exact h.openCall split opens isCall
    | openGroup _ other => exact absurd isCall other
    | operand isLeaf => simp [Token.IsLeaf, opens] at isLeaf
    | openAccess isAccess => simp [opens] at isAccess
    | wait kind => simp [opens] at kind
    | operator kind | field kind | comma kind | closeGroup kind | closeCall kind =>
      cases opens.symm.trans kind
    | closeAccess kind => simp [opens] at kind
  · obtain ⟨opened, isOpen, paired⟩ := h.settled isCall
    cases step with
    | operand isLeaf =>
      have real := not_isMark_of_isLeaf isLeaf
      have same := stillOpen_of_other token isOpen
        (by rcases isLeaf with kind | kind | kind <;> simp [kind])
        (by rcases isLeaf with kind | kind | kind <;> simp [kind])
      refine ⟨⟨opened, _, same, paired.operand real, .inl ⟨rfl, ?_⟩⟩, fun _ => ⟨_, rfl, real⟩⟩
      rcases isLeaf with kind | kind | kind <;> simp [kind]
    | wait kind =>
      rcases kind with isFunction | isPrefix
      · have same := stillOpen_of_other token isOpen (by simp [isFunction]) (by simp [isFunction])
        refine ⟨⟨opened, s.waiting, same, paired, .inr ⟨token, by simp, isFunction, rfl⟩⟩, ?_⟩
        simp [isFunction]
      · exact h.wait lexed split isOpen (.inl (by simp [isPrefix, Kind.isUnary])) paired id
    | @operator _ role kind _ joins =>
      obtain ⟨rest, fed⟩ := paired.joins joins
      apply h.wait lexed split isOpen ?_ rest fed
      cases role <;> simp [kind, Kind.isUnary, Kind.isBinary]
    | field kind joins =>
      obtain ⟨rest, fed⟩ := paired.joins joins
      exact h.wait lexed split isOpen (.inr (by simp [kind, Kind.isBinary])) rest fed
    | comma kind joins =>
      have same := stillOpen_of_other token isOpen (by simp [kind]) (by simp [kind])
      exact pairedAfter_snoc same (paired.joins joins).1 (by simp [kind]) (by simp [kind])
    | openGroup kind =>
      apply pairedAfter_snoc (stillOpen_of_opening isOpen kind) ?_ (by simp [kind]) (by simp [kind])
      exact .group paired kind (lexed.not_call split isCall)
    | openCall _ called => exact absurd called isCall
    | openAccess kind isAccess joins =>
      obtain ⟨bracket, opens, isBracket⟩ : ∃ bracket, token.kind = .opening bracket ∧
          bracket ≠ .paren := by
        rcases kind with kind | kind <;> exact ⟨_, kind, by simp⟩
      apply pairedAfter_snoc (stillOpen_of_opening isOpen opens) ?_ (by simp [opens])
        (by simp [opens])
      exact .access (paired.joins joins).1 opens isAccess
        (lexed.not_atFunction split opens isBracket isAccess)
    | closeGroup kind joins opens noCall => exact h.closeGroup lexed split kind joins opens noCall
    | closeCall kind joins opens isFunction result =>
      exact h.closeCall lexed split kind joins opens isFunction result
    | closeAccess kind joins opens isJoined =>
      rcases kind with kind | kind <;>
        exact h.closeAccess lexed split kind (by simp) joins opens isJoined

theorem lastKind_none (tokens : List Token) : lastKind none tokens = tokens.getLast?.map (·.kind) := by
  induction tokens using List.reverseRecOn with
  | nil => rfl
  | append_singleton tokens token => simp [lastKind]

/-- What is on the stacks is paired however far the tokens of a source are read. -/
theorem pairedAfter_of_addAll (lexed : Lexed tokens) (split : tokens = before ++ after)
    (read : addAll operators functions none {} before = .ok s) : PairedAfter tokens before s := by
  induction before using List.reverseRecOn generalizing after s with
  | nil =>
    cases read
    exact pairedAfter_nil tokens
  | append_singleton before token ih =>
    obtain ⟨between, first, last⟩ := addAll_append_eq_ok.mp read
    obtain ⟨_, added, same⟩ := addAll_cons_eq_ok.mp last
    cases same
    have split : tokens = before ++ token :: after := by simpa using split
    rw [lastKind_none] at added
    exact (ih split first).step lexed split (step_of_add added)

end Steps

end Tree.Stacks

end Formulary
