import Formulary.Proofs.Token.Places
import Formulary.Proofs.Tree.Placement
import Mathlib.Data.List.Nodup

set_option autoImplicit false

/-!
# Operands whose tokens stand together

The tokens of a subtree stand together in those of the tree. So where these are in the order of the
source, a node is made of what is next to its operator.
-/

namespace Formulary.Tree

open Stacks Split

/-- The tokens of the tree stand together among other tokens. -/
def Stands (tokens : List Token) (tree : Tree) : Prop :=
  tree.inOrder <:+: tokens

theorem inOrder_infix_flatMap {tree : Tree} {trees : List Tree} (member : tree ∈ trees) :
    tree.inOrder <:+: trees.flatMap inOrder := by
  obtain ⟨before, after, rfl⟩ := List.append_of_mem member
  exact ⟨before.flatMap inOrder, after.flatMap inOrder, by simp⟩

theorem inOrder_infix_of_mem {token : Token} {children : List Tree} {child : Tree}
    (member : child ∈ children) : child.inOrder <:+: (node token children).inOrder := by
  rw [inOrder_node]
  rw [← List.take_append_drop token.kind.before children, List.mem_append] at member
  rcases member with before | after
  · exact (inOrder_infix_flatMap before).trans (List.prefix_append _ _).isInfix
  · exact (inOrder_infix_flatMap after).trans
      ((List.suffix_cons _ _).trans (List.suffix_append _ _)).isInfix

theorem Stands.child {tokens : List Token} {token : Token} {children : List Tree} {child : Tree}
    (h : Stands tokens (node token children)) (member : child ∈ children) : Stands tokens child :=
  (inOrder_infix_of_mem member).trans h

section Before

variable {tokens : List Token}

/-- What stands together after a step stood together before it. -/
theorem stands_before_joined {token : Token} {operands joined : List Tree}
    (h : Joined token operands joined) (stands : ForAll (Stands tokens) joined) :
    ForAll (Stands tokens) operands := by
  have new := h.not_isMark
  cases h with
  | unary =>
    have whole := stands _ List.mem_cons_self (new _)
    intro tree member real
    rcases List.mem_cons.mp member with rfl | inRest
    · exact whole.child (by simp)
    · exact stands tree (by simp [inRest]) real
  | binary =>
    have whole := stands _ List.mem_cons_self (new _)
    intro tree member real
    simp only [List.mem_cons] at member
    rcases member with rfl | rfl | inRest
    · exact whole.child (by simp)
    · exact whole.child (by simp)
    · exact stands tree (by simp [inRest]) real

theorem stands_before_joins {ready : Token → Prop} {s t : Stacks} (h : Joins ready s t)
    (stands : ForAll (Stands tokens) t.operands) : ForAll (Stands tokens) s.operands := by
  induction h with
  | refl s => exact stands
  | step _ isJoined _ ih => exact stands_before_joined isJoined (ih stands)

theorem stands_before_call {functions : FunctionArity} {function : Token}
    {operands called : List Tree} (kind : function.kind = .function)
    (h : call functions function operands = .ok called) (stands : ForAll (Stands tokens) called) :
    ForAll (Stands tokens) operands := by
  obtain ⟨taken, mark, rest, rfl, isMark, -, rfl, -⟩ := call_eq_ok h
  have new : ¬(node function taken.reverse).isMark := by
    intro mark
    cases kind.symm.trans mark
  have whole := stands _ List.mem_cons_self new
  intro tree member real
  simp only [List.mem_append, List.mem_cons] at member
  rcases member with inTaken | rfl | inRest
  · exact whole.child (by simp [inTaken])
  · exact absurd isMark real
  · exact stands tree (by simp [inRest]) real

theorem stands_before_reading {functions : FunctionArity} {outline : Outline} {s t : Stacks}
    (h : Reading functions outline s t) (stands : ForAll (Stands tokens) t.operands) :
    ForAll (Stands tokens) s.operands := by
  induction h with
  | nil s => exact stands
  | operand _ _ ih =>
    have before := ih stands
    intro tree member real
    exact before tree (by simp [member]) real
  | prefixed _ _ ih => exact ih stands
  | operator _ _ joins _ ih | field _ joins _ _ ih | comma _ joins _ ih =>
    exact stands_before_joins joins (ih stands)
  | group _ joins _ inner_ih ih => exact inner_ih (stands_before_joins joins (ih stands))
  | @call function _ _ isCall _ _ _ _ _ _ _ _ _ _ joins result _ inner_ih ih =>
    have before := inner_ih (stands_before_joins joins (stands_before_call isCall result (ih stands)))
    intro tree member real
    exact before tree (by simp [member]) real
  | access _ fields _ _ joins isJoined _ inner_ih ih =>
    have within := stands_before_joins joins (stands_before_joined isJoined (ih stands))
    exact stands_before_joins fields (inner_ih within)

end Before

/-- The operands below a level stand before it, and a token is between them and what follows. -/
structure Below (before : List Token) (below : List Tree) : Prop where
  listed : ForAll (fun tree => ∀ token ∈ tree.inOrder, token ∈ before) below
  apart : ∀ last ∈ before.getLast?, ForAll (fun tree => last ∉ tree.inOrder) below

theorem below_nil : Below [] [] :=
  ⟨by simp [ForAll], by simp⟩

theorem below_snoc {before : List Token} {last : Token} {below : List Tree}
    (listed : ForAll (fun tree => ∀ token ∈ tree.inOrder, token ∈ before) below)
    (fresh : last ∉ before) : Below (before ++ [last]) below := by
  constructor
  · intro tree member real token inTree
    exact List.mem_append_left _ (listed tree member real token inTree)
  · intro other isLast tree member real inTree
    obtain rfl : last = other := by simpa using isLast
    exact fresh (listed tree member real last inTree)

theorem not_mem_of_nodup {before : List Token} {last : Token} (nodup : (before ++ [last]).Nodup) :
    last ∉ before := by
  intro member
  exact (List.nodup_append.mp nodup).2.2 last member last (by simp) rfl

theorem nodup_of_split {tokens first second : List Token} (nodup : tokens.Nodup)
    (split : tokens = first ++ second) : first.Nodup := by
  rw [split] at nodup
  exact (List.nodup_append.mp nodup).1

theorem mem_listed {tree : Tree} {run : List Tree} {token : Token} (member : tree ∈ run)
    (inTree : token ∈ tree.inOrder) : token ∈ listed run :=
  List.mem_flatMap.mpr ⟨tree, List.mem_reverse.mpr member, inTree⟩

theorem mem_listedBefore {tree : Tree} {frames : List (Token × List Tree)} {token : Token}
    (member : tree ∈ outer frames) (inTree : token ∈ tree.inOrder) : token ∈ listedBefore frames := by
  induction frames with
  | nil => cases member
  | cons frame frames ih =>
    rcases List.mem_append.mp member with inRun | inOuter
    · simp [listedBefore, mem_listed inRun inTree]
    · simp [listedBefore, ih inOuter]

namespace Below

variable {before : List Token} {below : List Tree}

/-- What stands last before a level is no operand below it. -/
theorem not_mem (h : Below before below) {earlier : List Token} {tree : Tree} (real : ¬tree.isMark)
    (last : before = earlier ++ tree.inOrder) : tree ∉ below := by
  intro member
  have isLast : tree.inOrder.getLast tree.inOrder_ne_nil ∈ before.getLast? := by
    rw [last, List.getLast?_append_of_ne_nil _ tree.inOrder_ne_nil,
      List.getLast?_eq_some_getLast tree.inOrder_ne_nil]
    exact rfl
  exact h.apart _ isLast tree member real (List.getLast_mem _)

theorem listed_operands (h : Below before below) (s : Split) :
    ForAll (fun tree => ∀ token ∈ tree.inOrder, token ∈ before ++ s.listing)
      (s.operands ++ below) := by
  intro tree member real token inTree
  simp only [Split.operands, listing, List.mem_append] at member ⊢
  rcases member with (inRun | inOuter) | isBelow
  · exact .inr (.inr (mem_listed inRun inTree))
  · exact .inr (.inl (mem_listedBefore inOuter inTree))
  · exact .inl (h.listed tree isBelow real token inTree)

/-- What waits on a level is below those inside of it. -/
theorem outer (h : Below before below) {frames : List (Token × List Tree)}
    (nodup : (before ++ listedBefore frames).Nodup) :
    Below (before ++ listedBefore frames) (Split.outer frames ++ below) := by
  cases frames with
  | nil => simpa [listedBefore, Split.outer] using h
  | cons frame frames =>
    obtain ⟨token, run⟩ := frame
    have split : before ++ listedBefore ((token, run) :: frames) =
        before ++ (⟨run, frames⟩ : Split).listing ++ [token] := by
      simp [listedBefore, listing]
    rw [split] at nodup ⊢
    have inner := below_snoc (h.listed_operands ⟨run, frames⟩) (not_mem_of_nodup nodup)
    simpa [Split.outer, Split.operands] using inner

theorem access (h : Below before below) {s : Split} {accessed : Token}
    (nodup : (before ++ s.listing ++ [accessed]).Nodup) :
    Below (before ++ s.listing ++ [accessed]) (s.operands ++ below) :=
  below_snoc (h.listed_operands s) (not_mem_of_nodup nodup)

theorem call (h : Below before below) {s : Split} {function : Token} {mark : Tree}
    (isMark : mark.isMark) (nodup : (before ++ s.listing ++ [function]).Nodup) :
    Below (before ++ s.listing ++ [function]) (mark :: (s.operands ++ below)) := by
  apply below_snoc ?_ (not_mem_of_nodup nodup)
  exact forAll_of_mark isMark (h.listed_operands s)

end Below

/-- What follows an operator in the source is the only operand after it. -/
theorem run_eq_singleton {before post after : List Token} {token : Token} {run others rest : List Tree}
    {tree : Tree} (nodup : (before ++ token :: (listed run ++ post)).Nodup)
    (split : run ++ others = tree :: rest) (real : ¬tree.isMark)
    (listed_others : ForAll (fun tree => ∀ token ∈ tree.inOrder, token ∈ before) others)
    (next : tree.inOrder ++ after = listed run ++ post) : run = [tree] ∧ others = rest := by
  obtain ⟨head, tail, inOrder⟩ := List.exists_cons_of_ne_nil tree.inOrder_ne_nil
  have inTree : head ∈ tree.inOrder := by simp [inOrder]
  match run with
  | [] =>
    obtain rfl : others = tree :: rest := split
    have inBefore := listed_others tree List.mem_cons_self real head inTree
    have inPost : head ∈ listed [] ++ post := by
      rw [← next]
      exact List.mem_append_left _ inTree
    exact absurd rfl ((List.nodup_append.mp nodup).2.2 head inBefore head (.tail _ inPost))
  | [only] =>
    obtain ⟨rfl, rfl⟩ := List.cons.inj split
    exact ⟨rfl, rfl⟩
  | latest :: second :: run =>
    obtain rfl := (List.cons.inj split).1
    obtain ⟨first, others, earlier⟩ :=
      List.exists_cons_of_ne_nil (show listed (second :: run) ≠ [] by simp [second.inOrder_ne_nil])
    have same : head = first := by
      rw [listed_cons, earlier, inOrder] at next
      simpa using (List.cons.inj next).1
    have distinct := (List.nodup_append.mp (List.nodup_append.mp nodup).2.1.of_cons).1
    rw [listed_cons, List.nodup_append] at distinct
    exact absurd rfl (distinct.2.2 head (by simp [earlier, same]) head inTree)

theorem inOrder_of_joined_unary {token : Token} (unary : token.kind.isUnary)
    (regular : token.kind ≠ .operator .postfixOp) (operand : Tree) :
    token.kind = .operator .prefixOp ∧ (node token [operand]).inOrder = token :: operand.inOrder := by
  have isPrefix : token.kind = .operator .prefixOp := by
    cases kind : token.kind with
    | operator role => cases role <;> simp_all [Kind.isUnary]
    | _ => simp [kind, Kind.isUnary] at unary
  exact ⟨isPrefix, inOrder_prefixed isPrefix operand⟩

/-- Tokens that occur once each, and no operators after their operands among them. -/
structure Regular (tokens : List Token) : Prop where
  nodup : tokens.Nodup
  not_postfixOp : ∀ token ∈ tokens, token.kind ≠ .operator .postfixOp

section Source

variable {tokens before post : List Token} {below : List Tree}

/-- What stands together once it is joined is near. -/
theorem near_of_stands {token : Token} {run earlier : List Tree}
    {frames : List (Token × List Tree)} {joined : List Tree}
    (h : Joined token (run ++ (earlier ++ (outer frames ++ below))) joined)
    (stands : ForAll (Stands tokens) joined) (regular : Regular tokens)
    (split : tokens = before ++ (⟨run, (token, earlier) :: frames⟩ : Split).listing ++ post)
    (under : Below before below) :
    ∃ taken, Near token run earlier taken ∧ joined = taken ++ (outer frames ++ below) := by
  have parts : tokens = (before ++ (⟨earlier, frames⟩ : Split).listing) ++
      token :: (listed run ++ post) := by
    simp [split, listing, listedBefore]
  have others := under.listed_operands ⟨earlier, frames⟩
  rw [Split.operands, List.append_assoc] at others
  have new := h.not_isMark
  have nodup := regular.nodup
  rw [parts] at nodup
  generalize operandsEq : run ++ (earlier ++ (outer frames ++ below)) = operands at h
  cases h with
  | @unary operand rest unary real =>
    have other : token.kind ≠ .operator .postfixOp := regular.not_postfixOp token (by simp [parts])
    obtain ⟨isPrefix, inOrder⟩ := inOrder_of_joined_unary unary other operand
    obtain ⟨x, y, whole⟩ := stands _ List.mem_cons_self (new _)
    have same : before ++ (⟨earlier, frames⟩ : Split).listing ++ token :: (listed run ++ post) =
        x ++ token :: (operand.inOrder ++ y) := by
      rw [← parts, ← whole, inOrder]
      simp
    obtain ⟨-, next⟩ := split_unique nodup same
    obtain ⟨rfl, rfl⟩ := run_eq_singleton nodup operandsEq real others next.symm
    exact ⟨_, .prefixed isPrefix, rfl⟩
  | @binary first second rest binary realSecond realFirst =>
    obtain ⟨x, y, whole⟩ := stands _ List.mem_cons_self (new _)
    have same : before ++ (⟨earlier, frames⟩ : Split).listing ++ token :: (listed run ++ post) =
        (x ++ first.inOrder) ++ token :: (second.inOrder ++ y) := by
      rw [← parts, ← whole, inOrder_binary binary]
      simp
    obtain ⟨previous, next⟩ := split_unique nodup same
    obtain ⟨rfl, isRest⟩ := run_eq_singleton nodup operandsEq realSecond others next.symm
    cases earlier with
    | nil =>
      -- The operand before the operator would reach over the operator that waits below it.
      have last : before ++ listedBefore frames = x ++ first.inOrder := by
        simpa [listing] using previous
      have distinct : (before ++ listedBefore frames).Nodup := by
        simpa [listing] using (List.nodup_append.mp nodup).1
      have underOuter := under.outer distinct
      have isBelow : first ∈ outer frames ++ below := by
        rw [List.nil_append] at isRest
        simp [isRest]
      exact absurd isBelow (underOuter.not_mem realFirst last)
    | cons own earlier =>
      obtain ⟨rfl, rfl⟩ := List.cons.inj isRest
      exact ⟨_, .binary binary, rfl⟩

theorem settles_of_stands {ready : Token → Prop} {s : Split} {t : Stacks}
    (h : Joins ready (s.toStacks below) t) (stands : ForAll (Stands tokens) t.operands)
    (regular : Regular tokens) (split : tokens = before ++ s.listing ++ post)
    (under : Below before below) :
    ∃ u, Settles ready s u ∧ t = u.toStacks below := by
  obtain ⟨u, settles, result, -⟩ := settles_of_joins
    (P := fun s => tokens = before ++ s.listing ++ post) (by
      intro token run earlier frames joined _ splitHere isJoined joins
      have standsJoined := stands_before_joins joins stands
      obtain ⟨taken, near, rfl⟩ := near_of_stands isJoined standsJoined regular splitHere under
      refine ⟨taken, near, rfl, ?_⟩
      rw [splitHere]
      simp [listing, listedBefore, near.listed_eq]) h split
  exact ⟨u, settles, result⟩

theorem settles_to_bottom_of_stands {ready : Token → Prop} {s : Split} {joined : List Tree}
    (h : Joins ready (s.toStacks below) ⟨joined, []⟩) (stands : ForAll (Stands tokens) joined)
    (regular : Regular tokens) (split : tokens = before ++ s.listing ++ post)
    (under : Below before below) :
    ∃ run, Settles ready s ⟨run, []⟩ ∧ joined = run ++ below := by
  obtain ⟨u, settles, bottom⟩ := settles_of_stands h stands regular split under
  obtain ⟨run, rfl, rfl⟩ := eq_nil_of_toStacks bottom
  exact ⟨run, settles, rfl⟩

@[simp] theorem listing_nil : ({} : Split).listing = [] := rfl

theorem listing_wait (s : Split) (token : Token) :
    (⟨[], (token, s.run) :: s.frames⟩ : Split).listing = s.listing ++ [token] := by
  simp [listing, listedBefore]

end Source

/-- Where the trees have their tokens together, each operator takes the operands near to it. -/
theorem placed_of_stands {functions : FunctionArity} {outline : Outline} {x y : Stacks}
    {tokens before post : List Token} (h : Reading functions outline x y) {s : Split}
    {below : List Tree} (start : x = s.toStacks below)
    (stands : ForAll (Stands tokens) y.operands) (regular : Regular tokens)
    (split : tokens = before ++ s.listing ++ (content outline.tokens ++ post))
    (under : Below before below) :
    ∃ u, Placed outline s u ∧ y = u.toStacks below := by
  induction h generalizing s below before post with
  | nil => exact ⟨s, .nil s, start⟩
  | @operand token _ rest _ _ isLeaf _ ih =>
    subst start
    have next : tokens = before ++ (⟨leaf token :: s.run, s.frames⟩ : Split).listing ++
        (content rest.tokens ++ post) := by
      simp [split, listing, Outline.tokens, isLeaf.content?_eq]
    obtain ⟨u, placed, result⟩ :=
      ih (s := ⟨leaf token :: s.run, s.frames⟩) rfl stands next under
    exact ⟨u, .operand isLeaf placed, result⟩
  | @prefixed token _ rest _ _ kind _ ih =>
    subst start
    have next : tokens = before ++ (⟨[], (token, s.run) :: s.frames⟩ : Split).listing ++
        (content rest.tokens ++ post) := by
      simp [split, listing_wait, Outline.tokens, Token.content?, kind]
    obtain ⟨u, placed, result⟩ :=
      ih (s := ⟨[], (token, s.run) :: s.frames⟩) rfl stands next under
    exact ⟨u, .prefixed kind placed, result⟩
  | @operator token _ rest _ between _ role kind notPrefix joins reading ih =>
    subst start
    have standsBetween := stands_before_reading reading stands
    obtain ⟨v, settles, rfl⟩ := settles_of_stands joins standsBetween regular split under
    have next : tokens = before ++ (⟨[], (token, v.run) :: v.frames⟩ : Split).listing ++
        (content rest.tokens ++ post) := by
      simp [split, listing_wait, settles.listing_eq, Outline.tokens, Token.content?, kind]
    have isInfix : token.kind = .operator .infixOp := by
      have other := regular.not_postfixOp token (by simp [next, listing_wait])
      cases role <;> simp_all
    obtain ⟨u, placed, result⟩ :=
      ih (s := ⟨[], (token, v.run) :: v.frames⟩) rfl stands next under
    exact ⟨u, .infixed isInfix settles placed, result⟩
  | @field token _ rest _ between _ kind joins stop reading ih =>
    subst start
    have standsBetween := stands_before_reading reading stands
    obtain ⟨v, settles, rfl⟩ := settles_of_stands joins standsBetween regular split under
    have next : tokens = before ++ (⟨[], (token, v.run) :: v.frames⟩ : Split).listing ++
        (content rest.tokens ++ post) := by
      simp [split, listing_wait, settles.listing_eq, Outline.tokens, Token.content?, kind]
    obtain ⟨u, placed, result⟩ :=
      ih (s := ⟨[], (token, v.run) :: v.frames⟩) rfl stands next under
    exact ⟨u, .field kind settles stop placed, result⟩
  | @comma token _ rest _ _ joined kind joins reading ih =>
    subst start
    have standsJoined := stands_before_reading reading stands
    obtain ⟨run, settles, rfl⟩ :=
      settles_to_bottom_of_stands joins standsJoined regular split under
    have next : tokens = before ++ (⟨run, []⟩ : Split).listing ++
        (content rest.tokens ++ post) := by
      simp [split, settles.listing_eq, Outline.tokens, Token.content?, kind]
    obtain ⟨u, placed, result⟩ := ih (toStacks_nil run below).symm stands next under
    exact ⟨u, .comma kind settles placed, result⟩
  | @group opening closing opens closes inner rest _ within _ joined _ joins reading inner_ih ih =>
    subst start
    have standsJoined := stands_before_reading reading stands
    have standsWithin := stands_before_joins joins standsJoined
    have inside : tokens = (before ++ listedBefore s.frames) ++ (⟨s.run, []⟩ : Split).listing ++
        (content inner.tokens ++ (content rest.tokens ++ post)) := by
      simp [split, listing, listedBefore, Outline.tokens, Token.content?, opens, closes]
    have underInner := under.outer
      (nodup_of_split regular.nodup (inside.trans (List.append_assoc ..)))
    obtain ⟨v, placedInner, rfl⟩ :=
      inner_ih (toStacks_inner s below).symm standsWithin inside underInner
    have splitInner : tokens = (before ++ listedBefore s.frames) ++ v.listing ++
        (content rest.tokens ++ post) := by
      simp [inside, placedInner.listing_eq]
    obtain ⟨run, settles, rfl⟩ :=
      settles_to_bottom_of_stands joins standsJoined regular splitInner underInner
    have next : tokens = before ++ (⟨run, s.frames⟩ : Split).listing ++
        (content rest.tokens ++ post) := by
      rw [splitInner, ← settles.listing_eq]
      simp [listing, listedBefore]
    obtain ⟨u, placed, result⟩ := ih (toStacks_outer s run below).symm stands next under
    exact ⟨u, .group placedInner settles placed, result⟩
  | @call function opening closing isCall opens closes inner rest _ within _ joined called
      readingInner joins result reading inner_ih ih =>
    subst start
    have standsJoined := stands_before_call isCall result (stands_before_reading reading stands)
    have standsWithin := stands_before_joins joins standsJoined
    have inside : tokens = (before ++ s.listing ++ [function]) ++ ({} : Split).listing ++
        (content inner.tokens ++ (content rest.tokens ++ post)) := by
      simp [split, Outline.tokens, Token.content?, isCall, opens, closes]
    have isMark : (leaf { opening with kind := .argumentsStart }).isMark := rfl
    have underInner := under.call isMark
      (nodup_of_split regular.nodup (inside.trans (List.append_assoc ..)))
    obtain ⟨v, placedInner, rfl⟩ :=
      inner_ih (toStacks_nil [] _).symm standsWithin inside underInner
    have splitInner : tokens = (before ++ s.listing ++ [function]) ++ v.listing ++
        (content rest.tokens ++ post) := by
      simp [inside, placedInner.listing_eq]
    obtain ⟨args, settles, argsSplit⟩ :=
      settles_to_bottom_of_stands joins standsJoined regular splitInner underInner
    obtain ⟨taken, takenSplit, rfl, -, -⟩ := readingInner.call_eq joins rfl result
    obtain rfl := List.append_cancel_right (argsSplit.symm.trans takenSplit)
    have called : (node function args.reverse).inOrder = function :: listed args :=
      inOrder_call isCall _
    have next : tokens = before ++
        (⟨node function args.reverse :: s.run, s.frames⟩ : Split).listing ++
        (content rest.tokens ++ post) := by
      rw [splitInner, ← settles.listing_eq]
      simp [listing, listedBefore, called]
    obtain ⟨u, placed, result⟩ :=
      ih (s := ⟨node function args.reverse :: s.run, s.frames⟩) rfl stands next under
    exact ⟨u, .call placedInner settles placed, result⟩
  | @access opening closing accessed _ _ opens closes inner rest _ between within _ joined results
      isAccessed joinsFields stop readingInner joins isJoined reading inner_ih ih =>
    subst start
    have standsResults := stands_before_reading reading stands
    have standsJoined := stands_before_joined isJoined standsResults
    have standsWithin := stands_before_joins joins standsJoined
    have standsBetween := stands_before_reading readingInner standsWithin
    obtain ⟨v, settlesFields, rfl⟩ :=
      settles_of_stands joinsFields standsBetween regular split under
    have ends : closing.content? = none := by simp [Token.content?, closes]
    have inside : tokens = (before ++ v.listing ++ [accessed]) ++ ({} : Split).listing ++
        (content inner.tokens ++ (content rest.tokens ++ post)) := by
      simp [split, settlesFields.listing_eq, Outline.tokens, isAccessed, ends]
    have underInner := under.access
      (nodup_of_split regular.nodup (inside.trans (List.append_assoc ..)))
    obtain ⟨w, placedInner, rfl⟩ :=
      inner_ih (toStacks_nil [] _).symm standsWithin inside underInner
    have splitInner : tokens = (before ++ v.listing ++ [accessed]) ++ w.listing ++
        (content rest.tokens ++ post) := by
      simp [inside, placedInner.listing_eq]
    obtain ⟨key, settles, rfl⟩ :=
      settles_to_bottom_of_stands joins standsJoined regular splitInner underInner
    have splitKey : tokens = before ++
        (⟨key, (accessed, v.run) :: v.frames⟩ : Split).listing ++ (content rest.tokens ++ post) := by
      rw [splitInner, ← settles.listing_eq]
      simp [listing, listedBefore]
    have isJoined : Joined accessed (key ++ (v.run ++ (outer v.frames ++ below))) results := by
      simpa [Split.operands] using isJoined
    obtain ⟨taken, near, rfl⟩ := near_of_stands isJoined standsResults regular splitKey under
    have next : tokens = before ++ (⟨taken, v.frames⟩ : Split).listing ++
        (content rest.tokens ++ post) := by
      simp [splitKey, listing, listedBefore, near.listed_eq]
    obtain ⟨u, placed, result⟩ := ih (toStacks_outer v taken below).symm stands next under
    exact ⟨u, .access isAccessed settlesFields stop placedInner settles near placed, result⟩

end Formulary.Tree
