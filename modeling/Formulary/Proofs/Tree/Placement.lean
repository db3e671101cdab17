import Formulary.Proofs.Tree.Tally
import Formulary.Proofs.Tree.Walls

set_option autoImplicit false

/-!
# Operators that take the operands next to them

The operands of a level are split by the operators that wait between them. As long as each operator
takes the operand after it, and the one before it if it has two, the tokens stay in their order, and
the operands can be counted instead.
-/

namespace Formulary.Tree

open Stacks

/-- The operands since the latest operator that waits on a level, and the operators, each with the
operands between it and the one before. The latest stands first in all of these. -/
structure Split where
  run : List Tree := []
  frames : List (Token × List Tree) := []

/-- The tokens of operands in the order of the source. -/
def listed (run : List Tree) : List Token :=
  run.reverse.flatMap inOrder

@[simp] theorem listed_nil : listed [] = [] := rfl

@[simp] theorem listed_cons (tree : Tree) (run : List Tree) :
    listed (tree :: run) = listed run ++ tree.inOrder := by
  simp [listed]

namespace Split

def outer (frames : List (Token × List Tree)) : List Tree :=
  frames.flatMap (·.2)

def operands (s : Split) : List Tree :=
  s.run ++ outer s.frames

def waiting (s : Split) : List Token :=
  s.frames.map (·.1)

def toStacks (s : Split) (below : List Tree) : Stacks :=
  ⟨s.operands ++ below, s.waiting⟩

def pending (s : Split) : List (Kind × Nat) :=
  s.frames.map fun frame => (frame.1.kind, frame.2.length)

/-- The tokens up to the latest operator that waits. -/
def listedBefore : List (Token × List Tree) → List Token
  | [] => []
  | (token, run) :: frames => listedBefore frames ++ listed run ++ [token]

def listing (s : Split) : List Token :=
  listedBefore s.frames ++ listed s.run

end Split

open Split

/-- An operator takes the only operand after it, and the last one before it if it has two. -/
inductive Near (token : Token) : List Tree → List Tree → List Tree → Prop
  | prefixed {operand : Tree} {before : List Tree} :
      token.kind = .operator .prefixOp →
      Near token [operand] before (node token [operand] :: before)
  | binary {first second : Tree} {before : List Tree} :
      token.kind.isBinary →
      Near token [second] (first :: before) (node token [first, second] :: before)

theorem Near.listed_eq {token : Token} {run before taken : List Tree}
    (h : Near token run before taken) : listed taken = listed before ++ token :: listed run := by
  cases h with
  | prefixed kind => simp [inOrder_prefixed kind]
  | binary kind => simp [inOrder_binary kind]

theorem Near.finish_eq {token : Token} {run before taken : List Tree}
    (h : Near token run before taken) :
    Tally.finish token.kind before.length run.length = some taken.length := by
  cases h with
  | prefixed kind => exact Tally.finish_eq_some.mpr ⟨rfl, .inl ⟨kind, rfl⟩⟩
  | binary kind => exact Tally.finish_eq_some.mpr ⟨rfl, .inr ⟨kind, by simp, rfl⟩⟩

theorem Near.taken_ne_nil {token : Token} {run before taken : List Tree}
    (h : Near token run before taken) : run ≠ [] ∧ taken ≠ [] := by
  cases h <;> simp

theorem Stacks.Joined.of_unary {token : Token} {operand : Tree} {rest joined : List Tree}
    (unary : token.kind.isUnary) (h : Joined token (operand :: rest) joined) :
    joined = node token [operand] :: rest := by
  cases h with
  | unary => rfl
  | binary binary => simp [Kind.isBinary_of_isUnary unary] at binary

theorem Stacks.Joined.of_binary {token : Token} {first second : Tree} {rest joined : List Tree}
    (binary : token.kind.isBinary) (h : Joined token (second :: first :: rest) joined) :
    joined = node token [first, second] :: rest := by
  cases h with
  | unary unary => simp [Kind.isBinary_of_isUnary unary] at binary
  | binary => rfl

/-- What can be counted is near. -/
theorem near_of_finish {token : Token} {run before rest joined : List Tree} {count : Nat}
    (finished : Tally.finish token.kind before.length run.length = some count)
    (h : Joined token (run ++ (before ++ rest)) joined) :
    ∃ taken, Near token run before taken ∧ joined = taken ++ rest ∧ taken.length = count := by
  obtain ⟨one, cases⟩ := Tally.finish_eq_some.mp finished
  obtain ⟨operand, rfl⟩ := List.length_eq_one_iff.mp one
  rcases cases with ⟨isPrefix, rfl⟩ | ⟨binary, positive, rfl⟩
  · exact ⟨_, .prefixed isPrefix, h.of_unary (by simp [isPrefix, Kind.isUnary]), rfl⟩
  · obtain ⟨first, before, rfl⟩ := List.exists_cons_of_length_pos positive
    exact ⟨_, .binary binary, h.of_binary binary, rfl⟩

/-- Some of the operators that wait take the operands near to them, the latest first. -/
inductive Settles (ready : Token → Prop) : Split → Split → Prop
  | refl (s : Split) : Settles ready s s
  | step {token : Token} {run before taken : List Tree} {frames : List (Token × List Tree)}
      {t : Split} :
      ready token → Near token run before taken → Settles ready ⟨taken, frames⟩ t →
      Settles ready ⟨run, (token, before) :: frames⟩ t

namespace Settles

variable {ready : Token → Prop} {s t : Split}

theorem listing_eq (h : Settles ready s t) : t.listing = s.listing := by
  induction h with
  | refl s => rfl
  | step _ near _ ih =>
    rw [ih]
    simp [listing, listedBefore, near.listed_eq]

theorem complete_eq (h : Settles ready s t) :
    Tally.complete t.run.length t.pending = Tally.complete s.run.length s.pending := by
  induction h with
  | refl s => rfl
  | step _ near _ ih =>
    rw [ih]
    simp [pending, Tally.complete, near.finish_eq]

theorem run_eq_nil_iff (h : Settles ready s t) : t.run = [] ↔ s.run = [] := by
  induction h with
  | refl s => rfl
  | step _ near _ ih => simp [ih, near.taken_ne_nil.1, near.taken_ne_nil.2]

theorem fieldsAt_eq (h : Settles (·.kind = .field) s t)
    (stop : ∀ top ∈ t.waiting.head?, top.kind ≠ .field) :
    Tally.fieldsAt s.run.length s.pending = some ⟨t.run.length, t.pending⟩ := by
  induction h with
  | refl s =>
    apply Tally.fieldsAt_of_ne ?_ _
    intro top isTop
    simp only [pending, List.head?_map, Option.mem_def, Option.map_eq_some_iff] at isTop
    obtain ⟨frame, isFrame, rfl⟩ := isTop
    exact stop frame.1 (by simp [Split.waiting, isFrame])
  | @step token run before taken frames t isField near _ ih =>
    have kind : token.kind = .field := isField
    have finished := near.finish_eq
    rw [kind] at finished
    simp only [pending, List.map_cons, Tally.fieldsAt, kind, if_true, finished, Option.bind_some]
    exact ih stop

end Settles

/-- Operators that are joined settle, if what holds before a join makes it near and holds after. -/
theorem settles_of_joins {ready : Token → Prop} {below : List Tree} {t : Stacks}
    {P : Split → Prop}
    (near : ∀ (token : Token) (run before : List Tree) (frames : List (Token × List Tree))
      (joined : List Tree), ready token → P ⟨run, (token, before) :: frames⟩ →
      Joined token (run ++ (before ++ (outer frames ++ below))) joined →
      Joins ready ⟨joined, frames.map (·.1)⟩ t →
      ∃ taken, Near token run before taken ∧ joined = taken ++ (outer frames ++ below) ∧
        P ⟨taken, frames⟩)
    {s : Split} (h : Joins ready (s.toStacks below) t) (holds : P s) :
    ∃ u, Settles ready s u ∧ t = u.toStacks below ∧ P u := by
  generalize eq : s.toStacks below = start at h
  induction h generalizing s with
  | refl start => exact ⟨s, .refl s, eq.symm, holds⟩
  | @step token waiting operands joined t isReady isJoined joins ih =>
    obtain ⟨run, frames⟩ := s
    obtain ⟨split, isWaiting⟩ := Stacks.mk.inj eq
    cases frames with
    | nil => cases isWaiting
    | cons frame frames =>
      obtain ⟨own, before⟩ := frame
      obtain ⟨rfl, rfl⟩ := List.cons.inj isWaiting
      have whole : operands = run ++ (before ++ (outer frames ++ below)) := by
        simp [← split, Split.operands, outer]
      subst whole
      obtain ⟨taken, isNear, rfl, kept⟩ := near _ _ _ _ _ isReady holds isJoined joins
      obtain ⟨u, settles, result, keptAfter⟩ :=
        ih near kept (by simp [toStacks, Split.operands, Split.waiting])
      exact ⟨u, .step isReady isNear settles, result, keptAfter⟩

theorem settles_of_complete {ready : Token → Prop} {below : List Tree} {s : Split} {t : Stacks}
    {count : Nat} (h : Joins ready (s.toStacks below) t)
    (completes : Tally.complete s.run.length s.pending = some count) :
    ∃ u, Settles ready s u ∧ t = u.toStacks below := by
  obtain ⟨u, settles, result, -⟩ := settles_of_joins
    (P := fun s => Tally.complete s.run.length s.pending = some count) (by
      intro token run before frames joined _ completes isJoined _
      obtain ⟨after, finished, completesAfter⟩ := Option.bind_eq_some_iff.mp completes
      obtain ⟨taken, near, rfl, rfl⟩ := near_of_finish finished isJoined
      exact ⟨taken, near, rfl, completesAfter⟩) h completes
  exact ⟨u, settles, result⟩

theorem settles_of_fields {below : List Tree} {s : Split} {t : Stacks} {object : Tally}
    (h : Joins (·.kind = .field) (s.toStacks below) t)
    (fields : Tally.fieldsAt s.run.length s.pending = some object) :
    ∃ u, Settles (·.kind = .field) s u ∧ t = u.toStacks below := by
  obtain ⟨u, settles, result, -⟩ := settles_of_joins
    (P := fun s => Tally.fieldsAt s.run.length s.pending = some object) (by
      intro token run before frames joined isField fields isJoined _
      simp only [pending, List.map_cons, Tally.fieldsAt, if_pos isField] at fields
      obtain ⟨after, finished, fieldsAfter⟩ := Option.bind_eq_some_iff.mp fields
      obtain ⟨taken, near, rfl, rfl⟩ := near_of_finish finished isJoined
      exact ⟨taken, near, rfl, fieldsAfter⟩) h fields
  exact ⟨u, settles, result⟩

/-- Whether operators settle before an infix operator makes no difference. -/
theorem Settles.alike_infixed {ready : Token → Prop} {s between : Split}
    {pending : List (Kind × Nat)} (settles : Settles ready s between)
    (alike : Tally.Alike pending s.pending) :
    Tally.Alike ((.operator .infixOp, s.run.length) :: pending)
      ((.operator .infixOp, between.run.length) :: between.pending) := by
  apply Tally.alike_of_complete ((alike.complete_eq _).trans settles.complete_eq.symm)
  simp [settles.run_eq_nil_iff]

theorem completed_of_settles {ready : Token → Prop} {s : Split} {run : List Tree}
    {pending : List (Kind × Nat)} (alike : Tally.Alike pending s.pending)
    (settles : Settles ready s ⟨run, []⟩) :
    Tally.completed ⟨s.run.length, pending⟩ = some run.length :=
  (alike.complete_eq _).trans settles.complete_eq.symm

/-- Reading an outline in which each operator that is joined is near to its operands. -/
inductive Placed : Outline → Split → Split → Prop
  | nil (s : Split) : Placed .nil s s
  | operand {token : Token} {plain : token.kind.isPlain = true} {rest : Outline} {s t : Split} :
      token.IsLeaf → Placed rest ⟨leaf token :: s.run, s.frames⟩ t →
      Placed (.item token plain rest) s t
  | prefixed {token : Token} {plain : token.kind.isPlain = true} {rest : Outline} {s t : Split} :
      token.kind = .operator .prefixOp → Placed rest ⟨[], (token, s.run) :: s.frames⟩ t →
      Placed (.item token plain rest) s t
  | infixed {token : Token} {plain : token.kind.isPlain = true} {rest : Outline}
      {s between t : Split} :
      token.kind = .operator .infixOp → Settles (fun _ => True) s between →
      Placed rest ⟨[], (token, between.run) :: between.frames⟩ t →
      Placed (.item token plain rest) s t
  | field {token : Token} {plain : token.kind.isPlain = true} {rest : Outline}
      {s between t : Split} :
      token.kind = .field → Settles (·.kind = .field) s between →
      (∀ top ∈ between.waiting.head?, top.kind ≠ .field) →
      Placed rest ⟨[], (token, between.run) :: between.frames⟩ t →
      Placed (.item token plain rest) s t
  | comma {token : Token} {plain : token.kind.isPlain = true} {rest : Outline} {s t : Split}
      {run : List Tree} :
      token.kind = .comma → Settles (fun _ => True) s ⟨run, []⟩ → Placed rest ⟨run, []⟩ t →
      Placed (.item token plain rest) s t
  | group {opening closing : Token} {opens : opening.kind = .opening .paren}
      {closes : closing.kind = .closing .paren} {inner rest : Outline} {s within t : Split}
      {run : List Tree} :
      Placed inner ⟨s.run, []⟩ within → Settles (fun _ => True) within ⟨run, []⟩ →
      Placed rest ⟨run, s.frames⟩ t →
      Placed (.group opening closing opens closes inner rest) s t
  | call {function opening closing : Token} {isCall : function.kind = .function}
      {opens : opening.kind = .opening .paren} {closes : closing.kind = .closing .paren}
      {inner rest : Outline} {s within t : Split} {args : List Tree} :
      Placed inner {} within → Settles (fun _ => True) within ⟨args, []⟩ →
      Placed rest ⟨node function args.reverse :: s.run, s.frames⟩ t →
      Placed (.call function opening closing isCall opens closes inner rest) s t
  | access {opening closing accessed : Token} {bracket : Bracket} {isAccess : bracket ≠ .paren}
      {opens : opening.kind = .opening bracket} {closes : closing.kind = .closing bracket}
      {inner rest : Outline} {s between within t : Split} {key taken : List Tree} :
      opening.content? = some accessed → Settles (·.kind = .field) s between →
      (∀ top ∈ between.waiting.head?, top.kind ≠ .field) → Placed inner {} within →
      Settles (fun _ => True) within ⟨key, []⟩ → Near accessed key between.run taken →
      Placed rest ⟨taken, between.frames⟩ t →
      Placed (.access opening closing bracket isAccess opens closes inner rest) s t

namespace Placed

variable {outline : Outline} {s t : Split}

/-- The tokens stay in the order of the source. -/
theorem listing_eq (h : Placed outline s t) :
    t.listing = s.listing ++ content outline.tokens := by
  induction h with
  | nil s => simp [Outline.tokens]
  | operand isLeaf _ ih =>
    rw [ih]
    simp [Outline.tokens, listing, isLeaf.content?_eq]
  | prefixed kind _ ih =>
    rw [ih]
    simp [Outline.tokens, listing, listedBefore, Token.content?, kind]
  | infixed kind settles _ ih | field kind settles _ _ ih =>
    rw [ih, ← settles.listing_eq]
    simp [Outline.tokens, listing, listedBefore, Token.content?, kind]
  | comma kind settles _ ih =>
    rw [ih, ← settles.listing_eq]
    simp [Outline.tokens, listing, listedBefore, Token.content?, kind]
  | @group opening closing opens closes inner _ s _ _ run _ settles _ inner_ih ih =>
    have within : listed run = listed s.run ++ content inner.tokens :=
      settles.listing_eq.trans inner_ih
    rw [ih]
    simp [Outline.tokens, listing, within, Token.content?, opens, closes]
  | @call function opening closing isCall opens closes inner _ s _ _ args _ settles _ inner_ih ih =>
    have within : listed args = content inner.tokens := settles.listing_eq.trans inner_ih
    have called : (node function args.reverse).inOrder = function :: listed args :=
      inOrder_call isCall _
    rw [ih]
    simp [Outline.tokens, listing, called, within, Token.content?, isCall, opens, closes]
  | @access opening closing accessed bracket _ opens closes inner _ s between _ _ key taken
      isAccessed settles _ _ settlesKey near _ inner_ih ih =>
    have within : listed key = content inner.tokens := settlesKey.listing_eq.trans inner_ih
    have object := settles.listing_eq
    have ends : closing.content? = none := by simp [Token.content?, closes]
    simp only [listing] at object
    rw [ih]
    simp [Outline.tokens, listing, near.listed_eq, within, isAccessed, ends, ← object]

/-- The operands can be counted, also if other operators wait that are completed alike. -/
theorem tally_eq (h : Placed outline s t) {pending : List (Kind × Nat)}
    (alike : Tally.Alike pending s.pending) :
    ∃ rest, outline.tally ⟨s.run.length, pending⟩ = some ⟨t.run.length, rest⟩ ∧
      Tally.Alike rest t.pending := by
  induction h generalizing pending with
  | nil s => exact ⟨pending, rfl, alike⟩
  | operand isLeaf _ ih =>
    obtain ⟨rest, read, alikeRest⟩ := ih alike
    exact ⟨rest, (Outline.tally_leaf isLeaf).trans read, alikeRest⟩
  | @prefixed token _ _ s _ kind _ ih =>
    have next := alike.cons (token.kind, s.run.length)
    obtain ⟨rest, read, alikeRest⟩ := ih next
    rw [kind] at read
    exact ⟨rest, (Outline.tally_operator kind).trans read, alikeRest⟩
  | @infixed token _ _ s between _ kind settles _ ih =>
    have next := settles.alike_infixed alike
    rw [← kind] at next
    obtain ⟨rest, read, alikeRest⟩ := ih next
    rw [kind] at read
    exact ⟨rest, (Outline.tally_operator kind).trans read, alikeRest⟩
  | @field token _ _ s between _ kind settles stop _ ih =>
    obtain ⟨object, found, alikeObject⟩ := alike.symm.fieldsAt (settles.fieldsAt_eq stop)
    have next := alikeObject.symm.cons (token.kind, between.run.length)
    obtain ⟨rest, read, alikeRest⟩ := ih next
    refine ⟨rest, ?_, alikeRest⟩
    rw [kind] at read
    rw [Outline.tally_field kind, Tally.fields, found]
    exact read
  | comma kind settles _ ih =>
    obtain ⟨rest, read, alikeRest⟩ := ih Tally.alike_nil
    refine ⟨rest, ?_, alikeRest⟩
    rw [Outline.tally_comma kind, completed_of_settles alike settles]
    exact read
  | group _ settles _ inner_ih ih =>
    obtain ⟨within, readInner, alikeInner⟩ := inner_ih Tally.alike_nil
    obtain ⟨rest, read, alikeRest⟩ := ih alike
    refine ⟨rest, ?_, alikeRest⟩
    rw [Outline.tally, readInner, Option.bind_some, completed_of_settles alikeInner settles]
    exact read
  | @call _ _ _ _ _ _ inner _ _ within _ _ _ settles _ inner_ih ih =>
    obtain ⟨innerRest, readInner, alikeInner⟩ :
        ∃ rest, inner.tally {} = some ⟨within.run.length, rest⟩ ∧ Tally.Alike rest within.pending :=
      inner_ih Tally.alike_nil
    obtain ⟨rest, read, alikeRest⟩ := ih alike
    refine ⟨rest, ?_, alikeRest⟩
    rw [Outline.tally, readInner, Option.bind_some, completed_of_settles alikeInner settles]
    exact read
  | @access _ _ accessed _ _ opens _ inner _ s between within _ _ _ isAccessed settles stop _
      settlesKey near _ inner_ih ih =>
    obtain ⟨object, found, alikeObject⟩ := alike.symm.fieldsAt (settles.fieldsAt_eq stop)
    obtain ⟨innerRest, readInner, alikeInner⟩ :
        ∃ rest, inner.tally {} = some ⟨within.run.length, rest⟩ ∧ Tally.Alike rest within.pending :=
      inner_ih Tally.alike_nil
    obtain ⟨rest, read, alikeRest⟩ := ih alikeObject.symm
    refine ⟨rest, ?_, alikeRest⟩
    have finished := near.finish_eq
    rw [Tally.finish_of_isBinary (Token.isBinary_of_content? opens isAccessed)] at finished
    rw [Outline.tally, Tally.fields, found, Option.bind_some, readInner, Option.bind_some,
      completed_of_settles alikeInner settlesKey, Option.bind_some, finished]
    exact read

end Placed

theorem pending_wait (s : Split) (token : Token) :
    (⟨[], (token, s.run) :: s.frames⟩ : Split).pending =
      (token.kind, s.run.length) :: s.pending := rfl

theorem toStacks_nil (run below : List Tree) :
    (⟨run, []⟩ : Split).toStacks below = ⟨run ++ below, []⟩ := by
  simp [toStacks, Split.operands, Split.waiting, outer]

theorem toStacks_inner (s : Split) (below : List Tree) :
    (⟨s.run, []⟩ : Split).toStacks (outer s.frames ++ below) = ⟨(s.toStacks below).operands, []⟩ := by
  rw [toStacks_nil, toStacks, Split.operands, List.append_assoc]

theorem toStacks_outer (s : Split) (run below : List Tree) :
    (⟨run, s.frames⟩ : Split).toStacks below =
      ⟨run ++ (outer s.frames ++ below), (s.toStacks below).waiting⟩ := by
  simp [toStacks, Split.operands, Split.waiting]

theorem eq_nil_of_toStacks {joined below : List Tree} {u : Split} (h : ⟨joined, []⟩ = u.toStacks below) :
    ∃ run, u = ⟨run, []⟩ ∧ joined = run ++ below := by
  obtain ⟨run, frames⟩ := u
  obtain ⟨rfl, waiting⟩ := Stacks.mk.inj h
  cases frames with
  | nil => exact ⟨run, rfl, by simp [Split.operands, outer]⟩
  | cons => cases waiting

theorem settles_to_bottom {ready : Token → Prop} {below joined : List Tree} {s : Split}
    {pending : List (Kind × Nat)} {count : Nat} (h : Joins ready (s.toStacks below) ⟨joined, []⟩)
    (alike : Tally.Alike pending s.pending)
    (completes : Tally.completed ⟨s.run.length, pending⟩ = some count) :
    ∃ run, Settles ready s ⟨run, []⟩ ∧ joined = run ++ below := by
  obtain ⟨u, settles, result⟩ := settles_of_complete h ((alike.complete_eq _).symm.trans completes)
  obtain ⟨run, rfl, rfl⟩ := eq_nil_of_toStacks result
  exact ⟨run, settles, rfl⟩

/-- At the end of a level as many operands are left as are counted. -/
theorem Placed.settles_to_bottom {ready : Token → Prop} {inner : Outline} {run joined below : List Tree}
    {v : Split} {t : Tally} {count : Nat} (placed : Placed inner ⟨run, []⟩ v)
    (read : inner.tally ⟨run.length, []⟩ = some t) (completes : t.completed = some count)
    (joins : Joins ready (v.toStacks below) ⟨joined, []⟩) :
    ∃ left, Settles ready v ⟨left, []⟩ ∧ joined = left ++ below ∧ left.length = count := by
  obtain ⟨rest, counted, alike⟩ := placed.tally_eq Tally.alike_nil
  obtain rfl := Option.some.inj (read.symm.trans counted)
  obtain ⟨left, settles, rfl⟩ := Tree.settles_to_bottom joins alike completes
  have last := completed_of_settles alike settles
  exact ⟨left, settles, rfl, Option.some.inj (last.symm.trans completes)⟩

/-- Where the operands that are counted suffice, each operator takes those near to it. -/
theorem placed_of_tally {functions : FunctionArity} {outline : Outline} {x y : Stacks}
    (h : Reading functions outline x y) {s : Split} {below : List Tree}
    (start : x = s.toStacks below) {pending : List (Kind × Nat)}
    (alike : Tally.Alike pending s.pending) {t : Tally} {count : Nat}
    (read : outline.tally ⟨s.run.length, pending⟩ = some t) (completes : t.completed = some count) :
    ∃ u, Placed outline s u ∧ y = u.toStacks below := by
  induction h generalizing s below pending t count with
  | nil => exact ⟨s, .nil s, start⟩
  | @operand token _ _ _ _ isLeaf _ ih =>
    subst start
    rw [Outline.tally_leaf isLeaf] at read
    obtain ⟨u, placed, result⟩ :=
      ih (s := ⟨leaf token :: s.run, s.frames⟩) rfl alike read completes
    exact ⟨u, .operand isLeaf placed, result⟩
  | @prefixed token _ _ _ _ kind _ ih =>
    subst start
    rw [Outline.tally_operator kind] at read
    have next := alike.cons (token.kind, s.run.length)
    rw [kind] at next
    obtain ⟨u, placed, result⟩ := ih (s := ⟨[], (token, s.run) :: s.frames⟩) rfl
      (by rw [pending_wait, kind]; exact next) read completes
    exact ⟨u, .prefixed kind placed, result⟩
  | @operator token _ _ _ between _ role kind notPrefix joins _ ih =>
    subst start
    rw [Outline.tally_operator kind] at read
    obtain ⟨taken, finished, last, completed⟩ :=
      @Outline.complete_of_tally _ _ _ _ _ [] _ _ read completes
    obtain ⟨rfl, rfl⟩ : role = .infixOp ∧ taken = s.run.length := by
      obtain ⟨-, ⟨isPrefix, -⟩ | ⟨binary, -, rfl⟩⟩ := Tally.finish_eq_some.mp finished
      · exact absurd (Kind.operator.inj isPrefix) notPrefix
      · refine ⟨?_, rfl⟩
        cases role <;> simp_all [Kind.isBinary]
    obtain ⟨v, settles, rfl⟩ :=
      settles_of_complete joins ((alike.complete_eq _).symm.trans completed)
    obtain ⟨u, placed, result⟩ := ih (s := ⟨[], (token, v.run) :: v.frames⟩) rfl
      (by rw [pending_wait, kind]; exact settles.alike_infixed alike) read completes
    exact ⟨u, .infixed kind settles placed, result⟩
  | @field token _ _ _ between _ kind joins stop _ ih =>
    subst start
    rw [Outline.tally_field kind] at read
    obtain ⟨⟨total, object⟩, found, read⟩ := Option.bind_eq_some_iff.mp read
    obtain ⟨rest, foundHere, alikeObject⟩ := alike.fieldsAt found
    obtain ⟨v, settles, rfl⟩ := settles_of_fields joins foundHere
    have same := Option.some.inj (foundHere.symm.trans (settles.fieldsAt_eq stop))
    obtain ⟨rfl, rfl⟩ := Tally.mk.inj same
    have next := alikeObject.cons (.field, v.run.length)
    obtain ⟨u, placed, result⟩ := ih (s := ⟨[], (token, v.run) :: v.frames⟩) rfl
      (by rw [pending_wait, kind]; exact next) read completes
    exact ⟨u, .field kind settles stop placed, result⟩
  | @comma token _ _ _ _ joined kind joins _ ih =>
    subst start
    rw [Outline.tally_comma kind] at read
    obtain ⟨last, completed, read⟩ := Option.bind_eq_some_iff.mp read
    obtain ⟨run, settles, rfl⟩ := settles_to_bottom joins alike completed
    obtain rfl := Option.some.inj (completed.symm.trans (completed_of_settles alike settles))
    obtain ⟨u, placed, result⟩ :=
      ih (s := ⟨run, []⟩) (toStacks_nil run below).symm Tally.alike_nil read completes
    exact ⟨u, .comma kind settles placed, result⟩
  | @group _ _ _ _ inner _ _ within _ joined _ joins _ inner_ih ih =>
    subst start
    obtain ⟨last, counted, read⟩ := Option.bind_eq_some_iff.mp read
    obtain ⟨innerTally, readInner, completed⟩ := Option.bind_eq_some_iff.mp counted
    obtain ⟨v, placedInner, rfl⟩ := inner_ih (s := ⟨s.run, []⟩) (toStacks_inner s below).symm
      Tally.alike_nil readInner completed
    obtain ⟨left, settles, rfl, rfl⟩ := placedInner.settles_to_bottom readInner completed joins
    obtain ⟨u, placed, result⟩ := ih (s := ⟨left, s.frames⟩) (toStacks_outer s left below).symm alike
      read completes
    exact ⟨u, .group placedInner settles placed, result⟩
  | @call function opening _ isCall _ _ inner _ _ within _ joined called reading joins result _
      inner_ih ih =>
    subst start
    obtain ⟨last, counted, read⟩ := Option.bind_eq_some_iff.mp read
    obtain ⟨innerTally, readInner, completed⟩ := Option.bind_eq_some_iff.mp counted
    obtain ⟨v, placedInner, rfl⟩ := inner_ih (s := {}) (toStacks_nil [] _).symm
      Tally.alike_nil readInner completed
    obtain ⟨args, settles, split, -⟩ := placedInner.settles_to_bottom readInner completed joins
    obtain ⟨taken, takenSplit, rfl, -, -⟩ := reading.call_eq joins rfl result
    obtain rfl := List.append_cancel_right (split.symm.trans takenSplit)
    obtain ⟨u, placed, result⟩ := ih (s := ⟨node function args.reverse :: s.run, s.frames⟩) rfl
      alike read completes
    exact ⟨u, .call placedInner settles placed, result⟩
  | @access _ _ accessed _ _ opens _ inner _ _ between within _ joined results isAccessed joinsFields
      stop _ joins isJoined _ inner_ih ih =>
    subst start
    obtain ⟨⟨total, object⟩, found, read⟩ := Option.bind_eq_some_iff.mp read
    obtain ⟨last, counted, read⟩ := Option.bind_eq_some_iff.mp read
    obtain ⟨innerTally, readInner, completed⟩ := Option.bind_eq_some_iff.mp counted
    obtain ⟨after, finished, read⟩ := Option.bind_eq_some_iff.mp read
    obtain ⟨rest, foundHere, alikeObject⟩ := alike.fieldsAt found
    obtain ⟨w, settlesFields, rfl⟩ := settles_of_fields joinsFields foundHere
    have same := Option.some.inj (foundHere.symm.trans (settlesFields.fieldsAt_eq stop))
    obtain ⟨rfl, rfl⟩ := Tally.mk.inj same
    obtain ⟨v, placedInner, rfl⟩ := inner_ih (s := {}) (toStacks_nil [] _).symm
      Tally.alike_nil readInner completed
    obtain ⟨key, settles, rfl, rfl⟩ := placedInner.settles_to_bottom readInner completed joins
    rw [← Tally.finish_of_isBinary (Token.isBinary_of_content? opens isAccessed)] at finished
    have isJoined : Joined accessed (key ++ (w.run ++ (outer w.frames ++ below))) results := by
      simpa [Split.operands] using isJoined
    obtain ⟨taken, near, rfl, rfl⟩ := near_of_finish finished isJoined
    obtain ⟨u, placed, result⟩ := ih (s := ⟨taken, w.frames⟩) (toStacks_outer w taken below).symm
      alikeObject read completes
    exact ⟨u, .access isAccessed settlesFields stop placedInner settles near placed, result⟩

end Formulary.Tree
