import Formulary.Proofs.Token.Places
import Formulary.Proofs.Tree.Walls
import Mathlib.Data.List.Nodup

set_option autoImplicit false

/-!
# How many arguments a call takes

A call takes all operands that are left in its parentheses. So it has as many arguments as are
written between its commas just in case these numbers agree.
-/

namespace Formulary

namespace Outline

/-- The commas that are in no bracket of the outline. -/
def commas : Outline → Nat
  | nil => 0
  | item token _ rest => (if token.kind = .comma then 1 else 0) + rest.commas
  | group _ _ _ _ _ rest | call _ _ _ _ _ _ _ rest | access _ _ _ _ _ _ _ rest => rest.commas

/-- The number of arguments that are written in parentheses around an outline. -/
def arguments : Outline → Nat
  | nil => 0
  | inner => inner.commas + 1

/-- The functions of an outline, each with what is in its parentheses. -/
def calls : Outline → List (Token × Outline)
  | nil => []
  | item _ _ rest => rest.calls
  | group _ _ _ _ inner rest | access _ _ _ _ _ _ inner rest => inner.calls ++ rest.calls
  | call function _ _ _ _ _ inner rest => (function, inner) :: (inner.calls ++ rest.calls)

theorem calls_sublist_tokens (outline : Outline) :
    (outline.calls.map Prod.fst).Sublist outline.tokens := by
  induction outline with
  | nil => exact .slnil
  | item _ _ _ ih => exact ih.cons _
  | group _ _ _ _ _ _ inner_ih ih | access _ _ _ _ _ _ _ _ inner_ih ih =>
    rw [calls, List.map_append]
    exact (inner_ih.append (ih.cons _)).cons _
  | call _ _ _ _ _ _ _ _ inner_ih ih =>
    rw [calls, List.map_cons, List.map_append]
    exact ((inner_ih.append (ih.cons _)).cons _).cons_cons _

theorem isFunction_of_mem_calls {outline : Outline} {call : Token × Outline}
    (member : call ∈ outline.calls) : call.1.kind = .function := by
  induction outline with
  | nil => cases member
  | item _ _ _ ih => exact ih member
  | group _ _ _ _ _ _ inner_ih ih | access _ _ _ _ _ _ _ _ inner_ih ih =>
    exact (List.mem_append.mp member).elim inner_ih ih
  | call _ _ _ isCall _ _ _ _ inner_ih ih =>
    rcases List.mem_cons.mp member with rfl | nested
    · exact isCall
    · exact (List.mem_append.mp nested).elim inner_ih ih

/-- Where no token occurs twice, a function has one pair of parentheses. -/
theorem calls_unique {outline : Outline} (nodup : outline.tokens.Nodup) {function : Token}
    {first second : Outline} (isFirst : (function, first) ∈ outline.calls)
    (isSecond : (function, second) ∈ outline.calls) : first = second := by
  have distinct := outline.calls_sublist_tokens.nodup nodup
  exact (Prod.mk.inj (List.inj_on_of_nodup_map distinct isFirst isSecond rfl)).2

end Outline

namespace Tree.Stacks

/-- Each call in the tree is one of `calls`, and takes the operands that are left in its
parentheses. -/
def Takes (calls : List (Token × Outline)) (tree : Tree) : Prop :=
  ∀ part ∈ tree.nodes, part.kind = .function →
    ∃ inner, (part.token, inner) ∈ calls ∧ (part.children.length : Int) = inner.balance

section Takes

variable {functions : FunctionArity} {calls : List (Token × Outline)}

theorem takes_node (functions : FunctionArity) (token : Token) (children : List Tree)
    (other : token.kind ≠ .function)
    (_ : token.kind.Admits functions token.span.text children.length)
    (takes : ∀ child ∈ children, Takes calls child) : Takes calls (node token children) := by
  intro part member function
  rw [nodes_node, List.mem_cons, List.mem_flatMap] at member
  rcases member with rfl | ⟨child, isChild, inside⟩
  · exact absurd function other
  · exact takes child isChild part inside function

theorem takes_call {function : Token} {children : List Tree} {inner : Outline}
    (known : (function, inner) ∈ calls) (count : (children.length : Int) = inner.balance)
    (takes : ∀ child ∈ children, Takes calls child) : Takes calls (node function children) := by
  intro part member isFunction
  rw [nodes_node, List.mem_cons, List.mem_flatMap] at member
  rcases member with rfl | ⟨child, isChild, inside⟩
  · exact ⟨inner, known, count⟩
  · exact takes child isChild part inside isFunction

theorem takes_of_reading {outline : Outline} {s t : Stacks} (h : Reading functions outline s t)
    (known : ∀ call ∈ outline.calls, call ∈ calls) (holds : ForAll (Takes calls) s.operands) :
    ForAll (Takes calls) t.operands := by
  induction h with
  | nil s => exact holds
  | operand isLeaf _ ih => exact ih known (forAll_of_leaf (takes_node functions) isLeaf holds)
  | prefixed _ _ ih => exact ih known holds
  | operator _ _ joins _ ih | field _ joins _ _ ih | comma _ joins _ ih =>
    have joined := forAll_of_joins (takes_node functions) joins holds
    exact ih known joined
  | group _ joins _ inner_ih ih =>
    have inside := inner_ih (fun call member => known call (by simp [Outline.calls, member])) holds
    have joined := forAll_of_joins (takes_node functions) joins inside
    exact ih (fun call member => known call (by simp [Outline.calls, member])) joined
  | @call function _ _ isCall _ _ inner _ _ _ _ joined _ reading joins result _ inner_ih ih =>
    have inside := inner_ih (fun call member => known call (by simp [Outline.calls, member]))
      (forAll_of_mark rfl holds)
    have kept : ForAll (Takes calls) joined := forAll_of_joins (takes_node functions) joins inside
    refine ih (fun call member => known call (by simp [Outline.calls, member])) ?_
    obtain ⟨args, rfl, rfl, argsReal, count⟩ := reading.call_eq joins rfl result
    intro tree member real
    rcases List.mem_cons.mp member with rfl | inRest
    · apply takes_call (known (function, inner) (by simp [Outline.calls])) (by simpa using count)
      intro child isChild
      have inArgs := List.mem_reverse.mp isChild
      exact kept child (by simp [inArgs]) (argsReal child inArgs)
    · exact holds tree inRest real
  | access _ fields _ _ joins isJoined _ inner_ih ih =>
    have object := forAll_of_joins (takes_node functions) fields holds
    have inside := inner_ih (fun call member => known call (by simp [Outline.calls, member])) object
    have joined := forAll_of_joins (takes_node functions) joins inside
    exact ih (fun call member => known call (by simp [Outline.calls, member]))
      (forAll_of_joined (takes_node functions) isJoined joined)

end Takes

end Tree.Stacks

open Tree.Stacks

variable {operators : Operators} {functions : FunctionArity} {features : Features}
  {source : String} {tree : Tree}

theorem takes_of_parse {outline : Outline}
    (h : Tree.ofTokens operators functions source outline.tokens = .ok tree) :
    Takes outline.calls tree := by
  obtain ⟨s, reading, joins, real⟩ := Tree.ofTokens_outline h
  have kept := takes_of_reading reading (fun _ member => member) (by simp [ForAll])
  have whole := forAll_of_joins (takes_node functions) joins kept
  exact whole tree (by simp) real

/-- The function of each call that is written is the root of a part of the tree. -/
theorem exists_node_of_call {outline : Outline} {call : Token × Outline}
    (h : Tree.ofTokens operators functions source outline.tokens = .ok tree)
    (member : call ∈ outline.calls) : ∃ part ∈ tree.nodes, part.token = call.1 := by
  have inTokens : call.1 ∈ outline.tokens :=
    outline.calls_sublist_tokens.subset (List.mem_map_of_mem member)
  have inContent : call.1 ∈ content outline.tokens := by
    refine List.mem_filterMap.mpr ⟨call.1, inTokens, ?_⟩
    simp [Token.content?, Outline.isFunction_of_mem_calls member]
  exact List.mem_map.mp ((Tree.tokens_perm_content h).mem_iff.mpr inContent)

/-- A call has as many children as arguments are written in its parentheses, in every call of a
source, just in case in all of them so many operands are left as arguments are written. -/
theorem parse_arguments (operators : Operators) (functions : FunctionArity) (features : Features)
    (source : String) (tree : Tree)
    (h : parse operators functions features source = .ok tree) :
    ∃ outline : Outline, tokenize operators features source = .ok outline.tokens ∧
      ((∀ part ∈ tree.nodes, part.kind = .function →
          ∃ inner, (part.token, inner) ∈ outline.calls ∧
            part.children.length = inner.arguments) ↔
        ∀ call ∈ outline.calls, call.2.balance = call.2.arguments) := by
  obtain ⟨outline, tokenized, read⟩ := parse_eq_ok h
  refine ⟨outline, tokenized, ?_⟩
  have takes := takes_of_parse read
  have nodup := tokenize_nodup tokenized
  constructor
  · intro written call member
    obtain ⟨part, inTree, token⟩ := exists_node_of_call read member
    have function : part.kind = .function :=
      (congrArg Token.kind token).trans (Outline.isFunction_of_mem_calls member)
    obtain ⟨inner, isCall, count⟩ := written part inTree function
    obtain ⟨other, isTaken, left⟩ := takes part inTree function
    rw [token] at isCall isTaken
    obtain rfl : inner = call.2 := Outline.calls_unique nodup isCall member
    obtain rfl : other = call.2 := Outline.calls_unique nodup isTaken member
    rw [← left, count]
  · intro agree part inTree function
    obtain ⟨inner, isCall, count⟩ := takes part inTree function
    refine ⟨inner, isCall, ?_⟩
    rw [agree _ isCall] at count
    exact Int.ofNat.inj count

/-- Two arguments between a comma. -/
theorem parse_arguments_of_two :
    ∃ tree, parse (.ofLayers (.single .standard)) ⟨fun _ => true, fun _ count => count == 2⟩ {}
        "MAX(1, 2)" = .ok tree ∧
      ∃ outline : Outline,
        tokenize (.ofLayers (.single .standard)) {} "MAX(1, 2)" = .ok outline.tokens ∧
        ((∀ part ∈ tree.nodes, part.kind = .function →
            ∃ inner, (part.token, inner) ∈ outline.calls ∧
              part.children.length = inner.arguments) ↔
          ∀ call ∈ outline.calls, call.2.balance = call.2.arguments) := by
  let function : Token := ⟨.function, ⟨0, 1, 1⟩, "MAX"⟩
  let one : Token := ⟨.number, ⟨4, 1, 5⟩, "1"⟩
  let two : Token := ⟨.number, ⟨7, 1, 8⟩, "2"⟩
  have tokenized : tokenize (.ofLayers (.single .standard)) {} "MAX(1, 2)" =
      .ok [function, ⟨.opening .paren, ⟨3, 1, 4⟩, "("⟩, one, ⟨.comma, ⟨5, 1, 6⟩, ","⟩, two,
        ⟨.closing .paren, ⟨8, 1, 9⟩, ")"⟩] := by
    decide +kernel
  have read : parse (.ofLayers (.single .standard)) ⟨fun _ => true, fun _ count => count == 2⟩ {}
      "MAX(1, 2)" = .ok (.node function [.leaf one, .leaf two]) :=
    (parse_of_tokenize tokenized).trans rfl
  exact ⟨_, read, parse_arguments _ _ _ _ _ read⟩

/-- Without the comma there is one argument, and still the call takes both operands. -/
theorem parse_arguments_juxtaposed :
    ∃ (outline : Outline) (tree part : Tree),
      tokenize (.ofLayers (.single .standard)) {} "MAX(1 2)" = .ok outline.tokens ∧
      parse (.ofLayers (.single .standard)) ⟨fun _ => true, fun _ count => count == 2⟩ {}
        "MAX(1 2)" = .ok tree ∧
      part ∈ tree.nodes ∧ part.kind = .function ∧ part.children.length = 2 ∧
      ∀ inner, (part.token, inner) ∈ outline.calls → inner.arguments = 1 := by
  let function : Token := ⟨.function, ⟨0, 1, 1⟩, "MAX"⟩
  let opening : Token := ⟨.opening .paren, ⟨3, 1, 4⟩, "("⟩
  let one : Token := ⟨.number, ⟨4, 1, 5⟩, "1"⟩
  let two : Token := ⟨.number, ⟨6, 1, 7⟩, "2"⟩
  let closing : Token := ⟨.closing .paren, ⟨7, 1, 8⟩, ")"⟩
  let outline : Outline :=
    .call function opening closing rfl rfl rfl (.item one rfl (.item two rfl .nil)) .nil
  have tokenized : tokenize (.ofLayers (.single .standard)) {} "MAX(1 2)" = .ok outline.tokens := by
    decide +kernel
  refine ⟨outline, .node function [.leaf one, .leaf two], .node function [.leaf one, .leaf two],
    tokenized, (parse_of_tokenize tokenized).trans rfl, Tree.self_mem_nodes _, rfl, rfl, ?_⟩
  intro inner member
  obtain ⟨-, rfl⟩ := Prod.mk.inj (List.mem_singleton.mp member)
  rfl

end Formulary
