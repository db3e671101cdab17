import Formulary.Proofs.Tree.Conservation
import Mathlib.Data.List.Forall2

set_option autoImplicit false

/-!
# Trees of the same structure

Wherever their tokens stand, two trees of the same structure agree in all that depends on the kinds
and texts of their tokens only.
-/

namespace Formulary

/-- The same token at another place. -/
def Token.Alike (first second : Token) : Prop :=
  first.kind = second.kind ∧ first.span.text = second.span.text

namespace Tree

/-- A property of trees that holds of each node if it holds of the children. -/
theorem induct {P : Tree → Prop}
    (build : ∀ (token : Token) (children : List Tree), (∀ child ∈ children, P child) →
      P (node token children)) :
    ∀ tree, P tree
  | node token children => build token children fun child _ => induct build child

abbrev Alike (first second : Tree) : Prop :=
  first.sameStructure second = true

theorem sameStructures_iff {first second : List Tree} :
    sameStructures first second = true ↔ List.Forall₂ Alike first second := by
  induction first generalizing second with
  | nil => cases second <;> simp [sameStructures]
  | cons tree trees ih => cases second <;> simp [sameStructures, ih]

theorem alike_node {first second : Token} {firsts seconds : List Tree} :
    (node first firsts).Alike (node second seconds) ↔
      first.Alike second ∧ List.Forall₂ Alike firsts seconds := by
  simp [Alike, sameStructure, sameStructures_iff, Token.Alike]

theorem Alike.leaf {first second : Token} (h : first.Alike second) :
    (leaf first).Alike (leaf second) :=
  alike_node.mpr ⟨h, .nil⟩

theorem Alike.refl (tree : Tree) : tree.Alike tree := by
  induction tree using induct with
  | build token children ih =>
    exact alike_node.mpr ⟨⟨rfl, rfl⟩, List.forall₂_same.mpr ih⟩

theorem Alike.root {first second : Tree} (h : first.Alike second) :
    first.token.Alike second.token := by
  cases first
  cases second
  exact (alike_node.mp h).1

/-- A relation between trees of the same structure that holds of two nodes if it holds of their
children. -/
theorem Alike.induction {R : Tree → Tree → Prop}
    (build : ∀ {first second : Token} {firsts seconds : List Tree}, first.Alike second →
      List.Forall₂ R firsts seconds → R (node first firsts) (node second seconds))
    {first second : Tree} (h : first.Alike second) : R first second := by
  induction first using induct generalizing second with
  | build token children ih =>
    cases second with
    | node other others =>
      obtain ⟨alike, all⟩ := alike_node.mp h
      apply build alike
      have both := (List.forall₂_and_left _ _).mpr ⟨ih, all⟩
      exact both.imp fun _ _ h => h.1 h.2

theorem Alike.children {first second : Tree} (h : first.Alike second) :
    List.Forall₂ Alike first.children second.children := by
  cases first
  cases second
  exact (alike_node.mp h).2

/-- What depends on kinds and texts only is the same in both lists. -/
theorem map_eq_of_alike {α : Type} {f : Tree → α} {firsts seconds : List Tree}
    (h : List.Forall₂ Alike firsts seconds)
    (same : ∀ {first second : Tree}, first.Alike second → f first = f second) :
    firsts.map f = seconds.map f := by
  induction h with
  | nil => rfl
  | cons alike _ ih => rw [List.map_cons, List.map_cons, same alike, ih]

theorem forall₂_getLast? {R : Tree → Tree → Prop} {firsts seconds : List Tree}
    (h : List.Forall₂ R firsts seconds) :
    ∀ last ∈ seconds.getLast?, ∃ other ∈ firsts.getLast?, R other last := by
  have reversed : List.Forall₂ R firsts.reverse seconds.reverse := List.rel_reverse h
  rw [← List.head?_reverse, ← List.head?_reverse]
  generalize firsts.reverse = firsts, seconds.reverse = seconds at reversed
  cases reversed with
  | nil => simp
  | cons same => simpa using same

theorem Alike.nodes {first second : Tree} (h : first.Alike second) :
    List.Forall₂ Alike first.nodes second.nodes := by
  have both : first.Alike second ∧ List.Forall₂ Alike first.nodes second.nodes := by
    refine @Alike.induction (fun first second =>
      first.Alike second ∧ List.Forall₂ Alike first.nodes second.nodes) ?_ first second h
    intro token other children others same all
    have alike := alike_node.mpr ⟨same, all.imp fun _ _ both => both.1⟩
    have below : List.Forall₂ Alike (children.flatMap Tree.nodes) (others.flatMap Tree.nodes) :=
      List.rel_flatMap all fun _ _ both => both.2
    rw [nodes_node, nodes_node]
    exact ⟨alike, .cons alike below⟩
  exact both.2

theorem Alike.tokens {first second : Tree} (h : first.Alike second) :
    List.Forall₂ Token.Alike first.tokens second.tokens := by
  apply List.forall₂_map_left_iff.mpr
  apply List.forall₂_map_right_iff.mpr
  exact h.nodes.imp fun _ _ alike => alike.root

theorem Alike.symm {first second : Tree} (h : first.Alike second) : second.Alike first := by
  refine @Alike.induction (fun first second => second.Alike first) ?_ first second h
  intro token other children others same all
  exact alike_node.mpr ⟨⟨same.1.symm, same.2.symm⟩, all.flip⟩

/-- What holds of each node of a tree holds of each node of one of the same structure. -/
theorem Alike.forall_nodes {first second : Tree} {P Q : Tree → Prop} (h : first.Alike second)
    (imp : ∀ part other : Tree, part.Alike other → P part → Q other)
    (all : ∀ part ∈ first.nodes, P part) :
    ∀ other ∈ second.nodes, Q other := by
  have both := (List.forall₂_and_left _ _).mpr ⟨all, h.nodes⟩
  have each : List.Forall₂ (fun other part => Q other ∧ part.Alike other) second.nodes first.nodes :=
    (both.imp fun part other h => ⟨imp part other h.2 h.1, h.2⟩).flip
  exact ((List.forall₂_and_left _ _).mp each).1

theorem Fits.alike {functions : FunctionArity} {first second : Tree} (fits : first.Fits functions)
    (h : first.Alike second) : second.Fits functions := by
  refine h.forall_nodes ?_ fits
  intro part other alike admits
  unfold Tree.kind Tree.text at admits ⊢
  rw [← alike.root.1, ← alike.root.2, ← alike.children.length_eq]
  exact admits

end Tree

end Formulary
