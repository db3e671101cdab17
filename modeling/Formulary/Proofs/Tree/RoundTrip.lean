import Formulary.Proofs.Tree.Levels
import Formulary.Proofs.Tree.Regrouping
import Mathlib.Algebra.Order.BigOperators.Group.List
import Mathlib.Algebra.Order.Ring.Nat

set_option autoImplicit false

/-!
# Which trees are found again in their texts

Grouping the text of a tree again moves nodes away from behind points, if it changes anything. So the
tree is found again just in case what stands after each point is no access, and no number for whose
decimal point it would be taken.
-/

namespace Formulary

namespace Tree

def size (tree : Tree) : Nat :=
  tree.nodes.length

@[simp] theorem size_node (token : Token) (children : List Tree) :
    (node token children).size = (children.map size).sum + 1 := by
  rw [size, nodes_node, List.length_cons, List.length_flatMap]
  rfl

/-- The number of nodes behind the point of a field. -/
def behindPoint : Tree → Nat
  | node token children =>
    if token.kind = .field then (children.getLast?.map size).getD 0 else 0

/-- The numbers of nodes behind all points, added up. -/
def load (tree : Tree) : Nat :=
  (tree.nodes.map behindPoint).sum

@[simp] theorem load_node (token : Token) (children : List Tree) :
    (node token children).load = behindPoint (node token children) + (children.map load).sum := by
  rw [load, nodes_node, List.map_cons, List.sum_cons, List.map_flatMap, List.flatMap, List.sum_flatten,
    List.map_map]
  rfl

theorem load_other {token : Token} (kind : token.kind ≠ .field) (children : List Tree) :
    (node token children).load = (children.map load).sum := by
  simp [behindPoint, kind]

theorem load_field {token : Token} (kind : token.kind = .field) (object operand : Tree) :
    (node token [object, operand]).load = operand.size + object.load + operand.load := by
  simp [behindPoint, kind]
  omega

/-- A node is a field, another access, or neither. -/
theorem Fits.cases {functions : FunctionArity} {token : Token} {children : List Tree}
    (fits : (node token children).Fits functions) :
    (token.kind = .field ∧ ∃ object operand, children = [object, operand]) ∨
      ((token.kind = .element ∨ token.kind = .entry) ∧ ∃ object key, children = [object, key]) ∨
      token.kind.isAccess = false := by
  have admits : token.kind.Admits functions token.span.text children.length :=
    fits _ (self_mem_nodes _)
  cases kind : token.kind <;> simp_all [Kind.Admits, Kind.isAccess, List.length_eq_two]

/-- No access stands behind a point, neither in the tree nor, if a field is pending, as its root. -/
structure Settled (pending : Pending) (tree : Tree) : Prop where
  inside : FieldOperands (fun operand => operand.kind.isAccess = false) tree
  root : pending.isSome → tree.kind.isAccess = false

section Regroup

variable {functions : FunctionArity} {pending : Pending} {tree : Tree}

theorem Settled.child {token : Token} {children : List Tree}
    (settled : Settled pending (node token children)) {child : Tree} (isChild : child ∈ children) :
    Settled none child :=
  ⟨settled.inside.child isChild, by simp⟩

theorem Settled.not_pending {token : Token} {children : List Tree}
    (settled : Settled pending (node token children)) (access : token.kind.isAccess = true) :
    pending = none := by
  cases pending with
  | none => rfl
  | some p => exact absurd (access.symm.trans (settled.root rfl)) (by simp)

theorem regroup_eq_of_settled (fits : tree.Fits functions) (settled : Settled pending tree) :
    regroup pending tree = under pending tree := by
  induction tree using induct generalizing pending with
  | build token children ih =>
    have each : ∀ child ∈ children, regroup none child = child :=
      fun child isChild => ih child isChild (fits.child isChild) (settled.child isChild)
    rcases fits.cases with ⟨kind, object, operand, rfl⟩ | ⟨kind, object, key, rfl⟩ | other
    · obtain rfl := settled.not_pending (by simp [kind, Kind.isAccess])
      have field := (fieldOperands_node.mp settled.inside).1 kind operand (by simp)
      have settledOperand : Settled (some (object, token)) operand :=
        ⟨settled.inside.child (by simp), fun _ => field⟩
      rw [regroup_field kind, each object (by simp)]
      exact ih operand (by simp) (fits.child (by simp)) settledOperand
    · obtain rfl := settled.not_pending (by rcases kind with kind | kind <;> simp [kind, Kind.isAccess])
      rw [regroup_access kind, each object (by simp), each key (by simp)]
      rfl
    · rw [regroup_other other, List.map_congr_left each, List.map_id']

theorem size_under (pending : Pending) {first second : Tree} (same : first.size = second.size) :
    (under pending first).size = (under pending second).size := by
  cases pending with
  | none => exact same
  | some p => simp [under, same]

theorem size_regroup (fits : tree.Fits functions) (pending : Pending) :
    (regroup pending tree).size = (under pending tree).size := by
  induction tree using induct generalizing pending with
  | build token children ih =>
    have each : ∀ child ∈ children, (regroup none child).size = child.size :=
      fun child isChild => ih child isChild (fits.child isChild) none
    rcases fits.cases with ⟨kind, object, operand, rfl⟩ | ⟨kind, object, key, rfl⟩ | other
    · have objectSize := each object (by simp)
      rw [regroup_field kind, ih operand (by simp) (fits.child (by simp))]
      cases pending with
      | none => simp [under, objectSize]
      | some p =>
        simp [under, objectSize]
        omega
    · have objectSize := each object (by simp)
      have keySize := each key (by simp)
      rw [regroup_access kind]
      cases pending with
      | none => simp [under, objectSize, keySize]
      | some p =>
        simp [under, objectSize, keySize]
        omega
    · rw [regroup_other other]
      apply size_under
      rw [size_node, size_node, List.map_map]
      congr 2
      exact List.map_congr_left each

theorem load_under {p : Tree × Token} (isField : p.2.kind = .field) (tree : Tree) :
    (under (some p) tree).load = tree.size + p.1.load + tree.load :=
  load_field isField p.1 tree

section Nodes

variable {token : Token} {children : List Tree} {object operand key : Tree}

/-- What is behind the point loses the point, its object and what is behind other points there. -/
theorem load_regroup_field (kind : token.kind = .field) (isField : ∀ p ∈ pending, p.2.kind = .field)
    (size : (regroup none object).size = object.size)
    (objectLoad : (regroup none object).load ≤ object.load)
    (operandLoad : (regroup (some (under pending (regroup none object), token)) operand).load ≤
      (under (some (under pending (regroup none object), token)) operand).load)
    (less : pending = none → (regroup none object).load < object.load ∨
      (regroup (some (regroup none object, token)) operand).load <
        (under (some (regroup none object, token)) operand).load) :
    (regroup pending (node token [object, operand])).load <
      (under pending (node token [object, operand])).load := by
  rw [regroup_field kind]
  rw [load_under kind] at operandLoad
  cases pending with
  | none =>
    have less := less rfl
    rw [load_under kind] at less
    simp only [under] at less operandLoad ⊢
    rw [load_field kind]
    omega
  | some p =>
    have pointed := isField p rfl
    rw [load_under pointed] at operandLoad ⊢
    rw [load_field kind, size_node]
    simp only [List.map_cons, List.map_nil, List.sum_cons, List.sum_nil]
    omega

theorem load_regroup_access (kind : token.kind = .element ∨ token.kind = .entry)
    (isField : ∀ p ∈ pending, p.2.kind = .field)
    (size : (regroup none object).size = object.size)
    (objectLoad : (regroup none object).load ≤ object.load)
    (keyLoad : (regroup none key).load ≤ key.load)
    (less : pending = none → (regroup none object).load < object.load ∨
      (regroup none key).load < key.load) :
    (regroup pending (node token [object, key])).load <
      (under pending (node token [object, key])).load := by
  have notField : token.kind ≠ .field := by rcases kind with kind | kind <;> simp [kind]
  rw [regroup_access kind, load_other notField]
  cases pending with
  | none =>
    have less := less rfl
    simp only [under, load_other notField, List.map_cons, List.map_nil, List.sum_cons, List.sum_nil]
    omega
  | some p =>
    have pointed := isField p rfl
    rw [load_under pointed, load_other notField, size_node]
    simp only [List.map_cons, List.map_nil, List.sum_cons, List.sum_nil, load_under pointed]
    omega

theorem load_regroup_other (other : token.kind.isAccess = false)
    (isField : ∀ p ∈ pending, p.2.kind = .field)
    (size : (node token (children.map (regroup none))).size = (node token children).size)
    (each : ∀ child ∈ children, (regroup none child).load ≤ child.load)
    (less : ∃ child ∈ children, (regroup none child).load < child.load) :
    (regroup pending (node token children)).load < (under pending (node token children)).load := by
  have notField : token.kind ≠ .field := by
    intro kind
    simp [kind, Kind.isAccess] at other
  have total : (node token (children.map (regroup none))).load < (node token children).load := by
    rw [load_other notField, load_other notField, List.map_map]
    exact List.sum_lt_sum _ _ each less
  rw [regroup_other other]
  cases pending with
  | none => exact total
  | some p =>
    have pointed := isField p rfl
    rw [load_under pointed, load_under pointed]
    omega

theorem settled_field (object_settled : Settled none object)
    (settled : Settled (some (regroup none object, token)) operand) :
    Settled none (node token [object, operand]) := by
  refine ⟨fieldOperands_node.mpr ⟨fun _ => ?_, ?_⟩, by simp⟩
  · simpa using settled.root rfl
  · simpa using ⟨object_settled.inside, settled.inside⟩

theorem settled_other (notField : token.kind ≠ .field) (below : ∀ child ∈ children, Settled none child)
    (root : pending.isSome → token.kind.isAccess = false) : Settled pending (node token children) :=
  ⟨fieldOperands_node.mpr ⟨fun field => absurd field notField,
    fun child isChild => (below child isChild).inside⟩, root⟩

end Nodes

theorem load_regroup_lt (fits : tree.Fits functions)
    (isField : ∀ p ∈ pending, p.2.kind = .field) (unsettled : ¬Settled pending tree) :
    (regroup pending tree).load < (under pending tree).load := by
  induction tree using induct generalizing pending with
  | build token children ih =>
    have less : ∀ child ∈ children, ¬Settled none child → (regroup none child).load < child.load :=
      fun child isChild => ih child isChild (fits.child isChild) (by simp)
    have atMost : ∀ child ∈ children, ∀ pending : Pending, (∀ p ∈ pending, p.2.kind = .field) →
        (regroup pending child).load ≤ (under pending child).load := by
      intro child isChild pending isField
      by_cases settled : Settled pending child
      · exact (congrArg load (regroup_eq_of_settled (fits.child isChild) settled)).le
      · exact (ih child isChild (fits.child isChild) isField settled).le
    have each : ∀ child ∈ children, (regroup none child).load ≤ child.load :=
      fun child isChild => atMost child isChild none (by simp)
    rcases fits.cases with ⟨kind, object, operand, rfl⟩ | ⟨kind, object, key, rfl⟩ | other
    · have waits : ∀ p ∈ (some (under pending (regroup none object), token) : Pending),
          p.2.kind = .field := by
        rintro p ⟨⟩
        exact kind
      apply load_regroup_field kind isField (size_regroup (fits.child (by simp)) none)
        (each object (by simp)) (atMost operand (by simp) _ waits)
      rintro rfl
      by_cases settled : Settled none object
      · apply Or.inr
        apply ih operand (by simp) (fits.child (by simp)) waits
        exact fun settledOperand => unsettled (settled_field settled settledOperand)
      · exact .inl (less object (by simp) settled)
    · have notField : token.kind ≠ .field := by rcases kind with kind | kind <;> simp [kind]
      apply load_regroup_access kind isField (size_regroup (fits.child (by simp)) none)
        (each object (by simp)) (each key (by simp))
      rintro rfl
      by_cases settled : Settled none object
      · apply Or.inr
        apply less key (by simp)
        intro settledKey
        exact unsettled (settled_other notField (by simpa using ⟨settled, settledKey⟩) (by simp))
      · exact .inl (less object (by simp) settled)
    · have notField : token.kind ≠ .field := by
        intro kind
        simp [kind, Kind.isAccess] at other
      have size := size_regroup fits none
      rw [regroup_other other] at size
      apply load_regroup_other other isField size each
      by_contra none
      push Not at none
      apply unsettled
      apply settled_other notField ?_ fun _ => other
      intro child isChild
      by_contra moved
      exact absurd (less child isChild moved) (not_lt.mpr (none child isChild))

end Regroup

section Alike

variable {first second : Tree}

theorem Alike.size_eq (alike : first.Alike second) : first.size = second.size :=
  alike.nodes.length_eq

theorem Alike.behindPoint_eq (alike : first.Alike second) : first.behindPoint = second.behindPoint := by
  cases first with
  | node token children =>
    cases second with
    | node other others =>
      obtain ⟨same, all⟩ := alike_node.mp alike
      rw [behindPoint, behindPoint, same.1, ← List.getLast?_map, ← List.getLast?_map,
        map_eq_of_alike all Alike.size_eq]

theorem Alike.load_eq (alike : first.Alike second) : first.load = second.load := by
  rw [load, load, map_eq_of_alike alike.nodes Alike.behindPoint_eq]

end Alike

/-- What may stand after the point of a field in a text: no access, and no number with a digit in
front. -/
def StandsAfterPoint (operand : Tree) : Prop :=
  operand.kind.isAccess = false ∧ ¬operand.IsDigitLed

theorem StandsAfterPoint.alike {operand other : Tree} (alike : operand.Alike other)
    (h : operand.StandsAfterPoint) : other.StandsAfterPoint := by
  obtain ⟨notAccess, apart⟩ := h
  refine ⟨?_, fun digitLed => apart (digitLed.alike alike.symm)⟩
  unfold Tree.kind at notAccess ⊢
  rw [← alike.root.1]
  exact notAccess

end Tree

section Parse

variable {functions : FunctionArity} {features : Features} {source : String} {tree : Tree}

open Formulary.Tree

theorem fits_of_parse {operators : Operators}
    (h : parse operators functions features source = .ok tree) : tree.Fits functions := by
  obtain ⟨tokens, -, read⟩ := bind_eq_ok_iff.mp h
  exact fits_of_ofTokens read

/-- The text of a tree is read as the tree if what stands after its points can stand there. -/
theorem parse_render_of_stands (h : parse Operators.standard functions features source = .ok tree)
    (stands : tree.FieldOperands StandsAfterPoint) :
    ∃ again, parse Operators.standard functions features tree.render = .ok again ∧
      tree.Alike again := by
  have fits : tree.Fits functions := fits_of_parse h
  rcases tokenize_render (readable_of_parse h) with
    ⟨written, copy, rendered, alike, isWritten⟩ | ⟨merged, -⟩
  · have copyStands : copy.FieldOperands StandsAfterPoint :=
      stands.alike alike.symm fun _ _ => StandsAfterPoint.alike
    have reread := ofTokens_of_written isWritten (copyStands.imp fun _ h => h.2) tree.render
    have settled : Settled none copy := ⟨copyStands.imp fun _ h => h.1, by simp⟩
    rw [regroup_eq_of_settled (fits.alike alike.symm) settled] at reread
    exact ⟨copy, (parse_of_tokenize rendered).trans reread, alike.symm⟩
  · exact absurd (stands.imp fun _ h => h.2) merged

/-- No point is lost where the tree is found again, and no field becomes the object of an access. -/
theorem stands_of_parse_render (h : parse Operators.standard functions features source = .ok tree)
    {again : Tree} (reread : parse Operators.standard functions features tree.render = .ok again)
    (alike : tree.Alike again) : tree.FieldOperands StandsAfterPoint := by
  have fits : tree.Fits functions := fits_of_parse h
  rcases tokenize_render (readable_of_parse h) with
    ⟨written, copy, rendered, copyAlike, isWritten⟩ | ⟨-, e, failed⟩
  · rw [parse_of_tokenize rendered] at reread
    have points : fieldCount written = fieldCount copy.tokens :=
      calc
        fieldCount written = fieldCount (content written) := (fieldCount_content written).symm
        _ = fieldCount again.tokens := ((tokens_perm_content reread).countP_eq _).symm
        _ = fieldCount tree.tokens := (fieldCount_eq_of_alike alike.tokens).symm
        _ = fieldCount copy.tokens := (fieldCount_eq_of_alike copyAlike.tokens).symm
    have apart : copy.FieldOperands fun operand => ¬operand.IsDigitLed :=
      isWritten.keeps.2 (by simpa [Phrase.trees] using points) copy (by simp [Phrase.trees])
    rw [ofTokens_of_written isWritten apart] at reread
    obtain rfl := Except.ok.inj reread
    have settled : Settled none copy := by
      by_contra moved
      have less := load_regroup_lt (fits.alike copyAlike.symm) (by simp) moved
      have same : (regroup none copy).load = copy.load :=
        alike.load_eq.symm.trans copyAlike.load_eq.symm
      exact absurd same less.ne
    have stands : copy.FieldOperands StandsAfterPoint :=
      fun part member kind operand isLast =>
        ⟨settled.inside part member kind operand isLast, apart part member kind operand isLast⟩
    exact stands.alike copyAlike fun _ _ => StandsAfterPoint.alike
  · rw [parse, failed] at reread
    cases reread

end Parse

/-- The text of a tree that is read from a source is read as a tree of the same structure just in
case no access stands after a point, and no number that begins with a digit. -/
theorem parse_render (functions : FunctionArity) (features : Features) (source : String) (tree : Tree)
    (h : parse Operators.standard functions features source = .ok tree) :
    (∃ again, parse Operators.standard functions features tree.render = .ok again ∧
      tree.sameStructure again = true) ↔ tree.FieldOperands Tree.StandsAfterPoint :=
  ⟨fun ⟨_, reread, alike⟩ => stands_of_parse_render h reread alike, parse_render_of_stands h⟩

/-- The object of an access may well be a field. -/
theorem parse_render_element :
    let functions : FunctionArity := ⟨fun _ => false, fun _ _ => false⟩
    ∃ tree again, parse Operators.standard functions {} "a.b[1]" = .ok tree ∧
      tree.render = "((a).b)[1]" ∧
      parse Operators.standard functions {} tree.render = .ok again ∧
      tree.sameStructure again = true := by
  intro functions
  let a : Token := ⟨.name, ⟨0, 1, 1⟩, "a"⟩
  let point : Token := ⟨.field, ⟨1, 1, 2⟩, "."⟩
  let b : Token := ⟨.name, ⟨2, 1, 3⟩, "b"⟩
  let bracket : Token := ⟨.opening .square, ⟨3, 1, 4⟩, "["⟩
  let one : Token := ⟨.number, ⟨4, 1, 5⟩, "1"⟩
  have tokenized : tokenize Operators.standard {} "a.b[1]" =
      .ok [a, point, b, bracket, one, ⟨.closing .square, ⟨5, 1, 6⟩, "]"⟩] := by
    decide +kernel
  let object : Tree := .node point [.leaf a, .leaf b]
  let tree : Tree := .node { bracket with kind := .element } [object, .leaf one]
  have read : parse Operators.standard functions {} "a.b[1]" = .ok tree :=
    (parse_of_tokenize tokenized).trans rfl
  have stands : tree.FieldOperands Tree.StandsAfterPoint := by
    simp [tree, object, Tree.leaf, Tree.fieldOperands_node, Tree.StandsAfterPoint, Tree.IsDigitLed,
      Tree.kind, Tree.token, bracket, point, b, Kind.isAccess]
  obtain ⟨again, reread, same⟩ := (parse_render functions {} "a.b[1]" tree read).mpr stands
  exact ⟨tree, again, read, rfl, reread, same⟩

/-- A field after a point is taken apart. -/
theorem parse_render_nested :
    let functions : FunctionArity := ⟨fun _ => false, fun _ _ => false⟩
    ∃ tree again, parse Operators.standard functions {} "a.(b.c)" = .ok tree ∧
      tree.render = "(a).(b).c" ∧
      parse Operators.standard functions {} tree.render = .ok again ∧
      tree.sameStructure again = false := by
  intro functions
  let a : Token := ⟨.name, ⟨0, 1, 1⟩, "a"⟩
  let point : Token := ⟨.field, ⟨1, 1, 2⟩, "."⟩
  let b : Token := ⟨.name, ⟨3, 1, 4⟩, "b"⟩
  let inner : Token := ⟨.field, ⟨4, 1, 5⟩, "."⟩
  let c : Token := ⟨.name, ⟨5, 1, 6⟩, "c"⟩
  have tokenized : tokenize Operators.standard {} "a.(b.c)" =
      .ok [a, point, ⟨.opening .paren, ⟨2, 1, 3⟩, "("⟩, b, inner, c,
        ⟨.closing .paren, ⟨6, 1, 7⟩, ")"⟩] := by
    decide +kernel
  let tree : Tree := .node point [.leaf a, .node inner [.leaf b, .leaf c]]
  have read : parse Operators.standard functions {} "a.(b.c)" = .ok tree :=
    (parse_of_tokenize tokenized).trans rfl
  let point₁ : Token := ⟨.field, ⟨3, 1, 4⟩, "."⟩
  let point₂ : Token := ⟨.field, ⟨7, 1, 8⟩, "."⟩
  let a₁ : Token := ⟨.name, ⟨1, 1, 2⟩, "a"⟩
  let b₁ : Token := ⟨.name, ⟨5, 1, 6⟩, "b"⟩
  let c₁ : Token := ⟨.name, ⟨8, 1, 9⟩, "c"⟩
  have retokenized : tokenize Operators.standard {} "(a).(b).c" =
      .ok [⟨.opening .paren, ⟨0, 1, 1⟩, "("⟩, a₁, ⟨.closing .paren, ⟨2, 1, 3⟩, ")"⟩, point₁,
        ⟨.opening .paren, ⟨4, 1, 5⟩, "("⟩, b₁, ⟨.closing .paren, ⟨6, 1, 7⟩, ")"⟩, point₂, c₁] := by
    decide +kernel
  let again : Tree := .node point₂ [.node point₁ [.leaf a₁, .leaf b₁], .leaf c₁]
  have reread : parse Operators.standard functions {} "(a).(b).c" = .ok again :=
    (parse_of_tokenize retokenized).trans rfl
  exact ⟨tree, again, read, rfl, reread, rfl⟩

end Formulary
