import Formulary.Expression.OfTree
import Formulary.Proofs.Tree.Alike

set_option autoImplicit false

/-!
# What trees are compiled to

Each rule is one way to compile a node. What a tree is compiled to has the shape of the tree, so both
can be followed together.
-/

namespace Formulary

/-- Operators, functions, elements and entries call an implementation. -/
def Kind.isCall : Kind → Bool
  | operator _ | function | element | entry => true
  | _ => false

namespace Expression

variable {bindings : Bindings}

inductive Compiled (bindings : Bindings) : Tree → Expression → Prop
  | number {token : Token} {children : List Tree} {value : Decimal} :
      token.kind = .number → numberLiteral token.span.text = .ok (some value) →
      Compiled bindings (.node token children) (literal (.number value))
  | text {token : Token} {children : List Tree} {value : String} :
      token.kind = .text → token.literal? = some value →
      Compiled bindings (.node token children) (literal (.text value))
  | constant {token : Token} {children : List Tree} {value : Value} :
      token.kind = .name → bindings.constants.lookup (Text.upper token.span.text) = some value →
      Compiled bindings (.node token children) (literal value)
  | unbound {token : Token} {children : List Tree} :
      token.kind = .name → bindings.constants.lookup (Text.upper token.span.text) = none →
      Compiled bindings (.node token children) (reference token.span.text token.span)
  | member {token field : Token} {objectTree : Tree} {object : Expression} :
      token.kind = .field → field.kind = .name → Compiled bindings objectTree object →
      Compiled bindings (.node token [objectTree, .leaf field])
        (member object field.span.text field.span)
  | call {token : Token} {children : List Tree} {name : String} {missing : Error.Cause}
      {overloads : List Overload} {arguments : List Expression} :
      token.kind.isCall = true → callee bindings token children.length = .ok (name, missing) →
      bind bindings token name children.length missing = .ok overloads →
      List.Forall₂ (Compiled bindings) children arguments →
      Compiled bindings (.node token children) (call name overloads arguments token.span)

theorem compiled_of_mem {children : List Tree} {arguments : List Expression}
    (h : List.Forall₂ (Compiled bindings) children arguments) {child : Tree}
    (member : child ∈ children) : ∃ argument, Compiled bindings child argument := by
  induction h with
  | nil => cases member
  | @cons _ argument _ _ first _ ih =>
    rcases List.mem_cons.mp member with rfl | other
    · exact ⟨argument, first⟩
    · exact ih other

theorem exists_tree_of_mem {children : List Tree} {arguments : List Expression}
    (h : List.Forall₂ (Compiled bindings) children arguments) {argument : Expression}
    (member : argument ∈ arguments) : ∃ child ∈ children, Compiled bindings child argument := by
  induction h with
  | nil => cases member
  | @cons child _ _ _ first _ ih =>
    rcases List.mem_cons.mp member with rfl | other
    · exact ⟨child, List.mem_cons_self, first⟩
    · obtain ⟨tree, isChild, compiled⟩ := ih other
      exact ⟨tree, List.mem_cons_of_mem _ isChild, compiled⟩

theorem isCall_of_callee {token : Token} {count : Nat} {found : String × Error.Cause}
    (h : callee bindings token count = .ok found) : token.kind.isCall = true := by
  unfold callee at h
  split at h <;> simp_all [Kind.isCall]

theorem ofTree_of_isCall {token : Token} (isCall : token.kind.isCall = true) (children : List Tree) :
    ofTree bindings (.node token children) =
      (callee bindings token children.length).bind fun (name, missing) =>
        (bind bindings token name children.length missing).bind fun overloads =>
          (ofTrees bindings children).bind fun arguments =>
            .ok (call name overloads arguments token.span) := by
  unfold ofTree
  split <;> simp_all only [Kind.isCall, Bool.false_eq_true]
  rfl

theorem ofLiteral_eq_ok_iff {token : Token} {value : Option Value} {e : Expression} :
    ofLiteral token value = .ok e ↔ ∃ v, value = some v ∧ literal v = e := by
  cases value <;> simp [ofLiteral]

theorem bind_eq_ok_iff_found {token : Token} {name : String} {count : Nat} {missing : Error.Cause}
    {overloads : List Overload} : bind bindings token name count missing = .ok overloads ↔
      bindings.functions.find? name count = some overloads ∧ overloads ≠ [] := by
  unfold bind
  split
  next none => simp [none]
  next none => simp_all
  next nonempty found =>
    rw [found]
    constructor
    · intro same
      obtain rfl := Except.ok.inj same
      exact ⟨rfl, nonempty⟩
    · rintro ⟨same, -⟩
      rw [Option.some.inj same]

theorem ofTrees_eq_ok_iff {trees : List Tree} {expressions : List Expression} :
    ofTrees bindings trees = .ok expressions ↔
      List.Forall₂ (fun tree e => ofTree bindings tree = .ok e) trees expressions := by
  induction trees generalizing expressions with
  | nil => simp [ofTrees, eq_comm]
  | cons tree trees ih =>
    rw [ofTrees, List.forall₂_cons_left_iff]
    constructor
    · intro h
      obtain ⟨first, isFirst, h⟩ := bind_eq_ok_iff.mp h
      obtain ⟨rest, isRest, h⟩ := bind_eq_ok_iff.mp h
      exact ⟨first, rest, isFirst, ih.mp isRest, (Except.ok.inj h).symm⟩
    · rintro ⟨first, rest, isFirst, isRest, rfl⟩
      rw [isFirst, ih.mpr isRest]
      rfl

theorem compiled_of_ofTree {tree : Tree} {e : Expression} (h : ofTree bindings tree = .ok e) :
    Compiled bindings tree e := by
  induction tree using Tree.induct generalizing e with
  | build token children ih =>
    unfold ofTree at h
    split at h
    next isNumber =>
      obtain ⟨number, denotes, h⟩ := bind_eq_ok_iff.mp h
      obtain ⟨v, isLiteral, rfl⟩ := ofLiteral_eq_ok_iff.mp h
      obtain ⟨x, rfl, rfl⟩ := Option.map_eq_some_iff.mp isLiteral
      exact .number isNumber denotes
    next isText =>
      obtain ⟨v, isLiteral, rfl⟩ := ofLiteral_eq_ok_iff.mp h
      obtain ⟨s, denotes, rfl⟩ := Option.map_eq_some_iff.mp isLiteral
      exact .text isText denotes
    next isName =>
      dsimp only at h
      split at h
      next found =>
        cases h
        exact .constant isName found
      next missing =>
        cases h
        exact .unbound isName missing
    next object field fieldChildren isField =>
      split at h
      next named =>
        obtain ⟨isName, noChildren⟩ := Bool.and_eq_true_iff.mp named
        obtain rfl := List.isEmpty_iff.mp noChildren
        obtain ⟨e, isObject, h⟩ := bind_eq_ok_iff.mp h
        cases h
        exact .member isField (of_decide_eq_true isName) (ih object (by simp) isObject)
      · cases h
    next count =>
      obtain ⟨⟨name, missing⟩, calls, h⟩ := bind_eq_ok_iff.mp h
      obtain ⟨overloads, bound, h⟩ := bind_eq_ok_iff.mp h
      obtain ⟨arguments, compiled, h⟩ := bind_eq_ok_iff.mp h
      cases h
      have each := (List.forall₂_and_left _ _).mpr ⟨ih, ofTrees_eq_ok_iff.mp compiled⟩
      exact .call (isCall_of_callee calls) calls bound (each.imp fun _ _ h => h.1 h.2)

theorem ofTree_of_compiled {tree : Tree} {e : Expression} (h : Compiled bindings tree e) :
    ofTree bindings tree = .ok e := by
  induction tree using Tree.induct generalizing e with
  | build token children ih =>
    cases h with
    | number isNumber denotes =>
      simp only [ofTree, isNumber, denotes]
      rfl
    | text isText denotes => simp [ofTree, isText, denotes, ofLiteral]
    | constant isName found => simp [ofTree, isName, found]
    | unbound isName missing => simp [ofTree, isName, missing]
    | member isField isName object =>
      simp [ofTree, isField, Tree.leaf, isName, ih _ (by simp) object]
    | call isCall calls bound compiled =>
      have each := (List.forall₂_and_left _ _).mpr ⟨ih, compiled⟩
      have arguments := ofTrees_eq_ok_iff.mpr (each.imp fun _ _ h => h.1 h.2)
      simp only [ofTree_of_isCall isCall, calls, bound, arguments, Except.bind]

end Expression

end Formulary
