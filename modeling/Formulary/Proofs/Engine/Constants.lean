import Formulary.Proofs.Engine.RoundTrip
import Formulary.Proofs.Expression.Inlining

set_option autoImplicit false

/-!
# Constants and variables

A constant that is new to an engine has the same effect as an answer for the variables of its name, and
fields of that name stay what they are.
-/

namespace Formulary

namespace Tree

/-- The name of the field that an access asks for. -/
def field? : Tree → Option String
  | node token [_, operand] => if token.kind = .field then some operand.text else none
  | _ => none

/-- The names of fields behind points, those of outer accesses first. -/
def fields (tree : Tree) : List String :=
  tree.nodes.filterMap field?

theorem fields_node (token : Token) (children : List Tree) : (node token children).fields =
    (node token children).field?.toList ++ children.flatMap fields := by
  rw [fields, nodes_node, List.filterMap_cons, List.filterMap_flatMap]
  cases (node token children).field? <;> rfl

theorem fields_leaf (token : Token) : (leaf token).fields = [] := by
  rfl

end Tree

namespace Expression

mutual

/-- The names of fields, those of outer accesses first. -/
def fields : Expression → List String
  | literal _ | reference _ _ => []
  | call _ _ arguments _ => allFields arguments
  | member object field _ => field :: fields object

def allFields : List Expression → List String
  | [] => []
  | e :: rest => fields e ++ allFields rest

end

theorem allFields_eq (arguments : List Expression) : allFields arguments = arguments.flatMap fields := by
  induction arguments with
  | nil => rfl
  | cons argument rest ih => rw [allFields, ih, List.flatMap_cons]

theorem flatMap_fields_eq {bindings : Bindings} {trees : List Tree} {expressions : List Expression}
    (h : List.Forall₂ (Compiled bindings) trees expressions)
    (each : ∀ tree ∈ trees, ∀ e, Compiled bindings tree e → e.fields = tree.fields) :
    expressions.flatMap fields = trees.flatMap Tree.fields := by
  induction h with
  | nil => rfl
  | cons compiled _ ih =>
    obtain ⟨first, others⟩ := List.forall_mem_cons.mp each
    rw [List.flatMap_cons, List.flatMap_cons, first _ compiled, ih others]

/-- No field of a tree is lost or replaced when it is compiled. -/
theorem Compiled.fields_eq {bindings : Bindings} {functions : FunctionArity} {tree : Tree}
    {e : Expression} (h : Compiled bindings tree e) (fits : tree.Fits functions) :
    e.fields = tree.fields := by
  induction tree using Tree.induct generalizing e with
  | build token children ih =>
    have admits : token.kind.Admits functions token.span.text children.length :=
      fits _ (Tree.self_mem_nodes _)
    rw [Tree.fields_node]
    cases h with
    | number kind | text kind | constant kind | unbound kind =>
      rw [kind] at admits
      obtain rfl := List.length_eq_zero_iff.mp admits
      rfl
    | @member _ field objectTree object isField isName compiled =>
      have same := ih objectTree (by simp) compiled (fits.child (by simp))
      simp only [fields, same, Tree.field?, isField, List.flatMap_cons, Tree.fields_leaf]
      simp [Tree.leaf, Tree.text, Tree.token]
    | @call _ _ name missing overloads arguments isCall calls bound compiled =>
      have noField : (Tree.node token children).field? = none := by
        unfold Tree.field?
        split
        next isChild =>
          cases isChild
          exact if_neg fun isField => by simp [isField, Kind.isCall] at isCall
        next => rfl
      rw [noField, fields, allFields_eq]
      exact flatMap_fields_eq compiled fun child member e compiled =>
        ih child member compiled (fits.child member)

end Expression

namespace Formula

def inline (key : String) (v : Value) (formula : Formula) : Formula :=
  { formula with expression := formula.expression.inline key v }

end Formula

namespace Engine

theorem compile_withConstant {engine : Engine} {name : String} (fresh : engine.constant? name = none)
    (v : Value) (tree : Tree) : (engine.withConstant name v).compile tree =
      (engine.compile tree).map (Formula.inline (Text.upper name) v) := by
  have fresh : engine.bindings.constants.lookup (Text.upper name) = none := fresh
  have compiled : Expression.ofTree (engine.bindings.withConstant (Text.upper name) v) tree =
      (Expression.ofTree engine.bindings tree).map (Expression.inline (Text.upper name) v) :=
    Expression.ofTree_withConstant fresh tree
  have same : (engine.withConstant name v).bindings =
      engine.bindings.withConstant (Text.upper name) v := rfl
  rw [compile, compile, same, compiled]
  cases Expression.ofTree engine.bindings tree <;> rfl

theorem prepare_withConstant {engine : Engine} {name : String} (fresh : engine.constant? name = none)
    (v : Value) (source : String) : (engine.withConstant name v).prepare source =
      (engine.prepare source).map (Formula.inline (Text.upper name) v) := by
  have parsed : (engine.withConstant name v).parse source = engine.parse source := rfl
  rw [prepare, prepare, parsed]
  cases engine.parse source with
  | error e => rfl
  | ok tree => exact compile_withConstant fresh v tree

/-- Whatever is compiled, its fields are those that are written. -/
theorem fields_of_prepare {engine : Engine} {source : String} {formula : Formula}
    (h : engine.prepare source = .ok formula) :
    ∃ tree, engine.parse source = .ok tree ∧ formula.expression.fields = tree.fields := by
  obtain ⟨tree, e, parsed, compiled, rfl⟩ := prepare_eq_ok_iff.mp h
  exact ⟨tree, parsed, compiled.fields_eq (fits_of_parse parsed)⟩

/-- A function that writes down what is deferred finds a value where there was a name. -/
example :
    let written : Implementation := fun _ arguments =>
      match arguments with
      | [.deferred _ (.reference name _)] => pure (.text name)
      | _ => pure .null
    let table := ({} : FunctionTable).define "f" { params := [Param.any.lazily] } written
    let engine := ({} : Engine).withFunctions (.ofLayers (.single table))
    let resolver : Resolver := fun _ => none
    ((engine.withConstant "x" .null).evaluate "f(x)" resolver).toOption.map Value.toText = some "null" ∧
      (engine.evaluate "f(x)" (resolver.answering "X" .null)).toOption.map Value.toText = some "x" := by
  decide +kernel

end Engine

end Formulary
