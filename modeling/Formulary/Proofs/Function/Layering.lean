import Formulary.Proofs.Function.Lookup
import Formulary.Proofs.Tree.Wider

set_option autoImplicit false

/-!
# Putting tables of functions together

Tables on top of others hide what they have overloads for, by name and number of arguments, and leave all
else as it is. Overloads that are defined later stand behind those that are there already.
-/

namespace Formulary

namespace FunctionTable

/-- No overload of the name takes so many arguments. -/
def Lacks (table : FunctionTable) (name : String) (count : Nat) : Prop :=
  ∀ overload ∈ table.overloads name, overload.signature.acceptsCount count = false

instance (table : FunctionTable) (name : String) (count : Nat) : Decidable (table.Lacks name count) :=
  inferInstanceAs (Decidable (∀ overload ∈ table.overloads name, _))

variable {table other : FunctionTable} {name : String} {count : Nat} {found : List Overload}

theorem find?_eq_none_iff : table.find? name count = none ↔ table.Lacks name count := by
  rw [← Option.not_isSome_iff_eq_none, isSome_find?, accepts, List.any_eq_true]
  simp [Lacks]

/-- The overloads of each name are the first ones of the other table. -/
def Begins (table other : FunctionTable) : Prop :=
  ∀ name, table.overloads name <+: other.overloads name

theorem Begins.find? (h : table.Begins other) (isFound : table.find? name count = some found) :
    ∃ others, other.find? name count = some others ∧ found <+: others := by
  obtain ⟨nonempty, rfl⟩ := find?_eq_some_iff.mp isFound
  have begins := (h name).filter (·.signature.acceptsCount count)
  exact ⟨_, find?_eq_some_iff.mpr ⟨begins.ne_nil nonempty, rfl⟩, begins⟩

/-- Defines one overload after the other. -/
def defineAll (table : FunctionTable) (definitions : List (String × Signature × Implementation)) :
    FunctionTable :=
  definitions.foldl (fun table (name, signature, body) => table.define name signature body) table

theorem definitions_defineAll (table : FunctionTable)
    (definitions : List (String × Signature × Implementation)) :
    (table.defineAll definitions).definitions =
      table.definitions ++ definitions.map fun d => (Text.upper d.1, ⟨d.2.1, d.2.2⟩) := by
  induction definitions generalizing table with
  | nil => exact (List.append_nil _).symm
  | cons first rest ih => exact (ih _).trans (List.append_assoc _ _ _)

theorem begins_defineAll (table : FunctionTable)
    (definitions : List (String × Signature × Implementation)) :
    table.Begins (table.defineAll definitions) := by
  intro name
  rw [overloads, overloads, definitions_defineAll, List.filterMap_append]
  exact List.prefix_append _ _

end FunctionTable

namespace Functions

variable {name : String} {count : Nat}

theorem within_upon (top bottom : Functions) : bottom.arity.Within (top.upon bottom).arity where
  has _ known := Bool.or_eq_true_iff.mpr (.inr known)
  accepts _ _ known := Bool.or_eq_true_iff.mpr (.inr known)

/-- Nothing is found in a stack of tables if all of them lack it. -/
theorem find?_eq_none_iff {layers : Layers FunctionTable} :
    (ofLayers layers).find? name count = none ↔ ∀ table ∈ layers.toList, table.Lacks name count := by
  simp only [ofLayers, Layers.first?_eq, List.findSome?_eq_none_iff, FunctionTable.find?_eq_none_iff]

/-- What is found is the first part of what is found in the other. -/
def Begins (functions more : Functions) : Prop :=
  ∀ name count found, functions.find? name count = some found →
    ∃ others, more.find? name count = some others ∧ found <+: others

/-- Overloads behind those of a table make no difference to which of them come first. -/
theorem begins_upon {table other : FunctionTable} (h : table.Begins other) (bottom : Functions) :
    (ofLayers (.single table)).Begins ((ofLayers (.single other)).upon bottom) := by
  intro name count found isFound
  obtain ⟨others, isOthers, begins⟩ := h.find? isFound
  exact ⟨others, find?_upon_of_some isOthers, begins⟩

end Functions

end Formulary
