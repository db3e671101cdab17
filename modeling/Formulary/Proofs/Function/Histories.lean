import Formulary.Proofs.Function.Layering

set_option autoImplicit false

/-!
# Stacks of tables by what has been defined in them

A table is built by defining one overload after the other, and tables are stacked in any nesting. What
is found for a name and a number of arguments can be said from these definitions alone: all that the
topmost table defines for both, if any table does.
-/

namespace Formulary

namespace Signature

/-- There is an argument for each parameter, and one or more for a variadic one. -/
def Takes (s : Signature) (count : Nat) : Prop :=
  match s.variadic with
  | none => count = s.params.length
  | some _ => s.params.length < count

theorem acceptsCount_iff {s : Signature} {count : Nat} :
    s.acceptsCount count = true ↔ s.Takes count := by
  cases h : s.variadic <;> simp [acceptsCount, Takes, h]

instance (s : Signature) (count : Nat) : Decidable (s.Takes count) :=
  decidable_of_iff _ acceptsCount_iff

end Signature

/-- What has been defined in a table, in its order. -/
abbrev History := List (String × Signature × Implementation)

namespace History

open Text

/-- The overloads that are defined under a name, in whatever case, and take a number of arguments. -/
def overloads (history : History) (name : String) (count : Nat) : List Overload :=
  (history.filter fun (other, signature, _) => upper other = upper name ∧ signature.Takes count).map
    fun (_, signature, body) => ⟨signature, body⟩

/-- Something is defined under a name, in whatever case. -/
def Names (history : History) (name : String) : Prop :=
  ∃ definition ∈ history, upper definition.1 = upper name

variable {history : History} {name : String} {count : Nat} {found : List Overload}

theorem overloads_ofDefinitions (history : History) (name : String) :
    (FunctionTable.ofDefinitions history).overloads name =
      (history.filter fun (other, _) => upper other = upper name).map
        fun (_, signature, body) => ⟨signature, body⟩ := by
  have definitions := FunctionTable.definitions_defineAll {} history
  change (FunctionTable.ofDefinitions history).definitions = [] ++ _ at definitions
  rw [FunctionTable.overloads, definitions, List.nil_append, List.filterMap_map, ← List.filterMap_eq_map,
    List.filterMap_filter]
  congr 1
  funext definition
  simp

theorem filter_ofDefinitions (history : History) (name : String) (count : Nat) :
    ((FunctionTable.ofDefinitions history).overloads name).filter (·.signature.acceptsCount count) =
      history.overloads name count := by
  rw [overloads_ofDefinitions, List.filter_map, List.filter_filter, overloads]
  congr 2
  funext definition
  rw [Bool.eq_iff_iff]
  simp [Signature.acceptsCount_iff, and_comm]

theorem find?_ofDefinitions_eq_some_iff :
    (FunctionTable.ofDefinitions history).find? name count = some found ↔
      found ≠ [] ∧ history.overloads name count = found := by
  rw [FunctionTable.find?_eq_some_iff, filter_ofDefinitions]

theorem find?_ofDefinitions_eq_none_iff :
    (FunctionTable.ofDefinitions history).find? name count = none ↔
      history.overloads name count = [] := by
  rw [FunctionTable.find?, filter_ofDefinitions]
  split
  next nothing => simp [nothing]
  next nonempty => simpa using nonempty

theorem has_ofDefinitions_iff :
    (FunctionTable.ofDefinitions history).has name = true ↔ history.Names name := by
  simp [FunctionTable.has, overloads_ofDefinitions, Names]

end History

namespace FunctionTable

variable {table : FunctionTable} {name : String} {count : Nat}

theorem has_of_accepts (h : table.accepts name count = true) : table.has name = true := by
  obtain ⟨overload, member, -⟩ := List.any_eq_true.mp h
  simpa [has] using List.ne_nil_of_mem member

end FunctionTable

namespace Functions

/-- The functions of a stack of tables that are built by definitions. -/
def ofHistories (stack : Layers History) : Functions :=
  ofLayers (stack.map FunctionTable.ofDefinitions)

variable {stack : Layers History} {name : String} {count : Nat} {found : List Overload}

theorem has_of_accepts {layers : Layers FunctionTable}
    (h : (ofLayers layers).arity.accepts name count = true) :
    (ofLayers layers).arity.has name = true := by
  simp only [ofLayers, Layers.any_eq, List.any_eq_true] at h ⊢
  obtain ⟨table, member, accepted⟩ := h
  exact ⟨table, member, FunctionTable.has_of_accepts accepted⟩

theorem has_ofHistories_iff :
    (ofHistories stack).arity.has name = true ↔ ∃ history ∈ stack.toList, history.Names name := by
  simp [ofHistories, ofLayers, Layers.any_eq, History.has_ofDefinitions_iff]

theorem find?_ofHistories_eq_some_iff :
    (ofHistories stack).find? name count = some found ↔
      ∃ above history below, stack.toList = above ++ history :: below ∧
        (∀ other ∈ above, History.overloads other name count = []) ∧
        history.overloads name count = found ∧ found ≠ [] := by
  change (stack.map FunctionTable.ofDefinitions).first? _ = some found ↔ _
  rw [Layers.first?_eq_some_iff, Layers.toList_map]
  constructor
  · rintro ⟨above, table, below, split, isFound, nothing⟩
    obtain ⟨first, rest, isStack, rfl, tables⟩ := List.map_eq_append_iff.mp split
    obtain ⟨history, others, rfl, rfl, rfl⟩ := List.map_eq_cons_iff.mp tables
    obtain ⟨nonempty, same⟩ := History.find?_ofDefinitions_eq_some_iff.mp isFound
    refine ⟨first, history, others, isStack, ?_, same, nonempty⟩
    intro other member
    exact History.find?_ofDefinitions_eq_none_iff.mp (nothing _ (List.mem_map_of_mem member))
  · rintro ⟨above, history, below, split, nothing, same, nonempty⟩
    refine ⟨above.map .ofDefinitions, .ofDefinitions history, below.map .ofDefinitions, by simp [split],
      History.find?_ofDefinitions_eq_some_iff.mpr ⟨nonempty, same⟩, ?_⟩
    intro table member
    obtain ⟨other, isAbove, rfl⟩ := List.mem_map.mp member
    exact History.find?_ofDefinitions_eq_none_iff.mpr (nothing other isAbove)

/-- Reading and compiling an expression agree about functions, whatever has been defined and however the
tables are stacked. What is found are all overloads that take the number of arguments in the topmost
table that has any under the name; no others are among them, and a table with other numbers of
arguments only hides nothing. -/
theorem ofHistories_topmost (stack : Layers History) (name : String) (count : Nat) :
    ((ofHistories stack).find? name count).isSome = (ofHistories stack).arity.accepts name count ∧
    ((ofHistories stack).arity.accepts name count = true →
      (ofHistories stack).arity.has name = true) ∧
    ((ofHistories stack).arity.has name = true ↔ ∃ history ∈ stack.toList, history.Names name) ∧
    ∀ found, (ofHistories stack).find? name count = some found ↔
      ∃ above history below, stack.toList = above ++ history :: below ∧
        (∀ other ∈ above, History.overloads other name count = []) ∧
        history.overloads name count = found ∧ found ≠ [] :=
  ⟨isSome_find? _ name count, has_of_accepts, has_ofHistories_iff,
    fun _ => find?_ofHistories_eq_some_iff⟩

/-- The table on top has the name for another number of arguments, and of the table below it both
overloads are found. -/
theorem ofHistories_topmost_arity :
    let body : Implementation := fun _ _ => pure .null
    let many : Signature := { params := [.any], variadic := some .any }
    let two : Signature := { params := [.any, .any] }
    (ofHistories (.upon (.single [("max", {}, body)])
      (.upon (.single [("Max", many, body), ("min", two, body), ("MAX", two, body)])
        (.single [("max", two, body)])))).find? "mAX" 2 = some [⟨many, body⟩, ⟨two, body⟩] := by
  intro body many two
  have same : Text.upper "Max" = Text.upper "mAX" ∧ Text.upper "MAX" = Text.upper "mAX" ∧
      Text.upper "min" ≠ Text.upper "mAX" := by decide +kernel
  refine ((ofHistories_topmost _ "mAX" 2).2.2.2 _).mpr
    ⟨[[("max", {}, body)]], [("Max", many, body), ("min", two, body), ("MAX", two, body)],
      [[("max", two, body)]], rfl, ?_, ?_, by simp⟩
  · rintro other member
    obtain rfl := List.mem_singleton.mp member
    have fewer : ¬({} : Signature).Takes 2 := by decide
    simp [History.overloads, fewer]
  · simp [History.overloads, Signature.Takes, same, many, two]

end Functions

end Formulary
