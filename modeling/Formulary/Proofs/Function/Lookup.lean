import Formulary.Function.Table

set_option autoImplicit false

/-!
# Looking functions up

Reading an expression asks whether a number of arguments is accepted, and compiling it asks for the
overloads that accept them. Tables answer both questions alike, and so do stacks of tables.
-/

namespace Formulary

namespace Layers

variable {α β : Type} {look : α → Option β} {layers : Layers α}

theorem isSome_first? (look : α → Option β) (layers : Layers α) :
    (layers.first? look).isSome = layers.any fun table => (look table).isSome := by
  induction layers with
  | single table => rfl
  | upon top bottom top_ih bottom_ih => rw [first?, any, Option.isSome_or, top_ih, bottom_ih]

theorem exists_of_first? {found : β} (h : layers.first? look = some found) :
    ∃ table ∈ layers.toList, look table = some found := by
  rw [first?_eq] at h
  exact List.exists_of_findSome?_eq_some h

end Layers

/-- The first overload tells what is deferred. -/
theorem Overload.defers_of_eager {overload : Overload} {others : List Overload}
    (eager : ∀ param ∈ overload.signature.params ++ overload.signature.variadic.toList,
      param.deferred = false) (index : Nat) : defers (overload :: others) index = false := by
  change (overload.signature.param? index).any (·.deferred) = false
  cases isParam : overload.signature.param? index with
  | none => rfl
  | some param =>
    refine eager param ?_
    rcases Option.or_eq_some_iff.mp isParam with fixed | ⟨-, isVariadic⟩
    · exact List.mem_append_left _ (List.mem_of_getElem? fixed)
    · exact List.mem_append_right _ (Option.mem_toList.mpr isVariadic)

namespace FunctionTable

variable {table : FunctionTable} {name : String} {count : Nat} {found : List Overload}

/-- The overloads that are found are all those of the name that accept the number of arguments, in
their order. -/
theorem find?_eq_some_iff : table.find? name count = some found ↔
    found ≠ [] ∧ (table.overloads name).filter (·.signature.acceptsCount count) = found := by
  unfold find?
  split
  next none =>
    rw [none]
    simp [eq_comm]
  next nonempty =>
    constructor
    · intro same
      obtain rfl := Option.some.inj same
      exact ⟨nonempty, rfl⟩
    · rintro ⟨-, rfl⟩
      rfl

theorem isSome_find? (table : FunctionTable) (name : String) (count : Nat) :
    (table.find? name count).isSome = table.accepts name count := by
  rw [Bool.eq_iff_iff, Option.isSome_iff_exists, accepts, List.any_eq_true]
  constructor
  · rintro ⟨found, isFound⟩
    obtain ⟨nonempty, rfl⟩ := find?_eq_some_iff.mp isFound
    obtain ⟨overload, member⟩ := List.exists_mem_of_ne_nil _ nonempty
    exact ⟨overload, List.mem_filter.mp member⟩
  · rintro ⟨overload, member⟩
    have kept : overload ∈ (table.overloads name).filter (·.signature.acceptsCount count) :=
      List.mem_filter.mpr member
    exact ⟨_, find?_eq_some_iff.mpr ⟨List.ne_nil_of_mem kept, rfl⟩⟩

/-- The case of a name makes no difference. -/
theorem find?_congr (table : FunctionTable) {name other : String}
    (same : Text.upper name = Text.upper other) (count : Nat) :
    table.find? name count = table.find? other count := by
  simp only [find?, overloads, same]

/-- A property of all overloads of a table. -/
def Each (P : Overload → Prop) (table : FunctionTable) : Prop :=
  ∀ definition ∈ table.definitions, P definition.2

section Each

variable {P Q : Overload → Prop} {other : FunctionTable}

theorem Each.imp (h : table.Each P) (weaker : ∀ overload, P overload → Q overload) : table.Each Q :=
  fun definition member => weaker _ (h definition member)

theorem Each.and (h : table.Each P) (others : table.Each Q) : table.Each fun o => P o ∧ Q o :=
  fun definition member => ⟨h definition member, others definition member⟩

theorem Each.append (h : table.Each P) (others : other.Each P) : (table ++ other).Each P := by
  intro definition member
  rcases List.mem_append.mp member with first | second
  · exact h definition first
  · exact others definition second

theorem Each.define {signature : Signature} {body : Implementation} (h : table.Each P)
    (holds : P ⟨signature, body⟩) (name : String) : (table.define name signature body).Each P := by
  intro definition member
  rcases List.mem_append.mp member with old | new
  · exact h definition old
  · obtain rfl := List.mem_singleton.mp new
    exact holds

theorem each_ofDefinitions {definitions : List (String × Signature × Implementation)}
    (holds : ∀ definition ∈ definitions, P ⟨definition.2.1, definition.2.2⟩) :
    (ofDefinitions definitions).Each P := by
  have start : ({} : FunctionTable).Each P := by simp [Each]
  unfold ofDefinitions
  generalize ({} : FunctionTable) = table at start
  induction definitions generalizing table with
  | nil => exact start
  | cons first rest ih =>
    obtain ⟨first, rest⟩ := List.forall_mem_cons.mp holds
    exact ih rest _ (start.define first _)

theorem Each.overloads (h : table.Each P) (name : String) :
    ∀ overload ∈ table.overloads name, P overload := by
  intro overload member
  obtain ⟨definition, inTable, selected⟩ := List.mem_filterMap.mp member
  dsimp only at selected
  split at selected
  · cases selected
    exact h definition inTable
  · cases selected

/-- What is found has the property, and accepts the number of arguments. -/
theorem Each.find? (h : table.Each P) (isFound : table.find? name count = some found) :
    ∀ overload ∈ found, P overload ∧ overload.signature.acceptsCount count = true := by
  obtain ⟨-, rfl⟩ := find?_eq_some_iff.mp isFound
  intro overload member
  obtain ⟨member, accepts⟩ := List.mem_filter.mp member
  exact ⟨h.overloads name overload member, accepts⟩

end Each

end FunctionTable

namespace Functions

/-- There is an overload under the name for the number of arguments. -/
def Binds (functions : Functions) (name : String) (count : Nat) : Prop :=
  ∃ overloads, functions.find? name count = some overloads ∧ overloads ≠ []

/-- What is accepted when an expression is read can be bound when it is compiled. -/
def BindAccepted (functions : Functions) : Prop :=
  ∀ name count, functions.arity.accepts name count = true → functions.Binds name count

/-- The questions of reading and of compiling are answered alike, and where there is no overload nothing is
found. -/
structure Coherent (functions : Functions) : Prop where
  bindAccepted : functions.BindAccepted
  ne_nil : ∀ name count overloads, functions.find? name count = some overloads → overloads ≠ []

section Upon

variable {top bottom : Functions} {name : String} {count : Nat} {overloads : List Overload}

theorem find?_upon_of_some (found : top.find? name count = some overloads) :
    (top.upon bottom).find? name count = some overloads := by
  simp [upon, found]

/-- What is not found on top is what is found below. -/
theorem find?_upon_of_none (missing : top.find? name count = none) :
    (top.upon bottom).find? name count = bottom.find? name count := by
  simp [upon, missing]

/-- What is hidden is bound nevertheless, to what hides it. -/
theorem Binds.upon (h : bottom.Binds name count) (coherent : top.Coherent) :
    (top.upon bottom).Binds name count := by
  obtain ⟨overloads, found, nonempty⟩ := h
  cases hides : top.find? name count with
  | none => exact ⟨overloads, (find?_upon_of_none hides).trans found, nonempty⟩
  | some others => exact ⟨others, find?_upon_of_some hides, coherent.ne_nil _ _ _ hides⟩

theorem Coherent.upon (h : top.Coherent) (below : bottom.Coherent) : (top.upon bottom).Coherent where
  bindAccepted := by
    intro name count accepted
    rcases Bool.or_eq_true_iff.mp accepted with onTop | beneath
    · obtain ⟨overloads, found, nonempty⟩ := h.bindAccepted name count onTop
      exact ⟨overloads, find?_upon_of_some found, nonempty⟩
    · exact (below.bindAccepted name count beneath).upon h
  ne_nil := by
    intro name count overloads found
    rcases Option.or_eq_some_iff.mp found with onTop | ⟨-, beneath⟩
    · exact h.ne_nil _ _ _ onTop
    · exact below.ne_nil _ _ _ beneath

end Upon

section Layers

variable {layers : Layers FunctionTable} {name : String} {count : Nat} {overloads : List Overload}

theorem isSome_find? (layers : Layers FunctionTable) (name : String) (count : Nat) :
    ((ofLayers layers).find? name count).isSome = (ofLayers layers).arity.accepts name count := by
  simp only [ofLayers, Layers.isSome_first?, FunctionTable.isSome_find?]

theorem ne_nil_of_find? (h : (ofLayers layers).find? name count = some overloads) :
    overloads ≠ [] := by
  obtain ⟨table, -, found⟩ := Layers.exists_of_first? h
  exact (FunctionTable.find?_eq_some_iff.mp found).1

/-- Whatever tables are stacked, what they accept they can bind. -/
theorem coherent_ofLayers (layers : Layers FunctionTable) : (ofLayers layers).Coherent where
  bindAccepted name count accepted := by
    rw [← isSome_find?] at accepted
    obtain ⟨overloads, found⟩ := Option.isSome_iff_exists.mp accepted
    exact ⟨overloads, found, ne_nil_of_find? found⟩
  ne_nil _ _ _ := ne_nil_of_find?

end Layers

end Functions

end Formulary
