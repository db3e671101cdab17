import Formulary.Value.Fields
import Mathlib.Data.List.Sort
import Mathlib.Data.String.Basic

set_option autoImplicit false

/-!
# Fields are told apart by what is found in them

Fields have one order only, so that those that have the same contents under the same names are the same
fields. As many fields as others have their names if each of their names is among them.
-/

namespace Formulary.Fields

variable {α β γ : Type} {fields others : Fields α}

theorem forall_find?_iff {holds : String → α → Prop} :
    (∀ name a, fields.find? name = some a → holds name a) ↔
      ∀ i : Fin fields.names.length, holds (fields.name i) (fields.content i) := by
  constructor
  · exact fun all i => all _ _ (fields.find?_name i)
  · intro all name a found
    obtain ⟨i, rfl, rfl⟩ := find?_eq_some_iff.mp found
    exact all i

theorem ext_names (names : fields.names = others.names)
    (contents : ∀ i, others.find? (fields.name i) = some (fields.content i)) : fields = others := by
  obtain ⟨names₁, sorted₁, content₁⟩ := fields
  obtain ⟨names₂, sorted₂, content₂⟩ := others
  cases names
  congr 1
  funext i
  have found := find?_name (⟨names₁, sorted₁, content₂⟩ : Fields α) i
  exact Option.some.inj ((contents i).symm.trans found)

/-- Fields are the same if the same is found in them under each name. -/
theorem ext_find? (same : ∀ name, fields.find? name = others.find? name) : fields = others := by
  refine ext_names ?_ fun i => (same _).symm.trans (fields.find?_name i)
  refine fields.sorted.eq_of_mem_iff others.sorted fun name => ?_
  rw [← isSome_find?_iff, ← isSome_find?_iff, same]

theorem names_eq (length : fields.names.length = others.names.length)
    (found : ∀ i : Fin fields.names.length, (others.find? (fields.name i)).isSome = true) :
    fields.names = others.names := by
  have subset : fields.names ⊆ others.names := fun name member => by
    obtain ⟨i, inside, rfl⟩ := List.getElem_of_mem member
    exact isSome_find?_iff.mp (found ⟨i, inside⟩)
  have nodup : fields.names.Nodup := fields.sorted.imp String.ne_of_lt
  exact ((List.subperm_of_subset nodup subset).perm_of_length_le length.ge).eq_of_pairwise'
    fields.sorted others.sorted

/-- Two maps of fields agree if there are as many of either and the first finds its contents in the
second. -/
theorem map_eq_map_iff {f : α → γ} {g : β → γ} {fields : Fields α} {others : Fields β} :
    fields.map f = others.map g ↔ fields.names.length = others.names.length ∧
      ∀ i : Fin fields.names.length,
        ∃ b, others.find? (fields.name i) = some b ∧ f (fields.content i) = g b := by
  constructor
  · intro same
    refine ⟨congrArg (fun fields : Fields γ => fields.names.length) same, fun i => ?_⟩
    have found : (others.map g).find? (fields.name i) = some (f (fields.content i)) :=
      same ▸ (fields.map f).find?_name i
    obtain ⟨b, isFound, image⟩ := Option.map_eq_some_iff.mp ((find?_map g others _).symm.trans found)
    exact ⟨b, isFound, image.symm⟩
  · rintro ⟨length, found⟩
    have contents (i : Fin fields.names.length) :
        (others.map g).find? (fields.name i) = some (f (fields.content i)) := by
      obtain ⟨b, isFound, image⟩ := found i
      rw [find?_map, isFound, image, Option.map_some]
    have names : (fields.map f).names = (others.map g).names :=
      names_eq length fun i => Option.isSome_of_eq_some (contents i)
    exact ext_names names contents

end Formulary.Fields
