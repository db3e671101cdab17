set_option autoImplicit false

/-!
# Layered tables

Tables stacked on top of each other, in any nesting. What a table lacks is looked up in those below.
-/

namespace Formulary

inductive Layers (α : Type) where
  | single (table : α)
  | upon (top bottom : Layers α)

namespace Layers

variable {α β : Type}

/-- What the topmost table that knows it has to say. -/
def first? (look : α → Option β) : Layers α → Option β
  | single table => look table
  | upon top bottom => (top.first? look).or (bottom.first? look)

def any (holds : α → Bool) : Layers α → Bool
  | single table => holds table
  | upon top bottom => top.any holds || bottom.any holds

/-- The tables from the top down. -/
def toList : Layers α → List α
  | single table => [table]
  | upon top bottom => top.toList ++ bottom.toList

theorem first?_eq (look : α → Option β) (layers : Layers α) :
    layers.first? look = layers.toList.findSome? look := by
  induction layers with
  | single table => simp [first?, toList]
  | upon top bottom top_ih bottom_ih => simp [first?, toList, top_ih, bottom_ih]

theorem any_eq (holds : α → Bool) (layers : Layers α) :
    layers.any holds = layers.toList.any holds := by
  induction layers with
  | single table => simp [any, toList]
  | upon top bottom top_ih bottom_ih => simp [any, toList, top_ih, bottom_ih]

/-- Puts tables on top one after the other, so that the last of them is searched first. -/
def stack (bottom : Layers α) (tables : List α) : Layers α :=
  tables.foldl (fun layers table => upon (single table) layers) bottom

@[simp] theorem toList_stack (bottom : Layers α) (tables : List α) :
    (bottom.stack tables).toList = tables.reverse ++ bottom.toList := by
  induction tables generalizing bottom with
  | nil => rfl
  | cons table tables ih =>
    have stacked : bottom.stack (table :: tables) = (upon (single table) bottom).stack tables := rfl
    simp [stacked, ih, toList]

/-- Another table in the place of each. -/
def map (f : α → β) : Layers α → Layers β
  | single table => single (f table)
  | upon top bottom => upon (top.map f) (bottom.map f)

@[simp] theorem toList_map (f : α → β) (layers : Layers α) :
    (layers.map f).toList = layers.toList.map f := by
  induction layers with
  | single table => rfl
  | upon top bottom top_ih bottom_ih => simp [map, toList, top_ih, bottom_ih]

/-- What is found is what the topmost table that knows anything has to say. -/
theorem first?_eq_some_iff {look : α → Option β} {layers : Layers α} {found : β} :
    layers.first? look = some found ↔
      ∃ above table below, layers.toList = above ++ table :: below ∧ look table = some found ∧
        ∀ other ∈ above, look other = none := by
  rw [first?_eq, List.findSome?_eq_some_iff]

end Layers

end Formulary
