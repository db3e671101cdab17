set_option autoImplicit false

/-!
# Fields by name

The names are kept in their order, each of them once, so there is no other way to keep the same
fields. What they contain is told apart from the names, because the contents of a value are values
themselves.
-/

namespace Formulary

structure Fields (α : Type) where
  names : List String
  sorted : names.Pairwise (· < ·)
  content : Fin names.length → α

namespace Fields

variable {α β : Type}

def empty : Fields α := ⟨[], .nil, Fin.elim0⟩

def name (fields : Fields α) (i : Fin fields.names.length) : String :=
  fields.names[i]

def find? (fields : Fields α) (name : String) : Option α :=
  (fields.names.finIdxOf? name).map fields.content

def toList (fields : Fields α) : List (String × α) :=
  (List.finRange fields.names.length).map fun i => (fields.name i, fields.content i)

def map (f : α → β) (fields : Fields α) : Fields β :=
  ⟨fields.names, fields.sorted, fun i => f (fields.content i)⟩

/-- Puts a name at its place among sorted ones, unless it stands there already. -/
def place (name : String) : List String → List String
  | [] => [name]
  | other :: rest =>
    if name = other then other :: rest
    else if name < other then name :: other :: rest
    else other :: place name rest

theorem mem_place {name other : String} {names : List String} :
    other ∈ place name names ↔ other = name ∨ other ∈ names := by
  induction names with
  | nil => exact List.mem_cons
  | cons first rest ih =>
    rw [place]
    split
    next same => simp [same]
    next =>
      split
      · exact List.mem_cons
      · rw [List.mem_cons, List.mem_cons, ih, or_left_comm]

theorem sorted_place (name : String) {names : List String} (sorted : names.Pairwise (· < ·)) :
    (place name names).Pairwise (· < ·) := by
  induction names with
  | nil => exact List.pairwise_singleton _ _
  | cons first rest ih =>
    obtain ⟨before, sorted⟩ := List.pairwise_cons.mp sorted
    rw [place]
    split
    next => exact .cons before sorted
    next distinct =>
      split
      next less =>
        refine .cons (fun other member => ?_) (.cons before sorted)
        rcases List.mem_cons.mp member with rfl | later
        · exact less
        · exact String.lt_trans less (before other later)
      next notLess =>
        refine .cons (fun other member => ?_) (ih sorted)
        rcases mem_place.mp member with rfl | old
        · have above : first ≤ other := String.not_lt.mp notLess
          have notBelow : ¬other ≤ first := fun below => distinct (String.le_antisymm below above)
          exact Decidable.not_not.mp (notBelow ∘ String.not_lt.mp)
        · exact before other old

/-- Puts a content under a name, in the place of one that is there. All names but this one have a
content already. -/
def insert (fields : Fields α) (name : String) (a : α) : Fields α where
  names := place name fields.names
  sorted := sorted_place name fields.sorted
  content i :=
    let other := (place name fields.names)[i]
    if other = name then a else (fields.find? other).getD a

/-- Of several contents of one name the last one is kept. -/
def ofList (entries : List (String × α)) : Fields α :=
  entries.foldl (fun fields (name, a) => fields.insert name a) empty

theorem find?_eq_some_iff {fields : Fields α} {name : String} {a : α} :
    fields.find? name = some a ↔ ∃ i, fields.name i = name ∧ fields.content i = a := by
  rw [find?, Option.map_eq_some_iff]
  constructor
  · rintro ⟨i, found, rfl⟩
    exact ⟨i, (List.finIdxOf?_eq_some_iff.mp found).1, rfl⟩
  · rintro ⟨i, rfl, rfl⟩
    refine ⟨i, List.finIdxOf?_eq_some_iff.mpr ⟨rfl, fun j before same => ?_⟩, rfl⟩
    have less := List.pairwise_iff_getElem.mp fields.sorted j i j.isLt i.isLt before
    exact String.lt_irrefl _ (same ▸ less)

@[simp] theorem find?_name (fields : Fields α) (i : Fin fields.names.length) :
    fields.find? (fields.name i) = some (fields.content i) :=
  find?_eq_some_iff.mpr ⟨i, rfl, rfl⟩

theorem isSome_find?_iff {fields : Fields α} {name : String} :
    (fields.find? name).isSome = true ↔ name ∈ fields.names := by
  rw [Option.isSome_iff_exists, List.mem_iff_getElem]
  constructor
  · rintro ⟨a, found⟩
    obtain ⟨i, same, -⟩ := find?_eq_some_iff.mp found
    exact ⟨i, i.isLt, same⟩
  · rintro ⟨i, inside, rfl⟩
    exact ⟨_, fields.find?_name ⟨i, inside⟩⟩

@[simp] theorem find?_map (f : α → β) (fields : Fields α) (name : String) :
    (fields.map f).find? name = (fields.find? name).map f := by
  rw [find?, find?, Option.map_map]
  rfl

theorem find?_eq_none_iff {fields : Fields α} {name : String} :
    fields.find? name = none ↔ name ∉ fields.names := by
  rw [← isSome_find?_iff, Bool.not_eq_true, Option.isSome_eq_false_iff, Option.isNone_iff_eq_none]

@[simp] theorem find?_insert (fields : Fields α) (name other : String) (a : α) :
    (fields.insert name a).find? other = if other = name then some a else fields.find? other := by
  by_cases member : other ∈ place name fields.names
  · obtain ⟨i, inside, rfl⟩ := List.getElem_of_mem member
    refine ((fields.insert name a).find?_name ⟨i, inside⟩).trans ?_
    change some (if (place name fields.names)[i] = name then a
      else (fields.find? (place name fields.names)[i]).getD a) = _
    split
    next => rfl
    next distinct =>
      have old := (mem_place.mp member).resolve_left distinct
      obtain ⟨b, isOld⟩ := Option.isSome_iff_exists.mp (isSome_find?_iff.mpr old)
      exact (congrArg (fun found => some (found.getD a)) isOld).trans isOld.symm
  · obtain ⟨distinct, absent⟩ := not_or.mp (mt mem_place.mpr member)
    rw [if_neg distinct, find?_eq_none_iff.mpr absent]
    exact find?_eq_none_iff.mpr member

end Fields

end Formulary
