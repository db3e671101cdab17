import Formulary.Operator.Table

set_option autoImplicit false

/-!
# Stacks of tables by what has been inserted in them

A table of operators is built by inserting one mapping after the other, and tables are stacked in any
nesting. Both questions about a stack can be answered from the insertions alone, and they are answered
as by the one table that all layers are inserted in, the lowest first.
-/

namespace Formulary

namespace OperatorTable

open Text

/-- What has been inserted in a table, in its order. -/
abbrev Insertions := List (Role × String × Mapping)

def insertAll (table : OperatorTable) (insertions : Insertions) : OperatorTable :=
  insertions.foldl (fun table (role, text, mapping) => table.insert role text mapping) table

def ofInsertions (insertions : Insertions) : OperatorTable :=
  empty.insertAll insertions

variable {insertions : Insertions} {role : Role} {text beginning : String} {mapping : Mapping}

/-- What one insertion says about a role and a text, in whatever case. -/
def inserted? (role : Role) (text : String) : Role × String × Mapping → Option Mapping
  | (other, spelling, mapping) =>
    if other = role ∧ upper spelling = upper text then some mapping else none

namespace Insertions

/-- Something is inserted for a role and a text, in whatever case. -/
def Has (insertions : Insertions) (role : Role) (text : String) : Prop :=
  ∃ insertion ∈ insertions, insertion.1 = role ∧ upper insertion.2.1 = upper text

/-- A mapping is inserted for a role and a text, and none for them after it. -/
def Latest (insertions : Insertions) (role : Role) (text : String) (mapping : Mapping) : Prop :=
  ∃ earlier spelling later, insertions = earlier ++ (role, spelling, mapping) :: later ∧
    upper spelling = upper text ∧ ¬Has later role text

/-- Something is inserted for a role and a text that begins as given, in whatever case. -/
def CanStart (insertions : Insertions) (role : Role) (beginning : String) : Prop :=
  ∃ insertion ∈ insertions, insertion.1 = role ∧
    (upper beginning).toList <+: (upper insertion.2.1).toList

theorem has_iff_inserted? :
    Has insertions role text ↔ ∃ insertion ∈ insertions, inserted? role text insertion ≠ none := by
  simp [Has, inserted?]

theorem latest_iff_findSome? :
    Latest insertions role text mapping ↔
      insertions.reverse.findSome? (inserted? role text) = some mapping := by
  rw [List.findSome?_eq_some_iff]
  constructor
  · rintro ⟨earlier, spelling, later, rfl, same, newest⟩
    refine ⟨later.reverse, (role, spelling, mapping), earlier.reverse, by simp, ?_, ?_⟩
    · simp [inserted?, same]
    · intro insertion member
      refine Classical.byContradiction fun matching => newest ?_
      exact has_iff_inserted?.mpr ⟨insertion, List.mem_reverse.mp member, matching⟩
  · rintro ⟨later, ⟨other, spelling, found⟩, earlier, split, isInserted, others⟩
    obtain ⟨⟨rfl, same⟩, rfl⟩ : (other = role ∧ upper spelling = upper text) ∧ found = mapping := by
      simpa [inserted?] using isInserted
    refine ⟨earlier.reverse, spelling, later.reverse, ?_, same, ?_⟩
    · simpa using congrArg List.reverse split
    · intro has
      obtain ⟨insertion, member, matching⟩ := has_iff_inserted?.mp has
      exact matching (others insertion (List.mem_reverse.mp member))

end Insertions

theorem find?_insertAll (table : OperatorTable) (insertions : Insertions) (role : Role)
    (text : String) :
    (table.insertAll insertions).find? role text =
      (insertions.reverse.findSome? (inserted? role text)).or (table.find? role text) := by
  induction insertions generalizing table with
  | nil => rfl
  | cons first rest ih =>
    obtain ⟨other, spelling, mapping⟩ := first
    change ((table.insert other spelling mapping).insertAll rest).find? role text = _
    rw [ih, find?_insert, List.reverse_cons, List.findSome?_append]
    by_cases same : other = role ∧ upper spelling = upper text <;> simp [inserted?, same]

theorem find?_ofInsertions (insertions : Insertions) (role : Role) (text : String) :
    (ofInsertions insertions).find? role text =
      insertions.reverse.findSome? (inserted? role text) := by
  rw [ofInsertions, find?_insertAll]
  exact Option.or_none

/-- Where an entry is placed it takes the place of one for the same role and text only. -/
theorem exists_mem_place_iff {P : Role → String → Prop} {entries : List (Role × String × Mapping)} :
    (∃ entry ∈ place role text mapping entries, P entry.1 entry.2.1) ↔
      P role text ∨ ∃ entry ∈ entries, P entry.1 entry.2.1 := by
  induction entries with
  | nil => simp [place]
  | cons first rest ih =>
    rw [place]
    split
    next same =>
      obtain ⟨rfl, rfl⟩ := same
      simp only [List.mem_cons, exists_eq_or_imp, or_self_left]
    next =>
      split
      next => simp only [List.mem_cons, exists_eq_or_imp]
      next =>
        simp only [List.mem_cons, exists_eq_or_imp, ih]
        exact or_left_comm

theorem canStart_insert (table : OperatorTable) {other : Role} :
    (table.insert role text mapping).canStart other beginning = true ↔
      (role = other ∧ (upper beginning).toList <+: (upper text).toList) ∨
        table.canStart other beginning = true := by
  rw [canStart_iff, canStart_iff, insert]
  exact exists_mem_place_iff (P := fun r t => r = other ∧ (upper beginning).toList <+: t.toList)

theorem canStart_insertAll (table : OperatorTable) :
    (table.insertAll insertions).canStart role beginning = true ↔
      insertions.CanStart role beginning ∨ table.canStart role beginning = true := by
  induction insertions generalizing table with
  | nil => simp [insertAll, Insertions.CanStart]
  | cons first rest ih =>
    obtain ⟨other, spelling, mapping⟩ := first
    change ((table.insert other spelling mapping).insertAll rest).canStart role beginning = true ↔ _
    rw [ih, canStart_insert]
    simp only [Insertions.CanStart, List.mem_cons, exists_eq_or_imp, or_assoc]
    exact or_left_comm

theorem canStart_ofInsertions :
    (ofInsertions insertions).canStart role beginning = true ↔
      insertions.CanStart role beginning := by
  rw [ofInsertions, canStart_insertAll]
  simp [canStart]

end OperatorTable

namespace Operators

open Text OperatorTable

/-- The operators of a stack of tables that are built by insertions. -/
def ofInsertions (stack : Layers Insertions) : Operators :=
  ofLayers (stack.map OperatorTable.ofInsertions)

variable {stack : Layers Insertions} {role : Role} {text beginning : String} {mapping : Mapping}

theorem find?_ofInsertions_eq (stack : Layers Insertions) (role : Role) (text : String) :
    (ofInsertions stack).find? role text =
      stack.toList.findSome? fun insertions =>
        insertions.reverse.findSome? (inserted? role text) := by
  change (stack.map OperatorTable.ofInsertions).first? _ = _
  rw [Layers.first?_eq, Layers.toList_map, List.findSome?_map]
  congr 1
  funext insertions
  exact OperatorTable.find?_ofInsertions insertions role text

theorem find?_ofInsertions_eq_some_iff :
    (ofInsertions stack).find? role text = some mapping ↔
      ∃ above insertions below, stack.toList = above ++ insertions :: below ∧
        insertions.Latest role text mapping ∧ ∀ other ∈ above, ¬other.Has role text := by
  rw [find?_ofInsertions_eq, List.findSome?_eq_some_iff]
  simp only [Insertions.latest_iff_findSome?, List.findSome?_eq_none_iff, List.mem_reverse,
    Insertions.has_iff_inserted?, not_exists, not_and, ne_eq, Decidable.not_not]

theorem canStart_ofInsertions :
    (ofInsertions stack).canStart role beginning = true ↔
      ∃ insertions ∈ stack.toList, insertions.CanStart role beginning := by
  change (stack.map OperatorTable.ofInsertions).any _ = true ↔ _
  simp [Layers.any_eq, OperatorTable.canStart_ofInsertions]

/-- What is found in lists that are searched one after the other, each from its end. -/
theorem findSome?_reverse_flatten {α β : Type} (look : α → Option β) (lists : List (List α)) :
    lists.reverse.flatten.reverse.findSome? look =
      lists.findSome? fun list => list.reverse.findSome? look := by
  induction lists with
  | nil => rfl
  | cons first rest ih =>
    rw [List.reverse_cons, List.flatten_append, List.reverse_append, List.findSome?_append, ih,
      List.findSome?_cons, List.flatten_singleton]
    cases first.reverse.findSome? look <;> rfl

/-- A stack is asked as the one table that its layers are inserted in. -/
theorem ofInsertions_eq_single (stack : Layers Insertions) :
    ofInsertions stack = ofInsertions (.single stack.toList.reverse.flatten) := by
  have find : (ofInsertions stack).find? =
      (ofInsertions (.single stack.toList.reverse.flatten)).find? := by
    funext role text
    rw [find?_ofInsertions_eq, find?_ofInsertions_eq, Layers.toList, List.findSome?_singleton,
      findSome?_reverse_flatten]
  have canStart : (ofInsertions stack).canStart =
      (ofInsertions (.single stack.toList.reverse.flatten)).canStart := by
    funext role beginning
    rw [Bool.eq_iff_iff, canStart_ofInsertions, canStart_ofInsertions, Layers.toList]
    constructor
    · rintro ⟨insertions, inStack, insertion, member, begins⟩
      refine ⟨_, List.mem_singleton.mpr rfl, insertion, ?_, begins⟩
      exact List.mem_flatten.mpr ⟨insertions, List.mem_reverse.mpr inStack, member⟩
    · rintro ⟨_, isOnly, insertion, member, begins⟩
      obtain rfl := List.mem_singleton.mp isOnly
      obtain ⟨insertions, inStack, member⟩ := List.mem_flatten.mp member
      exact ⟨insertions, List.mem_reverse.mp inStack, insertion, member, begins⟩
  calc
    ofInsertions stack = ⟨(ofInsertions stack).find?, (ofInsertions stack).canStart⟩ := rfl
    _ = ofInsertions (.single stack.toList.reverse.flatten) := by rw [find, canStart]

/-- Whatever has been inserted and however the tables are stacked, what is found for a role and a text
is the mapping that was inserted last in the topmost table that has one, and a text can be the
beginning of an operator just in case it begins one in some table, the case of letters apart. A single
table does as well, if the layers are inserted in it from the bottom up. -/
theorem ofInsertions_latest (stack : Layers Insertions) :
    (∀ role text mapping, (ofInsertions stack).find? role text = some mapping ↔
      ∃ above insertions below, stack.toList = above ++ insertions :: below ∧
        insertions.Latest role text mapping ∧ ∀ other ∈ above, ¬other.Has role text) ∧
    (∀ role beginning, (ofInsertions stack).canStart role beginning = true ↔
      ∃ insertions ∈ stack.toList, insertions.CanStart role beginning) ∧
    ofInsertions stack = ofInsertions (.single stack.toList.reverse.flatten) :=
  ⟨fun _ _ _ => find?_ofInsertions_eq_some_iff, fun _ _ => canStart_ofInsertions,
    ofInsertions_eq_single stack⟩

/-- The upper case of `ß` is two letters: an operator is replaced by one that is spelled without it,
and what it ends can still grow. -/
theorem ofInsertions_latest_folded :
    let bottom : Insertions := [(.infixOp, "gruß", ⟨1, true, "a"⟩), (.infixOp, "GROSSE", ⟨2, true, "b"⟩)]
    let top : Insertions := [(.infixOp, "gruß", ⟨3, true, "c"⟩), (.prefixOp, "gruß", ⟨4, true, "d"⟩),
      (.infixOp, "Gruss", ⟨5, true, "e"⟩)]
    let operators := ofInsertions (.upon (.single top) (.single bottom))
    operators.find? .infixOp "GRUß" = some ⟨5, true, "e"⟩ ∧
      operators.canStart .infixOp "groß" = true := by
  intro bottom top operators
  have same : upper "Gruss" = upper "GRUß" := by decide +kernel
  have begins : (upper "groß").toList <+: (upper "GROSSE").toList := by decide +kernel
  obtain ⟨latest, starts, -⟩ := ofInsertions_latest (.upon (.single top) (.single bottom))
  constructor
  · have isLatest : top.Latest .infixOp "GRUß" ⟨5, true, "e"⟩ :=
      ⟨top.take 2, "Gruss", [], rfl, same, by simp [Insertions.Has]⟩
    exact (latest _ _ _).mpr ⟨[], top, [bottom], rfl, isLatest, by simp⟩
  · have inBottom : bottom.CanStart .infixOp "groß" :=
      ⟨(.infixOp, "GROSSE", ⟨2, true, "b"⟩), List.mem_cons_of_mem _ List.mem_cons_self, rfl, begins⟩
    exact (starts _ _).mpr ⟨bottom, List.mem_cons_of_mem _ List.mem_cons_self, inBottom⟩

end Operators

end Formulary
