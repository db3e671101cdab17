import Formulary.Layers
import Formulary.Operator.Basic
import Formulary.Text.Case

set_option autoImplicit false

/-!
# Tables of operators

A table holds at most one mapping for a role and an upper-cased text, sorted by role and text. Texts
that begin alike stand together in it, so that one entry tells whether any begins with a given text.
-/

namespace Formulary

/-- All that reading an expression asks about operators: what an operator is bound to, and whether a
text can still grow into an operator. -/
structure Operators where
  find? : Role → String → Option Mapping
  canStart : Role → String → Bool

/-- What is not bound on top is looked up below. -/
def Operators.upon (top bottom : Operators) : Operators where
  find? role text := (top.find? role text).or (bottom.find? role text)
  canStart role text := top.canStart role text || bottom.canStart role text

namespace OperatorTable

def precedes (role : Role) (text : String) (other : Role) (otherText : String) : Bool :=
  role.rank < other.rank || (role == other && text < otherText)

/-- The order of entries. -/
def Precedes (entry other : Role × String × Mapping) : Prop :=
  precedes entry.1 entry.2.1 other.1 other.2.1 = true

end OperatorTable

structure OperatorTable where
  entries : List (Role × String × Mapping) := []
  sorted : entries.Pairwise OperatorTable.Precedes := by exact .nil

namespace OperatorTable

open Text

def empty : OperatorTable := {}

@[simp] theorem entries_empty : empty.entries = [] := rfl

theorem precedes_iff {role other : Role} {text otherText : String} :
    precedes role text other otherText = true ↔
      role.rank < other.rank ∨ role = other ∧ text < otherText := by
  simp [precedes]

theorem Precedes.trans {first second third : Role × String × Mapping} (h : Precedes first second)
    (later : Precedes second third) : Precedes first third := by
  unfold Precedes at *
  rw [precedes_iff] at *
  rcases h with rank | ⟨same, less⟩
  · rcases later with rank' | ⟨same', -⟩
    · exact .inl (Nat.lt_trans rank rank')
    · exact .inl (same' ▸ rank)
  · rcases later with rank' | ⟨same', less'⟩
    · exact .inl (same ▸ rank')
    · exact .inr ⟨same.trans same', String.lt_trans less less'⟩

/-- Of two places one precedes the other. -/
theorem precedes_of_not_precedes {role other : Role} {text otherText : String}
    (distinct : ¬(role = other ∧ text = otherText))
    (h : ¬precedes role text other otherText = true) :
    precedes other otherText role text = true := by
  rw [precedes_iff] at *
  by_cases same : role = other
  · refine .inr ⟨same.symm, ?_⟩
    have above : otherText ≤ text := String.not_lt.mp fun less => h (.inr ⟨same, less⟩)
    have below : ¬text ≤ otherText := fun below =>
      distinct ⟨same, String.le_antisymm below above⟩
    exact Decidable.not_not.mp (below ∘ String.not_lt.mp)
  · have ranks : role.rank ≠ other.rank := by
      cases role <;> cases other <;> simp_all [Role.rank]
    have : ¬role.rank < other.rank := fun rank => h (.inl rank)
    exact .inl (by omega)

/-- Puts an entry at its place among sorted entries, or in the place of an equal one. -/
def place (role : Role) (text : String) (mapping : Mapping) :
    List (Role × String × Mapping) → List (Role × String × Mapping)
  | [] => [(role, text, mapping)]
  | (otherRole, otherText, other) :: rest =>
    if role = otherRole ∧ text = otherText then (role, text, mapping) :: rest
    else if precedes role text otherRole otherText then
      (role, text, mapping) :: (otherRole, otherText, other) :: rest
    else (otherRole, otherText, other) :: place role text mapping rest

theorem mem_place {role : Role} {text : String} {mapping : Mapping}
    {entries : List (Role × String × Mapping)} {entry : Role × String × Mapping}
    (h : entry ∈ place role text mapping entries) :
    entry = (role, text, mapping) ∨ entry ∈ entries := by
  induction entries with
  | nil => exact .inl (List.mem_singleton.mp h)
  | cons first rest ih =>
    rw [place] at h
    split at h
    · exact (List.mem_cons.mp h).imp_right (List.mem_cons_of_mem _)
    · split at h
      · exact List.mem_cons.mp h
      · rcases List.mem_cons.mp h with rfl | member
        · exact .inr List.mem_cons_self
        · exact (ih member).imp_right (List.mem_cons_of_mem _)

theorem sorted_place (role : Role) (text : String) (mapping : Mapping)
    {entries : List (Role × String × Mapping)} (sorted : entries.Pairwise Precedes) :
    (place role text mapping entries).Pairwise Precedes := by
  induction entries with
  | nil => exact .cons (by simp) .nil
  | cons first rest ih =>
    obtain ⟨before, sorted⟩ := List.pairwise_cons.mp sorted
    rw [place]
    split
    next same =>
      refine .cons ?_ sorted
      intro entry member
      obtain ⟨rfl, rfl⟩ := same
      exact before entry member
    next distinct =>
      split
      next precedes =>
        refine .cons ?_ (.cons before sorted)
        intro entry member
        rcases List.mem_cons.mp member with rfl | later
        · exact precedes
        · exact Precedes.trans precedes (before entry later)
      next behind =>
        refine .cons ?_ (ih sorted)
        intro entry member
        rcases mem_place member with rfl | old
        · exact precedes_of_not_precedes distinct behind
        · exact before entry old

def insert (table : OperatorTable) (role : Role) (text : String) (mapping : Mapping) :
    OperatorTable :=
  ⟨place role (upper text) mapping table.entries, sorted_place _ _ _ table.sorted⟩

def find? (table : OperatorTable) (role : Role) (text : String) : Option Mapping :=
  let key := upper text
  (table.entries.find? fun (r, t, _) => r = role ∧ t = key).map fun (_, _, mapping) => mapping

theorem find?_place (role other : Role) (text key : String) (mapping : Mapping)
    (entries : List (Role × String × Mapping)) :
    ((place role text mapping entries).find? fun (r, t, _) => r = other ∧ t = key) =
      if role = other ∧ text = key then some (role, text, mapping)
      else entries.find? fun (r, t, _) => r = other ∧ t = key := by
  induction entries with
  | nil => by_cases h : role = other ∧ text = key <;> simp [place, h]
  | cons entry rest ih =>
    obtain ⟨r, t, m⟩ := entry
    rw [place]
    split
    next same =>
      obtain ⟨rfl, rfl⟩ := same
      by_cases h : role = other ∧ text = key <;> simp [h]
    next distinct =>
      split
      next =>
        rw [List.find?_cons]
        by_cases h : role = other ∧ text = key <;> simp [h]
      next =>
        rw [List.find?_cons, ih, List.find?_cons]
        by_cases h : role = other ∧ text = key
        · have unequal : ¬(r = other ∧ t = key) := fun found =>
            distinct ⟨h.1.trans found.1.symm, h.2.trans found.2.symm⟩
          simp only [unequal, decide_false, if_pos h]
        · simp only [if_neg h]

theorem find?_insert (table : OperatorTable) (role other : Role) (text key : String)
    (mapping : Mapping) :
    (table.insert role text mapping).find? other key =
      if role = other ∧ upper text = upper key then some mapping else table.find? other key := by
  simp only [find?, insert, find?_place]
  split <;> simp

/-- Texts that begin with a text come right where it would stand itself. -/
def canStart (table : OperatorTable) (role : Role) (text : String) : Bool :=
  let key := upper text
  match table.entries.find? fun (r, t, _) => !precedes r t role key with
  | some (r, t, _) => r == role && key.toList.isPrefixOf t.toList
  | none => false

/-- What stands between a text and one that it begins, in the order of texts, begins with it too. -/
theorem prefix_of_between {beginning text longer : List Char} (h : beginning <+: longer)
    (above : ¬text < beginning) (below : text < longer) : beginning <+: text := by
  induction beginning generalizing text longer with
  | nil => exact List.nil_prefix
  | cons c beginning ih =>
    obtain ⟨more, rfl⟩ := h
    cases text with
    | nil => exact absurd (List.nil_lt_cons c beginning) above
    | cons d text =>
      rw [List.cons_lt_cons_iff] at above
      rcases List.cons_lt_cons_iff.mp below with less | ⟨rfl, less⟩
      · exact absurd (.inl less) above
      · have above : ¬text < beginning := fun less => above (.inr ⟨rfl, less⟩)
        exact List.cons_prefix_cons.mpr ⟨rfl, ih (List.prefix_append beginning more) above less⟩

/-- The entry that is looked at begins with the text if any of its role does. -/
theorem canStart_iff {table : OperatorTable} {role : Role} {text : String} :
    table.canStart role text = true ↔
      ∃ entry ∈ table.entries, entry.1 = role ∧ (upper text).toList <+: entry.2.1.toList := by
  unfold canStart
  dsimp only
  constructor
  · intro starts
    split at starts
    next r t mapping found =>
      simp only [Bool.and_eq_true, beq_iff_eq, List.isPrefixOf_iff_prefix] at starts
      exact ⟨_, List.mem_of_find?_eq_some found, starts⟩
    next => cases starts
  · rintro ⟨entry, member, rfl, begins⟩
    have behind : ¬precedes entry.1 entry.2.1 entry.1 (upper text) = true := by
      rw [precedes_iff]
      rintro (rank | ⟨-, less⟩)
      · exact Nat.lt_irrefl _ rank
      · exact List.not_lt.mpr begins.le less
    split
    next r t mapping found =>
      obtain ⟨isFirst, before, after, split, skipped⟩ := List.find?_eq_some_iff_append.mp found
      have isFirst : ¬precedes r t entry.1 (upper text) = true := by simpa using isFirst
      rw [split] at member
      rcases List.mem_append.mp member with earlier | member
      · exact absurd (by simpa using skipped entry earlier) behind
      rcases List.mem_cons.mp member with rfl | later
      · simp [begins]
      · have sorted := table.sorted
        rw [split] at sorted
        have inOrder := (List.pairwise_cons.mp (List.pairwise_append.mp sorted).2.1).1 entry later
        rcases precedes_iff.mp inOrder with rank | ⟨rfl, below⟩
        · exact absurd (precedes_iff.mpr (.inl rank)) isFirst
        · have above : ¬t < upper text := fun less => isFirst (precedes_iff.mpr (.inr ⟨rfl, less⟩))
          simp [prefix_of_between begins above below]
    next missing =>
      exact absurd (by simpa using List.find?_eq_none.mp missing entry member) behind

/-- Inserts left-associative infix operators that all have the same precedence. -/
def withInfix (table : OperatorTable) (precedence : Nat) (names : List (String × String)) :
    OperatorTable :=
  names.foldl (fun table (text, name) => table.insert .infixOp text
    { precedence, implementation := Role.infixOp.implementationName name }) table

def standard : OperatorTable :=
  let table := empty.withInfix 2 [("||", "||")]
  let table := table.withInfix 4 [("&&", "&&")]
  let table := table.withInfix 7 [("==", "=="), ("=", "=="), ("!=", "!="), ("<>", "!=")]
  let table := table.withInfix 10 [("<", "<"), ("<=", "<="), (">", ">"), (">=", ">=")]
  let table := table.withInfix 20 [("+", "+"), ("-", "-")]
  let table := table.withInfix 30 [("*", "*"), ("/", "/"), ("%", "%")]
  let table := table.insert .infixOp "^" ⟨40, false, Role.infixOp.implementationName "^"⟩
  ["-", "+", "!"].foldl (fun table text => table.insert .prefixOp text
    ⟨60, false, Role.prefixOp.implementationName text⟩) table

end OperatorTable

def Operators.ofLayers (layers : Layers OperatorTable) : Operators where
  find? role text := layers.first? (·.find? role text)
  canStart role text := layers.any (·.canStart role text)

/-- Tables that lie on each other are read from the top, like any other lookups. -/
theorem Operators.ofLayers_upon (top bottom : Layers OperatorTable) :
    ofLayers (.upon top bottom) = (ofLayers top).upon (ofLayers bottom) :=
  rfl

end Formulary
