import Formulary.Proofs.Token.Outline
import Formulary.Proofs.Tree.Listing

set_option autoImplicit false

/-!
# Counting operands

Whether each operator stands next to its operands can be told without trees and without precedences.
It is enough to count the operands after each operator: where a comma, a bracket or the end completes
it there has to be one, and if it takes two, there has to be another before it.
-/

namespace Formulary

/-- How many operands there are since the latest operator that waits, and the operators that wait on
a level, the latest first, each with the number of operands before it and after the one before. -/
structure Tally where
  count : Nat := 0
  pending : List (Kind × Nat) := []

namespace Tally

/-- How many operands there are when an operator has taken its own. -/
def finish (kind : Kind) (before after : Nat) : Option Nat :=
  if after = 1 then
    if kind = .operator .prefixOp then some (before + 1)
    else if kind.isBinary ∧ before ≠ 0 then some before
    else none
  else none

/-- How many operands there are when all operators that wait have taken theirs. -/
def complete (count : Nat) : List (Kind × Nat) → Option Nat
  | [] => some count
  | (kind, before) :: pending => (finish kind before count).bind fun count => complete count pending

def completed (t : Tally) : Option Nat :=
  complete t.count t.pending

/-- The object of a field or an access ends where it begins, so the fields in it are complete. -/
def fieldsAt (count : Nat) : List (Kind × Nat) → Option Tally
  | [] => some ⟨count, []⟩
  | (kind, before) :: pending =>
    if kind = .field then (finish kind before count).bind fun count => fieldsAt count pending
    else some ⟨count, (kind, before) :: pending⟩

def fields (t : Tally) : Option Tally :=
  fieldsAt t.count t.pending

def wait (t : Tally) (kind : Kind) : Tally :=
  ⟨0, (kind, t.count) :: t.pending⟩

def add (t : Tally) : Kind → Option Tally
  | .number | .text | .name => some ⟨t.count + 1, t.pending⟩
  | .operator role => some (t.wait (.operator role))
  | .field => t.fields.map (·.wait .field)
  | .comma => t.completed.map (⟨·, []⟩)
  | _ => none

end Tally

namespace Outline

/-- Reads an outline. A group goes on counting the operands before it, and what is in a call or in
an access has operands of its own. -/
def tally : Outline → Tally → Option Tally
  | nil, t => some t
  | item token _ rest, t => (t.add token.kind).bind rest.tally
  | group _ _ _ _ inner rest, t =>
    ((inner.tally ⟨t.count, []⟩).bind Tally.completed).bind fun count =>
      rest.tally ⟨count, t.pending⟩
  | call _ _ _ _ _ _ inner rest, t =>
    ((inner.tally {}).bind Tally.completed).bind fun _ => rest.tally ⟨t.count + 1, t.pending⟩
  | access _ _ _ _ _ _ inner rest, t =>
    t.fields.bind fun object =>
      ((inner.tally {}).bind Tally.completed).bind fun key =>
        (Tally.finish .element object.count key).bind fun count =>
          rest.tally ⟨count, object.pending⟩

/-- Each operator stands next to the operands that there are when it is completed. -/
def InPlace (outline : Outline) : Prop :=
  ((outline.tally {}).bind Tally.completed).isSome

instance (outline : Outline) : Decidable outline.InPlace :=
  inferInstanceAs (Decidable (_ = true))

end Outline

namespace Tally

theorem add_of_isLeaf {token : Token} (isLeaf : token.IsLeaf) (t : Tally) :
    t.add token.kind = some ⟨t.count + 1, t.pending⟩ := by
  rcases isLeaf with kind | kind | kind <;> simp [kind, add]

theorem finish_eq_some {kind : Kind} {before after count : Nat} :
    finish kind before after = some count ↔
      after = 1 ∧ (kind = .operator .prefixOp ∧ count = before + 1 ∨
        kind.isBinary ∧ 0 < before ∧ count = before) := by
  constructor
  · intro h
    unfold finish at h
    split at h
    next one =>
      split at h
      next isPrefix =>
        cases h
        exact ⟨one, .inl ⟨isPrefix, rfl⟩⟩
      next =>
        split at h
        next binary =>
          cases h
          exact ⟨one, .inr ⟨binary.1, Nat.pos_of_ne_zero binary.2, rfl⟩⟩
        next => cases h
    next => cases h
  · rintro ⟨rfl, ⟨rfl, rfl⟩ | ⟨binary, positive, rfl⟩⟩
    · rfl
    · have other : kind ≠ .operator .prefixOp := by
        rintro rfl
        cases binary
      simp [finish, other, binary, Nat.ne_of_gt positive]

theorem finish_of_isBinary {kind : Kind} (binary : kind.isBinary) (before after : Nat) :
    finish kind before after = finish .element before after := by
  have other : kind ≠ .operator .prefixOp := by
    rintro rfl
    cases binary
  have element : Kind.element.isBinary = true := rfl
  simp [finish, other, binary, element]

theorem complete_append (count : Nat) (front pending : List (Kind × Nat)) :
    complete count (front ++ pending) =
      (complete count front).bind fun count => complete count pending := by
  induction front generalizing count with
  | nil => rfl
  | cons first front ih =>
    simp only [List.cons_append, complete, Option.bind_assoc, ih]

theorem fieldsAt_of_ne {pending : List (Kind × Nat)} (stop : ∀ top ∈ pending.head?, top.1 ≠ .field)
    (count : Nat) : fieldsAt count pending = some ⟨count, pending⟩ := by
  cases pending with
  | nil => rfl
  | cons top pending => exact if_neg (stop top rfl)

/-- Completing fields goes no further than to an operator that is none. -/
theorem fieldsAt_append {count : Nat} {front pending : List (Kind × Nat)} {t : Tally}
    (stop : ∀ top ∈ pending.head?, top.1 ≠ .field)
    (h : fieldsAt count (front ++ pending) = some t) :
    ∃ rest, t.pending = rest ++ pending := by
  induction front generalizing count with
  | nil =>
    rw [List.nil_append, fieldsAt_of_ne stop] at h
    cases h
    exact ⟨[], rfl⟩
  | cons first front ih =>
    rw [List.cons_append, fieldsAt] at h
    split at h
    next isField =>
      obtain ⟨between, -, h⟩ := Option.bind_eq_some_iff.mp h
      exact ih h
    next =>
      cases h
      exact ⟨first :: front, rfl⟩

/-- An operator that waits is completed on the way to the bottom. -/
theorem complete_through {count before last : Nat} {role : Role} {front pending : List (Kind × Nat)}
    (h : complete count (front ++ (.operator role, before) :: pending) = some last) :
    ∃ taken, finish (.operator role) before 1 = some taken ∧ complete taken pending = some last := by
  rw [complete_append] at h
  obtain ⟨after, -, h⟩ := Option.bind_eq_some_iff.mp h
  obtain ⟨taken, finished, completed⟩ := Option.bind_eq_some_iff.mp h
  obtain rfl : after = 1 := (finish_eq_some.mp finished).1
  exact ⟨taken, finished, completed⟩

/-- It makes no difference which of two lists of operators wait, as their fields are the same, and
the others are completed alike. -/
inductive Alike : List (Kind × Nat) → List (Kind × Nat) → Prop
  | level {first second : List (Kind × Nat)} :
      (∀ top ∈ first.head?, top.1 ≠ .field) → (∀ top ∈ second.head?, top.1 ≠ .field) →
      (∀ count, complete count first = complete count second) → Alike first second
  | field {first second : List (Kind × Nat)} (before : Nat) :
      Alike first second → Alike ((.field, before) :: first) ((.field, before) :: second)

theorem alike_nil : Alike [] [] :=
  .level (by simp) (by simp) fun _ => rfl

theorem Alike.symm {first second : List (Kind × Nat)} (h : Alike first second) :
    Alike second first := by
  induction h with
  | level firstTop secondTop same => exact .level secondTop firstTop fun count => (same count).symm
  | field before _ ih => exact .field before ih

theorem Alike.complete_eq {first second : List (Kind × Nat)} (h : Alike first second)
    (count : Nat) : complete count first = complete count second := by
  induction h generalizing count with
  | level _ _ same => exact same count
  | field before _ ih => simp only [complete, ih]

theorem Alike.cons {first second : List (Kind × Nat)} (h : Alike first second)
    (top : Kind × Nat) : Alike (top :: first) (top :: second) := by
  obtain ⟨kind, before⟩ := top
  by_cases isField : kind = .field
  · subst isField
    exact .field before h
  · exact .level (by simpa using isField) (by simpa using isField) fun count => by
      simp only [complete, h.complete_eq]

/-- Before an infix operator some of those that wait may be completed or not. -/
theorem alike_of_complete {first second : List (Kind × Nat)} {before other : Nat}
    (same : complete before first = complete other second) (zero : before = 0 ↔ other = 0) :
    Alike ((.operator .infixOp, before) :: first) ((.operator .infixOp, other) :: second) := by
  refine .level (by simp) (by simp) fun count => ?_
  simp only [complete, finish, Kind.isBinary, reduceCtorEq, Kind.operator.injEq, if_false, true_and]
  by_cases one : count = 1
  · by_cases none : before = 0
    · simp [one, none, zero.mp none]
    · simp [one, none, mt zero.mpr none, same]
  · simp [one]

theorem Alike.fieldsAt {first second : List (Kind × Nat)} (h : Alike first second) {count : Nat}
    {object : Tally} (fields : fieldsAt count first = some object) :
    ∃ rest, Tally.fieldsAt count second = some ⟨object.count, rest⟩ ∧
      Alike object.pending rest := by
  induction h generalizing count with
  | @level first second firstTop secondTop same =>
    rw [fieldsAt_of_ne firstTop] at fields
    cases fields
    exact ⟨second, fieldsAt_of_ne secondTop count, .level firstTop secondTop same⟩
  | @field first second before _ ih =>
    rw [Tally.fieldsAt, if_pos rfl] at fields ⊢
    obtain ⟨between, finished, fields⟩ := Option.bind_eq_some_iff.mp fields
    obtain ⟨rest, found, alike⟩ := ih fields
    exact ⟨rest, Option.bind_eq_some_iff.mpr ⟨between, finished, found⟩, alike⟩

end Tally

open Tally

section Items

variable {token : Token} {plain : token.kind.isPlain = true} {rest : Outline} {t : Tally}

theorem Outline.tally_leaf (isLeaf : token.IsLeaf) :
    (item token plain rest).tally t = rest.tally ⟨t.count + 1, t.pending⟩ := by
  rw [tally, add_of_isLeaf isLeaf, Option.bind_some]

theorem Outline.tally_operator {role : Role} (kind : token.kind = .operator role) :
    (item token plain rest).tally t = rest.tally (t.wait (.operator role)) := by
  rw [tally, kind, add, Option.bind_some]

theorem Outline.tally_field (kind : token.kind = .field) :
    (item token plain rest).tally t = t.fields.bind fun object => rest.tally (object.wait .field) := by
  rw [tally, kind, add, Option.map_eq_bind, Option.bind_assoc]
  rfl

theorem Outline.tally_comma (kind : token.kind = .comma) :
    (item token plain rest).tally t = t.completed.bind fun count => rest.tally ⟨count, []⟩ := by
  rw [tally, kind, add, Option.map_eq_bind, Option.bind_assoc]
  rfl

end Items

/-- What is read later does not change how an operator is completed that waits already. -/
theorem Outline.complete_of_tally {outline : Outline} {count before last : Nat} {role : Role}
    {front pending : List (Kind × Nat)} {t : Tally}
    (h : outline.tally ⟨count, front ++ (.operator role, before) :: pending⟩ = some t)
    (completes : t.completed = some last) :
    ∃ taken, finish (.operator role) before 1 = some taken ∧
      ∃ result, complete taken pending = some result := by
  induction outline generalizing count front with
  | nil =>
    cases h
    obtain ⟨taken, finished, completed⟩ := complete_through completes
    exact ⟨taken, finished, last, completed⟩
  | item token plain rest ih =>
    cases kind : token.kind with
    | number | text | name =>
      rw [tally_leaf (by simp [Token.IsLeaf, kind])] at h
      exact ih h
    | operator other =>
      rw [tally_operator kind] at h
      exact @ih 0 ((.operator other, count) :: front) h
    | field =>
      rw [tally_field kind] at h
      obtain ⟨object, fields, h⟩ := Option.bind_eq_some_iff.mp h
      obtain ⟨kept, split⟩ := fieldsAt_append (by simp) fields
      rw [wait, split] at h
      exact @ih 0 ((.field, object.count) :: kept) h
    | comma =>
      rw [tally_comma kind] at h
      obtain ⟨result, completed, -⟩ := Option.bind_eq_some_iff.mp h
      obtain ⟨taken, finished, rest⟩ := complete_through completed
      exact ⟨taken, finished, result, rest⟩
    | function | opening | closing | element | entry | argumentsStart =>
      simp [kind, Kind.isPlain] at plain
  | group _ _ _ _ _ _ _ ih | call _ _ _ _ _ _ _ _ _ ih =>
    obtain ⟨_, -, h⟩ := Option.bind_eq_some_iff.mp h
    exact ih h
  | access _ _ _ _ _ _ _ _ _ ih =>
    obtain ⟨object, fields, h⟩ := Option.bind_eq_some_iff.mp h
    obtain ⟨_, -, h⟩ := Option.bind_eq_some_iff.mp h
    obtain ⟨after, -, h⟩ := Option.bind_eq_some_iff.mp h
    obtain ⟨kept, split⟩ := fieldsAt_append (by simp) fields
    rw [split] at h
    exact ih h

end Formulary
