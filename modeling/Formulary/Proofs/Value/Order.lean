import Formulary.Proofs.Decimal.Comparison
import Formulary.Proofs.Value.Fields
import Formulary.Value.Basic

set_option autoImplicit false

/-!
# Equality and order of values

Values are equal if nothing but zeros at the ends of numbers tells them apart, however deep the numbers lie
in arrays and records. Those types of values that are ordered have a linear order, in which values that
compare as equal are the equal ones.
-/

namespace Formulary.Value

section Equality

mutual

/-- The value with all numbers in it in the form without trailing zeros. -/
def normalized : Value → Value
  | number x => number x.normalized
  | array elements => array (normalizedElements elements)
  | record fields => record ⟨fields.names, fields.sorted, fun i => normalized (fields.content i)⟩
  | scalar => scalar

def normalizedElements : List Value → List Value
  | [] => []
  | x :: xs => normalized x :: normalizedElements xs

end

theorem normalized_record (fields : Fields Value) :
    (record fields).normalized = record (fields.map normalized) := by
  rw [normalized]
  rfl

/-- Records are equal if they have as many fields and equal values under each name. -/
theorem equal_record_iff {fs gs : Fields Value} : (record fs).equal (record gs) = true ↔
    fs.names.length = gs.names.length ∧
      ∀ name x, fs.find? name = some x → ∃ y, gs.find? name = some y ∧ x.equal y = true := by
  simp only [equal, Bool.and_eq_true, beq_iff_eq, List.all_eq_true, List.mem_finRange, true_imp_iff,
    Option.any_eq_true, Fields.forall_find?_iff]

mutual

theorem equal_iff (v w : Value) : v.equal w = true ↔ v.normalized = w.normalized := by
  cases v <;> cases w
  case number.number x y =>
    simp only [equal, normalized, Decimal.equal_iff, number.injEq, Decimal.normalized_eq_iff]
  case array.array xs ys => simp only [equal, normalized, equalElements_iff xs ys, array.injEq]
  case record.record fs gs =>
    have contents (i : Fin fs.names.length) (y : Value) := equal_iff (fs.content i) y
    rw [normalized_record, normalized_record, record.injEq, Fields.map_eq_map_iff, equal_record_iff,
      Fields.forall_find?_iff]
    simp only [contents]
  all_goals simp [equal, normalized]

theorem equalElements_iff (xs ys : List Value) :
    equalElements xs ys = true ↔ normalizedElements xs = normalizedElements ys := by
  cases xs <;> cases ys
  case cons.cons x xs y ys =>
    simp only [equalElements, normalizedElements, Bool.and_eq_true, equal_iff x y,
      equalElements_iff xs ys, List.cons.injEq]
  all_goals simp [equalElements, normalizedElements]

end

theorem equal_equivalence : Equivalence fun v w : Value => v.equal w = true where
  refl v := equal_iff v v |>.mpr rfl
  symm {v w} same := (equal_iff w v).mpr ((equal_iff v w).mp same).symm
  trans {v w u} same same' := (equal_iff v u).mpr (((equal_iff v w).mp same).trans ((equal_iff w u).mp same'))

example : equal (ofFields [("price", number ⟨25, 1⟩), ("dates", array [null])])
    (ofFields [("dates", array [null]), ("price", number ⟨250, 2⟩)]) = true := by
  decide +kernel

end Equality

section Order

variable {v w u : Value} {o o' : Ordering}

/-- Where a linear order leads up twice, it leads up from the first to the last, and strictly so if one of
the steps is strict. -/
theorem compare_then {α : Type} {cmp : α → α → Ordering} [Std.TransCmp cmp] {x y z : α}
    (up : (cmp x y).isLE = true) (up' : (cmp y z).isLE = true) : cmp x z = (cmp x y).then (cmp y z) := by
  cases first : cmp x y with
  | gt => simp [first] at up
  | lt => exact Std.TransCmp.lt_of_lt_of_isLE first up'
  | eq => exact Std.TransCmp.congr_left first

theorem isSome_compare_iff : (v.compare w).isSome = true ↔
    v.type = w.type ∧ v.type ∈ [ValueType.number, .text, .instant, .duration, .boolean] := by
  cases v <;> cases w <;> simp [compare, type]

theorem compare_swap (v w : Value) : w.compare v = (v.compare w).map Ordering.swap := by
  cases v <;> cases w
  case number.number | text.text | instant.instant | duration.duration | boolean.boolean =>
    exact congrArg some Std.OrientedCmp.eq_swap
  all_goals rfl

theorem compare_trans (first : v.compare w = some o) (second : w.compare u = some o')
    (up : o.isLE = true) (up' : o'.isLE = true) : v.compare u = some (o.then o') := by
  cases v <;> cases w <;> simp only [compare, Option.some.injEq, reduceCtorEq] at first
  all_goals
    cases u <;> simp only [compare, Option.some.injEq, reduceCtorEq] at second
    subst first second
    exact congrArg some (compare_then up up')

/-- Values that are ordered compare as equal where they are equal. -/
theorem compare_eq_iff : v.compare w = some .eq ↔ (v.compare w).isSome = true ∧ v.equal w = true := by
  cases v <;> cases w
  case number.number x y => simp [compare, equal, Decimal.equal]
  case text.text s t => simp [compare, equal]
  case boolean.boolean b c => simp [compare, equal]
  case instant.instant t u =>
    obtain ⟨n, _, _⟩ := t
    obtain ⟨m, _, _⟩ := u
    simp [compare, equal]
  case duration.duration d e =>
    obtain ⟨n, _, _⟩ := d
    obtain ⟨m, _, _⟩ := e
    simp [compare, equal]
  all_goals simp [compare]

theorem equal_of_compare (ordered : v.compare w = some o) : v.equal w = o.isEq := by
  have iff := compare_eq_iff (v := v) (w := w)
  rw [ordered] at iff
  cases o <;> simp_all

end Order

end Formulary.Value
