import Formulary.Proofs.Library.Integers
import Formulary.Proofs.Time.Reading

set_option autoImplicit false

/-!
# Dates that are told by numbers

Components are brought to 32 bits before the calendar sees them. What does not fit is as wrong after that as
it was before, so that dates come about from their own components only.
-/

namespace Formulary.Library

open Time Decimal

section Components

variable {n : ℤ} {parts : List ℤ} {r : Reading} {zone : Zone} {t : Instant}

theorem component_eq (small : component n < 4294967295) : (component n : ℤ) = n := by
  unfold component at small ⊢
  split at small
  next within =>
    rw [if_pos within]
    simp only [Bool.and_eq_true, decide_eq_true_eq] at within
    omega
  next => omega

theorem component_natCast {m : ℕ} (small : m ≤ 4294967295) : component m = m := by
  rw [component, if_pos (by simp; omega), Int.toNat_natCast]

/-- No component of a valid reading has been cut off. -/
theorem fields_of_reading? (isReading : reading? parts = some r) (valid : r.Valid) : r.fields = parts := by
  unfold reading? at isReading
  split at isReading
  next year month day hour minute second =>
    split at isReading
    next =>
      obtain rfl := Option.some.inj isReading
      have kept : ∀ n ∈ [month, day, hour, minute, second], (component n : ℤ) = n := by
        intro n member
        have isField := List.mem_cons_of_mem year (List.mem_map_of_mem (f := (component · : ℤ → ℤ)) member)
        have within := valid.fields_within (component n) isField
        exact component_eq (by omega)
      simpa [Reading.fields] using kept
    next => cases isReading
  next => cases isReading

theorem reading?_fields (valid : r.Valid) : reading? r.fields = some r := by
  have year := valid.year
  have fits : (-2147483648 ≤ r.date.year && r.date.year ≤ 2147483647) = true := by
    simp only [Bool.and_eq_true, decide_eq_true_eq]
    omega
  have kept : ∀ m ∈ [r.date.month, r.date.day, r.hour, r.minute, r.second], component m = m := by
    intro m member
    have isField := List.mem_cons_of_mem r.date.year (List.mem_map_of_mem (f := (Nat.cast : ℕ → ℤ)) member)
    have within := valid.fields_within m isField
    exact component_natCast (by omega)
  simp only [List.forall_mem_cons] at kept
  simp only [Reading.fields, reading?, if_pos fits, kept]

/-- The instants of parts are those at which a valid reading is shown that has the parts as its fields. -/
theorem bind_instant?_iff (utc : zone.KeepsUtc) : (reading? parts).bind zone.instant? = some t ↔
    ∃ r : Reading, r.fields = parts ∧ r.Valid ∧ t.Shows r := by
  rw [Option.bind_eq_some_iff]
  constructor
  · rintro ⟨r, isReading, isInstant⟩
    obtain ⟨valid, isShown⟩ := (Zone.instant?_eq_some_iff utc).mp isInstant
    exact ⟨r, fields_of_reading? isReading valid, valid, isShown⟩
  · rintro ⟨r, rfl, valid, isShown⟩
    exact ⟨r, reading?_fields valid, (Zone.instant?_eq_some_iff utc).mpr ⟨valid, isShown⟩⟩

end Components

section Dates

variable {xs : List Decimal} {r : Reading} {zone : Zone} {span : Span}

/-- The numbers are the fields of the reading. Without a time of day that is midnight. -/
def Tells (xs : List Decimal) (r : Reading) : Prop :=
  r.fields.map Int.cast = xs.map toRat ++ List.replicate (6 - xs.length) 0

theorem tells_iff (whole : ∀ x ∈ xs, x.isInteger = true) : Tells xs r ↔
    r.fields = xs.map truncated ++ List.replicate (6 - xs.length) 0 := by
  have injective : Function.Injective (Int.cast : ℤ → ℚ) := Int.cast_injective
  have exact : xs.map toRat = (xs.map truncated).map Int.cast := by
    rw [List.map_map]
    exact List.map_congr_left fun x member => (toRat_truncated (whole x member)).symm
  rw [Tells, exact, ← (List.map_injective_iff.mpr injective).eq_iff]
  simp

/-- The numbers of a valid reading are far within the limits of 64 bits. -/
theorem fits_of_tells (whole : ∀ x ∈ xs, x.isInteger = true) (tells : Tells xs r) (valid : r.Valid) :
    xs.find? (fun x => !fitsWord x.truncated) = none := by
  have fields := (tells_iff whole).mp tells
  rw [List.find?_eq_none]
  intro x member
  have isField : x.truncated ∈ r.fields := fields ▸ List.mem_append_left _ (List.mem_map_of_mem member)
  have within := valid.fields_within _ isField
  simp only [Bool.not_eq_true', Bool.not_eq_false, fitsWord_iff]
  omega

/-- A date has been made if and only if the numbers tell a valid reading, which is then shown. -/
theorem dateOf_eq_ok_iff (utc : zone.KeepsUtc) (whole : ∀ x ∈ xs, x.isInteger = true) {v : Value} :
    dateOf span zone xs (xs.map truncated) = .ok v ↔
      ∃ t r, v = .instant t ∧ Tells xs r ∧ r.Valid ∧ t.Shows r := by
  have told (r : Reading) : r.fields = xs.map truncated ++ List.replicate (6 - (xs.map truncated).length) 0 ↔
      Tells xs r := by rw [List.length_map, tells_iff whole]
  constructor
  · intro made
    unfold dateOf at made
    split at made
    next => cases made
    next =>
      unfold instantOf at made
      split at made
      next t isInstant =>
        obtain ⟨r, fields, valid, isShown⟩ := (bind_instant?_iff utc).mp isInstant
        exact ⟨t, r, (Except.ok.inj made).symm, (told r).mp fields, valid, isShown⟩
      next => cases made
  · rintro ⟨t, r, rfl, tells, valid, isShown⟩
    have isInstant := (bind_instant?_iff utc).mpr ⟨r, (told r).mpr tells, valid, isShown⟩
    simp only [dateOf, fits_of_tells whole tells valid, instantOf, isInstant]

theorem dateOf_error {ns : List ℤ} {e : Error} (fails : dateOf span zone xs ns = .error e) :
    ∃ message, e = ⟨.raised message, span, [], none⟩ := by
  unfold dateOf at fails
  split at fails
  next => exact ⟨_, (Except.error.inj fails).symm⟩
  next =>
    unfold instantOf at fails
    split at fails
    next => cases fails
    next => exact ⟨_, (Except.error.inj fails).symm⟩

end Dates

end Formulary.Library
