set_option autoImplicit false

/-!
# Sets of characters given by ranges of code points
-/

namespace Formulary.Text

/-- The ranges ascend and hold both their ends, so a search ends at the first range beyond `n`. -/
def inRanges : List (Nat × Nat) → Nat → Bool
  | [], _ => false
  | (first, last) :: rest, n => if n < first then false else n ≤ last || inRanges rest n

theorem mem_of_inRanges {ranges : List (Nat × Nat)} {n : Nat} (h : inRanges ranges n = true) :
    ∃ r ∈ ranges, r.1 ≤ n ∧ n ≤ r.2 := by
  induction ranges with
  | nil => simp [inRanges] at h
  | cons r rest ih =>
    obtain ⟨first, last⟩ := r
    simp only [inRanges] at h
    split at h
    · simp at h
    · rcases Bool.or_eq_true _ _ ▸ h with h | h
      · exact ⟨(first, last), by simp, by omega, by simpa using h⟩
      · obtain ⟨r, hr, bounds⟩ := ih h
        exact ⟨r, by simp [hr], bounds⟩

end Formulary.Text
