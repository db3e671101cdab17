import Formulary.Operator.Table
import Formulary.Text.Character

set_option autoImplicit false

/-!
# The standard operators are written with symbols

No other character has one of these symbols for its upper case, so an operator is found only by the
text that it has in the table, and never by a name.
-/

namespace Formulary

namespace Text

/-- The characters of the standard operators. -/
def symbols : List Char :=
  ['|', '&', '=', '!', '<', '>', '+', '-', '*', '/', '%', '^']

/-- What is decided for each character in a list, and not for all characters there are. -/
theorem forall_mem_of_all {P : Char → Prop} [DecidablePred P] {chars : List Char}
    (h : (chars.all fun c => decide (P c)) = true) : ∀ c ∈ chars, P c := by
  simpa using h

theorem covers_of_findCaseRun {runs : List CaseRun} {n : Nat} {run : CaseRun}
    (h : findCaseRun runs n = some run) : run ∈ runs ∧ run.first ≤ n ∧ n ≤ run.last := by
  induction runs with
  | nil => cases h
  | cons first rest ih =>
    rw [findCaseRun] at h
    split at h
    · cases h
    · split at h
      next covers =>
        cases h
        simp only [CaseRun.covers, Bool.and_eq_true, decide_eq_true_eq] at covers
        exact ⟨List.mem_cons_self, covers.1⟩
      next =>
        obtain ⟨member, bounds⟩ := ih h
        exact ⟨List.mem_cons_of_mem _ member, bounds⟩

theorem mem_of_findSpreadingCase {table : List (Nat × List Nat)} {n : Nat} {spread : List Nat}
    (h : findSpreadingCase table n = some spread) : (n, spread) ∈ table := by
  induction table with
  | nil => cases h
  | cons first rest ih =>
    obtain ⟨code, other⟩ := first
    rw [findSpreadingCase] at h
    split at h
    · cases h
    · split at h
      next same =>
        cases h
        obtain rfl := beq_iff_eq.mp same
        exact List.mem_cons_self
      next => exact List.mem_cons_of_mem _ (ih h)

theorem caseRuns_avoid_symbols : ∀ run ∈ caseRuns, ∀ s ∈ symbols,
    (s.toNat : Int) < run.first + run.shift ∨ run.last + run.shift < s.toNat := by
  have all : (caseRuns.all fun run => symbols.all fun s =>
      decide ((s.toNat : Int) < run.first + run.shift ∨ run.last + run.shift < s.toNat)) = true := by
    decide +kernel
  intro run member
  exact forall_mem_of_all (List.all_eq_true.mp all run member)

theorem spreadingCases_avoid_symbols : ∀ entry ∈ spreadingCases, entry.2 ≠ [] ∧
    ∀ code ∈ entry.2, Char.ofNat code ∉ symbols := by
  decide +kernel

theorem toNat_ofNat_of_ne_zero {n : Nat} (h : (Char.ofNat n).toNat ≠ 0) :
    (Char.ofNat n).toNat = n := by
  by_cases valid : n.isValidChar
  · rw [Char.ofNat, dif_pos valid]
    rfl
  · rw [Char.ofNat, dif_neg valid] at h
    exact absurd rfl h

theorem symbols_toNat_pos : ∀ s ∈ symbols, 0 < s.toNat :=
  forall_mem_of_all (by decide)

/-- A symbol is the upper case of no other character. -/
theorem eq_of_mem_upperChar {c s : Char} (h : s ∈ upperChar c) (symbol : s ∈ symbols) : s = c := by
  unfold upperChar at h
  split at h
  next run found =>
    obtain ⟨member, first, last⟩ := covers_of_findCaseRun found
    obtain rfl := List.mem_singleton.mp h
    have positive := symbols_toNat_pos _ symbol
    have shifted := toNat_ofNat_of_ne_zero (Nat.ne_of_gt positive)
    have avoids := caseRuns_avoid_symbols run member _ symbol
    rw [shifted] at avoids positive
    omega
  next =>
    split at h
    next spread found =>
      obtain ⟨-, avoids⟩ := spreadingCases_avoid_symbols _ (mem_of_findSpreadingCase found)
      obtain ⟨code, member, rfl⟩ := List.mem_map.mp h
      exact absurd symbol (avoids code member)
    next => exact List.mem_singleton.mp h

theorem upperChar_ne_nil (c : Char) : upperChar c ≠ [] := by
  unfold upperChar
  split
  · simp
  · split
    next spread found =>
      obtain ⟨nonempty, -⟩ := spreadingCases_avoid_symbols _ (mem_of_findSpreadingCase found)
      simpa using nonempty
    next => simp

/-- What has only symbols for its upper case is written with symbols. -/
theorem mem_symbols_of_upperChars {cs : List Char} (h : ∀ s ∈ upperChars cs, s ∈ symbols) :
    ∀ c ∈ cs, c ∈ symbols := by
  intro c member
  obtain ⟨s, isUpper⟩ := List.exists_mem_of_ne_nil _ (upperChar_ne_nil c)
  have symbol := h s (List.mem_flatMap.mpr ⟨c, member, isUpper⟩)
  exact eq_of_mem_upperChar isUpper symbol ▸ symbol

end Text

namespace OperatorTable

open Text

theorem standard_symbols : ∀ entry ∈ standard.entries,
    entry.2.1.toList ≠ [] ∧ ∀ c ∈ entry.2.1.toList, c ∈ symbols := by
  have all : (standard.entries.all fun entry => decide (entry.2.1.toList ≠ []) &&
      entry.2.1.toList.all fun c => decide (c ∈ symbols)) = true := by
    decide +kernel
  intro entry member
  obtain ⟨nonempty, ofSymbols⟩ := Bool.and_eq_true_iff.mp (List.all_eq_true.mp all entry member)
  exact ⟨of_decide_eq_true nonempty, forall_mem_of_all ofSymbols⟩

/-- A standard operator is found by symbols only. -/
theorem symbols_of_find? {role : Role} {text : List Char}
    (found : (standard.find? role (String.ofList text)).isSome) :
    text ≠ [] ∧ ∀ c ∈ text, c ∈ symbols := by
  rw [find?, Option.isSome_map, List.find?_isSome] at found
  obtain ⟨entry, member, same⟩ := found
  obtain ⟨-, isKey⟩ := of_decide_eq_true same
  obtain ⟨nonempty, ofSymbols⟩ := standard_symbols entry member
  have key : entry.2.1.toList = upperChars text := by
    simp [isKey, upper]
  rw [key] at nonempty ofSymbols
  refine ⟨?_, mem_symbols_of_upperChars ofSymbols⟩
  rintro rfl
  exact nonempty rfl

/-- What a standard operator can start with is written with symbols. -/
theorem symbols_of_canStart {role : Role} {text : List Char}
    (starts : standard.canStart role (String.ofList text) = true) : ∀ c ∈ text, c ∈ symbols := by
  obtain ⟨entry, member, -, begins⟩ := canStart_iff.mp starts
  simp only [upper, String.toList_ofList] at begins
  apply mem_symbols_of_upperChars
  intro s isUpper
  exact (standard_symbols entry member).2 s (begins.subset isUpper)

theorem find?_standard_postfixOp (text : String) :
    standard.find? .postfixOp text = none := by
  simp only [standard, withInfix, List.foldl_cons, List.foldl_nil, find?_insert, reduceCtorEq,
    false_and, if_false]
  rfl

end OperatorTable

/-- The standard operators on their own. -/
abbrev Operators.standard : Operators :=
  .ofLayers (.single .standard)

theorem Operators.find?_standard_postfixOp (text : String) :
    Operators.standard.find? .postfixOp text = none :=
  OperatorTable.find?_standard_postfixOp text

end Formulary
