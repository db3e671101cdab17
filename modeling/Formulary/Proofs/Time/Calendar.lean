import Formulary.Time.Calendar
import Mathlib.Algebra.Order.BigOperators.Group.List
import Mathlib.Algebra.Order.Group.Nat
import Mathlib.Data.Int.Order.Basic
import Mathlib.Order.Monotone.Basic
import Mathlib.Tactic.IntervalCases

set_option autoImplicit false

/-!
# Days and dates

Every day has one date and every date is of one day. Days are counted through the years first, whose lengths
add up, and then in the same way through the months of a year.
-/

namespace Formulary.Time

section Years

variable {year other days : ℤ}

def yearLength (year : ℤ) : ℤ :=
  if isLeap year then 366 else 365

theorem isLeap_iff : isLeap year = true ↔ 4 ∣ year ∧ (¬100 ∣ year ∨ 400 ∣ year) := by
  simp only [isLeap, Bool.and_eq_true, Bool.or_eq_true, beq_iff_eq, bne_iff_ne, ne_eq,
    Int.dvd_iff_emod_eq_zero]

theorem daysBeforeYear_eq (year : ℤ) : daysBeforeYear year =
    365 * (year - 1) + (year - 1) / 4 - (year - 1) / 100 + (year - 1) / 400 := rfl

theorem daysBeforeYear_succ (year : ℤ) :
    daysBeforeYear (year + 1) = daysBeforeYear year + yearLength year := by
  rw [daysBeforeYear_eq, daysBeforeYear_eq, yearLength]
  split
  next leap =>
    have := isLeap_iff.mp leap
    omega
  next common =>
    have := mt isLeap_iff.mpr common
    omega

theorem yearLength_pos (year : ℤ) : 0 < yearLength year := by
  unfold yearLength
  split <;> decide

/-- Later years start later. -/
theorem daysBeforeYear_lt_iff : daysBeforeYear year < daysBeforeYear other ↔ year < other := by
  refine (strictMono_int_of_lt_succ fun year => ?_).lt_iff_lt
  have := daysBeforeYear_succ year
  have := yearLength_pos year
  omega

theorem daysBeforeYear_le_iff : daysBeforeYear year ≤ daysBeforeYear other ↔ year ≤ other := by
  rw [← not_lt, daysBeforeYear_lt_iff, not_lt]

theorem daysBeforeYear_next_le (less : year < other) :
    daysBeforeYear year + yearLength year ≤ daysBeforeYear other := by
  rw [← daysBeforeYear_succ]
  exact daysBeforeYear_le_iff.mpr less

/-- A year of mean length has 146097 / 400 days. -/
theorem yearOf_spec (days : ℤ) :
    daysBeforeYear (yearOf days) ≤ days ∧ days < daysBeforeYear (yearOf days + 1) := by
  -- Each case compares quotients of the days with those of the year, all of them by numbers.
  unfold yearOf
  dsimp only
  split
  next early =>
    simp only [daysBeforeYear_eq] at *
    omega
  next =>
    split
    next late =>
      simp only [daysBeforeYear_eq] at *
      omega
    next => omega

theorem yearOf_eq (start : daysBeforeYear year ≤ days) (stop : days < daysBeforeYear year + yearLength year) :
    yearOf days = year := by
  obtain ⟨start', stop'⟩ := yearOf_spec days
  rw [← daysBeforeYear_succ] at stop
  have less := daysBeforeYear_lt_iff.mp (start.trans_lt stop')
  have less' := daysBeforeYear_lt_iff.mp (start'.trans_lt stop)
  omega

end Years

section Months

variable {lengths : List ℕ} {month other length day : ℕ}

theorem totalDays_eq (lengths : List ℕ) : totalDays lengths = lengths.sum := rfl

/-- The days before a month and those in it are before the next one. -/
theorem sum_take_succ (isLength : lengths[month]? = some length) :
    (lengths.take (month + 1)).sum = (lengths.take month).sum + length := by
  obtain ⟨inside, rfl⟩ := List.getElem?_eq_some_iff.mp isLength
  exact List.sum_take_succ lengths month inside

theorem sum_take_le (lengths : List ℕ) (month : ℕ) : (lengths.take month).sum ≤ lengths.sum := by
  have := List.sum_take_add_sum_drop lengths month
  omega

/-- What is split off are whole months. -/
theorem splitMonths_spec (inside : day < lengths.sum) :
    ∃ length, lengths[(splitMonths lengths day).1]? = some length ∧ (splitMonths lengths day).2 < length ∧
      (lengths.take (splitMonths lengths day).1).sum + (splitMonths lengths day).2 = day := by
  induction lengths generalizing day with
  | nil => cases inside
  | cons first rest ih =>
    rw [List.sum_cons] at inside
    unfold splitMonths
    split
    next within => exact ⟨first, rfl, within, Nat.zero_add day⟩
    next beyond =>
      have later : day - first < rest.sum := by omega
      obtain ⟨length, isLength, within, adds⟩ := ih later
      refine ⟨length, isLength, within, ?_⟩
      simp only [List.take_succ_cons, List.sum_cons]
      omega

theorem splitMonths_eq (isLength : lengths[month]? = some length) (within : day < length) :
    splitMonths lengths ((lengths.take month).sum + day) = (month, day) := by
  induction lengths generalizing month with
  | nil => cases isLength
  | cons first rest ih =>
    cases month with
    | zero =>
      obtain rfl : first = length := Option.some.inj isLength
      rw [List.take_zero, List.sum_nil, Nat.zero_add, splitMonths, if_pos within]
    | succ month =>
      rw [List.take_succ_cons, List.sum_cons, splitMonths, if_neg (by omega), Nat.add_assoc,
        Nat.add_sub_cancel_left, ih isLength]

theorem sum_monthLengths (year : ℤ) : ((monthLengths year).sum : ℤ) = yearLength year := by
  unfold monthLengths yearLength
  cases isLeap year <;> rfl

end Months

section Dates

/-- The number of days of a month. -/
def monthLength (year : ℤ) (month : ℕ) : ℕ :=
  if month = 2 then if 4 ∣ year ∧ (¬100 ∣ year ∨ 400 ∣ year) then 29 else 28
  else if month ∈ [4, 6, 9, 11] then 30 else 31

theorem monthLength_le (year : ℤ) (month : ℕ) : monthLength year month ≤ 31 := by
  unfold monthLength
  split_ifs <;> decide

theorem getElem?_monthLengths {year : ℤ} {month : ℕ} (within : 1 ≤ month ∧ month ≤ 12) :
    (monthLengths year)[month - 1]? = some (monthLength year month) := by
  obtain ⟨low, high⟩ := within
  simp only [monthLengths, isLeap_iff]
  interval_cases month <;> rfl

theorem month_le_of_getElem? {year : ℤ} {month length : ℕ}
    (isLength : (monthLengths year)[month - 1]? = some length) : month ≤ 12 := by
  have inside : month - 1 < 12 := (List.getElem?_eq_some_iff.mp isLength).1
  omega

attribute [ext] Date

namespace Date

variable {d e : Date}

/-- A date that the calendar has, in whatever year. -/
structure Exists (d : Date) : Prop where
  month : 1 ≤ d.month ∧ d.month ≤ 12
  day : 1 ≤ d.day ∧ d.day ≤ monthLength d.year d.month

theorem Exists.length (h : d.Exists) :
    (monthLengths d.year)[d.month - 1]? = some (monthLength d.year d.month) :=
  getElem?_monthLengths h.month

theorem exists_of_length {length : ℕ} (month : 1 ≤ d.month)
    (isLength : (monthLengths d.year)[d.month - 1]? = some length) (day : 1 ≤ d.day ∧ d.day ≤ length) :
    d.Exists := by
  have within : 1 ≤ d.month ∧ d.month ≤ 12 := ⟨month, month_le_of_getElem? isLength⟩
  rw [getElem?_monthLengths within] at isLength
  obtain rfl := Option.some.inj isLength
  exact ⟨within, day⟩

theorem isValid_iff : d.isValid = true ↔ (firstYear ≤ d.year ∧ d.year ≤ lastYear) ∧ d.Exists := by
  simp only [isValid, Bool.and_eq_true, decide_eq_true_eq, Option.any_eq_true]
  constructor
  · rintro ⟨⟨⟨years, month⟩, day⟩, length, isLength, within⟩
    exact ⟨years, exists_of_length month isLength ⟨day, within⟩⟩
  · rintro ⟨years, h⟩
    exact ⟨⟨⟨years, h.month.1⟩, h.day.1⟩, _, h.length, h.day.2⟩

/-- The days of the year that are before a date. -/
def daysBefore (d : Date) : ℕ :=
  ((monthLengths d.year).take (d.month - 1)).sum + (d.day - 1)

theorem toDays_eq (h : d.Exists) : d.toDays = daysBeforeYear d.year + d.daysBefore - epoch := by
  have := h.day
  rw [toDays, totalDays_eq, daysBefore]
  omega

theorem daysBefore_lt (h : d.Exists) : (d.daysBefore : ℤ) < yearLength d.year := by
  have := h.day
  have next := sum_take_succ h.length
  have all := sum_take_le (monthLengths d.year) (d.month - 1 + 1)
  rw [← sum_monthLengths, daysBefore]
  omega

theorem ofDays_eq (days : ℤ) : ofDays days =
    let year := yearOf (days + epoch)
    let split := splitMonths (monthLengths year) (days + epoch - daysBeforeYear year).toNat
    ⟨year, split.1 + 1, split.2 + 1⟩ := rfl

theorem ofDays_toDays (h : d.Exists) : ofDays d.toDays = d := by
  have before := daysBefore_lt h
  have counted : d.toDays + epoch = daysBeforeYear d.year + d.daysBefore := by
    rw [toDays_eq h, sub_add_cancel]
  have isYear : yearOf (d.toDays + epoch) = d.year := yearOf_eq (by omega) (by omega)
  have rest : (d.toDays + epoch - daysBeforeYear d.year).toNat = d.daysBefore := by omega
  have inMonth : d.day - 1 < monthLength d.year d.month := by
    have := h.day
    omega
  simp only [ofDays_eq, isYear, rest, daysBefore, splitMonths_eq h.length inMonth,
    Nat.sub_add_cancel h.month.1, Nat.sub_add_cancel h.day.1]

/-- Every day has a date, and is the day of it. -/
theorem toDays_ofDays (days : ℤ) : (ofDays days).Exists ∧ (ofDays days).toDays = days := by
  obtain ⟨start, stop⟩ := yearOf_spec (days + epoch)
  rw [daysBeforeYear_succ, ← sum_monthLengths] at stop
  have inside : (days + epoch - daysBeforeYear (yearOf (days + epoch))).toNat <
      (monthLengths (yearOf (days + epoch))).sum := by omega
  obtain ⟨length, isLength, within, adds⟩ := splitMonths_spec inside
  have isDate : (ofDays days).Exists := by
    refine exists_of_length (Nat.le_add_left 1 _) ?_ ⟨Nat.le_add_left 1 _, within⟩
    exact isLength
  refine ⟨isDate, ?_⟩
  rw [toDays_eq isDate, daysBefore]
  simp only [ofDays_eq, Nat.add_sub_cancel, adds]
  omega

/-- Dates are counted in the order of the calendar. -/
theorem toDays_lt (h : d.Exists) (h' : e.Exists)
    (less : d.year < e.year ∨ d.year = e.year ∧ (d.month < e.month ∨ d.month = e.month ∧ d.day < e.day)) :
    d.toDays < e.toDays := by
  rw [toDays_eq h, toDays_eq h']
  have before := daysBefore_lt h
  rcases less with year | ⟨sameYear, month | ⟨sameMonth, day⟩⟩
  · have := daysBeforeYear_next_le year
    omega
  · have next := sum_take_succ h.length
    have later : ((monthLengths d.year).take (d.month - 1 + 1)).sum ≤
        ((monthLengths d.year).take (e.month - 1)).sum :=
      List.monotone_sum_take _ (by have := h.month; omega)
    have := h.day
    have less : d.daysBefore < e.daysBefore := by
      rw [daysBefore, daysBefore, ← sameYear]
      omega
    rw [sameYear]
    omega
  · have := h.day
    have less : d.daysBefore < e.daysBefore := by
      rw [daysBefore, daysBefore, ← sameYear, ← sameMonth]
      omega
    rw [sameYear]
    omega

end Date

end Dates

end Formulary.Time
