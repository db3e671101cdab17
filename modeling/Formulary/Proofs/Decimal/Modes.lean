import Formulary.Proofs.Decimal.Value
import Mathlib.Algebra.Group.Int.Even
import Mathlib.Tactic.Linarith

set_option autoImplicit false

/-!
# What the rounding modes prescribe

Each mode prescribes an integer for every rational number. Rounding to a scale does so in units of its
last place, and rounding to a number of digits chooses the scale by the power of ten that the number is
below. Neither moves a number past another one.
-/

namespace Formulary.Rounding

open Decimal

/-- The integer that a mode prescribes. -/
def toInt (mode : Rounding) (q : ℚ) : ℤ :=
  match mode with
  | floor => ⌊q⌋
  | ceiling => ⌈q⌉
  | down => if q < 0 then ⌈q⌉ else ⌊q⌋
  | up => if q < 0 then ⌊q⌋ else ⌈q⌉
  | halfUp => if q < 0 then ⌈q - 1 / 2⌉ else ⌊q + 1 / 2⌋
  | halfDown => if q < 0 then ⌊q + 1 / 2⌋ else ⌈q - 1 / 2⌉
  | halfEven => if Even ⌊q⌋ then ⌈q - 1 / 2⌉ else ⌊q + 1 / 2⌋

/-- The multiple of `10 ^ (-scale)` that a mode prescribes. -/
def toScale (mode : Rounding) (q : ℚ) (scale : ℤ) : ℚ :=
  mode.toInt (q * 10 ^ scale) * 10 ^ (-scale)

/-- The least power of ten above `|q|`, for `q` other than zero. -/
def magnitude (q : ℚ) : ℤ :=
  Int.log 10 |q| + 1

/-- The number of so many significant digits that a mode prescribes. -/
def toDigits (mode : Rounding) (q : ℚ) (precision : ℕ) : ℚ :=
  mode.toScale q (precision - magnitude q)

/-- Whether a number can be written with so many digits, apart from zeros at its end. -/
def IsShort (precision : ℕ) (q : ℚ) : Prop :=
  ∃ n scale : ℤ, q = n * 10 ^ (-scale) ∧ |n| < 10 ^ precision

/-- Whether a number is rounded to `n` or higher. Directed modes change over at integers, and the others
half-way between two of them; modes that look toward zero or away from it do below zero the reverse of
what they do above. -/
def Reaches (mode : Rounding) (n : ℤ) (q : ℚ) : Prop :=
  match mode with
  | floor => n ≤ q
  | ceiling => n - 1 < q
  | down => if 0 < n then n ≤ q else n - 1 < q
  | up => if 0 < n then n - 1 < q else n ≤ q
  | halfUp => if 0 < n then n - 1 / 2 ≤ q else n - 1 / 2 < q
  | halfDown => if 0 < n then n - 1 / 2 < q else n - 1 / 2 ≤ q
  | halfEven => if Even n then n - 1 / 2 ≤ q else n - 1 / 2 < q

/-- The mode that does below zero what `mode` does above. -/
def mirrored : Rounding → Rounding
  | floor => ceiling
  | ceiling => floor
  | mode => mode

variable {mode : Rounding} {q r : ℚ} {n scale m : ℤ} {precision : ℕ}

section Integers

theorem floor_le_toInt (mode : Rounding) (q : ℚ) : ⌊q⌋ ≤ mode.toInt q := by
  have raised : ⌊q⌋ ≤ ⌊q + 1 / 2⌋ := Int.floor_mono (by linarith)
  have lowered : ⌊q⌋ ≤ ⌈q - 1 / 2⌉ := by
    refine Int.lt_add_one_iff.mp ?_
    rw [← sub_lt_iff_lt_add, Int.lt_ceil]
    push_cast
    linarith [Int.floor_le q]
  have whole := Int.floor_le_ceil q
  cases mode <;> simp only [toInt] <;> (try split) <;> omega

theorem floor_neg_add_half (q : ℚ) : ⌊-q + 1 / 2⌋ = -⌈q - 1 / 2⌉ := by
  rw [← Int.floor_neg]
  congr 1
  ring

theorem ceil_neg_sub_half (q : ℚ) : ⌈-q - 1 / 2⌉ = -⌊q + 1 / 2⌋ := by
  rw [← Int.ceil_neg]
  congr 1
  ring

/-- Between two integers one of the neighbours is even. -/
theorem halfEven_neg (q : ℚ) : halfEven.toInt (-q) = -halfEven.toInt q := by
  simp only [toInt, Int.floor_neg, even_neg, floor_neg_add_half, ceil_neg_sub_half]
  by_cases whole : q ∈ Set.range Int.cast
  · obtain ⟨n, rfl⟩ := whole
    have raised : ⌊(n : ℚ) + 1 / 2⌋ = n := by
      rw [Int.floor_eq_iff]
      constructor <;> linarith
    have lowered : ⌈(n : ℚ) - 1 / 2⌉ = n := by
      rw [Int.ceil_eq_iff]
      constructor <;> linarith
    simp only [raised, lowered, ite_self]
  · rw [(Int.ceil_eq_floor_add_one_iff_notMem q).mpr whole]
    by_cases even : Even ⌊q⌋ <;> simp [even]

theorem toInt_neg (mode : Rounding) (q : ℚ) : mode.toInt (-q) = -mode.mirrored.toInt q := by
  cases mode with
  | halfEven => exact halfEven_neg q
  | floor => exact Int.floor_neg
  | ceiling => exact Int.ceil_neg
  | _ =>
    simp only [toInt, mirrored, floor_neg_add_half, ceil_neg_sub_half, Int.floor_neg, Int.ceil_neg,
      neg_lt_zero]
    rcases lt_trichotomy q 0 with negative | rfl | positive
    · simp only [negative, negative.not_gt, if_true, if_false]
    · norm_num
    · simp only [positive, positive.not_gt, if_true, if_false]

theorem mirrored_mirrored (mode : Rounding) : mode.mirrored.mirrored = mode := by
  cases mode <;> rfl

theorem toInt_eq_neg (mode : Rounding) (q : ℚ) : mode.toInt q = -mode.mirrored.toInt (-q) := by
  rw [toInt_neg, mirrored_mirrored, neg_neg]

theorem toInt_le_ceil (mode : Rounding) (q : ℚ) : mode.toInt q ≤ ⌈q⌉ := by
  have mirror := floor_le_toInt mode.mirrored (-q)
  rw [toInt_neg, mirrored_mirrored, Int.floor_neg] at mirror
  omega

theorem toInt_intCast (mode : Rounding) (n : ℤ) : mode.toInt n = n := by
  have low := floor_le_toInt mode n
  have high := toInt_le_ceil mode n
  rw [Int.floor_intCast] at low
  rw [Int.ceil_intCast] at high
  omega

theorem le_ceil_iff : n ≤ ⌈q⌉ ↔ (n : ℚ) - 1 < q := by
  rw [← Int.sub_one_lt_iff, Int.lt_ceil, Int.cast_sub, Int.cast_one]

theorem le_floor_add_half_iff : n ≤ ⌊q + 1 / 2⌋ ↔ (n : ℚ) - 1 / 2 ≤ q := by
  rw [Int.le_floor, sub_le_iff_le_add]

theorem le_ceil_sub_half_iff : n ≤ ⌈q - 1 / 2⌉ ↔ (n : ℚ) - 1 / 2 < q := by
  rw [le_ceil_iff]
  constructor <;> intro less <;> linarith

/-- A tie is between an even integer and an odd one. -/
theorem le_halfEven_iff : n ≤ halfEven.toInt q ↔ halfEven.Reaches n q := by
  simp only [toInt, Reaches]
  by_cases tie : (n : ℚ) - 1 / 2 = q
  · have before : ⌊q⌋ = n - 1 := by
      rw [Int.floor_eq_iff, ← tie]
      push_cast
      constructor <;> linarith
    have parity : Even ⌊q⌋ ↔ ¬Even n := by
      rw [before, Int.even_sub_one]
    by_cases even : Even n <;>
      simp only [parity, even, not_true, not_false_iff, if_true, if_false, le_floor_add_half_iff,
        le_ceil_sub_half_iff]
  · have strict : (n : ℚ) - 1 / 2 ≤ q ↔ n - 1 / 2 < q := ⟨fun less => lt_of_le_of_ne less tie, le_of_lt⟩
    split <;> simp only [le_floor_add_half_iff, le_ceil_sub_half_iff, strict, ite_self]

/-- Integers with the sign of a number reach those of the other sign together. -/
theorem le_ite_iff {low high : ℤ} (nonpos : q < 0 → low ≤ 0 ∧ high ≤ 0)
    (nonneg : ¬q < 0 → 0 ≤ low ∧ 0 ≤ high) :
    (n ≤ if q < 0 then low else high) ↔ if 0 < n then n ≤ high else n ≤ low := by
  by_cases negative : q < 0
  · have := nonpos negative
    rw [if_pos negative]
    split <;> omega
  · have := nonneg negative
    rw [if_neg negative]
    split <;> omega

theorem le_toInt_iff (mode : Rounding) (n : ℤ) (q : ℚ) : n ≤ mode.toInt q ↔ mode.Reaches n q := by
  have whole (negative : q < 0) : ⌈q⌉ ≤ 0 ∧ ⌊q⌋ ≤ 0 :=
    ⟨Int.ceil_nonpos.mpr negative.le, Int.floor_nonpos negative.le⟩
  have whole' (nonneg : ¬q < 0) : 0 ≤ ⌈q⌉ ∧ 0 ≤ ⌊q⌋ :=
    ⟨Int.ceil_nonneg (not_lt.mp nonneg), Int.floor_nonneg.mpr (not_lt.mp nonneg)⟩
  have near (negative : q < 0) : ⌈q - 1 / 2⌉ ≤ 0 ∧ ⌊q + 1 / 2⌋ ≤ 0 :=
    ⟨Int.ceil_nonpos.mpr (by linarith), Int.lt_add_one_iff.mp (Int.floor_lt.mpr (by push_cast; linarith))⟩
  have near' (nonneg : ¬q < 0) : 0 ≤ ⌈q - 1 / 2⌉ ∧ 0 ≤ ⌊q + 1 / 2⌋ :=
    ⟨le_ceil_sub_half_iff.mpr (by push_cast; linarith), Int.floor_nonneg.mpr (by linarith)⟩
  cases mode with
  | halfEven => exact le_halfEven_iff
  | floor => exact Int.le_floor
  | ceiling => exact le_ceil_iff
  | down =>
    rw [toInt, Reaches, le_ite_iff whole whole', Int.le_floor, le_ceil_iff]
  | up =>
    rw [toInt, Reaches, le_ite_iff (fun h => (whole h).symm) fun h => (whole' h).symm, Int.le_floor,
      le_ceil_iff]
  | halfUp =>
    rw [toInt, Reaches, le_ite_iff near near', le_floor_add_half_iff, le_ceil_sub_half_iff]
  | halfDown =>
    rw [toInt, Reaches, le_ite_iff (fun h => (near h).symm) fun h => (near' h).symm, le_floor_add_half_iff,
      le_ceil_sub_half_iff]

/-- A half goes to the even neighbour, or it goes by its sign. -/
example : halfEven.toInt (5 / 2) = 2 ∧ halfEven.toInt (7 / 2) = 4 ∧ halfUp.toInt (-5 / 2) = -3 ∧
    halfDown.toInt (-5 / 2) = -2 := by
  decide +kernel

theorem Reaches.mono (h : mode.Reaches n q) (less : q ≤ r) : mode.Reaches n r := by
  cases mode <;> simp only [Reaches] at h ⊢
  case floor => exact h.trans less
  case ceiling => exact h.trans_le less
  all_goals split at h <;> simp only [*, if_true, if_false] <;> linarith

theorem toInt_mono (mode : Rounding) (less : q ≤ r) : mode.toInt q ≤ mode.toInt r :=
  (le_toInt_iff mode _ r).mpr (((le_toInt_iff mode _ q).mp le_rfl).mono less)

end Integers

section Scales

theorem toScale_multiple (mode : Rounding) (n scale : ℤ) :
    mode.toScale (n * 10 ^ (-scale)) scale = n * 10 ^ (-scale) := by
  rw [toScale, mul_assoc, mul_comm (10 ^ (-scale)), zpow_mul_zpow_neg, mul_one, toInt_intCast]

@[simp] theorem toScale_zero (mode : Rounding) (scale : ℤ) : mode.toScale 0 scale = 0 := by
  simpa using toScale_multiple mode 0 scale

theorem toScale_mono (mode : Rounding) (scale : ℤ) (less : q ≤ r) :
    mode.toScale q scale ≤ mode.toScale r scale := by
  have scaled : q * 10 ^ scale ≤ r * 10 ^ scale :=
    mul_le_mul_of_nonneg_right less (by positivity)
  have integers : ((mode.toInt (q * 10 ^ scale) : ℤ) : ℚ) ≤ mode.toInt (r * 10 ^ scale) :=
    Int.cast_le.mpr (toInt_mono mode scaled)
  exact mul_le_mul_of_nonneg_right integers (by positivity)

theorem toScale_neg (mode : Rounding) (q : ℚ) (scale : ℤ) :
    mode.toScale (-q) scale = -mode.mirrored.toScale q scale := by
  rw [toScale, toScale, neg_mul, toInt_neg, Int.cast_neg, neg_mul]

/-- A multiple of a larger place is one of the last place. -/
theorem toScale_of_le (mode : Rounding) (n : ℤ) {places : ℤ} (within : places ≤ scale) :
    mode.toScale (n * 10 ^ (-places)) scale = n * 10 ^ (-places) := by
  have isMultiple : (n : ℚ) * 10 ^ (-places) =
      ((n * 10 ^ (scale - places).toNat : ℤ) : ℚ) * 10 ^ (-scale) := by
    push_cast
    rw [zpow_toNat (by omega), mul_assoc, ← zpow_add_ten]
    congr 2
    ring
  rw [isMultiple, toScale_multiple]

theorem toScale_zpow (mode : Rounding) (within : 0 ≤ scale + m) :
    mode.toScale (10 ^ m) scale = 10 ^ m := by
  have whole := toScale_of_le mode 1 (show -m ≤ scale by omega)
  rwa [Int.cast_one, one_mul, neg_neg] at whole

/-- Rounding stays between powers of ten that are multiples of the last place. -/
theorem toScale_between (mode : Rounding) (low : 10 ^ (m - 1) ≤ q) (high : q ≤ 10 ^ m)
    (within : 0 ≤ scale + m - 1) :
    10 ^ (m - 1) ≤ mode.toScale q scale ∧ mode.toScale q scale ≤ 10 ^ m := by
  have bottom : mode.toScale (10 ^ (m - 1)) scale = 10 ^ (m - 1) := toScale_zpow mode (by omega)
  have top : mode.toScale (10 ^ m) scale = 10 ^ m := toScale_zpow mode (by omega)
  exact ⟨bottom.ge.trans (toScale_mono mode scale low), (toScale_mono mode scale high).trans top.le⟩

end Scales

section Digits

theorem abs_lt_magnitude (q : ℚ) : |q| < 10 ^ magnitude q := by
  have bound := Int.lt_zpow_succ_log_self (b := 10) (by decide) |q|
  exact_mod_cast bound

theorem magnitude_le_abs (nonzero : q ≠ 0) : (10 : ℚ) ^ (magnitude q - 1) ≤ |q| := by
  have bound := Int.zpow_log_le_self (b := 10) (by decide) (abs_pos.mpr nonzero)
  rw [magnitude, add_sub_cancel_right]
  exact_mod_cast bound

theorem magnitude_eq (low : 10 ^ (m - 1) ≤ |q|) (high : |q| < 10 ^ m) : magnitude q = m := by
  have positive : 0 < |q| := lt_of_lt_of_le (by positivity) low
  have least := (Int.zpow_le_iff_le_log (b := 10) (by decide) positive).mp (by exact_mod_cast low)
  have most := (Int.lt_zpow_iff_log_lt (b := 10) (by decide) positive).mp (by exact_mod_cast high)
  unfold magnitude
  omega

@[simp] theorem magnitude_neg (q : ℚ) : magnitude (-q) = magnitude q := by
  rw [magnitude, abs_neg, magnitude]

theorem toDigits_neg (mode : Rounding) (q : ℚ) (precision : ℕ) :
    mode.toDigits (-q) precision = -mode.mirrored.toDigits q precision := by
  rw [toDigits, magnitude_neg, toScale_neg, toDigits]

theorem toDigits_eq_neg (mode : Rounding) (q : ℚ) (precision : ℕ) :
    mode.toDigits q precision = -mode.mirrored.toDigits (-q) precision := by
  rw [toDigits_neg, mirrored_mirrored, neg_neg]

/-- The scale is the same up to the next power of ten, which may be reached from below. -/
theorem toDigits_eq_toScale (mode : Rounding) (positive : 0 < precision) (low : 10 ^ (m - 1) ≤ q)
    (high : q ≤ 10 ^ m) : mode.toDigits q precision = mode.toScale q (precision - m) := by
  have nonneg : 0 ≤ q := le_trans (by positivity) low
  rcases high.lt_or_eq with below | rfl
  · rw [toDigits, magnitude_eq (m := m)] <;> rwa [abs_of_nonneg nonneg]
  · have next : magnitude ((10 : ℚ) ^ m) = m + 1 := by
      apply magnitude_eq <;> rw [abs_of_nonneg nonneg]
      · rw [add_sub_cancel_right]
      · exact zpow_lt_zpow_right₀ (by norm_num) (by omega)
    rw [toDigits, next, toScale_zpow mode (by omega), toScale_zpow mode (by omega)]

@[simp] theorem toDigits_zero (mode : Rounding) (precision : ℕ) : mode.toDigits 0 precision = 0 :=
  toScale_zero mode _

/-- The power of ten below a positive number, and the one above it. -/
theorem magnitude_between (positive : 0 < q) :
    (10 : ℚ) ^ (magnitude q - 1) ≤ q ∧ q ≤ 10 ^ magnitude q := by
  have low := magnitude_le_abs positive.ne'
  have high := abs_lt_magnitude q
  rw [abs_of_pos positive] at low high
  exact ⟨low, high.le⟩

theorem toDigits_between (mode : Rounding) (some : 0 < precision) (positive : 0 < q) :
    10 ^ (magnitude q - 1) ≤ mode.toDigits q precision ∧
      mode.toDigits q precision ≤ 10 ^ magnitude q := by
  obtain ⟨low, high⟩ := magnitude_between positive
  exact toScale_between mode low high (by omega)

theorem toDigits_mono_of_pos (mode : Rounding) (some : 0 < precision) (positive : 0 < q)
    (less : q ≤ r) : mode.toDigits q precision ≤ mode.toDigits r precision := by
  have positive' : 0 < r := positive.trans_le less
  have ordered : magnitude q ≤ magnitude r := by
    have logs := Int.log_mono_right (b := 10) positive less
    rw [magnitude, magnitude, abs_of_pos positive, abs_of_pos positive']
    omega
  rcases ordered.lt_or_eq with below | same
  · calc mode.toDigits q precision ≤ 10 ^ magnitude q := (toDigits_between mode some positive).2
      _ ≤ 10 ^ (magnitude r - 1) := zpow_le_zpow_right₀ (by norm_num) (by omega)
      _ ≤ mode.toDigits r precision := (toDigits_between mode some positive').1
  · rw [toDigits, toDigits, same]
    exact toScale_mono mode _ less

theorem toDigits_pos (mode : Rounding) (some : 0 < precision) (positive : 0 < q) :
    0 < mode.toDigits q precision :=
  lt_of_lt_of_le (by positivity) (toDigits_between mode some positive).1

theorem toDigits_ne_zero (mode : Rounding) (some : 0 < precision) (nonzero : q ≠ 0) :
    mode.toDigits q precision ≠ 0 := by
  rcases lt_or_gt_of_ne nonzero with negative | positive
  · rw [toDigits_eq_neg]
    exact (neg_neg_of_pos (toDigits_pos _ some (neg_pos.mpr negative))).ne
  · exact (toDigits_pos mode some positive).ne'

theorem toDigits_mono (mode : Rounding) (some : 0 < precision) (less : q ≤ r) :
    mode.toDigits q precision ≤ mode.toDigits r precision := by
  have nonpos : q ≤ 0 → mode.toDigits q precision ≤ 0 := by
    intro nonpos
    rcases nonpos.lt_or_eq with negative | rfl
    · rw [toDigits_eq_neg]
      exact neg_nonpos.mpr (toDigits_pos _ some (neg_pos.mpr negative)).le
    · exact (toDigits_zero mode precision).le
  have nonneg : 0 ≤ r → 0 ≤ mode.toDigits r precision := by
    intro nonneg
    rcases nonneg.lt_or_eq with positive | rfl
    · exact (toDigits_pos mode some positive).le
    · exact (toDigits_zero mode precision).ge
  by_cases positive : 0 < q
  · exact toDigits_mono_of_pos mode some positive less
  · by_cases negative : r < 0
    · rw [toDigits_eq_neg mode q, toDigits_eq_neg mode r, neg_le_neg_iff]
      exact toDigits_mono_of_pos _ some (neg_pos.mpr negative) (neg_le_neg less)
    · exact (nonpos (not_lt.mp positive)).trans (nonneg (not_lt.mp negative))

end Digits

section Short

theorem isShort_of_le {n : ℤ} (some : 0 < precision) (few : |n| ≤ 10 ^ precision) (scale : ℤ) :
    IsShort precision (n * 10 ^ (-scale)) := by
  rcases few.lt_or_eq with less | carried
  · exact ⟨n, scale, rfl, less⟩
  · -- a one and zeros: a zero can be left out
    obtain ⟨fewer, rfl⟩ : ∃ fewer, precision = fewer + 1 := ⟨precision - 1, by omega⟩
    have split : n = n.sign * 10 ^ fewer * 10 := by
      rw [mul_assoc, ← pow_succ, ← carried, Int.sign_mul_abs]
    have isSign : |n.sign| ≤ 1 := by
      rcases Int.sign_trichotomy n with same | same | same <;> simp [same]
    refine ⟨n.sign * 10 ^ fewer, scale - 1, ?_, ?_⟩
    · rw [show -(scale - 1) = 1 + -scale by ring, zpow_add_ten, zpow_one, ← mul_assoc]
      exact congrArg (· * (10 : ℚ) ^ (-scale)) (by exact_mod_cast split)
    · rw [abs_mul, abs_of_nonneg (by positivity : (0 : ℤ) ≤ 10 ^ fewer)]
      calc |n.sign| * 10 ^ fewer ≤ 1 * 10 ^ fewer := Int.mul_le_mul_of_nonneg_right isSign (by positivity)
        _ < 10 ^ (fewer + 1) := by rw [one_mul]; exact pow_lt_pow_right₀ (by norm_num) (by omega)

theorem isShort_toDigits (mode : Rounding) (some : 0 < precision) (q : ℚ) :
    IsShort precision (mode.toDigits q precision) := by
  refine isShort_of_le some ?_ _
  have scaled : |q * 10 ^ (precision - magnitude q)| ≤ ((10 ^ precision : ℤ) : ℚ) := by
    have places : (10 : ℚ) ^ (precision : ℤ) = 10 ^ magnitude q * 10 ^ (precision - magnitude q) := by
      rw [← zpow_add_ten]
      congr 1
      ring
    rw [abs_mul, abs_of_pos (by positivity : (0 : ℚ) < 10 ^ (precision - magnitude q))]
    push_cast
    rw [← zpow_natCast, places]
    exact mul_le_mul_of_nonneg_right (abs_lt_magnitude q).le (by positivity)
  obtain ⟨low, high⟩ := abs_le.mp scaled
  have least := toInt_mono mode low
  have most := toInt_mono mode high
  rw [← Int.cast_neg, toInt_intCast] at least
  rw [toInt_intCast] at most
  exact abs_le.mpr ⟨least, most⟩

/-- A number that is short is left as it is. -/
theorem toDigits_of_isShort (mode : Rounding) (short : IsShort precision q) :
    mode.toDigits q precision = q := by
  obtain ⟨n, scale, rfl, few⟩ := short
  by_cases isZero : (n : ℚ) * 10 ^ (-scale) = 0
  · rw [isZero, toDigits_zero]
  · apply toScale_of_le
    have below : |(n : ℚ) * 10 ^ (-scale)| < 10 ^ (precision - scale : ℤ) := by
      rw [abs_mul, abs_of_pos (by positivity : (0 : ℚ) < 10 ^ (-scale)), sub_eq_add_neg, zpow_add_ten,
        zpow_natCast]
      exact mul_lt_mul_of_pos_right (by exact_mod_cast few) (by positivity)
    have ordered := (magnitude_le_abs isZero).trans_lt below
    rw [zpow_lt_zpow_iff_right₀ (by norm_num)] at ordered
    omega

end Short

end Formulary.Rounding
