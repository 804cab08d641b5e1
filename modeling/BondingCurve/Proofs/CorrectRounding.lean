import BondingCurve.Proofs.DecimalValue
import Mathlib.Algebra.Order.Archimedean.Real.Basic
import Mathlib.Data.Int.Log
import Mathlib.Data.Rat.Cast.CharZero
import Mathlib.Data.Rat.Cast.Order

/-!
# Correct rounding

A result in a decimal format is the multiple of a power of ten that is nearest to the exact number, and the power is
that of the last digit which the format keeps of this number (`CorrectlyRounded`).  The exact number may be irrational.

* (multiples) A number does not move past a multiple of this power or of a higher one (`CorrectlyRounded.le_multiple`,
  `CorrectlyRounded.multiple_le`).  So powers of ten and integers of the format are not passed
  (`CorrectlyRounded.le_pow_of_le`, `CorrectlyRounded.intCast_le`), numbers of the format stay, and rounding is monotone
  (`CorrectlyRounded.mono`): numbers with different last digits have a power of ten between them.
* (errors) A number moves by at most half a unit of its last digit (`CorrectlyRounded.abs_sub_le`).
* (digits) Beyond the digits of the format, a number may be replaced by any other with the same digits, as long as
  neither ends there (`CorrectlyRounded.of_between`).
* (rounding) `roundTo` is correct, and it has a result up to the greatest exponent (`correctlyRounded_of_roundTo`,
  `exists_roundTo`).
-/

namespace BondingCurve

/-! ### The nearest integer -/

/-- `n` is an integer nearest to `x`, the even one of two that are equally near. -/
def NearestEven (x : ℝ) (n : ℤ) : Prop :=
  |x - n| ≤ 1 / 2 ∧ (|x - n| = 1 / 2 → Even n)

private theorem nearestEven_intCast (n : ℤ) : NearestEven n n := by
  constructor <;> norm_num

theorem NearestEven.mono {x y : ℝ} {m n : ℤ} (h : x ≤ y) (hm : NearestEven x m) (hn : NearestEven y n) : m ≤ n := by
  by_contra hlt
  obtain ⟨hm_near, hm_tie⟩ := hm
  obtain ⟨hn_near, hn_tie⟩ := hn
  have hm_low := (abs_le.mp hm_near).1
  have hn_high := (abs_le.mp hn_near).2
  have hstep : n + 1 ≤ m := by omega
  have hstep' : (n : ℝ) + 1 ≤ m := by exact_mod_cast hstep
  -- Both lie halfway between `n` and its successor, and one of these is odd.
  obtain rfl : m = n + 1 := by
    have hle : (m : ℝ) ≤ n + 1 := by linarith
    exact le_antisymm (by exact_mod_cast hle) hstep
  push_cast at hm_low hm_near hm_tie
  have hx : x - (n + 1) = -(1 / 2) := by linarith
  have hy : y - n = 1 / 2 := by linarith
  have hm_even : Even (n + 1) := hm_tie (by rw [hx, abs_neg]; norm_num)
  have hn_even : Even n := hn_tie (by rw [hy]; norm_num)
  rw [Int.even_iff] at hm_even hn_even
  omega

private theorem nearestEven_halfEven (n : ℕ) {d : ℕ} (hd : 0 < d) : NearestEven ((n : ℝ) / d) (halfEven n d) := by
  have hd' : (0 : ℝ) < d := by exact_mod_cast hd
  have hnear : ((|(halfEven n d : ℚ) - n / d| : ℚ) : ℝ) ≤ ((1 / 2 : ℚ) : ℝ) :=
    Rat.cast_le.mpr (abs_halfEven_sub_le n hd)
  push_cast at hnear
  refine ⟨by push_cast; rwa [abs_sub_comm], fun htie => ?_⟩
  obtain ⟨hquotient, hr_nonneg, hr_lt⟩ := natCast_div_eq ℝ n hd
  -- In a tie the remainder is half of the divisor.
  have htie_of : ((n % d : ℕ) : ℝ) / d = 1 / 2 → 2 * (n % d) = d := by
    intro h
    rw [div_eq_div_iff hd'.ne' (by norm_num)] at h
    have h' : (2 * (n % d : ℕ) : ℝ) = d := by linarith
    exact_mod_cast h'
  rw [hquotient] at htie
  unfold halfEven at htie ⊢
  dsimp only at htie ⊢
  split_ifs at htie ⊢ with hlow
  · rw [Int.cast_natCast, add_sub_cancel_left, abs_of_nonneg hr_nonneg] at htie
    have := htie_of htie
    rw [Int.even_iff]
    omega
  · rw [Nat.cast_add, Nat.cast_one, Int.cast_add, Int.cast_one, Int.cast_natCast, add_sub_add_left_eq_sub,
      abs_of_neg (by linarith)] at htie
    have := htie_of (by linarith)
    rw [Int.even_iff]
    omega

/-! ### Powers of ten -/

private theorem ten_zpow_pos (e : ℤ) : (0 : ℝ) < 10 ^ e :=
  zpow_pos (by norm_num) e

private theorem real_ten_zpow_le {e f : ℤ} (h : e ≤ f) : (10 : ℝ) ^ e ≤ 10 ^ f :=
  zpow_le_zpow_right₀ (by norm_num) h

private theorem real_ten_zpow_eq_mul {e f : ℤ} (h : e ≤ f) :
    (10 : ℝ) ^ f = ((10 ^ (f - e).toNat : ℤ) : ℝ) * 10 ^ e := by
  have hf := ten_zpow_eq_mul h
  have hcast : ((10 ^ f : ℚ) : ℝ) = ((((10 ^ (f - e).toNat : ℕ) : ℚ) * 10 ^ e : ℚ) : ℝ) := by rw [hf]
  push_cast at hcast ⊢
  exact hcast

private theorem pow_least_le : (10 : ℝ) ^ (-greatestExponent) ≤ 1 / 10 ^ 200 := by
  have hle : (10 : ℝ) ^ (-greatestExponent) ≤ 10 ^ (-200 : ℤ) := zpow_le_zpow_right₀ (by norm_num) (by decide)
  refine hle.trans (le_of_eq ?_)
  rw [zpow_neg, one_div]
  rfl

theorem pow_hundred_le : (10 : ℝ) ^ 100 ≤ 10 ^ greatestExponent := by
  rw [← zpow_natCast]
  exact zpow_le_zpow_right₀ (by norm_num) (by decide)

private theorem zpow_log_le {q : ℝ} (hq : 0 < q) : (10 : ℝ) ^ Int.log 10 q ≤ q := by
  have h := Int.zpow_log_le_self (b := 10) (by norm_num) hq
  rwa [Nat.cast_ofNat] at h

private theorem lt_zpow_log (q : ℝ) : q < (10 : ℝ) ^ (Int.log 10 q + 1) := by
  have h := Int.lt_zpow_succ_log_self (b := 10) (by norm_num) q
  rwa [Nat.cast_ofNat] at h

private theorem log_eq_of_mem {q : ℝ} {k : ℤ} (hlow : 10 ^ k ≤ q) (hhigh : q < 10 ^ (k + 1)) : Int.log 10 q = k := by
  have hq : 0 < q := (ten_zpow_pos k).trans_le hlow
  have h₁ : k < Int.log 10 q + 1 :=
    (zpow_lt_zpow_iff_right₀ (by norm_num : (1 : ℝ) < 10)).mp (hlow.trans_lt (lt_zpow_log q))
  have h₂ : Int.log 10 q < k + 1 :=
    (zpow_lt_zpow_iff_right₀ (by norm_num : (1 : ℝ) < 10)).mp ((zpow_log_le hq).trans_lt hhigh)
  omega

/-! ### Rounded numbers -/

/-- The exponent of the last digit that a format keeps of a number. -/
noncomputable def lastExponent (digits : ℕ) (q : ℝ) : ℤ :=
  max (Int.log 10 q - (digits - 1)) (leastExponent digits)

theorem leastExponent_le_natCast (digits n : ℕ) : leastExponent digits ≤ n := by
  simp only [leastExponent]
  omega

private theorem leastExponent_le_greatestExponent (digits : ℕ) : leastExponent digits ≤ greatestExponent :=
  leastExponent_le_natCast digits 999999

/-- A number with no more digits down to a place than the format has keeps all of them. -/
private theorem lastExponent_le {digits : ℕ} {q : ℝ} {k : ℤ} (hk : leastExponent digits ≤ k) (hq : 0 < q)
    (hlt : q < 10 ^ (digits + k)) : lastExponent digits q ≤ k := by
  refine max_le ?_ hk
  have hlog := (zpow_log_le hq).trans_lt hlt
  rw [zpow_lt_zpow_iff_right₀ (by norm_num)] at hlog
  omega

/-- A number with no more digits before the point than the format keeps all of these. -/
private theorem lastExponent_nonpos {digits : ℕ} {q : ℝ} (hq : 0 < q) (hlt : q < 10 ^ digits) :
    lastExponent digits q ≤ 0 :=
  lastExponent_le (leastExponent_le_natCast digits 0) hq (by rwa [add_zero, zpow_natCast])

theorem mul_ten_zpow_lt {digits : ℕ} {m : ℤ} (hm : m < 10 ^ digits) (k : ℤ) : (m : ℝ) * 10 ^ k < 10 ^ (digits + k) := by
  rw [zpow_add₀ (by norm_num), zpow_natCast]
  exact mul_lt_mul_of_pos_right (by exact_mod_cast hm) (ten_zpow_pos k)

/-- `z` is the number of a format that is nearest to `q`, if the format had no greatest exponent. -/
def CorrectlyRounded (digits : ℕ) (q z : ℝ) : Prop :=
  ∃ n : ℤ, NearestEven (q / 10 ^ lastExponent digits q) n ∧ z = n * 10 ^ lastExponent digits q

namespace CorrectlyRounded

variable {digits : ℕ} {q q' z z' : ℝ} {m k : ℤ}

theorem le_multiple (h : CorrectlyRounded digits q z) (hk : lastExponent digits q ≤ k) (hq : q ≤ m * 10 ^ k) :
    z ≤ m * 10 ^ k := by
  obtain ⟨n, hn, rfl⟩ := h
  rw [real_ten_zpow_eq_mul hk, ← mul_assoc, ← Int.cast_mul] at hq ⊢
  rw [← div_le_iff₀ (ten_zpow_pos _)] at hq
  have hle : n ≤ m * 10 ^ (k - lastExponent digits q).toNat := hn.mono hq (nearestEven_intCast _)
  exact mul_le_mul_of_nonneg_right (by exact_mod_cast hle) (ten_zpow_pos _).le

theorem multiple_le (h : CorrectlyRounded digits q z) (hk : lastExponent digits q ≤ k) (hq : m * 10 ^ k ≤ q) :
    m * 10 ^ k ≤ z := by
  obtain ⟨n, hn, rfl⟩ := h
  rw [real_ten_zpow_eq_mul hk, ← mul_assoc, ← Int.cast_mul] at hq ⊢
  rw [← le_div_iff₀ (ten_zpow_pos _)] at hq
  have hle : m * 10 ^ (k - lastExponent digits q).toNat ≤ n := (nearestEven_intCast _).mono hq hn
  exact mul_le_mul_of_nonneg_right (by exact_mod_cast hle) (ten_zpow_pos _).le

private theorem pow_le (h : CorrectlyRounded digits q z) (hk : lastExponent digits q ≤ k) (hq : 10 ^ k ≤ q) :
    10 ^ k ≤ z := by
  have hone : ((1 : ℤ) : ℝ) * 10 ^ k ≤ q := by rwa [Int.cast_one, one_mul]
  have := h.multiple_le hk hone
  rwa [Int.cast_one, one_mul] at this

private theorem le_pow (h : CorrectlyRounded digits q z) (hk : lastExponent digits q ≤ k) (hq : q ≤ 10 ^ k) :
    z ≤ 10 ^ k := by
  have hone : q ≤ ((1 : ℤ) : ℝ) * 10 ^ k := by rwa [Int.cast_one, one_mul]
  have := h.le_multiple hk hone
  rwa [Int.cast_one, one_mul] at this

theorem nonneg (h : CorrectlyRounded digits q z) (hq : 0 ≤ q) : 0 ≤ z := by
  have hzero : ((0 : ℤ) : ℝ) * 10 ^ lastExponent digits q ≤ q := by rwa [Int.cast_zero, zero_mul]
  have := h.multiple_le le_rfl hzero
  rwa [Int.cast_zero, zero_mul] at this

theorem eq_zero (h : CorrectlyRounded digits 0 z) : z = 0 := by
  refine le_antisymm ?_ (h.nonneg le_rfl)
  have := h.le_multiple (m := 0) le_rfl (by simp)
  rwa [Int.cast_zero, zero_mul] at this

/-- A power of ten below the last digit of a format vanishes. -/
theorem eq_zero_of_pow (h : CorrectlyRounded digits (10 ^ k) z) (hdigits : 0 < digits)
    (hk : k < leastExponent digits) : z = 0 := by
  obtain ⟨n, hn, rfl⟩ := h
  have hlast : lastExponent digits (10 ^ k) = leastExponent digits := by
    have hlog : Int.log 10 ((10 : ℝ) ^ k) = k :=
      log_eq_of_mem le_rfl (zpow_lt_zpow_right₀ (by norm_num) (lt_add_one k))
    rw [lastExponent, hlog]
    exact max_eq_right (by omega)
  rw [hlast] at hn ⊢
  generalize leastExponent digits = e at *
  have hpow := ten_zpow_pos e
  have hten : (10 : ℝ) ^ k ≤ 10 ^ e / 10 := by
    rw [div_eq_mul_inv, ← zpow_sub_one₀ (by norm_num : (10 : ℝ) ≠ 0)]
    exact real_ten_zpow_le (by omega)
  have hlow : 0 ≤ (10 : ℝ) ^ k / 10 ^ e := div_nonneg (ten_zpow_pos k).le hpow.le
  have hhigh : (10 : ℝ) ^ k / 10 ^ e ≤ 1 / 10 := by
    rw [div_le_iff₀ hpow]
    linarith
  -- The nearest integer to a tenth or less is zero.
  obtain ⟨hn_low, hn_high⟩ := abs_le.mp hn.1
  have hn_lt : (n : ℝ) < 1 := by linarith
  have hn_gt : (-1 : ℝ) < n := by linarith
  have hn_zero : n = 0 := by
    have h₁ : n < 1 := by exact_mod_cast hn_lt
    have h₂ : -1 < n := by exact_mod_cast hn_gt
    omega
  rw [hn_zero, Int.cast_zero, zero_mul]

/-- A number with no more digits than the format is its own rounding. -/
theorem eq_of_multiple (h : CorrectlyRounded digits (m * 10 ^ k) z) (hm : 0 ≤ m) (hdigits : m < 10 ^ digits)
    (hk : leastExponent digits ≤ k) : z = m * 10 ^ k := by
  rcases hm.eq_or_lt with rfl | hpos
  · rw [Int.cast_zero, zero_mul] at h ⊢
    exact h.eq_zero
  have hq : (0 : ℝ) < m * 10 ^ k := mul_pos (by exact_mod_cast hpos) (ten_zpow_pos k)
  have hlast : lastExponent digits (m * 10 ^ k) ≤ k := lastExponent_le hk hq (mul_ten_zpow_lt hdigits k)
  exact le_antisymm (h.le_multiple hlast le_rfl) (h.multiple_le hlast le_rfl)

/-- A power of ten of the format is not passed from below. -/
theorem le_pow_of_le (h : CorrectlyRounded digits q z) (hdigits : 0 < digits) (hk : leastExponent digits ≤ k)
    (hq : 0 ≤ q) (hle : q ≤ 10 ^ k) : z ≤ 10 ^ k := by
  rcases hq.eq_or_lt with rfl | hpos
  · rw [h.eq_zero]
    exact (ten_zpow_pos k).le
  · have hlt : (10 : ℝ) ^ k < 10 ^ (digits + k) := zpow_lt_zpow_right₀ (by norm_num) (by omega)
    exact h.le_pow (lastExponent_le hk hpos (hle.trans_lt hlt)) hle

/-- A power of ten of the format is not passed from above. -/
theorem pow_le_of_le (h : CorrectlyRounded digits q z) (hdigits : 0 < digits) (hk : leastExponent digits ≤ k)
    (hle : 10 ^ k ≤ q) : 10 ^ k ≤ z := by
  have hq : 0 < q := (ten_zpow_pos k).trans_le hle
  have hlog : k ≤ Int.log 10 q := by
    have hlt := hle.trans_lt (lt_zpow_log q)
    rw [zpow_lt_zpow_iff_right₀ (by norm_num)] at hlt
    omega
  have hlast : lastExponent digits q ≤ Int.log 10 q := max_le (by omega) (hk.trans hlog)
  calc (10 : ℝ) ^ k ≤ 10 ^ Int.log 10 q := real_ten_zpow_le hlog
    _ ≤ z := h.pow_le hlast (zpow_log_le hq)

/-- An integer with no more digits than the format is not passed from above. -/
theorem intCast_le (h : CorrectlyRounded digits q z) (hq : 0 < q) (hlt : q < 10 ^ digits) (hm : m ≤ q) : m ≤ z := by
  have hmultiple := h.multiple_le (m := m) (lastExponent_nonpos hq hlt) (by rwa [zpow_zero, mul_one])
  rwa [zpow_zero, mul_one] at hmultiple

/-- An integer with no more digits than the format is not passed from below. -/
theorem le_intCast (h : CorrectlyRounded digits q z) (hq : 0 < q) (hlt : q < 10 ^ digits) (hm : q ≤ m) : z ≤ m := by
  have hmultiple := h.le_multiple (m := m) (lastExponent_nonpos hq hlt) (by rwa [zpow_zero, mul_one])
  rwa [zpow_zero, mul_one] at hmultiple

theorem mono (hdigits : 0 < digits) (hq : 0 ≤ q) (hle : q ≤ q') (h : CorrectlyRounded digits q z)
    (h' : CorrectlyRounded digits q' z') : z ≤ z' := by
  rcases hq.eq_or_lt with rfl | hpos
  · rw [h.eq_zero]
    exact h'.nonneg hle
  have hlog : Int.log 10 q ≤ Int.log 10 q' := Int.log_mono_right hpos hle
  rcases (max_le_max_right (leastExponent digits) (Int.sub_le_sub_right hlog (digits - 1))).eq_or_lt with heq | hlt
  · -- Two roundings to multiples of the same power.
    obtain ⟨n, hn, rfl⟩ := h
    obtain ⟨n', hn', rfl⟩ := h'
    have hlast : lastExponent digits q = lastExponent digits q' := heq
    rw [hlast] at hn ⊢
    have hnn' : n ≤ n' := hn.mono (div_le_div_of_nonneg_right hle (ten_zpow_pos _).le) hn'
    exact mul_le_mul_of_nonneg_right (by exact_mod_cast hnn') (ten_zpow_pos _).le
  · -- The first digit of the larger number has a place above all digits of the smaller one.
    have hlast : lastExponent digits q < lastExponent digits q' := hlt
    have hplace : lastExponent digits q' = Int.log 10 q' - (digits - 1) := by
      refine max_eq_left (not_lt.mp fun hleast => ?_)
      rw [max_eq_right hleast.le] at hlt
      exact absurd (le_max_right _ _) (not_le.mpr hlt)
    have hfirst : Int.log 10 q - (digits - 1) ≤ lastExponent digits q := le_max_left _ _
    have hbelow : q ≤ 10 ^ Int.log 10 q' := (lt_zpow_log q).le.trans (real_ten_zpow_le (by omega))
    calc z ≤ 10 ^ Int.log 10 q' := h.le_pow (by omega) hbelow
      _ ≤ z' := h'.pow_le (by omega) (zpow_log_le (hpos.trans_le hle))

/-- A number has one rounding. -/
theorem unique (hdigits : 0 < digits) (hq : 0 ≤ q) (h : CorrectlyRounded digits q z)
    (h' : CorrectlyRounded digits q z') : z = z' :=
  le_antisymm (h.mono hdigits hq le_rfl h') (h'.mono hdigits hq le_rfl h)

/-! ### Errors -/

private theorem abs_sub_le_pow (h : CorrectlyRounded digits q z) : |z - q| ≤ 10 ^ lastExponent digits q / 2 := by
  obtain ⟨n, ⟨hn, -⟩, rfl⟩ := h
  have hpow := ten_zpow_pos (lastExponent digits q)
  have hq : q = q / 10 ^ lastExponent digits q * 10 ^ lastExponent digits q := (div_mul_cancel₀ _ hpow.ne').symm
  generalize (10 : ℝ) ^ lastExponent digits q = u at *
  calc |n * u - q| = |q / u - n| * u := by
        conv_lhs => rw [hq]
        rw [← sub_mul, abs_mul, abs_of_pos hpow, abs_sub_comm]
    _ ≤ 1 / 2 * u := mul_le_mul_of_nonneg_right hn hpow.le
    _ = u / 2 := by ring

/-- The error is small compared with the number, or with the least normal one. -/
theorem abs_sub_le (h : CorrectlyRounded digits q z) (hq : 0 ≤ q) :
    |z - q| ≤ 10 ^ (1 - (digits : ℤ)) / 2 * (q + 10 ^ (-greatestExponent)) := by
  have hleast := ten_zpow_pos (-greatestExponent)
  have hunit := ten_zpow_pos (1 - digits)
  rcases hq.eq_or_lt with rfl | hpos
  · rw [h.eq_zero, sub_self, abs_zero]
    positivity
  have hlast : (10 : ℝ) ^ lastExponent digits q ≤ 10 ^ (1 - (digits : ℤ)) * (q + 10 ^ (-greatestExponent)) := by
    have hq_part := mul_pos hunit hpos
    have hleast_part := mul_pos hunit hleast
    rw [mul_add]
    rcases max_choice (Int.log 10 q - (digits - 1)) (leastExponent digits) with hmax | hmax <;>
      rw [lastExponent, hmax]
    · have hstep : (10 : ℝ) ^ (Int.log 10 q - (digits - 1)) = 10 ^ (1 - (digits : ℤ)) * 10 ^ Int.log 10 q := by
        rw [← zpow_add₀ (by norm_num)]
        congr 1
        omega
      have hfirst := mul_le_mul_of_nonneg_left (zpow_log_le hpos) hunit.le
      linarith
    · have hstep : (10 : ℝ) ^ leastExponent digits = 10 ^ (1 - (digits : ℤ)) * 10 ^ (-greatestExponent) := by
        rw [← zpow_add₀ (by norm_num)]
        congr 1
        simp only [leastExponent, greatestExponent]
        omega
      linarith
  have := h.abs_sub_le_pow
  linarith

/-- Half a unit of the last of 60 digits, for a format with no fewer digits. -/
theorem abs_sub_le_precision (h : CorrectlyRounded digits q z) (hdigits : precision ≤ digits) (hq : 0 ≤ q) :
    |z - q| ≤ 1 / (2 * 10 ^ 59) * (q + 10 ^ (-greatestExponent)) := by
  have hleast := ten_zpow_pos (-greatestExponent)
  have hunit : (10 : ℝ) ^ (1 - (digits : ℤ)) / 2 ≤ 1 / (2 * 10 ^ 59) := by
    have hle : (10 : ℝ) ^ (1 - (digits : ℤ)) ≤ 10 ^ (-59 : ℤ) := by
      apply real_ten_zpow_le
      rw [precision] at hdigits
      omega
    exact (div_le_div_of_nonneg_right hle (by norm_num)).trans (le_of_eq (by norm_num))
  exact (h.abs_sub_le hq).trans (mul_le_mul_of_nonneg_right hunit (by linarith))

theorem abs_sub_le_tiny (h : CorrectlyRounded digits q z) (hdigits : precision ≤ digits) (hq : 0 ≤ q) :
    |z - q| ≤ 1 / (2 * 10 ^ 59) * (q + 1 / 10 ^ 200) :=
  (h.abs_sub_le_precision hdigits hq).trans (mul_le_mul_of_nonneg_left (by linarith [pow_least_le]) (by positivity))

/-! ### Digits beyond the format -/

/-- A coefficient and the numbers up to the next one have their first digits at one place. -/
private theorem log_mul_eq {c : ℕ} {s : ℝ} {e : ℤ} (hc : 1 ≤ c) (hlow : c ≤ s) (hhigh : s < c + 1) :
    Int.log 10 (s * 10 ^ e) = Int.log 10 ((c : ℝ) * 10 ^ e) := by
  have he := ten_zpow_pos e
  have hc' : (1 : ℝ) ≤ c := by exact_mod_cast hc
  have hpos : (0 : ℝ) < c * 10 ^ e := mul_pos (by linarith) he
  set k := Int.log 10 ((c : ℝ) * 10 ^ e) with hk
  have hbelow : (c : ℝ) * 10 ^ e < 10 ^ (k + 1) := lt_zpow_log _
  have hle : e ≤ k + 1 := by
    have : (10 : ℝ) ^ e < 10 ^ (k + 1) := lt_of_le_of_lt (by nlinarith) hbelow
    rw [zpow_lt_zpow_iff_right₀ (by norm_num)] at this
    omega
  refine log_eq_of_mem ((zpow_log_le hpos).trans (mul_le_mul_of_nonneg_right hlow he.le)) ?_
  -- The next power of ten is a whole number of units, so the next coefficient does not exceed it.
  rw [real_ten_zpow_eq_mul hle] at hbelow ⊢
  have hnext : ((c : ℤ) + 1) ≤ 10 ^ (k + 1 - e).toNat := by
    have hlt := lt_of_mul_lt_mul_right hbelow he.le
    have hlt' : (c : ℤ) < 10 ^ (k + 1 - e).toNat := by exact_mod_cast hlt
    omega
  have hnext' : (c : ℝ) + 1 ≤ ((10 ^ (k + 1 - e).toNat : ℤ) : ℝ) := by exact_mod_cast hnext
  exact mul_lt_mul_of_pos_right (hhigh.trans_le hnext') he

/-- A coefficient with more digits than the format loses at least one. -/
private theorem succ_le_lastExponent {c : ℕ} {s : ℝ} {e : ℤ} (hc : 10 ^ digits ≤ c) (hs : c ≤ s) :
    e + 1 ≤ lastExponent digits (s * 10 ^ e) := by
  have hfirst : e + digits < Int.log 10 (s * 10 ^ e) + 1 := by
    rw [← zpow_lt_zpow_iff_right₀ (by norm_num : (1 : ℝ) < 10)]
    refine lt_of_le_of_lt ?_ (lt_zpow_log _)
    have hc' : (10 : ℝ) ^ digits ≤ c := by exact_mod_cast hc
    rw [zpow_add₀ (by norm_num), zpow_natCast, mul_comm]
    exact mul_le_mul_of_nonneg_right (hc'.trans hs) (ten_zpow_pos e).le
  have hmax : Int.log 10 (s * 10 ^ e) - (digits - 1) ≤ lastExponent digits (s * 10 ^ e) := le_max_left _ _
  omega

/-- Half of an even unit is whole, so no tie lies strictly between two neighbouring numbers. -/
private theorem nearestEven_of_between {c : ℕ} {n half : ℤ} {s t : ℝ} (hhalf : 0 < half) (hs : c < s) (hs' : s < c + 1)
    (ht : c < t) (ht' : t < c + 1) (h : NearestEven (s / (2 * half)) n) : NearestEven (t / (2 * half)) n := by
  have hhalf' : (0 : ℝ) < half := by exact_mod_cast hhalf
  have hscaled : ∀ u : ℝ, |u / (2 * half) - n| = |u - n * (2 * half)| / (2 * half) := by
    intro u
    rw [← abs_of_pos (by linarith : (0 : ℝ) < 2 * half), ← abs_div, abs_of_pos (by linarith : (0 : ℝ) < 2 * half)]
    congr 1
    field_simp
  obtain ⟨hn, -⟩ := h
  rw [hscaled, div_le_iff₀ (by linarith)] at hn
  obtain ⟨hn_low, hn_high⟩ := abs_le.mp hn
  have hlow : n * (2 * half) - half ≤ (c : ℤ) := by
    have hlt : ((n * (2 * half) - half : ℤ) : ℝ) < ((c + 1 : ℤ) : ℝ) := by
      push_cast
      linarith
    have hlt' : n * (2 * half) - half < (c + 1 : ℤ) := by exact_mod_cast hlt
    omega
  have hhigh : (c : ℤ) + 1 ≤ n * (2 * half) + half := by
    have hlt : ((c : ℤ) : ℝ) < ((n * (2 * half) + half : ℤ) : ℝ) := by
      push_cast
      linarith
    have hlt' : (c : ℤ) < n * (2 * half) + half := by exact_mod_cast hlt
    omega
  have hlow' : (n : ℝ) * (2 * half) - half ≤ c := by exact_mod_cast hlow
  have hhigh' : (c : ℝ) + 1 ≤ n * (2 * half) + half := by exact_mod_cast hhigh
  have hstrict : |t / (2 * half) - n| < 1 / 2 := by
    have hinside : |t - n * (2 * half)| < half := abs_lt.mpr ⟨by linarith, by linarith⟩
    rw [hscaled, div_lt_iff₀ (by linarith)]
    linarith
  exact ⟨hstrict.le, fun htie => absurd htie hstrict.ne⟩

/-- Numbers strictly between two neighbouring coefficients with more digits than the format have one rounding. -/
theorem of_between {c : ℕ} {s t : ℝ} {e : ℤ} (hc : 10 ^ digits ≤ c) (hs : c < s) (hs' : s < c + 1) (ht : c < t)
    (ht' : t < c + 1) (h : CorrectlyRounded digits (s * 10 ^ e) z) : CorrectlyRounded digits (t * 10 ^ e) z := by
  have hone : 1 ≤ c := (Nat.one_le_pow _ _ (by norm_num)).trans hc
  have hlast : lastExponent digits (t * 10 ^ e) = lastExponent digits (s * 10 ^ e) := by
    rw [lastExponent, lastExponent, log_mul_eq hone ht.le ht', log_mul_eq hone hs.le hs']
  have hdropped := succ_le_lastExponent (e := e) hc hs.le
  unfold CorrectlyRounded at h ⊢
  rw [hlast]
  generalize lastExponent digits (s * 10 ^ e) = f at hdropped h
  obtain ⟨n, hn, hz⟩ := h
  refine ⟨n, ?_, hz⟩
  -- Half of the dropped unit is a whole number of units of `c`.
  obtain ⟨j, hj⟩ : ∃ j : ℕ, (f - e).toNat = j + 1 := ⟨(f - e).toNat - 1, by omega⟩
  have hunit : (10 : ℝ) ^ f = 2 * ((5 * 10 ^ j : ℤ) : ℝ) * 10 ^ e := by
    rw [real_ten_zpow_eq_mul (by omega : e ≤ f), hj, pow_succ]
    push_cast
    ring
  rw [hunit, mul_div_mul_right _ _ (ten_zpow_pos e).ne'] at hn ⊢
  exact nearestEven_of_between (by positivity) hs hs' ht ht' hn

end CorrectlyRounded

/-! ### Rounding a decimal -/

namespace Decimal

variable {x y : Decimal} {digits : ℕ}

theorem cast_magnitude (x : Decimal) : ((x.magnitude : ℚ) : ℝ) = x.coefficient * 10 ^ x.exponent := by
  rw [magnitude]
  push_cast
  rfl

theorem cast_magnitude_le_pow {e : ℤ} : ((x.magnitude : ℚ) : ℝ) ≤ 10 ^ e ↔ x.magnitude ≤ 10 ^ e := by
  rw [← Rat.cast_le (K := ℝ), Rat.cast_zpow, Rat.cast_ofNat]

theorem pow_le_cast_magnitude {e : ℤ} : (10 : ℝ) ^ e ≤ (x.magnitude : ℚ) ↔ 10 ^ e ≤ x.magnitude := by
  rw [← Rat.cast_le (K := ℝ), Rat.cast_zpow, Rat.cast_ofNat]

theorem cast_magnitude_nonneg (x : Decimal) : (0 : ℝ) ≤ (x.magnitude : ℚ) := by
  exact_mod_cast x.magnitude_nonneg

private theorem lastExponent_magnitude (h : x.coefficient ≠ 0) :
    lastExponent digits (x.magnitude : ℚ) = x.finestExponent digits := by
  have hlow : (10 : ℝ) ^ x.adjusted ≤ (x.magnitude : ℚ) := pow_le_cast_magnitude.mpr (pow_adjusted_le h)
  have hhigh : ((x.magnitude : ℚ) : ℝ) < 10 ^ (x.adjusted + 1) := by
    rw [← not_le, pow_le_cast_magnitude, not_le]
    exact x.magnitude_lt_pow
  rw [lastExponent, log_eq_of_mem hlow hhigh]
  rfl

/-- A number that is spelled at its last digit in the format or above it is its own rounding. -/
private theorem correctlyRounded_self (h : x.coefficient ≠ 0) (hfine : x.finestExponent digits ≤ x.exponent) :
    CorrectlyRounded digits (x.magnitude : ℚ) (x.magnitude : ℚ) := by
  have hspelled := real_ten_zpow_eq_mul hfine
  refine ⟨x.coefficient * 10 ^ (x.exponent - x.finestExponent digits).toNat, ?_, ?_⟩ <;>
    rw [lastExponent_magnitude h, cast_magnitude, hspelled, ← mul_assoc]
  · rw [mul_div_cancel_right₀ _ (ten_zpow_pos _).ne']
    have := nearestEven_intCast (x.coefficient * 10 ^ (x.exponent - x.finestExponent digits).toNat)
    exact_mod_cast this
  · push_cast
    rfl

/-- The nearest coefficient at the last digit spells the rounding. -/
private theorem correctlyRounded_nearest (hdigits : 0 < digits) (h : x.coefficient ≠ 0)
    (hfine : x.exponent < x.finestExponent digits) :
    let y : Decimal := ⟨x.negative, x.nearestCoefficientAt (x.finestExponent digits), x.finestExponent digits⟩
    CorrectlyRounded digits (x.magnitude : ℚ) ((settleCarry digits y).magnitude : ℚ) := by
  intro y
  rw [magnitude_settleCarry hdigits, cast_magnitude y]
  refine ⟨x.nearestCoefficientAt (x.finestExponent digits), ?_, by rw [lastExponent_magnitude h, Int.cast_natCast]⟩
  rw [lastExponent_magnitude h]
  generalize x.finestExponent digits = e at hfine ⊢
  have he := ten_zpow_pos e
  rcases nearestCoefficientAt_cases hfine.le with ⟨hzero, hbelow⟩ | ⟨hnearest, hmagnitude⟩
  · have hbelow' : ((x.magnitude : ℚ) : ℝ) < 10 ^ (e - 1) := by
      rw [← not_le, pow_le_cast_magnitude, not_le]
      exact hbelow
    have hstep : (10 : ℝ) ^ e = 10 ^ (e - 1) * 10 := by
      rw [← zpow_add_one₀ (by norm_num), sub_add_cancel]
    have hnonneg := div_nonneg x.cast_magnitude_nonneg he.le
    have hstrict : |((x.magnitude : ℚ) : ℝ) / 10 ^ e - ((0 : ℕ) : ℤ)| < 1 / 2 := by
      rw [Nat.cast_zero, Int.cast_zero, sub_zero, abs_of_nonneg hnonneg, div_lt_iff₀ he, hstep]
      linarith [ten_zpow_pos (e - 1)]
    rw [hzero]
    exact ⟨hstrict.le, fun htie => absurd htie hstrict.ne⟩
  · have hnear := nearestEven_halfEven x.coefficient (Nat.pow_pos (n := (e - x.exponent).toNat) (by decide : 0 < 10))
    have hquotient : ((x.magnitude : ℚ) : ℝ) / 10 ^ e =
        (x.coefficient : ℝ) / ((10 ^ (e - x.exponent).toNat : ℕ) : ℝ) := by
      rw [hmagnitude, Rat.cast_mul, Rat.cast_zpow, Rat.cast_ofNat, mul_div_cancel_right₀ _ he.ne']
      push_cast
      rfl
    rw [hnearest, hquotient]
    exact hnear

theorem correctlyRounded_of_roundTo (hdigits : 0 < digits) (h : x.roundTo digits = .ok y) :
    CorrectlyRounded digits (x.magnitude : ℚ) (y.magnitude : ℚ) := by
  unfold roundTo at h
  by_cases hzero : x.coefficient = 0
  · rw [if_pos hzero] at h
    obtain ⟨⟩ := h
    have hrespelled : ∀ e, magnitude ⟨x.negative, x.coefficient, e⟩ = 0 := fun e => magnitude_of_coefficient hzero
    rw [magnitude_of_coefficient hzero, hrespelled, Rat.cast_zero]
    exact ⟨0, by simpa using nearestEven_intCast 0, by simp⟩
  rw [if_neg hzero, ite_error_eq_ok_iff] at h
  obtain ⟨-, h⟩ := h
  dsimp only at h
  by_cases hfine : x.finestExponent digits ≤ x.exponent
  · rw [if_pos hfine] at h
    obtain ⟨⟩ := h
    exact correctlyRounded_self hzero hfine
  · rw [if_neg hfine, ite_error_eq_ok_iff] at h
    obtain ⟨-, ⟨⟩⟩ := h
    exact correctlyRounded_nearest hdigits hzero (not_le.mp hfine)

theorem roundTo_mono {x' y' : Decimal} (hdigits : 0 < digits) (hle : x.magnitude ≤ x'.magnitude)
    (h : x.roundTo digits = .ok y) (h' : x'.roundTo digits = .ok y') : y.magnitude ≤ y'.magnitude := by
  have hle' : ((x.magnitude : ℚ) : ℝ) ≤ (x'.magnitude : ℚ) := by exact_mod_cast hle
  have hrounded := (correctlyRounded_of_roundTo hdigits h).mono hdigits x.cast_magnitude_nonneg hle'
    (correctlyRounded_of_roundTo hdigits h')
  exact_mod_cast hrounded

/-- Every decimal has a rounding, if the format had no greatest exponent. -/
theorem exists_correctlyRounded (hdigits : 0 < digits) (x : Decimal) :
    ∃ z : ℝ, CorrectlyRounded digits (x.magnitude : ℚ) z := by
  by_cases hzero : x.coefficient = 0
  · rw [magnitude_of_coefficient hzero, Rat.cast_zero]
    exact ⟨0, 0, by simpa using nearestEven_intCast 0, by simp⟩
  by_cases hfine : x.finestExponent digits ≤ x.exponent
  · exact ⟨_, correctlyRounded_self hzero hfine⟩
  · exact ⟨_, correctlyRounded_nearest hdigits hzero (not_le.mp hfine)⟩

/-- The first digit of a number below the end of the format has an exponent of the format. -/
private theorem not_greatest_lt_adjusted (h : x.coefficient ≠ 0)
    (hlt : ((x.magnitude : ℚ) : ℝ) < 10 ^ (greatestExponent + 1)) : ¬ greatestExponent < x.adjusted := by
  have hfirst := (pow_le_cast_magnitude.mpr (pow_adjusted_le h)).trans_lt hlt
  rw [zpow_lt_zpow_iff_right₀ (by norm_num)] at hfirst
  omega

/-- A decimal has a rounding in the format if the number that it is rounded to lies below the end of the format. -/
theorem exists_roundTo_of_lt (hdigits : 0 < digits) {z : ℝ} (hz : CorrectlyRounded digits (x.magnitude : ℚ) z)
    (hlt : z < 10 ^ (greatestExponent + 1)) : ∃ y, x.roundTo digits = .ok y := by
  unfold roundTo
  by_cases hzero : x.coefficient = 0
  · exact ⟨_, if_pos hzero⟩
  rw [if_neg hzero]
  have hleast := leastExponent_le_greatestExponent digits
  have hx : ¬ greatestExponent < x.adjusted := by
    intro hwide
    have hend : (10 : ℝ) ^ (greatestExponent + 1) ≤ (x.magnitude : ℚ) :=
      (real_ten_zpow_le (by omega)).trans (pow_le_cast_magnitude.mpr (pow_adjusted_le hzero))
    exact absurd hlt (not_lt.mpr (hz.pow_le_of_le hdigits (by omega) hend))
  rw [if_neg hx]
  dsimp only
  by_cases hfine : x.finestExponent digits ≤ x.exponent
  · exact ⟨x, if_pos hfine⟩
  rw [if_neg hfine]
  have hfinest : x.finestExponent digits ≤ greatestExponent := max_le (by omega) hleast
  have hrounded := correctlyRounded_nearest hdigits hzero (not_le.mp hfine)
  dsimp only at hrounded
  generalize hy : settleCarry digits ⟨x.negative, x.nearestCoefficientAt (x.finestExponent digits),
    x.finestExponent digits⟩ = y at hrounded
  have hfits : ¬ greatestExponent < y.adjusted := by
    by_cases hy_zero : y.coefficient = 0
    · -- A coefficient of zero is spelled at the last digit.
      have hplain : y = ⟨x.negative, x.nearestCoefficientAt (x.finestExponent digits), x.finestExponent digits⟩ := by
        rw [← hy]
        refine if_neg fun hcarry => ?_
        rw [settleCarry, if_pos hcarry] at hy
        rw [← hy] at hy_zero
        exact absurd hy_zero (Nat.pow_pos (by decide)).ne'
      rw [hplain] at hy_zero ⊢
      simp only at hy_zero
      simp only [adjusted, Decimal.digits, hy_zero, digitCount_zero]
      omega
    · rw [hz.unique hdigits x.cast_magnitude_nonneg hrounded] at hlt
      exact not_greatest_lt_adjusted hy_zero hlt
  exact ⟨y, if_neg hfits⟩

/-- The format has a number for everything up to its greatest power of ten. -/
theorem exists_roundTo (hdigits : 0 < digits) (h : x.magnitude ≤ 10 ^ greatestExponent) :
    ∃ y, x.roundTo digits = .ok y := by
  by_cases hzero : x.coefficient = 0
  · exact ⟨_, if_pos hzero⟩
  obtain ⟨z, hz⟩ := exists_correctlyRounded hdigits x
  have hle : z ≤ 10 ^ greatestExponent :=
    hz.le_pow_of_le hdigits (leastExponent_le_greatestExponent digits) x.cast_magnitude_nonneg
      (cast_magnitude_le_pow.mpr h)
  exact exists_roundTo_of_lt hdigits hz (hle.trans_lt (zpow_lt_zpow_right₀ (by norm_num) (by omega)))

end Decimal
end BondingCurve
