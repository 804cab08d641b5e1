import BondingCurve.Proofs.DecimalValue
import Mathlib.Algebra.Order.Ring.Pow
import Mathlib.Data.Nat.Cast.Field
import Mathlib.Data.Nat.Cast.Order.Field

/-!
# Errors of decimal arithmetic

Sum, difference, product and quotient are within a unit of the last digit of the exact result (`Decimal.Rounds`).  So
far from the least exponent they have a small relative error, and relative errors add up along a computation
(`Near`): `Near n a b` says that `n` roundings lie between `a` and `b`.

* (operations) `Decimal.rounds_add`, `rounds_sub`, `rounds_mul`, `rounds_div`.
* (propagation) Closeness goes through sums, products with an exact number and quotients (`Near.add`, `Near.mul_left`,
  `Near.div`), and one more rounding costs one step (`Near.round`).
-/

namespace BondingCurve

namespace Decimal

variable {x y z : Decimal} {q : ℚ}

/-! ### Operations -/

theorem unit_precision : unit precision = 1 / 10 ^ 59 := by norm_num [unit, precision]

/-- A result that is within a unit of its last digit of the exact number. -/
def Rounds (z : Decimal) (q : ℚ) : Prop := |z.value - q| ≤ unit precision * (|q| + leastNormal)

theorem round_spec (h : x.round = .ok z) :
    z.negative = x.negative ∧ |z.value - x.value| ≤ unit precision * (x.magnitude + leastNormal) / 2 ∧
      z.value < 10 ^ (greatestExponent + 1) := by
  obtain ⟨hsign, hnear, hfits⟩ := roundTo_spec (by decide) h
  rw [abs_value_sub_of_negative_eq hsign]
  refine ⟨hsign, hnear, ?_⟩
  rw [← z.abs_value] at hfits
  exact (le_abs_self _).trans_lt hfits

theorem rounds_of_round (h : x.round = .ok z) : z.Rounds x.value := by
  obtain ⟨-, hnear, -⟩ := round_spec h
  have hnonneg := mul_nonneg (unit_pos precision).le (add_nonneg x.magnitude_nonneg leastNormal_pos.le)
  rw [Rounds, x.abs_value]
  linarith

theorem rounds_add (h : x.add y = .ok z) : z.Rounds (x.value + y.value) := by
  rw [← value_exactAdd]
  exact rounds_of_round h

theorem rounds_sub (h : x.sub y = .ok z) : z.Rounds (x.value - y.value) := by
  rw [sub_eq_add_neg, ← value_neg]
  exact rounds_add h

theorem rounds_mul (h : x.mul y = .ok z) : z.Rounds (x.value * y.value) := by
  rw [← value_exactMul]
  exact rounds_of_round h

/-! ### Quotients -/

theorem magnitude_between (negative : Bool) (c : Nat) (e : Int) :
    (between negative c e).magnitude = (c + 1 / 10) * 10 ^ e := by
  have hten : (10 : ℚ) ^ e = 10 ^ (e - 1) * 10 := by rw [← zpow_add_one₀ (by norm_num), sub_add_cancel]
  rw [magnitude, between, hten]
  push_cast
  ring

/-- The dividend and divisor of a long division with a number of places. -/
private theorem magnitude_div_magnitude (hy : y.coefficient ≠ 0) (shift : Int) :
    x.magnitude / y.magnitude =
      ((x.coefficient * Nat.pow 10 shift.toNat : Nat) : ℚ) / ((y.coefficient * Nat.pow 10 (-shift).toNat : Nat) : ℚ) *
        10 ^ (x.exponent - y.exponent - shift) := by
  have hyc : (y.coefficient : ℚ) ≠ 0 := by exact_mod_cast hy
  have hten : (10 : ℚ) ≠ 0 := by norm_num
  have hshift : (10 : ℚ) ^ shift * 10 ^ (-shift).toNat = 10 ^ shift.toNat := by
    rw [← zpow_natCast, ← zpow_natCast, ← zpow_add₀ hten]
    congr 1
    omega
  rw [zpow_sub₀ hten, zpow_sub₀ hten, magnitude, magnitude]
  push_cast
  simp only [Nat.pow_eq, Nat.cast_pow, Nat.cast_ofNat]
  rw [← hshift]
  field_simp

/-- A long division goes on until the quotient has more digits than the format. -/
private theorem pow_precision_le_quotient (hx : x.coefficient ≠ 0) (hy : y.coefficient ≠ 0) :
    let shift : Int := y.digits - x.digits + precision + 1
    (10 : ℚ) ^ precision ≤
      ((x.coefficient * Nat.pow 10 shift.toNat : Nat) : ℚ) / ((y.coefficient * Nat.pow 10 (-shift).toNat : Nat) : ℚ) := by
  intro shift
  have hpos : 0 < x.digits := digitCount_pos _
  have hdivisor : 0 < y.coefficient * Nat.pow 10 (-shift).toNat :=
    Nat.mul_pos (Nat.pos_of_ne_zero hy) (Nat.pow_pos (by decide))
  have hle : 10 ^ precision * (y.coefficient * Nat.pow 10 (-shift).toNat) ≤ x.coefficient * Nat.pow 10 shift.toNat :=
    calc 10 ^ precision * (y.coefficient * Nat.pow 10 (-shift).toNat)
        ≤ 10 ^ precision * (10 ^ y.digits * 10 ^ (-shift).toNat) :=
          Nat.mul_le_mul_left _ (Nat.mul_le_mul_right _ (lt_pow_digitCount _).le)
      _ = 10 ^ (x.digits - 1) * 10 ^ shift.toNat := by
          rw [← pow_add, ← pow_add, ← pow_add]
          congr 1
          omega
      _ ≤ x.coefficient * Nat.pow 10 shift.toNat := Nat.mul_le_mul_right _ (pow_digitCount_le hx)
  rw [le_div_iff₀ (by exact_mod_cast hdivisor)]
  exact_mod_cast hle

/-- A quotient is rounded itself, or from a digit that stands for the rest beyond the digits of the format. -/
theorem divNonzero_eq_round (hx : x.coefficient ≠ 0) (hy : y.coefficient ≠ 0) :
    ∃ w : Decimal, x.divNonzero y = w.round ∧ w.negative = (x.negative != y.negative) ∧
      (w.magnitude = x.magnitude / y.magnitude ∨ ∃ (c : Nat) (t : ℚ) (e : Int), w.magnitude = (c + 1 / 10) * 10 ^ e ∧
        x.magnitude / y.magnitude = t * 10 ^ e ∧ 10 ^ precision ≤ c ∧ c < t ∧ t < c + 1) := by
  have hquotient := magnitude_div_magnitude (x := x) hy (y.digits - x.digits + precision + 1)
  have hlong := pow_precision_le_quotient hx hy
  unfold divNonzero
  dsimp only at hlong ⊢
  have hdivisor : 0 < y.coefficient * Nat.pow 10 (-(y.digits - x.digits + precision + 1 : Int)).toNat :=
    Nat.mul_pos (Nat.pos_of_ne_zero hy) (Nat.pow_pos (by decide))
  generalize x.coefficient * Nat.pow 10 (y.digits - x.digits + precision + 1 : Int).toNat = n at *
  generalize y.coefficient * Nat.pow 10 (-(y.digits - x.digits + precision + 1 : Int)).toNat = d at *
  generalize x.exponent - y.exponent - (y.digits - x.digits + precision + 1 : Int) = e at *
  have hd : (0 : ℚ) < d := by exact_mod_cast hdivisor
  by_cases hends : n % d = 0
  · rw [if_pos hends]
    refine ⟨_, rfl, rfl, .inl ?_⟩
    have hexact : ((n / d : Nat) : ℚ) = n / d := Nat.cast_div (Nat.dvd_of_mod_eq_zero hends) hd.ne'
    rw [magnitude_reduceTowards, magnitude, hexact, hquotient]
  · rw [if_neg hends]
    refine ⟨_, rfl, rfl, .inr ⟨n / d, n / d, e, magnitude_between _ _ _, hquotient, ?_, ?_, ?_⟩⟩
    · rw [le_div_iff₀ hd] at hlong
      rw [Nat.le_div_iff_mul_le hdivisor]
      exact_mod_cast hlong
    · -- The rest of the division is positive.
      rw [lt_div_iff₀ hd]
      have hrest : n / d * d < n := by
        have := Nat.div_add_mod' n d
        omega
      exact_mod_cast hrest
    · rw [div_lt_iff₀ hd]
      exact_mod_cast Nat.lt_mul_of_div_lt (Nat.lt_succ_self (n / d)) hdivisor

/-- What is rounded to get a quotient differs from the quotient only beyond the digits of the format. -/
private theorem exists_round_of_div (hx : x.coefficient ≠ 0) (hy : y.coefficient ≠ 0) (h : x.divNonzero y = .ok z) :
    ∃ w : Decimal, w.round = .ok z ∧ w.negative = (x.negative != y.negative) ∧
      |w.magnitude - x.magnitude / y.magnitude| ≤ unit precision / 10 * (x.magnitude / y.magnitude) := by
  obtain ⟨w, hw, hsign, hmagnitude⟩ := divNonzero_eq_round hx hy
  rw [hw] at h
  refine ⟨w, h, hsign, ?_⟩
  have hunit := unit_pos precision
  have hnonneg := div_nonneg x.magnitude_nonneg y.magnitude_nonneg
  rcases hmagnitude with hexact | ⟨c, t, e, hw_eq, hquotient, hlong, hlow, hhigh⟩
  · rw [hexact, sub_self, abs_zero]
    positivity
  · have hpower : (0 : ℚ) < 10 ^ e := zpow_pos (by norm_num) e
    have hlong' : (10 : ℚ) ^ precision ≤ c := by exact_mod_cast hlong
    -- The digit that stands for the rest is at most one unit away from it.
    have hdigit : |(c : ℚ) + 1 / 10 - t| ≤ 1 := by
      rw [abs_le]
      constructor <;> linarith
    have hrelative : 1 ≤ unit precision / 10 * t :=
      calc 1 = unit precision / 10 * 10 ^ precision := by
            rw [unit_precision]
            norm_num [precision]
        _ ≤ unit precision / 10 * t := mul_le_mul_of_nonneg_left (by linarith) (by positivity)
    rw [hw_eq, hquotient, ← sub_mul, abs_mul, abs_of_pos hpower, ← mul_assoc]
    exact mul_le_mul_of_nonneg_right (hdigit.trans hrelative) hpower.le

private theorem abs_value_sub_div {w : Decimal} (h : w.negative = (x.negative != y.negative)) :
    |w.value - x.value / y.value| = |w.magnitude - x.magnitude / y.magnitude| := by
  unfold value
  rw [h]
  cases x.negative <;> cases y.negative <;> simp [div_neg, neg_div, abs_sub_comm, neg_add_eq_sub]

theorem rounds_div (h : x.div y = .ok z) : z.Rounds (x.value / y.value) := by
  unfold div at h
  by_cases hy : y.coefficient = 0
  · rw [if_pos hy] at h
    split at h <;> cases h
  rw [if_neg hy] at h
  by_cases hx : x.coefficient = 0
  · rw [if_pos hx] at h
    have hzero : x.value = 0 := value_eq_zero_iff.mpr hx
    have hz := rounds_of_round h
    rwa [show value ⟨x.negative != y.negative, 0, x.exponent - y.exponent⟩ = 0 by simp [value, magnitude],
      ← zero_div y.value, ← hzero] at hz
  rw [if_neg hx] at h
  obtain ⟨w, hw, hsign, hnear⟩ := exists_round_of_div hx hy h
  obtain ⟨-, hrounded, -⟩ := round_spec hw
  have habs : |x.value / y.value| = x.magnitude / y.magnitude := by rw [abs_div, x.abs_value, y.abs_value]
  have hunit := unit_pos precision
  have hsmall : unit precision ≤ 1 := by norm_num [unit_precision]
  have hquotient : 0 ≤ x.magnitude / y.magnitude := div_nonneg x.magnitude_nonneg y.magnitude_nonneg
  -- The rounding error is relative to the rounded number, which is itself close to the quotient.
  have hw_le : w.magnitude ≤ 11 / 10 * (x.magnitude / y.magnitude) := by
    have h₁ := (abs_le.mp hnear).2
    have h₂ : unit precision / 10 * (x.magnitude / y.magnitude) ≤ 1 / 10 * (x.magnitude / y.magnitude) :=
      mul_le_mul_of_nonneg_right (by linarith) hquotient
    linarith
  have hw_mul := mul_le_mul_of_nonneg_left hw_le hunit.le
  have hleast := mul_pos hunit leastNormal_pos
  have hmul := mul_nonneg hunit.le hquotient
  rw [Rounds, habs]
  calc |z.value - x.value / y.value| ≤ |z.value - w.value| + |w.value - x.value / y.value| := abs_sub_le _ _ _
    _ ≤ unit precision * (w.magnitude + leastNormal) / 2 + unit precision / 10 * (x.magnitude / y.magnitude) := by
      rw [abs_value_sub_div hsign]
      exact add_le_add hrounded hnear
    _ ≤ unit precision * (x.magnitude / y.magnitude + leastNormal) := by linarith

/-! ### Signs -/

private theorem negative_of_roundTo {digits : Nat} (hdigits : 0 < digits) (h : x.roundTo digits = .ok y)
    (hx : x.negative = false) : y.negative = false := by
  rw [(roundTo_spec hdigits h).1, hx]

theorem negative_of_powerTo {digits n : Nat} (hdigits : 0 < digits) (hx : x.negative = false)
    (h : powerTo digits x n = .ok y) : y.negative = false := by
  -- The recursion halves the exponent.
  induction n using Nat.strong_induction_on generalizing y with
  | _ n ih =>
    match n with
    | 0 =>
      rw [powerTo] at h
      obtain ⟨⟩ := h
      rfl
    | 1 =>
      rw [powerTo] at h
      obtain ⟨⟩ := h
      exact hx
    | n + 2 =>
      simp only [powerTo, bind_eq_ok_iff] at h
      obtain ⟨half, hhalf, square, hsquare, h⟩ := h
      have hsquare_sign : square.negative = false := negative_of_roundTo hdigits hsquare (by simp [exactMul])
      by_cases heven : n % 2 = 0
      · rw [if_pos heven] at h
        obtain ⟨⟩ := h
        exact hsquare_sign
      · rw [if_neg heven] at h
        exact negative_of_roundTo hdigits h (by simp [exactMul, hsquare_sign, hx])

theorem sign_of_isPositive (h : x.isPositive = true) : x.negative = false ∧ x.coefficient ≠ 0 := by
  simpa [isPositive] using h

theorem negative_of_power {n : Nat} (hx : x.isPositive = true) (h : x.power n = .ok y) : y.negative = false := by
  obtain ⟨hsign, hne⟩ := sign_of_isPositive hx
  simp only [power, if_neg hne, bind_eq_ok_iff] at h
  obtain ⟨w, hw, hround⟩ := h
  exact negative_of_roundTo (by decide) hround (negative_of_powerTo (powerDigits_pos n) hsign hw)

theorem power_nonneg {n : Nat} (hx : x.isPositive = true) (h : x.power n = .ok y) : 0 ≤ y.value :=
  value_nonneg (negative_of_power hx h)

theorem power_zero (hx : x.isPositive = true) : x.power 0 = .ok ⟨false, 1, 0⟩ := by
  obtain ⟨-, hne⟩ := sign_of_isPositive hx
  have hone : round ⟨false, 1, 0⟩ = .ok ⟨false, 1, 0⟩ := roundTo_of_fits (by decide)
  simp only [power, if_neg hne, powerTo, ok_bind]
  exact hone

end Decimal

theorem isPositive_of_positiveDecimal {name : String} {x : Scalar} {k : Decimal}
    (h : positiveDecimal name x = .ok k) : k.isPositive = true := by
  simp only [positiveDecimal, bind_eq_ok_iff] at h
  obtain ⟨numeral, -, h⟩ := h
  unfold positiveNumeral at h
  split at h
  · split at h
    · obtain ⟨⟩ := h
      assumption
    · cases h
  · cases h

/-! ### Closeness -/

open Decimal (leastNormal leastNormal_pos)

/-- What a rounding keeps of a number at least. -/
def kept : ℚ := 1 - 1 / 10 ^ 57

theorem kept_pos : 0 < kept := by norm_num [kept]

theorem kept_pow_pos (n : Nat) : 0 < kept ^ n :=
  pow_pos kept_pos n

theorem kept_le_one : kept ≤ 1 := by norm_num [kept]

theorem one_sub_le_kept_pow (n : Nat) : 1 - n / 10 ^ 57 ≤ kept ^ n := by
  have h := one_add_mul_le_pow (by norm_num : (-2 : ℚ) ≤ -(1 / 10 ^ 57)) n
  rw [← sub_eq_add_neg] at h
  refine le_trans (le_of_eq ?_) h
  ring

/-- Two numbers with at most `n` roundings between them. -/
structure Near (n : Nat) (a b : ℚ) : Prop where
  nonneg : 0 ≤ a
  lower : kept ^ n * a ≤ b
  upper : kept ^ n * b ≤ a

namespace Near

variable {n m : Nat} {a b c d : ℚ}

theorem nonneg_right (h : Near n a b) : 0 ≤ b :=
  (mul_nonneg (kept_pow_pos n).le h.nonneg).trans h.lower

theorem pos_right (h : Near n a b) (ha : 0 < a) : 0 < b :=
  (mul_pos (kept_pow_pos n) ha).trans_le h.lower

theorem refl (h : 0 ≤ a) : Near 0 a a :=
  ⟨h, by simp, by simp⟩

theorem mono (hnm : n ≤ m) (h : Near n a b) : Near m a b := by
  have hpow : kept ^ m ≤ kept ^ n := pow_le_pow_of_le_one kept_pos.le kept_le_one hnm
  exact ⟨h.nonneg, (mul_le_mul_of_nonneg_right hpow h.nonneg).trans h.lower,
    (mul_le_mul_of_nonneg_right hpow h.nonneg_right).trans h.upper⟩

theorem trans (h : Near n a b) (h' : Near m b c) : Near (n + m) a c := by
  refine ⟨h.nonneg, ?_, ?_⟩
  · calc kept ^ (n + m) * a = kept ^ m * (kept ^ n * a) := by ring
      _ ≤ kept ^ m * b := mul_le_mul_of_nonneg_left h.lower (kept_pow_pos m).le
      _ ≤ c := h'.lower
  · calc kept ^ (n + m) * c = kept ^ n * (kept ^ m * c) := by ring
      _ ≤ kept ^ n * b := mul_le_mul_of_nonneg_left h'.upper (kept_pow_pos n).le
      _ ≤ a := h.upper

theorem add (h : Near n a b) (h' : Near n c d) : Near n (a + c) (b + d) := by
  refine ⟨add_nonneg h.nonneg h'.nonneg, ?_, ?_⟩
  · rw [mul_add]
    exact add_le_add h.lower h'.lower
  · rw [mul_add]
    exact add_le_add h.upper h'.upper

theorem mul_left (hc : 0 ≤ c) (h : Near n a b) : Near n (c * a) (c * b) := by
  refine ⟨mul_nonneg hc h.nonneg, ?_, ?_⟩
  · rw [mul_left_comm]
    exact mul_le_mul_of_nonneg_left h.lower hc
  · rw [mul_left_comm]
    exact mul_le_mul_of_nonneg_left h.upper hc

private theorem inv (ha : 0 < a) (h : Near n a b) : Near n a⁻¹ b⁻¹ := by
  have hb := h.pos_right ha
  refine ⟨(inv_pos.mpr ha).le, ?_, ?_⟩
  · rw [← div_eq_mul_inv, div_le_iff₀ ha, inv_mul_eq_div, le_div_iff₀ hb]
    exact h.upper
  · rw [← div_eq_mul_inv, div_le_iff₀ hb, inv_mul_eq_div, le_div_iff₀ ha]
    exact h.lower

theorem mul (h : Near n a b) (h' : Near m c d) : Near (n + m) (a * c) (b * d) := by
  have hleft : Near m (a * c) (a * d) := h'.mul_left h.nonneg
  have hright : Near n (d * a) (d * b) := h.mul_left h'.nonneg_right
  rw [mul_comm d a, mul_comm d b] at hright
  rw [add_comm]
  exact hleft.trans hright

theorem div (hc : 0 < c) (h : Near n a b) (h' : Near m c d) : Near (n + m) (a / c) (b / d) := by
  rw [div_eq_mul_inv, div_eq_mul_inv]
  exact h.mul (h'.inv hc)

/-- Numbers with a small relative difference are one rounding apart. -/
theorem of_abs_sub_le (ha : 0 ≤ a) (h : |b - a| ≤ a / 10 ^ 57) : Near 1 a b := by
  obtain ⟨hlow, hhigh⟩ := abs_le.mp h
  refine ⟨ha, ?_, ?_⟩
  · rw [pow_one, kept]
    linarith
  · have hsmall : kept * b ≤ kept * (a + a / 10 ^ 57) := mul_le_mul_of_nonneg_left (by linarith) kept_pos.le
    have hkeep : kept * (a + a / 10 ^ 57) ≤ a := by
      rw [kept]
      linarith
    rw [pow_one]
    exact hsmall.trans hkeep

/-- A rounding is one step, for numbers that are not below the least normal one by far. -/
theorem of_rounds {z : Decimal} (ha : leastNormal ≤ 10 * a) (h : z.Rounds a) : Near 1 a z.value := by
  have hnonneg : 0 ≤ a := by linarith [leastNormal_pos]
  rw [Decimal.Rounds, abs_of_nonneg hnonneg, Decimal.unit_precision] at h
  refine of_abs_sub_le hnonneg (h.trans ?_)
  linarith

/-- A few roundings keep a tenth of a number by far. -/
theorem le_ten_mul (hn : n ≤ 40) (h : Near n a b) : a ≤ 10 * b := by
  have hpow : kept ^ 40 ≤ kept ^ n := pow_le_pow_of_le_one kept_pos.le kept_le_one hn
  have hten : 1 / 10 ≤ kept ^ 40 := by norm_num [kept]
  have hpart := mul_le_mul_of_nonneg_right (hten.trans hpow) h.nonneg
  linarith [h.lower]

/-- One more rounding is one more step. -/
theorem round {z : Decimal} (hn : n ≤ 40) (ha : leastNormal ≤ a) (h : Near n a b) (hz : z.Rounds b) :
    Near (n + 1) a z.value :=
  h.trans (of_rounds (ha.trans (h.le_ten_mul hn)) hz)

end Near

end BondingCurve
