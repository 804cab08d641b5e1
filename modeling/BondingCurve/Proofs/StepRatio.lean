import BondingCurve.Design.Boundaries
import BondingCurve.Proofs.Enclosures
import BondingCurve.Proofs.RoundedOperations
import Mathlib.Analysis.Complex.ExponentialBounds

/-!
# The ratio of a step

The ratio of `n` equal steps from one price to another is the `n`-th root of their quotient, found as the exponential
of a fraction of a logarithm.  It is compared with the exact ratio by logarithms (`Decimal.LogBounded`), which turn the
relative error of each rounding into a summand.

* (roundings) One rounding adds at most a unit of the last digit to a logarithm (`CorrectlyRounded.log_le`), and takes
  no number below one (`CorrectlyRounded.one_le`).
* (powers) A fractional power is a logarithm, a product, an exponential and a last rounding, so four roundings, and
  its exponent `1 / n` is rounded too (`Decimal.fractionPower_spec`, `Decimal.root_spec`).
* (ratio) The ratio exists and is at least one, and its logarithm exceeds that of the exact one by at most `10 ^ (-55)`
  (`stepRatio_spec`).
-/

namespace BondingCurve

/-! ### Logarithms of rounded numbers -/

namespace CorrectlyRounded

variable {digits : ℕ} {q z : ℝ}

theorem one_le (hdigits : 0 < digits) (hq : 1 ≤ q) (h : CorrectlyRounded digits q z) : 1 ≤ z := by
  have hone := h.pow_le_of_le (k := 0) hdigits (leastExponent_le_natCast digits 0) (by rwa [zpow_zero])
  rwa [zpow_zero] at hone

theorem log_le (hdigits : precision ≤ digits) (hq : 1 ≤ q) (h : CorrectlyRounded digits q z) :
    Real.log z ≤ Real.log q + 1 / 10 ^ 59 := by
  have hq_pos : 0 < q := by linarith
  have hz_pos : 0 < z := by linarith [h.one_le (lt_of_lt_of_le (by decide) hdigits) hq]
  have hgrown : z ≤ q * (1 + 1 / 10 ^ 59) := by
    have := (abs_le.mp (h.abs_sub_le_tiny hdigits hq_pos.le)).2
    linarith
  have hfactor : Real.log (1 + 1 / 10 ^ 59) ≤ 1 / 10 ^ 59 := by
    have := Real.log_le_sub_one_of_pos (show (0 : ℝ) < 1 + 1 / 10 ^ 59 by norm_num)
    linarith
  calc Real.log z ≤ Real.log (q * (1 + 1 / 10 ^ 59)) := Real.log_le_log hz_pos hgrown
    _ = Real.log q + Real.log (1 + 1 / 10 ^ 59) := Real.log_mul hq_pos.ne' (by norm_num)
    _ ≤ Real.log q + 1 / 10 ^ 59 := by linarith

end CorrectlyRounded

private theorem exp_le_greatest {b : ℝ} (hb : b ≤ 100) : Real.exp b ≤ 10 ^ greatestExponent :=
  calc Real.exp b ≤ Real.exp ((100 : ℕ) * 1) := Real.exp_le_exp.mpr (by simpa using hb)
    _ = Real.exp 1 ^ 100 := Real.exp_nat_mul 1 100
    _ ≤ 10 ^ 100 := pow_le_pow_left₀ (Real.exp_pos 1).le (by linarith [Real.exp_one_lt_three]) 100
    _ ≤ 10 ^ greatestExponent := pow_hundred_le

namespace Decimal

variable {x y : Decimal} {b c : ℝ} {digits n : ℕ}

/-- A number from one on, with a bound on its logarithm. -/
structure LogBounded (x : Decimal) (b : ℝ) : Prop where
  negative_eq : x.negative = false
  one_le : (1 : ℝ) ≤ (x.magnitude : ℚ)
  log_le : Real.log (x.magnitude : ℚ) ≤ b

namespace LogBounded

theorem mono (h : LogBounded x b) (hle : b ≤ c) : LogBounded x c :=
  ⟨h.negative_eq, h.one_le, h.log_le.trans hle⟩

theorem nonneg (h : LogBounded x b) : 0 ≤ b :=
  (Real.log_nonneg h.one_le).trans h.log_le

theorem coefficient_ne_zero (h : LogBounded x b) : x.coefficient ≠ 0 := by
  have hpos : 0 < x.magnitude := by exact_mod_cast one_pos.trans_le h.one_le
  exact Decimal.coefficient_ne_zero hpos

private theorem magnitude_le (h : LogBounded x b) (hb : b ≤ 100) : x.magnitude ≤ 10 ^ greatestExponent := by
  have hpos : (0 : ℝ) < (x.magnitude : ℚ) := one_pos.trans_le h.one_le
  apply cast_magnitude_le_pow.mp
  rw [← Real.exp_log hpos]
  exact exp_le_greatest (h.log_le.trans hb)

private theorem of_rounded {q : ℝ} (hdigits : precision ≤ digits) (hsign : x.negative = false) (hq : 1 ≤ q)
    (hlog : Real.log q ≤ b) (h : CorrectlyRounded digits q (x.magnitude : ℚ)) : LogBounded x (b + 1 / 10 ^ 59) :=
  ⟨hsign, h.one_le (lt_of_lt_of_le (by decide) hdigits) hq, (h.log_le hdigits hq).trans (by linarith)⟩

theorem exists_round (h : LogBounded x b) (hb : b ≤ 100) :
    ∃ y, x.round = .ok y ∧ LogBounded y (b + 1 / 10 ^ 59) := by
  obtain ⟨y, hy⟩ : ∃ y, x.round = .ok y := exists_roundTo (by decide) (h.magnitude_le hb)
  have hrounded := correctlyRounded_of_roundTo (by decide) hy
  exact ⟨y, hy, .of_rounded le_rfl ((negative_of_round hy).trans h.negative_eq) h.one_le h.log_le hrounded⟩

end LogBounded

/-! ### Fractional powers -/

/-- The logarithm times a factor up to one. -/
private theorem exists_scaledLogarithm (hx : LogBounded x b) (hb : b ≤ 80) (hy : y.negative = false)
    (hy_le : ((y.magnitude : ℚ) : ℝ) ≤ 1) (hdigits : precision ≤ digits) :
    ∃ logarithm scaled, x.logarithmTo digits = .ok logarithm ∧ (exactMul logarithm y).roundTo digits = .ok scaled ∧
      scaled.negative = false ∧ ((scaled.magnitude : ℚ) : ℝ) ≤ b * (y.magnitude : ℚ) + 2 / 10 ^ 57 := by
  have hdigits_pos : 0 < digits := lt_of_lt_of_le (by decide) hdigits
  have hy_nonneg := y.cast_magnitude_nonneg
  obtain ⟨logarithm, t, hlogarithm, hsign, ht_nonneg, ht_le, ht⟩ :=
    logarithmTo_spec hdigits_pos (by exact_mod_cast hx.one_le) (hx.magnitude_le (by linarith))
  have hlogarithm_le : ((logarithm.magnitude : ℚ) : ℝ) ≤ b + 1 / 10 ^ 57 := by
    have ht_le_b := ht_le.trans hx.log_le
    have := (abs_le.mp (ht.abs_sub_le_tiny hdigits ht_nonneg)).2
    linarith
  have hproduct_nonneg := mul_nonneg logarithm.cast_magnitude_nonneg hy_nonneg
  have hproduct_le : ((logarithm.magnitude : ℚ) : ℝ) * (y.magnitude : ℚ) ≤ b * (y.magnitude : ℚ) + 1 / 10 ^ 57 := by
    have := mul_le_mul_of_nonneg_right hlogarithm_le hy_nonneg
    linarith
  have hscaled_le : b * (y.magnitude : ℚ) ≤ 80 := (mul_le_of_le_one_right hx.nonneg hy_le).trans hb
  have hmagnitude : (((exactMul logarithm y).magnitude : ℚ) : ℝ) = (logarithm.magnitude : ℚ) * (y.magnitude : ℚ) := by
    rw [magnitude_exactMul, Rat.cast_mul]
  obtain ⟨scaled, hscaled⟩ : ∃ scaled, (exactMul logarithm y).roundTo digits = .ok scaled := by
    apply exists_roundTo hdigits_pos
    rw [← cast_magnitude_le_pow, hmagnitude]
    linarith [pow_hundred_le]
  have hrounded := correctlyRounded_of_roundTo hdigits_pos hscaled
  rw [hmagnitude] at hrounded
  refine ⟨logarithm, scaled, hlogarithm, hscaled, ?_, ?_⟩
  · rw [(roundTo_spec hdigits_pos hscaled).1]
    simp [exactMul, hsign, hy]
  · have := (abs_le.mp (hrounded.abs_sub_le_tiny hdigits hproduct_nonneg)).2
    linarith

theorem fractionPower_spec (hx : LogBounded x b) (hb : b ≤ 80) (hy : y.negative = false)
    (hy_le : ((y.magnitude : ℚ) : ℝ) ≤ 1) :
    ∃ z, fractionPower x y = .ok z ∧ LogBounded z (b * (y.magnitude : ℚ) + 3 / 10 ^ 57) := by
  have hnonneg := mul_nonneg hx.nonneg y.cast_magnitude_nonneg
  have hscaled_le : b * (y.magnitude : ℚ) ≤ 80 := (mul_le_of_le_one_right hx.nonneg hy_le).trans hb
  unfold fractionPower
  by_cases hsame : x.sameNumber (ofInt 1) = true
  · rw [if_pos hsame]
    have hone : magnitude ⟨false, Nat.pow 10 (precision - 1), 1 - precision⟩ = 1 := by
      norm_num [magnitude, precision]
    refine ⟨_, rfl, rfl, ?_, ?_⟩
    · rw [hone, Rat.cast_one]
    · rw [hone, Rat.cast_one, Real.log_one]
      linarith
  · rw [if_neg hsame]
    have hdigits : precision ≤ fractionPowerDigits := by decide
    have hdigits_pos : 0 < fractionPowerDigits := by decide
    obtain ⟨logarithm, scaled, hlogarithm, hscaled, hsign, hle⟩ := exists_scaledLogarithm hx hb hy hy_le hdigits
    obtain ⟨power, t, hpower, hpower_sign, ht_one, ht_le, ht⟩ :=
      exponentialTo_spec hdigits_pos hsign (exp_le_greatest (by linarith))
    have hlog_t : Real.log t ≤ b * (y.magnitude : ℚ) + 2 / 10 ^ 57 :=
      ((Real.log_le_iff_le_exp (one_pos.trans_le ht_one)).mpr ht_le).trans hle
    have hpower_log := LogBounded.of_rounded hdigits hpower_sign ht_one hlog_t ht
    obtain ⟨z, hz, hz_log⟩ := hpower_log.exists_round (by linarith)
    refine ⟨z, ?_, hz_log.mono (by linarith)⟩
    rw [hlogarithm, ok_bind, hscaled, ok_bind, hpower, ok_bind, hz]

/-! ### Roots -/

private theorem exists_reciprocal (hn : 0 < n) :
    ∃ y, div ⟨false, 1, 0⟩ ⟨false, n, 0⟩ = .ok y ∧ y.negative = false ∧
      ((y.magnitude : ℚ) : ℝ) ≤ 1 / n + 1 / 10 ^ 59 := by
  have hn' : (1 : ℚ) ≤ n := by exact_mod_cast hn
  have hone : magnitude ⟨false, 1, 0⟩ = 1 := by norm_num [magnitude]
  have hdivisor : magnitude ⟨false, n, 0⟩ = n := by simp [magnitude]
  have hquotient : (1 : ℚ) / n ≤ 1 := div_le_self zero_le_one hn'
  have hfits : 2 * (magnitude ⟨false, 1, 0⟩ / magnitude ⟨false, n, 0⟩) ≤ 10 ^ greatestExponent := by
    have hgreatest : (10 : ℚ) ^ (1 : ℤ) ≤ 10 ^ greatestExponent := ten_zpow_le (by decide)
    rw [hone, hdivisor]
    linarith
  obtain ⟨y, hy⟩ := exists_div (by simp) (by simpa using hn.ne') hfits
  obtain ⟨-, hsign, hrounded⟩ := correctlyRounded_div hy
  rw [hone, hdivisor, Rat.cast_one, Rat.cast_natCast] at hrounded
  have hquotient' : (1 : ℝ) / n ≤ 1 := div_le_self zero_le_one (by exact_mod_cast hn)
  have hle := (abs_le.mp (hrounded.abs_sub_le_tiny le_rfl (by positivity))).2
  exact ⟨y, hy, by simpa using hsign, by linarith⟩

theorem root_spec (hn : 0 < n) (hx : LogBounded x b) (hb : b ≤ 80) :
    ∃ z, x.root n = .ok z ∧ LogBounded z (b / n + 4 / 10 ^ 57) := by
  obtain ⟨y, hy, hy_sign, hy_le⟩ := exists_reciprocal hn
  have hne := hx.coefficient_ne_zero
  rw [root, hy, ok_bind]
  by_cases hone : n = 1
  · -- The first power of a number is its rounding.
    subst hone
    obtain ⟨z, hz, hz_log⟩ := hx.exists_round (by linarith)
    refine ⟨z, ?_, hz_log.mono (by rw [Nat.cast_one, div_one]; linarith)⟩
    rw [if_pos rfl, power, if_neg hne, powerTo, ok_bind, hz]
  · have htwo : (2 : ℝ) ≤ n := by
      have : 2 ≤ n := by omega
      exact_mod_cast this
    have hhalf : (1 : ℝ) / n ≤ 1 / 2 := one_div_le_one_div_of_le (by norm_num) htwo
    obtain ⟨z, hz, hz_log⟩ := fractionPower_spec hx hb hy_sign (by linarith)
    refine ⟨z, ?_, hz_log.mono ?_⟩
    · rw [if_neg hone, if_neg hne, hx.negative_eq, if_neg Bool.false_ne_true, hz]
    · have hmul := mul_le_mul_of_nonneg_left hy_le hx.nonneg
      rw [mul_add, mul_one_div] at hmul
      linarith

end Decimal

/-! ### The ratio of prices -/

section Ratio

variable {low high : ℤ} {n : ℕ}

/-- The logarithm of the quotient of two sqrt prices. -/
private theorem log_quotient_le (hlow : IsSqrtPrice low) (hhigh : IsSqrtPrice high) :
    Real.log ((high : ℝ) / low) ≤ 70 := by
  have hlow_one : (1 : ℝ) ≤ low := by exact_mod_cast hlow.pos
  have hhigh_pos : (0 : ℝ) < high := by exact_mod_cast hhigh.pos
  have hhigh_le : (high : ℝ) ≤ 2 ^ 97 := by
    have hmax : high ≤ 2 ^ 97 := hhigh.2.trans (by decide)
    exact_mod_cast hmax
  calc Real.log ((high : ℝ) / low) ≤ Real.log (2 ^ 97) :=
        Real.log_le_log (by positivity) ((div_le_self hhigh_pos.le hlow_one).trans hhigh_le)
    _ = 97 * Real.log 2 := by
        rw [Real.log_pow]
        norm_num
    _ ≤ 70 := by linarith [Real.log_two_lt_d9]

theorem stepRatio_spec (hlow : IsSqrtPrice low) (hhigh : IsSqrtPrice high) (hlt : low < high) (hn : 0 < n) :
    ∃ ratio, stepRatio low high n = .ok ratio ∧
      ratio.LogBounded (Real.log ((high : ℝ) / low) / n + 1 / 10 ^ 55) := by
  have hlow_pos := hlow.pos
  have hhigh_pos := hhigh.pos
  have hlow_eq := Decimal.magnitude_ofInt hlow_pos.le
  have hhigh_eq := Decimal.magnitude_ofInt hhigh_pos.le
  have hlow_one : (1 : ℚ) ≤ low := by exact_mod_cast hlow_pos
  have hfits : 2 * ((Decimal.ofInt high).magnitude / (Decimal.ofInt low).magnitude) ≤ 10 ^ greatestExponent := by
    have hmax : (high : ℚ) ≤ 10 ^ (30 : ℤ) := by
      have : high ≤ 10 ^ 30 := hhigh.2.trans (by decide)
      exact_mod_cast this
    have hgreatest : (10 : ℚ) ^ (31 : ℤ) ≤ 10 ^ greatestExponent := ten_zpow_le (by decide)
    have hquotient : (high : ℚ) / low ≤ high := div_le_self (by exact_mod_cast hhigh_pos.le) hlow_one
    rw [hlow_eq, hhigh_eq]
    norm_num at hmax hgreatest ⊢
    linarith
  obtain ⟨whole, hwhole⟩ := Decimal.exists_div (Decimal.coefficient_ne_zero (by rw [hhigh_eq]; exact_mod_cast hhigh_pos))
    (Decimal.coefficient_ne_zero (by rw [hlow_eq]; exact_mod_cast hlow_pos)) hfits
  obtain ⟨-, hsign, hrounded⟩ := Decimal.correctlyRounded_div hwhole
  rw [hlow_eq, hhigh_eq, Rat.cast_intCast, Rat.cast_intCast] at hrounded
  have hone : (1 : ℝ) ≤ high / low := by
    rw [one_le_div (by exact_mod_cast hlow_pos)]
    exact_mod_cast hlt.le
  have hwhole_sign : whole.negative = false := by
    rw [hsign, Decimal.negative_ofInt hlow_pos.le, Decimal.negative_ofInt hhigh_pos.le, bne_self_eq_false]
  have hwhole_log := Decimal.LogBounded.of_rounded le_rfl hwhole_sign hone le_rfl hrounded
  have hlog_le := log_quotient_le hlow hhigh
  obtain ⟨ratio, hratio, hratio_log⟩ := Decimal.root_spec hn hwhole_log (by linarith)
  refine ⟨ratio, ?_, hratio_log.mono ?_⟩
  · rw [stepRatio, hwhole, ok_bind, hratio]
  · have hn' : (1 : ℝ) ≤ n := by exact_mod_cast hn
    have hpart : (1 : ℝ) / 10 ^ 59 / n ≤ 1 / 10 ^ 59 := div_le_self (by norm_num) hn'
    rw [add_div]
    linarith

end Ratio

end BondingCurve
