import BondingCurve.Decimal.Root
import BondingCurve.Proofs.CorrectRounding
import BondingCurve.Proofs.RoundingError
import Mathlib.Analysis.Real.Sqrt

/-!
# Correctly rounded operations

Sum, product, quotient and square root are the correct roundings of the exact results, rational or not.

* (long results) A quotient or root that does not end is computed to more digits than the format has, and a last digit
  stands for the rest.  That is rounded as the exact number is (`StandsFor.of_between`): a root that is not whole lies
  strictly between its integer part and the next integer.
* (operations) `correctlyRounded_mul`, `correctlyRounded_div`, `correctlyRounded_sqrt`.  There is a result as long as
  the exact one is not near the end of the format (`exists_mul`, `exists_div`, `exists_sqrt`).
* (order) Sums and products of greater numbers are no smaller (`add_mono`, `mul_mono`).
* (exact results) Results with no more digits than the format are exact (`magnitude_of_roundTo_multiple`), among them
  differences and products of integers (`sub_ofInt`, `mul_ofInt`).
* (powers of ten) They are exact at every step, unless they vanish (`tenPower_spec`, `exists_tenPower`).
-/

namespace BondingCurve.Decimal

variable {x y z w : Decimal} {q : ℝ}

/-! ### Long results -/

/-- `w` is rounded as the exact number `q` is, and is not much larger. -/
structure StandsFor (w : Decimal) (q : ℝ) : Prop where
  le : ((w.magnitude : ℚ) : ℝ) ≤ 2 * q
  rounded : ∀ z : ℝ, CorrectlyRounded precision (w.magnitude : ℚ) z → CorrectlyRounded precision q z

namespace StandsFor

theorem of_eq (h : ((w.magnitude : ℚ) : ℝ) = q) : StandsFor w q := by
  refine ⟨?_, fun z hz => by rwa [h] at hz⟩
  linarith [w.cast_magnitude_nonneg]

theorem of_between {c : ℕ} {t : ℝ} {e : ℤ} (h : w.magnitude = (c + 1 / 10) * 10 ^ e) (hc : 10 ^ precision ≤ c)
    (hlow : c < t) (hhigh : t < c + 1) : StandsFor w (t * 10 ^ e) := by
  have he : (0 : ℝ) < 10 ^ e := zpow_pos (by norm_num) e
  have hone : (1 : ℝ) ≤ c := by exact_mod_cast (Nat.one_le_pow _ _ (by norm_num)).trans hc
  have hmagnitude : ((w.magnitude : ℚ) : ℝ) = (c + 1 / 10) * 10 ^ e := by
    rw [h]
    push_cast
    rfl
  constructor
  · rw [hmagnitude, ← mul_assoc]
    exact mul_le_mul_of_nonneg_right (by linarith) he.le
  · intro z hz
    rw [hmagnitude] at hz
    exact hz.of_between hc (by linarith) (by linarith) hlow hhigh

private theorem correctlyRounded (h : StandsFor w q) (hz : w.round = .ok z) :
    CorrectlyRounded precision q (z.magnitude : ℚ) :=
  h.rounded _ (correctlyRounded_of_roundTo (by decide) hz)

theorem exists_round (h : StandsFor w q) (hq : 2 * q ≤ 10 ^ greatestExponent) : ∃ z, w.round = .ok z :=
  exists_roundTo (by decide) (cast_magnitude_le_pow.mp (h.le.trans hq))

end StandsFor

theorem negative_of_round (h : x.round = .ok y) : y.negative = x.negative :=
  (roundTo_spec (by decide) h).1

/-! ### Exact results -/

/-- A number with no more digits than the format is its own rounding. -/
theorem magnitude_of_roundTo_multiple {digits : ℕ} {m k : ℤ} (hdigits : 0 < digits) (hm : 0 ≤ m)
    (hshort : m < 10 ^ digits) (hk : leastExponent digits ≤ k) (hx : x.magnitude = m * 10 ^ k)
    (h : x.roundTo digits = .ok y) : y.magnitude = m * 10 ^ k := by
  have hcast : ((m * 10 ^ k : ℚ) : ℝ) = m * 10 ^ k := by
    push_cast
    rfl
  have hrounded := correctlyRounded_of_roundTo hdigits h
  rw [hx, hcast] at hrounded
  have hexact := hrounded.eq_of_multiple hm hshort hk
  rw [← hcast] at hexact
  exact Rat.cast_injective hexact

private theorem magnitude_of_roundTo_pow {digits : ℕ} {k : ℤ} (hdigits : 0 < digits) (hk : leastExponent digits ≤ k)
    (hx : x.magnitude = 10 ^ k) (h : x.roundTo digits = .ok y) : y.magnitude = 10 ^ k := by
  have hone : (10 : ℚ) ^ k = (1 : ℤ) * 10 ^ k := by rw [Int.cast_one, one_mul]
  rw [hone] at hx ⊢
  exact magnitude_of_roundTo_multiple hdigits (by norm_num) (one_lt_pow₀ (by norm_num) hdigits.ne') hk hx h

private theorem magnitude_of_round_int {m : ℤ} (hm : 0 ≤ m) (hdigits : m < 10 ^ precision) (hx : x.magnitude = m)
    (h : x.round = .ok z) : z.magnitude = m := by
  have hspelled : (m : ℚ) = m * 10 ^ (0 : ℤ) := by rw [zpow_zero, mul_one]
  rw [hspelled] at hx ⊢
  exact magnitude_of_roundTo_multiple (by decide) hm hdigits (by decide) hx h

/-! ### Sum -/

section Sum

variable {x' y' z' : Decimal}

theorem negative_of_add (hx : x.negative = false) (hy : y.negative = false) (h : x.add y = .ok z) :
    z.negative = false := by
  have hnonneg : ¬ x.signedAt (min x.exponent y.exponent) + y.signedAt (min x.exponent y.exponent) < 0 := by
    simp only [signedAt, hx, hy, Bool.false_eq_true, if_false]
    omega
  rw [negative_of_round h]
  simp [exactAdd, hnonneg, hx]

private theorem magnitude_exactAdd (hx : x.negative = false) (hy : y.negative = false) :
    (exactAdd x y).magnitude = x.magnitude + y.magnitude := by
  rw [← abs_value, value_exactAdd, abs_of_nonneg (add_nonneg (value_nonneg hx) (value_nonneg hy)),
    value_of_not_negative hx, value_of_not_negative hy]

theorem add_mono (hx : x.negative = false) (hy : y.negative = false) (hx' : x'.negative = false)
    (hy' : y'.negative = false) (hxx' : x.magnitude ≤ x'.magnitude) (hyy' : y.magnitude ≤ y'.magnitude)
    (h : x.add y = .ok z) (h' : x'.add y' = .ok z') : z.magnitude ≤ z'.magnitude := by
  refine roundTo_mono (by decide) ?_ h h'
  rw [magnitude_exactAdd hx hy, magnitude_exactAdd hx' hy']
  exact add_le_add hxx' hyy'

end Sum

/-! ### Integers -/

theorem negative_ofInt {m : ℤ} (hm : 0 ≤ m) : (ofInt m).negative = false := by
  simpa [ofInt] using hm

theorem magnitude_ofInt {m : ℤ} (hm : 0 ≤ m) : (ofInt m).magnitude = m := by
  rw [← value_of_not_negative (negative_ofInt hm), value_ofInt]

/-- A difference of integers with no more digits than the format is exact. -/
theorem sub_ofInt {m n : ℤ} (hlt : n < m) (hdigits : m - n < 10 ^ precision) (h : (ofInt m).sub (ofInt n) = .ok z) :
    z.negative = false ∧ z.magnitude = m - n := by
  have hvalue : (exactAdd (ofInt m) (ofInt n).neg).value = (m - n : ℤ) := by
    rw [value_exactAdd, value_neg, value_ofInt, value_ofInt, Int.cast_sub, sub_eq_add_neg]
  have hpos : (0 : ℚ) < (m - n : ℤ) := by exact_mod_cast sub_pos.mpr hlt
  have hsign : (exactAdd (ofInt m) (ofInt n).neg).negative = false := by
    by_contra hnegative
    rw [Bool.not_eq_false] at hnegative
    rw [value, if_pos hnegative] at hvalue
    linarith [magnitude_nonneg (exactAdd (ofInt m) (ofInt n).neg)]
  rw [value_of_not_negative hsign] at hvalue
  have hexact := magnitude_of_round_int (by omega) hdigits hvalue h
  rw [Int.cast_sub] at hexact
  exact ⟨(negative_of_round h).trans hsign, hexact⟩

/-- A product of integers with no more digits than the format is exact. -/
theorem mul_ofInt {m n : ℤ} (hm : 0 ≤ m) (hn : 0 ≤ n) (hdigits : m * n < 10 ^ precision)
    (h : (ofInt m).mul (ofInt n) = .ok z) : z.negative = false ∧ z.magnitude = m * n := by
  have hmagnitude : (exactMul (ofInt m) (ofInt n)).magnitude = (m * n : ℤ) := by
    rw [magnitude_exactMul, magnitude_ofInt hm, magnitude_ofInt hn, Int.cast_mul]
  have hexact := magnitude_of_round_int (mul_nonneg hm hn) hdigits hmagnitude h
  rw [Int.cast_mul] at hexact
  refine ⟨(negative_of_round h).trans ?_, hexact⟩
  rw [exactMul, negative_ofInt hm, negative_ofInt hn, bne_self_eq_false]

/-! ### Product -/

theorem correctlyRounded_mul (h : x.mul y = .ok z) :
    z.negative = (x.negative != y.negative) ∧
      CorrectlyRounded precision ((x.magnitude : ℚ) * (y.magnitude : ℚ)) (z.magnitude : ℚ) := by
  refine ⟨negative_of_round h, ?_⟩
  have hrounded := correctlyRounded_of_roundTo (by decide) h
  rwa [magnitude_exactMul, Rat.cast_mul] at hrounded

theorem exists_mul (h : x.magnitude * y.magnitude ≤ 10 ^ greatestExponent) : ∃ z, x.mul y = .ok z := by
  rw [← magnitude_exactMul] at h
  exact exists_roundTo (by decide) h

theorem mul_mono {x' y' z' : Decimal} (hxx' : x.magnitude ≤ x'.magnitude) (hyy' : y.magnitude ≤ y'.magnitude)
    (h : x.mul y = .ok z) (h' : x'.mul y' = .ok z') : z.magnitude ≤ z'.magnitude := by
  refine roundTo_mono (by decide) ?_ h h'
  rw [magnitude_exactMul, magnitude_exactMul]
  exact mul_le_mul hxx' hyy' y.magnitude_nonneg x'.magnitude_nonneg

/-- A product with no more digits than the format is exact. -/
theorem exists_mul_exact {m k : ℤ} (hexact : x.magnitude * y.magnitude = m * 10 ^ k) (hm : 0 ≤ m)
    (hdigits : m < 10 ^ precision) (hk : leastExponent precision ≤ k)
    (hfits : (m : ℚ) * 10 ^ k ≤ 10 ^ greatestExponent) :
    ∃ z, x.mul y = .ok z ∧ z.negative = (x.negative != y.negative) ∧ z.magnitude = m * 10 ^ k := by
  obtain ⟨z, hz⟩ := exists_mul (x := x) (y := y) (by rw [hexact]; exact hfits)
  rw [← magnitude_exactMul] at hexact
  exact ⟨z, hz, negative_of_round hz, magnitude_of_roundTo_multiple (by decide) hm hdigits hk hexact hz⟩

/-! ### Quotient -/

theorem standsFor_quotient (hx : x.coefficient ≠ 0) (hy : y.coefficient ≠ 0) :
    ∃ w : Decimal, x.divNonzero y = w.round ∧ w.negative = (x.negative != y.negative) ∧
      StandsFor w ((x.magnitude : ℚ) / (y.magnitude : ℚ)) := by
  obtain ⟨w, hw, hsign, hmagnitude⟩ := divNonzero_eq_round hx hy
  refine ⟨w, hw, hsign, ?_⟩
  rw [← Rat.cast_div]
  rcases hmagnitude with hexact | ⟨c, t, e, hw_eq, hquotient, hlong, hlow, hhigh⟩
  · exact .of_eq (by rw [hexact])
  · rw [hquotient, Rat.cast_mul, Rat.cast_zpow, Rat.cast_ofNat]
    exact .of_between hw_eq hlong (by exact_mod_cast hlow) (by exact_mod_cast hhigh)

theorem correctlyRounded_div (h : x.div y = .ok z) :
    y.coefficient ≠ 0 ∧ z.negative = (x.negative != y.negative) ∧
      CorrectlyRounded precision ((x.magnitude : ℚ) / (y.magnitude : ℚ)) (z.magnitude : ℚ) := by
  unfold div at h
  by_cases hy : y.coefficient = 0
  · rw [if_pos hy] at h
    split at h <;> cases h
  rw [if_neg hy] at h
  refine ⟨hy, ?_⟩
  by_cases hx : x.coefficient = 0
  · rw [if_pos hx] at h
    refine ⟨negative_of_round h, StandsFor.correctlyRounded (.of_eq ?_) h⟩
    rw [magnitude_of_coefficient hx, magnitude_of_coefficient rfl, Rat.cast_zero, zero_div]
  · rw [if_neg hx] at h
    obtain ⟨w, hw, hsign, hstands⟩ := standsFor_quotient hx hy
    rw [hw] at h
    exact ⟨(negative_of_round h).trans hsign, hstands.correctlyRounded h⟩

theorem exists_div (hx : x.coefficient ≠ 0) (hy : y.coefficient ≠ 0)
    (h : 2 * (x.magnitude / y.magnitude) ≤ 10 ^ greatestExponent) : ∃ z, x.div y = .ok z := by
  obtain ⟨w, hw, -, hstands⟩ := standsFor_quotient hx hy
  rw [div, if_neg hy, if_neg hx, hw]
  apply hstands.exists_round
  have h' := (Rat.cast_le (K := ℝ)).mpr h
  push_cast at h'
  exact h'

/-! ### Square root -/

private theorem floorRoot_mul_self (m : ℕ) : floorRoot 2 (m * m) = m := by
  have hlow : floorRoot 2 (m * m) ^ 2 ≤ m * m := floorRoot_pow_le (by decide) _
  have hhigh : m * m < (floorRoot 2 (m * m) + 1) ^ 2 := lt_succ_floorRoot_pow (by decide) _
  generalize floorRoot 2 (m * m) = r at hlow hhigh ⊢
  rw [← pow_two] at hlow hhigh
  have hle := (Nat.pow_le_pow_iff_left two_ne_zero).mp hlow
  have hlt := (Nat.pow_lt_pow_iff_left two_ne_zero).mp hhigh
  omega

/-- A coefficient whose root is not whole has no whole root at a lower exponent either. -/
private theorem floorRoot_mul_self_lt {c : ℕ} (h : floorRoot 2 c * floorRoot 2 c ≠ c) (shift : ℕ) :
    floorRoot 2 (c * 100 ^ shift) ^ 2 < c * 100 ^ shift := by
  refine lt_of_le_of_ne (floorRoot_pow_le (by decide) _) fun heq => h ?_
  have hhundred : 100 ^ shift = (10 ^ shift) ^ 2 := by
    rw [← pow_mul, mul_comm, pow_mul]
    norm_num
  rw [hhundred] at heq
  obtain ⟨m, hm⟩ := (Nat.pow_dvd_pow_iff two_ne_zero).mp (Dvd.intro_left c heq.symm)
  rw [hm, mul_pow, mul_comm] at heq
  have hc : m * m = c := by
    rw [← pow_two]
    exact Nat.eq_of_mul_eq_mul_right (by positivity) heq
  rw [← hc, floorRoot_mul_self]

/-- The coefficient is extended until its root has a digit more than the format. -/
private theorem pow_precision_le_floorRoot {c : ℕ} (hc : c ≠ 0) :
    10 ^ precision ≤ floorRoot 2 (c * 100 ^ (precision + 1 - digitCount c / 2)) := by
  set shift := precision + 1 - digitCount c / 2 with hshift
  have hfirst : 10 ^ (digitCount c - 1) ≤ c := pow_digitCount_le hc
  have hpos := digitCount_pos c
  have hlong : (10 ^ precision) ^ 2 ≤ c * 100 ^ shift :=
    calc (10 ^ precision) ^ 2 = 10 ^ (precision * 2) := (pow_mul _ _ _).symm
      _ ≤ 10 ^ (digitCount c - 1 + 2 * shift) := Nat.pow_le_pow_right (by decide) (by omega)
      _ = 10 ^ (digitCount c - 1) * 100 ^ shift := by
        rw [pow_add, pow_mul 10 2]
        norm_num
      _ ≤ c * 100 ^ shift := Nat.mul_le_mul_right _ hfirst
  have hroot := hlong.trans_lt (lt_succ_floorRoot_pow (k := 2) (by decide) (c * 100 ^ shift))
  have hlt := (Nat.pow_lt_pow_iff_left two_ne_zero).mp hroot
  omega

/-- The number as a coefficient at an even exponent. -/
private theorem sqrt_magnitude (x : Decimal) :
    Real.sqrt (x.magnitude : ℚ) =
      Real.sqrt ((if x.exponent % 2 = 0 then x.coefficient else 10 * x.coefficient : ℕ) : ℝ) * 10 ^ (x.exponent / 2) := by
  have hten : (10 : ℝ) ≠ 0 := by norm_num
  have hhalf : (0 : ℝ) ≤ 10 ^ (x.exponent / 2) := zpow_nonneg (by norm_num) _
  have hsquare : ((x.magnitude : ℚ) : ℝ) =
      ((if x.exponent % 2 = 0 then x.coefficient else 10 * x.coefficient : ℕ) : ℝ) * (10 ^ (x.exponent / 2)) ^ 2 := by
    rw [cast_magnitude, pow_two, ← zpow_add₀ hten]
    split_ifs with heven
    · congr 2
      omega
    · have hodd : x.exponent = 1 + (x.exponent / 2 + x.exponent / 2) := by omega
      conv_lhs => rw [hodd, zpow_add₀ hten, zpow_one]
      push_cast
      ring
  rw [hsquare, Real.sqrt_mul (Nat.cast_nonneg _), Real.sqrt_sq hhalf]

theorem standsFor_root (hx : x.coefficient ≠ 0) :
    ∃ w : Decimal, x.sqrtPositive = w.round ∧ w.negative = false ∧ StandsFor w (Real.sqrt (x.magnitude : ℚ)) := by
  rw [sqrt_magnitude]
  unfold sqrtPositive
  dsimp only
  have hc : (if x.exponent % 2 = 0 then x.coefficient else 10 * x.coefficient) ≠ 0 := by
    split_ifs <;> omega
  generalize (if x.exponent % 2 = 0 then x.coefficient else 10 * x.coefficient) = c at *
  split_ifs with hends
  · refine ⟨_, rfl, rfl, .of_eq ?_⟩
    have hroot : Real.sqrt (c : ℝ) = floorRoot 2 c := by
      conv_lhs => rw [← hends]
      rw [Nat.cast_mul, Real.sqrt_mul_self (Nat.cast_nonneg _)]
    rw [cast_magnitude, hroot]
  · refine ⟨_, rfl, rfl, ?_⟩
    have hshifted : ∀ shift : ℕ, Real.sqrt c * 10 ^ (x.exponent / 2) =
        Real.sqrt ((c * 100 ^ shift : ℕ) : ℝ) * 10 ^ (x.exponent / 2 - shift) := by
      intro shift
      have hpow : (0 : ℝ) < 10 ^ shift := by positivity
      have hhundred : ((c * 100 ^ shift : ℕ) : ℝ) = c * (10 ^ shift) ^ 2 := by
        push_cast
        rw [← pow_mul, mul_comm shift 2, pow_mul]
        norm_num
      rw [hhundred, Real.sqrt_mul (Nat.cast_nonneg _), Real.sqrt_sq hpow.le, zpow_sub₀ (by norm_num), zpow_natCast]
      field_simp
    rw [hshifted (precision + 1 - digitCount c / 2)]
    have hlong := pow_precision_le_floorRoot hc
    have hlow := floorRoot_mul_self_lt hends (precision + 1 - digitCount c / 2)
    have hhigh := lt_succ_floorRoot_pow (k := 2) (by decide) (c * 100 ^ (precision + 1 - digitCount c / 2))
    refine .of_between (magnitude_between _ _ _) hlong ?_ ?_
    · rw [Real.lt_sqrt (Nat.cast_nonneg _)]
      exact_mod_cast hlow
    · rw [Real.sqrt_lt' (by positivity)]
      exact_mod_cast hhigh

theorem correctlyRounded_sqrt (hx : x.negative = false) (h : x.sqrt = .ok z) :
    z.negative = false ∧ CorrectlyRounded precision (Real.sqrt (x.magnitude : ℚ)) (z.magnitude : ℚ) := by
  unfold sqrt at h
  by_cases hzero : x.coefficient = 0
  · rw [if_pos hzero] at h
    refine ⟨(negative_of_round h).trans hx, StandsFor.correctlyRounded (.of_eq ?_) h⟩
    rw [magnitude_of_coefficient hzero, magnitude_of_coefficient rfl, Rat.cast_zero, Real.sqrt_zero]
  · rw [if_neg hzero, hx, if_neg Bool.false_ne_true] at h
    obtain ⟨w, hw, hsign, hstands⟩ := standsFor_root hzero
    rw [hw] at h
    exact ⟨(negative_of_round h).trans hsign, hstands.correctlyRounded h⟩

theorem exists_sqrt (hx : x.negative = false) (hne : x.coefficient ≠ 0)
    (h : 2 * Real.sqrt (x.magnitude : ℚ) ≤ 10 ^ greatestExponent) : ∃ z, x.sqrt = .ok z := by
  obtain ⟨w, hw, -, hstands⟩ := standsFor_root hne
  rw [sqrt, if_neg hne, hx, if_neg Bool.false_ne_true, hw]
  exact hstands.exists_round h

/-! ### Powers of ten -/

/-- Every power on the way is exact. -/
private theorem magnitude_of_powerTo_ten {digits n : ℕ} (hdigits : 0 < digits)
    (h : powerTo digits ⟨false, 10, 0⟩ n = .ok y) : y.magnitude = 10 ^ n := by
  have hten : magnitude ⟨false, 10, 0⟩ = 10 := by norm_num [magnitude]
  -- The recursion halves the exponent.
  induction n using Nat.strong_induction_on generalizing y with
  | _ n ih =>
    rcases n with _ | _ | n
    · rw [powerTo] at h
      obtain ⟨⟩ := h
      norm_num [magnitude]
    · rw [powerTo] at h
      obtain ⟨⟩ := h
      rw [hten, zero_add, pow_one]
    · simp only [powerTo, bind_eq_ok_iff] at h
      obtain ⟨half, hhalf, square, hsquare, h⟩ := h
      have hhalf_eq := ih (n / 2 + 1) (by omega) hhalf
      have hsquare_eq : square.magnitude = 10 ^ (n / 2 + 1 + (n / 2 + 1)) := by
        rw [← zpow_natCast]
        refine magnitude_of_roundTo_pow hdigits (leastExponent_le_natCast _ _) ?_ hsquare
        rw [magnitude_exactMul, hhalf_eq, ← pow_add, zpow_natCast]
      by_cases heven : n % 2 = 0
      · rw [if_pos heven] at h
        obtain ⟨⟩ := h
        rw [hsquare_eq]
        congr 1
        omega
      · rw [if_neg heven] at h
        rw [← zpow_natCast]
        refine magnitude_of_roundTo_pow hdigits (leastExponent_le_natCast _ _) ?_ h
        rw [magnitude_exactMul, hsquare_eq, hten, ← pow_succ, zpow_natCast]
        congr 1
        omega

private theorem ten_pow_le_greatest {n : ℕ} (hn : (n : ℤ) ≤ greatestExponent) :
    (10 : ℚ) ^ n ≤ 10 ^ greatestExponent := by
  rw [← zpow_natCast]
  exact ten_zpow_le hn

private theorem exists_powerTo_ten {digits n : ℕ} (hdigits : 0 < digits) (hn : (n : ℤ) ≤ greatestExponent) :
    ∃ y, powerTo digits ⟨false, 10, 0⟩ n = .ok y := by
  have hten : magnitude ⟨false, 10, 0⟩ = 10 := by norm_num [magnitude]
  induction n using Nat.strong_induction_on with
  | _ n ih =>
    rcases n with _ | _ | n
    · exact ⟨_, by rw [powerTo]⟩
    · exact ⟨_, by rw [powerTo]⟩
    · obtain ⟨half, hhalf⟩ := ih (n / 2 + 1) (by omega) (by omega)
      have hhalf_eq := magnitude_of_powerTo_ten hdigits hhalf
      have hsquare_exact : (exactMul half half).magnitude = 10 ^ (n / 2 + 1 + (n / 2 + 1)) := by
        rw [magnitude_exactMul, hhalf_eq, ← pow_add]
      obtain ⟨square, hsquare⟩ : ∃ square, (exactMul half half).roundTo digits = .ok square := by
        refine exists_roundTo hdigits ?_
        rw [hsquare_exact]
        exact ten_pow_le_greatest (by omega)
      simp only [powerTo, hhalf, hsquare, ok_bind]
      by_cases heven : n % 2 = 0
      · exact ⟨square, if_pos heven⟩
      · rw [if_neg heven]
        refine exists_roundTo hdigits ?_
        have hsquare_eq : square.magnitude = 10 ^ (n / 2 + 1 + (n / 2 + 1)) := by
          rw [← zpow_natCast] at hsquare_exact ⊢
          exact magnitude_of_roundTo_pow hdigits (leastExponent_le_natCast _ _) hsquare_exact hsquare
        rw [magnitude_exactMul, hsquare_eq, hten, ← pow_succ]
        exact ten_pow_le_greatest (by omega)

/-- A natural power of ten is exact and lies in the format. -/
theorem tenPower_natCast_spec {n : ℕ} (h : tenPower n = .ok y) :
    y.negative = false ∧ y.magnitude = 10 ^ n ∧ (n : ℤ) ≤ greatestExponent := by
  have hten : (⟨false, 10, 0⟩ : Decimal).coefficient ≠ 0 := by decide
  have hdigits := powerDigits_pos n
  have hpower : power ⟨false, 10, 0⟩ n = .ok y := h
  simp only [power, if_neg hten, bind_eq_ok_iff] at hpower
  obtain ⟨w, hw, hround⟩ := hpower
  have hw_eq := magnitude_of_powerTo_ten hdigits hw
  rw [← zpow_natCast] at hw_eq
  have hy_eq := magnitude_of_roundTo_pow (by decide) (leastExponent_le_natCast _ _) hw_eq hround
  obtain ⟨hsign, -, hend⟩ := roundTo_spec (by decide) hround
  rw [hy_eq, zpow_lt_zpow_iff_right₀ (by norm_num)] at hend
  refine ⟨hsign.trans (negative_of_powerTo hdigits rfl hw), ?_, by omega⟩
  rw [hy_eq, zpow_natCast]

/-- A power of ten is exact unless it vanishes. -/
theorem tenPower_spec {k : ℤ} (h : tenPower k = .ok y) :
    y.negative = false ∧ (y.coefficient ≠ 0 → y.magnitude = 10 ^ k) := by
  cases k with
  | ofNat n =>
    obtain ⟨hsign, hy_eq, -⟩ := tenPower_natCast_spec h
    refine ⟨hsign, fun _ => ?_⟩
    rw [hy_eq, Int.ofNat_eq_natCast, zpow_natCast]
  | negSucc n =>
    have hexact : magnitude ⟨false, 1, .negSucc n⟩ = 10 ^ Int.negSucc n := by simp [magnitude]
    refine ⟨negative_of_round h, fun hne => ?_⟩
    by_cases hk : leastExponent precision ≤ .negSucc n
    · exact magnitude_of_roundTo_pow (by decide) hk hexact h
    · -- Below the format a power of ten is rounded to zero.
      refine absurd ?_ hne
      have hround : roundTo precision ⟨false, 1, .negSucc n⟩ = .ok y := h
      have hrounded := correctlyRounded_of_roundTo (by decide) hround
      rw [hexact, Rat.cast_zpow, Rat.cast_ofNat] at hrounded
      have hzero : y.magnitude = 0 := by exact_mod_cast hrounded.eq_zero_of_pow (by decide) (not_le.mp hk)
      exact magnitude_eq_zero_iff.mp hzero

theorem exists_tenPower {k : ℤ} (hlow : leastExponent precision ≤ k) (hhigh : k ≤ greatestExponent) :
    ∃ y, tenPower k = .ok y ∧ y.coefficient ≠ 0 := by
  have hfits : (10 : ℚ) ^ k ≤ 10 ^ greatestExponent := ten_zpow_le hhigh
  have hne : ∀ {w y : Decimal}, w.magnitude = 10 ^ k → w.round = .ok y → y.coefficient ≠ 0 := by
    intro w y hw hround
    apply coefficient_ne_zero
    rw [magnitude_of_roundTo_pow (by decide) hlow hw hround]
    exact zpow_pos (by norm_num) k
  cases k with
  | ofNat n =>
    have hten : (⟨false, 10, 0⟩ : Decimal).coefficient ≠ 0 := by decide
    have hdigits := powerDigits_pos n
    obtain ⟨w, hw⟩ := exists_powerTo_ten (n := n) hdigits hhigh
    have hw_eq : w.magnitude = 10 ^ Int.ofNat n := magnitude_of_powerTo_ten hdigits hw
    obtain ⟨y, hy⟩ : ∃ y, w.round = .ok y := exists_roundTo (by decide) (hw_eq.trans_le hfits)
    refine ⟨y, ?_, hne hw_eq hy⟩
    simp only [tenPower, power, if_neg hten, hw, ok_bind]
    exact hy
  | negSucc n =>
    have hexact : magnitude ⟨false, 1, .negSucc n⟩ = 10 ^ Int.negSucc n := by simp [magnitude]
    obtain ⟨y, hy⟩ : ∃ y, round ⟨false, 1, .negSucc n⟩ = .ok y := exists_roundTo (by decide) (hexact.trans_le hfits)
    exact ⟨y, hy, hne hexact hy⟩

end BondingCurve.Decimal
