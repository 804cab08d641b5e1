import BondingCurve.Amount
import Mathlib.Algebra.Order.Field.Power
import Mathlib.Algebra.Order.Floor.Ring
import Mathlib.Data.Rat.Floor
import Mathlib.Tactic.FieldSimp
import Mathlib.Tactic.Linarith
import Mathlib.Tactic.NormNum
import Mathlib.Tactic.Positivity
import Mathlib.Tactic.Ring

/-!
# Values of decimals

A decimal denotes a rational number (`Decimal.value`), and what the operations do is stated about this number, whatever
its spelling.

* (exact results) The exact sum and product have the value that their names say, and so has every respelling
  (`value_exactAdd`, `value_exactMul`, `magnitude_reduceTowards`).
* (rounding) `roundTo_spec`: a rounded number keeps its sign, differs from the given one by at most half a unit of its
  last digit, and lies below the power of ten that ends the format.
* (signs) `isPositive_iff`, `isNegative_iff`: the sign of a decimal is that of its value.
* (integers) `floor_eq_ok_iff`: the integer part is the floor of the value.
-/

namespace BondingCurve

/-! ### Powers of ten -/

private theorem pow_pos_of_ten (e : Int) : (0 : ℚ) < 10 ^ e :=
  zpow_pos (by norm_num) e

theorem ten_zpow_eq_mul {e f : Int} (h : e ≤ f) : (10 : ℚ) ^ f = ((10 ^ (f - e).toNat : Nat) : ℚ) * 10 ^ e := by
  have hf : f = ((f - e).toNat : Int) + e := by omega
  conv_lhs => rw [hf]
  rw [zpow_add₀ (by norm_num), zpow_natCast, Nat.cast_pow, Nat.cast_ofNat]

theorem ten_zpow_le {e f : Int} (h : e ≤ f) : (10 : ℚ) ^ e ≤ 10 ^ f :=
  zpow_le_zpow_right₀ (by norm_num) h

/-- A quotient is its integer part and a fraction. -/
theorem natCast_div_eq (K : Type) [Field K] [LinearOrder K] [IsStrictOrderedRing K] (n : Nat) {d : Nat} (hd : 0 < d) :
    (n : K) / d = (n / d : Nat) + (n % d : Nat) / d ∧ 0 ≤ ((n % d : Nat) : K) / d ∧ ((n % d : Nat) : K) / d < 1 := by
  have hd' : (0 : K) < d := by exact_mod_cast hd
  have hdivision : (d : K) * (n / d : Nat) + (n % d : Nat) = n := by exact_mod_cast Nat.div_add_mod n d
  refine ⟨?_, by positivity, ?_⟩
  · field_simp
    linarith
  · rw [div_lt_one hd']
    exact_mod_cast Nat.mod_lt n hd

theorem abs_halfEven_sub_le (n : Nat) {d : Nat} (hd : 0 < d) : |(halfEven n d : ℚ) - n / d| ≤ 1 / 2 := by
  have hd' : (0 : ℚ) < d := by exact_mod_cast hd
  obtain ⟨hquotient, hr₀, hr⟩ := natCast_div_eq ℚ n hd
  unfold halfEven
  dsimp only
  split_ifs with hlow
  · -- The remainder is at most half of the divisor.
    have hle : 2 * (n % d) ≤ d := by omega
    have hhalf : ((n % d : Nat) : ℚ) / d ≤ 1 / 2 := by
      rw [div_le_div_iff₀ hd' (by norm_num)]
      have hle' : 2 * ((n % d : Nat) : ℚ) ≤ d := by exact_mod_cast hle
      linarith
    rw [hquotient, abs_le]
    constructor <;> linarith
  · have hge : d ≤ 2 * (n % d) := by omega
    have hhalf : 1 / 2 ≤ ((n % d : Nat) : ℚ) / d := by
      rw [div_le_div_iff₀ (by norm_num) hd']
      have hge' : (d : ℚ) ≤ 2 * ((n % d : Nat) : ℚ) := by exact_mod_cast hge
      linarith
    rw [hquotient, Nat.cast_add, Nat.cast_one, abs_le]
    constructor <;> linarith

namespace Decimal

/-! ### Values -/

/-- The number that a decimal denotes, without its sign. -/
def magnitude (x : Decimal) : ℚ :=
  x.coefficient * 10 ^ x.exponent

/-- The number that a decimal denotes. -/
def value (x : Decimal) : ℚ :=
  if x.negative then -x.magnitude else x.magnitude

variable {x y z : Decimal} {digits : Nat}

theorem magnitude_nonneg (x : Decimal) : 0 ≤ x.magnitude :=
  mul_nonneg (Nat.cast_nonneg _) (pow_pos_of_ten _).le

theorem abs_value (x : Decimal) : |x.value| = x.magnitude := by
  unfold value
  split_ifs
  · rw [abs_neg, abs_of_nonneg x.magnitude_nonneg]
  · rw [abs_of_nonneg x.magnitude_nonneg]

theorem magnitude_of_value_nonneg (h : 0 ≤ x.value) : x.magnitude = x.value := by
  rw [← abs_value, abs_of_nonneg h]

theorem value_of_not_negative (h : x.negative = false) : x.value = x.magnitude := by
  simp [value, h]

theorem value_nonneg (h : x.negative = false) : 0 ≤ x.value := by
  rw [value_of_not_negative h]
  exact x.magnitude_nonneg

theorem abs_value_sub_of_negative_eq (h : y.negative = x.negative) :
    |y.value - x.value| = |y.magnitude - x.magnitude| := by
  unfold value
  rw [h]
  split_ifs
  · rw [neg_sub_neg, abs_sub_comm]
  · rfl

theorem magnitude_of_coefficient (h : x.coefficient = 0) : x.magnitude = 0 := by
  simp [magnitude, h]

theorem coefficient_ne_zero (h : 0 < x.magnitude) : x.coefficient ≠ 0 :=
  fun hzero => h.ne' (magnitude_of_coefficient hzero)

@[simp] theorem value_ofInt (n : Int) : (ofInt n).value = n := by
  have hcast : ((n.natAbs : Nat) : ℚ) = |(n : ℚ)| := by
    rw [← Int.cast_abs, Int.abs_eq_natAbs, Int.cast_natCast]
  by_cases hn : n < 0
  · have hn' : (n : ℚ) < 0 := by exact_mod_cast hn
    simp [value, magnitude, ofInt, hn, hcast, abs_of_neg hn']
  · have hn' : (0 : ℚ) ≤ n := by exact_mod_cast Int.not_lt.mp hn
    simp [value, magnitude, ofInt, hn, hcast, abs_of_nonneg hn']

@[simp] theorem value_neg (x : Decimal) : x.neg.value = -x.value := by
  unfold value magnitude neg
  by_cases h : x.negative <;> simp [h]

/-! ### Exact results -/

/-- A coefficient at a lower exponent spells the same magnitude. -/
theorem coefficientAt_mul {e : Int} (h : e ≤ x.exponent) : (x.coefficientAt e : ℚ) * 10 ^ e = x.magnitude := by
  rw [coefficientAt, magnitude, ten_zpow_eq_mul h, Nat.cast_mul, mul_assoc]
  rfl

private theorem signedAt_mul {e : Int} (h : e ≤ x.exponent) : (x.signedAt e : ℚ) * 10 ^ e = x.value := by
  have hmagnitude := coefficientAt_mul h
  unfold signedAt value
  split_ifs
  · rw [Int.cast_neg, Int.cast_natCast, neg_mul, hmagnitude]
  · rw [Int.cast_natCast, hmagnitude]

private theorem value_of_natAbs (n e : Int) (zeroSign : Bool) :
    value ⟨n < 0 || (n == 0 && zeroSign), n.natAbs, e⟩ = n * 10 ^ e := by
  simp only [value, magnitude]
  rcases lt_trichotomy n 0 with hn | rfl | hn
  · have hcast : ((n.natAbs : Nat) : ℚ) = -n := by
      rw [← Int.cast_natCast, Int.ofNat_natAbs_of_nonpos hn.le, Int.cast_neg]
    simp [hn, hcast]
  · simp
  · have hcast : ((n.natAbs : Nat) : ℚ) = n := by
      rw [← Int.cast_natCast, Int.natAbs_of_nonneg hn.le]
    simp [hn.not_gt, hn.ne', hcast]

theorem value_exactAdd (x y : Decimal) : (exactAdd x y).value = x.value + y.value := by
  have hx := signedAt_mul (x := x) (min_le_left x.exponent y.exponent)
  have hy := signedAt_mul (x := y) (min_le_right x.exponent y.exponent)
  rw [← hx, ← hy, ← add_mul, ← Int.cast_add, ← value_of_natAbs _ _ (x.negative && y.negative), ← Bool.and_assoc]
  rfl

theorem magnitude_exactMul (x y : Decimal) : (exactMul x y).magnitude = x.magnitude * y.magnitude := by
  simp only [exactMul, magnitude, Nat.cast_mul, zpow_add₀ (by norm_num : (10 : ℚ) ≠ 0)]
  ring

theorem value_exactMul (x y : Decimal) : (exactMul x y).value = x.value * y.value := by
  have h := magnitude_exactMul x y
  unfold value
  rw [h]
  have hsign : (exactMul x y).negative = (x.negative != y.negative) := rfl
  rw [hsign]
  cases x.negative <;> cases y.negative <;> simp

private theorem stripZeros_spec (limit c : Nat) : (stripZeros limit c).1 * 10 ^ (stripZeros limit c).2 = c := by
  induction limit generalizing c with
  | zero => simp [stripZeros]
  | succ limit ih =>
    unfold stripZeros
    split_ifs with hzero
    · have h := ih (c / 10)
      simp only [pow_succ]
      rw [← mul_assoc, h]
      omega
    · simp

theorem magnitude_reduceTowards (x : Decimal) (ideal : Int) : (x.reduceTowards ideal).magnitude = x.magnitude := by
  have h := stripZeros_spec (ideal - x.exponent).toNat x.coefficient
  unfold reduceTowards magnitude
  rw [zpow_add₀ (by norm_num), zpow_natCast]
  have hcast : ((stripZeros (ideal - x.exponent).toNat x.coefficient).1 : ℚ) *
      10 ^ (stripZeros (ideal - x.exponent).toNat x.coefficient).2 = x.coefficient := by exact_mod_cast h
  rw [← hcast]
  ring

/-! ### Digits -/

theorem magnitude_lt_pow (x : Decimal) : x.magnitude < 10 ^ (x.adjusted + 1) := by
  have hlt : (x.coefficient : ℚ) < 10 ^ x.digits := by exact_mod_cast lt_pow_digitCount x.coefficient
  have hexponent : x.adjusted + 1 = (x.digits : Int) + x.exponent := by
    unfold adjusted
    omega
  rw [hexponent, zpow_add₀ (by norm_num), zpow_natCast]
  exact mul_lt_mul_of_pos_right hlt (pow_pos_of_ten _)

theorem pow_adjusted_le (h : x.coefficient ≠ 0) : 10 ^ x.adjusted ≤ x.magnitude := by
  have hle : (10 : ℚ) ^ (x.digits - 1) ≤ x.coefficient := by exact_mod_cast pow_digitCount_le h
  have hpos : 0 < x.digits := digitCount_pos _
  have hexponent : x.adjusted = ((x.digits - 1 : Nat) : Int) + x.exponent := by
    unfold adjusted
    omega
  rw [hexponent, zpow_add₀ (by norm_num), zpow_natCast]
  exact mul_le_mul_of_nonneg_right hle (pow_pos_of_ten _).le

/-! ### Signs -/

theorem magnitude_pos_iff : 0 < x.magnitude ↔ x.coefficient ≠ 0 := by
  constructor
  · exact coefficient_ne_zero
  · intro h
    exact (zpow_pos (by norm_num) _).trans_le (pow_adjusted_le h)

theorem magnitude_eq_zero_iff : x.magnitude = 0 ↔ x.coefficient = 0 := by
  constructor
  · intro h
    by_contra hne
    exact (magnitude_pos_iff.mpr hne).ne' h
  · exact magnitude_of_coefficient

theorem value_eq_zero_iff : x.value = 0 ↔ x.coefficient = 0 := by
  rw [← abs_eq_zero, abs_value, magnitude_eq_zero_iff]

theorem isNegative_iff : x.isNegative = true ↔ x.value < 0 := by
  unfold isNegative value
  cases hsign : x.negative
  · simpa using x.magnitude_nonneg
  · simpa using magnitude_pos_iff.symm

theorem isPositive_iff : x.isPositive = true ↔ 0 < x.value := by
  unfold isPositive value
  cases hsign : x.negative
  · simpa using magnitude_pos_iff.symm
  · simpa using x.magnitude_nonneg

/-! ### Rounding -/

theorem magnitude_settleCarry (hdigits : 0 < digits) (x : Decimal) : (settleCarry digits x).magnitude = x.magnitude := by
  unfold settleCarry
  split_ifs with hcarry
  · obtain ⟨k, rfl⟩ : ∃ k, digits = k + 1 := ⟨digits - 1, by omega⟩
    rw [magnitude, magnitude, hcarry, zpow_add₀ (by norm_num), zpow_one]
    have hpow : Nat.pow 10 (k + 1) = Nat.pow 10 k * 10 := pow_succ 10 k
    rw [hpow, Nat.add_sub_cancel, Nat.cast_mul, Nat.cast_ofNat]
    ring
  · rfl

/-- At a higher exponent, a number lies below a tenth of a unit, or its coefficient is divided and rounded. -/
theorem nearestCoefficientAt_cases {e : Int} (h : x.exponent ≤ e) :
    (x.nearestCoefficientAt e = 0 ∧ x.magnitude < 10 ^ (e - 1)) ∨
    (x.nearestCoefficientAt e = halfEven x.coefficient (10 ^ (e - x.exponent).toNat) ∧
      x.magnitude = (x.coefficient : ℚ) / ((10 ^ (e - x.exponent).toNat : Nat) : ℚ) * 10 ^ e) := by
  unfold nearestCoefficientAt
  dsimp only
  split_ifs with hfar
  · refine .inl ⟨rfl, x.magnitude_lt_pow.trans_le (ten_zpow_le ?_)⟩
    unfold adjusted
    omega
  · refine .inr ⟨rfl, ?_⟩
    have hunit : (0 : ℚ) < ((10 ^ (e - x.exponent).toNat : Nat) : ℚ) := by positivity
    rw [magnitude, ten_zpow_eq_mul h]
    field_simp

/-- The nearest coefficient at a higher exponent is at most half a unit of that exponent away. -/
private theorem abs_nearestCoefficientAt_sub_le {e : Int} (h : x.exponent ≤ e) :
    |(x.nearestCoefficientAt e : ℚ) * 10 ^ e - x.magnitude| ≤ 10 ^ e / 2 := by
  have he := pow_pos_of_ten e
  rcases nearestCoefficientAt_cases h with ⟨hzero, hbelow⟩ | ⟨hnearest, hmagnitude⟩
  · have hstep : (10 : ℚ) ^ e = 10 ^ (e - 1) * 10 := by
      rw [← zpow_add_one₀ (by norm_num), sub_add_cancel]
    have hnonneg := x.magnitude_nonneg
    rw [hzero, Nat.cast_zero, zero_mul, zero_sub, abs_neg, abs_of_nonneg hnonneg, hstep]
    linarith [pow_pos_of_ten (e - 1)]
  · have hnear := abs_halfEven_sub_le x.coefficient (Nat.pow_pos (n := (e - x.exponent).toNat) (by decide : 0 < 10))
    rw [hnearest, hmagnitude, ← sub_mul, abs_mul, abs_of_pos he]
    calc _ ≤ 1 / 2 * 10 ^ e := mul_le_mul_of_nonneg_right hnear he.le
      _ = 10 ^ e / 2 := by ring

/-- The relative error of a format for the numbers that it spells with all of its digits, times two. -/
def unit (digits : Nat) : ℚ := 10 ^ (1 - (digits : Int))

/-- The least number that a format spells with all of its digits. -/
def leastNormal : ℚ := 10 ^ (-greatestExponent)

theorem unit_pos (digits : Nat) : 0 < unit digits :=
  pow_pos_of_ten _

theorem leastNormal_pos : 0 < leastNormal :=
  pow_pos_of_ten _

/-- A unit of the last digit is small compared with the number, or with the least normal one. -/
private theorem pow_finestExponent_le (h : x.coefficient ≠ 0) :
    (10 : ℚ) ^ x.finestExponent digits ≤ unit digits * (x.magnitude + leastNormal) := by
  have hunit := unit_pos digits
  have hleft := mul_nonneg hunit.le x.magnitude_nonneg
  have hright := mul_pos hunit leastNormal_pos
  rw [mul_add]
  rcases le_total (x.adjusted - (digits - 1)) (leastExponent digits) with hle | hle
  · have hleast : (10 : ℚ) ^ leastExponent digits = unit digits * leastNormal := by
      rw [unit, leastNormal, ← zpow_add₀ (by norm_num)]
      congr 1
      simp only [leastExponent, greatestExponent]
      omega
    rw [finestExponent, max_eq_right hle, hleast]
    linarith
  · have hstep : (10 : ℚ) ^ (x.adjusted - (digits - 1)) = unit digits * 10 ^ x.adjusted := by
      rw [unit, ← zpow_add₀ (by norm_num)]
      congr 1
      omega
    have hfirst := mul_le_mul_of_nonneg_left (pow_adjusted_le h) hunit.le
    rw [finestExponent, max_eq_left hle, hstep]
    linarith

/-- A rounded number keeps its sign, moves by at most half a unit of its last digit, and lies below the end of the
format. -/
theorem roundTo_spec (hdigits : 0 < digits) (h : x.roundTo digits = .ok y) :
    y.negative = x.negative ∧ |y.magnitude - x.magnitude| ≤ unit digits * (x.magnitude + leastNormal) / 2 ∧
      y.magnitude < 10 ^ (greatestExponent + 1) := by
  have hbound := mul_nonneg (unit_pos digits).le (add_nonneg x.magnitude_nonneg leastNormal_pos.le)
  have hfits : ∀ {w : Decimal}, ¬ greatestExponent < w.adjusted → w.magnitude < 10 ^ (greatestExponent + 1) :=
    fun {w} hw => w.magnitude_lt_pow.trans_le (ten_zpow_le (by omega))
  unfold roundTo at h
  by_cases hzero : x.coefficient = 0
  · rw [if_pos hzero] at h
    obtain ⟨⟩ := h
    have hrespelled : ∀ e, magnitude ⟨x.negative, x.coefficient, e⟩ = 0 := fun e => magnitude_of_coefficient hzero
    have hx : x.magnitude = 0 := magnitude_of_coefficient hzero
    rw [hx] at hbound ⊢
    rw [hrespelled, sub_self, abs_zero]
    exact ⟨rfl, by linarith, pow_pos_of_ten _⟩
  rw [if_neg hzero, ite_error_eq_ok_iff] at h
  obtain ⟨hlow, h⟩ := h
  dsimp only at h
  by_cases hfine : x.finestExponent digits ≤ x.exponent
  · -- The number fits as it is.
    rw [if_pos hfine] at h
    obtain ⟨⟩ := h
    refine ⟨rfl, ?_, hfits hlow⟩
    rw [sub_self, abs_zero]
    linarith
  · rw [if_neg hfine, ite_error_eq_ok_iff] at h
    obtain ⟨hcarry, ⟨⟩⟩ := h
    refine ⟨?_, ?_, hfits hcarry⟩
    · unfold settleCarry
      split_ifs <;> rfl
    · rw [magnitude_settleCarry hdigits]
      have hnear := x.abs_nearestCoefficientAt_sub_le (e := x.finestExponent digits) (by omega)
      have hunit : (10 : ℚ) ^ x.finestExponent digits ≤ unit digits * (x.magnitude + leastNormal) :=
        pow_finestExponent_le hzero
      exact hnear.trans (by linarith)

/-! ### Integer part -/

theorem floorMagnitude_eq (x : Decimal) : (x.floorMagnitude : Int) = ⌊x.magnitude⌋ := by
  unfold floorMagnitude
  dsimp only
  split_ifs with hwhole hsmall
  · have hexponent : x.exponent = (x.exponent.toNat : Int) := (Int.toNat_of_nonneg hwhole).symm
    have hmagnitude : x.magnitude = ((x.coefficient * Nat.pow 10 x.exponent.toNat : Nat) : Int) := by
      rw [magnitude, hexponent, zpow_natCast, Int.toNat_natCast]
      simp
    rw [hmagnitude, Int.floor_intCast]
  · -- All digits stand after the point.
    have hbelow : x.magnitude < 1 := by
      have h := x.magnitude_lt_pow.trans_le (ten_zpow_le (f := 0) (by unfold adjusted; omega))
      rwa [zpow_zero] at h
    rw [Int.floor_eq_zero_iff.mpr ⟨x.magnitude_nonneg, hbelow⟩]
    rfl
  · have hexponent : x.exponent = -((-x.exponent).toNat : Int) := by omega
    have hmagnitude : x.magnitude = (x.coefficient : ℚ) / ((Nat.pow 10 (-x.exponent).toNat : Nat) : ℚ) := by
      conv_lhs => rw [magnitude, hexponent, zpow_neg, zpow_natCast]
      rw [div_eq_mul_inv]
      simp
    rw [hmagnitude, Rat.floor_natCast_div_natCast]
    exact Int.natCast_div _ _

/-- The integer part is taken of numbers from zero on. -/
theorem floor_eq_ok_iff {n : Int} : x.floor = .ok n ↔ 0 ≤ x.value ∧ n = ⌊x.value⌋ := by
  rw [floor, ite_error_eq_ok_iff, isNegative_iff, not_lt]
  refine and_congr_right fun hnonneg => ?_
  rw [← magnitude_of_value_nonneg hnonneg, ← floorMagnitude_eq, Except.ok.injEq, eq_comm]

end Decimal
end BondingCurve
