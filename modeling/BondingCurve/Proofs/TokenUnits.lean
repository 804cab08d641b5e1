import BondingCurve.Proofs.RoundedOperations

/-!
# Whole tokens in smallest units

An amount of whole tokens is scaled by a power of ten in decimal arithmetic and then rounded down to smallest units.
The power is exact, so that the product is the only step that can round (`scaleToUnits_eq_ok_iff`).

* (short amounts) A product with no more significant digits than the format is exact.  It can leave the format only
  below the least exponent, and there the exact and the rounded number are both below one
  (`CorrectlyRounded.floor_eq_of_multiple`).
* (long amounts) A rounding passes no integer with up to 60 digits, so that the integer part can only grow, and only to
  the next integer (`CorrectlyRounded.floor_mem`).
* (order) Greater amounts have no fewer units, and a smaller one is scaled whenever a greater one is.
-/

namespace BondingCurve

/-! ### Integer parts of rounded numbers -/

namespace CorrectlyRounded

variable {digits : ℕ} {q z : ℝ} {m k : ℤ}

/-- A rounding carries the integer part to the next integer at most, as long as the result has no more digits before the
point than the format. -/
theorem floor_mem (h : CorrectlyRounded digits q z) (hdigits : 0 < digits) (hq : 0 ≤ q) (hlt : z < 10 ^ digits) :
    ⌊q⌋ ≤ ⌊z⌋ ∧ ⌊z⌋ ≤ ⌊q⌋ + 1 := by
  have hq_lt : q < 10 ^ digits := by
    by_contra hge
    have hz_ge := h.pow_le_of_le (k := digits) hdigits (leastExponent_le_natCast digits digits)
      (by rwa [zpow_natCast, ← not_lt])
    rw [zpow_natCast] at hz_ge
    exact absurd hlt (not_lt.mpr hz_ge)
  rcases hq.eq_or_lt with rfl | hpos
  · rw [h.eq_zero]
    omega
  have hlow : (⌊q⌋ : ℝ) ≤ z := h.intCast_le hpos hq_lt (Int.floor_le q)
  have hnext : q ≤ (⌊q⌋ + 1 : ℤ) := by
    push_cast
    exact (Int.lt_floor_add_one q).le
  have hhigh : z ≤ (⌊q⌋ + 1 : ℤ) := h.le_intCast hpos hq_lt hnext
  constructor
  · exact Int.le_floor.mpr hlow
  · rw [← Int.floor_intCast (R := ℝ) (⌊q⌋ + 1)]
    exact Int.floor_mono hhigh

/-- The integer part of a number with no more digits than the format is exact. -/
theorem floor_eq_of_multiple (h : CorrectlyRounded digits (m * 10 ^ k) z) (hdigits : 0 < digits) (hm : 0 ≤ m)
    (hshort : m < 10 ^ digits) : ⌊z⌋ = ⌊(m : ℝ) * 10 ^ k⌋ := by
  have hm' : (0 : ℝ) ≤ m := by exact_mod_cast hm
  have hq : 0 ≤ (m : ℝ) * 10 ^ k := mul_nonneg hm' (zpow_nonneg (by norm_num) k)
  by_cases hk : leastExponent digits ≤ k
  · rw [h.eq_of_multiple hm hshort hk]
  · -- All digits stand far behind the point, also after rounding.
    have hleast : leastExponent digits ≤ -1 := by
      simp only [leastExponent]
      omega
    have hplace : (digits : ℤ) + k ≤ -1 := by
      simp only [leastExponent] at hk
      omega
    have htenth : (10 : ℝ) ^ (-1 : ℤ) < 1 := by norm_num
    have hq_le : (m : ℝ) * 10 ^ k ≤ 10 ^ (-1 : ℤ) :=
      (mul_ten_zpow_lt hshort k).le.trans (zpow_le_zpow_right₀ (by norm_num) hplace)
    have hz_le : z ≤ 10 ^ (-1 : ℤ) := h.le_pow_of_le hdigits hleast hq hq_le
    have hq_floor : ⌊(m : ℝ) * 10 ^ k⌋ = 0 := Int.floor_eq_zero_iff.mpr ⟨hq, hq_le.trans_lt htenth⟩
    have hz_floor : ⌊z⌋ = 0 := Int.floor_eq_zero_iff.mpr ⟨h.nonneg hq, hz_le.trans_lt htenth⟩
    rw [hq_floor, hz_floor]

end CorrectlyRounded

/-! ### Numbers from zero on -/

namespace Decimal

variable {x y : Decimal} {digits : ℕ}

/-- A number with no more significant digits than `digits`: zeros at the end of the coefficient do not count. -/
def IsShort (digits : ℕ) (x : Decimal) : Prop :=
  ∃ (m : ℕ) (k : ℤ), m < 10 ^ digits ∧ x.magnitude = m * 10 ^ k

private theorem isShort_of_digits_le (h : x.digits ≤ digits) : x.IsShort digits := by
  refine ⟨x.coefficient, x.exponent, ?_, rfl⟩
  calc x.coefficient < 10 ^ x.digits := lt_pow_digitCount x.coefficient
    _ ≤ 10 ^ digits := Nat.pow_le_pow_right (by decide) h

/-- A number from zero on stays one, also a zero with a minus. -/
private theorem value_nonneg_of_round (hx : 0 ≤ x.value) (h : x.round = .ok y) : 0 ≤ y.value := by
  have hsign := negative_of_round h
  cases hneg : x.negative with
  | false => exact value_nonneg (hsign.trans hneg)
  | true =>
    have hrounded := correctlyRounded_of_roundTo (by decide) h
    have hzero : x.magnitude = 0 := by
      have hvalue : x.value = -x.magnitude := if_pos hneg
      have hnonneg := x.magnitude_nonneg
      linarith
    rw [hzero, Rat.cast_zero] at hrounded
    have hy : y.magnitude = 0 := by exact_mod_cast hrounded.eq_zero
    rw [value_eq_zero_iff.mpr (magnitude_eq_zero_iff.mp hy)]

/-- The rounding of a number from zero on, in terms of values. -/
private theorem correctlyRounded_value (hx : 0 ≤ x.value) (h : x.round = .ok y) :
    CorrectlyRounded precision (x.value : ℚ) (y.value : ℚ) := by
  have hrounded := correctlyRounded_of_roundTo (by decide) h
  rwa [magnitude_of_value_nonneg hx, magnitude_of_value_nonneg (value_nonneg_of_round hx h)] at hrounded

/-- A number from zero on is rounded and then rounded down as long as its rounding lies in the format. -/
private theorem exists_round_floor_iff {n : Int} (hx : 0 ≤ x.value) :
    (∃ y, x.round = .ok y ∧ y.floor = .ok n) ↔
      ∃ z : ℝ, CorrectlyRounded precision (x.value : ℚ) z ∧ z < 10 ^ (greatestExponent + 1) ∧ n = ⌊z⌋ := by
  constructor
  · rintro ⟨y, hy, hfloor⟩
    obtain ⟨-, hn⟩ := floor_eq_ok_iff.mp hfloor
    have hend := (round_spec hy).2.2
    rw [← Rat.cast_lt (K := ℝ), Rat.cast_zpow, Rat.cast_ofNat] at hend
    exact ⟨_, correctlyRounded_value hx hy, hend, by rw [hn, Rat.floor_cast]⟩
  · rintro ⟨z, hz, hend, hn⟩
    obtain ⟨y, hy⟩ : ∃ y, x.round = .ok y := by
      refine exists_roundTo_of_lt (by decide) ?_ hend
      rwa [magnitude_of_value_nonneg hx]
    have hz_eq : z = (y.value : ℚ) :=
      hz.unique (by decide) (by exact_mod_cast hx) (correctlyRounded_value hx hy)
    have hfloor : n = ⌊y.value⌋ := by rw [hn, hz_eq, Rat.floor_cast]
    exact ⟨y, hy, floor_eq_ok_iff.mpr ⟨value_nonneg_of_round hx hy, hfloor⟩⟩

private theorem value_exactMul_tenPower {d : ℕ} (x : Decimal) (h : tenPower d = .ok y) :
    (exactMul x y).value = x.value * 10 ^ (d : ℤ) := by
  obtain ⟨hsign, hpower, -⟩ := tenPower_natCast_spec h
  rw [value_exactMul, value_of_not_negative hsign, hpower, zpow_natCast]

end Decimal

/-! ### Scaling -/

open Decimal

variable {amount : Scalar} {x : Decimal} {decimals n : Int}

/-- The steps of scaling a finite amount. -/
private theorem scaleToUnits_eq_ok_iff_exists (hread : Numeral.ofScalar amount = .ok (.finite x)) :
    scaleToUnits amount decimals = .ok n ↔
      0 ≤ decimals ∧ ∃ unit product,
        tenPower decimals = .ok unit ∧ x.mul unit = .ok product ∧ product.floor = .ok n := by
  unfold scaleToUnits
  by_cases hdecimals : decimals < 0
  · rw [if_pos hdecimals]
    simp [throw, throwThe, MonadExceptOf.throw, not_le.mpr hdecimals]
  · rw [if_neg hdecimals]
    simp only [hread, ok_bind, bind_eq_ok_iff, liftM_eq_liftSignal, liftSignal_eq_ok_iff,
      Numeral.mul_finite_eq_ok_iff]
    constructor
    · rintro ⟨unit, hunit, _, ⟨product, hproduct, rfl⟩, hfloor⟩
      exact ⟨not_lt.mp hdecimals, unit, product, hunit, hproduct, hfloor⟩
    · rintro ⟨-, unit, product, hunit, hproduct, hfloor⟩
      exact ⟨unit, hunit, _, ⟨product, hproduct, rfl⟩, hfloor⟩

/-- An amount is scaled as long as the power of ten and the rounded product lie in the format. -/
theorem scaleToUnits_eq_ok_iff (hread : Numeral.ofScalar amount = .ok (.finite x)) (hx : 0 ≤ x.value) :
    scaleToUnits amount decimals = .ok n ↔
      0 ≤ decimals ∧ decimals ≤ greatestExponent ∧
        ∃ z : ℝ, CorrectlyRounded precision (x.value * 10 ^ decimals : ℚ) z ∧ z < 10 ^ (greatestExponent + 1) ∧
          n = ⌊z⌋ := by
  rw [scaleToUnits_eq_ok_iff_exists hread]
  refine and_congr_right fun hdecimals => ?_
  lift decimals to ℕ using hdecimals
  have hscaled : 0 ≤ x.value * 10 ^ (decimals : ℤ) := mul_nonneg hx (zpow_nonneg (by norm_num) _)
  constructor
  · rintro ⟨unit, product, hunit, hproduct, hfloor⟩
    rw [← value_exactMul_tenPower x hunit] at hscaled ⊢
    obtain ⟨-, -, hrange⟩ := tenPower_natCast_spec hunit
    exact ⟨hrange, (exists_round_floor_iff hscaled).mp ⟨product, hproduct, hfloor⟩⟩
  · rintro ⟨hrange, hrounded⟩
    obtain ⟨unit, hunit, -⟩ := exists_tenPower (leastExponent_le_natCast precision decimals) hrange
    rw [← value_exactMul_tenPower x hunit] at hscaled hrounded
    obtain ⟨product, hproduct, hfloor⟩ := (exists_round_floor_iff hscaled).mpr hrounded
    exact ⟨unit, product, hunit, hproduct, hfloor⟩

/-- The number of units of a short amount is exact. -/
theorem Decimal.IsShort.floor_eq {z : ℝ} (hshort : x.IsShort precision) (hx : 0 ≤ x.value)
    (h : CorrectlyRounded precision (x.value * 10 ^ decimals : ℚ) z) : ⌊z⌋ = ⌊x.value * 10 ^ decimals⌋ := by
  obtain ⟨m, k, hm, hmagnitude⟩ := hshort
  have hscaled : x.value * 10 ^ decimals = (m : ℤ) * 10 ^ (k + decimals) := by
    rw [← magnitude_of_value_nonneg hx, hmagnitude, zpow_add₀ (by norm_num), Int.cast_natCast, mul_assoc]
  have hcast : ((x.value * 10 ^ decimals : ℚ) : ℝ) = ((m : ℤ) : ℝ) * 10 ^ (k + decimals) := by
    rw [hscaled]
    push_cast
    rfl
  rw [hcast] at h
  rw [← Rat.floor_cast (α := ℝ), hcast]
  exact h.floor_eq_of_multiple (by decide) (Int.natCast_nonneg m) (by exact_mod_cast hm)

private theorem exists_rounded_scaled (hx : 0 ≤ x.value) (decimals : Int) :
    ∃ z : ℝ, CorrectlyRounded precision (x.value * 10 ^ decimals : ℚ) z := by
  have hspelled : magnitude ⟨false, x.coefficient, x.exponent + decimals⟩ = x.value * 10 ^ decimals := by
    rw [← magnitude_of_value_nonneg hx, magnitude, magnitude, zpow_add₀ (by norm_num), mul_assoc]
  rw [← hspelled]
  exact exists_correctlyRounded (by decide) _

/-- A short amount is rounded down exactly, a long one is carried to the next integer at most, and greater amounts
have no fewer units. -/
theorem scaleToUnits_floor (hread : Numeral.ofScalar amount = .ok (.finite x)) (hx : 0 ≤ x.value)
    (hn : scaleToUnits amount decimals = .ok n) :
    (x.IsShort precision → n = ⌊x.value * 10 ^ decimals⌋) ∧
    (n ≤ u64Max → ⌊x.value * 10 ^ decimals⌋ ≤ n ∧ n ≤ ⌊x.value * 10 ^ decimals⌋ + 1) ∧
    ∀ amount' x', Numeral.ofScalar amount' = .ok (.finite x') → 0 ≤ x'.value → x'.value ≤ x.value →
      ∃ n', scaleToUnits amount' decimals = .ok n' ∧ n' ≤ n := by
  obtain ⟨hdecimals, hrange, z, hz, hend, rfl⟩ := (scaleToUnits_eq_ok_iff hread hx).mp hn
  have hpower : (0 : ℚ) < 10 ^ decimals := zpow_pos (by norm_num) decimals
  have hscaled : (0 : ℝ) ≤ (x.value * 10 ^ decimals : ℚ) := by exact_mod_cast mul_nonneg hx hpower.le
  refine ⟨fun hshort => hshort.floor_eq hx hz, ?_, ?_⟩
  · intro hmax
    have hz_lt : z < 10 ^ precision := by
      have hfloor : (⌊z⌋ : ℝ) ≤ u64Max := by exact_mod_cast hmax
      have hmax_lt : (u64Max : ℝ) + 1 < 10 ^ precision := by norm_num [u64Max, precision]
      have hz_floor := Int.lt_floor_add_one z
      linarith
    have hmem := hz.floor_mem (by decide) hscaled hz_lt
    rwa [Rat.floor_cast] at hmem
  · intro amount' x' hread' hx' hle
    obtain ⟨z', hz'⟩ := exists_rounded_scaled hx' decimals
    have hscaled' : (0 : ℝ) ≤ (x'.value * 10 ^ decimals : ℚ) := by exact_mod_cast mul_nonneg hx' hpower.le
    have hscaled_le : ((x'.value * 10 ^ decimals : ℚ) : ℝ) ≤ (x.value * 10 ^ decimals : ℚ) := by
      exact_mod_cast mul_le_mul_of_nonneg_right hle hpower.le
    have hz_le : z' ≤ z := hz'.mono (by decide) hscaled' hscaled_le hz
    refine ⟨⌊z'⌋, ?_, Int.floor_mono hz_le⟩
    rw [scaleToUnits_eq_ok_iff hread' hx']
    exact ⟨hdecimals, hrange, z', hz', hz_le.trans_lt hend, rfl⟩

/-- One token less `10 ^ (-61)` has a digit too many and is carried to one token, and three quarters of a token are
exact. -/
theorem scaleToUnits_floor_carried :
    Numeral.ofScalar (.text "0.9999999999999999999999999999999999999999999999999999999999999") =
      .ok (.finite ⟨false, 10 ^ 61 - 1, -61⟩) ∧
    scaleToUnits (.text "0.9999999999999999999999999999999999999999999999999999999999999") 6 = .ok 1000000 ∧
    ⌊Decimal.value ⟨false, 10 ^ 61 - 1, -61⟩ * 10 ^ (6 : Int)⌋ + 1 = (1000000 : Int) ∧
    Decimal.IsShort precision ⟨false, 75, -2⟩ ∧
    ∃ n : Int, scaleToUnits (.decimal (.finite ⟨false, 75, -2⟩)) 6 = .ok n ∧ n ≤ 1000000 ∧
      n = ⌊Decimal.value ⟨false, 75, -2⟩ * 10 ^ (6 : Int)⌋ := by
  have hread : Numeral.ofScalar (.text "0.9999999999999999999999999999999999999999999999999999999999999") =
      .ok (.finite ⟨false, 10 ^ 61 - 1, -61⟩) := eq_ok_of_toOption (by decide +kernel)
  have hlong : scaleToUnits (.text "0.9999999999999999999999999999999999999999999999999999999999999") 6 =
      .ok 1000000 := eq_ok_of_toOption (by decide +kernel)
  have hvalue : Decimal.value ⟨false, 10 ^ 61 - 1, -61⟩ = 1 - 1 / 10 ^ 61 := by
    norm_num [Decimal.value, magnitude]
  have hshort : Decimal.IsShort precision ⟨false, 75, -2⟩ := isShort_of_digits_le (by decide)
  have hshort_value : Decimal.value ⟨false, 75, -2⟩ = 3 / 4 := by norm_num [Decimal.value, magnitude]
  obtain ⟨-, hcarried, hmono⟩ := scaleToUnits_floor hread (value_nonneg rfl) hlong
  obtain ⟨-, hnext⟩ := hcarried (by decide)
  obtain ⟨n, hn, hn_le⟩ := hmono (.decimal (.finite ⟨false, 75, -2⟩)) _ rfl (value_nonneg rfl)
    (by rw [hshort_value, hvalue]; norm_num)
  obtain ⟨hexact, -, -⟩ := scaleToUnits_floor rfl (value_nonneg rfl) hn
  have hbelow : ⌊Decimal.value ⟨false, 10 ^ 61 - 1, -61⟩ * 10 ^ (6 : Int)⌋ < 1000000 := by
    rw [hvalue, Int.floor_lt]
    norm_num
  exact ⟨hread, hlong, by omega, hshort, n, hn, hn_le, hexact hshort⟩

end BondingCurve
