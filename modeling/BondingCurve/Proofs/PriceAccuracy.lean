import BondingCurve.Price
import BondingCurve.Proofs.RoundedOperations

/-!
# Accuracy of sqrt prices

From a price to its sqrt price there are three roundings, of a quotient, of its root and of a product, and then the
integer part is taken (`Encodes`).

* (order) Each step is monotone, and so are they together (`Encodes.mono`).
* (errors) A root halves a relative error, and the three errors together are a few units in the last of 60 digits
  (`Encodes.abs_sub_le`).  That is far below one for a sqrt price, so the integer part is the right one, unless the
  exact root almost is an integer (`sqrtPriceOfPrice_accurate`).
* (small prices) Next to the least exponent the relative error is unbounded, but there the root is next to zero.
-/

namespace BondingCurve

open Decimal

/-! ### Errors -/

/-- Numbers whose squares are close are close. -/
theorem abs_sub_le_of_sq {d D u η δ : ℝ} (hd : 0 ≤ d) (hD : 0 ≤ D) (hu : 0 ≤ u) (hδ : 0 ≤ δ) (hη : u * η ≤ δ ^ 2)
    (h : |d ^ 2 - D ^ 2| ≤ u * (D ^ 2 + η)) : |d - D| ≤ u * D + δ := by
  by_contra hfar
  have hgap : u * D + δ < |d - D| := not_le.mp hfar
  have hfactor : |d ^ 2 - D ^ 2| = |d - D| * (d + D) := by
    rw [sq_sub_sq, abs_mul, abs_of_nonneg (add_nonneg hd hD), mul_comm]
  have huD := mul_nonneg hu hD
  -- The sum is at least `D` and at least the gap.
  have hsum : δ < d + D := by
    have := abs_sub_le_iff.mpr (⟨by linarith, by linarith⟩ : d - D ≤ d + D ∧ D - d ≤ d + D)
    linarith
  have hproduct : u * D * D + δ * δ < |d - D| * (d + D) :=
    calc u * D * D + δ * δ ≤ u * D * (d + D) + δ * (d + D) :=
          add_le_add (mul_le_mul_of_nonneg_left (by linarith) huD) (mul_le_mul_of_nonneg_left hsum.le hδ)
      _ = (u * D + δ) * (d + D) := by ring
      _ < |d - D| * (d + D) := mul_lt_mul_of_pos_right hgap (by linarith)
  have hsquares : u * (D ^ 2 + η) ≤ u * D * D + δ * δ := by
    rw [mul_add]
    linarith [pow_two D, pow_two δ]
  linarith

/-! ### From a price to its sqrt price -/

/-- `v` is the scaled root of a price `A` in smallest units, after the roundings of the quotient, the root and the
product. -/
def Encodes (A v : ℝ) : Prop :=
  ∃ a s : ℝ, CorrectlyRounded precision A a ∧ CorrectlyRounded precision (Real.sqrt a) s ∧
    CorrectlyRounded precision (s * oneQ64) v

theorem cast_oneQ64 : (oneQ64 : ℝ) = 2 ^ 64 := by norm_num [oneQ64]

namespace Encodes

variable {A A' v v' : ℝ}

theorem mono (hA : 0 ≤ A) (hle : A ≤ A') (h : Encodes A v) (h' : Encodes A' v') : v ≤ v' := by
  obtain ⟨a, s, ha, hs, hv⟩ := h
  obtain ⟨a', s', ha', hs', hv'⟩ := h'
  rw [cast_oneQ64] at hv hv'
  have hdigits : 0 < precision := by decide
  have haa' : a ≤ a' := ha.mono hdigits hA hle ha'
  have hss' : s ≤ s' := hs.mono hdigits (Real.sqrt_nonneg _) (Real.sqrt_le_sqrt haa') hs'
  have hs_nonneg : 0 ≤ s * 2 ^ 64 := mul_nonneg (hs.nonneg (Real.sqrt_nonneg _)) (by positivity)
  exact hv.mono hdigits hs_nonneg (mul_le_mul_of_nonneg_right hss' (by positivity)) hv'

/-- The error of the three roundings together. -/
theorem abs_sub_le (hA : 0 ≤ A) (h : Encodes A v) :
    |v - Real.sqrt A * 2 ^ 64| ≤ 3 / 10 ^ 59 * (Real.sqrt A * 2 ^ 64) + 1 / 10 ^ 40 := by
  obtain ⟨a, s, ha, hs, hv⟩ := h
  rw [cast_oneQ64] at hv
  have ha_nonneg := ha.nonneg hA
  have hD := Real.sqrt_nonneg A
  have hd := Real.sqrt_nonneg a
  have hs_nonneg := hs.nonneg hd
  have hquotient := ha.abs_sub_le_tiny le_rfl hA
  have hroot := hs.abs_sub_le_tiny le_rfl hd
  have hproduct := hv.abs_sub_le_tiny le_rfl (mul_nonneg hs_nonneg (by positivity))
  rw [← Real.sq_sqrt hA, ← Real.sq_sqrt ha_nonneg] at hquotient
  have hsquares : |Real.sqrt a - Real.sqrt A| ≤ 1 / (2 * 10 ^ 59) * Real.sqrt A + 1 / 10 ^ 100 :=
    abs_sub_le_of_sq hd hD (by positivity) (by positivity) (by norm_num) hquotient
  obtain ⟨hsquares_low, hsquares_high⟩ := abs_le.mp hsquares
  obtain ⟨hroot_low, hroot_high⟩ := abs_le.mp hroot
  obtain ⟨hproduct_low, hproduct_high⟩ := abs_le.mp hproduct
  rw [abs_le]
  constructor <;> linarith

end Encodes

/-! ### The encoder -/

theorem decimalShift_spec {b q : Int} {shift : Decimal} (h : decimalShift b q = .ok shift) :
    shift.negative = false ∧ (shift.coefficient ≠ 0 → shift.magnitude = 10 ^ (b - q)) := by
  rw [decimalShift, ite_error_eq_ok_iff, liftSignal_eq_ok_iff] at h
  exact tenPower_spec h.2

theorem magnitude_oneQ64 : oneQ64Decimal.magnitude = 2 ^ 64 := by
  norm_num [oneQ64Decimal, ofInt, magnitude, oneQ64]

/-- The price of a smallest unit in smallest units. -/
def unitPrice (price : ℚ) (b q : Int) : ℚ := price / 10 ^ (b - q)

theorem encodes_of_encodePrice {p : Decimal} {b q r : Int} (hp : p.negative = false)
    (h : encodePrice p b q = .ok r) : ∃ v : ℝ, Encodes (unitPrice p.value b q : ℚ) v ∧ r = ⌊v⌋ := by
  simp only [encodePrice, bind_eq_ok_iff, liftM_eq_liftSignal, liftSignal_eq_ok_iff] at h
  obtain ⟨shift, hshift, adjusted, hadjusted, root, hroot, scaled, hscaled, hfloor⟩ := h
  obtain ⟨hshift_sign, hshift_eq⟩ := decimalShift_spec hshift
  obtain ⟨hne, hadjusted_sign, hquotient⟩ := correctlyRounded_div hadjusted
  rw [hp, hshift_sign] at hadjusted_sign
  obtain ⟨hroot_sign, hsqrt⟩ := correctlyRounded_sqrt hadjusted_sign hroot
  obtain ⟨hscaled_sign, hproduct⟩ := correctlyRounded_mul hscaled
  rw [hshift_eq hne, ← Rat.cast_div, ← value_of_not_negative hp] at hquotient
  rw [magnitude_oneQ64, Rat.cast_pow, Rat.cast_ofNat, ← cast_oneQ64] at hproduct
  have hsign : scaled.negative = false := by
    rw [hscaled_sign, hroot_sign]
    rfl
  refine ⟨(scaled.magnitude : ℚ), ⟨_, _, hquotient, hsqrt, hproduct⟩, ?_⟩
  rw [Rat.floor_cast, ← value_of_not_negative hsign]
  exact (floor_eq_ok_iff.mp hfloor).2

theorem sqrtPriceOfPrice_eq_ok_iff {price : Scalar} {b q r : Int} :
    (sqrtPriceOfPrice price b q).result = .ok r ↔
      ∃ p, positiveDecimal "price" price = .ok p ∧ encodePrice p b q = .ok r := by
  simp only [sqrtPriceOfPrice, sqrtPriceOfNumeral, positiveDecimal, Traced.result_bind, Traced.result_liftM,
    Traced.result_emit, bind_eq_ok_iff]
  constructor
  · rintro ⟨x, hx, p, hp, _, hr, _, -, ⟨⟩⟩
    exact ⟨p, ⟨x, hx, hp⟩, hr⟩
  · rintro ⟨p, ⟨x, hx, hp⟩, hr⟩
    exact ⟨x, hx, p, hp, r, hr, (), trivial, rfl⟩

/-! ### Accuracy -/

variable {price : Scalar} {b q r : Int}

/-- The square of the exact sqrt price. -/
def exactSquare (price : ℚ) (b q : Int) : ℚ := price * 2 ^ 128 / 10 ^ (b - q)

private theorem sqrt_exactSquare (p : ℚ) (b q : Int) :
    Real.sqrt (exactSquare p b q : ℚ) = Real.sqrt (unitPrice p b q : ℚ) * 2 ^ 64 := by
  have hfactor : ((exactSquare p b q : ℚ) : ℝ) = (unitPrice p b q : ℚ) * (2 ^ 64) ^ 2 := by
    unfold exactSquare unitPrice
    push_cast
    ring
  rw [hfactor, Real.sqrt_mul' _ (by positivity), Real.sqrt_sq (by positivity)]

private theorem floor_eq_or_near {v T ε : ℝ} (h : |v - T| ≤ ε) : ⌊v⌋ = ⌊T⌋ ∨ ∃ m : ℤ, |T - m| ≤ ε := by
  obtain ⟨hlow, hhigh⟩ := abs_le.mp h
  rcases lt_trichotomy ⌊v⌋ ⌊T⌋ with hlt | heq | hlt
  · -- An integer lies above one of the two and not above the other.
    have hv : v < ⌊T⌋ := Int.floor_lt.mp hlt
    have hT := Int.floor_le T
    exact .inr ⟨⌊T⌋, by rw [abs_of_nonneg (by linarith)]; linarith⟩
  · exact .inl heq
  · have hT : T < ⌊v⌋ := Int.floor_lt.mp hlt
    have hv := Int.floor_le v
    exact .inr ⟨⌊v⌋, by rw [abs_of_neg (by linarith)]; linarith⟩

/-- A sqrt price is the floor of the exact one, unless that lies next to an integer, and it grows with the price. -/
theorem sqrtPriceOfPrice_accurate (h : (sqrtPriceOfPrice price b q).result = .ok r) :
    ∃ p, positiveDecimal "price" price = .ok p ∧
      (r ≤ maxSqrtPrice →
        exactSquare p.value b q < (r + 1 + 1 / 10 ^ 29) ^ 2 ∧
        (1 ≤ r → (r - 1 / 10 ^ 29) ^ 2 ≤ exactSquare p.value b q) ∧
        (r = ⌊Real.sqrt (exactSquare p.value b q : ℚ)⌋ ∨
          ∃ m : ℤ, |Real.sqrt (exactSquare p.value b q : ℚ) - m| ≤ 1 / 10 ^ 29)) ∧
      ∀ price' p' r', (sqrtPriceOfPrice price' b q).result = .ok r' → positiveDecimal "price" price' = .ok p' →
        p.value ≤ p'.value → r ≤ r' := by
  obtain ⟨p, hp, hencode⟩ := sqrtPriceOfPrice_eq_ok_iff.mp h
  obtain ⟨hsign, -⟩ := sign_of_isPositive (isPositive_of_positiveDecimal hp)
  obtain ⟨v, hv, rfl⟩ := encodes_of_encodePrice hsign hencode
  have hpower : (0 : ℚ) < 10 ^ (b - q) := zpow_pos (by norm_num) _
  have hunit : 0 ≤ unitPrice p.value b q := div_nonneg (value_nonneg hsign) hpower.le
  have hunit' : (0 : ℝ) ≤ (unitPrice p.value b q : ℚ) := by exact_mod_cast hunit
  refine ⟨p, hp, ?_, ?_⟩
  · intro hmax
    have hsquare_nonneg : 0 ≤ exactSquare p.value b q :=
      div_nonneg (mul_nonneg (value_nonneg hsign) (by positivity)) hpower.le
    have hsquare : ((exactSquare p.value b q : ℚ) : ℝ) = Real.sqrt (exactSquare p.value b q : ℚ) ^ 2 :=
      (Real.sq_sqrt (by exact_mod_cast hsquare_nonneg)).symm
    have herror := hv.abs_sub_le hunit'
    rw [← sqrt_exactSquare] at herror
    have hT := Real.sqrt_nonneg ((exactSquare p.value b q : ℚ) : ℝ)
    generalize Real.sqrt ((exactSquare p.value b q : ℚ) : ℝ) = T at *
    have hfloor := Int.floor_le v
    have hbelow := Int.lt_floor_add_one v
    have hmax' : (⌊v⌋ : ℝ) ≤ maxSqrtPrice := by exact_mod_cast hmax
    have hmax_value : (maxSqrtPrice : ℝ) ≤ 10 ^ 29 - 1 := by norm_num [maxSqrtPrice]
    have hnear : |v - T| ≤ 1 / 10 ^ 29 := by
      obtain ⟨hlow, hhigh⟩ := abs_le.mp herror
      rw [abs_le]
      constructor <;> linarith
    obtain ⟨hlow, hhigh⟩ := abs_le.mp hnear
    refine ⟨?_, ?_, floor_eq_or_near hnear⟩
    · rw [← Rat.cast_lt (K := ℝ), hsquare]
      push_cast
      exact pow_lt_pow_left₀ (by linarith) hT two_ne_zero
    · intro hone
      have hone' : (1 : ℝ) ≤ ⌊v⌋ := by exact_mod_cast hone
      rw [← Rat.cast_le (K := ℝ), hsquare]
      push_cast
      exact pow_le_pow_left₀ (by linarith) (by linarith) 2
  · intro price' p' r' h' hp' hle
    obtain ⟨p'', hp'', hencode'⟩ := sqrtPriceOfPrice_eq_ok_iff.mp h'
    obtain rfl : p'' = p' := Except.ok.inj (hp''.symm.trans hp')
    obtain ⟨hsign', -⟩ := sign_of_isPositive (isPositive_of_positiveDecimal hp')
    obtain ⟨v', hv', rfl⟩ := encodes_of_encodePrice hsign' hencode'
    have hunit_le : unitPrice p.value b q ≤ unitPrice p''.value b q := div_le_div_of_nonneg_right hle hpower.le
    exact Int.floor_mono (hv.mono hunit' (by exact_mod_cast hunit_le) hv')

theorem sqrtPriceOfPrice_accurate_two :
    (sqrtPriceOfPrice (.int 2) 6 9).result = .ok 824963474247118971758 ∧
    exactSquare 2 6 9 < (824963474247118971758 + 1 + 1 / 10 ^ 29) ^ 2 ∧
    (824963474247118971758 - 1 / 10 ^ 29) ^ 2 ≤ exactSquare 2 6 9 ∧
    ∃ r : Int, (sqrtPriceOfPrice (.int 3) 6 9).result = .ok r ∧ 824963474247118971758 ≤ r := by
  have htwo : (sqrtPriceOfPrice (.int 2) 6 9).result = .ok 824963474247118971758 :=
    eq_ok_of_toOption (by decide +kernel)
  have hthree : (sqrtPriceOfPrice (.int 3) 6 9).result = .ok 1010369784169546209609 :=
    eq_ok_of_toOption (by decide +kernel)
  have hprice : positiveDecimal "price" (.int 2) = .ok (.ofInt 2) := rfl
  have hprice' : positiveDecimal "price" (.int 3) = .ok (.ofInt 3) := rfl
  obtain ⟨p, hp, hnear, hmono⟩ := sqrtPriceOfPrice_accurate htwo
  obtain rfl : p = .ofInt 2 := Except.ok.inj (hp.symm.trans hprice)
  obtain ⟨hbelow, habove, -⟩ := hnear (by decide)
  rw [value_ofInt] at hbelow habove
  refine ⟨htwo, ?_, ?_, _, hthree, hmono _ _ _ hthree hprice' (by norm_num)⟩
  · exact_mod_cast hbelow
  · exact_mod_cast habove (by decide)

end BondingCurve
