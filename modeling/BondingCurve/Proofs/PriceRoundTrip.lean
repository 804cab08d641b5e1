import BondingCurve.Proofs.PriceAccuracy

/-!
# From a sqrt price to its price and back

The price of a sqrt price is exact up to one rounding, and the sqrt price of that price is exact up to three more
before the integer part is taken.

* (results) With decimals that do not differ by too much, no step comes near either end of the format, so both
  directions have results (`exists_priceOfSqrtPrice`, `exists_encodePrice`).
* (round trip) All errors together are below one, so what comes back is the sqrt price or one less
  (`sqrtPrice_roundTrip`): an error downwards takes the integer part of a number just below the sqrt price.
* (order) Prices of different sqrt prices are further apart than their errors.
-/

namespace BondingCurve

open Decimal

variable {N M b q : Int}

/-- The exact price of a sqrt price. -/
def exactPrice (N b q : Int) : ℚ := N ^ 2 * 10 ^ (b - q) / 2 ^ 128

private theorem cast_exactPrice (N b q : Int) :
    ((exactPrice N b q : ℚ) : ℝ) = (N * N : Int) * (10 ^ (b - q) / 2 ^ 128) := by
  unfold exactPrice
  push_cast
  ring

/-! ### Bounds -/

private theorem sqrtPrice_bounds (hN : IsSqrtPrice N) : (4 * 10 ^ 9 : ℝ) ≤ N ∧ (N : ℝ) ≤ 8 * 10 ^ 28 := by
  have hlow : (minSqrtPrice : ℝ) ≤ N := by exact_mod_cast hN.1
  have hhigh : (N : ℝ) ≤ maxSqrtPrice := by exact_mod_cast hN.2
  norm_num [minSqrtPrice, maxSqrtPrice] at hlow hhigh
  constructor <;> linarith

private theorem rat_pow_hundred_le : (10 : ℚ) ^ 100 ≤ 10 ^ greatestExponent := by
  rw [← zpow_natCast]
  exact ten_zpow_le (by decide)

/-- The shift does not come near the least number of the format. -/
private theorem leastNormal_le_shift (hk : |b - q| ≤ 900000) :
    (10 : ℝ) ^ (-greatestExponent) ≤ 1 / 10 ^ 200 * 10 ^ (b - q) := by
  obtain ⟨hk_low, -⟩ := abs_le.mp hk
  have hsmall : (1 / 10 ^ 200 : ℝ) = 10 ^ (-200 : ℤ) := by
    rw [zpow_neg, one_div]
    rfl
  rw [hsmall, ← zpow_add₀ (by norm_num)]
  exact zpow_le_zpow_right₀ (by norm_num) ((by decide : -greatestExponent ≤ -200 + -900000).trans (by omega))

private theorem exists_decimalShift (hb : 0 ≤ b) (hq : 0 ≤ q) (hk : |b - q| ≤ 900000) :
    ∃ shift, decimalShift b q = .ok shift ∧ shift.negative = false ∧ shift.coefficient ≠ 0 ∧
      shift.magnitude = 10 ^ (b - q) := by
  obtain ⟨hlow, hhigh⟩ := abs_le.mp hk
  obtain ⟨shift, hshift, hne⟩ := exists_tenPower (k := b - q)
    ((by decide : leastExponent precision ≤ -900000).trans hlow) (hhigh.trans (by decide))
  have hok : decimalShift b q = .ok shift := by
    rw [decimalShift, if_neg (by omega), hshift]
    rfl
  obtain ⟨hsign, hexact⟩ := decimalShift_spec hok
  exact ⟨shift, hok, hsign, hne, hexact hne⟩

private theorem magnitude_pos_of_unitPrice {p : Decimal} (hp : p.negative = false)
    (hlow : 1 / 10 ^ 30 ≤ unitPrice p.value b q) : 0 < p.magnitude := by
  have hpos : 0 < unitPrice p.value b q := lt_of_lt_of_le (by norm_num) hlow
  rw [unitPrice, value_of_not_negative hp] at hpos
  exact (div_pos_iff_of_pos_right (zpow_pos (by norm_num) _)).mp hpos

/-! ### Decoding -/

/-- The square of a sqrt price has fewer digits than the format, and so has every shift of it. -/
private theorem exists_shiftedSquare (hN : IsSqrtPrice N) (hk : |b - q| ≤ 900000) {shift : Decimal}
    (hsign : shift.negative = false) (hshift : shift.magnitude = 10 ^ (b - q)) :
    ∃ square shifted, (ofInt N).mul (ofInt N) = .ok square ∧ square.mul shift = .ok shifted ∧
      shifted.negative = false ∧ shifted.magnitude = (N * N : Int) * 10 ^ (b - q) := by
  have hpos := hN.pos
  obtain ⟨hlow, hhigh⟩ := abs_le.mp hk
  have hd : (ofInt N).magnitude = N := magnitude_ofInt hpos.le
  have hsquare_lt : N * N < 10 ^ 58 := by
    have hle : N * N ≤ maxSqrtPrice * maxSqrtPrice := Int.mul_le_mul hN.2 hN.2 hpos.le (by decide)
    exact hle.trans_lt (by decide)
  have hnonneg : 0 ≤ N * N := mul_nonneg hpos.le hpos.le
  have hdigits : N * N < 10 ^ precision := hsquare_lt.trans (by decide)
  have hfits : ∀ e : ℤ, e ≤ 900000 → ((N * N : Int) : ℚ) * 10 ^ e ≤ 10 ^ greatestExponent := by
    intro e he
    have hsquare_le : ((N * N : Int) : ℚ) ≤ 10 ^ (58 : ℤ) := by exact_mod_cast hsquare_lt.le
    calc ((N * N : Int) : ℚ) * 10 ^ e ≤ 10 ^ (58 : ℤ) * 10 ^ (900000 : ℤ) :=
          mul_le_mul hsquare_le (ten_zpow_le he) (zpow_nonneg (by norm_num) _) (zpow_nonneg (by norm_num) _)
      _ = 10 ^ (58 + 900000 : ℤ) := (zpow_add₀ (by norm_num) _ _).symm
      _ ≤ 10 ^ greatestExponent := ten_zpow_le (by decide)
  have hexact : (ofInt N).magnitude * (ofInt N).magnitude = ((N * N : Int) : ℚ) * 10 ^ (0 : ℤ) := by
    rw [hd, zpow_zero, mul_one, Int.cast_mul]
  obtain ⟨square, hsquare, hsquare_sign, hsquare_eq⟩ :=
    exists_mul_exact hexact hnonneg hdigits (by decide) (hfits 0 (by decide))
  rw [zpow_zero, mul_one] at hsquare_eq
  have hexact' : square.magnitude * shift.magnitude = ((N * N : Int) : ℚ) * 10 ^ (b - q) := by
    rw [hsquare_eq, hshift]
  obtain ⟨shifted, hshifted, hshifted_sign, hshifted_eq⟩ := exists_mul_exact hexact' hnonneg hdigits
    ((by decide : leastExponent precision ≤ -900000).trans hlow) (hfits _ hhigh)
  refine ⟨square, shifted, hsquare, hshifted, ?_, hshifted_eq⟩
  rw [hshifted_sign, hsquare_sign, hsign, bne_self_eq_false]
  rfl

/-- So the price is the rounding of a single quotient. -/
theorem exists_priceOfSqrtPrice (hN : IsSqrtPrice N) (hb : 0 ≤ b) (hq : 0 ≤ q) (hk : |b - q| ≤ 900000) :
    ∃ P, priceOfSqrtPrice N b q = .ok P ∧ P.negative = false ∧
      CorrectlyRounded precision (exactPrice N b q : ℚ) (P.magnitude : ℚ) := by
  have hpos := hN.pos
  obtain ⟨shift, hshift, hshift_sign, -, hshift_eq⟩ := exists_decimalShift hb hq hk
  obtain ⟨square, shifted, hsquare, hshifted, hshifted_sign, hshifted_eq⟩ :=
    exists_shiftedSquare hN hk hshift_sign hshift_eq
  have hunit : oneQ64Decimal.mul oneQ64Decimal = .ok ⟨false, 2 ^ 128, 0⟩ := eq_ok_of_toOption (by decide +kernel)
  have hunit_eq : magnitude ⟨false, 2 ^ 128, 0⟩ = 2 ^ 128 := by norm_num [magnitude]
  have hshifted_pos : 0 < shifted.magnitude := by
    rw [hshifted_eq]
    exact mul_pos (by exact_mod_cast mul_pos hpos hpos) (zpow_pos (by norm_num) _)
  have hfits : 2 * (shifted.magnitude / magnitude ⟨false, 2 ^ 128, 0⟩) ≤ 10 ^ greatestExponent := by
    have hround : shifted.magnitude < 10 ^ (greatestExponent + 1) := (roundTo_spec (by decide) hshifted).2.2
    rw [zpow_add_one₀ (by norm_num)] at hround
    rw [hunit_eq]
    linarith
  obtain ⟨P, hP⟩ := exists_div (coefficient_ne_zero hshifted_pos) (by decide) hfits
  obtain ⟨-, hsign, hrounded⟩ := correctlyRounded_div hP
  refine ⟨P, ?_, ?_, ?_⟩
  · simp only [priceOfSqrtPrice, if_neg (Int.not_lt.mpr hpos.le), hsquare, hshift, hshifted, hunit, hP, ok_bind,
      liftM_eq_liftSignal, liftSignal_ok]
  · rw [hsign, hshifted_sign]
    rfl
  · rw [← Rat.cast_div, hunit_eq, hshifted_eq] at hrounded
    rwa [exactPrice, pow_two, ← Int.cast_mul]

/-! ### Encoding -/

/-- Root and product of a number that is neither extremely small nor extremely large. -/
private theorem exists_scaledRoot {adjusted : Decimal} (hsign : adjusted.negative = false)
    (hlow : 1 / 10 ^ 31 ≤ adjusted.magnitude) (hhigh : adjusted.magnitude ≤ 10 ^ 31) :
    ∃ root scaled, adjusted.sqrt = .ok root ∧ root.mul oneQ64Decimal = .ok scaled ∧ scaled.negative = false := by
  have hpos : 0 < adjusted.magnitude := lt_of_lt_of_le (by norm_num) hlow
  have hroot_le : Real.sqrt (adjusted.magnitude : ℚ) ≤ 10 ^ 16 := by
    have hhigh' := (Rat.cast_le (K := ℝ)).mpr hhigh
    push_cast at hhigh'
    rw [Real.sqrt_le_iff]
    constructor <;> linarith
  have hroot_fits : 2 * Real.sqrt (adjusted.magnitude : ℚ) ≤ 10 ^ 100 := by linarith
  obtain ⟨root, hroot⟩ := exists_sqrt hsign (coefficient_ne_zero hpos) (hroot_fits.trans pow_hundred_le)
  obtain ⟨hroot_sign, hsqrt⟩ := correctlyRounded_sqrt hsign hroot
  obtain ⟨-, hs_high⟩ := abs_le.mp (hsqrt.abs_sub_le_tiny le_rfl (Real.sqrt_nonneg _))
  have hs_le : root.magnitude ≤ 10 ^ 17 := by
    rw [← Rat.cast_le (K := ℝ)]
    push_cast
    linarith
  have hscaled_fits : root.magnitude * oneQ64Decimal.magnitude ≤ 10 ^ 100 := by
    rw [magnitude_oneQ64]
    linarith
  obtain ⟨scaled, hscaled⟩ := exists_mul (hscaled_fits.trans rat_pow_hundred_le)
  refine ⟨root, scaled, hroot, hscaled, ?_⟩
  rw [(correctlyRounded_mul hscaled).1, hroot_sign]
  rfl

/-- A price with such a price of a smallest unit has a sqrt price. -/
theorem exists_encodePrice {p : Decimal} (hp : p.negative = false) (hb : 0 ≤ b) (hq : 0 ≤ q) (hk : |b - q| ≤ 900000)
    (hlow : 1 / 10 ^ 30 ≤ unitPrice p.value b q) (hhigh : unitPrice p.value b q ≤ 10 ^ 30) :
    ∃ r, encodePrice p b q = .ok r := by
  obtain ⟨shift, hshift, hshift_sign, hshift_ne, hshift_eq⟩ := exists_decimalShift hb hq hk
  have hunit : p.magnitude / shift.magnitude = unitPrice p.value b q := by
    rw [unitPrice, hshift_eq, value_of_not_negative hp]
  have hfits : 2 * (p.magnitude / shift.magnitude) ≤ 10 ^ 100 := by
    rw [hunit]
    linarith
  obtain ⟨adjusted, hadjusted⟩ :=
    exists_div (coefficient_ne_zero (magnitude_pos_of_unitPrice hp hlow)) hshift_ne (hfits.trans rat_pow_hundred_le)
  obtain ⟨-, hsign, hquotient⟩ := correctlyRounded_div hadjusted
  rw [hp, hshift_sign] at hsign
  rw [← Rat.cast_div, hunit] at hquotient
  have hlow' := (Rat.cast_le (K := ℝ)).mpr hlow
  have hhigh' := (Rat.cast_le (K := ℝ)).mpr hhigh
  push_cast at hlow' hhigh'
  obtain ⟨ha_low, ha_high⟩ := abs_le.mp (hquotient.abs_sub_le_tiny le_rfl (by linarith))
  have hadjusted_low : 1 / 10 ^ 31 ≤ adjusted.magnitude := by
    rw [← Rat.cast_le (K := ℝ)]
    push_cast
    linarith
  have hadjusted_high : adjusted.magnitude ≤ 10 ^ 31 := by
    rw [← Rat.cast_le (K := ℝ)]
    push_cast
    linarith
  obtain ⟨root, scaled, hroot, hscaled, hscaled_sign⟩ := exists_scaledRoot hsign hadjusted_low hadjusted_high
  have hfloor : scaled.floor = .ok ⌊scaled.value⌋ := floor_eq_ok_iff.mpr ⟨value_nonneg hscaled_sign, rfl⟩
  refine ⟨⌊scaled.value⌋, ?_⟩
  simp only [encodePrice, bind_eq_ok_iff, liftM_eq_liftSignal, liftSignal_eq_ok_iff]
  exact ⟨shift, hshift, adjusted, hadjusted, root, hroot, scaled, hscaled, hfloor⟩

/-! ### The round trip -/

/-- The exact root of the decoded price is the sqrt price up to far less than one. -/
private theorem abs_sqrt_unitPrice_sub_le {P : Decimal} (hN : IsSqrtPrice N) (hk : |b - q| ≤ 900000)
    (hsign : P.negative = false) (hP : CorrectlyRounded precision (exactPrice N b q : ℚ) (P.magnitude : ℚ)) :
    |Real.sqrt (unitPrice P.value b q : ℚ) * 2 ^ 64 - N| ≤ 1 / 10 ^ 29 := by
  obtain ⟨hN_low, hN_high⟩ := sqrtPrice_bounds hN
  have hshift : (0 : ℝ) < 10 ^ (b - q) := zpow_pos (by norm_num) _
  have hexact : ((exactPrice N b q : ℚ) : ℝ) = (N / 2 ^ 64) ^ 2 * 10 ^ (b - q) := by
    rw [cast_exactPrice]
    push_cast
    ring
  have hunit : ((unitPrice P.value b q : ℚ) : ℝ) = (P.magnitude : ℚ) / 10 ^ (b - q) := by
    rw [unitPrice, value_of_not_negative hsign]
    push_cast
    rfl
  have hunit_nonneg : (0 : ℝ) ≤ (unitPrice P.value b q : ℚ) := by
    rw [hunit]
    exact div_nonneg P.cast_magnitude_nonneg hshift.le
  have hleast := leastNormal_le_shift hk
  have hsquares : |Real.sqrt (unitPrice P.value b q : ℚ) ^ 2 - ((N : ℝ) / 2 ^ 64) ^ 2| ≤
      1 / (2 * 10 ^ 59) * (((N : ℝ) / 2 ^ 64) ^ 2 + 1 / 10 ^ 200) := by
    have herror := hP.abs_sub_le_precision le_rfl (by rw [hexact]; positivity)
    rw [hexact] at herror
    have hscaled : ((P.magnitude : ℚ) : ℝ) = (unitPrice P.value b q : ℚ) * 10 ^ (b - q) := by
      rw [hunit, div_mul_cancel₀ _ hshift.ne']
    rw [hscaled, ← sub_mul, abs_mul, abs_of_pos hshift] at herror
    rw [Real.sq_sqrt hunit_nonneg]
    refine le_of_mul_le_mul_right (herror.trans ?_) hshift
    rw [mul_assoc, add_mul]
    exact mul_le_mul_of_nonneg_left (by linarith) (by positivity)
  have hroots : |Real.sqrt (unitPrice P.value b q : ℚ) - (N : ℝ) / 2 ^ 64| ≤
      1 / (2 * 10 ^ 59) * ((N : ℝ) / 2 ^ 64) + 1 / 10 ^ 100 :=
    abs_sub_le_of_sq (Real.sqrt_nonneg _) (by linarith) (by positivity) (by positivity) (by norm_num) hsquares
  obtain ⟨hlow, hhigh⟩ := abs_le.mp hroots
  rw [abs_le]
  constructor <;> linarith

/-- So the decoded price lies where prices have sqrt prices. -/
private theorem mem_of_root_near {u : ℚ} (hN : IsSqrtPrice N) (hu : 0 ≤ u)
    (hroot : |Real.sqrt u * 2 ^ 64 - N| ≤ 1 / 10 ^ 29) : 1 / 10 ^ 30 ≤ u ∧ u ≤ 10 ^ 30 := by
  obtain ⟨hN_low, hN_high⟩ := sqrtPrice_bounds hN
  obtain ⟨hroot_low, hroot_high⟩ := abs_le.mp hroot
  have hsquare : Real.sqrt u ^ 2 = u := Real.sq_sqrt (by exact_mod_cast hu)
  have hlow : (1 / 10 ^ 15 : ℝ) ≤ Real.sqrt u := by linarith
  have hhigh : Real.sqrt u ≤ (10 ^ 15 : ℝ) := by linarith
  constructor <;> rw [← Rat.cast_le (K := ℝ), ← hsquare]
  · refine le_trans (le_of_eq ?_) (pow_le_pow_left₀ (by positivity) hlow 2)
    norm_num
  · refine (pow_le_pow_left₀ (Real.sqrt_nonneg _) hhigh 2).trans (le_of_eq ?_)
    norm_num

/-- The price of a sqrt price has a sqrt price, and that is the first one or one less. -/
private theorem exists_sqrtPriceOfPrice {P : Decimal} (hN : IsSqrtPrice N) (hb : 0 ≤ b) (hq : 0 ≤ q)
    (hk : |b - q| ≤ 900000) (hsign : P.negative = false)
    (hP : CorrectlyRounded precision (exactPrice N b q : ℚ) (P.magnitude : ℚ)) :
    ∃ r, (sqrtPriceOfPrice (.decimal (.finite P)) b q).result = .ok r ∧ (r = N ∨ r = N - 1) := by
  have hunit : 0 ≤ unitPrice P.value b q := div_nonneg (value_nonneg hsign) (zpow_nonneg (by norm_num) _)
  have hroot := abs_sqrt_unitPrice_sub_le hN hk hsign hP
  obtain ⟨hlow, hhigh⟩ := mem_of_root_near hN hunit hroot
  obtain ⟨r, hr⟩ := exists_encodePrice hsign hb hq hk hlow hhigh
  have hpositive : P.isPositive = true := by
    simp [isPositive, hsign, coefficient_ne_zero (magnitude_pos_of_unitPrice hsign hlow)]
  have hparsed : positiveDecimal "price" (.decimal (.finite P)) = .ok P := by
    simp [positiveDecimal, positiveNumeral, Numeral.ofScalar, hpositive]
  refine ⟨r, sqrtPriceOfPrice_eq_ok_iff.mpr ⟨P, hparsed, hr⟩, ?_⟩
  obtain ⟨v, hv, rfl⟩ := encodes_of_encodePrice hsign hr
  -- The error of encoding and that of the decoded price are below one together.
  obtain ⟨-, hN_high⟩ := sqrtPrice_bounds hN
  obtain ⟨hroot_low, hroot_high⟩ := abs_le.mp hroot
  obtain ⟨hv_low, hv_high⟩ := abs_le.mp (hv.abs_sub_le (by exact_mod_cast hunit))
  have hfloor_low : N - 1 ≤ ⌊v⌋ := by
    rw [Int.le_floor]
    push_cast
    linarith
  have hfloor_high : ⌊v⌋ < N + 1 := by
    rw [Int.floor_lt]
    push_cast
    linarith
  omega

/-- Prices of different sqrt prices are further apart than their errors. -/
private theorem rounded_lt_of_lt {P Q : ℝ} (hM : IsSqrtPrice M) (hN : IsSqrtPrice N) (hlt : M < N)
    (hk : |b - q| ≤ 900000) (hQ : CorrectlyRounded precision (exactPrice M b q : ℚ) Q)
    (hP : CorrectlyRounded precision (exactPrice N b q : ℚ) P) : Q < P := by
  obtain ⟨hN_low, hN_high⟩ := sqrtPrice_bounds hN
  have hleast := leastNormal_le_shift hk
  have hshift : (0 : ℝ) < 10 ^ (b - q) := zpow_pos (by norm_num) _
  rw [cast_exactPrice] at hQ hP
  generalize hc : (10 : ℝ) ^ (b - q) / 2 ^ 128 = c at *
  have hc_pos : 0 < c := by
    rw [← hc]
    positivity
  have hleast_c : (10 : ℝ) ^ (-greatestExponent) ≤ c := by
    rw [← hc]
    linarith
  -- Neighbouring squares differ by more than the larger number.
  have hsquares : ((M * M : Int) : ℝ) + N ≤ (N * N : Int) := by
    have hmul : M * M ≤ (N - 1) * N := Int.mul_le_mul (by omega) hlt.le hM.pos.le (by have := hN.pos; omega)
    have hsum : M * M + N ≤ N * N := by linarith
    exact_mod_cast hsum
  have hgap : ((M * M : Int) : ℝ) * c + N * c ≤ (N * N : Int) * c := by
    rw [← add_mul]
    exact mul_le_mul_of_nonneg_right hsquares hc_pos.le
  have hsize : ((N * N : Int) : ℝ) * c ≤ 8 * 10 ^ 28 * (N * c) := by
    rw [Int.cast_mul, mul_assoc]
    exact mul_le_mul_of_nonneg_right hN_high (mul_nonneg (by linarith) hc_pos.le)
  have hunit : c ≤ N * c := le_mul_of_one_le_left hc_pos.le (by linarith)
  have hM_nonneg : (0 : ℝ) ≤ ((M * M : Int) : ℝ) * c :=
    mul_nonneg (by exact_mod_cast mul_self_nonneg M) hc_pos.le
  obtain ⟨-, hQ_high⟩ := abs_le.mp (hQ.abs_sub_le_precision le_rfl hM_nonneg)
  obtain ⟨hP_low, -⟩ := abs_le.mp (hP.abs_sub_le_precision le_rfl (by linarith))
  generalize (10 : ℝ) ^ (-greatestExponent) = least at *
  linarith

/-- The price of a sqrt price is accepted and leads back to the sqrt price or to one less, and it grows with the sqrt
price. -/
theorem sqrtPrice_roundTrip (hN : IsSqrtPrice N) (hb : 0 ≤ b) (hq : 0 ≤ q) (hk : |b - q| ≤ 900000) :
    ∃ P, priceOfSqrtPrice N b q = .ok P ∧
      (∃ r, (sqrtPriceOfPrice (.decimal (.finite P)) b q).result = .ok r ∧ (r = N ∨ r = N - 1)) ∧
      ∀ M Q, IsSqrtPrice M → M < N → priceOfSqrtPrice M b q = .ok Q → Q.value < P.value := by
  obtain ⟨P, hP, hsign, hrounded⟩ := exists_priceOfSqrtPrice hN hb hq hk
  refine ⟨P, hP, exists_sqrtPriceOfPrice hN hb hq hk hsign hrounded, ?_⟩
  intro M Q hM hlt hQ
  obtain ⟨Q', hQ', hsign', hrounded'⟩ := exists_priceOfSqrtPrice hM hb hq hk
  obtain rfl : Q' = Q := Except.ok.inj (hQ'.symm.trans hQ)
  rw [value_of_not_negative hsign, value_of_not_negative hsign']
  exact_mod_cast rounded_lt_of_lt hM hN hlt hk hrounded' hrounded

theorem sqrtPrice_roundTrip_greatest :
    ∃ P Q, priceOfSqrtPrice maxSqrtPrice 6 9 = .ok P ∧ priceOfSqrtPrice minSqrtPrice 6 9 = .ok Q ∧ Q.value < P.value ∧
      ∃ r, (sqrtPriceOfPrice (.decimal (.finite P)) 6 9).result = .ok r ∧
        (r = maxSqrtPrice ∨ r = maxSqrtPrice - 1) := by
  obtain ⟨P, hP, hback, hmono⟩ :=
    sqrtPrice_roundTrip (N := maxSqrtPrice) (b := 6) (q := 9) (by decide) (by decide) (by decide) (by decide)
  obtain ⟨Q, hQ, -⟩ := exists_priceOfSqrtPrice (N := minSqrtPrice) (b := 6) (q := 9) (by decide) (by decide) (by decide)
    (by decide)
  exact ⟨P, Q, hP, hQ, hmono _ _ (by decide) (by decide) hQ, hback⟩

/-- The greatest sqrt price comes back one less. -/
example :
    ((priceOfSqrtPrice maxSqrtPrice 6 9).toOption.bind fun P =>
      (sqrtPriceOfPrice (.decimal (.finite P)) 6 9).result.toOption) = some (maxSqrtPrice - 1) := by
  decide +kernel

end BondingCurve
