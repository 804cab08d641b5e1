import BondingCurve.Proofs.Outcomes
import BondingCurve.Proofs.RoundedOperations

/-!
# Arithmetic on values

A decimal keeps track of its spelling, and so do the operations; but the number that a result denotes, and whether there
is a result at all, depends on the numbers that the operands denote (`Decimal.SameValue`).

* (comparison) `value_eq_iff`, `lt_iff`: comparisons are those of the values.
* (rounding) The rounding of a number is one number, and there is none exactly if it lies above the end of the format.
  So two spellings that both stand for one exact number are rounded with the same outcome (`alike_roundTo`).
* (operations) `SameValue.add`, `SameValue.mul`, `SameValue.div`, `SameValue.sqrt`, `SameValue.power`,
  `SameValue.floor`.  A quotient or root may be spelled in different ways before it is rounded, but each of them stands
  for the exact one.
-/

namespace BondingCurve.Decimal

variable {x x' y y' z : Decimal} {digits : ℕ}

/-- Two spellings of one number. -/
def SameValue (x y : Decimal) : Prop :=
  x.value = y.value

/-- Both operations have results with one value, or fail for one reason. -/
abbrev SameResult : Except Signal Decimal → Except Signal Decimal → Prop :=
  Alike Eq SameValue

/-! ### Signs -/

/-- A value is a magnitude, and a sign unless it is zero. -/
theorem value_eq_iff :
    x.value = y.value ↔ x.magnitude = y.magnitude ∧ (x.magnitude = 0 ∨ x.negative = y.negative) := by
  constructor
  · intro h
    have hmagnitude : x.magnitude = y.magnitude := by rw [← abs_value, ← abs_value, h]
    refine ⟨hmagnitude, ?_⟩
    by_cases hsign : x.negative = y.negative
    · exact .inr hsign
    · -- The number is its own opposite.
      left
      unfold value at h
      rw [← hmagnitude] at h
      cases hx : x.negative <;> cases hy : y.negative <;> simp only [hx, hy, if_true, Bool.false_eq_true, if_false] at h
      · exact absurd (hx.trans hy.symm) hsign
      · linarith
      · linarith
      · exact absurd (hx.trans hy.symm) hsign
  · rintro ⟨hmagnitude, hzero | hsign⟩
    · unfold value
      rw [← hmagnitude, hzero]
      simp
    · unfold value
      rw [hmagnitude, hsign]

namespace SameValue

theorem refl (x : Decimal) : SameValue x x := rfl

/-- Zero has spellings with either sign and any exponent. -/
private theorem of_coefficient_eq_zero (hx : x.coefficient = 0) (hy : y.coefficient = 0) : SameValue x y :=
  (value_eq_zero_iff.mpr hx).trans (value_eq_zero_iff.mpr hy).symm

private theorem magnitude_eq (h : SameValue x y) : x.magnitude = y.magnitude :=
  (value_eq_iff.mp h).1

theorem negative_eq (h : SameValue x y) (hx : x.coefficient ≠ 0) : x.negative = y.negative :=
  (value_eq_iff.mp h).2.resolve_left fun hzero => hx (magnitude_eq_zero_iff.mp hzero)

private theorem coefficient_eq_zero_iff (h : SameValue x y) : x.coefficient = 0 ↔ y.coefficient = 0 := by
  rw [← magnitude_eq_zero_iff, ← magnitude_eq_zero_iff, h.magnitude_eq]

theorem isPositive_eq (h : SameValue x y) : x.isPositive = y.isPositive := by
  rw [Bool.eq_iff_iff, isPositive_iff, isPositive_iff, h]

private theorem isNegative_eq (h : SameValue x y) : x.isNegative = y.isNegative := by
  rw [Bool.eq_iff_iff, isNegative_iff, isNegative_iff, h]

end SameValue

/-! ### Comparison -/

/-- The place of the first digit decides, and at one place the digits do. -/
private theorem magnitudeLt_iff : x.magnitudeLt y = true ↔ x.magnitude < y.magnitude := by
  unfold magnitudeLt
  by_cases hx : x.coefficient = 0
  · rw [if_pos hx, magnitude_of_coefficient hx, magnitude_pos_iff]
    simp
  by_cases hy : y.coefficient = 0
  · rw [if_neg hx, if_pos hy, magnitude_of_coefficient hy]
    simpa using x.magnitude_nonneg
  rw [if_neg hx, if_neg hy]
  -- A lower first digit puts a power of ten between the numbers.
  have hbelow : ∀ {u v : Decimal}, v.coefficient ≠ 0 → u.adjusted < v.adjusted → u.magnitude < v.magnitude := by
    intro u v hv hlt
    calc u.magnitude < 10 ^ (u.adjusted + 1) := u.magnitude_lt_pow
      _ ≤ 10 ^ v.adjusted := ten_zpow_le (by omega)
      _ ≤ v.magnitude := pow_adjusted_le hv
  by_cases hfirst : x.adjusted = y.adjusted
  · rw [if_neg (not_not.mpr hfirst)]
    have he : (0 : ℚ) < 10 ^ min x.exponent y.exponent := zpow_pos (by norm_num) _
    rw [← coefficientAt_mul (x := x) (min_le_left _ _), ← coefficientAt_mul (x := y) (min_le_right _ _),
      mul_lt_mul_iff_left₀ he, Nat.cast_lt, decide_eq_true_iff]
  · rw [if_pos hfirst, decide_eq_true_iff]
    rcases lt_or_gt_of_ne hfirst with hlt | hgt
    · exact iff_of_true hlt (hbelow hy hlt)
    · exact iff_of_false hgt.not_gt (hbelow hx hgt).not_gt

theorem lt_iff : x.lt y = true ↔ x.value < y.value := by
  have hnegative : ∀ {u : Decimal}, u.value < 0 → u.isNegative = true ∧ u.value = -u.magnitude := by
    intro u hu
    refine ⟨isNegative_iff.mpr hu, ?_⟩
    rw [← abs_value, abs_of_neg hu, neg_neg]
  have hother : ∀ {u : Decimal}, ¬u.value < 0 → u.isNegative = false ∧ u.value = u.magnitude := by
    intro u hu
    refine ⟨Bool.eq_false_iff.mpr (mt isNegative_iff.mp hu), ?_⟩
    rw [← abs_value, abs_of_nonneg (not_lt.mp hu)]
  unfold lt
  by_cases hx : x.value < 0 <;> by_cases hy : y.value < 0
  · rw [(hnegative hx).1, (hnegative hy).1, (hnegative hx).2, (hnegative hy).2, neg_lt_neg_iff, ← magnitudeLt_iff]
    simp
  · rw [(hnegative hx).1, (hother hy).1]
    exact iff_of_true (by simp) (hx.trans_le (not_lt.mp hy))
  · rw [(hother hx).1, (hnegative hy).1]
    exact iff_of_false (by simp) (hy.trans_le (not_lt.mp hx)).not_gt
  · rw [(hother hx).1, (hother hy).1, (hother hx).2, (hother hy).2, ← magnitudeLt_iff]
    simp

theorem sameNumber_iff : x.sameNumber y = true ↔ x.value = y.value := by
  rw [sameNumber, Bool.and_eq_true, Bool.not_eq_true', Bool.not_eq_true', ← Bool.not_eq_true, ← Bool.not_eq_true,
    lt_iff, lt_iff, not_lt, not_lt, le_antisymm_iff, and_comm]

theorem SameValue.lt_eq (hx : SameValue x x') (hy : SameValue y y') : x.lt y = x'.lt y' := by
  rw [Bool.eq_iff_iff, lt_iff, lt_iff, hx, hy]

/-! ### Rounding -/

/-- Rounding fails for one reason only. -/
private theorem eq_overflow_of_roundTo {e : Signal} (h : x.roundTo digits = .error e) : e = .overflow := by
  unfold roundTo at h
  dsimp only at h
  split_ifs at h
  · exact (Except.error.inj h).symm
  · exact (Except.error.inj h).symm

/-- A decimal that is rounded to a number above the end of the format has no rounding in it. -/
private theorem roundTo_of_not_lt (hdigits : 0 < digits) {q : ℝ} (hq : CorrectlyRounded digits (x.magnitude : ℚ) q)
    (hwide : ¬q < 10 ^ (greatestExponent + 1)) : x.roundTo digits = .error .overflow := by
  cases h : x.roundTo digits with
  | error e => rw [eq_overflow_of_roundTo h]
  | ok y =>
    refine absurd ?_ hwide
    have hfits := (roundTo_spec hdigits h).2.2
    rw [hq.unique hdigits x.cast_magnitude_nonneg (correctlyRounded_of_roundTo hdigits h), ← not_le,
      pow_le_cast_magnitude, not_le]
    exact hfits

/-- Decimals that are rounded as one number is have one outcome. -/
theorem alike_roundTo {q : ℝ} (hdigits : 0 < digits) (hq : 0 ≤ q)
    (hx : ∀ r, CorrectlyRounded digits (x.magnitude : ℚ) r → CorrectlyRounded digits q r)
    (hy : ∀ r, CorrectlyRounded digits (y.magnitude : ℚ) r → CorrectlyRounded digits q r)
    (hsign : q = 0 ∨ x.negative = y.negative) : SameResult (x.roundTo digits) (y.roundTo digits) := by
  obtain ⟨r, hxr⟩ := exists_correctlyRounded hdigits x
  obtain ⟨r', hyr⟩ := exists_correctlyRounded hdigits y
  obtain rfl : r = r' := (hx r hxr).unique hdigits hq (hy r' hyr)
  by_cases hfits : r < 10 ^ (greatestExponent + 1)
  · obtain ⟨u, hu⟩ := exists_roundTo_of_lt hdigits hxr hfits
    obtain ⟨v, hv⟩ := exists_roundTo_of_lt hdigits hyr hfits
    have hu_eq : ((u.magnitude : ℚ) : ℝ) = r :=
      (correctlyRounded_of_roundTo hdigits hu).unique hdigits x.cast_magnitude_nonneg hxr
    have hv_eq : ((v.magnitude : ℚ) : ℝ) = r :=
      (correctlyRounded_of_roundTo hdigits hv).unique hdigits y.cast_magnitude_nonneg hyr
    rw [hu, hv]
    refine .ok (value_eq_iff.mpr ⟨by exact_mod_cast hu_eq.trans hv_eq.symm, ?_⟩)
    rcases hsign with rfl | hsign
    · left
      rw [(hx r hxr).eq_zero] at hu_eq
      exact_mod_cast hu_eq
    · right
      rw [(roundTo_spec hdigits hu).1, (roundTo_spec hdigits hv).1, hsign]
  · rw [roundTo_of_not_lt hdigits hxr hfits, roundTo_of_not_lt hdigits hyr hfits]
    exact .error rfl

namespace SameValue

theorem roundTo (h : SameValue x y) (hdigits : 0 < digits) : SameResult (x.roundTo digits) (y.roundTo digits) := by
  have hmagnitude := h.magnitude_eq
  refine alike_roundTo hdigits x.cast_magnitude_nonneg (fun r hr => hr) (fun r hr => ?_) ?_
  · rwa [hmagnitude]
  · rcases (value_eq_iff.mp h).2 with hzero | hsign
    · exact .inl (by rw [hzero, Rat.cast_zero])
    · exact .inr hsign

theorem round (h : SameValue x y) : SameResult x.round y.round :=
  h.roundTo (by decide)

/-! ### Operations -/

theorem exactMul (hx : SameValue x x') (hy : SameValue y y') : SameValue (exactMul x y) (exactMul x' y') := by
  show (Decimal.exactMul x y).value = (Decimal.exactMul x' y').value
  rw [value_exactMul, value_exactMul, hx, hy]

theorem mul (hx : SameValue x x') (hy : SameValue y y') : SameResult (x.mul y) (x'.mul y') :=
  (hx.exactMul hy).round

theorem add (hx : SameValue x x') (hy : SameValue y y') : SameResult (x.add y) (x'.add y') := by
  refine SameValue.round ?_
  show (exactAdd x y).value = (exactAdd x' y').value
  rw [value_exactAdd, value_exactAdd, hx, hy]

theorem div (hx : SameValue x x') (hy : SameValue y y') : SameResult (x.div y) (x'.div y') := by
  unfold Decimal.div
  by_cases hy_zero : y.coefficient = 0
  · rw [if_pos hy_zero, if_pos (hy.coefficient_eq_zero_iff.mp hy_zero)]
    exact .ite hx.coefficient_eq_zero_iff (.error rfl) (.error rfl)
  have hy_zero' := mt hy.coefficient_eq_zero_iff.mpr hy_zero
  rw [if_neg hy_zero, if_neg hy_zero']
  by_cases hx_zero : x.coefficient = 0
  · rw [if_pos hx_zero, if_pos (hx.coefficient_eq_zero_iff.mp hx_zero)]
    exact (of_coefficient_eq_zero rfl rfl).round
  have hx_zero' := mt hx.coefficient_eq_zero_iff.mpr hx_zero
  rw [if_neg hx_zero, if_neg hx_zero']
  obtain ⟨w, hw, hsign, hstands⟩ := standsFor_quotient hx_zero hy_zero
  obtain ⟨w', hw', hsign', hstands'⟩ := standsFor_quotient hx_zero' hy_zero'
  rw [← hx.magnitude_eq, ← hy.magnitude_eq] at hstands'
  rw [hw, hw']
  refine alike_roundTo (by decide) (div_nonneg x.cast_magnitude_nonneg y.cast_magnitude_nonneg) hstands.rounded
    hstands'.rounded (.inr ?_)
  rw [hsign, hsign', hx.negative_eq hx_zero, hy.negative_eq hy_zero]

theorem sqrt (h : SameValue x y) : SameResult x.sqrt y.sqrt := by
  unfold Decimal.sqrt
  by_cases hzero : x.coefficient = 0
  · rw [if_pos hzero, if_pos (h.coefficient_eq_zero_iff.mp hzero)]
    exact (of_coefficient_eq_zero rfl rfl).round
  have hzero' := mt h.coefficient_eq_zero_iff.mpr hzero
  rw [if_neg hzero, if_neg hzero', h.negative_eq hzero]
  refine .ite Iff.rfl (.error rfl) ?_
  obtain ⟨w, hw, hsign, hstands⟩ := standsFor_root hzero
  obtain ⟨w', hw', hsign', hstands'⟩ := standsFor_root hzero'
  rw [← h.magnitude_eq] at hstands'
  rw [hw, hw']
  exact alike_roundTo (by decide) (Real.sqrt_nonneg _) hstands.rounded hstands'.rounded
    (.inr (hsign.trans hsign'.symm))

/-- Squaring and multiplying keep to the values at every step. -/
theorem powerTo (h : SameValue x y) (hdigits : 0 < digits) (n : ℕ) :
    SameResult (x.powerTo digits n) (y.powerTo digits n) := by
  -- The recursion halves the exponent.
  induction n using Nat.strong_induction_on with
  | _ n ih =>
    rcases n with _ | _ | n
    · rw [Decimal.powerTo, Decimal.powerTo]
      exact .ok rfl
    · rw [Decimal.powerTo, Decimal.powerTo]
      exact .ok h
    · simp only [Decimal.powerTo]
      refine (ih (n / 2 + 1) (by omega)).bind fun half half' hhalf => ?_
      refine ((hhalf.exactMul hhalf).roundTo hdigits).bind fun square square' hsquare => ?_
      exact .ite Iff.rfl (.ok hsquare) ((hsquare.exactMul h).roundTo hdigits)

theorem power (h : SameValue x y) (n : ℕ) : SameResult (x.power n) (y.power n) := by
  unfold Decimal.power
  refine .ite h.coefficient_eq_zero_iff (.ite Iff.rfl (.error rfl) (.ok ?_)) ?_
  · exact of_coefficient_eq_zero rfl rfl
  · exact (h.powerTo (powerDigits_pos n) n).bind fun u v huv => huv.round

theorem floor (h : SameValue x y) : SameOutcome x.floor y.floor := by
  unfold Decimal.floor
  refine .ite (by rw [h.isNegative_eq]) (.error rfl) (.ok ?_)
  rw [floorMagnitude_eq, floorMagnitude_eq, h.magnitude_eq]

end SameValue

end BondingCurve.Decimal
