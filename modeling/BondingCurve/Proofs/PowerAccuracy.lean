import BondingCurve.Proofs.RoundedOperations

/-!
# Errors of powers

A computed number is compared with the exact one in units of its 60th digit, and, since a number below the least
normal one is rounded to fewer digits, in units of the least normal number as well (`WithinUnits`).  This is the fine
measure: `Near` allows a hundred such units for each rounding.

* (propagation) The units of summands do not add up (`WithinUnits.add`), those of factors do (`WithinUnits.mul`), and
  one more rounding costs one more unit (`WithinUnits.round`).
* (powers) The squarings on the way to a power have at least three digits more than a result, so that for exponents up
  to 16 only the last rounding counts (`Decimal.power_within`).  Powers that overflow have no result, and powers that
  vanish are within a unit of the least normal number.
* (order) Every rounding on the way is monotone, and so is the power (`Decimal.power_mono`).
-/

namespace BondingCurve

open Decimal (leastNormal leastNormal_pos)

private theorem leastNormal_le_tiny : leastNormal ≤ 1 / 10 ^ 100 := by
  have h : leastNormal ≤ 10 ^ (-100 : ℤ) := ten_zpow_le (by decide)
  norm_num at h ⊢
  exact h

/-! ### Units of the last digit -/

/-- `b` lies within `c` units of the 60th digit of `a`, and `d` units of that of the least normal number. -/
structure WithinUnits (c d a b : ℚ) : Prop where
  nonneg : 0 ≤ a
  error_le : |b - a| ≤ (c * a + d * leastNormal) / 10 ^ 59

namespace WithinUnits

variable {a b c d e f g s : ℚ} {z : Decimal}

theorem mono (hc : c ≤ e) (hd : d ≤ f) (h : WithinUnits c d a b) : WithinUnits e f a b := by
  have hca := mul_le_mul_of_nonneg_right hc h.nonneg
  have hdt := mul_le_mul_of_nonneg_right hd leastNormal_pos.le
  exact ⟨h.nonneg, h.error_le.trans (by linarith)⟩

theorem of_eq (ha : 0 ≤ a) (hc : 0 ≤ c) (hd : 0 ≤ d) : WithinUnits c d a a := by
  have hca := mul_nonneg hc ha
  have hdt := mul_nonneg hd leastNormal_pos.le
  refine ⟨ha, ?_⟩
  rw [sub_self, abs_zero]
  positivity

/-- A few units are nothing against the number itself. -/
private theorem abs_right_le (hc : c ≤ 1000) (hd : d ≤ 1000) (h : WithinUnits c d a b) :
    |b| ≤ a + (a + leastNormal) / 10 ^ 50 := by
  have hnonneg := h.nonneg
  have herror := (h.mono hc hd).error_le
  have ht := leastNormal_pos
  have hsplit : |b| ≤ |b - a| + |a| := by
    have := abs_add_le (b - a) a
    rwa [sub_add_cancel] at this
  rw [abs_of_nonneg hnonneg] at hsplit
  linarith

theorem of_rounds (ha : 0 ≤ a) (h : z.Rounds a) : WithinUnits 1 1 a z.value := by
  rw [Decimal.Rounds, Decimal.unit_precision, abs_of_nonneg ha] at h
  exact ⟨ha, h.trans (by linarith)⟩

theorem round (hc : c ≤ 1000) (hd : d ≤ 1000) (h : WithinUnits c d a b) (hz : z.Rounds b) :
    WithinUnits (c + 101 / 100) (d + 101 / 100) a z.value := by
  have hb := h.abs_right_le hc hd
  have ht := leastNormal_pos
  have hnonneg := h.nonneg
  rw [Decimal.Rounds, Decimal.unit_precision] at hz
  refine ⟨hnonneg, ?_⟩
  calc |z.value - a| ≤ |z.value - b| + |b - a| := abs_sub_le _ _ _
    _ ≤ 1 / 10 ^ 59 * (|b| + leastNormal) + (c * a + d * leastNormal) / 10 ^ 59 := add_le_add hz h.error_le
    _ ≤ ((c + 101 / 100) * a + (d + 101 / 100) * leastNormal) / 10 ^ 59 := by linarith

theorem add (h : WithinUnits c d a b) (h' : WithinUnits c e g s) : WithinUnits c (d + e) (a + g) (b + s) := by
  refine ⟨add_nonneg h.nonneg h'.nonneg, ?_⟩
  calc |b + s - (a + g)| = |b - a + (s - g)| := by rw [add_sub_add_comm]
    _ ≤ |b - a| + |s - g| := abs_add_le _ _
    _ ≤ (c * a + d * leastNormal) / 10 ^ 59 + (c * g + e * leastNormal) / 10 ^ 59 :=
      add_le_add h.error_le h'.error_le
    _ = (c * (a + g) + (d + e) * leastNormal) / 10 ^ 59 := by ring

/-- The least normal number does not count against a number that is not tiny. -/
theorem absorb (hd : d ≤ 1000) (ha : 1 / 10 ^ 60 ≤ a) (h : WithinUnits c d a b) : WithinUnits (c + 1 / 100) 0 a b := by
  have ht := leastNormal_le_tiny
  have hdt := mul_le_mul_of_nonneg_right hd leastNormal_pos.le
  exact ⟨h.nonneg, h.error_le.trans (by linarith)⟩

/-- Units of two factors add up; the second factor is at most one. -/
theorem mul (hc : 0 ≤ c) (hc' : c ≤ 1000) (hd : 0 ≤ d) (hd' : d ≤ 1000) (he : 0 ≤ e) (he' : e ≤ 1000) (hg : g ≤ 1)
    (h : WithinUnits c d a b) (h' : WithinUnits e 0 g s) :
    WithinUnits (c + e + 1 / 100) (d + 1 / 100) (a * g) (b * s) := by
  have ht := leastNormal_pos
  have hag := mul_nonneg h.nonneg h'.nonneg
  have hsum : 0 ≤ c * a + d * leastNormal := add_nonneg (mul_nonneg hc h.nonneg) (mul_nonneg hd ht.le)
  have hs : |s| ≤ g + g * (e / 10 ^ 59) := by
    have hsplit := abs_add_le (s - g) g
    rw [sub_add_cancel, abs_of_nonneg h'.nonneg] at hsplit
    have herror := h'.error_le
    linarith
  have hfirst : |b - a| * |s| ≤ (c * a + d * leastNormal) / 10 ^ 59 * (g + g * (e / 10 ^ 59)) :=
    mul_le_mul h.error_le hs (abs_nonneg _) (by positivity)
  have hsecond : a * |s - g| ≤ a * ((e * g + 0 * leastNormal) / 10 ^ 59) :=
    mul_le_mul_of_nonneg_left h'.error_le h.nonneg
  have hce : c * e ≤ 1000 * 1000 := mul_le_mul hc' he' he (by norm_num)
  have hde : d * e ≤ 1000 * 1000 := mul_le_mul hd' he' he (by norm_num)
  have hce' := mul_le_mul_of_nonneg_right hce hag
  have htg : leastNormal * g ≤ leastNormal := mul_le_of_le_one_right ht.le hg
  have htg_nonneg := mul_nonneg ht.le h'.nonneg
  have hdtg : d * (leastNormal * g) ≤ d * leastNormal := mul_le_mul_of_nonneg_left htg hd
  have hdetg : d * e * (leastNormal * g) ≤ 1000 * 1000 * leastNormal :=
    mul_le_mul hde htg htg_nonneg (by norm_num)
  refine ⟨hag, ?_⟩
  calc |b * s - a * g| = |(b - a) * s + a * (s - g)| := by
        congr 1
        ring
    _ ≤ |b - a| * |s| + a * |s - g| := by
        refine (abs_add_le _ _).trans (le_of_eq ?_)
        rw [abs_mul, abs_mul, abs_of_nonneg h.nonneg]
    _ ≤ ((c + e + 1 / 100) * (a * g) + (d + 1 / 100) * leastNormal) / 10 ^ 59 := by linarith

/-! ### Longer formats -/

theorem roundTo {x y : Decimal} {digits : ℕ} (hdigits : precision + 3 ≤ digits) (hc : c ≤ 1000) (hd : d ≤ 1000)
    (h : WithinUnits c d a x.magnitude) (hy : x.roundTo digits = .ok y) :
    WithinUnits (c + 1 / 1000) (d + 1 / 1000) a y.magnitude := by
  have hb := h.abs_right_le hc hd
  have ht := leastNormal_pos
  have hnonneg := h.nonneg
  rw [abs_of_nonneg x.magnitude_nonneg] at hb
  have hunit : Decimal.unit digits ≤ 1 / 10 ^ 62 := by
    have hle : Decimal.unit digits ≤ 10 ^ (-62 : ℤ) := by
      apply ten_zpow_le
      rw [precision] at hdigits
      omega
    exact hle.trans (le_of_eq (by norm_num))
  have hround := (Decimal.roundTo_spec (by omega) hy).2.1
  have hmul := mul_le_mul_of_nonneg_right hunit (add_nonneg x.magnitude_nonneg ht.le)
  refine ⟨hnonneg, ?_⟩
  calc |y.magnitude - a| ≤ |y.magnitude - x.magnitude| + |x.magnitude - a| := abs_sub_le _ _ _
    _ ≤ 1 / 10 ^ 62 * (x.magnitude + leastNormal) / 2 + (c * a + d * leastNormal) / 10 ^ 59 :=
      add_le_add (by linarith) h.error_le
    _ ≤ ((c + 1 / 1000) * a + (d + 1 / 1000) * leastNormal) / 10 ^ 59 := by linarith

/-- A square has twice the units.  The mixed term is small against the square or against one. -/
theorem square (hc : 0 ≤ c) (hc' : c ≤ 1) (h : WithinUnits c c a b) :
    WithinUnits (2 * c + 1 / 1000) (2 * c + 1 / 1000) (a * a) (b * b) := by
  have ht := leastNormal_pos
  have ht' := leastNormal_le_tiny
  have ha := h.nonneg
  have haa := mul_nonneg ha ha
  have hmixed : 2 * a * leastNormal ≤ (a * a + 1) * leastNormal :=
    mul_le_mul_of_nonneg_right (by nlinarith [sq_nonneg (a - 1)]) ht.le
  have hsquare : leastNormal * (a * a) ≤ 1 / 10 ^ 100 * (a * a) := mul_le_mul_of_nonneg_right ht' (by positivity)
  have htt : leastNormal * leastNormal ≤ 1 / 10 ^ 100 * leastNormal := mul_le_mul_of_nonneg_right ht' ht.le
  have herror : |b - a| ≤ c * (a + leastNormal) / 10 ^ 59 := h.error_le.trans (by linarith)
  have hsum : |b + a| ≤ 2 * a + (a + leastNormal) / 10 ^ 59 := by
    have hsplit := abs_add_le (b - a) (2 * a)
    have hone : c * (a + leastNormal) ≤ a + leastNormal := mul_le_of_le_one_left (by linarith) hc'
    rw [abs_of_nonneg (by linarith : 0 ≤ 2 * a)] at hsplit
    have hcongr : b - a + 2 * a = b + a := by ring
    rw [hcongr] at hsplit
    linarith
  have hbody : (a + leastNormal) * (2 * a + (a + leastNormal) / 10 ^ 59) ≤
      2 * (a * a) + 2 * leastNormal + (a * a + leastNormal) / 10 ^ 50 := by
    linarith
  refine ⟨by positivity, ?_⟩
  calc |b * b - a * a| = |b - a| * |b + a| := by
        rw [← abs_mul]
        congr 1
        ring
    _ ≤ c * (a + leastNormal) / 10 ^ 59 * (2 * a + (a + leastNormal) / 10 ^ 59) :=
        mul_le_mul herror hsum (abs_nonneg _) (by positivity)
    _ = c * ((a + leastNormal) * (2 * a + (a + leastNormal) / 10 ^ 59)) / 10 ^ 59 := by ring
    _ ≤ c * (2 * (a * a) + 2 * leastNormal + (a * a + leastNormal) / 10 ^ 50) / 10 ^ 59 := by
        have := mul_le_mul_of_nonneg_left hbody hc
        linarith
    _ ≤ ((2 * c + 1 / 1000) * (a * a) + (2 * c + 1 / 1000) * leastNormal) / 10 ^ 59 := by
        have hsmall : c * ((a * a + leastNormal) / 10 ^ 50) ≤ (a * a + leastNormal) / 10 ^ 50 :=
          mul_le_of_le_one_left (by positivity) hc'
        linarith

/-- One more exact factor, on the same side of one. -/
private theorem mul_exact (hc : 0 ≤ c) (hc' : c ≤ 1) (hg : 0 ≤ g) (hside : g ≤ a * g + 1) (h : WithinUnits c c a b) :
    WithinUnits (c + 1 / 1000) (c + 1 / 1000) (a * g) (b * g) := by
  have ht := leastNormal_pos
  have hag := mul_nonneg h.nonneg hg
  have htg : leastNormal * g ≤ leastNormal * (a * g + 1) := mul_le_mul_of_nonneg_left hside ht.le
  have hsmall : leastNormal * (a * g) ≤ 1 / 10 ^ 100 * (a * g) := mul_le_mul_of_nonneg_right leastNormal_le_tiny hag
  have hbody : (a + leastNormal) * g ≤ a * g + leastNormal + 1 / 10 ^ 100 * (a * g) := by linarith
  have hmul := mul_le_mul_of_nonneg_left hbody hc
  have hrest : c * (1 / 10 ^ 100 * (a * g)) ≤ 1 / 10 ^ 100 * (a * g) := mul_le_of_le_one_left (by positivity) hc'
  refine ⟨hag, ?_⟩
  calc |b * g - a * g| = |b - a| * g := by rw [← sub_mul, abs_mul, abs_of_nonneg hg]
    _ ≤ (c * a + c * leastNormal) / 10 ^ 59 * g := mul_le_mul_of_nonneg_right h.error_le hg
    _ = c * ((a + leastNormal) * g) / 10 ^ 59 := by ring
    _ ≤ ((c + 1 / 1000) * (a * g) + (c + 1 / 1000) * leastNormal) / 10 ^ 59 := by linarith

end WithinUnits

/-! ### Powers -/

namespace Decimal

variable {x y x' y' k : Decimal} {digits n : ℕ}

/-- Powers lie on one side of one. -/
private theorem le_pow_mul_add_one {g : ℚ} (hg : 0 ≤ g) (m : ℕ) : g ≤ g ^ m * g + 1 := by
  rcases le_total g 1 with hle | hge
  · have := mul_nonneg (pow_nonneg hg m) hg
    linarith
  · have := le_mul_of_one_le_left hg (one_le_pow₀ hge (n := m))
    linarith

private theorem powerTo_within (hdigits : precision + 3 ≤ digits) (hn : 1 ≤ n) (hn' : n ≤ 16)
    (h : powerTo digits x n = .ok y) :
    WithinUnits ((n - 1) / 250) ((n - 1) / 250) (x.magnitude ^ n) y.magnitude := by
  -- The recursion halves the exponent; a square has twice the units, and there are two roundings at most.
  induction n using Nat.strong_induction_on generalizing y with
  | _ n ih =>
    rcases n with _ | _ | n
    · omega
    · rw [powerTo] at h
      obtain ⟨⟩ := h
      simpa using WithinUnits.of_eq x.magnitude_nonneg le_rfl le_rfl
    · simp only [powerTo, bind_eq_ok_iff] at h
      obtain ⟨half, hhalf, square, hsquare, h⟩ := h
      have hhalf_within := ih (n / 2 + 1) (by omega) (by omega) (by omega) hhalf
      have hunits : (((n / 2 + 1 : ℕ) : ℚ) - 1) / 250 = ((n / 2 : ℕ) : ℚ) / 250 := by
        push_cast
        ring
      have hhalf_le : ((n / 2 : ℕ) : ℚ) ≤ 8 := by
        have : n / 2 ≤ 8 := by omega
        exact_mod_cast this
      have hhalf_nonneg : (0 : ℚ) ≤ (n / 2 : ℕ) := Nat.cast_nonneg _
      rw [hunits] at hhalf_within
      have hexact := hhalf_within.square (by positivity) (by linarith)
      rw [← magnitude_exactMul, ← pow_add] at hexact
      have hsquare_within := hexact.roundTo hdigits (by linarith) (by linarith) hsquare
      by_cases heven : n % 2 = 0
      · rw [if_pos heven] at h
        obtain ⟨⟩ := h
        have hexponent : n / 2 + 1 + (n / 2 + 1) = n + 2 := by omega
        have hcount : (n : ℚ) = 2 * (n / 2 : ℕ) := by
          have : n = 2 * (n / 2) := by omega
          exact_mod_cast this
        rw [hexponent] at hsquare_within
        refine hsquare_within.mono ?_ ?_ <;> push_cast <;> linarith
      · rw [if_neg heven] at h
        have hexponent : n / 2 + 1 + (n / 2 + 1) + 1 = n + 2 := by omega
        have hcount : (n : ℚ) = 2 * (n / 2 : ℕ) + 1 := by
          have : n = 2 * (n / 2) + 1 := by omega
          exact_mod_cast this
        have hproduct := hsquare_within.mul_exact (by positivity) (by linarith) x.magnitude_nonneg
          (le_pow_mul_add_one x.magnitude_nonneg _)
        rw [← magnitude_exactMul, ← pow_succ, hexponent] at hproduct
        have hwithin := hproduct.roundTo hdigits (by linarith) (by linarith) h
        refine hwithin.mono ?_ ?_ <;> push_cast <;> linarith

private theorem precision_le_powerDigits (n : ℕ) : precision + 3 ≤ powerDigits n := by
  have := digitCount_pos n
  unfold powerDigits
  omega

theorem power_within (hk : k.isPositive = true) (hn : n ≤ 16) (h : k.power n = .ok y) :
    WithinUnits (11 / 10) (11 / 10) (k.value ^ n) y.value := by
  obtain ⟨hsign, hne⟩ := sign_of_isPositive hk
  rcases Nat.eq_zero_or_pos n with rfl | hpos
  · have hone : y = ⟨false, 1, 0⟩ := by simpa [power_zero hk] using h.symm
    subst hone
    have hvalue : value ⟨false, 1, 0⟩ = 1 := by simp [value, magnitude]
    rw [hvalue, pow_zero]
    exact .of_eq (by norm_num) (by norm_num) (by norm_num)
  simp only [power, if_neg hne, bind_eq_ok_iff] at h
  obtain ⟨w, hw, hround⟩ := h
  have hdigits := precision_le_powerDigits n
  have hwithin := powerTo_within hdigits hpos hn hw
  have hw_sign := negative_of_powerTo (by omega) hsign hw
  have hn_le : (n : ℚ) ≤ 16 := by exact_mod_cast hn
  rw [← value_of_not_negative hsign, ← value_of_not_negative hw_sign] at hwithin
  have hround_within := hwithin.round (by linarith) (by linarith) (rounds_of_round hround)
  exact hround_within.mono (by linarith) (by linarith)

private theorem powerTo_mono (hdigits : 0 < digits) (hle : x.magnitude ≤ x'.magnitude) (h : powerTo digits x n = .ok y)
    (h' : powerTo digits x' n = .ok y') : y.magnitude ≤ y'.magnitude := by
  induction n using Nat.strong_induction_on generalizing y y' with
  | _ n ih =>
    rcases n with _ | _ | n
    · rw [powerTo] at h h'
      obtain ⟨⟩ := h
      obtain ⟨⟩ := h'
      exact le_rfl
    · rw [powerTo] at h h'
      obtain ⟨⟩ := h
      obtain ⟨⟩ := h'
      exact hle
    · simp only [powerTo, bind_eq_ok_iff] at h h'
      obtain ⟨half, hhalf, square, hsquare, h⟩ := h
      obtain ⟨half', hhalf', square', hsquare', h'⟩ := h'
      have hhalf_le := ih (n / 2 + 1) (by omega) hhalf hhalf'
      have hsquare_le : square.magnitude ≤ square'.magnitude := by
        refine roundTo_mono hdigits ?_ hsquare hsquare'
        rw [magnitude_exactMul, magnitude_exactMul]
        exact mul_le_mul hhalf_le hhalf_le half.magnitude_nonneg half'.magnitude_nonneg
      by_cases heven : n % 2 = 0
      · rw [if_pos heven] at h h'
        obtain ⟨⟩ := h
        obtain ⟨⟩ := h'
        exact hsquare_le
      · rw [if_neg heven] at h h'
        refine roundTo_mono hdigits ?_ h h'
        rw [magnitude_exactMul, magnitude_exactMul]
        exact mul_le_mul hsquare_le hle x.magnitude_nonneg square'.magnitude_nonneg

theorem power_mono (hx : x.isPositive = true) (hx' : x'.isPositive = true) (hle : x.magnitude ≤ x'.magnitude)
    (h : x.power n = .ok y) (h' : x'.power n = .ok y') : y.magnitude ≤ y'.magnitude := by
  simp only [power, if_neg (sign_of_isPositive hx).2, if_neg (sign_of_isPositive hx').2, bind_eq_ok_iff] at h h'
  obtain ⟨w, hw, hround⟩ := h
  obtain ⟨w', hw', hround'⟩ := h'
  have hdigits := precision_le_powerDigits n
  exact roundTo_mono (by decide) (powerTo_mono (by omega) hle hw hw') hround hround'

end Decimal
end BondingCurve
