import BondingCurve.Decimal.Exponential
import BondingCurve.Decimal.Logarithm
import BondingCurve.Proofs.CorrectRounding
import Mathlib.Analysis.SpecialFunctions.Log.Deriv

/-!
# Enclosures from below

The lower end of an enclosure is never above the enclosed number.  Every operation rounds it down, and what a series
leaves out is positive.

* (series) The nested sums are bounded by what is left of the whole series from any term on
  (`lower_oddSeries_le`, `lower_factorialSeries_mul_le`), so the induction follows the nesting.
* (functions) `lower_logarithm_le`, `lower_exponential_le`.
* (rounding) However many attempts it takes, a lower end is what is rounded in the end (`settle_eq_roundTo`).  So a
  computed logarithm or exponential is the correct rounding of a number that is not above the exact one
  (`logarithmTo_spec`, `exponentialTo_spec`).
-/

namespace BondingCurve

namespace Enclosure

open Finset Nat

variable {n d : ℕ}

/-! ### Operations -/

private theorem lower_scale_le (n d : ℕ) (a : Enclosure) : ((a.scale n d).lower : ℝ) ≤ a.lower * (n / d) := by
  have h : (((a.lower * n / d : ℕ)) : ℝ) ≤ ((a.lower * n : ℕ) : ℝ) / d := Nat.cast_div_le
  rwa [Nat.cast_mul, mul_div_assoc] at h

private theorem lower_ofRatio_le (places n d : ℕ) : ((ofRatio places n d).lower : ℝ) ≤ 10 ^ places * (n / d) := by
  have h : (((10 ^ places * n / d : ℕ)) : ℝ) ≤ ((10 ^ places * n : ℕ) : ℝ) / d := Nat.cast_div_le
  push_cast at h
  rwa [mul_div_assoc] at h

private theorem lower_mul_le (places : ℕ) (a b : Enclosure) :
    ((a.mul places b).lower : ℝ) ≤ a.lower * b.lower / 10 ^ places := by
  have h : (((a.lower * b.lower / 10 ^ places : ℕ)) : ℝ) ≤ ((a.lower * b.lower : ℕ) : ℝ) / (10 ^ places : ℕ) :=
    Nat.cast_div_le
  push_cast at h
  exact h

/-! ### Logarithm -/

theorem lower_oddSeries_le (places n d terms i : ℕ) :
    ((oddSeries places n d terms i).lower : ℝ) ≤
      10 ^ places * ∑ j ∈ range terms, ((n : ℝ) / d) ^ j / (2 * (i + j) + 1) := by
  induction terms generalizing i with
  | zero => simp [oddSeries]
  | succ terms ih =>
    have hfirst := lower_ofRatio_le places 1 (2 * i + 1)
    have hrest := lower_scale_le n d (oddSeries places n d terms (i + 1))
    have hratio : (0 : ℝ) ≤ (n : ℝ) / d := by positivity
    have hsplit : (oddSeries places n d (terms + 1) i).lower =
        (ofRatio places 1 (2 * i + 1)).lower + ((oddSeries places n d terms (i + 1)).scale n d).lower := rfl
    have hshift : ∑ j ∈ range (terms + 1), ((n : ℝ) / d) ^ j / (2 * (i + j) + 1) =
        (∑ j ∈ range terms, ((n : ℝ) / d) ^ j / (2 * ((i + 1 : ℕ) + j) + 1)) * (n / d) + 1 / (2 * i + 1) := by
      rw [sum_range_succ', sum_mul]
      congr 1
      · refine sum_congr rfl fun j _ => ?_
        push_cast
        ring
      · simp
    rw [hsplit, Nat.cast_add, hshift, mul_add, add_comm, ← mul_assoc]
    push_cast at hfirst
    exact add_le_add (hrest.trans (mul_le_mul_of_nonneg_right (ih (i + 1)) hratio)) hfirst

/-- The argument of the logarithm, from that of the series. -/
private theorem one_add_div_one_sub {x y : ℝ} (h : 0 < x + y) :
    (1 + (x - y) / (x + y)) / (1 - (x - y) / (x + y)) = x / y := by
  have hone_sub : 1 - (x - y) / (x + y) = 2 * y / (x + y) := by
    field_simp
    ring
  have hone_add : 1 + (x - y) / (x + y) = 2 * x / (x + y) := by
    field_simp
    ring
  rw [hone_sub, hone_add]
  field_simp

private theorem sum_odd_eq (z : ℝ) (terms : ℕ) :
    (∑ j ∈ range terms, (z ^ 2) ^ j / (2 * ((0 : ℕ) + (j : ℝ)) + 1)) * z =
      ∑ j ∈ range terms, z ^ (2 * j + 1) / (2 * j + 1) := by
  rw [sum_mul]
  refine sum_congr rfl fun j _ => ?_
  rw [← pow_mul, pow_succ]
  push_cast
  ring

private theorem lower_logarithmUpToTwo_le (places : ℕ) (hd : 0 < d) (hle : d ≤ n) :
    ((logarithmUpToTwo places n d).lower : ℝ) ≤ 10 ^ places * Real.log (n / d) := by
  have hd' : (0 : ℝ) < d := by exact_mod_cast hd
  have hle' : (d : ℝ) ≤ n := by exact_mod_cast hle
  have hsum : (0 : ℝ) < n + d := by linarith
  set z : ℝ := (n - d) / (n + d) with hz
  have hz_nonneg : 0 ≤ z := div_nonneg (by linarith) hsum.le
  have hz_lt : z < 1 := by
    rw [hz, div_lt_one hsum]
    linarith
  have hseries := lower_oddSeries_le places ((n - d) * (n - d)) ((n + d) * (n + d)) (2 * places) 0
  have hscale := lower_scale_le (2 * (n - d)) (n + d)
    (oddSeries places ((n - d) * (n - d)) ((n + d) * (n + d)) (2 * places) 0)
  have hsquare : (((n - d) * (n - d) : ℕ) : ℝ) / ((n + d) * (n + d) : ℕ) = z ^ 2 := by
    rw [Nat.cast_mul, Nat.cast_mul, Nat.cast_sub hle, Nat.cast_add, hz]
    field_simp
  have htwice : ((2 * (n - d) : ℕ) : ℝ) / (n + d : ℕ) = 2 * z := by
    rw [Nat.cast_mul, Nat.cast_sub hle, Nat.cast_add, Nat.cast_ofNat, hz, mul_div_assoc]
  have hpartial := Real.sum_range_le_log_div hz_nonneg hz_lt (2 * places)
  rw [hz, one_add_div_one_sub hsum, ← hz] at hpartial
  rw [hsquare] at hseries
  rw [htwice] at hscale
  have hodd := sum_odd_eq z (2 * places)
  calc ((logarithmUpToTwo places n d).lower : ℝ)
      ≤ 10 ^ places * (∑ j ∈ range (2 * places), (z ^ 2) ^ j / (2 * ((0 : ℕ) + (j : ℝ)) + 1)) * (2 * z) :=
        hscale.trans (mul_le_mul_of_nonneg_right hseries (by linarith))
    _ = 10 ^ places * (2 * ∑ j ∈ range (2 * places), z ^ (2 * j + 1) / (2 * j + 1)) := by
        rw [← hodd]
        ring
    _ ≤ 10 ^ places * Real.log (n / d) := mul_le_mul_of_nonneg_left (by linarith) (by positivity)

theorem lower_logarithm_le (places : ℕ) (hd : 0 < d) (hle : d ≤ n) :
    ((logarithm places n d).lower : ℝ) ≤ 10 ^ places * Real.log (n / d) := by
  have hd' : (0 : ℝ) < d := by exact_mod_cast hd
  have hn' : (0 : ℝ) < n := by exact_mod_cast hd.trans_le hle
  set k := (n / d).log2 with hk
  have hpow : d * 2 ^ k ≤ n := by
    have hlog : 2 ^ k ≤ n / d := Nat.log2_self_le (Nat.div_pos hle hd).ne'
    calc d * 2 ^ k ≤ d * (n / d) := Nat.mul_le_mul_left d hlog
      _ ≤ n := Nat.mul_div_le n d
  have htwo := lower_logarithmUpToTwo_le places (n := 2) (d := 1) (by decide) (by decide)
  have hscale := lower_scale_le k 1 (logarithmUpToTwo places 2 1)
  have hrest := lower_logarithmUpToTwo_le places (Nat.mul_pos hd (Nat.two_pow_pos k)) hpow
  have hsplit : Real.log (n / d) = k * Real.log 2 + Real.log (n / (d * 2 ^ k : ℕ)) := by
    rw [← Real.log_pow, ← Real.log_mul (by positivity) (by positivity)]
    congr 1
    push_cast
    field_simp
  have hlower : (logarithm places n d).lower =
      ((logarithmUpToTwo places 2 1).scale k 1).lower + (logarithmUpToTwo places n (d * 2 ^ k)).lower := rfl
  push_cast at htwo hscale
  rw [div_one] at htwo hscale
  have hmul := mul_le_mul_of_nonneg_right htwo (Nat.cast_nonneg (α := ℝ) k)
  rw [hlower, hsplit, Nat.cast_add]
  linarith

/-! ### Exponential -/

/-- The nested sum from a term on, with the power and the factorial of that term. -/
theorem lower_factorialSeries_mul_le (places n : ℕ) (hd : 0 < d) (terms i : ℕ) :
    ((factorialSeries places n d terms i).lower : ℝ) * (((n : ℝ) / d) ^ i / i !) ≤
      10 ^ places * (Real.exp (n / d) - ∑ j ∈ range i, ((n : ℝ) / d) ^ j / j !) := by
  have hd' : (0 : ℝ) < d := by exact_mod_cast hd
  have hnonneg : (0 : ℝ) ≤ (n : ℝ) / d := by positivity
  induction terms generalizing i with
  | zero =>
    have hpartial := Real.sum_le_exp_of_nonneg hnonneg (i + 1)
    rw [sum_range_succ] at hpartial
    have hlower : (factorialSeries places n d 0 i).lower = 10 ^ places := rfl
    rw [hlower, Nat.cast_pow, Nat.cast_ofNat]
    exact mul_le_mul_of_nonneg_left (by linarith) (by positivity)
  | succ terms ih =>
    have hlower : (factorialSeries places n d (terms + 1) i).lower =
        10 ^ places * 1 + ((factorialSeries places n d terms (i + 1)).scale n (d * (i + 1))).lower := rfl
    have hscale := lower_scale_le n (d * (i + 1)) (factorialSeries places n d terms (i + 1))
    have hterm : (0 : ℝ) ≤ ((n : ℝ) / d) ^ i / i ! := by positivity
    have hnext : ((n : ℝ) / (d * (i + 1) : ℕ)) * (((n : ℝ) / d) ^ i / i !) =
        ((n : ℝ) / d) ^ (i + 1) / (i + 1)! := by
      rw [Nat.factorial_succ, pow_succ]
      push_cast
      field_simp
    have hrest := ih (i + 1)
    rw [sum_range_succ] at hrest
    rw [hlower]
    push_cast
    calc ((10 : ℝ) ^ places * 1 + ((factorialSeries places n d terms (i + 1)).scale n (d * (i + 1))).lower) *
          (((n : ℝ) / d) ^ i / i !)
        ≤ (10 ^ places + (factorialSeries places n d terms (i + 1)).lower * (n / (d * (i + 1) : ℕ))) *
            (((n : ℝ) / d) ^ i / i !) := mul_le_mul_of_nonneg_right (by linarith) hterm
      _ = 10 ^ places * (((n : ℝ) / d) ^ i / i !) +
            (factorialSeries places n d terms (i + 1)).lower * (((n : ℝ) / d) ^ (i + 1) / (i + 1)!) := by
          rw [add_mul, mul_assoc _ (_ / _) (_ / _), hnext]
      _ ≤ 10 ^ places * (Real.exp (n / d) - ∑ j ∈ range i, ((n : ℝ) / d) ^ j / j !) := by linarith

private theorem pow_le_lower_factorialSeries (places n d terms i : ℕ) :
    10 ^ places ≤ (factorialSeries places n d terms i).lower := by
  cases terms with
  | zero => exact le_rfl
  | succ terms =>
    have hlower : (factorialSeries places n d (terms + 1) i).lower =
        10 ^ places * 1 + ((factorialSeries places n d terms (i + 1)).scale n (d * (i + 1))).lower := rfl
    omega

private theorem lower_exponentialHalving_le (places n halvings : ℕ) (hd : 0 < d) :
    ((exponentialHalving places n d halvings).lower : ℝ) ≤ 10 ^ places * Real.exp (n / d) := by
  induction halvings generalizing d with
  | zero =>
    have h := lower_factorialSeries_mul_le places n hd places 0
    simpa [exponentialHalving] using h
  | succ halvings ih =>
    have hroot := ih (d := 2 * d) (by omega)
    have hsquare := lower_mul_le places (exponentialHalving places n (2 * d) halvings)
      (exponentialHalving places n (2 * d) halvings)
    have hhalf : Real.exp (n / (2 * d : ℕ)) * Real.exp (n / (2 * d : ℕ)) = Real.exp (n / d) := by
      rw [← Real.exp_add]
      congr 1
      push_cast
      ring
    refine hsquare.trans ?_
    rw [div_le_iff₀ (by positivity), ← hhalf]
    calc _ ≤ (10 ^ places * Real.exp (n / (2 * d : ℕ))) * (10 ^ places * Real.exp (n / (2 * d : ℕ))) :=
          mul_le_mul hroot hroot (Nat.cast_nonneg _) (by positivity)
      _ = _ := by ring

private theorem pow_le_lower_exponentialHalving (places n d halvings : ℕ) :
    10 ^ places ≤ (exponentialHalving places n d halvings).lower := by
  induction halvings generalizing d with
  | zero => exact pow_le_lower_factorialSeries places n d places 0
  | succ halvings ih =>
    have hsquare : 10 ^ places * 10 ^ places ≤
        (exponentialHalving places n (2 * d) halvings).lower * (exponentialHalving places n (2 * d) halvings).lower :=
      Nat.mul_le_mul (ih (2 * d)) (ih (2 * d))
    exact (Nat.le_div_iff_mul_le (Nat.pow_pos (by decide))).mpr hsquare

/-! ### Rounding -/

theorem settle_eq_roundTo (digits : ℕ) (negative : Bool) (enclosure : ℕ → Enclosure) (attempts places : ℕ) :
    ∃ p : ℕ, settle digits negative enclosure attempts places =
      Decimal.roundTo digits ⟨negative, (enclosure p).lower, -p⟩ := by
  induction attempts generalizing places with
  | zero => exact ⟨places, rfl⟩
  | succ attempts ih =>
    rw [settle]
    split_ifs
    · exact ⟨places, rfl⟩
    · exact ih (2 * places)

/-- Where all lower ends lie between two bounds, the result is the correct rounding of a number between them. -/
private theorem settle_spec {digits : ℕ} (hdigits : 0 < digits) {enclosure : ℕ → Enclosure} {low high : ℝ}
    (hlow : ∀ p, 10 ^ p * low ≤ (enclosure p).lower) (hhigh : ∀ p, (enclosure p).lower ≤ 10 ^ p * high)
    (hfits : high ≤ 10 ^ greatestExponent) (attempts places : ℕ) :
    ∃ y t, settle digits false enclosure attempts places = .ok y ∧ y.negative = false ∧ low ≤ t ∧ t ≤ high ∧
      CorrectlyRounded digits t (y.magnitude : ℚ) := by
  obtain ⟨p, hp⟩ := settle_eq_roundTo digits false enclosure attempts places
  set x : Decimal := ⟨false, (enclosure p).lower, -p⟩ with hx
  have hmagnitude : ((x.magnitude : ℚ) : ℝ) = (enclosure p).lower / 10 ^ p := by
    rw [x.cast_magnitude, hx, zpow_neg, zpow_natCast, div_eq_mul_inv]
  have hpow : (0 : ℝ) < 10 ^ p := by positivity
  have hlow' : low ≤ (x.magnitude : ℚ) := by
    rw [hmagnitude, le_div_iff₀ hpow, mul_comm]
    exact hlow p
  have hhigh' : ((x.magnitude : ℚ) : ℝ) ≤ high := by
    rw [hmagnitude, div_le_iff₀ hpow, mul_comm]
    exact hhigh p
  obtain ⟨y, hy⟩ := Decimal.exists_roundTo (x := x) hdigits (Decimal.cast_magnitude_le_pow.mp (hhigh'.trans hfits))
  exact ⟨y, _, hp.trans hy, (Decimal.roundTo_spec hdigits hy).1, hlow', hhigh',
    Decimal.correctlyRounded_of_roundTo hdigits hy⟩

end Enclosure

namespace Decimal

variable {x : Decimal} {digits : ℕ}

/-- The magnitude as the fraction that the series start from. -/
private theorem cast_magnitude_eq_div (x : Decimal) :
    ((x.magnitude : ℚ) : ℝ) =
      ((x.coefficient * Nat.pow 10 x.exponent.toNat : ℕ) : ℝ) / (Nat.pow 10 (-x.exponent).toNat : ℕ) := by
  have hexponent : x.exponent = (x.exponent.toNat : ℤ) - ((-x.exponent).toNat : ℤ) := by omega
  conv_lhs => rw [x.cast_magnitude, hexponent, zpow_sub₀ (by norm_num), zpow_natCast, zpow_natCast]
  simp only [Nat.pow_eq, Nat.cast_mul, Nat.cast_pow, Nat.cast_ofNat]
  rw [mul_div_assoc]

theorem logarithmTo_spec (hdigits : 0 < digits) (hone : 1 ≤ x.magnitude) (hfits : x.magnitude ≤ 10 ^ greatestExponent) :
    ∃ y t, x.logarithmTo digits = .ok y ∧ y.negative = false ∧ 0 ≤ t ∧ t ≤ Real.log (x.magnitude : ℚ) ∧
      CorrectlyRounded digits t (y.magnitude : ℚ) := by
  have hone' : (1 : ℝ) ≤ (x.magnitude : ℚ) := by exact_mod_cast hone
  have hlog_le : Real.log (x.magnitude : ℚ) ≤ 10 ^ greatestExponent := by
    have hlog := Real.log_le_sub_one_of_pos (lt_of_lt_of_le one_pos hone')
    have hfits' := cast_magnitude_le_pow.mpr hfits
    linarith
  have hfraction := x.cast_magnitude_eq_div
  unfold logarithmTo
  dsimp only
  generalize x.coefficient * Nat.pow 10 x.exponent.toNat = n at *
  have hd : 0 < Nat.pow 10 (-x.exponent).toNat := Nat.pow_pos (by decide)
  generalize Nat.pow 10 (-x.exponent).toNat = d at *
  have hle : d ≤ n := by
    have hd' : (0 : ℝ) < d := by exact_mod_cast hd
    rw [hfraction, one_le_div hd'] at hone'
    exact_mod_cast hone'
  rw [if_pos hle]
  refine Enclosure.settle_spec hdigits (fun p => ?_) (fun p => ?_) hlog_le 12 (2 * digits)
  · rw [mul_zero]
    exact Nat.cast_nonneg _
  · rw [hfraction]
    exact Enclosure.lower_logarithm_le p hd hle

theorem exponentialTo_spec (hdigits : 0 < digits) (hsign : x.negative = false)
    (hfits : Real.exp (x.magnitude : ℚ) ≤ 10 ^ greatestExponent) :
    ∃ y t, x.exponentialTo digits = .ok y ∧ y.negative = false ∧ 1 ≤ t ∧ t ≤ Real.exp (x.magnitude : ℚ) ∧
      CorrectlyRounded digits t (y.magnitude : ℚ) := by
  have hfraction := x.cast_magnitude_eq_div
  unfold exponentialTo
  dsimp only
  rw [hsign, if_neg Bool.false_ne_true]
  have hd : 0 < Nat.pow 10 (-x.exponent).toNat := Nat.pow_pos (by decide)
  refine Enclosure.settle_spec hdigits (fun p => ?_) (fun p => ?_) hfits 12 (digits + 20)
  · rw [mul_one]
    exact_mod_cast Enclosure.pow_le_lower_exponentialHalving p _ _ _
  · rw [hfraction]
    exact Enclosure.lower_exponentialHalving_le p _ _ hd

end Decimal
end BondingCurve
