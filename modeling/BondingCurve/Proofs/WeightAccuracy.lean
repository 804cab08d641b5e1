import BondingCurve.Proofs.GraphWeights
import BondingCurve.Proofs.PowerAccuracy

/-!
# Accuracy of weight sums

The weight sum of a graph design is accurate to about one unit of its last digit for each range, against the exact sum
with exact powers of the factor, and it grows with the factor (`weightSum_accurate`).

* (one range) Width, product and square of sqrt prices have at most 60 digits and are exact; the two quotients, their
  sum, the power and the product with it are rounded (`rangeWeight_within`).
* (run) Each addition to the total costs one unit of the total, and the weights themselves are accurate to five
  (`addWeights_within`).  What a vanishing power loses is a few units of the least normal number, which is nothing
  against the first weight.
* (order) Only the powers depend on the factor; they grow with it, and so does everything after them
  (`addWeights_mono`).
-/

namespace BondingCurve

open Decimal (leastNormal leastNormal_pos)

section Prices

variable {low high last : ℤ} {rest : List ℤ}

private theorem Boundaries.le_getLastD (h : Boundaries (low :: rest)) : ∀ p ∈ low :: rest, p ≤ rest.getLastD low := by
  induction rest generalizing low with
  | nil => simp
  | cons high rest ih =>
    obtain ⟨-, -, hlt, hrest⟩ := h.of_cons_cons
    have hbelow := ih hrest
    rw [List.getLastD_cons, List.forall_mem_cons]
    exact ⟨hlt.le.trans (hbelow high (by simp)), hbelow⟩

private theorem rangeGain_le_one (hlow : IsSqrtPrice low) (hhigh : IsSqrtPrice high) (hle : high ≤ last) :
    rangeGain last low high ≤ 1 := by
  have hlow_two : (2 : ℚ) ≤ low := by
    have : 2 ≤ low := le_trans (by decide) hlow.1
    exact_mod_cast this
  have hhigh_two : (2 : ℚ) ≤ high := by
    have : 2 ≤ high := le_trans (by decide) hhigh.1
    exact_mod_cast this
  have hle' : (high : ℚ) ≤ last := by exact_mod_cast hle
  have hreleased : ((high : ℚ) - low) / (high * low) ≤ 1 / 2 := by
    rw [div_le_div_iff₀ (by positivity) (by norm_num)]
    nlinarith
  have hworth : ((high : ℚ) - low) / (last * last) ≤ 1 / 2 := by
    rw [div_le_div_iff₀ (by nlinarith) (by norm_num)]
    nlinarith
  rw [rangeGain]
  linarith

/-- The first weight, whose power is one, is already a lower bound. -/
private theorem least_le_gains {x : ℚ} (hlast : IsSqrtPrice last) (hprices : Boundaries (low :: rest))
    (hn : 1 ≤ rest.length) (hx : 0 ≤ x) : 1 / 10 ^ 60 ≤ gains (fun i => x ^ i) last 0 (low :: rest) := by
  obtain ⟨high, rest, rfl⟩ : ∃ high tail, rest = high :: tail := List.exists_cons_of_length_pos hn
  obtain ⟨hlow, hhigh, hlt, hrest⟩ := hprices.of_cons_cons
  have hfirst := least_le_rangeGain hlast hlow hhigh hlt
  have hothers := gains_nonneg hlast (fun i => pow_nonneg hx i) hrest 1
  rw [gains, pow_zero, one_mul]
  linarith

private theorem mul_lt_pow_precision (hlow : IsSqrtPrice low) (hhigh : IsSqrtPrice high) :
    high * low < 10 ^ precision := by
  have hle : high * low ≤ maxSqrtPrice * maxSqrtPrice := mul_le_mul hhigh.2 hlow.2 hlow.pos.le (by decide)
  exact hle.trans_lt (by decide)

private theorem sub_lt_pow_precision (hlow : IsSqrtPrice low) (hhigh : IsSqrtPrice high) :
    high - low < 10 ^ precision := by
  have hle : high - low ≤ maxSqrtPrice := by
    have := hlow.pos
    have := hhigh.2
    omega
  exact hle.trans_lt (by decide)

end Prices

/-! ### One range -/

section Range

variable {k k' lastSquared weight weight' : Decimal} {last low high : ℤ} {index : ℕ}

/-- What the two quotients of a range add up to: not negative, and within a little more than two units of the gain. -/
private theorem gain_within (hlast : IsSqrtPrice last) (hlow : IsSqrtPrice low) (hhigh : IsSqrtPrice high)
    (hlt : low < high) (hsign : lastSquared.negative = false) (hsquare : lastSquared.magnitude = last * last)
    {width product released worth sum : Decimal} (hwidth : (Decimal.ofInt high).sub (.ofInt low) = .ok width)
    (hproduct : (Decimal.ofInt high).mul (.ofInt low) = .ok product) (hreleased : width.div product = .ok released)
    (hworth : width.div lastSquared = .ok worth) (hsum : released.add worth = .ok sum) :
    sum.negative = false ∧ WithinUnits (202 / 100) 0 (rangeGain last low high) sum.value := by
  obtain ⟨hwidth_sign, hwidth_eq⟩ := Decimal.sub_ofInt hlt (sub_lt_pow_precision hlow hhigh) hwidth
  obtain ⟨hproduct_sign, hproduct_eq⟩ :=
    Decimal.mul_ofInt hhigh.pos.le hlow.pos.le (mul_lt_pow_precision hlow hhigh) hproduct
  obtain ⟨-, hreleased_sign, -⟩ := Decimal.correctlyRounded_div hreleased
  obtain ⟨-, hworth_sign, -⟩ := Decimal.correctlyRounded_div hworth
  rw [hwidth_sign, hproduct_sign, bne_self_eq_false] at hreleased_sign
  rw [hwidth_sign, hsign, bne_self_eq_false] at hworth_sign
  refine ⟨Decimal.negative_of_add hreleased_sign hworth_sign hsum, ?_⟩
  have hreleased_rounds := Decimal.rounds_div hreleased
  have hworth_rounds := Decimal.rounds_div hworth
  rw [Decimal.value_of_not_negative hwidth_sign, hwidth_eq, Decimal.value_of_not_negative hproduct_sign,
    hproduct_eq] at hreleased_rounds
  rw [Decimal.value_of_not_negative hwidth_sign, hwidth_eq, Decimal.value_of_not_negative hsign, hsquare]
    at hworth_rounds
  have hwidth_one := one_le_width hlt
  have hreleased_nonneg : (0 : ℚ) ≤ (high - low) / (high * low) :=
    div_nonneg (by linarith) (product_le hhigh hlow).1.le
  have hworth_nonneg : (0 : ℚ) ≤ (high - low) / (last * last) :=
    div_nonneg (by linarith) (product_le hlast hlast).1.le
  have hexact := (WithinUnits.of_rounds hreleased_nonneg hreleased_rounds).add
    (WithinUnits.of_rounds hworth_nonneg hworth_rounds)
  have hrounded := hexact.round (by norm_num) (by norm_num) (Decimal.rounds_add hsum)
  exact (hrounded.absorb (by norm_num) (least_le_rangeGain hlast hlow hhigh hlt)).mono (by norm_num) le_rfl

theorem rangeWeight_within (hlast : IsSqrtPrice last) (hlow : IsSqrtPrice low) (hhigh : IsSqrtPrice high)
    (hlt : low < high) (hle : high ≤ last) (hsign : lastSquared.negative = false)
    (hsquare : lastSquared.magnitude = last * last) (hk : k.isPositive = true) (hindex : index ≤ 16)
    (h : rangeWeight k lastSquared index low high = .ok weight) :
    WithinUnits 5 3 (k.value ^ index * rangeGain last low high) weight.value := by
  simp only [rangeWeight, bind_eq_ok_iff] at h
  obtain ⟨width, hwidth, product, hproduct, released, hreleased, worth, hworth, factor, hfactor, sum, hsum, hweight⟩ := h
  obtain ⟨-, hgain⟩ := gain_within hlast hlow hhigh hlt hsign hsquare hwidth hproduct hreleased hworth hsum
  have hpower := Decimal.power_within hk hindex hfactor
  have hproduct_within := hpower.mul (by norm_num) (by norm_num) (by norm_num) (by norm_num) (by norm_num)
    (by norm_num) (rangeGain_le_one hlow hhigh hle) hgain
  have hrounded := hproduct_within.round (by norm_num) (by norm_num) (Decimal.rounds_mul hweight)
  exact hrounded.mono (by norm_num) (by norm_num)

private theorem rangeWeight_mono (hlast : IsSqrtPrice last) (hlow : IsSqrtPrice low) (hhigh : IsSqrtPrice high)
    (hlt : low < high) (hsign : lastSquared.negative = false) (hsquare : lastSquared.magnitude = last * last)
    (hk : k.isPositive = true) (hk' : k'.isPositive = true) (hkk' : k.magnitude ≤ k'.magnitude)
    (h : rangeWeight k lastSquared index low high = .ok weight)
    (h' : rangeWeight k' lastSquared index low high = .ok weight') :
    weight.negative = false ∧ weight'.negative = false ∧ weight.magnitude ≤ weight'.magnitude := by
  simp only [rangeWeight, bind_eq_ok_iff] at h h'
  obtain ⟨width, hwidth, product, hproduct, released, hreleased, worth, hworth, factor, hfactor, sum, hsum, hweight⟩ := h
  obtain ⟨_, hw, _, hp, _, hr, _, hv, factor', hfactor', _, hs, hweight'⟩ := h'
  -- What a range is worth without its factor is one and the same number in both runs.
  obtain ⟨⟩ := hwidth.symm.trans hw
  obtain ⟨⟩ := hproduct.symm.trans hp
  obtain ⟨⟩ := hreleased.symm.trans hr
  obtain ⟨⟩ := hworth.symm.trans hv
  obtain ⟨⟩ := hsum.symm.trans hs
  obtain ⟨hsum_sign, -⟩ := gain_within hlast hlow hhigh hlt hsign hsquare hwidth hproduct hreleased hworth hsum
  have hweight_sign := (Decimal.correctlyRounded_mul hweight).1
  have hweight_sign' := (Decimal.correctlyRounded_mul hweight').1
  rw [Decimal.negative_of_power hk hfactor, hsum_sign, bne_self_eq_false] at hweight_sign
  rw [Decimal.negative_of_power hk' hfactor', hsum_sign, bne_self_eq_false] at hweight_sign'
  have hfactor_le := Decimal.power_mono hk hk' hkk' hfactor hfactor'
  exact ⟨hweight_sign, hweight_sign', Decimal.mul_mono hfactor_le le_rfl hweight hweight'⟩

end Range

/-! ### The sum -/

section Sum

variable {k k' lastSquared total total' w w' : Decimal} {last low : ℤ} {rest : List ℤ} {index j : ℕ} {T : ℚ}

theorem addWeights_within (hlast : IsSqrtPrice last) (hsign : lastSquared.negative = false)
    (hsquare : lastSquared.magnitude = last * last) (hk : k.isPositive = true) (hprices : Boundaries (low :: rest))
    (hbelow : ∀ p ∈ low :: rest, p ≤ last) (hindex : index + rest.length ≤ 16) (hj : j + rest.length ≤ 16)
    (htotal : WithinUnits (5 + 101 / 100 * j) (5 * j) T total.value)
    (h : addWeights k lastSquared index (low :: rest) total = .ok w) :
    WithinUnits (5 + 101 / 100 * (j + rest.length : ℕ)) (5 * (j + rest.length : ℕ))
      (T + gains (fun i => k.value ^ i) last index (low :: rest)) w.value := by
  induction rest generalizing low index j T total with
  | nil =>
    obtain ⟨⟩ := h
    simpa [gains] using htotal
  | cons high rest ih =>
    obtain ⟨hlow, hhigh, hlt, hrest⟩ := hprices.of_cons_cons
    rw [List.forall_mem_cons] at hbelow
    obtain ⟨-, hbelow⟩ := hbelow
    simp only [addWeights, bind_eq_ok_iff] at h
    obtain ⟨weight, hweight, next, hnext, h⟩ := h
    rw [List.length_cons] at hindex hj ⊢
    have hj_le : (j : ℚ) ≤ 16 := by
      have : j ≤ 16 := by omega
      exact_mod_cast this
    have hj_nonneg : (0 : ℚ) ≤ j := Nat.cast_nonneg j
    have hweight_within := rangeWeight_within hlast hlow hhigh hlt (hbelow high (by simp)) hsign hsquare hk (by omega)
      hweight
    have hexact := htotal.add (hweight_within.mono (by linarith) le_rfl)
    have hrounded := hexact.round (by linarith) (by linarith) (Decimal.rounds_add hnext)
    have hstep : WithinUnits (5 + 101 / 100 * (j + 1 : ℕ)) (5 * (j + 1 : ℕ))
        (T + k.value ^ index * rangeGain last low high) next.value := by
      refine hrounded.mono ?_ ?_ <;> push_cast <;> linarith
    have hwhole := ih hrest hbelow (by omega) (by omega) hstep h
    have hcount : j + 1 + rest.length = j + (rest.length + 1) := by omega
    rw [hcount, add_assoc T] at hwhole
    exact hwhole

/-- The whole run from a total of zero. -/
private theorem addWeights_accurate (hlast : IsSqrtPrice last) (hsign : lastSquared.negative = false)
    (hsquare : lastSquared.magnitude = last * last) (hk : k.isPositive = true) (hprices : Boundaries (low :: rest))
    (hbelow : ∀ p ∈ low :: rest, p ≤ last) (hn : 1 ≤ rest.length) (hn' : rest.length ≤ 16)
    (h : addWeights k lastSquared 0 (low :: rest) (.ofInt 0) = .ok w) :
    |w.value - gains (fun i => k.value ^ i) last 0 (low :: rest)| ≤
      (rest.length + 8) / 10 ^ 59 * gains (fun i => k.value ^ i) last 0 (low :: rest) := by
  have hstart : WithinUnits (5 + 101 / 100 * (0 : ℕ)) (5 * (0 : ℕ)) 0 (Decimal.ofInt 0).value := by
    rw [Decimal.value_ofInt, Int.cast_zero]
    exact .of_eq le_rfl (by norm_num) (by norm_num)
  have hwhole := addWeights_within hlast hsign hsquare hk hprices hbelow (by omega) (by omega) hstart h
  rw [zero_add, zero_add] at hwhole
  have hfirst := least_le_gains hlast hprices hn (Decimal.value_nonneg (Decimal.sign_of_isPositive hk).1)
  have hn_le : ((rest.length : ℕ) : ℚ) ≤ 16 := by exact_mod_cast hn'
  have habsorbed := (hwhole.absorb (by linarith) hfirst).error_le
  have hslack := mul_le_mul_of_nonneg_right hn_le hwhole.nonneg
  linarith

theorem addWeights_mono (hlast : IsSqrtPrice last) (hsign : lastSquared.negative = false)
    (hsquare : lastSquared.magnitude = last * last) (hk : k.isPositive = true) (hk' : k'.isPositive = true)
    (hkk' : k.magnitude ≤ k'.magnitude) (hprices : Boundaries (low :: rest)) (htotal : total.negative = false)
    (htotal' : total'.negative = false) (hle : total.magnitude ≤ total'.magnitude)
    (h : addWeights k lastSquared index (low :: rest) total = .ok w)
    (h' : addWeights k' lastSquared index (low :: rest) total' = .ok w') : w.value ≤ w'.value := by
  induction rest generalizing low index total total' with
  | nil =>
    obtain ⟨⟩ := h
    obtain ⟨⟩ := h'
    rwa [Decimal.value_of_not_negative htotal, Decimal.value_of_not_negative htotal']
  | cons high rest ih =>
    obtain ⟨hlow, hhigh, hlt, hrest⟩ := hprices.of_cons_cons
    simp only [addWeights, bind_eq_ok_iff] at h h'
    obtain ⟨weight, hweight, next, hnext, h⟩ := h
    obtain ⟨weight', hweight', next', hnext', h'⟩ := h'
    obtain ⟨hweight_sign, hweight_sign', hweight_le⟩ :=
      rangeWeight_mono hlast hlow hhigh hlt hsign hsquare hk hk' hkk' hweight hweight'
    have hnext_sign := Decimal.negative_of_add htotal hweight_sign hnext
    have hnext_sign' := Decimal.negative_of_add htotal' hweight_sign' hnext'
    have hnext_le := Decimal.add_mono htotal hweight_sign htotal' hweight_sign' hle hweight_le hnext hnext'
    exact ih hrest hnext_sign hnext_sign' hnext_le h h'

/-- A weight sum is accurate to one unit of the last digit for each range and eight more.  With the factor one it is
as close to the weight of a single range from the first to the last price.  A greater factor has no smaller sum. -/
theorem weightSum_accurate {factor : Scalar} (hprices : Boundaries (low :: rest)) (hlast : rest.getLastD low = last)
    (hn : 1 ≤ rest.length) (hn' : rest.length ≤ maxCurvePoints) (h : weightSum (low :: rest) factor = .ok w) :
    ∃ k, positiveDecimal "k_factor" factor = .ok k ∧
      |w.value - gains (fun i => k.value ^ i) last 0 (low :: rest)| ≤
        (rest.length + 8) / 10 ^ 59 * gains (fun i => k.value ^ i) last 0 (low :: rest) ∧
      (k.value = 1 → |w.value - (1 / low - 1 / last + (last - low) / (last * last))| ≤
        (rest.length + 8) / 10 ^ 59 * (1 / low - 1 / last + (last - low) / (last * last))) ∧
      ∀ (factor' : Scalar) (k' w' : Decimal), positiveDecimal "k_factor" factor' = .ok k' → k.value ≤ k'.value →
        weightSum (low :: rest) factor' = .ok w' → w.value ≤ w'.value := by
  have hlast_mem : IsSqrtPrice last := by
    rw [← hlast]
    exact hprices.mem _ List.getLastD_mem_cons
  obtain ⟨k, lastSquared, hk, hpositive, hsquare, hrun⟩ := addWeights_of_weightSum h
  rw [List.getLastD_cons, hlast] at hsquare
  obtain ⟨hsign, hmagnitude⟩ :=
    Decimal.mul_ofInt hlast_mem.pos.le hlast_mem.pos.le (mul_lt_pow_precision hlast_mem hlast_mem) hsquare
  obtain ⟨hk_sign, -⟩ := Decimal.sign_of_isPositive hpositive
  have hbelow : ∀ p ∈ low :: rest, p ≤ last := by
    rw [← hlast]
    exact hprices.le_getLastD
  have haccurate := addWeights_accurate hlast_mem hsign hmagnitude hpositive hprices hbelow hn hn' hrun
  refine ⟨k, hk, haccurate, ?_, ?_⟩
  · intro hone
    have hsingle : gains (fun _ => 1) last 0 (low :: rest) =
        1 / low - 1 / rest.getLastD low + (rest.getLastD low - low) / (last * last) := gains_one_eq hprices 0
    rw [hlast] at hsingle
    simpa only [hone, one_pow, hsingle] using haccurate
  · intro factor' k' w' hk' hkk' h'
    obtain ⟨k'', lastSquared', hk'', hpositive', hsquare', hrun'⟩ := addWeights_of_weightSum h'
    rw [List.getLastD_cons, hlast] at hsquare'
    obtain ⟨⟩ := hk'.symm.trans hk''
    obtain ⟨⟩ := hsquare.symm.trans hsquare'
    obtain ⟨hk_sign', -⟩ := Decimal.sign_of_isPositive hpositive'
    rw [Decimal.value_of_not_negative hk_sign, Decimal.value_of_not_negative hk_sign'] at hkk'
    exact addWeights_mono hlast_mem hsign hmagnitude hpositive hpositive' hkk' hprices rfl rfl le_rfl hrun hrun'

/-- Three prices at the ratios of 1, 2 and 3, where the exact sum does not end. -/
theorem weightSum_accurate_thirds :
    ∃ w w' : Decimal, weightSum [2 ^ 64, 2 * 2 ^ 64, 3 * 2 ^ 64] (.int 2) = .ok w ∧
      weightSum [2 ^ 64, 2 * 2 ^ 64, 3 * 2 ^ 64] (.int 3) = .ok w' ∧
      |w.value - 7 / (6 * 2 ^ 64)| ≤ 10 / 10 ^ 59 * (7 / (6 * 2 ^ 64)) ∧ w.value ≤ w'.value := by
  have hprices : Boundaries [2 ^ 64, 2 * 2 ^ 64, 3 * 2 ^ 64] := ⟨by decide, by decide⟩
  have htwo : positiveDecimal "k_factor" (.int 2) = .ok ⟨false, 2, 0⟩ := eq_ok_of_toOption (by decide +kernel)
  have hthree : positiveDecimal "k_factor" (.int 3) = .ok ⟨false, 3, 0⟩ := eq_ok_of_toOption (by decide +kernel)
  obtain ⟨w, hw⟩ : ∃ w, weightSum [2 ^ 64, 2 * 2 ^ 64, 3 * 2 ^ 64] (.int 2) = .ok w :=
    exists_of_isOk (by decide +kernel)
  obtain ⟨w', hw'⟩ : ∃ w', weightSum [2 ^ 64, 2 * 2 ^ 64, 3 * 2 ^ 64] (.int 3) = .ok w' :=
    exists_of_isOk (by decide +kernel)
  have hlast : [2 * 2 ^ 64, 3 * 2 ^ 64].getLastD (2 ^ 64) = (3 * 2 ^ 64 : ℤ) := rfl
  obtain ⟨k, hk, haccurate, -, hmono⟩ := weightSum_accurate hprices hlast (by decide) (by decide) hw
  obtain ⟨⟩ := htwo.symm.trans hk
  have hvalue : Decimal.value ⟨false, 2, 0⟩ = 2 := by norm_num [Decimal.value, Decimal.magnitude]
  have hexact : gains (fun i => Decimal.value ⟨false, 2, 0⟩ ^ i) (3 * 2 ^ 64) 0 [2 ^ 64, 2 * 2 ^ 64, 3 * 2 ^ 64] =
      7 / (6 * 2 ^ 64) := by
    norm_num [hvalue, gains, rangeGain]
  rw [hexact] at haccurate
  refine ⟨w, w', hw, hw', ?_, hmono _ _ _ hthree ?_ hw'⟩
  · norm_num at haccurate ⊢
    exact haccurate
  · norm_num [Decimal.value, Decimal.magnitude]

end Sum

end BondingCurve
