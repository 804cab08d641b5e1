import BondingCurve.Design.Graph
import BondingCurve.Proofs.RoundingError
import BondingCurve.Proofs.Slices

/-!
# Weights of graph designs

A unit of liquidity over a range releases base, and the quote that it collects is worth base at the last price; both
together are the weight of the range (`rangeGain`).  A graph design divides its supply by the sum of the weights, each
times a power of the convexity factor, and multiplies the quotient by the same powers to get the liquidities.

* (weights) The computed sum is close to the exact one (`weightSum_near`), however large or small the powers are: what
  is lost on a small summand is small against the total.
* (liquidities) What the liquidities spend is close to the quotient times the sum of the weights, up to a unit of
  liquidity in each range (`spent_of_segmentsFrom`).

The powers of the factor are rounded too, but both sides use the same rounded powers.
-/

namespace BondingCurve

open Decimal (leastNormal leastNormal_pos)

/-! ### Boundaries -/

/-- Sqrt prices in increasing order. -/
structure Boundaries (prices : List Int) : Prop where
  increasing : prices.IsChain (· < ·)
  mem : ∀ p ∈ prices, IsSqrtPrice p

namespace Boundaries

variable {low high : Int} {rest : List Int}

theorem of_cons_cons (h : Boundaries (low :: high :: rest)) :
    IsSqrtPrice low ∧ IsSqrtPrice high ∧ low < high ∧ Boundaries (high :: rest) := by
  obtain ⟨hchain, hmem⟩ := h
  rw [List.isChain_cons_cons] at hchain
  rw [List.forall_mem_cons] at hmem
  exact ⟨hmem.1, hmem.2 high (by simp), hchain.1, hchain.2, hmem.2⟩

theorem of_increasing {start : Int} {segments : List Segment} (hstart : IsSqrtPrice start)
    (h : Increasing start segments) : Boundaries (start :: segments.map Segment.sqrtPrice) := by
  induction segments generalizing start with
  | nil => exact ⟨by simp, by simpa using hstart⟩
  | cons s rest ih =>
    obtain ⟨hchain, hmem⟩ := ih s.price_mem h.2
    rw [List.map_cons]
    exact ⟨List.isChain_cons_cons.mpr ⟨h.1, hchain⟩, List.forall_mem_cons.mpr ⟨hstart, hmem⟩⟩

end Boundaries

/-! ### Exact weights -/

/-- The base that a unit of liquidity releases over a range, and the base that its quote is worth at a last price. -/
def rangeGain (last low high : Int) : ℚ :=
  (high - low) / (high * low) + (high - low) / (last * last)

/-- The gains of the ranges between boundaries, each times its factor. -/
def gains (factor : Nat → ℚ) (last : Int) : Nat → List Int → ℚ
  | index, low :: high :: rest => factor index * rangeGain last low high + gains factor last (index + 1) (high :: rest)
  | _, _ => 0

section Gains

variable {factor : Nat → ℚ} {last low high : Int}

private theorem leastNormal_le : leastNormal ≤ 1 / 10 ^ 60 := by
  have h : leastNormal ≤ 10 ^ (-60 : Int) := ten_zpow_le (by decide)
  norm_num at h ⊢
  exact h

private theorem leastNormal_le_one : leastNormal ≤ 1 :=
  leastNormal_le.trans (by norm_num)

private theorem least_le_div {width product : ℚ} (hw : 1 ≤ width) (hp : 0 < product) (hp' : product ≤ 10 ^ 60) :
    1 / 10 ^ 60 ≤ width / product := by
  rw [div_le_div_iff₀ (by positivity) hp, one_mul]
  exact hp'.trans (le_mul_of_one_le_left (by positivity) hw)

private theorem leastNormal_le_div {width product : ℚ} (hw : 1 ≤ width) (hp : 0 < product) (hp' : product ≤ 10 ^ 60) :
    leastNormal ≤ width / product :=
  leastNormal_le.trans (least_le_div hw hp hp')

theorem product_le {p q : Int} (hp : IsSqrtPrice p) (hq : IsSqrtPrice q) :
    (0 : ℚ) < p * q ∧ (p * q : ℚ) ≤ 10 ^ 60 := by
  have hle : p * q ≤ maxSqrtPrice * maxSqrtPrice := mul_le_mul hp.2 hq.2 hq.pos.le (by decide)
  have hmax : maxSqrtPrice * maxSqrtPrice ≤ 10 ^ 60 := by decide
  have hpos : 0 < p * q := mul_pos hp.pos hq.pos
  exact ⟨by exact_mod_cast hpos, by exact_mod_cast hle.trans hmax⟩

theorem one_le_width (h : low < high) : (1 : ℚ) ≤ high - low := by
  have h' : (low : ℚ) + 1 ≤ high := by exact_mod_cast h
  linarith

/-- A gain is at least the reciprocal of the square of a sqrt price. -/
theorem least_le_rangeGain (hlast : IsSqrtPrice last) (hlow : IsSqrtPrice low) (hhigh : IsSqrtPrice high)
    (hlt : low < high) : 1 / 10 ^ 60 ≤ rangeGain last low high := by
  have hwidth := one_le_width hlt
  obtain ⟨hpos, hle⟩ := product_le hhigh hlow
  obtain ⟨hlast_pos, hlast_le⟩ := product_le hlast hlast
  have hreleased := least_le_div hwidth hpos hle
  have hworth := least_le_div hwidth hlast_pos hlast_le
  rw [rangeGain]
  linarith

private theorem leastNormal_le_rangeGain (hlast : IsSqrtPrice last) (hlow : IsSqrtPrice low) (hhigh : IsSqrtPrice high)
    (hlt : low < high) : leastNormal ≤ rangeGain last low high :=
  leastNormal_le.trans (least_le_rangeGain hlast hlow hhigh hlt)

theorem gains_nonneg (hlast : IsSqrtPrice last) (hfactor : ∀ i, 0 ≤ factor i) {prices : List Int}
    (h : Boundaries prices) (index : Nat) : 0 ≤ gains factor last index prices := by
  induction prices generalizing index with
  | nil => simp [gains]
  | cons low rest ih =>
    cases rest with
    | nil => simp [gains]
    | cons high rest =>
      obtain ⟨hlow, hhigh, hlt, hrest⟩ := h.of_cons_cons
      have hgain := leastNormal_pos.le.trans (leastNormal_le_rangeGain hlast hlow hhigh hlt)
      rw [gains]
      exact add_nonneg (mul_nonneg (hfactor index) hgain) (ih hrest _)

/-- Without factors the base released telescopes over the ranges, and so does the quote. -/
theorem gains_one_eq {prices : List Int} (h : Boundaries (low :: prices)) (index : Nat) :
    gains (fun _ => 1) last index (low :: prices) =
      1 / low - 1 / (prices.getLastD low) + ((prices.getLastD low) - low) / (last * last) := by
  induction prices generalizing low index with
  | nil => simp [gains]
  | cons high rest ih =>
    obtain ⟨hlow, hhigh, hlt, hrest⟩ := h.of_cons_cons
    have hlow_ne : (low : ℚ) ≠ 0 := by exact_mod_cast hlow.pos.ne'
    have hhigh_ne : (high : ℚ) ≠ 0 := by exact_mod_cast hhigh.pos.ne'
    have hreleased : ((high : ℚ) - low) / (high * low) = 1 / low - 1 / high := by field_simp
    rw [gains, ih hrest, rangeGain, List.getLastD_cons, hreleased]
    ring

end Gains

/-! ### Powers of the factor -/

/-- The number that a power is computed as; zero if there is none. -/
def Decimal.powerValue (k : Decimal) (n : Nat) : ℚ :=
  match k.power n with
  | .ok y => y.value
  | .error _ => 0

section Powers

variable {k y : Decimal} {n : Nat}

private theorem powerValue_of_power (h : k.power n = .ok y) : k.powerValue n = y.value := by
  rw [Decimal.powerValue, h]

private theorem powerValue_nonneg (hk : k.isPositive = true) (n : Nat) : 0 ≤ k.powerValue n := by
  unfold Decimal.powerValue
  split
  · exact Decimal.power_nonneg hk ‹_›
  · exact le_rfl

private theorem powerValue_zero (hk : k.isPositive = true) : k.powerValue 0 = 1 := by
  rw [powerValue_of_power (Decimal.power_zero hk)]
  simp [Decimal.value, Decimal.magnitude]

end Powers

/-! ### The weight sum -/

section WeightSum

variable {k lastSquared weight total w : Decimal} {last low high : Int} {index n : Nat}

private theorem rangeWeight_spec (hlast : IsSqrtPrice last) (hlow : IsSqrtPrice low) (hhigh : IsSqrtPrice high)
    (hlt : low < high) (hsquare : Near 1 (last * last) lastSquared.value)
    (h : rangeWeight k lastSquared index low high = .ok weight) :
    ∃ sum : ℚ, Near 4 (rangeGain last low high) sum ∧ weight.Rounds (k.powerValue index * sum) := by
  simp only [rangeWeight, bind_eq_ok_iff] at h
  obtain ⟨width, hwidth, product, hproduct, released, hreleased, worth, hworth, factor, hfactor, sum, hsum, hweight⟩ := h
  have hle_width := one_le_width hlt
  obtain ⟨hpos, hle⟩ := product_le hhigh hlow
  obtain ⟨hlast_pos, hlast_le⟩ := product_le hlast hlast
  have hone : (1 : ℚ) ≤ high * low := by exact_mod_cast mul_pos hhigh.pos hlow.pos
  have hwidth' : Near 1 ((high : ℚ) - low) width.value := by
    have hrounds := Decimal.rounds_sub hwidth
    rw [Decimal.value_ofInt, Decimal.value_ofInt] at hrounds
    exact .of_rounds (by linarith [leastNormal_le_one]) hrounds
  have hproduct' : Near 1 ((high : ℚ) * low) product.value := by
    have hrounds := Decimal.rounds_mul hproduct
    rw [Decimal.value_ofInt, Decimal.value_ofInt] at hrounds
    exact .of_rounds (by linarith [leastNormal_le_one]) hrounds
  have hreleased' : Near 3 (((high : ℚ) - low) / (high * low)) released.value :=
    (hwidth'.div hpos hproduct').round (by decide) (leastNormal_le_div hle_width hpos hle) (Decimal.rounds_div hreleased)
  have hworth' : Near 3 (((high : ℚ) - low) / (last * last)) worth.value :=
    (hwidth'.div hlast_pos hsquare).round (by decide) (leastNormal_le_div hle_width hlast_pos hlast_le)
      (Decimal.rounds_div hworth)
  refine ⟨sum.value, ?_, ?_⟩
  · exact (hreleased'.add hworth').round (by decide) (leastNormal_le_rangeGain hlast hlow hhigh hlt)
      (Decimal.rounds_add hsum)
  · rw [powerValue_of_power hfactor]
    exact Decimal.rounds_mul hweight

/-- A weight that is added to a total is rounded twice, whatever its factor is. -/
private theorem Near.add_weight {T gain factor sum : ℚ} {next : Decimal} (hn : 4 ≤ n) (hn' : n ≤ 38)
    (hT : leastNormal ≤ T) (hfactor : 0 ≤ factor) (htotal : Near n T total.value) (hsum : Near 4 gain sum)
    (hweight : weight.Rounds (factor * sum)) (hnext : next.Rounds (total.value + weight.value)) :
    Near (n + 2) (T + factor * gain) next.value := by
  have hexact : Near n (T + factor * gain) (total.value + factor * sum) :=
    htotal.add ((hsum.mul_left hfactor).mono hn)
  have hproduct := mul_nonneg hfactor hsum.nonneg_right
  have hleast := hT.trans (htotal.le_ten_mul (by omega))
  have htotal_nonneg := htotal.nonneg_right
  -- The error of the product is small against the total, even where it is not small against the product.
  have hsplit : Near 1 (total.value + factor * sum) (total.value + weight.value) := by
    refine .of_abs_sub_le (add_nonneg htotal_nonneg hproduct) ?_
    rw [Decimal.Rounds, abs_of_nonneg hproduct, Decimal.unit_precision] at hweight
    rw [add_sub_add_left_eq_sub]
    refine hweight.trans ?_
    linarith
  have hgain := mul_nonneg hfactor hsum.nonneg
  exact (hexact.trans hsplit).round (by omega) (by linarith) hnext

private theorem addWeights_spec (hlast : IsSqrtPrice last) (hk : k.isPositive = true)
    (hsquare : Near 1 (last * last) lastSquared.value) {prices : List Int} (hprices : Boundaries prices) {T : ℚ}
    (hn : 4 ≤ n) (hn' : n + 2 * prices.length ≤ 42) (hT : leastNormal ≤ T) (htotal : Near n T total.value)
    (h : addWeights k lastSquared index prices total = .ok w) :
    Near (n + 2 * (prices.length - 1)) (T + gains k.powerValue last index prices) w.value := by
  induction prices generalizing index total n T with
  | nil =>
    obtain ⟨⟩ := h
    simpa [gains] using htotal
  | cons low rest ih =>
    cases rest with
    | nil =>
      obtain ⟨⟩ := h
      simpa [gains] using htotal
    | cons high rest =>
      obtain ⟨hlow, hhigh, hlt, hrest⟩ := hprices.of_cons_cons
      simp only [addWeights, bind_eq_ok_iff] at h
      obtain ⟨weight, hweight, next, hnext, h⟩ := h
      obtain ⟨sum, hsum, hrounds⟩ := rangeWeight_spec hlast hlow hhigh hlt hsquare hweight
      simp only [List.length_cons] at hn' ih ⊢
      have hfactor := powerValue_nonneg hk index
      have hgain := mul_nonneg hfactor hsum.nonneg
      have hstep := htotal.add_weight hn (by omega) hT hfactor hsum hrounds (Decimal.rounds_add hnext)
      have hwhole := ih hrest (by omega) (by omega) (by linarith) hstep h
      rw [gains, ← add_assoc]
      exact hwhole.mono (by omega)

private theorem addWeights_lt {prices : List Int} (htotal : total.value < 10 ^ (greatestExponent + 1))
    (h : addWeights k lastSquared index prices total = .ok w) : w.value < 10 ^ (greatestExponent + 1) := by
  induction prices generalizing index total with
  | nil =>
    obtain ⟨⟩ := h
    exact htotal
  | cons low rest ih =>
    cases rest with
    | nil =>
      obtain ⟨⟩ := h
      exact htotal
    | cons high rest =>
      simp only [addWeights, bind_eq_ok_iff] at h
      obtain ⟨weight, -, next, hnext, h⟩ := h
      obtain ⟨-, -, hlt⟩ := Decimal.round_spec hnext
      exact ih hlt h

/-- The run behind a weight sum. -/
theorem addWeights_of_weightSum {factor : Scalar} {prices : List Int} (h : weightSum prices factor = .ok w) :
    ∃ k lastSquared, positiveDecimal "k_factor" factor = .ok k ∧ k.isPositive = true ∧
      (Decimal.ofInt (prices.getLastD 0)).mul (.ofInt (prices.getLastD 0)) = .ok lastSquared ∧
      addWeights k lastSquared 0 prices (.ofInt 0) = .ok w := by
  rw [weightSum, ite_error_eq_ok_iff] at h
  simp only [bind_eq_ok_iff, liftM_eq_liftSignal, liftSignal_eq_ok_iff] at h
  obtain ⟨-, k, hk, lastSquared, hsquare, h⟩ := h
  exact ⟨k, lastSquared, hk, isPositive_of_positiveDecimal hk, hsquare, h⟩

/-- The computed weight sum is close to the exact sum of the gains, which the factor weighs. -/
theorem weightSum_near {factor : Scalar} {prices : List Int} (hprices : Boundaries (low :: high :: prices))
    (hlength : prices.length ≤ 17) (h : weightSum (low :: high :: prices) factor = .ok w) :
    ∃ k, positiveDecimal "k_factor" factor = .ok k ∧ k.isPositive = true ∧
      0 < gains k.powerValue (prices.getLastD high) 0 (low :: high :: prices) ∧
      Near (6 + 2 * prices.length) (gains k.powerValue (prices.getLastD high) 0 (low :: high :: prices)) w.value ∧
      w.value < 10 ^ (greatestExponent + 1) := by
  obtain ⟨hlow, hhigh, hlt, hrest⟩ := hprices.of_cons_cons
  have hlast : IsSqrtPrice (prices.getLastD high) := hrest.mem _ List.getLastD_mem_cons
  have hlast_pos : (1 : ℚ) ≤ prices.getLastD high := by exact_mod_cast hlast.pos
  obtain ⟨k, lastSquared, hk, hpositive, hsquare, h⟩ := addWeights_of_weightSum h
  rw [List.getLastD_cons, List.getLastD_cons] at hsquare
  have hsquare' : Near 1 ((prices.getLastD high : ℚ) * prices.getLastD high) lastSquared.value := by
    have hrounds := Decimal.rounds_mul hsquare
    rw [Decimal.value_ofInt] at hrounds
    exact .of_rounds (by nlinarith [leastNormal_le_one]) hrounds
  -- The first weight has the factor one and is added to zero.
  simp only [addWeights, bind_eq_ok_iff] at h
  obtain ⟨weight, hweight, next, hnext, h⟩ := h
  obtain ⟨sum, hsum, hrounds⟩ := rangeWeight_spec hlast hlow hhigh hlt hsquare' hweight
  have hgain := leastNormal_le_rangeGain hlast hlow hhigh hlt
  rw [powerValue_zero hpositive, one_mul] at hrounds
  have hfirst : Near 6 (rangeGain (prices.getLastD high) low high) next.value := by
    have hadd := Decimal.rounds_add hnext
    rw [Decimal.value_ofInt, Int.cast_zero, zero_add] at hadd
    exact (hsum.round (by decide) hgain hrounds).round (by decide) hgain hadd
  obtain ⟨-, -, hnext_lt⟩ := Decimal.round_spec hnext
  have hgains := gains_nonneg hlast (powerValue_nonneg hpositive) hrest 1
  refine ⟨k, hk, hpositive, ?_⟩
  rw [gains, powerValue_zero hpositive, one_mul]
  refine ⟨by linarith [leastNormal_pos], ?_, addWeights_lt hnext_lt h⟩
  exact addWeights_spec hlast hpositive hsquare' hrest (by decide) (by simp; omega) hgain hfirst h

end WeightSum

/-! ### Liquidities -/

/-- What liquidities release and what their quote is worth at a last price, exactly. -/
def spent (last : Int) (slices : List Slice) : ℚ :=
  (slices.map fun s => s.liquidity * rangeGain last s.lower s.upper).sum

@[simp] theorem spent_nil (last : Int) : spent last [] = 0 := rfl

@[simp] theorem spent_cons (last : Int) (s : Slice) (rest : List Slice) :
    spent last (s :: rest) = s.liquidity * rangeGain last s.lower s.upper + spent last rest :=
  List.sum_cons

section Liquidities

variable {k liquidity : Decimal} {last low : Int} {index : Nat} {bounds : List Int} {segments : List Segment}

/-- A liquidity is rounded and then rounded down. -/
private theorem kept_mul_floor_le {scaled : Decimal} {q : ℚ} (hq : 0 ≤ q) (h : scaled.Rounds q)
    (hscaled : 0 ≤ scaled.value) : kept * ⌊scaled.value⌋ ≤ q ∧ kept * q - 1 ≤ ⌊scaled.value⌋ := by
  have hfloor := Int.floor_le scaled.value
  have hlt := Int.lt_floor_add_one scaled.value
  rcases le_total leastNormal (10 * q) with hlarge | hsmall
  · obtain ⟨-, hlow, hhigh⟩ := Near.of_rounds hlarge h
    rw [pow_one] at hlow hhigh
    have hkept := mul_le_mul_of_nonneg_left hfloor kept_pos.le
    constructor <;> linarith
  · -- A number as small as this has no integer part.
    have hleast := leastNormal_le
    rw [Decimal.Rounds, abs_of_nonneg hq, Decimal.unit_precision] at h
    have hbelow : scaled.value < 1 := by
      have := (abs_le.mp h).2
      norm_num at hleast this ⊢
      linarith
    rw [Int.floor_eq_zero_iff.mpr ⟨hscaled, hbelow⟩, Int.cast_zero, mul_zero]
    have hkept := mul_le_of_le_one_left hq kept_le_one
    norm_num at hleast
    constructor <;> linarith

/-- The liquidities spend the quotient times the weights, but for roundings and a unit of liquidity in each range. -/
theorem spent_of_segmentsFrom (hlast : IsSqrtPrice last) (hk : k.isPositive = true) (hliquidity : 0 ≤ liquidity.value)
    (hbounds : Boundaries (low :: bounds)) (h : segmentsFrom (.finite liquidity) k index bounds = .ok segments)
    (i : Nat) :
    kept * spent last (slicesFrom i low segments) ≤
        liquidity.value * gains k.powerValue last index (low :: bounds) ∧
      kept * (liquidity.value * gains k.powerValue last index (low :: bounds)) -
          gains (fun _ => 1) last index (low :: bounds) ≤
        spent last (slicesFrom i low segments) := by
  induction bounds generalizing low index i segments with
  | nil =>
    obtain ⟨⟩ := h
    simp [gains, slicesFrom]
  | cons bound rest ih =>
    obtain ⟨hlow, hbound, hlt, hrest⟩ := hbounds.of_cons_cons
    simp only [segmentsFrom, bind_eq_ok_iff, liftM_eq_liftSignal, liftSignal_eq_ok_iff, checkedU128_eq_ok_iff] at h
    obtain ⟨factor, hfactor, scaled, hscaled, units, hunits, _, ⟨-, rfl⟩, segment, hsegment, above, habove, ⟨⟩⟩ := h
    obtain ⟨hprice, hsegment_liquidity⟩ := Segment.fields_of_ofInts hsegment
    obtain ⟨product, hproduct, rfl⟩ := Numeral.mul_finite_eq_ok_iff.mp hscaled
    obtain ⟨hnonneg, rfl⟩ := Decimal.floor_eq_ok_iff.mp hunits
    have hexact : 0 ≤ liquidity.value * factor.value := mul_nonneg hliquidity (Decimal.power_nonneg hk hfactor)
    obtain ⟨hfloor_le, hle_floor⟩ := kept_mul_floor_le hexact (Decimal.rounds_mul hproduct) hnonneg
    have hgain := leastNormal_pos.le.trans (leastNormal_le_rangeGain hlast hlow hbound hlt)
    have hfloor_le_gain := mul_le_mul_of_nonneg_right hfloor_le hgain
    have hle_floor_gain := mul_le_mul_of_nonneg_right hle_floor hgain
    obtain ⟨hrest_high, hrest_low⟩ := ih hrest habove (i + 1)
    rw [slicesFrom, spent_cons, gains, gains, hprice, hsegment_liquidity, powerValue_of_power hfactor]
    constructor <;> linarith

end Liquidities

end BondingCurve
