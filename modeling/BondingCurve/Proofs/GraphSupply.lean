import BondingCurve.Proofs.GraphWeights
import BondingCurve.Proofs.Reconciliation

/-!
# Supply of graph designs

A graph design spends what its supply has available for the curve: the base that the curve releases, and the base that
the quote collected is worth at the last price, are together the available amount (`GraphMarket.design_spends`).  The
difference comes from the sixteen liquidities, each rounded down, and is less than `10 ^ (-9)` of a unit.

What the amounts of a market satisfy is collected in `GraphMarket.Allotted`, what its curve satisfies in
`GraphMarket.Spread`.
-/

namespace BondingCurve

/-! ### Boundaries between two prices -/

theorem length_of_scaledPrices {ratio : Decimal} {count : Nat} {price : Int} {prices : List Int}
    (h : scaledPrices ratio count price = .ok prices) : prices.length = count := by
  induction count generalizing price prices with
  | zero =>
    obtain ⟨⟩ := h
    rfl
  | succ count ih =>
    simp only [scaledPrices, bind_eq_ok_iff] at h
    obtain ⟨_, -, next, -, rest, hrest, ⟨⟩⟩ := h
    rw [List.length_cons, ih hrest]

private theorem exists_of_geometricPrices {low high segments : Int} {prices : List Int}
    (h : (geometricPrices low high segments).result = .ok prices) :
    ∃ inner, prices = low :: inner ++ [high] ∧ (inner.length : Int) + 1 = segments := by
  simp only [geometricPrices, Traced.result_ite, Traced.result_bind, Traced.result_fail, Traced.result_liftM,
    Traced.result_emit, ite_error_eq_ok_iff, bind_eq_ok_iff] at h
  obtain ⟨hpos, -, ratio, -, inner, hinner, _, -, ⟨⟩⟩ := h
  have hlength := length_of_scaledPrices hinner
  exact ⟨inner, rfl, by omega⟩

private theorem nonneg_of_floor {x : Numeral} {n : Int} (h : x.floor = .ok n) : 0 ≤ n := by
  cases x with
  | finite x =>
    obtain ⟨hnonneg, rfl⟩ := Decimal.floor_eq_ok_iff.mp h
    exact Int.floor_nonneg.mpr hnonneg
  | infinity _ => cases h
  | nan _ _ _ => cases h

theorem nonneg_of_scaleToUnits {x : Scalar} {decimals n : Int} (h : scaleToUnits x decimals = .ok n) : 0 ≤ n := by
  unfold scaleToUnits at h
  by_cases hdecimals : decimals < 0
  · rw [if_pos hdecimals] at h
    cases h
  · rw [if_neg hdecimals] at h
    simp only [bind_eq_ok_iff] at h
    obtain ⟨numeral, -, unit, -, scaled, -, hfloor⟩ := h
    exact nonneg_of_floor hfloor

namespace GraphMarket

variable {m : GraphMarket} {supply : Decimal} {a : GraphAmounts} {curve : Curve}

/-- What the amounts of a market satisfy. -/
structure Allotted (m : GraphMarket) (a : GraphAmounts) : Prop where
  min_mem : IsSqrtPrice a.sqrtMinPrice
  max_mem : IsSqrtPrice a.sqrtMaxPrice
  prices_eq : ∃ first rest, a.prices = a.sqrtMinPrice :: first :: rest ∧ rest.getLastD first = a.sqrtMaxPrice ∧
    rest.length = 15
  totalSupply_mem : IsU64 a.totalSupply
  leftover_eq : scaleToUnits m.leftover m.baseDecimals = .ok a.leftover
  vested_eq : m.vesting.totalAmount = .ok (a.totalSupply - a.leftover - a.available)
  available_pos : 0 < a.available

theorem allotted_of_amounts (h : (m.amounts supply).result = .ok a) :
    m.Allotted a ∧ scaleToUnits (.decimal (.finite supply)) m.baseDecimals = .ok a.totalSupply := by
  simp only [amounts, priceAt, Traced.result_bind, Traced.result_liftM, Traced.result_ite, Traced.result_fail,
    bind_eq_ok_iff, ite_error_eq_ok_iff, checkedU64_eq_ok_iff, checkSqrtPrice_eq_ok_iff] at h
  obtain ⟨low, ⟨_, -, hlow, rfl⟩, high, ⟨_, -, hhigh, rfl⟩, prices, hprices, _, hsupply, _, ⟨htotal, rfl⟩, leftover,
    hleftover, vested, hvested, havailable, ⟨⟩⟩ := h
  obtain ⟨inner, hinner, hlength⟩ := exists_of_geometricPrices hprices
  have hcount : graphSegmentCount = 16 := rfl
  obtain ⟨first, rest, rfl⟩ : ∃ first rest, inner = first :: rest := List.exists_cons_of_length_pos (by omega)
  simp only [List.length_cons, Nat.cast_add, Nat.cast_one] at hlength
  refine ⟨⟨hlow, hhigh, ⟨first, rest ++ [high], hinner, by simp, by simp; omega⟩, htotal, hleftover, ?_, ?_⟩, hsupply⟩
  rotate_left
  · simp only
    omega
  rw [hvested]
  congr 1
  simp only
  omega

theorem Allotted.available_le (h : m.Allotted a) : a.available ≤ u64Max := by
  have hleftover := nonneg_of_scaleToUnits h.leftover_eq
  obtain ⟨⟨hvested, -⟩, hvested_eq⟩ := checkedU64_eq_ok_iff.mp h.vested_eq
  have htotal := h.totalSupply_mem.2
  omega

/-- What the curve of a market satisfies. -/
structure Spread (a : GraphAmounts) (curve : Curve) : Prop where
  start_eq : curve.sqrtStartPrice = a.sqrtMinPrice
  end_eq : curve.sqrtEndPrice = a.sqrtMaxPrice
  length_eq : curve.segments.length = 16
  spent_le : kept ^ 38 * spent a.sqrtMaxPrice curve.slices ≤ a.available
  le_spent : kept ^ 38 * a.available - 1 / a.sqrtMinPrice < spent a.sqrtMaxPrice curve.slices

private theorem prices_of_segmentsFrom {liquidity : Numeral} {k : Decimal} {index : Nat} {bounds : List Int}
    {segments : List Segment} (h : segmentsFrom liquidity k index bounds = .ok segments) :
    segments.map Segment.sqrtPrice = bounds := by
  induction bounds generalizing index segments with
  | nil =>
    obtain ⟨⟩ := h
    rfl
  | cons bound rest ih =>
    simp only [segmentsFrom, bind_eq_ok_iff] at h
    obtain ⟨_, -, _, -, _, -, _, -, segment, hsegment, above, habove, ⟨⟩⟩ := h
    rw [List.map_cons, ih habove, (Segment.fields_of_ofInts hsegment).1]

/-- A quotient times its divisor is close to its dividend. -/
private theorem near_of_div {available : Int} {weight liquidity : Decimal} {X : ℚ} {n : Nat} (hpos : 0 < available)
    (hX : 0 < X) (hnear : Near n X weight.value) (hlt : weight.value < 10 ^ (greatestExponent + 1))
    (h : (Decimal.ofInt available).div weight = .ok liquidity) :
    0 ≤ liquidity.value ∧ Near (n + 1) available (X * liquidity.value) := by
  have hpos' : (1 : ℚ) ≤ available := by exact_mod_cast hpos
  have hweight : 0 < weight.value := hnear.pos_right hX
  have hrounds := Decimal.rounds_div h
  rw [Decimal.value_ofInt] at hrounds
  have hlarge : Decimal.leastNormal ≤ 10 * (available / weight.value) := by
    have hstep : (10 : ℚ) ^ (greatestExponent + 1) * Decimal.leastNormal = 10 := by
      rw [Decimal.leastNormal, ← zpow_add₀ (by norm_num), add_right_comm, add_neg_cancel, zero_add, zpow_one]
    rw [← mul_div_assoc, le_div_iff₀ hweight]
    have hmul := mul_le_mul_of_nonneg_right hlt.le Decimal.leastNormal_pos.le
    linarith
  have hquotient : Near (0 + n + 1) (available / X) liquidity.value :=
    ((Near.refl (by linarith)).div hX hnear).trans (.of_rounds hlarge hrounds)
  have hproduct := hquotient.mul_left hX.le
  rw [mul_div_cancel₀ _ hX.ne', zero_add] at hproduct
  exact ⟨hquotient.nonneg_right, hproduct⟩

theorem spread_of_curveOf (ha : m.Allotted a) (h : (m.curveOf a).result = .ok curve) : Spread a curve := by
  simp only [curveOf, Traced.result_bind, Traced.result_liftM, Traced.result_liftM_signal, Traced.result_emit,
    graphSegments, bind_eq_ok_iff, liftSignal_eq_ok_iff] at h
  obtain ⟨weight, hweight, liquidity, hliquidity, segments, ⟨k, hk, hsegments⟩, _, hcurve, _, -, ⟨⟩⟩ := h
  obtain ⟨hstart, hcurve_segments⟩ := Curve.fields_of_ofSegments hcurve
  have hbounds := prices_of_segmentsFrom hsegments
  obtain ⟨first, rest, hprices, hlast, hlength⟩ := ha.prices_eq
  rw [hprices, List.tail_cons] at hbounds hsegments
  have hordered : Boundaries (a.sqrtMinPrice :: first :: rest) := by
    have h := Boundaries.of_increasing curve.start_mem curve.increasing
    rwa [hstart, hcurve_segments, hbounds] at h
  -- The weights of the liquidities are those of the weight sum, for the powers of one factor.
  rw [hprices] at hweight
  obtain ⟨k', hk', hpositive, hgains, hnear, hweight_lt⟩ := weightSum_near hordered (by omega) hweight
  obtain rfl : k' = k := Except.ok.inj (hk'.symm.trans hk)
  rw [hlast, hlength] at hnear
  rw [hlast] at hgains
  obtain ⟨hnonneg, hproduct⟩ := near_of_div ha.available_pos hgains hnear hweight_lt hliquidity
  obtain ⟨hhigh, hlow⟩ := spent_of_segmentsFrom ha.max_mem hpositive hnonneg hordered hsegments 0
  rw [gains_one_eq hordered, List.getLastD_cons, hlast] at hlow
  generalize gains k'.powerValue a.sqrtMaxPrice 0 (a.sqrtMinPrice :: first :: rest) = total at *
  have hslices : curve.slices = slicesFrom 0 a.sqrtMinPrice segments := by rw [Curve.slices, hstart, hcurve_segments]
  refine ⟨hstart, ?_, ?_, ?_, ?_⟩
  · rw [← curve.getLastD_sqrtPrice 0, hcurve_segments, hbounds, List.getLastD_cons, hlast]
  · rw [hcurve_segments, ← List.length_map Segment.sqrtPrice, hbounds, List.length_cons, hlength]
  · rw [hslices]
    calc kept ^ 38 * spent a.sqrtMaxPrice (slicesFrom 0 a.sqrtMinPrice segments)
        = kept ^ 37 * (kept * spent a.sqrtMaxPrice (slicesFrom 0 a.sqrtMinPrice segments)) := by ring
      _ ≤ kept ^ 37 * (liquidity.value * total) := mul_le_mul_of_nonneg_left hhigh (kept_pow_pos 37).le
      _ = kept ^ 37 * (total * liquidity.value) := by rw [mul_comm total]
      _ ≤ a.available := hproduct.upper
  · have hkept : kept ^ 38 * a.available ≤ kept * (liquidity.value * total) :=
      calc kept ^ 38 * (a.available : ℚ) = kept * (kept ^ 37 * a.available) := by ring
        _ ≤ kept * (total * liquidity.value) := mul_le_mul_of_nonneg_left hproduct.lower kept_pos.le
        _ = kept * (liquidity.value * total) := by rw [mul_comm total]
    -- The quote of the ranges is worth less at the last price than the base beyond that price.
    have hmin : (0 : ℚ) < a.sqrtMinPrice := by exact_mod_cast ha.min_mem.pos
    have hmax : (0 : ℚ) < a.sqrtMaxPrice := by exact_mod_cast ha.max_mem.pos
    have hworth : ((a.sqrtMaxPrice : ℚ) - a.sqrtMinPrice) / (a.sqrtMaxPrice * a.sqrtMaxPrice) < 1 / a.sqrtMaxPrice := by
      rw [div_lt_div_iff₀ (mul_pos hmax hmax) hmax, one_mul]
      exact mul_lt_mul_of_pos_right (by linarith) hmax
    rw [hslices]
    linarith

/-- Sixteen liquidities rounded down and some forty roundings spend the available amount to a fraction of a unit. -/
private theorem Spread.spent_bounds (h : Spread a curve) (hmin : IsSqrtPrice a.sqrtMinPrice) (hpos : 0 < a.available)
    (hle : a.available ≤ u64Max) :
    (a.available : ℚ) - 1 / 10 ^ 9 < spent a.sqrtMaxPrice curve.slices ∧
      spent a.sqrtMaxPrice curve.slices < a.available + 1 / 10 ^ 30 := by
  have hkept : (1 : ℚ) - 38 / 10 ^ 57 ≤ kept ^ 38 := one_sub_le_kept_pow 38
  have hpos' : (0 : ℚ) < a.available := by exact_mod_cast hpos
  have hle' : (a.available : ℚ) ≤ 10 ^ 20 := by exact_mod_cast hle.trans (by decide)
  constructor
  · have hprice : (4295048016 : ℚ) ≤ a.sqrtMinPrice := by exact_mod_cast hmin.1
    have hrelease : (1 : ℚ) / a.sqrtMinPrice ≤ 1 / 4295048016 := one_div_le_one_div_of_le (by norm_num) hprice
    have hpart := mul_le_mul_of_nonneg_right hkept hpos'.le
    linarith [h.le_spent]
  · by_contra hge
    rw [not_lt] at hge
    have hpart := mul_le_mul_of_nonneg_left hge (kept_pow_pos 38).le
    have hkept_part := mul_le_mul_of_nonneg_right hkept (by positivity : (0 : ℚ) ≤ a.available + 1 / 10 ^ 30)
    linarith [h.spent_le]

/-! ### Designs -/

variable {d : CurveDesign}

/-- A market whose steps before the reconciliation have results. -/
structure Reached (m : GraphMarket) (option : MigrationOption) (supply : Decimal) (a : GraphAmounts) (curve : Curve)
    (threshold : Int) : Prop where
  option_eq : MigrationOption.ofScalar m.option = .ok option
  fee_ok : (BondingCurve.feeNumerator m.feeNumerator).isOk = true
  supply_eq : positiveDecimal "total_token_supply" m.supply = .ok supply
  amounts_eq : (m.amounts supply).result = .ok a
  curve_eq : (m.curveOf a).result = .ok curve
  threshold_eq : (m.thresholdOf a curve).result = .ok threshold

theorem reached_of_design (h : m.design.result = .ok d) :
    ∃ supply a, m.Reached d.migrationOption supply a d.curve d.migration.quoteAmount ∧
      d.totalSupply = a.totalSupply ∧ d.ReconciledWith m.vesting a.leftover m.bufferPercentage := by
  simp only [design, build, Traced.result_bind, Traced.result_liftM, bind_eq_ok_iff] at h
  obtain ⟨option, hoption, fee, hfee, supply, hsupply, a, ha, curve, hcurve, threshold, hthreshold,
    ⟨breakdown, price⟩, hreconcile, ⟨⟩⟩ := h
  exact ⟨supply, a, ⟨hoption, by rw [hfee]; rfl, hsupply, ha, hcurve, hthreshold⟩, rfl, hreconcile⟩

/-- A graph design spends the supply that vesting and leftover leave to it: over the ranges of its curve, the base
released and the base that the quote is worth at the last price are together that amount, less than `10 ^ (-9)` below
it and less than `10 ^ (-30)` above it. -/
theorem design_spends (h : m.design.result = .ok d) :
    ∃ leftover : Int, scaleToUnits m.leftover m.baseDecimals = .ok leftover ∧
      m.vesting.totalAmount = .ok d.supply.vestingAmount ∧ d.curve.slices.length = 16 ∧
      let available : ℚ := d.totalSupply - d.supply.vestingAmount - leftover
      let used : ℚ := (d.curve.slices.map fun s => (s.liquidity : ℚ) *
        ((s.upper - s.lower) / (s.upper * s.lower) + (s.upper - s.lower) / d.curve.sqrtEndPrice ^ 2)).sum
      available - 1 / 10 ^ 9 < used ∧ used < available + 1 / 10 ^ 30 := by
  obtain ⟨supply, a, hreached, htotal, hreconcile⟩ := reached_of_design h
  obtain ⟨ha, -⟩ := allotted_of_amounts hreached.amounts_eq
  have hspread := spread_of_curveOf ha hreached.curve_eq
  obtain ⟨b, remainder, hreconstructed, -, hsupply⟩ := reconstructed_of_reconcile hreconcile
  have hvesting : b.vestingAmount = a.totalSupply - a.leftover - a.available :=
    Except.ok.inj (hreconstructed.vested.symm.trans ha.vested_eq)
  have havailable : (d.totalSupply : ℚ) - d.supply.vestingAmount - a.leftover = a.available := by
    rw [htotal, hsupply]
    simp only
    rw [hvesting]
    push_cast
    ring
  refine ⟨a.leftover, ha.leftover_eq, ?_, ?_, ?_⟩
  · rw [hsupply]
    exact hreconstructed.vested
  · rw [Curve.slices, length_slicesFrom, hspread.length_eq]
  · intro available used
    have hused : used = spent a.sqrtMaxPrice d.curve.slices := by
      simp only [used, spent, rangeGain, hspread.end_eq, sq]
    rw [hused, show available = a.available from havailable]
    exact hspread.spent_bounds ha.min_mem ha.available_pos ha.available_le

/-- A billion tokens between market caps of thirty and three hundred, with vesting and leftover. -/
def referenceMarket : GraphMarket where
  supply := .int 1000000000
  initialMarketCap := .int 30
  migrationMarketCap := .int 300
  option := .int 0
  baseDecimals := 6
  quoteDecimals := 9
  vesting := (Vesting.ofInts 123456 0 1 120 123456).toOption.getD .nothing
  leftover := .int 10000
  factor := .text "1.2"

theorem exists_design_referenceMarket : ∃ d, referenceMarket.design.result = .ok d :=
  exists_of_isOk (by decide +kernel)

theorem design_spends_reference :
    ∃ (d : CurveDesign) (leftover : Int), referenceMarket.design.result = .ok d ∧
      scaleToUnits referenceMarket.leftover referenceMarket.baseDecimals = .ok leftover ∧
      d.curve.slices.length = 16 ∧
      (d.totalSupply : ℚ) - d.supply.vestingAmount - leftover - 1 / 10 ^ 9 <
        (d.curve.slices.map fun s => (s.liquidity : ℚ) *
          ((s.upper - s.lower) / (s.upper * s.lower) + (s.upper - s.lower) / d.curve.sqrtEndPrice ^ 2)).sum := by
  obtain ⟨d, hdesign⟩ := exists_design_referenceMarket
  obtain ⟨leftover, hleftover, -, hlength, hlow, -⟩ := design_spends hdesign
  exact ⟨d, leftover, hdesign, hleftover, hlength, hlow⟩

end GraphMarket
end BondingCurve
