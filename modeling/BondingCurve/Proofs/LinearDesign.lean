import BondingCurve.Proofs.Liquidity
import BondingCurve.Proofs.Reconciliation

/-!
# Exactness of linear designs

A linear design meets its numbers to the unit, though every liquidity in it is rounded.

* (first segment) Whichever side decides on the liquidity, the segment takes up exactly the threshold
  (`ceil_quote_of_firstCurve`), so the walk to the threshold ends at its bound (`Curve.thresholdPrice_of_first`).
* (terminal segment) Its liquidity releases exactly the supply that is not allotted yet, so the capacity of the curve
  is what reserve and vesting leave (`LinearMarket.extend_exact`).
* (design) Both hold of every design that is returned (`LinearMarket.design_exact`).
-/

namespace BondingCurve

open Token (base quote)

/-! ### The first segment -/

section FirstSegment

variable {migrationPrice reserve swapAmount threshold start L : Int}

private theorem ceil_quote_of_resizeFromQuote (hmax : migrationPrice ≤ maxSqrtPrice)
    (h : (resizeFromQuote migrationPrice swapAmount threshold).result = .ok (start, L)) :
    ⌈quote.amount start migrationPrice L⌉ = threshold := by
  simp only [resizeFromQuote, Traced.result_bind, Traced.result_liftM, Traced.result_ite, Traced.result_fail,
    Traced.result_emit, bind_eq_ok_iff, ite_error_eq_ok_iff, liquidityFromQuote_eq_ok_iff] at h
  obtain ⟨_, -, _, -, -, _, ⟨hstart, hlt, -, rfl⟩, _, -, ⟨⟩⟩ := h
  exact quote.ceil_amount_backed hstart hlt (Token.width_le_scale_quote hstart hmax) threshold

private theorem ceil_quote_of_sizeFrom {first : Int} (hmax : migrationPrice ≤ maxSqrtPrice)
    (h : (sizeFrom first migrationPrice swapAmount threshold).result = .ok (start, L)) :
    ⌈quote.amount start migrationPrice L⌉ = threshold := by
  simp only [sizeFrom, Traced.result_bind, Traced.result_liftM, bind_eq_ok_iff, liquidityFromBoth_eq_ok_iff] at h
  obtain ⟨liquidity, ⟨hstart, hlt, hswap, hthreshold, hliquidity⟩, absorbed, habsorbed, h⟩ := h
  by_cases hthin : absorbed < threshold
  · rw [if_pos hthin] at h
    exact ceil_quote_of_resizeFromQuote hmax h
  · rw [if_neg hthin] at h
    obtain ⟨⟩ := h
    have hnonneg : 0 ≤ L := by
      rw [hliquidity]
      exact le_min (base.backed_nonneg hstart hlt hswap) (quote.backed_nonneg hstart hlt hthreshold)
    have habsorbs : absorbed = ⌈quote.amount start migrationPrice L⌉ :=
      Except.ok.inj (habsorbed.symm.trans (quote.between_up hstart hlt.le hnonneg))
    -- The quote side backs at least this liquidity, so the threshold pays for it.
    have hpaid : ⌈quote.amount start migrationPrice L⌉ ≤ threshold := by
      rw [quote.ceil_amount_le_iff hstart hlt, hliquidity]
      exact min_le_right _ _
    omega

theorem ceil_quote_of_firstCurve {curve : Curve}
    (h : (firstCurve migrationPrice reserve swapAmount threshold).result = .ok curve) :
    reserve ≠ 0 ∧ ∃ first : Segment, curve.segments = [first] ∧ first.sqrtPrice = migrationPrice ∧
      ⌈quote.amount curve.sqrtStartPrice first.sqrtPrice first.liquidity⌉ = threshold := by
  simp only [firstCurve, sizeFirst, Traced.result_bind, Traced.result_liftM, Traced.result_ite, Traced.result_fail,
    Traced.result_emit, bind_eq_ok_iff, ite_error_eq_ok_iff, checkSqrtPrice_eq_ok_iff, checkedU128_eq_ok_iff] at h
  obtain ⟨⟨start, L⟩, ⟨-, _, ⟨hcandidate, rfl⟩, -, hsize⟩, _, -, _, ⟨-, rfl⟩, first, hfirst, hcurve⟩ := h
  obtain ⟨rfl, rfl⟩ := Segment.fields_of_ofInts hfirst
  obtain ⟨rfl, hsegments⟩ := Curve.fields_of_ofSegments hcurve
  refine ⟨?_, first, hsegments, rfl, ceil_quote_of_sizeFrom first.price_mem.2 hsize⟩
  -- A start price of zero would have been refused.
  rintro rfl
  have hpos := hcandidate.pos
  simp at hpos

end FirstSegment

/-! ### The walk to the threshold -/

private theorem absorbAlong_zero (slices : List Slice) (price : Int) :
    (absorbAlong slices price 0).result = .ok (price, 0) := by
  cases slices with
  | nil => rfl
  | cons s rest =>
    unfold absorbAlong
    rw [if_pos rfl]
    rfl

/-- A threshold that fills the first segment takes the curve to the bound of this segment. -/
theorem Curve.thresholdPrice_of_first {curve : Curve} {first : Segment} {rest : List Segment} {threshold : Int}
    (h : curve.segments = first :: rest) (hne : threshold ≠ 0)
    (hfill : ⌈quote.amount curve.sqrtStartPrice first.sqrtPrice first.liquidity⌉ = threshold) :
    (curve.thresholdPrice threshold).result = .ok first.sqrtPrice := by
  have hcapacity : quoteBetween curve.sqrtStartPrice first.sqrtPrice first.liquidity .up = .ok threshold := by
    rw [← hfill]
    exact between_first h quote
  have hnonneg : 0 ≤ threshold := by
    obtain ⟨hvalid, -⟩ := ascending_of_cons h
    rw [← hfill]
    exact Int.ceil_nonneg (quote.amount_nonneg hvalid.lower_pos hvalid.lower_lt.le hvalid.liquidity_mem.1)
  have hwalk : (absorbAlong curve.slices curve.sqrtStartPrice threshold).result = .ok (first.sqrtPrice, 0) := by
    rw [slices_of_cons h]
    unfold absorbAlong
    simp [hne, hcapacity, absorbAlong_zero]
  simp [thresholdPrice, nonNegative_of_nonneg hnonneg, hwalk]

/-- A curve of one segment has its whole capacity at the bound of that segment, so padding adds nothing. -/
theorem Curve.paddedCharge_of_single {curve : Curve} {first : Segment} {buffer : Int}
    (h : curve.segments = [first]) (hbuffer : 0 ≤ buffer) :
    curve.paddedCharge first.sqrtPrice buffer = ⌈base.amount curve.sqrtStartPrice first.sqrtPrice first.liquidity⌉ := by
  have hwhole := charge_first h base first.price_mem.2
  rw [slicesFrom, base.charge_nil, add_zero] at hwhole
  have hnonneg : 0 ≤ base.charge curve.slices curve.sqrtStartPrice maxSqrtPrice :=
    base.charge_nonneg curve.slices_ascending.valid curve.start_mem.2
  rw [hwhole] at hnonneg
  unfold paddedCharge
  rw [hwhole, charge_to_first h base]
  have hpad := Int.ediv_nonneg (Int.mul_nonneg hnonneg hbuffer) (by decide : (0 : Int) ≤ 100)
  exact min_eq_right (by omega)

/-- A threshold of zero sets nothing aside. -/
theorem migrationBase_zero {price amount : Int} {option : MigrationOption}
    (h : (migrationBase 0 price option).result = .ok amount) : amount = 0 := by
  obtain ⟨-, hprice, hamount⟩ := migrationBase_eq_ok_iff.mp h
  cases option with
  | constantProduct =>
    simp only [MigrationOption.base, constantProductBase, zero_mul,
      Rounding.divide_up le_rfl (mul_pos hprice.pos hprice.pos), ceilDiv_zero] at hamount
    exact (Except.ok.inj hamount).symm
  | concentrated =>
    simp only [MigrationOption.base, concentratedBase, bind_eq_ok_iff, liquidityFromQuote_eq_ok_iff] at hamount
    obtain ⟨_, ⟨-, -, -, rfl⟩, hbase⟩ := hamount
    have hzero : quote.backed minSqrtPrice price 0 = 0 := by simp [Token.backed]
    rw [hzero, baseBetween_up hprice.pos hprice.2 le_rfl, zero_mul, ceilDiv_zero] at hbase
    exact (Except.ok.inj hbase).symm

/-! ### The terminal segment -/

namespace LinearMarket

variable {m : LinearMarket} {option : MigrationOption} {a : LinearAmounts}

theorem extend_exact {one two : Curve} {first : Segment} (hone : one.segments = [first])
    (hbound : first.sqrtPrice = a.sqrtMigrationPrice) (hne : a.quoteThreshold ≠ 0)
    (hfill : ⌈quote.amount one.sqrtStartPrice first.sqrtPrice first.liquidity⌉ = a.quoteThreshold)
    (h : (m.extend option a one).result = .ok two) :
    two.sqrtStartPrice = one.sqrtStartPrice ∧ ∃ (terminal : Segment) (reserve vested : Int),
      two.segments = [first, terminal] ∧ terminal.sqrtPrice = maxSqrtPrice ∧
      (migrationBase a.quoteThreshold first.sqrtPrice option).result = .ok reserve ∧
      m.vesting.totalAmount = .ok vested ∧
      base.charge two.slices two.sqrtStartPrice maxSqrtPrice = a.totalSupply - reserve - vested := by
  simp only [extend, Traced.result_bind, Traced.result_liftM, Traced.result_emit, bind_eq_ok_iff,
    liquidityFromBase_eq_ok_iff, checkedU128_eq_ok_iff] at h
  obtain ⟨b, hb, remaining, hremaining, _, ⟨hpos, hlt, -, rfl⟩, _, ⟨-, rfl⟩, terminal, hterminal, _, htwo,
    _, -, ⟨⟩⟩ := h
  obtain ⟨hprice, hliquidity⟩ := Segment.fields_of_ofInts hterminal
  obtain ⟨hstart, hsegments⟩ := Curve.fields_of_ofSegments htwo
  rw [hone, List.singleton_append] at hsegments
  rw [← hbound] at hpos hlt hliquidity
  -- On the first segment alone the threshold leads to its bound, and padding adds nothing.
  obtain ⟨price, hreconstructed⟩ := reconstructed_of_reconstructSupply hb
  obtain rfl : price = first.sqrtPrice :=
    Except.ok.inj (hreconstructed.threshold_price.symm.trans (Curve.thresholdPrice_of_first hone hne hfill))
  have hswap := hreconstructed.swap_eq
  rw [Curve.paddedCharge_of_single hone hreconstructed.buffer_nonneg] at hswap
  have hleftover := hreconstructed.leftover_eq
  obtain ⟨htotal, hremaining⟩ := checkSupply_eq_ok hremaining
  unfold SupplyBreakdown.total at htotal hremaining
  -- The terminal segment releases what remains, to the unit.
  have hterminal_base : ⌈base.amount first.sqrtPrice maxSqrtPrice terminal.liquidity⌉ = remaining := by
    rw [hliquidity]
    exact base.ceil_amount_backed hpos hlt (Token.width_le_scale_base hpos hlt) remaining
  have hcapacity := Curve.charge_first hsegments base hlt.le
  simp only [slicesFrom, base.charge_cons, base.charge_nil, add_zero, hprice] at hcapacity
  rw [Slice.clamp_of_le le_rfl, Slice.clamp_of_mem hlt.le le_rfl, hterminal_base, hstart] at hcapacity
  refine ⟨hstart, terminal, b.migrationAmount, b.vestingAmount, hsegments, hprice, hreconstructed.migration,
    hreconstructed.vested, ?_⟩
  rw [hstart, hcapacity]
  omega

/-! ### The design -/

private theorem amounts_spec {supply percentage threshold : Decimal}
    (h : (m.amounts option supply percentage threshold).result = .ok a) :
    (∃ base price : Decimal, migrationSupply supply percentage = .ok base ∧
      priceOfAmounts (.decimal (.finite threshold)) (.decimal (.finite base)) = .ok price ∧
      (sqrtPriceOfPrice (.decimal (.finite price)) m.baseDecimals m.quoteDecimals).result =
        .ok a.sqrtMigrationPrice) ∧
    scaleToUnits (.decimal (.finite supply)) m.baseDecimals = .ok a.totalSupply ∧
    scaleToUnits (.decimal (.finite threshold)) m.quoteDecimals = .ok a.quoteThreshold ∧
    (migrationBase a.quoteThreshold a.sqrtMigrationPrice option).result = .ok a.migrationBase := by
  simp only [amounts, Traced.result_bind, Traced.result_liftM, Traced.result_ite, Traced.result_fail,
    Traced.result_emit, bind_eq_ok_iff, ite_error_eq_ok_iff, checkedU64_eq_ok_iff, checkSqrtPrice_eq_ok_iff] at h
  obtain ⟨base, hbase, _, hsupply, _, ⟨-, rfl⟩, _, hthreshold, _, ⟨-, rfl⟩, price, hprice, _, hsqrt, _, ⟨-, rfl⟩,
    reserve, hreserve, vested, -, -, _, -, ⟨⟩⟩ := h
  exact ⟨⟨base, price, hbase, hprice, hsqrt⟩, hsupply, hthreshold, hreserve⟩

private theorem build_exact {d : CurveDesign}
    (hreserve : (migrationBase a.quoteThreshold a.sqrtMigrationPrice option).result = .ok a.migrationBase)
    (h : (m.build option a).result = .ok d) :
    d.totalSupply = a.totalSupply ∧ d.migration = ⟨a.quoteThreshold, a.sqrtMigrationPrice⟩ ∧
    ∃ (first terminal : Segment) (capacity released : Int),
      d.curve.segments = [first, terminal] ∧ first.sqrtPrice = a.sqrtMigrationPrice ∧
      terminal.sqrtPrice = maxSqrtPrice ∧
      quoteBetween d.curve.sqrtStartPrice first.sqrtPrice first.liquidity .up = .ok a.quoteThreshold ∧
      (d.curve.thresholdPrice a.quoteThreshold).result = .ok first.sqrtPrice ∧
      d.curve.baseCapacity.result = .ok capacity ∧
      capacity = d.totalSupply - d.supply.migrationAmount - d.supply.vestingAmount ∧
      baseBetween d.curve.sqrtStartPrice first.sqrtPrice first.liquidity .up = .ok released ∧
      d.supply.swapAmount = min capacity (released + released * m.bufferPercentage / 100) := by
  simp only [build, bind_eq_ok_iff, Traced.result_bind] at h
  obtain ⟨one, hone, two, htwo, ⟨breakdown, reached⟩, hreconcile, ⟨⟩⟩ := h
  obtain ⟨hreserve_ne, first, hone_segments, hbound, hfill⟩ := ceil_quote_of_firstCurve hone
  -- A threshold of zero would have set nothing aside.
  have hne : a.quoteThreshold ≠ 0 := by
    intro hzero
    rw [hzero] at hreserve
    exact hreserve_ne (migrationBase_zero hreserve)
  obtain ⟨hstart, terminal, reserve, vested, hsegments, hterminal, hmigration, hvested, hcapacity⟩ :=
    extend_exact hone_segments hbound hne hfill htwo
  rw [← hstart] at hfill
  have hthreshold_price := Curve.thresholdPrice_of_first hsegments hne hfill
  obtain ⟨b, remainder, hreconstructed, -, rfl⟩ := reconstructed_of_reconcile hreconcile
  obtain rfl : reached = first.sqrtPrice :=
    Except.ok.inj (hreconstructed.threshold_price.symm.trans hthreshold_price)
  -- The breakdown of the finished curve has the reserve and the vesting that the terminal segment was sized with.
  obtain rfl : reserve = b.migrationAmount := Except.ok.inj (hmigration.symm.trans hreconstructed.migration)
  obtain rfl : vested = b.vestingAmount := Except.ok.inj (hvested.symm.trans hreconstructed.vested)
  have hquote : quoteBetween two.sqrtStartPrice first.sqrtPrice first.liquidity .up = .ok a.quoteThreshold := by
    rw [← hfill]
    exact Curve.between_first hsegments quote
  have hswap := hreconstructed.swap_eq
  unfold Curve.paddedCharge at hswap
  rw [Curve.charge_to_first hsegments base, hcapacity, min_comm] at hswap
  refine ⟨rfl, by rw [hbound], first, terminal, _, _, hsegments, hbound, hterminal, hquote, hthreshold_price, ?_, rfl,
    Curve.between_first hsegments base, hswap⟩
  rw [two.baseCapacity_result, hcapacity]

/-- The numbers of a linear design agree to the unit.  Its first segment ends at the migration price and takes up
exactly the threshold, its terminal segment ends at the greatest price, the capacity of the curve is what the migration
reserve and the vesting leave of the supply, and the swap amount is the padded base of the first segment, at most that
capacity. -/
theorem design_exact {d : CurveDesign} (h : m.design.result = .ok d) :
    ∃ (supply percentage threshold migrating price : Decimal) (first terminal : Segment) (capacity released : Int),
      positiveDecimal "total_token_supply" m.supply = .ok supply ∧
      positiveDecimal "percentage_supply_on_migration" m.migrationPercentage = .ok percentage ∧
      positiveDecimal "migration_quote_threshold" m.threshold = .ok threshold ∧
      scaleToUnits (.decimal (.finite supply)) m.baseDecimals = .ok d.totalSupply ∧
      scaleToUnits (.decimal (.finite threshold)) m.quoteDecimals = .ok d.migration.quoteAmount ∧
      migrationSupply supply percentage = .ok migrating ∧
      priceOfAmounts (.decimal (.finite threshold)) (.decimal (.finite migrating)) = .ok price ∧
      (sqrtPriceOfPrice (.decimal (.finite price)) m.baseDecimals m.quoteDecimals).result = .ok first.sqrtPrice ∧
      d.curve.segments = [first, terminal] ∧ terminal.sqrtPrice = maxSqrtPrice ∧
      quoteBetween d.curve.sqrtStartPrice first.sqrtPrice first.liquidity .up = .ok d.migration.quoteAmount ∧
      (d.curve.thresholdPrice d.migration.quoteAmount).result = .ok first.sqrtPrice ∧
      d.migration.sqrtPrice = first.sqrtPrice ∧
      d.curve.baseCapacity.result = .ok capacity ∧
      capacity = d.totalSupply - d.supply.migrationAmount - d.supply.vestingAmount ∧
      baseBetween d.curve.sqrtStartPrice first.sqrtPrice first.liquidity .up = .ok released ∧
      d.supply.swapAmount = min capacity (released + released * m.bufferPercentage / 100) := by
  simp only [design, Traced.result_bind, Traced.result_liftM, bind_eq_ok_iff] at h
  obtain ⟨option, -, _, -, supply, hsupply, percentage, hpercentage, threshold, hthreshold, h⟩ := h
  split at h
  · rw [Traced.result_bind, bind_eq_ok_iff] at h
    obtain ⟨a, ha, hbuild⟩ := h
    obtain ⟨⟨migrating, price, hmigrating, hprice, hsqrt⟩, htotal, hunits, hreserve⟩ := amounts_spec ha
    obtain ⟨htotal_eq, hmigration, first, terminal, capacity, released, hsegments, hbound, hexact⟩ :=
      build_exact hreserve hbuild
    rw [← hbound] at hsqrt hmigration
    rw [← htotal_eq] at htotal
    obtain ⟨hterminal, hquote, hthreshold_price, hrest⟩ := hexact
    refine ⟨supply, percentage, threshold, migrating, price, first, terminal, capacity, released, hsupply, hpercentage,
      hthreshold, htotal, ?_⟩
    rw [hmigration]
    exact ⟨hunits, hmigrating, hprice, hsqrt, hsegments, hterminal, hquote, hthreshold_price, rfl, hrest⟩
  · cases h

/-- A market with vesting whose first segment is sized anew from the quote side. -/
def resizedMarket : LinearMarket where
  supply := .int 1000000
  migrationPercentage := .int 20
  threshold := .int 100000
  option := .int 1
  baseDecimals := 6
  quoteDecimals := 9
  vesting := ⟨500000000, 0, 1, 10, 1000000000, by decide, by decide, by decide, by decide, by decide⟩

/-- Its design: the first segment releases all that reserve and vesting leave, so that the terminal one is empty. -/
def resizedDesign : CurveDesign where
  curve := ⟨103899681759143737819, [⟨412481737123559485879, 110272895330574769500786347170400, by decide, by decide⟩,
    ⟨maxSqrtPrice, 0, by decide, isU128_zero⟩], by decide, by decide, by decide, ⟨by decide, by decide, trivial⟩⟩
  migration := ⟨100000000000000, 412481737123559485879⟩
  supply := ⟨794000001039, 199999998961, 6000000000, 0⟩
  totalSupply := 1000000000000
  migrationOption := .concentrated
  baseDecimals := 6
  quoteDecimals := 9
  vesting := resizedMarket.vesting
  feeNumerator := defaultFeeNumerator

theorem design_exact_resized :
    resizedMarket.design.result = .ok resizedDesign ∧
    ∃ first terminal : Segment, resizedDesign.curve.segments = [first, terminal] ∧
      (sqrtPriceOfPrice (.decimal (.finite ⟨false, 5, -1⟩)) 6 9).result = .ok 412481737123559485879 ∧
      first.sqrtPrice = 412481737123559485879 ∧ terminal.sqrtPrice = maxSqrtPrice ∧
      quoteBetween 103899681759143737819 first.sqrtPrice first.liquidity .up = .ok 100000000000000 ∧
      (resizedDesign.curve.thresholdPrice (100000000000000 : Int)).result = .ok 412481737123559485879 ∧
      resizedDesign.curve.baseCapacity.result = .ok (1000000000000 - 199999998961 - 6000000000) ∧
      baseBetween 103899681759143737819 first.sqrtPrice first.liquidity .up = .ok 794000001039 ∧
      (794000001039 : Int) =
        min (1000000000000 - 199999998961 - 6000000000) (794000001039 + 794000001039 * 25 / 100) := by
  have hdesign : resizedMarket.design.result = .ok resizedDesign := eq_ok_of_toOption (by decide +kernel)
  obtain ⟨supply, percentage, threshold, migrating, price, first, terminal, capacity, released, hsupply, hpercentage,
    hthreshold, -, -, hmigrating, hprice, hsqrt, hsegments, hterminal, hquote, hreached, hmigration, hcapacity, rfl,
    hreleased, hswap⟩ := design_exact hdesign
  -- The price is half a quote token for a base token.
  obtain rfl : Decimal.ofInt 1000000 = supply := Except.ok.inj hsupply
  obtain rfl : Decimal.ofInt 20 = percentage := Except.ok.inj hpercentage
  obtain rfl : Decimal.ofInt 100000 = threshold := Except.ok.inj hthreshold
  obtain rfl : Decimal.ofInt 200000 = migrating := Except.ok.inj hmigrating
  obtain rfl : (⟨false, 5, -1⟩ : Decimal) = price := Except.ok.inj hprice
  obtain ⟨rfl, -⟩ : _ = first ∧ [_] = [terminal] := List.cons.inj hsegments
  obtain rfl : 794000001039 = released := Except.ok.inj hreleased
  exact ⟨hdesign, _, terminal, hsegments, hsqrt, rfl, hterminal, hquote, hreached, hcapacity, hreleased, hswap⟩

end LinearMarket

end BondingCurve
