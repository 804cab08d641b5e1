import BondingCurve.Proofs.LinearDesign
import BondingCurve.Proofs.Refusals
import BondingCurve.Proofs.Tiling

/-!
# Failures of linear designs

A linear design never fails on numbers of its own (`LinearMarket.design_failure`).  The curve always takes up the
threshold, and the supply suffices unless reserve and vesting use it up before there is a curve.  Once there is a first
segment, three arguments can still be refused: a negative padding, a migration price that leaves no room for the
terminal segment, and a supply that makes the terminal liquidity too wide.

* (first segment) It releases at most the swap amount, whichever side decides on its liquidity
  (`ceil_base_of_firstCurve`).
* (reconstruction) So the supply of the first segment is within the total, and the supply of the extended curve is the
  total (`reconcile_of_extend`).
-/

namespace BondingCurve

open Token (base quote)
open CurveError (OfArgument)

/-! ### Base of the first segment -/

section FirstSegment

variable {migrationPrice reserve swapAmount threshold start L : Int}

private theorem ceil_base_of_resizeFromQuote
    (h : (resizeFromQuote migrationPrice swapAmount threshold).result = .ok (start, L)) :
    ⌈base.amount start migrationPrice L⌉ ≤ swapAmount := by
  simp only [resizeFromQuote, Traced.result_bind, Traced.result_liftM, Traced.result_ite, Traced.result_fail,
    Traced.result_emit, Rounding.divide, bind_eq_ok_iff, ite_error_eq_ok_iff, liquidityFromQuote_eq_ok_iff,
    checkSqrtPrice_eq_ok_iff] at h
  obtain ⟨_, ⟨hdomain, ⟨⟩⟩, _, ⟨-, rfl⟩, -, _, ⟨hpos, hlt, -, rfl⟩, _, -, ⟨⟩⟩ := h
  have hdivisor : 0 < swapAmount * migrationPrice := by omega
  rw [base.ceil_amount_le_iff hpos hlt]
  apply Int.ediv_le_ediv (by omega)
  -- The start price is the least one from which the swap amount pays for the threshold.
  have hstart := (ceilDiv_le_iff (n := ceilDiv (threshold * quoteScale) (swapAmount * migrationPrice)) hdivisor).mp le_rfl
  simp only [Token.scale]
  linarith

private theorem ceil_base_of_sizeFrom {first : Int}
    (h : (sizeFrom first migrationPrice swapAmount threshold).result = .ok (start, L)) :
    ⌈base.amount start migrationPrice L⌉ ≤ swapAmount := by
  simp only [sizeFrom, Traced.result_bind, Traced.result_liftM, bind_eq_ok_iff, liquidityFromBoth_eq_ok_iff] at h
  obtain ⟨liquidity, ⟨hpos, hlt, -, -, hliquidity⟩, absorbed, -, h⟩ := h
  by_cases hthin : absorbed < threshold
  · rw [if_pos hthin] at h
    exact ceil_base_of_resizeFromQuote h
  · rw [if_neg hthin] at h
    obtain ⟨⟩ := h
    rw [base.ceil_amount_le_iff hpos hlt, hliquidity]
    exact min_le_left _ _

theorem ceil_base_of_firstCurve {curve : Curve} {first : Segment}
    (h : (firstCurve migrationPrice reserve swapAmount threshold).result = .ok curve)
    (hfirst : curve.segments = [first]) :
    ⌈base.amount curve.sqrtStartPrice first.sqrtPrice first.liquidity⌉ ≤ swapAmount := by
  simp only [firstCurve, sizeFirst, Traced.result_bind, Traced.result_liftM, Traced.result_ite, Traced.result_fail,
    Traced.result_emit, bind_eq_ok_iff, ite_error_eq_ok_iff, checkSqrtPrice_eq_ok_iff, checkedU128_eq_ok_iff] at h
  obtain ⟨⟨start, L⟩, ⟨-, _, -, -, hsize⟩, _, -, _, ⟨-, rfl⟩, segment, hsegment, hcurve⟩ := h
  obtain ⟨rfl, rfl⟩ := Segment.fields_of_ofInts hsegment
  obtain ⟨rfl, hsegments⟩ := Curve.fields_of_ofSegments hcurve
  obtain rfl : segment = first := by
    rw [hsegments] at hfirst
    exact List.head_eq_of_cons_eq hfirst
  exact ceil_base_of_sizeFrom hsize

end FirstSegment

/-! ### Steps that succeed -/

section Steps

variable {curve : Curve} {vesting : Vesting} {option : MigrationOption}
  {threshold leftover price reserve vested totalSupply : Int} {b : SupplyBreakdown}

/-- The supply of a curve that takes up the threshold is refused for the padding only. -/
private theorem reconstructSupply_result (hprice : (curve.thresholdPrice threshold).result = .ok price)
    (hstart : curve.sqrtStartPrice ≤ price) (hreserve : (migrationBase threshold price option).result = .ok reserve)
    (hvested : vesting.totalAmount = .ok vested) (hleftover : 0 ≤ leftover) (buffer : Int) :
    (reconstructSupply curve threshold vesting option leftover buffer).result =
      if buffer < 0 then .error (.amount (.negative "buffer_percentage" buffer))
      else .ok ⟨curve.paddedCharge price buffer, reserve, vested, leftover⟩ := by
  have hcharge : 0 ≤ base.charge curve.slices curve.sqrtStartPrice price :=
    base.charge_nonneg curve.slices_ascending.valid hstart
  by_cases hbuffer : buffer < 0
  · have hrefused : nonNegative "buffer_percentage" buffer = .error (.amount (.negative "buffer_percentage" buffer)) := by
      simp [nonNegative, hbuffer]
    simp [reconstructSupply, swapAmountWithBuffer, hleftover, hprice, curve.baseReleased_result, hcharge, hrefused,
      hbuffer]
  · simp [reconstructSupply, swapAmountWithBuffer, hleftover, hprice, curve.baseReleased_result, hcharge,
      curve.baseCapacity_result, hreserve, hvested, hbuffer, Int.not_lt.mp hbuffer, Curve.paddedCharge]

private theorem checkSupply_of_le (hnonneg : 0 ≤ totalSupply) (hle : b.total ≤ totalSupply) :
    checkSupply b totalSupply 0 = .ok (totalSupply - b.total) := by
  simp [checkSupply, hnonneg, Int.not_lt.mpr hle]

end Steps

namespace LinearMarket

variable {m : LinearMarket} {option : MigrationOption} {supply percentage threshold : Decimal} {a : LinearAmounts}
  {vested : Int}

/-! ### Amounts -/

/-- The amounts of a market before the supply is compared with reserve and vesting. -/
structure Derived (m : LinearMarket) (option : MigrationOption) (supply percentage threshold : Decimal)
    (a : LinearAmounts) (vested : Int) : Prop where
  price_eq : ∃ migrating price : Decimal, migrationSupply supply percentage = .ok migrating ∧
    priceOfAmounts (.decimal (.finite threshold)) (.decimal (.finite migrating)) = .ok price ∧
    (sqrtPriceOfNumeral (.finite price) m.baseDecimals m.quoteDecimals).result = .ok a.sqrtMigrationPrice
  totalSupply_eq : scaleToUnits (.decimal (.finite supply)) m.baseDecimals = .ok a.totalSupply
  quoteThreshold_eq : scaleToUnits (.decimal (.finite threshold)) m.quoteDecimals = .ok a.quoteThreshold
  reserve_eq : (migrationBase a.quoteThreshold a.sqrtMigrationPrice option).result = .ok a.migrationBase
  vested_eq : m.vesting.totalAmount = .ok vested
  swapAmount_eq : a.swapAmount = a.totalSupply - a.migrationBase - vested

theorem derived_of_amounts (h : (m.amounts option supply percentage threshold).result = .ok a) :
    IsU64 a.totalSupply ∧ ∃ vested, m.Derived option supply percentage threshold a vested := by
  simp only [amounts, Traced.result_bind, Traced.result_liftM, Traced.result_ite, Traced.result_fail,
    Traced.result_emit, bind_eq_ok_iff, ite_error_eq_ok_iff, checkedU64_eq_ok_iff, checkSqrtPrice_eq_ok_iff] at h
  obtain ⟨migrating, hmigrating, _, hsupply, _, ⟨htotal, rfl⟩, _, hthreshold, _, ⟨-, rfl⟩, price, hprice, _, hsqrt, _,
    ⟨-, rfl⟩, reserve, hreserve, vested, hvested, -, _, -, ⟨⟩⟩ := h
  exact ⟨htotal, vested, ⟨migrating, price, hmigrating, hprice, hsqrt⟩, hsupply, hthreshold,
    hreserve, hvested, rfl⟩

/-- A failure that names an argument, or a supply that reserve and vesting use up. -/
def Refuses (m : LinearMarket) (option : MigrationOption) (supply percentage threshold : Decimal) (e : CurveError) :
    Prop :=
  OfArgument e ∨ ∃ a vested, m.Derived option supply percentage threshold a vested ∧
    a.totalSupply ≤ a.migrationBase + vested ∧ e = .supplyMismatch (a.migrationBase + vested) a.totalSupply 0

private theorem failsWith_amounts :
    FailsWith (m.Refuses option supply percentage threshold) (m.amounts option supply percentage threshold).result := by
  simp only [amounts, Traced.result_bind, Traced.result_liftM, Traced.result_ite, Traced.result_fail,
    Traced.result_emit, FailsWith.bind_iff, FailsWith.ite_iff, checkedU64_eq_ok_iff, checkSqrtPrice_eq_ok_iff]
  refine ⟨.inl (by simp), ?_⟩
  intro migrating hmigrating
  refine ⟨.inl (by simp), ?_⟩
  intro _ htotal
  refine ⟨.inl (by simp), ?_⟩
  rintro total ⟨-, rfl⟩
  refine ⟨.inl (by simp), ?_⟩
  intro _ hunits
  refine ⟨.inl (by simp), ?_⟩
  rintro units ⟨-, rfl⟩
  refine ⟨.inl (by simp), ?_⟩
  intro price hprice
  refine ⟨.inl (by simp), ?_⟩
  intro _ hsqrt
  refine ⟨.inl (by simp), ?_⟩
  rintro sqrtPrice ⟨-, rfl⟩
  refine ⟨.inl (by simp), ?_⟩
  intro reserve hreserve
  refine ⟨.inl (by simp), ?_⟩
  intro vested hvested
  refine ⟨?_, by simp⟩
  intro hswap
  rw [FailsWith.error_iff]
  -- The comparison is the only step that is about the supply as a whole.
  exact .inr ⟨⟨total, units, sqrtPrice, reserve, total - reserve - vested⟩, vested,
    ⟨⟨migrating, price, hmigrating, hprice, hsqrt⟩, htotal, hunits, hreserve, hvested, rfl⟩, by simp only; omega, rfl⟩

/-! ### After the first segment -/

/-- What is refused of a market once there is a first segment. -/
inductive Late (m : LinearMarket) (a : LinearAmounts) : CurveError → Prop
  | padding (h : m.bufferPercentage < 0) : Late m a (.amount (.negative "buffer_percentage" m.bufferPercentage))
  | noRange (h : a.sqrtMigrationPrice = maxSqrtPrice) : Late m a (.amount .emptyRange)
  | terminal (remaining L : Int) (hL : liquidityFromBase remaining a.sqrtMigrationPrice maxSqrtPrice = .ok L)
      (h : u128Max < L) : Late m a (.tooWide "liquidity" L 128)

section Extended

variable {one two : Curve} {first : Segment}

/-- The first segment as the steps after it see it. -/
structure Sized (a : LinearAmounts) (one : Curve) (first : Segment) : Prop where
  segments_eq : one.segments = [first]
  bound_eq : first.sqrtPrice = a.sqrtMigrationPrice
  threshold_ne : a.quoteThreshold ≠ 0
  fill : ⌈quote.amount one.sqrtStartPrice first.sqrtPrice first.liquidity⌉ = a.quoteThreshold
  released_le : ⌈base.amount one.sqrtStartPrice first.sqrtPrice first.liquidity⌉ ≤ a.swapAmount

private theorem sized_of_firstCurve (ha : m.Derived option supply percentage threshold a vested)
    (h : (firstCurve a.sqrtMigrationPrice a.migrationBase a.swapAmount a.quoteThreshold).result = .ok one) :
    ∃ first, Sized a one first := by
  obtain ⟨hreserve, first, hsegments, hbound, hfill⟩ := ceil_quote_of_firstCurve h
  refine ⟨first, hsegments, hbound, ?_, hfill, ceil_base_of_firstCurve h hsegments⟩
  intro hzero
  have hnothing := ha.reserve_eq
  rw [hzero] at hnothing
  exact hreserve (migrationBase_zero hnothing)

private theorem failsWith_extend (ha : m.Derived option supply percentage threshold a vested)
    (htotal : 0 ≤ a.totalSupply)
    (hone : Sized a one first) : FailsWith (m.Late a) (m.extend option a one).result := by
  obtain ⟨hvalid, -⟩ := Curve.ascending_of_cons hone.segments_eq
  have hreconstruct := reconstructSupply_result
    (Curve.thresholdPrice_of_first hone.segments_eq hone.threshold_ne hone.fill) hvalid.lower_lt.le
    (hone.bound_eq ▸ ha.reserve_eq) ha.vested_eq le_rfl m.bufferPercentage
  simp only [extend, Traced.result_bind, Traced.result_liftM, Traced.result_emit, hreconstruct]
  by_cases hbuffer : m.bufferPercentage < 0
  · rw [if_pos hbuffer, error_bind, FailsWith.error_iff]
    exact .padding hbuffer
  rw [if_neg hbuffer, ok_bind, Curve.paddedCharge_of_single hone.segments_eq (Int.not_lt.mp hbuffer)]
  -- The first segment leaves of the supply what the swap amount exceeds its base by.
  have hswap := ha.swapAmount_eq
  have hreleased := hone.released_le
  rw [checkSupply_of_le htotal (by simp only [SupplyBreakdown.total]; omega), ok_bind]
  have hremaining : 0 ≤ a.totalSupply - SupplyBreakdown.total
      ⟨⌈base.amount one.sqrtStartPrice first.sqrtPrice first.liquidity⌉, a.migrationBase, vested, 0⟩ := by
    simp only [SupplyBreakdown.total]
    omega
  generalize a.totalSupply - SupplyBreakdown.total _ = remaining at hremaining ⊢
  have hprice : IsSqrtPrice a.sqrtMigrationPrice := by
    rw [← hone.bound_eq]
    exact first.price_mem
  by_cases hmax : a.sqrtMigrationPrice = maxSqrtPrice
  · have hempty : liquidityFromBase remaining a.sqrtMigrationPrice maxSqrtPrice = .error (.amount .emptyRange) := by
      rw [liquidityFromBase, requireRange_eq hprice.pos hprice.2]
      simp [hremaining, hmax]
    rw [hempty, error_bind, FailsWith.error_iff]
    exact .noRange hmax
  have hlt : a.sqrtMigrationPrice < maxSqrtPrice := lt_of_le_of_ne hprice.2 hmax
  have hliquidity : liquidityFromBase remaining a.sqrtMigrationPrice maxSqrtPrice =
      .ok (base.backed a.sqrtMigrationPrice maxSqrtPrice remaining) :=
    liquidityFromBase_eq_ok_iff.mpr ⟨hprice.pos, hlt, hremaining, rfl⟩
  have hnonneg := base.backed_nonneg hprice.pos hlt hremaining
  rw [hliquidity, ok_bind]
  generalize base.backed a.sqrtMigrationPrice maxSqrtPrice remaining = L at *
  by_cases hwide : u128Max < L
  · rw [checkedU128_of_lt hwide, error_bind, FailsWith.error_iff]
    exact .terminal remaining L hliquidity hwide
  -- From here on nothing is refused.
  have hfits : IsU128 L := ⟨hnonneg, Int.not_lt.mp hwide⟩
  obtain ⟨terminal, hterminal⟩ := exists_segment (by decide : IsSqrtPrice maxSqrtPrice) hfits
  obtain ⟨hterminal_price, -⟩ := Segment.fields_of_ofInts hterminal
  have hincreasing : Increasing one.sqrtStartPrice (one.segments ++ [terminal]) := by
    rw [hone.segments_eq]
    exact ⟨hvalid.lower_lt, by rw [hone.bound_eq, hterminal_price]; exact hlt, trivial⟩
  obtain ⟨two, htwo⟩ := (Curve.exists_ofSegments_iff one.start_mem (by simp)
    (by simp [hone.segments_eq, maxCurvePoints])).mpr hincreasing
  rw [checkedU128_eq_ok_iff.mpr ⟨hfits, rfl⟩, ok_bind, hterminal, ok_bind, Curve.withSegment, htwo]
  simp

/-- The supply of the extended curve is within the total, so it is not refused a second time. -/
theorem reconcile_of_extend (htotal : 0 ≤ a.totalSupply) (hone : Sized a one first)
    (h : (m.extend option a one).result = .ok two) :
    ∃ result, (reconcile two a.quoteThreshold m.vesting option a.totalSupply 0 m.bufferPercentage).result =
      .ok result := by
  obtain ⟨hstart, terminal, reserve, vested', hsegments, -, hreserve, hvested, hcapacity⟩ :=
    extend_exact hone.segments_eq hone.bound_eq hone.threshold_ne hone.fill h
  have hbuffer : 0 ≤ m.bufferPercentage := by
    simp only [extend, Traced.result_bind, bind_eq_ok_iff] at h
    obtain ⟨b, hb, -⟩ := h
    obtain ⟨_, hreconstructed⟩ := reconstructed_of_reconstructSupply hb
    exact hreconstructed.buffer_nonneg
  have hfill := hone.fill
  rw [← hstart] at hfill
  obtain ⟨hvalid, -⟩ := Curve.ascending_of_cons hsegments
  have hprice := Curve.thresholdPrice_of_first hsegments hone.threshold_ne hfill
  have hreconstruct := reconstructSupply_result hprice hvalid.lower_lt.le hreserve hvested le_rfl m.bufferPercentage
  rw [if_neg (Int.not_lt.mpr hbuffer)] at hreconstruct
  have hpadded : two.paddedCharge first.sqrtPrice m.bufferPercentage ≤ a.totalSupply - reserve - vested' := by
    rw [← hcapacity]
    exact min_le_right _ _
  have hwithin := checkSupply_of_le (b := ⟨two.paddedCharge first.sqrtPrice m.bufferPercentage, reserve, vested', 0⟩)
    htotal (by simp only [SupplyBreakdown.total]; omega)
  simp [reconcile, hreconstruct, hwithin, hprice]

private theorem failsWith_build (ha : m.Derived option supply percentage threshold a vested)
    (htotal : 0 ≤ a.totalSupply)
    (hone : (firstCurve a.sqrtMigrationPrice a.migrationBase a.swapAmount a.quoteThreshold).result = .ok one) :
    FailsWith (m.Late a) (m.build option a).result := by
  obtain ⟨first, hsized⟩ := sized_of_firstCurve ha hone
  simp only [build, Traced.result_bind, hone, ok_bind, FailsWith.bind_iff]
  refine ⟨failsWith_extend ha htotal hsized, ?_⟩
  intro two htwo
  obtain ⟨result, hresult⟩ := reconcile_of_extend htotal hsized htwo
  rw [hresult]
  simp

end Extended

private theorem Late.ofArgument {e : CurveError} (h : m.Late a e) : OfArgument e := by
  cases h <;> simp

private theorem failsWith_build_of_amounts (h : (m.amounts option supply percentage threshold).result = .ok a) :
    FailsWith OfArgument (m.build option a).result := by
  obtain ⟨htotal, vested, hderived⟩ := derived_of_amounts h
  cases hone : (firstCurve a.sqrtMigrationPrice a.migrationBase a.swapAmount a.quoteThreshold).result with
  | ok one => exact (failsWith_build hderived htotal.1 hone).mono fun _ => Late.ofArgument
  | error e =>
    have hfirst := failsWith_firstCurve a.sqrtMigrationPrice a.migrationBase a.swapAmount a.quoteThreshold e hone
    simp [build, hone, hfirst]

/-! ### The design -/

/-- The arguments of a market that are accepted as they are. -/
structure Parsed (m : LinearMarket) (option : MigrationOption) (supply percentage threshold : Decimal) : Prop where
  option_eq : MigrationOption.ofScalar m.option = .ok option
  fee_ok : (BondingCurve.feeNumerator m.feeNumerator).isOk = true
  supply_eq : positiveDecimal "total_token_supply" m.supply = .ok supply
  percentage_eq : positiveDecimal "percentage_supply_on_migration" m.migrationPercentage = .ok percentage
  threshold_eq : positiveDecimal "migration_quote_threshold" m.threshold = .ok threshold
  share_lt : percentage.lt (.ofInt 100) = true

private theorem Parsed.design_result (h : m.Parsed option supply percentage threshold) :
    m.design.result = (m.amounts option supply percentage threshold).result >>= fun a => (m.build option a).result := by
  obtain ⟨hoption, hfee, hsupply, hpercentage, hthreshold, hshare⟩ := h
  cases hfee_eq : BondingCurve.feeNumerator m.feeNumerator with
  | error e =>
    rw [hfee_eq] at hfee
    cases hfee
  | ok fee => simp [design, hoption, hfee_eq, hsupply, hpercentage, hthreshold, hshare]

/-- A supply that reserve and vesting use up. -/
def Exhausted (m : LinearMarket) (e : CurveError) : Prop :=
  ∃ (option : MigrationOption) (supply percentage threshold : Decimal) (a : LinearAmounts) (vested : Int),
    m.Parsed option supply percentage threshold ∧ m.Derived option supply percentage threshold a vested ∧
    a.totalSupply ≤ a.migrationBase + vested ∧ e = .supplyMismatch (a.migrationBase + vested) a.totalSupply 0

theorem failsWith_design : FailsWith (fun e => OfArgument e ∨ m.Exhausted e) m.design.result := by
  simp only [design, Traced.result_bind, Traced.result_liftM, Traced.result_ite, Traced.result_fail,
    FailsWith.bind_iff, FailsWith.ite_iff]
  refine ⟨.inl (by simp), ?_⟩
  intro option hoption
  refine ⟨.inl (by simp), ?_⟩
  intro fee hfee
  refine ⟨.inl (by simp), ?_⟩
  intro supply hsupply
  refine ⟨.inl (by simp), ?_⟩
  intro percentage hpercentage
  refine ⟨.inl (by simp), ?_⟩
  intro threshold hthreshold
  refine ⟨?_, fun _ => .inl (by simp)⟩
  intro hshare
  constructor
  · refine failsWith_amounts.mono ?_
    rintro e (he | ⟨a, vested, hderived, hle, he⟩)
    · exact .inl he
    · have hparsed : m.Parsed option supply percentage threshold :=
        ⟨hoption, by rw [hfee]; rfl, hsupply, hpercentage, hthreshold, hshare⟩
      exact .inr ⟨option, supply, percentage, threshold, a, vested, hparsed, hderived, hle, he⟩
  · intro a ha
    exact .inl (failsWith_build_of_amounts ha)

/-- A linear design never lacks liquidity for its own threshold, and it lacks supply only if reserve and vesting use up
the total.  Once its first segment exists, it fails only for a negative padding, for a migration price at the greatest
price, or for a terminal liquidity that is too wide. -/
theorem design_failure {e : CurveError} (h : m.design.result = .error e) :
    (∀ requested available remaining, e ≠ .insufficientLiquidity requested available remaining) ∧
    (∀ reconstructed total tolerance, e = .supplyMismatch reconstructed total tolerance →
      ∃ (option : MigrationOption) (supply percentage threshold : Decimal) (a : LinearAmounts) (vested : Int),
        m.Parsed option supply percentage threshold ∧ m.Derived option supply percentage threshold a vested ∧
        reconstructed = a.migrationBase + vested ∧ total = a.totalSupply ∧ total ≤ reconstructed ∧ tolerance = 0) ∧
    (∀ (option : MigrationOption) (supply percentage threshold : Decimal) (a : LinearAmounts) (first : Curve),
      m.Parsed option supply percentage threshold → (m.amounts option supply percentage threshold).result = .ok a →
      (firstCurve a.sqrtMigrationPrice a.migrationBase a.swapAmount a.quoteThreshold).result = .ok first →
      m.Late a e) := by
  have hdesign := failsWith_design e h
  refine ⟨?_, ?_, ?_⟩
  · rintro requested available remaining rfl
    rcases hdesign with hargument | ⟨_, _, _, _, _, _, -, -, -, he⟩
    · exact hargument
    · cases he
  · rintro reconstructed total tolerance rfl
    rcases hdesign with hargument | ⟨option, supply, percentage, threshold, a, vested, hparsed, hderived, hle, ⟨⟩⟩
    · exact hargument.elim
    · exact ⟨option, supply, percentage, threshold, a, vested, hparsed, hderived, rfl, rfl, hle, rfl⟩
  · intro option supply percentage threshold a first hparsed ha hfirst
    obtain ⟨htotal, vested, hderived⟩ := derived_of_amounts ha
    rw [hparsed.design_result, ha, ok_bind] at h
    exact failsWith_build hderived htotal.1 hfirst e h

/-- A market whose vesting and reserve are more than its supply. -/
def exhaustedMarket : LinearMarket :=
  { resizedMarket with supply := .int 7000 }

/-- A market with a first segment, and a padding below zero. -/
def unpaddedMarket : LinearMarket :=
  { resizedMarket with bufferPercentage := -1 }

private theorem parsed_unpaddedMarket :
    unpaddedMarket.Parsed .concentrated (.ofInt 1000000) (.ofInt 20) (.ofInt 100000) where
  option_eq := rfl
  fee_ok := rfl
  supply_eq := rfl
  percentage_eq := rfl
  threshold_eq := rfl
  share_lt := rfl

theorem design_failure_exhausted :
    (exhaustedMarket.design.result = .error (.supplyMismatch 7399999913 7000000000 0) ∧
      ∃ (a : LinearAmounts) (vested : Int), 7399999913 = a.migrationBase + vested ∧ 7000000000 = a.totalSupply ∧
        (7000000000 : Int) ≤ 7399999913) ∧
    unpaddedMarket.design.result = .error (.amount (.negative "buffer_percentage" (-1))) ∧
      ∃ (a : LinearAmounts) (first : Curve),
        (unpaddedMarket.amounts .concentrated (.ofInt 1000000) (.ofInt 20) (.ofInt 100000)).result = .ok a ∧
        (firstCurve a.sqrtMigrationPrice a.migrationBase a.swapAmount a.quoteThreshold).result = .ok first ∧
        unpaddedMarket.Late a (.amount (.negative "buffer_percentage" (-1))) := by
  constructor
  · have hdesign : exhaustedMarket.design.result = .error (.supplyMismatch 7399999913 7000000000 0) := by
      decide +kernel
    obtain ⟨_, _, _, _, a, vested, -, -, hreconstructed, htotal, hle, -⟩ :=
      (design_failure hdesign).2.1 7399999913 7000000000 0 rfl
    exact ⟨hdesign, a, vested, hreconstructed, htotal, hle⟩
  · have hdesign : unpaddedMarket.design.result = .error (.amount (.negative "buffer_percentage" (-1))) := by
      decide +kernel
    have hfirst :
        ((unpaddedMarket.amounts .concentrated (.ofInt 1000000) (.ofInt 20) (.ofInt 100000)).result >>= fun a =>
          (firstCurve a.sqrtMigrationPrice a.migrationBase a.swapAmount a.quoteThreshold).result).isOk = true := by
      decide +kernel
    obtain ⟨first, hfirst⟩ := exists_of_isOk hfirst
    obtain ⟨a, ha, hfirst⟩ := bind_eq_ok_iff.mp hfirst
    exact ⟨hdesign, a, first, ha, hfirst, (design_failure hdesign).2.2 _ _ _ _ a first parsed_unpaddedMarket ha hfirst⟩

end LinearMarket

end BondingCurve
