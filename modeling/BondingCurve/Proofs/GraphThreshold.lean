import BondingCurve.Proofs.Capacity
import BondingCurve.Proofs.GraphSupply
import BondingCurve.Proofs.Refusals

/-!
# Threshold of graph designs

The threshold of a graph design is the quote that the base left for the migration is worth at the last price; the
quote capacity of its curve is what the segments take up, each rounded up.  Both come from the same liquidities, so the
threshold exceeds the capacity by less than the base of two units of liquidity is worth at the last price
(`GraphMarket.threshold_sub_capacity_lt`).  Unless that is worth a unit of quote, the threshold fits, and the walk to it
never fails (`GraphMarket.design_threshold_fits`).
-/

namespace BondingCurve

open Token (base quote)
open CurveError (OfArgument)

/-! ### Whole curves -/

section Whole

variable {slices : List Slice} {low high : Int}

private theorem content_of_ascending (t : Token) (h : Ascending low slices high) :
    t.content slices low high = (slices.map fun s => t.amount s.lower s.upper s.liquidity).sum := by
  unfold Token.content
  congr 1
  apply List.map_congr_left
  intro s hs
  obtain ⟨hlow, hhigh⟩ := h.clamp_ends s hs
  rw [hlow, hhigh]

/-- What liquidities spend is the base that they release and the value of their quote at the last price. -/
private theorem spent_eq {last : Int} (hlast : 0 < last) (h : Ascending low slices high) :
    spent last slices =
      base.content slices low high + quoteScale / (last * last) * quote.content slices low high := by
  have hlast' : (last : ℚ) ≠ 0 := by exact_mod_cast hlast.ne'
  rw [content_of_ascending base h, content_of_ascending quote h]
  have hv := h.valid
  clear h
  induction slices with
  | nil => simp
  | cons s rest ih =>
    rw [List.forall_mem_cons] at hv
    obtain ⟨hs, hrest⟩ := hv
    have hlower : (s.lower : ℚ) ≠ 0 := by exact_mod_cast hs.lower_pos.ne'
    have hupper : (s.upper : ℚ) ≠ 0 := by exact_mod_cast (hs.lower_pos.trans hs.lower_lt).ne'
    have hscale : (quoteScale : ℚ) ≠ 0 := by norm_num [quoteScale]
    have hrange : s.liquidity * rangeGain last s.lower s.upper = base.amount s.lower s.upper s.liquidity +
        quoteScale / (last * last) * quote.amount s.lower s.upper s.liquidity := by
      simp only [rangeGain, Token.amount, Token.level]
      field_simp
      ring
    rw [spent_cons, List.map_cons, List.map_cons, List.sum_cons, List.sum_cons, hrange, ih hrest]
    ring

end Whole

namespace GraphMarket

variable {m : GraphMarket} {option : MigrationOption} {supply : Decimal} {a : GraphAmounts} {curve : Curve}
  {threshold : Int}

/-! ### The derived threshold -/

private theorem thresholdOf_spec (h : (m.thresholdOf a curve).result = .ok threshold) :
    0 ≤ m.bufferPercentage ∧ curve.paddedCharge a.sqrtMaxPrice m.bufferPercentage ≤ a.available ∧ 0 ≤ threshold ∧
      threshold = (a.available - curve.paddedCharge a.sqrtMaxPrice m.bufferPercentage) * a.sqrtMaxPrice *
        a.sqrtMaxPrice / quoteScale := by
  simp only [thresholdOf, swapAmountWithBuffer, Traced.result_bind, Traced.result_liftM, Traced.result_ite,
    Traced.result_fail, Traced.result_emit, bind_eq_ok_iff, ite_error_eq_ok_iff, nonNegative_eq_ok_iff,
    checkedU64_eq_ok_iff, curve.baseReleased_result, curve.baseCapacity_result] at h
  obtain ⟨_, ⟨⟩, _, ⟨_, ⟨-, rfl⟩, _, ⟨hbuffer, rfl⟩, _, ⟨⟩, ⟨⟩⟩, hle, _, ⟨hfits, rfl⟩, _, -, ⟨⟩⟩ := h
  exact ⟨hbuffer, Int.sub_nonneg.mp (Int.not_lt.mp hle), hfits.1, rfl⟩

private theorem threshold_mul_scale_le (ha : m.Allotted a) (hcurve : Spread a curve)
    (h : (m.thresholdOf a curve).result = .ok threshold) :
    (threshold : ℚ) * quoteScale ≤
      (a.available - base.content curve.slices a.sqrtMinPrice a.sqrtMaxPrice) * (a.sqrtMaxPrice * a.sqrtMaxPrice) := by
  obtain ⟨hbuffer, -, -, hthreshold⟩ := thresholdOf_spec h
  have hascending := curve.slices_ascending
  rw [hcurve.start_eq, hcurve.end_eq] at hascending
  -- What the padding withholds is at least the exact base of the swap phase.
  have hcontent : base.content curve.slices a.sqrtMinPrice a.sqrtMaxPrice ≤
      curve.paddedCharge a.sqrtMaxPrice m.bufferPercentage := by
    have hcharge := curve.charge_le_paddedCharge hbuffer (hcurve.start_eq ▸ hascending.le) ha.max_mem.2
    rw [hcurve.start_eq] at hcharge
    exact base.content_le_charge.trans (by exact_mod_cast hcharge)
  have hsquare : (0 : ℚ) ≤ a.sqrtMaxPrice * a.sqrtMaxPrice := mul_self_nonneg _
  have hfloor : (threshold : ℚ) * quoteScale ≤ (a.available - curve.paddedCharge a.sqrtMaxPrice m.bufferPercentage) *
      (a.sqrtMaxPrice * a.sqrtMaxPrice) := by
    rw [hthreshold, ← mul_assoc]
    exact_mod_cast Int.ediv_mul_le _ (by decide : quoteScale ≠ 0)
  exact hfloor.trans (mul_le_mul_of_nonneg_right (sub_le_sub_left hcontent _) hsquare)

/-- The roundings of a design lose less than the base of a unit of liquidity. -/
private theorem available_sub_kept_le (ha : m.Allotted a) :
    (a.available : ℚ) - kept ^ 38 * a.available ≤ 1 / a.sqrtMinPrice := by
  have hmin : (0 : ℚ) < a.sqrtMinPrice := by exact_mod_cast ha.min_mem.pos
  have hkept := mul_le_mul_of_nonneg_right (one_sub_le_kept_pow 38) (by exact_mod_cast ha.available_pos.le :
    (0 : ℚ) ≤ a.available)
  have hle : (a.available : ℚ) ≤ 10 ^ 20 := by exact_mod_cast ha.available_le.trans (by decide)
  have hprice : (a.sqrtMinPrice : ℚ) ≤ 10 ^ 30 := by exact_mod_cast ha.min_mem.2.trans (by decide)
  have hinverse : (1 : ℚ) / 10 ^ 30 ≤ 1 / a.sqrtMinPrice := one_div_le_one_div_of_le hmin hprice
  norm_num at hkept
  linarith

/-- The threshold exceeds the capacity by less than the base of two units of liquidity, from the first price on, is worth
at the last price. -/
theorem threshold_sub_capacity_lt (ha : m.Allotted a) (hcurve : Spread a curve)
    (h : (m.thresholdOf a curve).result = .ok threshold) :
    (threshold : ℚ) - quote.charge curve.slices curve.sqrtStartPrice curve.sqrtEndPrice <
      2 * a.sqrtMaxPrice ^ 2 / (a.sqrtMinPrice * 2 ^ 128) := by
  have hthreshold := threshold_mul_scale_le ha hcurve h
  have hascending := curve.slices_ascending
  rw [hcurve.start_eq, hcurve.end_eq] at hascending ⊢
  have hmin : (0 : ℚ) < a.sqrtMinPrice := by exact_mod_cast ha.min_mem.pos
  have hmax : (0 : ℚ) < a.sqrtMaxPrice := by exact_mod_cast ha.max_mem.pos
  have hsquare : (0 : ℚ) < a.sqrtMaxPrice * a.sqrtMaxPrice := mul_pos hmax hmax
  have hscale : (quoteScale : ℚ) = 2 ^ 128 := by norm_num [quoteScale]
  have hlost := available_sub_kept_le ha
  have hspent := hcurve.le_spent
  rw [spent_eq ha.max_mem.pos hascending] at hspent
  have hbelow : (a.available : ℚ) - base.content curve.slices a.sqrtMinPrice a.sqrtMaxPrice <
      quoteScale / (a.sqrtMaxPrice * a.sqrtMaxPrice) * quote.content curve.slices a.sqrtMinPrice a.sqrtMaxPrice +
        2 / a.sqrtMinPrice := by
    have htwo : (2 : ℚ) / a.sqrtMinPrice = 1 / a.sqrtMinPrice + 1 / a.sqrtMinPrice := by ring
    linarith
  have hworth := mul_lt_mul_of_pos_right hbelow hsquare
  have hexpand : (quoteScale / (a.sqrtMaxPrice * a.sqrtMaxPrice) *
        quote.content curve.slices a.sqrtMinPrice a.sqrtMaxPrice + 2 / a.sqrtMinPrice) *
          (a.sqrtMaxPrice * a.sqrtMaxPrice) =
      quote.content curve.slices a.sqrtMinPrice a.sqrtMaxPrice * quoteScale +
        2 * a.sqrtMaxPrice ^ 2 / a.sqrtMinPrice := by
    field_simp
  have hquote : quote.content curve.slices a.sqrtMinPrice a.sqrtMaxPrice * (quoteScale : ℚ) ≤
      quote.charge curve.slices a.sqrtMinPrice a.sqrtMaxPrice * quoteScale :=
    mul_le_mul_of_nonneg_right quote.content_le_charge (by rw [hscale]; positivity)
  have hexcess : ((threshold : ℚ) - quote.charge curve.slices a.sqrtMinPrice a.sqrtMaxPrice) * quoteScale <
      2 * a.sqrtMaxPrice ^ 2 / a.sqrtMinPrice := by
    linarith
  rw [lt_div_iff₀ hmin] at hexcess
  rw [lt_div_iff₀ (by positivity), ← hscale]
  linarith

/-- An excess of less than a unit is none. -/
private theorem threshold_le_capacity (ha : m.Allotted a) (hcurve : Spread a curve)
    (h : (m.thresholdOf a curve).result = .ok threshold)
    (hworth : 2 * a.sqrtMaxPrice ^ 2 < a.sqrtMinPrice * 2 ^ 128) :
    threshold ≤ quote.charge curve.slices curve.sqrtStartPrice curve.sqrtEndPrice := by
  have hlt := threshold_sub_capacity_lt ha hcurve h
  have hmin : (0 : ℚ) < a.sqrtMinPrice := by exact_mod_cast ha.min_mem.pos
  have hone : (2 : ℚ) * a.sqrtMaxPrice ^ 2 / (a.sqrtMinPrice * 2 ^ 128) < 1 := by
    rw [div_lt_one (by positivity)]
    exact_mod_cast hworth
  have hcast : (threshold : ℚ) < quote.charge curve.slices curve.sqrtStartPrice curve.sqrtEndPrice + 1 := by linarith
  exact Int.lt_add_one_iff.mp (by exact_mod_cast hcast)

private theorem worth_lt_of_le (ha : m.Allotted a) (hmax : a.sqrtMaxPrice ≤ 2 ^ 79) :
    2 * a.sqrtMaxPrice ^ 2 < a.sqrtMinPrice * 2 ^ 128 := by
  have hsquare : a.sqrtMaxPrice ^ 2 ≤ (2 ^ 79) ^ 2 := pow_le_pow_left₀ ha.max_mem.pos.le hmax 2
  have hmin : minSqrtPrice * 2 ^ 128 ≤ a.sqrtMinPrice * 2 ^ 128 :=
    mul_le_mul_of_nonneg_right ha.min_mem.1 (by decide)
  have hgap : 2 * (2 ^ 79) ^ 2 < minSqrtPrice * 2 ^ 128 := by decide
  linarith

/-! ### Failures before the reconciliation -/

private theorem failsWith_amounts_served : FailsWith CurveError.Served (m.amounts supply).result := by
  simp [amounts, priceAt, Traced.result_ite]

private theorem failsWith_curveOf : FailsWith OfArgument (m.curveOf a).result := by
  simp [curveOf]

private theorem failsWith_thresholdOf : FailsWith CurveError.Served (m.thresholdOf a curve).result := by
  simp [thresholdOf, swapAmountWithBuffer, Traced.result_ite, curve.baseReleased_result, curve.baseCapacity_result]

private theorem failsWith_reconcile {vesting : Vesting} {price totalSupply leftover buffer : Int}
    (h : (curve.thresholdPrice threshold).result = .ok price) :
    FailsWith CurveError.Served (reconcile curve threshold vesting option totalSupply leftover buffer).result := by
  simp [reconcile, reconstructSupply, swapAmountWithBuffer, checkSupply, h, curve.baseReleased_result,
    curve.baseCapacity_result]

theorem Reached.failsWith_design {P : CurveError → Prop} (h : m.Reached option supply a curve threshold)
    (hreconcile : FailsWith P
      (reconcile curve threshold m.vesting option a.totalSupply a.leftover m.bufferPercentage).result) :
    FailsWith P m.design.result := by
  obtain ⟨fee, hfee⟩ := exists_of_isOk h.fee_ok
  simp [design, build, h.option_eq, hfee, h.supply_eq, h.amounts_eq, h.curve_eq, h.threshold_eq, hreconcile]

theorem failsWith_design : FailsWith
    (fun e => e.Served ∨ ∃ option supply a curve threshold, m.Reached option supply a curve threshold)
    m.design.result := by
  simp only [design, build, Traced.result_bind, Traced.result_liftM, FailsWith.bind_iff]
  refine ⟨.inl (by simp), ?_⟩
  intro option hoption
  refine ⟨.inl (by simp), ?_⟩
  intro fee hfee
  refine ⟨.inl (by simp), ?_⟩
  intro supply hsupply
  refine ⟨.inl failsWith_amounts_served, ?_⟩
  intro a ha
  refine ⟨.inl failsWith_curveOf.served, ?_⟩
  intro curve hcurve
  refine ⟨.inl failsWith_thresholdOf, ?_⟩
  intro threshold hthreshold
  have hreached : m.Reached option supply a curve threshold :=
    ⟨hoption, by rw [hfee]; rfl, hsupply, ha, hcurve, hthreshold⟩
  constructor
  · intro e _
    exact .inr ⟨option, supply, a, curve, threshold, hreached⟩
  · simp

/-! ### The design -/

theorem Reached.served (h : m.Reached option supply a curve threshold)
    (hworth : 2 * a.sqrtMaxPrice ^ 2 < a.sqrtMinPrice * 2 ^ 128) : FailsWith CurveError.Served m.design.result := by
  obtain ⟨ha, -⟩ := allotted_of_amounts h.amounts_eq
  have hfits := threshold_le_capacity ha (spread_of_curveOf ha h.curve_eq) h.threshold_eq hworth
  obtain ⟨-, -, hnonneg, -⟩ := thresholdOf_spec h.threshold_eq
  obtain ⟨price, hprice⟩ := Curve.exists_thresholdPrice hnonneg hfits
  exact h.failsWith_design (failsWith_reconcile hprice)

/-- The derived threshold exceeds the quote capacity of its curve by at most what the base of two units of liquidity is
worth at the last price.  Less than a unit of quote is nothing, so the threshold fits: in particular for every last price
up to `2 ^ 79`.  Only a market beyond that can fail for lack of liquidity. -/
theorem design_threshold_fits (m : GraphMarket) :
    (∀ (option : MigrationOption) (supply : Decimal) (a : GraphAmounts) (curve : Curve) (threshold : Int),
      m.Reached option supply a curve threshold →
      curve.sqrtStartPrice = a.sqrtMinPrice ∧ curve.sqrtEndPrice = a.sqrtMaxPrice ∧
      ∃ capacity, curve.quoteCapacity = .ok capacity ∧
        (threshold : ℚ) - capacity ≤ 2 * a.sqrtMaxPrice ^ 2 / (a.sqrtMinPrice * 2 ^ 128) ∧
        (2 * a.sqrtMaxPrice ^ 2 < a.sqrtMinPrice * 2 ^ 128 → threshold ≤ capacity ∧
          ∀ requested available remaining,
            m.design.result ≠ .error (.insufficientLiquidity requested available remaining)) ∧
        (a.sqrtMaxPrice ≤ 2 ^ 79 → 2 * a.sqrtMaxPrice ^ 2 < a.sqrtMinPrice * 2 ^ 128)) ∧
    (∀ requested available remaining,
      m.design.result = .error (.insufficientLiquidity requested available remaining) →
      ∃ (option : MigrationOption) (supply : Decimal) (a : GraphAmounts) (curve : Curve) (threshold : Int),
        m.Reached option supply a curve threshold ∧ a.sqrtMinPrice * 2 ^ 128 ≤ 2 * a.sqrtMaxPrice ^ 2 ∧
        2 ^ 79 < a.sqrtMaxPrice) := by
  constructor
  · intro option supply a curve threshold hreached
    obtain ⟨ha, -⟩ := allotted_of_amounts hreached.amounts_eq
    have hcurve := spread_of_curveOf ha hreached.curve_eq
    refine ⟨hcurve.start_eq, hcurve.end_eq, _, curve.quoteCapacity_eq,
      (threshold_sub_capacity_lt ha hcurve hreached.threshold_eq).le, ?_, worth_lt_of_le ha⟩
    intro hworth
    refine ⟨threshold_le_capacity ha hcurve hreached.threshold_eq hworth, ?_⟩
    intro requested available remaining hdesign
    exact hreached.served hworth _ hdesign requested available remaining rfl
  · intro requested available remaining hdesign
    rcases failsWith_design _ hdesign with hserved | ⟨option, supply, a, curve, threshold, hreached⟩
    · exact absurd rfl (hserved requested available remaining)
    obtain ⟨ha, -⟩ := allotted_of_amounts hreached.amounts_eq
    have hworth : a.sqrtMinPrice * 2 ^ 128 ≤ 2 * a.sqrtMaxPrice ^ 2 := by
      by_contra hlt
      exact hreached.served (not_le.mp hlt) _ hdesign requested available remaining rfl
    refine ⟨option, supply, a, curve, threshold, hreached, hworth, ?_⟩
    by_contra hle
    have := worth_lt_of_le ha (not_lt.mp hle)
    omega

theorem design_threshold_fits_reference :
    ∃ (option : MigrationOption) (supply : Decimal) (a : GraphAmounts) (curve : Curve) (capacity : Int),
      referenceMarket.Reached option supply a curve 101784745594 ∧ curve.quoteCapacity = .ok capacity ∧
      (101784745594 : ℚ) - capacity ≤ 2 * a.sqrtMaxPrice ^ 2 / (a.sqrtMinPrice * 2 ^ 128) ∧
      a.sqrtMaxPrice = 319506979698850302 ∧ 101784745594 ≤ capacity := by
  have hnumbers : referenceMarket.design.result.toOption.map
      (fun d => (d.curve.sqrtEndPrice, d.migration.quoteAmount)) = some (319506979698850302, 101784745594) := by
    decide +kernel
  obtain ⟨d, hsome, hd⟩ := Option.map_eq_some_iff.mp hnumbers
  obtain ⟨hend, hthreshold⟩ := Prod.mk.inj hd
  obtain ⟨supply, a, hreached, -, -⟩ := reached_of_design (eq_ok_of_toOption hsome)
  obtain ⟨-, hmax, capacity, hcapacity, hle, hfits, hworth⟩ :=
    (design_threshold_fits referenceMarket).1 _ _ _ _ _ hreached
  rw [hend] at hmax
  rw [hthreshold] at hreached hle hfits
  have hlow : a.sqrtMaxPrice ≤ 2 ^ 79 := by
    rw [← hmax]
    decide
  exact ⟨_, supply, a, _, capacity, hreached, hcapacity, by exact_mod_cast hle, hmax.symm, (hfits (hworth hlow)).1⟩

end GraphMarket

end BondingCurve
