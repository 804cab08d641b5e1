import BondingCurve.Proofs.LinearRefusals

/-!
# The first segment of a linear design

For any numbers, and not only for those of a market, the first segment takes up exactly the threshold and releases at
most the swap amount (`firstCurve_exact`).

If the base side is too thin for the threshold above a candidate start price, then the swap amount, less than a unit
apart, pays for less than the threshold there.  The start price that is computed anew is the least one from which it
pays for the whole, so it lies above the candidate (`TooThin.lt_resized`), and with it above the least price.
-/

namespace BondingCurve

open Token (base quote)

/-- `candidate` is the start price that is tried first, and the liquidity above it does not take up the threshold. -/
structure TooThin (migrationPrice reserve swapAmount threshold candidate : Int) : Prop where
  swapAmount_pos : 0 < swapAmount
  candidate_eq : checkSqrtPrice "sqrt_start_price" (migrationPrice * reserve / swapAmount) = .ok candidate
  below : candidate < migrationPrice
  thin : ∃ L absorbed, (liquidityFromBoth swapAmount threshold candidate migrationPrice).result = .ok L ∧
    quoteBetween candidate migrationPrice L .up = .ok absorbed ∧ absorbed < threshold

namespace TooThin

variable {migrationPrice reserve swapAmount threshold candidate : Int}

private theorem candidate_mem (h : TooThin migrationPrice reserve swapAmount threshold candidate) :
    IsSqrtPrice candidate := by
  obtain ⟨hmem, heq⟩ := checkSqrtPrice_eq_ok_iff.mp h.candidate_eq
  rwa [heq]

/-- The first segment is then sized from the quote side. -/
private theorem sizeFirst_result (h : TooThin migrationPrice reserve swapAmount threshold candidate) :
    (sizeFirst migrationPrice reserve swapAmount threshold).result =
      (resizeFromQuote migrationPrice swapAmount threshold).result := by
  obtain ⟨L, absorbed, hliquidity, habsorbed, hthin⟩ := h.thin
  simp only [sizeFirst, sizeFrom, Traced.result_bind, Traced.result_liftM, Traced.result_ite, h.candidate_eq, ok_bind,
    if_neg (Int.not_le.mpr h.swapAmount_pos), if_neg (Int.not_le.mpr h.below), hliquidity, habsorbed, if_pos hthin]

/-- Above the candidate the swap amount pays for less than the threshold. -/
private theorem scaled_lt (h : TooThin migrationPrice reserve swapAmount threshold candidate)
    (hmax : migrationPrice ≤ maxSqrtPrice) :
    candidate * (swapAmount * migrationPrice) < threshold * quoteScale := by
  have hpos := h.candidate_mem.pos
  have hlt := h.below
  have hwidth := Token.width_le_scale_quote (l := candidate) hpos hmax
  obtain ⟨L, absorbed, hliquidity, habsorbed, hthin⟩ := h.thin
  obtain ⟨-, -, hswap, hthreshold, hmin⟩ := liquidityFromBoth_eq_ok_iff.mp hliquidity
  have hbase_nonneg := base.backed_nonneg hpos hlt hswap
  have hquote_nonneg := quote.backed_nonneg hpos hlt hthreshold
  have habsorbs : absorbed = ⌈quote.amount candidate migrationPrice L⌉ :=
    Except.ok.inj (habsorbed.symm.trans (quote.between_up hpos hlt.le (by omega)))
  -- The liquidity of the quote side would take up the whole threshold, so it is the base side that decides.
  have hside : L = base.backed candidate migrationPrice swapAmount := by
    refine hmin.trans (min_eq_left (not_lt.mp fun hquote => ?_))
    rw [min_eq_right hquote.le] at hmin
    rw [habsorbs, hmin, quote.ceil_amount_backed hpos hlt hwidth] at hthin
    exact lt_irrefl _ hthin
  have hquote_short : L * (migrationPrice - candidate) ≤ (threshold - 1) * quoteScale := by
    have hceil : ⌈quote.amount candidate migrationPrice L⌉ ≤ threshold - 1 := by omega
    rw [quote.ceil_amount_le_iff hpos hlt, Token.backed, Int.le_ediv_iff_mul_le (by omega)] at hceil
    exact hceil
  have hbase_full : swapAmount * (candidate * migrationPrice) < (L + 1) * (migrationPrice - candidate) := by
    rw [hside]
    exact Int.lt_ediv_add_one_mul_self _ (by omega)
  simp only [Token.scale] at hwidth
  calc candidate * (swapAmount * migrationPrice)
      = swapAmount * (candidate * migrationPrice) := by ring
    _ < L * (migrationPrice - candidate) + (migrationPrice - candidate) := by linarith
    _ ≤ (threshold - 1) * quoteScale + quoteScale := add_le_add hquote_short hwidth
    _ = threshold * quoteScale := by ring

/-- The start price moves up, so the least price is no bound for it. -/
theorem lt_resized (h : TooThin migrationPrice reserve swapAmount threshold candidate)
    (hprice : IsSqrtPrice migrationPrice) :
    ∃ start, Rounding.up.divide (threshold * quoteScale) (swapAmount * migrationPrice) = .ok start ∧
      candidate < start ∧ minSqrtPrice ≤ start := by
  have hdivisor : 0 < swapAmount * migrationPrice := mul_pos h.swapAmount_pos hprice.pos
  have hscaled := h.scaled_lt hprice.2
  have hpositive : 0 < candidate * (swapAmount * migrationPrice) := mul_pos h.candidate_mem.pos hdivisor
  have hmoved := (lt_ceilDiv_iff hdivisor).mpr hscaled
  exact ⟨_, Rounding.divide_up (by omega) hdivisor, hmoved, h.candidate_mem.1.trans hmoved.le⟩

end TooThin

variable {migrationPrice threshold : Int}

/-- Every first segment ends at the migration price, takes up exactly the threshold and releases at most the swap
amount.  If the start price that is tried first leaves the base side too thin, the one that is computed anew lies
strictly above it, whether or not a segment comes of it. -/
theorem firstCurve_exact (hprice : IsSqrtPrice migrationPrice) (hthreshold : 0 < threshold) (reserve swapAmount : Int) :
    (∀ curve, (firstCurve migrationPrice reserve swapAmount threshold).result = .ok curve →
      ∃ first released, curve.segments = [first] ∧ first.sqrtPrice = migrationPrice ∧
        quoteBetween curve.sqrtStartPrice migrationPrice first.liquidity .up = .ok threshold ∧
        (curve.thresholdPrice threshold).result = .ok migrationPrice ∧
        baseBetween curve.sqrtStartPrice migrationPrice first.liquidity .up = .ok released ∧ released ≤ swapAmount) ∧
    (∀ candidate, TooThin migrationPrice reserve swapAmount threshold candidate →
      (sizeFirst migrationPrice reserve swapAmount threshold).result =
        (resizeFromQuote migrationPrice swapAmount threshold).result ∧
      ∃ start, Rounding.up.divide (threshold * quoteScale) (swapAmount * migrationPrice) = .ok start ∧
        candidate < start ∧ minSqrtPrice ≤ start) := by
  refine ⟨?_, fun candidate hthin => ⟨hthin.sizeFirst_result, hthin.lt_resized hprice⟩⟩
  intro curve hcurve
  obtain ⟨-, first, hsegments, rfl, hfill⟩ := ceil_quote_of_firstCurve hcurve
  have hreleased := ceil_base_of_firstCurve hcurve hsegments
  have hquote : quoteBetween curve.sqrtStartPrice first.sqrtPrice first.liquidity .up = .ok threshold := by
    rw [← hfill]
    exact Curve.between_first hsegments quote
  exact ⟨first, _, hsegments, rfl, hquote, Curve.thresholdPrice_of_first hsegments hthreshold.ne' hfill,
    Curve.between_first hsegments base, hreleased⟩

/-- A reserve that is one unit short of the threshold leaves the base side too thin. -/
theorem firstCurve_exact_resized :
    TooThin (2 ^ 64) 999 2000 1000 9214148664817921032 ∧
    ∃ curve first start, (firstCurve (2 ^ 64) 999 2000 1000).result = .ok curve ∧ curve.segments = [first] ∧
      quoteBetween curve.sqrtStartPrice (2 ^ 64) first.liquidity .up = .ok 1000 ∧
      Rounding.up.divide (1000 * quoteScale) (2000 * 2 ^ 64) = .ok start ∧ 9214148664817921032 < start := by
  have hthin : TooThin (2 ^ 64) 999 2000 1000 9214148664817921032 :=
    ⟨by decide, by decide, by decide, _, _, rfl, rfl, by decide⟩
  obtain ⟨hreturned, hresized⟩ := firstCurve_exact (by decide : IsSqrtPrice (2 ^ 64)) (by decide : (0 : Int) < 1000)
    999 2000
  obtain ⟨-, start, hstart, hmoved, -⟩ := hresized _ hthin
  cases hcurve : (firstCurve (2 ^ 64) 999 2000 1000).result with
  | error e =>
    have hok : (firstCurve (2 ^ 64) 999 2000 1000).result.isOk = true := by decide
    rw [hcurve] at hok
    cases hok
  | ok curve =>
    obtain ⟨first, _, hsegments, -, hquote, -⟩ := hreturned curve hcurve
    exact ⟨hthin, curve, first, start, rfl, hsegments, hquote, hstart, hmoved⟩

end BondingCurve
