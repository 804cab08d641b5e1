import BondingCurve.Proofs.Capacity
import BondingCurve.Proofs.Splitting

/-!
# Trades of different sizes

If a trade succeeds, so does every smaller trade of the same kind, and it pays out no more and ends no further.

* (one curve) A smaller amount is within the capacity that the larger one was within.  Its walk ends no further: only an
  idle range could lie in between, and a walk enters such a range only with something left (`Curve.buy_of_le`,
  `Curve.sell_of_le`).  A purchase spends its amount to the unit, so two purchases end at one price only if they spend
  the same.
* (fees) Neither the fee nor what it leaves is larger for the smaller of two amounts, so the order of the inputs passes
  to the outputs (`simulateSwap_mono`).
-/

namespace BondingCurve

open Token (base quote)

namespace Curve

variable {curve : Curve} {price a b : Int} {z : Fill}

/-- Beyond the end of the larger purchase there could only be an idle range. -/
private theorem buyAlong_price_le {q : Progress} (hz : (curve.buy price b).result = .ok z) (ha : 0 ≤ a) (hab : a ≤ b)
    (hwalk : (buyAlong curve.slices ⟨price, a, 0⟩).result = .ok q) : q.price ≤ z.price := by
  have hascending := curve.slices_ascending
  obtain ⟨hstart, hend, hlarge⟩ := bought_of_buy hz
  have hsmall := bought_of_buyAlong hascending hstart hend ha hwalk
  have hcost : quote.charge curve.slices price z.price = b := hlarge.cost_eq
  have hspent : q.left + quote.charge curve.slices price q.price = a := hsmall.spent
  have hleft := hsmall.left_nonneg
  by_contra hbeyond
  have hlt : z.price < q.price := not_le.mp hbeyond
  rcases hlarge.greatest rfl q.price hlt with hmore | hidle
  · have : b < quote.charge curve.slices price q.price := hmore
    omega
  · have hentered := buyAlong_charge_lt hascending hstart hend ha hwalk hlarge.le_price hlt hidle
    simp only at hentered
    omega

/-- A purchase of at most an amount that can be spent succeeds and ends no higher; it ends below unless it spends the
same. -/
theorem buy_of_le (hz : (curve.buy price b).result = .ok z) (ha : 0 ≤ a) (hab : a ≤ b) :
    ∃ x, (curve.buy price a).result = .ok x ∧ x.output ≤ z.output ∧ x.price ≤ z.price ∧
      (a ≠ b → x.price < z.price) := by
  have hascending := curve.slices_ascending
  have hv := hascending.valid
  obtain ⟨hstart, hend, hlarge⟩ := bought_of_buy hz
  have hfits := (buyAlong_of_buy hz).2.2.2.1
  have hcost : quote.charge curve.slices price z.price = b := hlarge.cost_eq
  obtain ⟨q, hwalk, hsmall⟩ := buyAlong_bought hascending ⟨price, a, 0⟩ hstart hend ha
  have hprice := buyAlong_price_le hz ha hab hwalk
  have hleft : q.left = 0 := by
    have hrest : q.left = max 0 (a - quote.charge curve.slices price curve.sqrtEndPrice) := hsmall.left_eq hv
    have hcapacity := quote.charge_mono hv (a := price) hlarge.price_le
    simp only at hcapacity
    omega
  have hspent : q.left + quote.charge curve.slices price q.price = a := hsmall.spent
  have hout : q.output = base.payout curve.slices price q.price := by
    rw [hsmall.received, zero_add]
  have hout_nonneg := base.payout_nonneg hv hsmall.le_price
  have hout_le : q.output ≤ z.output := by
    have hbeyond := base.payout_nonneg hv hprice
    have hsum : base.payout curve.slices price q.price + base.payout curve.slices q.price z.price ≤
        base.payout curve.slices price z.price := base.payout_add_le
    rw [hout, hlarge.output_eq]
    omega
  have hresult : q.finish a = .ok ⟨q.output, q.price⟩ :=
    Progress.finish_eq_ok_iff.mpr ⟨hleft, ⟨by rw [hout]; exact hout_nonneg, hout_le.trans hfits.2⟩, rfl⟩
  refine ⟨⟨q.output, q.price⟩, (buy_of_buyAlong hstart hend ha hwalk).trans hresult, hout_le, hprice, ?_⟩
  -- At one price both have spent the charge of the same range.
  intro hne
  refine lt_of_le_of_ne hprice fun heq => hne ?_
  simp only at heq
  rw [heq] at hspent
  omega

/-- Below the end of the larger sale there could only be an idle range, and then it has stopped without excess. -/
private theorem le_sellAlong_price {q : Progress} (hz : (curve.sell price b).result = .ok z) (ha : 0 ≤ a) (hab : a ≤ b)
    (hwalk : (sellAlong curve.slices.reverse ⟨price, a, 0⟩).result = .ok q) : z.price ≤ q.price := by
  have hdescending := curve.slices_ascending.reverse
  obtain ⟨hstart, hend, hlarge⟩ := sold_of_sell hz
  have hsmall := (sold_of_sellAlong hdescending hstart hend ha hwalk).of_reverse
  have hspent : q.left + base.charge curve.slices q.price price ≤ a := hsmall.spent_le
  have hleft := hsmall.left_nonneg
  by_contra hbeyond
  have hlt : q.price < z.price := not_le.mp hbeyond
  rcases hlarge.least rfl q.price hlt with hmore | hidle
  · have : b < base.charge curve.slices q.price price := hmore
    omega
  · have hpaid := charge_eq_of_sell hz hlt hidle
    have hentered := sellAlong_charge_lt hdescending hstart hend ha hwalk hlt hlarge.price_le
      (Idle.reverse_iff.mpr hidle)
    rw [base.charge_reverse] at hentered
    simp only at hentered
    omega

/-- A sale of at most an amount that can be sold succeeds and ends no lower. -/
theorem sell_of_le (hz : (curve.sell price b).result = .ok z) (ha : 0 ≤ a) (hab : a ≤ b) :
    ∃ x, (curve.sell price a).result = .ok x ∧ x.output ≤ z.output ∧ z.price ≤ x.price := by
  have hascending := curve.slices_ascending
  have hv := hascending.valid
  have hdescending := hascending.reverse
  obtain ⟨hstart, hend, hlarge⟩ := sold_of_sell hz
  obtain ⟨-, -, hb, hfits, hwalk_large⟩ := sellAlong_of_sell hz
  obtain ⟨q, hwalk, hsold⟩ := sellAlong_sold hdescending ⟨price, a, 0⟩ hstart hend ha
  have hsmall := hsold.of_reverse
  have hprice := le_sellAlong_price hz ha hab hwalk
  have hleft : q.left = 0 := by
    have hrest := sellAlong_left_eq hdescending hstart hend ha hwalk
    have hcapacity := sellAlong_left_eq hdescending hstart hend hb hwalk_large
    simp only at hrest hcapacity
    omega
  have hout : q.output = quote.payout curve.slices q.price price := by
    rw [hsmall.received, zero_add]
  have hout_nonneg := quote.payout_nonneg hv hsmall.price_le
  have hout_le : q.output ≤ z.output := by
    have hbeyond := quote.payout_nonneg hv hprice
    have hsum : quote.payout curve.slices z.price q.price + quote.payout curve.slices q.price price ≤
        quote.payout curve.slices z.price price := quote.payout_add_le
    rw [hout, hlarge.output_eq]
    omega
  have hresult : q.finish a = .ok ⟨q.output, q.price⟩ :=
    Progress.finish_eq_ok_iff.mpr ⟨hleft, ⟨by rw [hout]; exact hout_nonneg, hout_le.trans hfits.2⟩, rfl⟩
  exact ⟨⟨q.output, q.price⟩, (sell_of_sellAlong hstart hend ha hwalk).trans hresult, hout_le, hprice⟩

private theorem trade_of_le {direction : TradeDirection} (hz : (curve.trade price b direction).result = .ok z)
    (ha : 0 ≤ a) (hab : a ≤ b) :
    ∃ x, (curve.trade price a direction).result = .ok x ∧ x.output ≤ z.output ∧
      (direction = .quoteToBase → x.price ≤ z.price ∧ (a ≠ b → x.price < z.price)) ∧
      (direction = .baseToQuote → z.price ≤ x.price) := by
  cases direction with
  | quoteToBase =>
    obtain ⟨x, hx, hout, hprice⟩ := buy_of_le hz ha hab
    exact ⟨x, hx, hout, fun _ => hprice, nofun⟩
  | baseToQuote =>
    obtain ⟨x, hx, hout, hprice⟩ := sell_of_le hz ha hab
    exact ⟨x, hx, hout, nofun, fun _ => hprice⟩

end Curve

section Fees

variable {curve : Curve} {price a b numerator : Int} {direction : TradeDirection} {mode : FeeMode} {referral : Bool}
  {large : SwapResult}

/-- A trade of at most an amount that can be traded succeeds, and neither its output nor its fee is larger.  A purchase
ends no higher, and below unless the same amount reaches the curve; a sale ends no lower. -/
theorem simulateSwap_mono (ha : 0 ≤ a) (hab : a ≤ b)
    (hlarge : (simulateSwap curve price b direction numerator mode referral).result = .ok large) :
    ∃ small, (simulateSwap curve price a direction numerator mode referral).result = .ok small ∧
      small.output ≤ large.output ∧ small.totalFee ≤ large.totalFee ∧
      (direction = .quoteToBase → small.nextSqrtPrice ≤ large.nextSqrtPrice ∧
        (small.actualInput ≠ large.actualInput → small.nextSqrtPrice < large.nextSqrtPrice)) ∧
      (direction = .baseToQuote → large.nextSqrtPrice ≤ small.nextSqrtPrice) := by
  obtain ⟨hn, hb, z, hz, houtput_large, hnext_large⟩ := trade_of_simulateSwap hlarge
  have hinput_le := lessFee_mono hn (feeOnInput direction mode) hab
  have hinput_nonneg := lessFee_nonneg hn (feeOnInput direction mode) ha
  obtain ⟨x, hx, hout, hbuy, hsell⟩ := Curve.trade_of_le hz hinput_nonneg hinput_le
  obtain ⟨small, hsmall, houtput_small, hnext_small⟩ := simulateSwap_of_trade hn ⟨ha, hab.trans hb.2⟩ referral hx
  obtain ⟨hinput_small, x', hx', hfee_small⟩ := fee_of_simulateSwap hsmall
  obtain ⟨hinput_large, z', hz', hfee_large⟩ := fee_of_simulateSwap hlarge
  rw [hinput_small, hx] at hx'
  rw [hinput_large, hz] at hz'
  obtain rfl := Except.ok.inj hx'
  obtain rfl := Except.ok.inj hz'
  refine ⟨small, hsmall, ?_, ?_, ?_, ?_⟩
  · rw [houtput_small, houtput_large]
    exact lessFee_mono hn _ hout
  · rw [hfee_small, hfee_large]
    split
    · exact feeOf_mono hn hab
    · exact feeOf_mono hn hout
  · rw [hnext_small, hnext_large, hinput_small, hinput_large]
    exact hbuy
  · rw [hnext_small, hnext_large]
    exact hsell

/-- A purchase before a gap and a larger one beyond it. -/
theorem simulateSwap_mono_across_gap :
    let large : SwapResult := ⟨70000, 69300, 33182, 55869968127298109440, ⟨560, 112, 28⟩, true⟩
    (simulateSwap .gapped (2 ^ 64) 70000 .quoteToBase (10 ^ 7) .quoteToken true).result = .ok large ∧
    ∃ small, (simulateSwap .gapped (2 ^ 64) 30000 .quoteToBase (10 ^ 7) .quoteToken true).result = .ok small ∧
      small.output ≤ large.output ∧ small.totalFee ≤ large.totalFee ∧ small.nextSqrtPrice < large.nextSqrtPrice := by
  intro large
  have hlarge : (simulateSwap .gapped (2 ^ 64) 70000 .quoteToBase (10 ^ 7) .quoteToken true).result = .ok large := rfl
  obtain ⟨small, hsmall, houtput, hfee, hbuy, -⟩ := simulateSwap_mono (a := 30000) (by decide) (by decide) hlarge
  have hinput : small.actualInput = 29700 := by
    have hresult : (simulateSwap .gapped (2 ^ 64) 30000 .quoteToBase (10 ^ 7) .quoteToken true).result =
        .ok ⟨30000, 29700, 20437, 26806550882016034816, ⟨240, 48, 12⟩, true⟩ := rfl
    rw [← Except.ok.inj (hresult.symm.trans hsmall)]
  have hne : small.actualInput ≠ large.actualInput := by
    rw [hinput]
    decide
  exact ⟨hlarge, small, hsmall, houtput, hfee, (hbuy rfl).2 hne⟩

end Fees

end BondingCurve
