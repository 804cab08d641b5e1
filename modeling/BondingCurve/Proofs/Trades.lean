import BondingCurve.Proofs.Fees
import BondingCurve.Proofs.Purchase
import BondingCurve.Proofs.Sale
import BondingCurve.Trade.Simulation

/-!
# Trades with fees

Behind every simulated trade there is one trade on the curve.  `Executed` relates the two: the fee is the difference
between the amount given and the amount that reaches the curve, or between what the curve pays and what the trader
receives (`executed_of_simulateSwap`).  That fee is the fee of the amount that it is taken from
(`fee_of_simulateSwap`).
-/

namespace BondingCurve

/-- `r` is the outcome of a trade of an amount whose part on the curve is `fill`. -/
structure Executed (curve : Curve) (price amount : Int) (direction : TradeDirection) (mode : FeeMode)
    (r : SwapResult) (fill : Fill) : Prop where
  trade : (curve.trade price r.actualInput direction).result = .ok fill
  next : r.nextSqrtPrice = fill.price
  amountIn : r.amountIn = amount
  feeOnInput : r.feeOnInput = BondingCurve.feeOnInput direction mode
  input : r.amountIn = r.actualInput + if r.feeOnInput then r.totalFee else 0
  output : fill.output = r.output + if r.feeOnInput then 0 else r.totalFee
  totalFee_nonneg : 0 ≤ r.totalFee

variable {curve : Curve} {price amount numerator : Int} {direction : TradeDirection} {mode : FeeMode} {referral : Bool}
  {r : SwapResult} {fill : Fill}

private theorem executed_of_inputFee (hfee : feeOnInput direction mode = true)
    (h : (tradeWithInputFee curve price amount direction numerator referral).result = .ok r) :
    ∃ fill, Executed curve price amount direction mode r fill := by
  simp only [tradeWithInputFee, Traced.result_bind, Traced.result_liftM, bind_eq_ok_iff] at h
  obtain ⟨fee, hfeeOn, fill, hfill, ⟨⟩⟩ := h
  obtain ⟨hsum, hnonneg⟩ := feeOnAmount_conserves hfeeOn
  refine ⟨fill, hfill, rfl, rfl, hfee.symm, ?_, ?_, hnonneg⟩
  · exact hsum.symm
  · exact (add_zero _).symm

private theorem executed_of_outputFee (hfee : feeOnInput direction mode = false)
    (h : (tradeWithOutputFee curve price amount direction numerator referral).result = .ok r) :
    ∃ fill, Executed curve price amount direction mode r fill := by
  simp only [tradeWithOutputFee, Traced.result_bind, Traced.result_liftM, bind_eq_ok_iff] at h
  obtain ⟨fill, hfill, fee, hfeeOn, ⟨⟩⟩ := h
  obtain ⟨hsum, hnonneg⟩ := feeOnAmount_conserves hfeeOn
  refine ⟨fill, hfill, rfl, rfl, hfee.symm, ?_, ?_, hnonneg⟩
  · exact (add_zero _).symm
  · exact hsum.symm

/-- Behind a simulated trade there is one trade on the curve. -/
theorem executed_of_simulateSwap
    (h : (simulateSwap curve price amount direction numerator mode referral).result = .ok r) :
    ∃ fill, Executed curve price amount direction mode r fill := by
  cases hfee : feeOnInput direction mode with
  | true =>
    simp only [simulateSwap, hfee, if_true, Traced.result_bind, Traced.result_liftM, bind_eq_ok_iff] at h
    obtain ⟨_, -, _, hr, _, -, ⟨⟩⟩ := h
    exact executed_of_inputFee hfee hr
  | false =>
    simp only [simulateSwap, hfee, Bool.false_eq_true, if_false, Traced.result_bind, Traced.result_liftM,
      bind_eq_ok_iff] at h
    obtain ⟨_, -, _, hr, _, -, ⟨⟩⟩ := h
    exact executed_of_outputFee hfee hr

namespace Executed

theorem actualInput_le (h : Executed curve price amount direction mode r fill) : r.actualInput ≤ r.amountIn := by
  have hinput := h.input
  have hfee := h.totalFee_nonneg
  split at hinput <;> omega

theorem output_le (h : Executed curve price amount direction mode r fill) : r.output ≤ fill.output := by
  have houtput := h.output
  have hfee := h.totalFee_nonneg
  split at houtput <;> omega

theorem bought (h : Executed curve price amount .quoteToBase mode r fill) :
    curve.sqrtStartPrice ≤ price ∧ price ≤ curve.sqrtEndPrice ∧
      Bought curve.slices curve.sqrtEndPrice ⟨price, r.actualInput, 0⟩ ⟨r.nextSqrtPrice, 0, fill.output⟩ := by
  rw [h.next]
  exact Curve.bought_of_buy h.trade

theorem sold (h : Executed curve price amount .baseToQuote mode r fill) :
    curve.sqrtStartPrice ≤ price ∧ price ≤ curve.sqrtEndPrice ∧
      Sold curve.slices curve.sqrtStartPrice ⟨price, r.actualInput, 0⟩ ⟨r.nextSqrtPrice, 0, fill.output⟩ := by
  rw [h.next]
  exact Curve.sold_of_sell h.trade

end Executed

/-! ### Trades from the trade on the curve

With a valid fee and an amount that the ledger holds, a simulated trade succeeds and fails with its trade on the
curve.
-/

theorem Curve.isU64_of_trade {a : Int} (h : (curve.trade price a direction).result = .ok fill) :
    IsU64 fill.output := by
  cases direction with
  | quoteToBase => exact (buyAlong_of_buy h).2.2.2.1
  | baseToQuote => exact (sellAlong_of_sell h).2.2.2.1

section Valid

variable (hn : 0 ≤ numerator ∧ numerator ≤ maxFeeNumerator) (ha : IsU64 amount)
include hn ha

theorem simulateSwap_of_trade (referral : Bool)
    (h : (curve.trade price (lessFee (feeOnInput direction mode) numerator amount) direction).result = .ok fill) :
    ∃ r, (simulateSwap curve price amount direction numerator mode referral).result = .ok r ∧
      r.output = lessFee (!feeOnInput direction mode) numerator fill.output ∧ r.nextSqrtPrice = fill.price := by
  have hamount : checkedU64 "amount_in" amount = .ok amount := checkedU64_eq_ok_iff.mpr ⟨ha, rfl⟩
  cases hfee : feeOnInput direction mode with
  | true =>
    obtain ⟨fee, hfeeOn, hless⟩ := feeOnAmount_result hn ha referral
    rw [hfee, ← hless] at h
    exact ⟨_, by simp [simulateSwap, tradeWithInputFee, hfee, hamount, hfeeOn, h]; rfl, rfl, rfl⟩
  | false =>
    rw [hfee] at h
    obtain ⟨fee, hfeeOn, hless⟩ := feeOnAmount_result hn (Curve.isU64_of_trade h) referral
    have h' : (curve.trade price amount direction).result = .ok fill := h
    exact ⟨_, by simp [simulateSwap, tradeWithOutputFee, hfee, hamount, hfeeOn, h']; rfl, hless, rfl⟩

theorem simulateSwap_of_trade_error (referral : Bool) {e : CurveError}
    (h : (curve.trade price (lessFee (feeOnInput direction mode) numerator amount) direction).result = .error e) :
    (simulateSwap curve price amount direction numerator mode referral).result = .error e := by
  have hamount : checkedU64 "amount_in" amount = .ok amount := checkedU64_eq_ok_iff.mpr ⟨ha, rfl⟩
  cases hfee : feeOnInput direction mode with
  | true =>
    obtain ⟨fee, hfeeOn, hless⟩ := feeOnAmount_result hn ha referral
    rw [hfee, ← hless] at h
    simp [simulateSwap, tradeWithInputFee, hfee, hamount, hfeeOn, h]
  | false =>
    rw [hfee] at h
    have h' : (curve.trade price amount direction).result = .error e := h
    simp [simulateSwap, tradeWithOutputFee, hfee, hamount, h']

theorem trade_error_of_simulateSwap {e : CurveError}
    (h : (simulateSwap curve price amount direction numerator mode referral).result = .error e) :
    (curve.trade price (lessFee (feeOnInput direction mode) numerator amount) direction).result = .error e := by
  cases htrade : (curve.trade price (lessFee (feeOnInput direction mode) numerator amount) direction).result with
  | ok fill =>
    obtain ⟨r, hr, -⟩ := simulateSwap_of_trade hn ha referral htrade
    rw [hr] at h
    cases h
  | error e' =>
    rw [simulateSwap_of_trade_error hn ha referral htrade] at h
    rw [Except.error.inj h]

end Valid

private theorem valid_of_simulateSwap
    (h : (simulateSwap curve price amount direction numerator mode referral).result = .ok r) :
    (0 ≤ numerator ∧ numerator ≤ maxFeeNumerator) ∧ IsU64 amount := by
  cases hfee : feeOnInput direction mode with
  | true =>
    simp only [simulateSwap, tradeWithInputFee, hfee, if_true, Traced.result_bind, Traced.result_liftM, bind_eq_ok_iff,
      checkedU64_eq_ok_iff] at h
    obtain ⟨_, ⟨ha, -⟩, _, ⟨_, hfeeOn, -⟩, -⟩ := h
    exact ⟨(feeOnAmount_eq_ok_iff.mp hfeeOn).1, ha⟩
  | false =>
    simp only [simulateSwap, tradeWithOutputFee, hfee, Bool.false_eq_true, if_false, Traced.result_bind,
      Traced.result_liftM, bind_eq_ok_iff, checkedU64_eq_ok_iff] at h
    obtain ⟨_, ⟨ha, -⟩, _, ⟨_, -, _, hfeeOn, -⟩, -⟩ := h
    exact ⟨(feeOnAmount_eq_ok_iff.mp hfeeOn).1, ha⟩

/-- What a simulated trade pays, by its trade on the curve. -/
theorem trade_of_simulateSwap
    (h : (simulateSwap curve price amount direction numerator mode referral).result = .ok r) :
    (0 ≤ numerator ∧ numerator ≤ maxFeeNumerator) ∧ IsU64 amount ∧
      ∃ fill, (curve.trade price (lessFee (feeOnInput direction mode) numerator amount) direction).result = .ok fill ∧
        r.output = lessFee (!feeOnInput direction mode) numerator fill.output ∧ r.nextSqrtPrice = fill.price := by
  obtain ⟨hn, ha⟩ := valid_of_simulateSwap h
  refine ⟨hn, ha, ?_⟩
  cases htrade : (curve.trade price (lessFee (feeOnInput direction mode) numerator amount) direction).result with
  | error e =>
    rw [simulateSwap_of_trade_error hn ha referral htrade] at h
    cases h
  | ok fill =>
    obtain ⟨r', hr', hless⟩ := simulateSwap_of_trade hn ha referral htrade
    obtain rfl : r' = r := Except.ok.inj (hr'.symm.trans h)
    exact ⟨fill, rfl, hless⟩

/-! ### Fees of trades -/

private theorem actualInput_of_simulateSwap
    (h : (simulateSwap curve price amount direction numerator mode referral).result = .ok r) :
    r.actualInput = lessFee (feeOnInput direction mode) numerator amount := by
  cases hfee : feeOnInput direction mode with
  | true =>
    simp only [simulateSwap, tradeWithInputFee, hfee, if_true, Traced.result_bind, Traced.result_liftM,
      bind_eq_ok_iff] at h
    obtain ⟨_, -, _, ⟨_, hfeeOn, _, -, ⟨⟩⟩, _, -, ⟨⟩⟩ := h
    obtain ⟨-, -, rfl⟩ := feeOnAmount_eq_ok_iff.mp hfeeOn
    rfl
  | false =>
    simp only [simulateSwap, tradeWithOutputFee, hfee, Bool.false_eq_true, if_false, Traced.result_bind,
      Traced.result_liftM, bind_eq_ok_iff] at h
    obtain ⟨_, -, _, ⟨_, -, _, -, ⟨⟩⟩, _, -, ⟨⟩⟩ := h
    rfl

/-- What reaches the curve in a simulated trade, and the whole fee of it. -/
theorem fee_of_simulateSwap
    (h : (simulateSwap curve price amount direction numerator mode referral).result = .ok r) :
    r.actualInput = lessFee (feeOnInput direction mode) numerator amount ∧
      ∃ fill, (curve.trade price r.actualInput direction).result = .ok fill ∧
        r.totalFee = feeOf numerator (if feeOnInput direction mode then amount else fill.output) := by
  have hactual := actualInput_of_simulateSwap h
  obtain ⟨-, -, fill, hfill, hout, -⟩ := trade_of_simulateSwap h
  obtain ⟨fill', hexec⟩ := executed_of_simulateSwap h
  rw [← hactual] at hfill
  obtain rfl : fill' = fill := Except.ok.inj (hexec.trade.symm.trans hfill)
  refine ⟨hactual, fill', hfill, ?_⟩
  have hinput := hexec.input
  have houtput := hexec.output
  rw [hexec.amountIn, hexec.feeOnInput] at hinput
  rw [hexec.feeOnInput] at houtput
  cases hfee : feeOnInput direction mode <;>
    simp only [hfee, lessFee, Bool.not_true, Bool.not_false, Bool.false_eq_true, if_true, if_false] at *
  all_goals omega

end BondingCurve
