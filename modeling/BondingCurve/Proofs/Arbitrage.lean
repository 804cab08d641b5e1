import BondingCurve.Proofs.Trades

/-!
# No arbitrage

Trades that follow each other on a curve never leave a trader with more of both tokens.

* (one trade) What a trader gains of base is at most the base that the curve holds between the two prices of the
  trade, and his gain of quote at most the quote between them, taken negative (`Trade.gain_le`).
* (many trades) The contents of neighbouring ranges add up, so the same holds from the first price to the last
  (`Curve.net_le_content`).
* (signs) Both contents have the sign of the price change, and they vanish together (`Curve.simulateAll_no_arbitrage`).
-/

namespace BondingCurve

open Token (base quote)

/-- A trade that is asked for, with the fee that it carries. -/
structure Call where
  amount : Int
  direction : TradeDirection
  numerator : Int
  mode : FeeMode
  referral : Bool
  deriving DecidableEq, Repr

/-- A trade with its outcome. -/
structure Trade where
  direction : TradeDirection
  result : SwapResult
  deriving DecidableEq, Repr

namespace Trade

/-- What the trader receives of a token, less what he gives. -/
def gain (trade : Trade) : Token → Int
  | base =>
    match trade.direction with
    | .quoteToBase => trade.result.output
    | .baseToQuote => -trade.result.amountIn
  | quote =>
    match trade.direction with
    | .quoteToBase => -trade.result.amountIn
    | .baseToQuote => trade.result.output

/-- The gains of trades together. -/
def net (trades : List Trade) (t : Token) : Int :=
  (trades.map fun trade => trade.gain t).sum

@[simp] theorem net_nil (t : Token) : net [] t = 0 := rfl

@[simp] theorem net_cons (trade : Trade) (trades : List Trade) (t : Token) :
    net (trade :: trades) t = trade.gain t + net trades t :=
  List.sum_cons

end Trade

namespace Curve

/-- Simulates a trade from a price. -/
def simulate (curve : Curve) (price : Int) (call : Call) : Except CurveError Trade := do
  let r ← (simulateSwap curve price call.amount call.direction call.numerator call.mode call.referral).result
  pure ⟨call.direction, r⟩

/-- Simulates trades one after the other, each from the price where the one before ended. -/
def simulateAll (curve : Curve) (price : Int) : List Call → Except CurveError (List Trade)
  | [] => .ok []
  | call :: calls => do
    let trade ← curve.simulate price call
    let trades ← curve.simulateAll trade.result.nextSqrtPrice calls
    pure (trade :: trades)

end Curve

variable {curve : Curve} {price amount : Int} {mode : FeeMode} {r : SwapResult} {fill : Fill}

namespace Executed

/-- A purchase is made at the exact content of its range or worse. -/
private theorem bought_le (h : Executed curve price amount .quoteToBase mode r fill) :
    (r.output : ℚ) ≤ base.content curve.slices price r.nextSqrtPrice ∧
      quote.content curve.slices price r.nextSqrtPrice ≤ r.amountIn := by
  obtain ⟨-, -, hbought⟩ := h.bought
  have houtput : r.output ≤ base.payout curve.slices price r.nextSqrtPrice := by
    rw [← hbought.output_eq]
    exact h.output_le
  have hinput : quote.charge curve.slices price r.nextSqrtPrice ≤ r.amountIn := by
    rw [hbought.cost_eq]
    exact h.actualInput_le
  constructor
  · exact le_trans (by exact_mod_cast houtput) base.payout_le_content
  · exact quote.content_le_charge.trans (by exact_mod_cast hinput)

private theorem sold_le (h : Executed curve price amount .baseToQuote mode r fill) :
    (r.output : ℚ) ≤ quote.content curve.slices r.nextSqrtPrice price ∧
      base.content curve.slices r.nextSqrtPrice price ≤ r.amountIn := by
  obtain ⟨-, -, hsold⟩ := h.sold
  have houtput : r.output ≤ quote.payout curve.slices r.nextSqrtPrice price := by
    rw [← hsold.output_eq]
    exact h.output_le
  have hinput : base.charge curve.slices r.nextSqrtPrice price ≤ r.amountIn :=
    hsold.cost_le.trans h.actualInput_le
  constructor
  · exact le_trans (by exact_mod_cast houtput) quote.payout_le_content
  · exact base.content_le_charge.trans (by exact_mod_cast hinput)

end Executed

variable {call : Call} {trade : Trade}

private theorem executed_of_simulate (h : curve.simulate price call = .ok trade) :
    ∃ fill, Executed curve price call.amount trade.direction call.mode trade.result fill := by
  simp only [Curve.simulate, bind_eq_ok_iff] at h
  obtain ⟨r, hr, ⟨⟩⟩ := h
  exact executed_of_simulateSwap hr

theorem Trade.gain_le (h : curve.simulate price call = .ok trade) :
    (trade.gain base : ℚ) ≤ base.content curve.slices price trade.result.nextSqrtPrice ∧
      (trade.gain quote : ℚ) ≤ -quote.content curve.slices price trade.result.nextSqrtPrice := by
  obtain ⟨fill, hexec⟩ := executed_of_simulate h
  obtain ⟨direction, r⟩ := trade
  cases direction with
  | quoteToBase =>
    obtain ⟨houtput, hinput⟩ := hexec.bought_le
    refine ⟨houtput, ?_⟩
    simp only [gain, Int.cast_neg]
    exact neg_le_neg hinput
  | baseToQuote =>
    obtain ⟨houtput, hinput⟩ := hexec.sold_le
    rw [base.content_neg, quote.content_neg, neg_neg]
    refine ⟨?_, houtput⟩
    simp only [gain, Int.cast_neg]
    exact neg_le_neg hinput

namespace Curve

open Trade (net)

variable {calls : List Call} {trades : List Trade}

/-- The bounds of single trades add up to bounds between the first and the last price. -/
theorem net_le_content (h : curve.simulateAll price calls = .ok trades) :
    ∃ last, (net trades base : ℚ) ≤ base.content curve.slices price last ∧
      (net trades quote : ℚ) ≤ -quote.content curve.slices price last := by
  induction calls generalizing price trades with
  | nil =>
    obtain ⟨⟩ := h
    exact ⟨price, by simp, by simp⟩
  | cons call calls ih =>
    simp only [simulateAll, bind_eq_ok_iff] at h
    obtain ⟨trade, htrade, later, hlater, ⟨⟩⟩ := h
    obtain ⟨last, hbase, hquote⟩ := ih hlater
    obtain ⟨hgainBase, hgainQuote⟩ := Trade.gain_le htrade
    refine ⟨last, ?_, ?_⟩
    · rw [Trade.net_cons, Int.cast_add, ← base.content_add (b := trade.result.nextSqrtPrice)]
      exact add_le_add hgainBase hbase
    · rw [Trade.net_cons, Int.cast_add, ← quote.content_add (b := trade.result.nextSqrtPrice), neg_add]
      exact add_le_add hgainQuote hquote

private theorem net_signs (h : curve.simulateAll price calls = .ok trades) :
    (0 ≤ net trades base → net trades quote ≤ 0) ∧ (0 ≤ net trades quote → net trades base ≤ 0) := by
  obtain ⟨last, hbase, hquote⟩ := net_le_content h
  have hv := curve.slices_ascending.valid
  rcases le_total price last with hup | hdown
  · -- Above the first price the curve has kept quote: it can only be gained if the range is idle.
    have hquote_nonneg := quote.content_nonneg hv hup
    have hle : net trades quote ≤ 0 := by exact_mod_cast hquote.trans (neg_nonpos.mpr hquote_nonneg)
    refine ⟨fun _ => hle, fun hnet => ?_⟩
    have hnet' : (0 : ℚ) ≤ net trades quote := by exact_mod_cast hnet
    have hidle := (quote.content_eq_zero_iff hv hup).mp (by linarith)
    rw [hidle.content_eq_zero base hup] at hbase
    exact_mod_cast hbase
  · -- Below it the curve has kept base.
    rw [base.content_neg] at hbase
    rw [quote.content_neg, neg_neg] at hquote
    have hbase_nonneg := base.content_nonneg hv hdown
    have hle : net trades base ≤ 0 := by exact_mod_cast hbase.trans (neg_nonpos.mpr hbase_nonneg)
    refine ⟨fun hnet => ?_, fun _ => hle⟩
    have hnet' : (0 : ℚ) ≤ net trades base := by exact_mod_cast hnet
    have hidle := (base.content_eq_zero_iff hv hdown).mp (by linarith)
    rw [hidle.content_eq_zero quote hdown] at hquote
    exact_mod_cast hquote

/-- No trades, one after the other, gain a trader one token without the loss of the other.  A trader who has bought
and sold back no more base than that has at most the quote he began with. -/
theorem simulateAll_no_arbitrage (curve : Curve) (price : Int) (calls : List Call) (trades : List Trade)
    (h : curve.simulateAll price calls = .ok trades) :
    (0 ≤ net trades base → 0 ≤ net trades quote → net trades base = 0 ∧ net trades quote = 0) ∧
    (0 ≤ net trades base → net trades quote ≤ 0) := by
  obtain ⟨hsell, hbuy⟩ := net_signs h
  refine ⟨fun hbase hquote => ⟨?_, ?_⟩, hsell⟩
  · exact le_antisymm (hbuy hquote) hbase
  · exact le_antisymm (hsell hbase) hquote

theorem simulateAll_no_arbitrage_round_trip :
    ∃ trades, gapped.simulateAll (2 ^ 64) [⟨70000, .quoteToBase, 10 ^ 7, .quoteToken, true⟩,
        ⟨20000, .baseToQuote, 10 ^ 7, .outputToken, false⟩] = .ok trades ∧
      net trades base = 13182 ∧ net trades quote ≤ 0 := by
  let bought : Trade := ⟨.quoteToBase, 70000, 69300, 33182, 55869968127298109440, ⟨560, 112, 28⟩, true⟩
  let sold : Trade := ⟨.baseToQuote, 20000, 20000, 52269, 23091815552396790532, ⟨423, 105, 0⟩, false⟩
  have h : gapped.simulateAll (2 ^ 64) [⟨70000, .quoteToBase, 10 ^ 7, .quoteToken, true⟩,
      ⟨20000, .baseToQuote, 10 ^ 7, .outputToken, false⟩] = .ok [bought, sold] := rfl
  exact ⟨_, h, rfl, (simulateAll_no_arbitrage gapped (2 ^ 64) _ _ h).2 (by decide)⟩

end Curve

end BondingCurve
