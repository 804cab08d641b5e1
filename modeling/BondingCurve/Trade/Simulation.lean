import BondingCurve.Curve.Swap
import BondingCurve.Fee

/-!
# Trades with fees

`simulateSwap` predicts a trade: which amount reaches the curve, what comes out, and who gets which fee. The fee is
taken from the input when base is bought and fees are collected in quote, and from the output in every other case.
-/

namespace BondingCurve

/-- The predicted outcome of a trade. -/
structure SwapResult where
  amountIn : Int
  /-- The input without a fee taken from it. -/
  actualInput : Int
  output : Int
  nextSqrtPrice : Int
  shares : FeeShares
  feeOnInput : Bool
  deriving DecidableEq, Repr

namespace SwapResult

/-- The whole fee. -/
def totalFee (r : SwapResult) : Int :=
  r.shares.total

end SwapResult

/-- Whether the fee is taken from the input. -/
def feeOnInput (direction : TradeDirection) (mode : FeeMode) : Bool :=
  match direction, mode with
  | .quoteToBase, .quoteToken => true
  | _, _ => false

/-- A trade without fees in either direction. -/
def Curve.trade (curve : Curve) (price amount : Int) : TradeDirection → Traced Fill
  | .quoteToBase => curve.buy price amount
  | .baseToQuote => curve.sell price amount

/-- A trade whose fee is taken from the input. -/
def tradeWithInputFee (curve : Curve) (price amount : Int) (direction : TradeDirection) (numerator : Int)
    (referral : Bool) : Traced SwapResult := do
  let fee ← feeOnAmount numerator amount referral
  let fill ← curve.trade price fee.amount direction
  pure ⟨amount, fee.amount, fill.output, fill.price, fee.shares, true⟩

/-- A trade whose fee is taken from the output. -/
def tradeWithOutputFee (curve : Curve) (price amount : Int) (direction : TradeDirection) (numerator : Int)
    (referral : Bool) : Traced SwapResult := do
  let fill ← curve.trade price amount direction
  let fee ← feeOnAmount numerator fill.output referral
  pure ⟨amount, amount, fee.amount, fill.price, fee.shares, false⟩

/-- The outcome of a trade of an amount from a price. -/
def simulateSwap (curve : Curve) (price amount : Int) (direction : TradeDirection) (numerator : Int) (mode : FeeMode)
    (referral : Bool) : Traced SwapResult := do
  let _ ← checkedU64 "amount_in" amount
  let result ←
    if feeOnInput direction mode then tradeWithInputFee curve price amount direction numerator referral
    else tradeWithOutputFee curve price amount direction numerator referral
  Traced.emit (.traded direction amount result.actualInput result.output price result.nextSqrtPrice)
  pure result

/-- `simulateSwap` with the fee mode by its number; the amount is checked before the mode. -/
def simulateSwapInMode (curve : Curve) (price amount : Int) (direction : TradeDirection) (numerator mode : Int)
    (referral : Bool) : Traced SwapResult := do
  let _ ← checkedU64 "amount_in" amount
  let mode ← FeeMode.ofInt mode
  simulateSwap curve price amount direction numerator mode referral

/-- Whether a reserve has reached the migration threshold. -/
def isCurveComplete (reserve threshold : Int) : Bool :=
  threshold ≤ reserve

end BondingCurve
