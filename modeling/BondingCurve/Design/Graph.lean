import BondingCurve.Design.Basic
import BondingCurve.Design.Boundaries
import BondingCurve.Price

/-!
# Graph designs

A graph design has sixteen segments between the prices of two market caps. The boundaries are geometric and the
liquidity of the segments is `L, L * k, L * k ^ 2, …`, where `L` is chosen so that the base released by the curve and
the base set aside for the migration make up the supply. The threshold of quote follows from what is left for the
migration at the last price.
-/

namespace BondingCurve

/-- What a graph design is made from; amounts are whole tokens. -/
structure GraphMarket where
  supply : Scalar
  initialMarketCap : Scalar
  migrationMarketCap : Scalar
  option : Scalar
  baseDecimals : Int
  quoteDecimals : Int
  vesting : Vesting
  /-- The supply that is left over, which is also the tolerance for an excess. -/
  leftover : Scalar
  /-- The ratio of the liquidities of neighbouring segments. -/
  factor : Scalar
  feeNumerator : Int := defaultFeeNumerator
  bufferPercentage : Int := defaultBufferPercentage

/-! ### Segments -/

/-- The segments up to the given boundaries, with the liquidities `liquidity * k ^ index`, rounded down. -/
def segmentsFrom (liquidity : Numeral) (k : Decimal) : Nat → List Int → Except CurveError (List Segment)
  | _, [] => .ok []
  | index, bound :: rest => do
    let factor ← k.power index
    let scaled ← liquidity.mul factor
    let checked ← checkedU128 "liquidity" (← scaled.floor)
    let segment ← Segment.ofInts bound checked
    let segments ← segmentsFrom liquidity k (index + 1) rest
    pure (segment :: segments)

/-- The segments between boundaries for a positive factor. -/
def graphSegments (prices : List Int) (liquidity : Numeral) (k : Scalar) : Except CurveError (List Segment) := do
  let k ← positiveDecimal "k_factor" k
  segmentsFrom liquidity k 0 prices.tail

/-! ### Design -/

/-- The amounts that a graph design starts from. -/
structure GraphAmounts where
  sqrtMinPrice : Int
  sqrtMaxPrice : Int
  prices : List Int
  totalSupply : Int
  leftover : Int
  /-- The base for the curve and the migration. -/
  available : Int
  deriving DecidableEq, Repr

namespace GraphMarket

/-- The sqrt price at a market cap. -/
def priceAt (m : GraphMarket) (name : String) (cap : Scalar) (supply : Decimal) : Traced Int := do
  let price ← sqrtPriceOfMarketCap cap (.decimal (.finite supply)) m.baseDecimals m.quoteDecimals
  checkSqrtPrice name price

/-- The amounts of a market, from its supply as a decimal. -/
def amounts (m : GraphMarket) (supply : Decimal) : Traced GraphAmounts := do
  let low ← m.priceAt "sqrt_min_price" m.initialMarketCap supply
  let high ← m.priceAt "sqrt_max_price" m.migrationMarketCap supply
  let prices ← geometricPrices low high graphSegmentCount
  let totalSupply ← checkedU64 "total_supply" (← scaleToUnits (.decimal (.finite supply)) m.baseDecimals)
  let leftover ← scaleToUnits m.leftover m.baseDecimals
  let vested ← m.vesting.totalAmount
  let available := totalSupply - vested - leftover
  if available ≤ 0 then Traced.fail (.supplyMismatch (vested + leftover) totalSupply 0)
  else pure ⟨low, high, prices, totalSupply, leftover, available⟩

/-- The curve whose release and migration together need the base available. -/
def curveOf (m : GraphMarket) (a : GraphAmounts) : Traced Curve := do
  let weight ← weightSum a.prices m.factor
  let liquidity ← (Decimal.ofInt a.available).div weight
  let segments ← graphSegments a.prices (.finite liquidity) m.factor
  let curve ← Curve.ofSegments a.sqrtMinPrice segments
  Traced.emit (.weighted weight liquidity)
  pure curve

/-- The quote that is worth, at the last price, the base which the swap phase leaves for the migration. -/
def thresholdOf (m : GraphMarket) (a : GraphAmounts) (curve : Curve) : Traced Int := do
  let swap ← curve.baseReleased a.sqrtMaxPrice
  let buffered ← swapAmountWithBuffer swap curve m.bufferPercentage
  let migration := a.available - buffered
  if migration < 0 then Traced.fail (.supplyMismatch buffered a.available 0)
  else do
    let threshold ← checkedU64 "migration_quote_threshold" (migration * a.sqrtMaxPrice * a.sqrtMaxPrice / quoteScale)
    Traced.emit (.derived swap buffered migration threshold)
    pure threshold

/-- The design from the amounts of a market. -/
def build (m : GraphMarket) (option : MigrationOption) (a : GraphAmounts) : Traced CurveDesign := do
  let curve ← m.curveOf a
  let threshold ← m.thresholdOf a curve
  let (supply, price) ← reconcile curve threshold m.vesting option a.totalSupply a.leftover m.bufferPercentage
  pure {
    curve
    migration := ⟨threshold, price⟩
    supply
    totalSupply := a.totalSupply
    migrationOption := option
    baseDecimals := m.baseDecimals
    quoteDecimals := m.quoteDecimals
    vesting := m.vesting
    feeNumerator := m.feeNumerator }

/-- The graph design of a market. -/
def design (m : GraphMarket) : Traced CurveDesign := do
  let option ← MigrationOption.ofScalar m.option
  let _ ← BondingCurve.feeNumerator m.feeNumerator
  let supply ← positiveDecimal "total_token_supply" m.supply
  let a ← m.amounts supply
  m.build option a

end GraphMarket
end BondingCurve
