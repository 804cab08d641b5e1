import BondingCurve.Design.Basic
import BondingCurve.Price

/-!
# Linear designs

A linear design sells along one segment up to the migration price and has a terminal segment above it.

* `firstCurve` sizes the first segment: it takes up the whole threshold of quote and releases at most the swap
  amount. Its start price relates to the migration price as the migration reserve to the swap amount; if the base
  side is too thin for the threshold there, the start price moves up and the quote side decides.
* `LinearMarket.design` reconstructs the supply of that curve, puts what remains into the terminal segment, and
  reconciles the result.
-/

namespace BondingCurve

/-- What a linear design is made from; amounts are whole tokens. -/
structure LinearMarket where
  supply : Scalar
  /-- The percentage of the supply that is set aside for the migration. -/
  migrationPercentage : Scalar
  threshold : Scalar
  option : Scalar
  baseDecimals : Int
  quoteDecimals : Int
  vesting : Vesting := .nothing
  feeNumerator : Int := defaultFeeNumerator
  bufferPercentage : Int := defaultBufferPercentage

/-! ### First segment -/

/-- The start price and liquidity sized from the quote side alone. -/
def resizeFromQuote (migrationPrice swapAmount threshold : Int) : Traced (Int × Int) := do
  let start ← Rounding.up.divide (threshold * quoteScale) (swapAmount * migrationPrice)
  let start ← checkSqrtPrice "sqrt_start_price" start
  if migrationPrice ≤ start then Traced.fail (.price (.startNotBelow start migrationPrice))
  else do
    let liquidity ← liquidityFromQuote threshold start migrationPrice
    Traced.emit (.resized start)
    pure (start, liquidity)

/-- The start price and liquidity of the first segment, given the start price to try first. -/
def sizeFrom (start migrationPrice swapAmount threshold : Int) : Traced (Int × Int) := do
  let liquidity ← liquidityFromBoth swapAmount threshold start migrationPrice
  let absorbed ← quoteBetween start migrationPrice liquidity .up
  if absorbed < threshold then resizeFromQuote migrationPrice swapAmount threshold
  else pure (start, liquidity)

/-- The start price and liquidity of the first segment. -/
def sizeFirst (migrationPrice reserve swapAmount threshold : Int) : Traced (Int × Int) :=
  if swapAmount ≤ 0 then Traced.fail (.amount (.notPositive "swap amount" (toString swapAmount)))
  else do
    let start ← checkSqrtPrice "sqrt_start_price" (migrationPrice * reserve / swapAmount)
    if migrationPrice ≤ start then
      Traced.fail (.price (.reserveTooLarge start migrationPrice reserve swapAmount))
    else sizeFrom start migrationPrice swapAmount threshold

/-- One segment that ends at the migration price, takes up the threshold and releases at most the swap amount. -/
def firstCurve (migrationPrice reserve swapAmount threshold : Int) : Traced Curve := do
  let (start, liquidity) ← sizeFirst migrationPrice reserve swapAmount threshold
  Traced.emit (.firstSegment start migrationPrice liquidity)
  let liquidity ← checkedU128 "liquidity" liquidity
  let segment ← Segment.ofInts migrationPrice liquidity
  Curve.ofSegments start [segment]

/-! ### Design -/

/-- The amounts that a linear design starts from. -/
structure LinearAmounts where
  totalSupply : Int
  quoteThreshold : Int
  sqrtMigrationPrice : Int
  migrationBase : Int
  swapAmount : Int
  deriving DecidableEq, Repr

/-- The base of whole tokens that is set aside for the migration. -/
def migrationSupply (supply percentage : Decimal) : Except CurveError Decimal := do
  let product ← supply.mul percentage
  let share ← product.div (.ofInt 100)
  pure (.ofInt (← share.floor))

namespace LinearMarket

/-- The amounts of a market, from its numbers as decimals. -/
def amounts (m : LinearMarket) (option : MigrationOption) (supply percentage threshold : Decimal) :
    Traced LinearAmounts := do
  let base ← migrationSupply supply percentage
  let totalSupply ← checkedU64 "total_supply" (← scaleToUnits (.decimal (.finite supply)) m.baseDecimals)
  let quoteThreshold ← checkedU64 "migration_quote_threshold"
    (← scaleToUnits (.decimal (.finite threshold)) m.quoteDecimals)
  let price ← priceOfAmounts (.decimal (.finite threshold)) (.decimal (.finite base))
  let sqrtPrice ← sqrtPriceOfNumeral (.finite price) m.baseDecimals m.quoteDecimals
  let sqrtPrice ← checkSqrtPrice "sqrt_migration_price" sqrtPrice
  let reserve ← migrationBase quoteThreshold sqrtPrice option
  let vested ← m.vesting.totalAmount
  let swapAmount := totalSupply - reserve - vested
  if swapAmount ≤ 0 then Traced.fail (.supplyMismatch (reserve + vested) totalSupply 0)
  else do
    Traced.emit (.allotted totalSupply reserve vested swapAmount quoteThreshold)
    pure ⟨totalSupply, quoteThreshold, sqrtPrice, reserve, swapAmount⟩

/-- The first segment, and above it a terminal segment with the liquidity that the remaining supply backs. -/
def extend (m : LinearMarket) (option : MigrationOption) (a : LinearAmounts) (first : Curve) : Traced Curve := do
  let breakdown ← reconstructSupply first a.quoteThreshold m.vesting option 0 m.bufferPercentage
  let remaining ← checkSupply breakdown a.totalSupply 0
  let liquidity ← liquidityFromBase remaining a.sqrtMigrationPrice maxSqrtPrice
  let checked ← checkedU128 "liquidity" liquidity
  let segment ← Segment.ofInts maxSqrtPrice checked
  let curve ← first.withSegment segment
  Traced.emit (.terminalSegment remaining liquidity)
  pure curve

/-- The design from the amounts of a market. -/
def build (m : LinearMarket) (option : MigrationOption) (a : LinearAmounts) : Traced CurveDesign := do
  let first ← firstCurve a.sqrtMigrationPrice a.migrationBase a.swapAmount a.quoteThreshold
  let curve ← m.extend option a first
  let (supply, price) ← reconcile curve a.quoteThreshold m.vesting option a.totalSupply 0 m.bufferPercentage
  pure {
    curve
    migration := ⟨a.quoteThreshold, price⟩
    supply
    totalSupply := a.totalSupply
    migrationOption := option
    baseDecimals := m.baseDecimals
    quoteDecimals := m.quoteDecimals
    vesting := m.vesting
    feeNumerator := m.feeNumerator }

/-- The linear design of a market. -/
def design (m : LinearMarket) : Traced CurveDesign := do
  let option ← MigrationOption.ofScalar m.option
  let _ ← BondingCurve.feeNumerator m.feeNumerator
  let supply ← positiveDecimal "total_token_supply" m.supply
  let percentage ← positiveDecimal "percentage_supply_on_migration" m.migrationPercentage
  let threshold ← positiveDecimal "migration_quote_threshold" m.threshold
  if percentage.lt (.ofInt 100) then do
    let a ← m.amounts option supply percentage threshold
    m.build option a
  else Traced.fail (.amount (.shareTooLarge percentage.toText))

end LinearMarket
end BondingCurve
