import BondingCurve.Integral
import BondingCurve.Migration.Venue

/-!
# Migration reserve

The base that goes with an amount of quote to the venue, at the migration price `P`:

* a constant product venue takes `quote * 2 ^ 128 / P ^ 2`;
* a concentrated venue spreads the quote from the least price up to `P`, and takes the base that the same liquidity
  needs from `P` up to the greatest price.

Both are rounded up, so the venue never gets too little.
-/

namespace BondingCurve

/-- The base for a venue with constant product. -/
def constantProductBase (quote price : Int) : Except CurveError Int :=
  Rounding.up.divide (quote * quoteScale) (price * price)

/-- The base for a venue with concentrated liquidity. -/
def concentratedBase (quote price : Int) : Except CurveError Int := do
  let liquidity ← liquidityFromQuote quote minSqrtPrice price
  baseBetween price maxSqrtPrice liquidity .up

/-- The base for a venue of either shape. -/
def MigrationOption.base : MigrationOption → Int → Int → Except CurveError Int
  | constantProduct => constantProductBase
  | concentrated => concentratedBase

/-- The base that goes with an amount of quote to the selected venue. -/
def migrationBase {α β : Type} [Argument α] [Argument β] (quote sqrtPrice : α) (option : β) : Traced Int := do
  let option ← MigrationOption.ofScalar (toScalar option)
  let quote ← nonNegative "migration_quote_threshold" quote
  let price ← checkSqrtPrice "sqrt_migration_price" sqrtPrice
  let base ← option.base quote price
  Traced.emit (.reserved option quote price base)
  pure base

end BondingCurve
