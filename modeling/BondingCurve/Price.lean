import BondingCurve.Amount
import BondingCurve.Decimal.Root
import BondingCurve.Traced

/-!
# Prices and sqrt prices

A price is a decimal number of whole quote tokens for a whole base token; a sqrt price is the root of the price in
smallest units, with 64 fractional bits. All algebra is decimal, and only the last step rounds down to an integer.

* `sqrtPriceOfPrice` and `priceOfSqrtPrice` go either way;
* `sqrtPriceOfMarketCap` starts from a market cap and a supply;
* `priceOfAmounts` is the price at which two amounts are exchanged.
-/

namespace BondingCurve

/-- The sqrt price one as a decimal. -/
def oneQ64Decimal : Decimal := .ofInt oneQ64

/-- The price of a smallest unit in smallest units, for a price of one. -/
def decimalShift (baseDecimals quoteDecimals : Int) : Except CurveError Decimal :=
  if baseDecimals < 0 ∨ quoteDecimals < 0 then .error (.amount (.negativeDecimals baseDecimals quoteDecimals))
  else liftSignal (Decimal.tenPower (baseDecimals - quoteDecimals))

/-- The sqrt price of a positive decimal. -/
def encodePrice (price : Decimal) (baseDecimals quoteDecimals : Int) : Except CurveError Int := do
  let shift ← decimalShift baseDecimals quoteDecimals
  let adjusted ← price.div shift
  let root ← adjusted.sqrt
  let scaled ← root.mul oneQ64Decimal
  scaled.floor

/-- The sqrt price of a numeral. -/
def sqrtPriceOfNumeral (price : Numeral) (baseDecimals quoteDecimals : Int) : Traced Int := do
  let price ← positiveNumeral "price" price
  let sqrtPrice ← encodePrice price baseDecimals quoteDecimals
  Traced.emit (.encoded price sqrtPrice)
  pure sqrtPrice

/-- The sqrt price of a price. -/
def sqrtPriceOfPrice (price : Scalar) (baseDecimals quoteDecimals : Int) : Traced Int := do
  sqrtPriceOfNumeral (← Numeral.ofScalar price) baseDecimals quoteDecimals

/-- The price of a sqrt price. -/
def priceOfSqrtPrice (sqrtPrice baseDecimals quoteDecimals : Int) : Except CurveError Decimal :=
  if sqrtPrice < 0 then .error (.amount (.negative "sqrt_price" sqrtPrice))
  else do
    let d := Decimal.ofInt sqrtPrice
    let square ← d.mul d
    let shift ← decimalShift baseDecimals quoteDecimals
    let shifted ← square.mul shift
    let unit ← oneQ64Decimal.mul oneQ64Decimal
    liftSignal (shifted.div unit)

/-- The sqrt price at which a supply of whole tokens has a market cap. -/
def sqrtPriceOfMarketCap (marketCap supply : Scalar) (baseDecimals quoteDecimals : Int) : Traced Int := do
  let cap ← positiveDecimal "market_cap" marketCap
  let supply ← positiveDecimal "total_supply" supply
  let price ← cap.div supply
  sqrtPriceOfNumeral (.finite price) baseDecimals quoteDecimals

/-- The price at which an amount of quote is exchanged for an amount of base. -/
def priceOfAmounts (quote base : Scalar) : Except CurveError Decimal := do
  let quote ← positiveDecimal "quote_amount" quote
  let base ← positiveDecimal "base_amount" base
  liftSignal (quote.div base)

end BondingCurve
