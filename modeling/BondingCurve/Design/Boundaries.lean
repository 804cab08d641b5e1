import BondingCurve.Amount
import BondingCurve.Decimal.Root
import BondingCurve.Traced

/-!
# Geometric boundaries and weights

The prices between two ends that grow by a constant ratio, and the sum by which a convexity factor `k` weighs the
segments between them.

* `geometricPrices` starts at the lower end, multiplies by the ratio and rounds down from one boundary to the next,
  and ends at the upper end itself.
* `weightSum` is the sum of `k ^ i * ((u - l) / (u * l) + (u - l) / P ^ 2)` over the ranges from `l` to `u`, where `P`
  is the last boundary: the base that a unit of liquidity releases, and the base that its quote is worth at the end.
-/

namespace BondingCurve

/-- The boundaries after `price`, each the one before it times the ratio, rounded down. -/
def scaledPrices (ratio : Decimal) : Nat → Int → Except CurveError (List Int)
  | 0, _ => .ok []
  | count + 1, price => do
    let product ← ratio.mul (.ofInt price)
    let next ← product.floor
    let rest ← scaledPrices ratio count next
    pure (next :: rest)

/-- The ratio of `segments` equal steps from one price to another. -/
def stepRatio (low high : Int) (segments : Nat) : Except Signal Decimal := do
  let whole ← (Decimal.ofInt high).div (.ofInt low)
  whole.root segments

/-- The boundaries of a number of segments between two prices. -/
def geometricPrices (low high segments : Int) : Traced (List Int) :=
  if segments ≤ 0 then Traced.fail (.amount (.notPositive "segments" (toString segments)))
  else if high ≤ low then Traced.fail (.price (.capsNotIncreasing low high))
  else do
    let ratio ← stepRatio low high segments.toNat
    let inner ← scaledPrices ratio (segments.toNat - 1) low
    let prices := low :: inner ++ [high]
    Traced.emit (.spaced ratio prices)
    pure prices

/-- The weight of one range: its place, its ends, and the square of the last boundary. -/
def rangeWeight (k lastSquared : Decimal) (index : Nat) (low high : Int) : Except Signal Decimal := do
  let u := Decimal.ofInt high
  let l := Decimal.ofInt low
  let width ← u.sub l
  let product ← u.mul l
  let released ← width.div product
  let worth ← width.div lastSquared
  let factor ← k.power index
  let sum ← released.add worth
  factor.mul sum

/-- The weights of the ranges between boundaries, added to a total one after the other. -/
def addWeights (k lastSquared : Decimal) : Nat → List Int → Decimal → Except Signal Decimal
  | index, low :: high :: rest, total => do
    let weight ← rangeWeight k lastSquared index low high
    let total ← total.add weight
    addWeights k lastSquared (index + 1) (high :: rest) total
  | _, _, total => .ok total

/-- The weight sum of boundaries for a positive factor. -/
def weightSum (prices : List Int) (k : Scalar) : Except CurveError Decimal :=
  if prices.length < 2 then .error (.amount .tooFewBoundaries)
  else do
    let k ← positiveDecimal "k_factor" k
    let last := Decimal.ofInt (prices.getLastD 0)
    let lastSquared ← last.mul last
    liftSignal (addWeights k lastSquared 0 prices (.ofInt 0))

end BondingCurve
