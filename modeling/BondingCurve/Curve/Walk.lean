import BondingCurve.Curve.Basic
import BondingCurve.Integral

/-!
# Walks from the start price

A walk takes a curve's slices in increasing order.

* `Curve.thresholdPrice` is the price reached when an amount of quote has been taken up from the start price. A slice
  takes up its quote rounded up; an amount below that ends inside the slice.
* `Curve.baseReleased` is the base paid out from the start price up to a target, rounded up in each slice.
* `Curve.baseCapacity` and `Curve.quoteCapacity` are the totals of the curve.

An amount above the capacity is refused and never clamped: the ledger would not clamp it either.
-/

namespace BondingCurve

/-- The price reached, and what is left of an amount of quote, along slices from a price. -/
def absorbAlong : List Slice → Int → Int → Traced (Int × Int)
  | [], price, left => pure (price, left)
  | s :: rest, price, left =>
    if left = 0 then pure (price, left)
    else do
      let capacity ← quoteBetween price s.upper s.liquidity .up
      if left < capacity then
        let next ← priceAfterQuote price s.liquidity left
        Traced.emit (.endedInside s.index left capacity next)
        pure (next, 0)
      else
        Traced.emit (.filled s.index capacity (left - capacity) s.upper)
        absorbAlong rest s.upper (left - capacity)

/-- The base released along slices up to a target. -/
def releaseAlong (target : Int) : List Slice → Except CurveError Int
  | [] => .ok 0
  | s :: rest =>
    if target < s.upper then
      if s.lower < target then baseBetween s.lower target s.liquidity .up else .ok 0
    else do
      let here ← baseBetween s.lower s.upper s.liquidity .up
      let above ← releaseAlong target rest
      pure (here + above)

/-- The quote that slices take up. -/
def quoteAlong : List Slice → Except CurveError Int
  | [] => .ok 0
  | s :: rest => do
    let here ← quoteBetween s.lower s.upper s.liquidity .up
    let above ← quoteAlong rest
    pure (here + above)

namespace Curve

/-- The price reached when an amount of quote has been taken up from the start price. -/
def thresholdPrice {α : Type} [Argument α] (curve : Curve) (quote : α) : Traced Int := do
  let requested ← nonNegative "quote_amount" quote
  let (price, left) ← absorbAlong curve.slices curve.sqrtStartPrice requested
  if left = 0 then pure price
  else Traced.fail (.insufficientLiquidity requested (requested - left) left)

/-- The base released from the start price up to a target. -/
def baseReleased (curve : Curve) (target : Int) : Traced Int := do
  let total ← releaseAlong target curve.slices
  Traced.emit (.released target total)
  pure total

/-- The base released by the whole curve. -/
def baseCapacity (curve : Curve) : Traced Int :=
  curve.baseReleased maxSqrtPrice

/-- The quote that the whole curve takes up. -/
def quoteCapacity (curve : Curve) : Except CurveError Int :=
  quoteAlong curve.slices

end Curve
end BondingCurve
