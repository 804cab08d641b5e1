import BondingCurve.Curve.Walk
import BondingCurve.Migration.Reserve
import BondingCurve.Vesting

/-!
# Supply

The base tokens of a design are sold on the curve, set aside for the migration, vested, or left over.

* `swapAmountWithBuffer` pads the base of the swap phase by a percentage, up to what the curve can release;
* `reconstructSupply` walks a curve to the migration threshold and itemises the supply;
* `checkSupply` refuses a breakdown that exceeds the supply by more than a tolerance, and returns what is not
  allotted.
-/

namespace BondingCurve

/-- Where every base token of a design goes. -/
structure SupplyBreakdown where
  swapAmount : Int
  migrationAmount : Int
  vestingAmount : Int
  leftoverAmount : Int
  deriving DecidableEq, Repr

/-- All tokens of a breakdown. -/
def SupplyBreakdown.total (b : SupplyBreakdown) : Int :=
  b.swapAmount + b.migrationAmount + b.vestingAmount + b.leftoverAmount

/-- The swap amount with a percentage added, at most the base capacity of the curve. -/
def swapAmountWithBuffer {α β : Type} [Argument α] [Argument β] (amount : α) (curve : Curve) (buffer : β) :
    Traced Int := do
  let amount ← nonNegative "swap_base_amount" amount
  let buffer ← nonNegative "buffer_percentage" buffer
  let capacity ← curve.baseCapacity
  pure (min (amount + amount * buffer / 100) capacity)

/-- The supply of a curve that migrates at a threshold of quote. -/
def reconstructSupply {α : Type} [Argument α] (curve : Curve) (threshold : Int) (vesting : Vesting) (option : α)
    (leftover buffer : Int) : Traced SupplyBreakdown := do
  let leftover ← nonNegative "leftover" leftover
  let price ← curve.thresholdPrice threshold
  let swap ← curve.baseReleased price
  let buffered ← swapAmountWithBuffer swap curve buffer
  let migration ← migrationBase threshold price option
  let vested ← vesting.totalAmount
  let breakdown : SupplyBreakdown := ⟨buffered, migration, vested, leftover⟩
  Traced.emit (.itemised price swap buffered migration breakdown.total)
  pure breakdown

/-- The least supply that a curve needs. -/
def totalSupplyOfCurve {α : Type} [Argument α] (curve : Curve) (threshold : Int) (vesting : Vesting) (option : α)
    (leftover buffer : Int) : Traced Int := do
  pure (← reconstructSupply curve threshold vesting option leftover buffer).total

/-- The part of the supply that a breakdown does not allot; zero if it exceeds the supply within the tolerance. -/
def checkSupply {α : Type} [Argument α] (breakdown : SupplyBreakdown) (supply tolerance : α) :
    Except CurveError Int := do
  let supply ← nonNegative "total_supply" supply
  let tolerance ← nonNegative "tolerance" tolerance
  let total := breakdown.total
  if supply < total then
    if tolerance < total - supply then .error (.supplyMismatch total supply tolerance) else .ok 0
  else .ok (supply - total)

end BondingCurve
