import BondingCurve.Document
import BondingCurve.Fee
import BondingCurve.Supply

/-!
# Designs

A design is a curve with everything that was derived along with it: the migration threshold and price, the supply and
where it goes, the venue, and the parameters of the token pair.

* `reconcile` itemises the supply of a finished curve, refuses an excess over the requested supply, and leaves over
  what is not allotted.
* `CurveDesign.toDocument` is the report of a design.
-/

namespace BondingCurve

/-- The quote at which a curve is complete, and the price that it reaches then. -/
structure MigrationThreshold where
  quoteAmount : Int
  sqrtPrice : Int
  deriving DecidableEq, Repr

/-- A curve and what was derived along with it. -/
structure CurveDesign where
  curve : Curve
  migration : MigrationThreshold
  supply : SupplyBreakdown
  totalSupply : Int
  migrationOption : MigrationOption
  baseDecimals : Int
  quoteDecimals : Int
  vesting : Vesting
  feeNumerator : Int
  deriving DecidableEq, Repr

/-- The supply of a curve and the price at the threshold. What the breakdown does not allot is left over. -/
def reconcile (curve : Curve) (threshold : Int) (vesting : Vesting) (option : MigrationOption)
    (totalSupply leftover buffer : Int) : Traced (SupplyBreakdown × Int) := do
  let breakdown ← reconstructSupply curve threshold vesting option leftover buffer
  let remainder ← checkSupply breakdown totalSupply leftover
  let price ← curve.thresholdPrice threshold
  pure ({ breakdown with leftoverAmount := breakdown.leftoverAmount + remainder }, price)

/-! ### Reports -/

/-- The segments of a curve as a list of records. -/
def Curve.segmentsDocument (curve : Curve) : Document :=
  .list <| curve.segments.map fun s =>
    .record [("sqrt_price", .integerText s.sqrtPrice), ("liquidity", .integerText s.liquidity)]

/-- The fields of a curve. -/
def Curve.fields (curve : Curve) : List (String × Document) :=
  [("sqrt_start_price", .integerText curve.sqrtStartPrice), ("curve", curve.segmentsDocument)]

/-- The fields of a breakdown. -/
def SupplyBreakdown.fields (b : SupplyBreakdown) : List (String × Document) :=
  [("swap_amount", .integerText b.swapAmount), ("migration_amount", .integerText b.migrationAmount),
    ("vesting_amount", .integerText b.vestingAmount), ("leftover_amount", .integerText b.leftoverAmount)]

/-- The fields of a vesting schedule. -/
def Vesting.fields (v : Vesting) : List (String × Document) :=
  [("amount_per_period", .integerText v.amountPerPeriod),
    ("cliff_duration_from_migration_time", .integerText v.cliffDuration),
    ("frequency", .integerText v.frequency),
    ("number_of_period", .integerText v.numberOfPeriods),
    ("cliff_unlock_amount", .integerText v.cliffUnlockAmount)]

namespace CurveDesign

/-- The fields of a design. -/
def fields (d : CurveDesign) : List (String × Document) :=
  d.curve.fields ++
    [("migration_option", .number d.migrationOption.number),
      ("token_decimal", .number d.baseDecimals),
      ("quote_decimal", .number d.quoteDecimals),
      ("migration_quote_threshold", .integerText d.migration.quoteAmount),
      ("migration_sqrt_price", .integerText d.migration.sqrtPrice),
      ("total_supply", .integerText d.totalSupply),
      ("supply", .record d.supply.fields),
      ("locked_vesting", .record d.vesting.fields),
      ("fee_numerator", .number d.feeNumerator)]

/-- The report of a design. -/
def toDocument (d : CurveDesign) : Document :=
  .record d.fields

end CurveDesign
end BondingCurve
