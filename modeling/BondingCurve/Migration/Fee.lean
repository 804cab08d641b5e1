import BondingCurve.Rounding
import BondingCurve.Scalar
import BondingCurve.Width

/-!
# Migration fee

A percentage of the threshold is withheld at migration. The migrated part is rounded up; of the fee, the creator's
share is rounded down and the partner has the rest.
-/

namespace BondingCurve

/-- An integer from zero to one hundred. -/
def checkPercentage {α : Type} [Argument α] (name : String) (argument : α) : Except CurveError Int :=
  match (toScalar argument).countable? with
  | some value =>
    if value < 0 ∨ 100 < value then .error (.amount (.notPercentage name (toScalar argument).shown)) else .ok value
  | none => .error (.amount (.notPercentage name (toScalar argument).shown))

/-- The quote that migrates and the fee withheld. -/
structure MigrationAmount where
  quoteAmount : Int
  fee : Int
  deriving DecidableEq, Repr

/-- The shares of the migration fee. -/
structure MigrationFeeDistribution where
  partner : Int
  creator : Int
  deriving DecidableEq, Repr

variable {α : Type} [Argument α]

/-- Splits a threshold into the migrated part and the fee. -/
def migrationAmount (threshold : Int) (feePercentage : α) : Except CurveError MigrationAmount := do
  let threshold ← checkedU64 "migration_quote_threshold" threshold
  let percentage ← checkPercentage "migration_fee_percentage" feePercentage
  let quote ← Rounding.up.mulDiv threshold (100 - percentage) 100
  pure ⟨quote, threshold - quote⟩

/-- Splits the migration fee between partner and creator. -/
def migrationFeeDistribution (threshold : Int) (feePercentage creatorPercentage : α) :
    Except CurveError MigrationFeeDistribution := do
  let creatorPercentage ← checkPercentage "creator_migration_fee_percentage" creatorPercentage
  let amount ← migrationAmount threshold feePercentage
  let creator ← Rounding.down.mulDiv amount.fee creatorPercentage 100
  pure ⟨amount.fee - creator, creator⟩

end BondingCurve
