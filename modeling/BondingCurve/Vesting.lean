import BondingCurve.Width

/-!
# Locked vesting

A schedule pays an amount at a cliff and then an amount per period. Every field is an amount the ledger can hold,
and so has to be the total.
-/

namespace BondingCurve

/-- A vesting schedule, in smallest units of base. -/
structure Vesting where
  amountPerPeriod : Int
  cliffDuration : Int
  frequency : Int
  numberOfPeriods : Int
  cliffUnlockAmount : Int
  amountPerPeriod_mem : IsU64 amountPerPeriod
  cliffDuration_mem : IsU64 cliffDuration
  frequency_mem : IsU64 frequency
  numberOfPeriods_mem : IsU64 numberOfPeriods
  cliffUnlockAmount_mem : IsU64 cliffUnlockAmount
  deriving DecidableEq, Repr

namespace Vesting

/-- The schedule with the given fields. -/
def ofInts (amountPerPeriod cliffDuration frequency numberOfPeriods cliffUnlockAmount : Int) :
    Except CurveError Vesting := do
  let ⟨h₁⟩ ← requireU64 "amount_per_period" amountPerPeriod
  let ⟨h₂⟩ ← requireU64 "cliff_duration_from_migration_time" cliffDuration
  let ⟨h₃⟩ ← requireU64 "frequency" frequency
  let ⟨h₄⟩ ← requireU64 "number_of_period" numberOfPeriods
  let ⟨h₅⟩ ← requireU64 "cliff_unlock_amount" cliffUnlockAmount
  pure ⟨amountPerPeriod, cliffDuration, frequency, numberOfPeriods, cliffUnlockAmount, h₁, h₂, h₃, h₄, h₅⟩

private theorem isU64_zero : IsU64 0 := by decide

/-- The schedule without any vesting. -/
def nothing : Vesting :=
  ⟨0, 0, 0, 0, 0, isU64_zero, isU64_zero, isU64_zero, isU64_zero, isU64_zero⟩

/-- Cliff and periods together. -/
def totalAmount (v : Vesting) : Except CurveError Int :=
  checkedU64 "total_vesting_amount" (v.cliffUnlockAmount + v.amountPerPeriod * v.numberOfPeriods)

/-- Whether a schedule pays nothing. -/
def isNone (v : Vesting) : Except CurveError Bool := do
  pure ((← v.totalAmount) == 0)

end Vesting
end BondingCurve
