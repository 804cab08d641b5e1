import BondingCurve.Rounding
import BondingCurve.Scalar
import BondingCurve.Width

/-!
# Trading fees

A fee is a numerator over `10 ^ 9`. A fee taken from an amount is rounded up; the protocol's part of a fee and the
referrer's part of that are rounded down.

* `excludedFee` takes the fee out of an amount, `includedFee` finds an amount that leaves a given one without its fee;
* `splitFee` shares a fee between pool, protocol and referrer;
* `feeOnAmount` does both.
-/

namespace BondingCurve

/-- The integer of a fee numerator in its range; a truth value counts as zero or one. -/
def feeNumerator {α : Type} [Argument α] (argument : α) : Except CurveError Int :=
  match (toScalar argument).countable? with
  | some value => if value < 0 ∨ maxFeeNumerator < value then .error (.fee (toScalar argument).shown) else .ok value
  | none => .error (.fee (toScalar argument).shown)

/-- A fee numerator in its range, as it was handed in. -/
def checkFeeNumerator {α : Type} [Argument α] (argument : α) : Except CurveError α := do
  let _ ← feeNumerator argument
  pure argument

/-- An amount and the fee that belongs to it. -/
structure FeeAmount where
  amount : Int
  fee : Int
  deriving DecidableEq, Repr

variable {α : Type} [Argument α]

/-- What an amount leaves without its fee, and the fee. -/
def excludedFee (numerator : α) (included : Int) : Except CurveError FeeAmount := do
  let numerator ← feeNumerator numerator
  let included ← checkedU64 "included_fee_amount" included
  let fee ← Rounding.up.mulDiv included numerator feeDenominator
  pure ⟨included - fee, fee⟩

/-- An amount that leaves at least the given one without its fee, and the fee. -/
def includedFee (numerator : α) (excluded : Int) : Except CurveError FeeAmount := do
  let numerator ← feeNumerator numerator
  let excluded ← checkedU64 "excluded_fee_amount" excluded
  let included ← Rounding.up.mulDiv excluded feeDenominator (feeDenominator - numerator)
  let included ← checkedU64 "included_fee_amount" included
  pure ⟨included, included - excluded⟩

/-- The shares of a fee. -/
structure FeeShares where
  trading : Int
  protocol : Int
  referral : Int
  deriving DecidableEq, Repr

namespace FeeShares

/-- No fee. -/
def zero : FeeShares := ⟨0, 0, 0⟩

/-- All shares together. -/
def total (shares : FeeShares) : Int :=
  shares.trading + shares.protocol + shares.referral

end FeeShares

/-- Shares a fee between the pool, the protocol and a referrer. -/
def splitFee (fee : Int) (referral : Bool) : Except CurveError FeeShares := do
  let fee ← checkedU64 "fee_amount" fee
  let protocol ← Rounding.down.mulDiv fee protocolFeePercent 100
  let referred ← if referral then Rounding.down.mulDiv protocol hostFeePercent 100 else .ok 0
  pure ⟨fee - protocol, protocol - referred, referred⟩

/-- An amount after its fee, and the shares of the fee. -/
structure FeeOnAmount where
  amount : Int
  shares : FeeShares
  deriving DecidableEq, Repr

/-- Takes the fee out of an amount and shares it. -/
def feeOnAmount (numerator : α) (amount : Int) (referral : Bool) : Except CurveError FeeOnAmount := do
  let excluded ← excludedFee numerator amount
  let shares ← splitFee excluded.fee referral
  pure ⟨excluded.amount, shares⟩

end BondingCurve
