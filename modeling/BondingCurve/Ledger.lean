/-!
# Limits and rates of the ledger

Sqrt prices are unsigned fixed-point numbers with 64 fractional bits, amounts are 64-bit and liquidity is 128-bit.
The numbers here are shared with the ledger and never change.
-/

namespace BondingCurve

/-! ### Prices and widths -/

/-- The number of fractional bits of a sqrt price. -/
def resolution : Int := 64

/-- The sqrt price one. -/
def oneQ64 : Int := Int.pow 2 64

/-- The denominator of a quote amount: liquidity times a difference of sqrt prices has 128 fractional bits. -/
def quoteScale : Int := Int.pow 2 128

/-- The least sqrt price. -/
def minSqrtPrice : Int := 4295048016

/-- The greatest sqrt price. -/
def maxSqrtPrice : Int := 79226673521066979257578248091

/-- The greatest amount. -/
def u64Max : Int := Int.pow 2 64 - 1

/-- The greatest liquidity. -/
def u128Max : Int := Int.pow 2 128 - 1

/-! ### Curve layout -/

/-- The number of segments the ledger has room for. -/
def maxCurvePoints : Nat := 16

/-- The number of segments of a graph design. -/
def graphSegmentCount : Int := 16

/-- The percentage added to the swap amount before the migration is sized. -/
def defaultBufferPercentage : Int := 25

/-! ### Fees -/

/-- The denominator of a fee. -/
def feeDenominator : Int := 1000000000

/-- The greatest fee numerator. -/
def maxFeeNumerator : Int := 990000000

/-- The fee numerator of a design that names none. -/
def defaultFeeNumerator : Int := 2500000

/-- The protocol's part of a fee, in percent. -/
def protocolFeePercent : Int := 20

/-- The referrer's part of the protocol's part, in percent. -/
def hostFeePercent : Int := 20

/-! ### Ranges -/

/-- An amount the ledger can hold. -/
def IsU64 (n : Int) : Prop := 0 ≤ n ∧ n ≤ u64Max

/-- A liquidity the ledger can hold. -/
def IsU128 (n : Int) : Prop := 0 ≤ n ∧ n ≤ u128Max

/-- A sqrt price the ledger accepts. -/
def IsSqrtPrice (p : Int) : Prop := minSqrtPrice ≤ p ∧ p ≤ maxSqrtPrice

instance (n : Int) : Decidable (IsU64 n) := inferInstanceAs (Decidable (_ ∧ _))

instance (n : Int) : Decidable (IsU128 n) := inferInstanceAs (Decidable (_ ∧ _))

instance (p : Int) : Decidable (IsSqrtPrice p) := inferInstanceAs (Decidable (_ ∧ _))

theorem isU128_zero : IsU128 0 := by decide

/-- A sqrt price is positive. -/
theorem IsSqrtPrice.pos {p : Int} (h : IsSqrtPrice p) : 0 < p :=
  Int.lt_of_lt_of_le (by decide) h.1

end BondingCurve
