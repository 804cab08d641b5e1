import BondingCurve.Decimal.Basic

/-!
# Rounding to a number of digits

A decimal format has a number of digits and exponents of the first digit from `-999999` to `999999`.
`Decimal.roundTo digits` takes a decimal to the nearest number of the format, a tie going to the even coefficient.
Below the least exponent digits are dropped until the number fits; above the greatest one there is no result.
Results have 60 digits (`Decimal.round`); a format with more digits serves for the steps of a long computation.

* `halfEven n d` is the integer nearest to `n / d`;
* a number that fits is not respelled (`Decimal.roundTo_of_fits`).
-/

namespace BondingCurve

/-- The number of digits of a result. -/
def precision : Nat := 60

/-- The greatest exponent of a first digit. -/
def greatestExponent : Int := 999999

/-- The least exponent of a last digit in a format: numbers whose first digit lies below `10 ^ (-999999)` lose
precision. -/
def leastExponent (digits : Nat) : Int := -999999 - (digits - 1)

/-- The integer nearest to `n / d`, the even one of two that are equally near. -/
def halfEven (n d : Nat) : Nat :=
  let q := n / d
  let r := n % d
  if 2 * r < d ∨ (2 * r = d ∧ q % 2 = 0) then q else q + 1

namespace Decimal

/-- The least exponent at which a format can spell a nonzero number: the digits of the format from the first one on,
and never below the least exponent of a last digit. -/
def finestExponent (digits : Nat) (x : Decimal) : Int :=
  max (x.adjusted - (digits - 1)) (leastExponent digits)

/-- A number that a format holds as it is spelled. -/
def Fits (digits : Nat) (x : Decimal) : Prop :=
  x.coefficient ≠ 0 ∧ x.adjusted ≤ greatestExponent ∧ x.finestExponent digits ≤ x.exponent

instance (digits : Nat) (x : Decimal) : Decidable (x.Fits digits) :=
  inferInstanceAs (Decidable (_ ∧ _ ∧ _))

/-- The coefficient nearest to a number at a higher exponent. -/
def nearestCoefficientAt (x : Decimal) (exponent : Int) : Nat :=
  let dropped := (exponent - x.exponent).toNat
  if x.digits < dropped then 0 else halfEven x.coefficient (Nat.pow 10 dropped)

/-- A coefficient that rounding carried to one digit more is spelled with the digits of the format. -/
def settleCarry (digits : Nat) (x : Decimal) : Decimal :=
  if x.coefficient = Nat.pow 10 digits then ⟨x.negative, Nat.pow 10 (digits - 1), x.exponent + 1⟩ else x

/-- The number nearest to `x` in the format with a number of digits. -/
def roundTo (digits : Nat) (x : Decimal) : Except Signal Decimal :=
  if x.coefficient = 0 then
    .ok { x with exponent := min (max x.exponent (leastExponent digits)) greatestExponent }
  else if greatestExponent < x.adjusted then .error .overflow
  else
    let finest := x.finestExponent digits
    if finest ≤ x.exponent then .ok x
    else
      let y := settleCarry digits ⟨x.negative, x.nearestCoefficientAt finest, finest⟩
      if greatestExponent < y.adjusted then .error .overflow else .ok y

/-- The number nearest to `x` that a result can be. -/
def round (x : Decimal) : Except Signal Decimal :=
  x.roundTo precision

/-- A number of the format is its own rounding. -/
theorem roundTo_of_fits {digits : Nat} {x : Decimal} (h : x.Fits digits) : x.roundTo digits = .ok x := by
  obtain ⟨hc, ha, he⟩ := h
  simp [roundTo, hc, he, Int.not_lt.mpr ha]

/-- A decimal that stands for some number strictly between `c` and `c + 1` units at an exponent: one more digit,
neither zero nor five, decides every rounding that drops a digit of `c` as that number does. -/
def between (negative : Bool) (c : Nat) (exponent : Int) : Decimal :=
  ⟨negative, 10 * c + 1, exponent - 1⟩

end Decimal
end BondingCurve
