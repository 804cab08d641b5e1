import BondingCurve.Decimal.Round

/-!
# Decimal arithmetic

Sum, difference, product and quotient, each the rounding of the exact result. The spelling of an exact result is
part of the rule: a sum has the lower of the two exponents, a product their sum, and a quotient that ends is spelled
as near as possible to the difference of the exponents.

A natural power is found by squaring (`Decimal.powerTo`). The products on the way are rounded to a few digits more
than a result has, so a long power may differ in its last digit from the rounding of the exact one.
-/

namespace BondingCurve.Decimal

/-- The exact sum, at the lower exponent; a zero sum is negative only if both terms are. -/
def exactAdd (x y : Decimal) : Decimal :=
  let e := min x.exponent y.exponent
  let n := x.signedAt e + y.signedAt e
  ⟨n < 0 || (n == 0 && x.negative && y.negative), n.natAbs, e⟩

/-- Sum. -/
def add (x y : Decimal) : Except Signal Decimal :=
  (exactAdd x y).round

/-- Difference. -/
def sub (x y : Decimal) : Except Signal Decimal :=
  x.add y.neg

/-- The exact product. -/
def exactMul (x y : Decimal) : Decimal :=
  ⟨x.negative != y.negative, x.coefficient * y.coefficient, x.exponent + y.exponent⟩

/-- Product. -/
def mul (x y : Decimal) : Except Signal Decimal :=
  (exactMul x y).round

/-- Divides a coefficient by ten while it ends in zero, at most `limit` times; counts the divisions. -/
def stripZeros : Nat → Nat → Nat × Nat
  | 0, c => (c, 0)
  | limit + 1, c =>
    if c % 10 = 0 then
      let (c', count) := stripZeros limit (c / 10)
      (c', count + 1)
    else (c, 0)

/-- The same number spelled as near as possible to an ideal exponent from below. -/
def reduceTowards (x : Decimal) (ideal : Int) : Decimal :=
  let (c, count) := stripZeros (ideal - x.exponent).toNat x.coefficient
  ⟨x.negative, c, x.exponent + count⟩

/-- Quotient of nonzero numbers: long division to at least one digit more than the format has. -/
def divNonzero (x y : Decimal) : Except Signal Decimal :=
  let negative := x.negative != y.negative
  let ideal := x.exponent - y.exponent
  let shift : Int := y.digits - x.digits + precision + 1
  let n := x.coefficient * Nat.pow 10 shift.toNat
  let d := y.coefficient * Nat.pow 10 (-shift).toNat
  if n % d = 0 then (reduceTowards ⟨negative, n / d, ideal - shift⟩ ideal).round
  else (between negative (n / d) (ideal - shift)).round

/-- Quotient. -/
def div (x y : Decimal) : Except Signal Decimal :=
  if y.coefficient = 0 then
    if x.coefficient = 0 then .error .invalidOperation else .error .divisionByZero
  else if x.coefficient = 0 then
    round ⟨x.negative != y.negative, 0, x.exponent - y.exponent⟩
  else divNonzero x y

/-- `x ^ n` by squaring, each product rounded to a number of digits: the power to `n / 2` is squared, and for an odd
`n` multiplied by `x`. The base itself is not rounded. -/
def powerTo (digits : Nat) (x : Decimal) : Nat → Except Signal Decimal
  | 0 => .ok ⟨false, 1, 0⟩
  | 1 => .ok x
  | n + 2 => do
    let half ← powerTo digits x (n / 2 + 1)
    let square ← (exactMul half half).roundTo digits
    if n % 2 = 0 then pure square else (exactMul square x).roundTo digits

/-- The number of digits that the products on the way to the `n`-th power are rounded to: two more than a result and
`n` have together. -/
def powerDigits (n : Nat) : Nat :=
  precision + digitCount n + 2

theorem powerDigits_pos (n : Nat) : 0 < powerDigits n := by
  unfold powerDigits
  omega

/-- Natural power, found by squaring and then rounded. -/
def power (x : Decimal) (n : Nat) : Except Signal Decimal :=
  if x.coefficient = 0 then
    if n = 0 then .error .invalidOperation else .ok ⟨x.negative && n % 2 == 1, 0, 0⟩
  else do
    let y ← powerTo (powerDigits n) x n
    y.round

/-- Ten to an integer power: `1` followed by zeros as far as the format has digits, or a `1` at a negative
exponent. -/
def tenPower : Int → Except Signal Decimal
  | .ofNat n => power ⟨false, 10, 0⟩ n
  | .negSucc n => round ⟨false, 1, .negSucc n⟩

/-- The integer part of a magnitude. -/
def floorMagnitude (x : Decimal) : Nat :=
  if 0 ≤ x.exponent then x.coefficient * Nat.pow 10 x.exponent.toNat
  else
    let places := (-x.exponent).toNat
    if x.digits < places then 0 else x.coefficient / Nat.pow 10 places

end BondingCurve.Decimal
