import BondingCurve.Decimal.Enclosure

/-!
# Exponential function

For `0 ≤ m ≤ 1` the exponential of `m` is `1 + m / 1 * (1 + m / 2 * (1 + m / 3 * …))`. The exponential of a larger
number is the square of that of its half, and a negative number has the inverse of the exponential of its magnitude.
`Decimal.exponentialTo` rounds the exponential, which is irrational for every decimal but zero.
-/

namespace BondingCurve

namespace Enclosure

/-- `1 + m / (i + 1) * (1 + m / (i + 2) * …)` for `m = n / d` with `n ≤ d`. What is left after at least one term lies
between one and two. -/
def factorialSeries (places n d : Nat) : Nat → Nat → Enclosure
  | 0, _ => ⟨Nat.pow 10 places, 2 * Nat.pow 10 places⟩
  | terms + 1, i => (ofNat places 1).add ((factorialSeries places n d terms (i + 1)).scale n (d * (i + 1)))

/-- The exponential of `n / d`, which is at most one after a number of halvings. The series has as many terms as
places, which is enough from 25 places on, where `10 ^ places ≤ places!`. -/
def exponentialHalving (places n d : Nat) : Nat → Enclosure
  | 0 => factorialSeries places n d places 0
  | halvings + 1 =>
    let root := exponentialHalving places n (2 * d) halvings
    root.mul places root

/-- The exponential of `n / d`. -/
def exponential (places n d : Nat) : Enclosure :=
  exponentialHalving places n d ((n / d).log2 + 1)

end Enclosure

/-- The exponential of a number other than zero, rounded to a number of digits. -/
def Decimal.exponentialTo (digits : Nat) (x : Decimal) : Except Signal Decimal :=
  let n := x.coefficient * Nat.pow 10 x.exponent.toNat
  let d := Nat.pow 10 (-x.exponent).toNat
  if x.negative then Enclosure.settle digits false (fun p => (Enclosure.exponential p n d).inverse p) 12 (2 * digits)
  else Enclosure.settle digits false (Enclosure.exponential · n d) 12 (digits + 20)

end BondingCurve
