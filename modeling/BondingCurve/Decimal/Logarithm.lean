import BondingCurve.Decimal.Enclosure

/-!
# Natural logarithm

For `1 ≤ m ≤ 2` and `z = (m - 1) / (m + 1)`, so that `z ≤ 1 / 3`, the logarithm of `m` is
`2 * z * (1 + z ^ 2 / 3 + z ^ 4 / 5 + …)`. A larger number is a power of two times such an `m`, and the logarithm of a
number below one is that of its inverse with a minus. `Decimal.logarithmTo` rounds the logarithm, which is irrational
for every decimal but one.
-/

namespace BondingCurve

namespace Enclosure

/-- `1 / (2 * i + 1) + w / (2 * i + 3) + w ^ 2 / (2 * i + 5) + …` for `w = n / d` with `9 * n ≤ d`. What is left
after a number of terms lies between zero and two. -/
def oddSeries (places n d : Nat) : Nat → Nat → Enclosure
  | 0, _ => ⟨0, 2 * Nat.pow 10 places⟩
  | terms + 1, i => (ofRatio places 1 (2 * i + 1)).add ((oddSeries places n d terms (i + 1)).scale n d)

/-- The logarithm of `n / d`, for a fraction between one and two. The terms of the series fall at least ninefold, so
two of them for each place are enough. -/
def logarithmUpToTwo (places n d : Nat) : Enclosure :=
  let z := n - d
  let s := n + d
  (oddSeries places (z * z) (s * s) (2 * places) 0).scale (2 * z) s

/-- The logarithm of `n / d`, for a fraction that is at least one: the greatest power of two in it is split off. -/
def logarithm (places n d : Nat) : Enclosure :=
  let k := (n / d).log2
  ((logarithmUpToTwo places 2 1).scale k 1).add (logarithmUpToTwo places n (d * Nat.pow 2 k))

end Enclosure

/-- The natural logarithm of a positive number other than one, rounded to a number of digits. -/
def Decimal.logarithmTo (digits : Nat) (x : Decimal) : Except Signal Decimal :=
  let n := x.coefficient * Nat.pow 10 x.exponent.toNat
  let d := Nat.pow 10 (-x.exponent).toNat
  if d ≤ n then Enclosure.settle digits false (Enclosure.logarithm · n d) 12 (2 * digits)
  else Enclosure.settle digits true (Enclosure.logarithm · d n) 12 (2 * digits)

end BondingCurve
