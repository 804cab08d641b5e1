import BondingCurve.Decimal.Round

/-!
# Enclosures

A real number that no decimal spells is found between two fixed-point numbers. An `Enclosure` with `p` places holds
two natural numbers around `10 ^ p` times the number; every operation rounds the lower one down and the upper one up.
`Enclosure.settle` raises the number of places until both ends round to one decimal, which is then the rounding of
the enclosed number.
-/

namespace BondingCurve

/-- Two fixed-point numbers, with a common number of places, around a nonnegative real number. -/
structure Enclosure where
  lower : Nat
  upper : Nat
  deriving DecidableEq, Repr

namespace Enclosure

/-- A natural number. -/
def ofNat (places n : Nat) : Enclosure :=
  ⟨Nat.pow 10 places * n, Nat.pow 10 places * n⟩

/-- The fraction `n / d`. -/
def ofRatio (places n d : Nat) : Enclosure :=
  ⟨Nat.pow 10 places * n / d, Nat.pow 10 places * n / d + 1⟩

/-- The sum of the enclosed numbers. -/
def add (a b : Enclosure) : Enclosure :=
  ⟨a.lower + b.lower, a.upper + b.upper⟩

/-- The product of the enclosed numbers. -/
def mul (places : Nat) (a b : Enclosure) : Enclosure :=
  ⟨a.lower * b.lower / Nat.pow 10 places, a.upper * b.upper / Nat.pow 10 places + 1⟩

/-- The enclosed number times `n / d`. -/
def scale (n d : Nat) (a : Enclosure) : Enclosure :=
  ⟨a.lower * n / d, a.upper * n / d + 1⟩

/-- One divided by the enclosed number, which is positive. -/
def inverse (places : Nat) (a : Enclosure) : Enclosure :=
  ⟨Nat.pow 100 places / a.upper, Nat.pow 100 places / a.lower + 1⟩

/-- The decimal with a number of digits nearest to the enclosed number, with a sign. The number of places is doubled
while the two ends round to different decimals; after the last attempt the lower end is rounded. -/
def settle (digits : Nat) (negative : Bool) (enclosure : Nat → Enclosure) : Nat → Nat → Except Signal Decimal
  | 0, places => Decimal.roundTo digits ⟨negative, (enclosure places).lower, -places⟩
  | attempts + 1, places =>
    let a := enclosure places
    let low := Decimal.roundTo digits ⟨negative, a.lower, -places⟩
    let high := Decimal.roundTo digits ⟨negative, a.upper, -places⟩
    if low.toOption = high.toOption then low else settle digits negative enclosure attempts (2 * places)

end Enclosure
end BondingCurve
