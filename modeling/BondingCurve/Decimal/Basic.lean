/-!
# Decimals

A decimal is a sign, a natural coefficient and an exponent of ten: `⟨s, c, e⟩` denotes `± c * 10 ^ e`. Two decimals
may denote one number and differ in coefficient and exponent (`1.5` and `1.50`); arithmetic keeps track of both.

* `digitCount` is the number of digits of a coefficient: `10 ^ (digitCount c - 1) ≤ c < 10 ^ digitCount c` for `0 < c`;
* `Decimal.adjusted` is the exponent of the first digit;
* `Decimal.lt` compares numbers, never spellings.
-/

namespace BondingCurve

/-- A finite decimal number in one of its spellings. -/
structure Decimal where
  /-- Whether the sign is a minus; zero has both signs. -/
  negative : Bool
  coefficient : Nat
  exponent : Int
  deriving DecidableEq, Repr

/-- The conditions under which decimal arithmetic gives no result. -/
inductive Signal
  /-- Malformed text, `0 / 0`, the root of a negative number, or a signaling operand. -/
  | invalidOperation
  /-- A nonzero number divided by zero. -/
  | divisionByZero
  /-- A result above every number of the format. -/
  | overflow
  deriving DecidableEq, Repr

/-! ### Digits of a coefficient -/

/-- The least `d' ≥ d` with `c < 10 ^ d'`, looked for in `fuel` steps. -/
def digitCountFrom (c : Nat) : Nat → Nat → Nat
  | 0, d => d
  | fuel + 1, d => if c < Nat.pow 10 d then d else digitCountFrom c fuel (d + 1)

/-- The number of decimal digits; zero has one. The search starts from the binary length, since
`10 ^ 643 ≤ 2 ^ 2136`. -/
def digitCount (c : Nat) : Nat :=
  digitCountFrom c (c.log2 + 1) (c.log2 * 643 / 2136 + 1)

private theorem lt_pow_digitCountFrom (c : Nat) : ∀ fuel d,
    c < Nat.pow 10 (d + fuel) → c < Nat.pow 10 (digitCountFrom c fuel d)
  | 0, _, h => h
  | fuel + 1, d, h => by
    unfold digitCountFrom
    split
    · assumption
    · exact lt_pow_digitCountFrom c fuel (d + 1) (by rwa [Nat.add_right_comm, Nat.add_assoc])

private theorem pow_digitCountFrom_le (c : Nat) : ∀ fuel d, 1 ≤ d → Nat.pow 10 (d - 1) ≤ c →
    Nat.pow 10 (digitCountFrom c fuel d - 1) ≤ c ∧ 1 ≤ digitCountFrom c fuel d
  | 0, _, hd, h => ⟨h, hd⟩
  | fuel + 1, d, hd, h => by
    unfold digitCountFrom
    split
    · exact ⟨h, hd⟩
    · exact pow_digitCountFrom_le c fuel (d + 1) (by omega) (by simpa using Nat.le_of_not_lt ‹_›)

/-- A coefficient lies below the power of ten that its digit count names. -/
theorem lt_pow_digitCount (c : Nat) : c < Nat.pow 10 (digitCount c) := by
  apply lt_pow_digitCountFrom
  calc c < Nat.pow 2 (c.log2 + 1) := Nat.lt_log2_self
    _ ≤ Nat.pow 10 (c.log2 + 1) := Nat.pow_le_pow_left (by decide) _
    _ ≤ _ := Nat.pow_le_pow_right (by decide) (by omega)

private theorem ten_pow_le_two_pow : Nat.pow 10 643 ≤ Nat.pow 2 2136 := by decide +kernel

private theorem pow_estimate_le_of {u v : Nat} (hv : v ≠ 0) (h : Nat.pow 10 u ≤ Nat.pow 2 v) (b : Nat) :
    Nat.pow 10 (b * u / v) ≤ Nat.pow 2 b := by
  refine (Nat.pow_le_pow_iff_left hv).mp ?_
  calc Nat.pow (Nat.pow 10 (b * u / v)) v = Nat.pow 10 (b * u / v * v) := (Nat.pow_mul ..).symm
    _ ≤ Nat.pow 10 (b * u) := Nat.pow_le_pow_right (by decide) (Nat.div_mul_le_self _ _)
    _ = Nat.pow (Nat.pow 10 u) b := by rw [Nat.mul_comm]; exact Nat.pow_mul ..
    _ ≤ Nat.pow (Nat.pow 2 v) b := Nat.pow_le_pow_left h _
    _ = Nat.pow (Nat.pow 2 b) v := Nat.pow_right_comm ..

private theorem pow_estimate_le (b : Nat) : Nat.pow 10 (b * 643 / 2136) ≤ Nat.pow 2 b :=
  pow_estimate_le_of (by decide) ten_pow_le_two_pow b

/-- A positive coefficient is at least the power of ten of its first digit. -/
theorem pow_digitCount_le {c : Nat} (h : c ≠ 0) : Nat.pow 10 (digitCount c - 1) ≤ c := by
  refine (pow_digitCountFrom_le c _ _ (by omega) ?_).1
  exact Nat.le_trans (pow_estimate_le _) (Nat.log2_self_le h)

theorem digitCount_zero : digitCount 0 = 1 := by decide

theorem digitCount_pos (c : Nat) : 0 < digitCount c := by
  by_cases h : c = 0
  · subst h; decide
  · exact (pow_digitCountFrom_le c _ _ (by omega)
      (Nat.le_trans (pow_estimate_le _) (Nat.log2_self_le h))).2

/-! ### Integers that have a text -/

/-- The most digits that an integer may have to be written. -/
def maxTextDigits : Nat := 4300

/-- An integer is written only if it is short enough; the sign does not count. -/
def HasText (n : Int) : Prop := digitCount n.natAbs ≤ maxTextDigits

instance (n : Int) : Decidable (HasText n) :=
  inferInstanceAs (Decidable (_ ≤ _))

namespace Decimal

/-! ### Spellings -/

/-- An integer with exponent zero. -/
def ofInt (n : Int) : Decimal :=
  ⟨n < 0, n.natAbs, 0⟩

/-- The number with its sign changed. -/
def neg (x : Decimal) : Decimal :=
  { x with negative := !x.negative }

/-- The number of digits of the coefficient. -/
def digits (x : Decimal) : Nat :=
  digitCount x.coefficient

/-- The exponent of the first digit. -/
def adjusted (x : Decimal) : Int :=
  x.exponent + x.digits - 1

/-- The coefficient that spells the magnitude at a lower exponent. -/
def coefficientAt (x : Decimal) (exponent : Int) : Nat :=
  x.coefficient * Nat.pow 10 (x.exponent - exponent).toNat

/-- `coefficientAt` with the sign of the number. -/
def signedAt (x : Decimal) (exponent : Int) : Int :=
  if x.negative then -x.coefficientAt exponent else x.coefficientAt exponent

/-! ### Comparison -/

/-- Whether the number is below zero. -/
def isNegative (x : Decimal) : Bool :=
  x.negative && x.coefficient != 0

/-- Whether the number is above zero. -/
def isPositive (x : Decimal) : Bool :=
  !x.negative && x.coefficient != 0

/-- Compares magnitudes: first the exponents of the first digits, then the digits. -/
def magnitudeLt (x y : Decimal) : Bool :=
  if x.coefficient = 0 then y.coefficient != 0
  else if y.coefficient = 0 then false
  else if x.adjusted ≠ y.adjusted then x.adjusted < y.adjusted
  else
    let e := min x.exponent y.exponent
    x.coefficientAt e < y.coefficientAt e

/-- Whether one number is below another. -/
def lt (x y : Decimal) : Bool :=
  if x.isNegative then !y.isNegative || y.magnitudeLt x
  else !y.isNegative && x.magnitudeLt y

/-- Whether two spellings denote one number. -/
def sameNumber (x y : Decimal) : Bool :=
  !x.lt y && !y.lt x

end Decimal
end BondingCurve
