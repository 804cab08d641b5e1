import BondingCurve.Decimal.Arithmetic
import BondingCurve.Decimal.Exponential
import BondingCurve.Decimal.Logarithm

/-!
# Roots and fractional powers

* `floorRoot k n` is the greatest `r` with `r ^ k ≤ n`, found bit by bit (`floorRoot_pow_le`,
  `lt_succ_floorRoot_pow`).
* `Decimal.sqrt` rounds the exact square root.
* `Decimal.fractionPower x y`, for `0 < x` and `0 < y < 1`, is the exponential of `y` times the logarithm of `x`. The
  three steps are rounded to more digits than a result has, and the last one then to the digits of a result.
-/

namespace BondingCurve

/-! ### Integer roots -/

/-- The greatest `r' < r + 2 ^ bits` above `r` with `r' ^ k ≤ n`, one bit after the other. -/
def floorRootFrom (k n : Nat) : Nat → Nat → Nat
  | 0, r => r
  | bits + 1, r => floorRootFrom k n bits (if Nat.pow (r + Nat.pow 2 bits) k ≤ n then r + Nat.pow 2 bits else r)

/-- The greatest number whose `k`-th power is at most `n`, for `0 < k`. -/
def floorRoot (k n : Nat) : Nat :=
  floorRootFrom k n (n.log2 / k + 1) 0

private theorem floorRootFrom_pow_le (k n : Nat) : ∀ bits r,
    Nat.pow r k ≤ n → Nat.pow (floorRootFrom k n bits r) k ≤ n
  | 0, _, h => h
  | bits + 1, r, h => by
    unfold floorRootFrom
    apply floorRootFrom_pow_le
    split <;> assumption

private theorem lt_succ_floorRootFrom_pow (k n : Nat) : ∀ bits r, n < Nat.pow (r + Nat.pow 2 bits) k →
    n < Nat.pow (floorRootFrom k n bits r + 1) k
  | 0, _, h => by simpa [floorRootFrom] using h
  | bits + 1, r, h => by
    unfold floorRootFrom
    apply lt_succ_floorRootFrom_pow
    split
    · simpa [Nat.pow_succ, Nat.mul_two, Nat.add_assoc] using h
    · exact Nat.lt_of_not_le ‹_›

/-- The root is not too large. -/
theorem floorRoot_pow_le {k : Nat} (hk : 0 < k) (n : Nat) : Nat.pow (floorRoot k n) k ≤ n :=
  floorRootFrom_pow_le k n _ 0 (by simp [Nat.zero_pow hk])

/-- The root is not too small. -/
theorem lt_succ_floorRoot_pow {k : Nat} (hk : 0 < k) (n : Nat) : n < Nat.pow (floorRoot k n + 1) k := by
  apply lt_succ_floorRootFrom_pow
  calc n < Nat.pow 2 (n.log2 + 1) := Nat.lt_log2_self
    _ ≤ Nat.pow 2 ((n.log2 / k + 1) * k) := by
      apply Nat.pow_le_pow_right (by decide)
      rw [Nat.mul_comm]
      exact Nat.lt_mul_div_succ n.log2 hk
    _ = Nat.pow (0 + Nat.pow 2 (n.log2 / k + 1)) k := by rw [Nat.zero_add]; exact Nat.pow_mul ..

namespace Decimal

/-! ### Square root -/

/-- Square root of a positive number. The coefficient is extended until its root has a digit more than the format. -/
def sqrtPositive (x : Decimal) : Except Signal Decimal :=
  let half := x.exponent / 2
  let c := if x.exponent % 2 = 0 then x.coefficient else 10 * x.coefficient
  let r := floorRoot 2 c
  if r * r = c then round ⟨false, r, half⟩
  else
    let shift := precision + 1 - digitCount c / 2
    (between false (floorRoot 2 (c * Nat.pow 100 shift)) (half - shift)).round

/-- Square root; the root of a zero has half the exponent. -/
def sqrt (x : Decimal) : Except Signal Decimal :=
  if x.coefficient = 0 then round ⟨x.negative, 0, x.exponent / 2⟩
  else if x.negative then .error .invalidOperation
  else sqrtPositive x

/-! ### Fractional powers -/

/-- The number of digits that the steps of a fractional power are rounded to. -/
def fractionPowerDigits : Nat :=
  precision + 23

/-- `x ^ y` for `0 < x` and `0 < y < 1`. A power of one is spelled with all digits, like every other one. -/
def fractionPower (x y : Decimal) : Except Signal Decimal :=
  if x.sameNumber (ofInt 1) then .ok ⟨false, Nat.pow 10 (precision - 1), 1 - precision⟩
  else do
    let logarithm ← x.logarithmTo fractionPowerDigits
    let scaled ← (exactMul logarithm y).roundTo fractionPowerDigits
    let power ← scaled.exponentialTo fractionPowerDigits
    power.round

/-- The `n`-th root of `x`, `0 < n`, as the power of `x` to the rounded quotient `1 / n`. -/
def root (x : Decimal) (n : Nat) : Except Signal Decimal := do
  let y ← div ⟨false, 1, 0⟩ ⟨false, n, 0⟩
  if n = 1 then x.power 1
  else if x.coefficient = 0 then .ok ⟨false, 0, 0⟩
  else if x.negative then .error .invalidOperation
  else fractionPower x y

end Decimal
end BondingCurve
