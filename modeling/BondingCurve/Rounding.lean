import BondingCurve.Error
import BondingCurve.Text.Quoted

/-!
# Rounded division

Amounts that a trader pays are rounded up and amounts that a trader receives are rounded down, so every quotient
names its direction.

* `ceilDiv a b` is the least integer at or above `a / b`, and `a / b` the greatest at or below it;
* `Rounding.divide` accepts a dividend that is not negative and a positive divisor (`divide_up`, `divide_down`);
* `Rounding.mulDiv` divides a product.
-/

namespace BondingCurve

/-- The direction of a rounded quotient. -/
inductive Rounding
  | up
  | down
  /-- A name that stands for no direction; dividing with it fails. -/
  | unknown (name : String)
  deriving DecidableEq, Repr

/-- The least integer at or above `a / b`. -/
def ceilDiv (a b : Int) : Int :=
  -(-a / b)

namespace Rounding

/-- The direction of a name. -/
def ofName (name : String) : Rounding :=
  if name = "UP" then up else if name = "DOWN" then down else unknown name

/-- `a / b` in the given direction. -/
def divide (rounding : Rounding) (a b : Int) : Except CurveError Int :=
  match rounding with
  | up => if a < 0 ∨ b ≤ 0 then .error (.amount .ceilDomain) else .ok (ceilDiv a b)
  | down => if a < 0 ∨ b ≤ 0 then .error (.amount .floorDomain) else .ok (a / b)
  | unknown name => .error (.amount (.unknownRounding (Text.quoted name)))

/-- `x * y / d` in the given direction. -/
def mulDiv (rounding : Rounding) (x y d : Int) : Except CurveError Int :=
  if x < 0 ∨ y < 0 then .error (.amount (.negativeFactor x y))
  else if d = 0 then .error .productOverZero
  else rounding.divide (x * y) d

theorem divide_up {a b : Int} (ha : 0 ≤ a) (hb : 0 < b) : up.divide a b = .ok (ceilDiv a b) := by
  simp [divide, Int.not_lt.mpr ha, Int.not_le.mpr hb]

theorem divide_down {a b : Int} (ha : 0 ≤ a) (hb : 0 < b) : down.divide a b = .ok (a / b) := by
  simp [divide, Int.not_lt.mpr ha, Int.not_le.mpr hb]

theorem mulDiv_up {x y d : Int} (hx : 0 ≤ x) (hy : 0 ≤ y) (hd : 0 < d) :
    up.mulDiv x y d = .ok (ceilDiv (x * y) d) := by
  simp [mulDiv, Int.not_lt.mpr hx, Int.not_lt.mpr hy, Int.ne_of_gt hd, divide_up (Int.mul_nonneg hx hy) hd]

theorem mulDiv_down {x y d : Int} (hx : 0 ≤ x) (hy : 0 ≤ y) (hd : 0 < d) :
    down.mulDiv x y d = .ok (x * y / d) := by
  simp [mulDiv, Int.not_lt.mpr hx, Int.not_lt.mpr hy, Int.ne_of_gt hd, divide_down (Int.mul_nonneg hx hy) hd]

end Rounding

/-! ### The least integer above a quotient -/

/-- Rounding up is the lower adjoint of multiplication. -/
theorem ceilDiv_le_iff {a b n : Int} (hb : 0 < b) : ceilDiv a b ≤ n ↔ a ≤ n * b := by
  unfold ceilDiv
  have h : -n ≤ -a / b ↔ -n * b ≤ -a := Int.le_ediv_iff_mul_le hb
  rw [Int.neg_mul] at h
  omega

/-- What lies below a quotient rounded up lies below the quotient. -/
theorem lt_ceilDiv_iff {a b n : Int} (hb : 0 < b) : n < ceilDiv a b ↔ n * b < a := by
  have h := ceilDiv_le_iff (a := a) (n := n) hb
  omega

theorem ceilDiv_nonneg {a b : Int} (ha : 0 ≤ a) (hb : 0 < b) : 0 ≤ ceilDiv a b := by
  have h : ¬ ceilDiv a b ≤ -1 := by
    rw [ceilDiv_le_iff hb]
    omega
  omega

theorem ceilDiv_zero (b : Int) : ceilDiv 0 b = 0 := by
  simp [ceilDiv]

end BondingCurve
