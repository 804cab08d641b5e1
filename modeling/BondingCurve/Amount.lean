import BondingCurve.Decimal.Arithmetic
import BondingCurve.Scalar

/-!
# Amounts as decimals

Token amounts, market caps and factors are handed in as numbers of any kind and worked on as decimals; the result is
an integer again, rounded down.

* `Numeral.ofScalar` reads any argument but a truth value, a floating point number by its shortest text, and an integer
  only if it has a text;
* `positiveDecimal` accepts finite numbers above zero;
* `Decimal.floor` and `Numeral.floor` accept finite numbers from zero on;
* `scaleToUnits` is the number of smallest units in an amount of whole tokens.
-/

namespace BondingCurve

/-- The numeral of an argument. -/
def Numeral.ofScalar : Scalar → Except CurveError Numeral
  | .decimal value => .ok value
  | .bool _ => .error (.amount .truthValue)
  | other => do
    match Numeral.ofText? (← other.spelling) with
    | some value => .ok value
    | none => .error (.arithmetic .invalidOperation)

/-- The numeral of a positive finite number. -/
def positiveNumeral (name : String) (x : Numeral) : Except CurveError Decimal :=
  match x with
  | .finite value =>
    if value.isPositive then .ok value else .error (.amount (.notPositive name value.toText))
  | other => .error (.amount (.notFinite name other.toText))

/-- A positive finite number. -/
def positiveDecimal (name : String) (x : Scalar) : Except CurveError Decimal := do
  positiveNumeral name (← Numeral.ofScalar x)

/-- The integer part of a number that is not negative. -/
def Decimal.floor (x : Decimal) : Except CurveError Int :=
  if x.isNegative then .error (.amount (.floorOfNegative x.toText)) else .ok x.floorMagnitude

/-- `Decimal.floor` for every numeral. -/
def Numeral.floor : Numeral → Except CurveError Int
  | .finite x => x.floor
  | _ => .error (.amount .floorOfSpecial)

/-- The product of a numeral and a finite number. -/
def Numeral.mul (x : Numeral) (y : Decimal) : Except Signal Numeral :=
  match x with
  | .finite value => Numeral.finite <$> value.mul y
  | .infinity negative =>
    if y.coefficient = 0 then .error .invalidOperation else .ok (.infinity (negative != y.negative))
  | .nan negative signaling payload =>
    if signaling then .error .invalidOperation else .ok (.nan negative false payload)

theorem Numeral.mul_finite_eq_ok_iff {x y : Decimal} {z : Numeral} :
    (Numeral.finite x).mul y = .ok z ↔ ∃ product, x.mul y = .ok product ∧ Numeral.finite product = z :=
  map_eq_ok_iff

/-- The smallest units in an amount of whole tokens, rounded down. -/
def scaleToUnits (amount : Scalar) (decimals : Int) : Except CurveError Int := do
  if decimals < 0 then throw (.amount (.negative "decimals" decimals))
  let x ← Numeral.ofScalar amount
  let unit ← Decimal.tenPower decimals
  let scaled ← x.mul unit
  scaled.floor

/-- A numeral with a number of places after the first digit. -/
def scientificText (x : Numeral) (places : Int) : Except CurveError String :=
  if places < 0 then .error .malformedFormat else .ok (x.scientific places.toNat)

end BondingCurve
