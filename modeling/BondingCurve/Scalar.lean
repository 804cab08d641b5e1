import BondingCurve.Decimal.Text
import BondingCurve.Error
import BondingCurve.Text.Quoted

/-!
# Arguments of unknown kind

A caller may hand in something else than the integer that an operation wants: a truth value, a decimal, a floating
point number, a text, or nothing. `Scalar` is such an argument, and `Argument` is the class of the types whose values
can stand for one, so that an operation is stated once, for integers and for arguments of unknown kind alike.

* `nonNegative` accepts the integers from zero on, and no truth value;
* `Scalar.countable?` reads a truth value as zero or one;
* `Scalar.display` and `Scalar.shown` are the two texts of an argument: plain, and with quotes where it is a text;
  messages show them, for arguments whose integers have texts.
* `Scalar.spelling` is the text that a number is read from, and says where an integer has none.
-/

namespace BondingCurve

/-- An argument of unknown kind. -/
inductive Scalar
  | int (value : Int)
  | bool (value : Bool)
  | decimal (value : Numeral)
  /-- A floating point number, by its shortest text. -/
  | float (spelling : String)
  | text (value : String)
  | none
  deriving DecidableEq, Repr

namespace Scalar

/-- The name of the kind. -/
def kind : Scalar → String
  | int _ => "int"
  | bool _ => "bool"
  | decimal _ => "Decimal"
  | float _ => "float"
  | text _ => "str"
  | none => "NoneType"

/-- The plain text of an argument. An integer is taken to have one. -/
def display : Scalar → String
  | int value => toString value
  | bool value => if value then "True" else "False"
  | decimal value => value.toText
  | float spelling => spelling
  | text value => value
  | none => "None"

/-- The plain text of an argument, unless it is an integer that is too long for one. -/
def spelling : Scalar → Except CurveError String
  | int value => if HasText value then .ok (toString value) else .error .textTooLong
  | other => .ok other.display

/-- The text of an argument that tells its kind. -/
def shown : Scalar → String
  | decimal value => s!"Decimal('{value.toText}')"
  | text value => Text.quoted value
  | other => other.display

/-- The integer that an argument counts as; a truth value counts as zero or one. -/
def countable? : Scalar → Option Int
  | int value => some value
  | bool value => some (if value then 1 else 0)
  | _ => Option.none

/-- Whether an argument equals an integer; a text never does. -/
def equalsInt (n : Int) : Scalar → Except Signal Bool
  | decimal value => value.isInt n
  | float spelling =>
    match Numeral.ofText? spelling with
    | some value => value.isInt n
    | Option.none => .ok false
  | other => .ok (other.countable? == some n)

end Scalar

/-- The types whose values can be handed in where an integer is wanted. -/
class Argument (α : Type) where
  /-- The argument that a value stands for. -/
  toScalar : α → Scalar

instance : Argument Int := ⟨.int⟩

instance : Argument Scalar := ⟨id⟩

export Argument (toScalar)

@[simp] theorem toScalar_int (n : Int) : toScalar n = .int n := rfl

/-- The integer of an argument that has to be one from zero on. -/
def nonNegative {α : Type} [Argument α] (name : String) (argument : α) : Except CurveError Int :=
  match toScalar argument with
  | .int value => if value < 0 then .error (.amount (.negative name value)) else .ok value
  | other => .error (.amount (.notInteger name other.kind))

/-- Checks named arguments one after the other. -/
def requireNonNegative : List (String × Scalar) → Except CurveError Unit
  | [] => .ok ()
  | (name, value) :: rest => do
    let _ ← nonNegative name value
    requireNonNegative rest

@[simp] theorem nonNegative_of_nonneg {name : String} {n : Int} (h : 0 ≤ n) : nonNegative name n = .ok n := by
  simp [nonNegative, Int.not_lt.mpr h]

theorem nonNegative_eq_ok_iff {name : String} {n m : Int} : nonNegative name n = .ok m ↔ 0 ≤ n ∧ m = n := by
  simp only [nonNegative, toScalar_int]
  split <;> simp [eq_comm] <;> omega

/-- A sqrt price in the ledger's range. A truth value counts as zero or one and is never in range. -/
def checkSqrtPrice {α : Type} [Argument α] (what : String) (argument : α) : Except CurveError Int :=
  match (toScalar argument).countable? with
  | some value =>
    if IsSqrtPrice value then .ok value
    else .error (.price (.outOfRange what (toScalar argument).display))
  | none => .error (.price (.outOfRange what (toScalar argument).display))

/-- Checks that a sqrt price is in the ledger's range. -/
def requireSqrtPrice (what : String) (value : Int) : Except CurveError (PLift (IsSqrtPrice value)) :=
  if h : IsSqrtPrice value then .ok ⟨h⟩ else .error (.price (.outOfRange what (toString value)))

theorem checkSqrtPrice_eq_ok_iff {what : String} {p q : Int} :
    checkSqrtPrice what p = .ok q ↔ IsSqrtPrice p ∧ q = p := by
  simp only [checkSqrtPrice, toScalar_int, Scalar.countable?]
  split <;> simp_all [eq_comm]

end BondingCurve
