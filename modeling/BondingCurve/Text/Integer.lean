import BondingCurve.Text.Blank
import BondingCurve.Text.Digit

/-!
# Integers as text

An integer is written as an optional sign and digits of any script, with blanks around it; single underscores may
stand between two digits. `integer?` reads this form and refuses everything else.
-/

namespace BondingCurve.Text

/-- Digits with single underscores between them; `afterDigit` tells whether the last character was a digit. -/
def groupedDigits? (afterDigit : Bool) : List Char → Option (List Nat)
  | [] => if afterDigit then some [] else none
  | '_' :: rest => if afterDigit then groupedDigits? false rest else none
  | c :: rest => do
    let d ← digitValue? c
    let ds ← groupedDigits? true rest
    pure (d :: ds)

/-- The integer that a text writes. -/
def integer? (text : String) : Option Int :=
  match trim text.toList with
  | '-' :: rest => (groupedDigits? false rest).map fun ds => -Int.ofNat (ofDigits ds)
  | '+' :: rest => (groupedDigits? false rest).map fun ds => Int.ofNat (ofDigits ds)
  | rest => (groupedDigits? false rest).map fun ds => Int.ofNat (ofDigits ds)

/-- Integers in brackets, separated by a comma and a space. -/
def integerList (values : List Int) : String :=
  "[" ++ ", ".intercalate (values.map toString) ++ "]"

end BondingCurve.Text
