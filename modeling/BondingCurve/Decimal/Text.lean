import BondingCurve.Decimal.Round
import BondingCurve.Text.Blank
import BondingCurve.Text.Digit

/-!
# Decimals as text

A numeral is a finite decimal, an infinity, or no number at all (quiet or signaling, with an optional payload).

* `Numeral.ofText?` reads a numeral. Blanks around it and underscores anywhere in it do not count, a digit may come
  from any script, letters may have either case; a number has digits with at most one point among them, then
  optionally an exponent.
* `Decimal.toText` spells a decimal so that coefficient and exponent can be read off: with a point and no exponent
  if the exponent is not positive and the first digit not below the sixth place, else with one digit before the point
  and the exponent of that digit.
* `Decimal.scientific` spells a decimal with one digit before the point and a given number after it.
-/

namespace BondingCurve

/-- What a decimal text denotes. -/
inductive Numeral
  | finite (value : Decimal)
  | infinity (negative : Bool)
  /-- No number; the payload zero stands for none. -/
  | nan (negative signaling : Bool) (payload : Nat)
  deriving DecidableEq, Repr

/-! ### Reading -/

namespace Numeral

/-- The greatest exponent that the first digit of a text may have. -/
def greatestTextExponent : Int := 999999999999999999

/-- The least exponent that the last digit of a text may have. -/
def leastTextExponent : Int := -1999999999999999997

/-- The digits at the start of a text and the rest. -/
def spanDigits : List Char → List Nat × List Char
  | [] => ([], [])
  | c :: rest =>
    match Text.asciiDigitValue? c with
    | some d =>
      let (digits, rest) := spanDigits rest
      (d :: digits, rest)
    | none => ([], c :: rest)

/-- Digits and nothing else. -/
def onlyDigits? (text : List Char) : Option (List Nat) :=
  let (digits, rest) := spanDigits text
  if rest.isEmpty then some digits else none

/-- A nonempty string of digits after an optional sign. -/
def signedDigits? (text : List Char) : Option Int := do
  let (negative, rest) := match text with
    | '-' :: rest => (true, rest)
    | '+' :: rest => (false, rest)
    | rest => (false, rest)
  let digits ← onlyDigits? rest
  if digits.isEmpty then none
  else
    let n := Int.ofNat (Text.ofDigits digits)
    some (if negative then -n else n)

/-- The exponent that follows the digits: none, or a mark and an integer. -/
def exponent? : List Char → Option Int
  | [] => some 0
  | c :: rest => if c = 'e' then signedDigits? rest else none

/-- A number: digits, a point and digits, an exponent; at least one digit. -/
def number? (negative : Bool) (text : List Char) : Option Decimal := do
  let (whole, rest) := spanDigits text
  let (fraction, rest) := match rest with
    | '.' :: rest => spanDigits rest
    | rest => ([], rest)
  let exponent ← exponent? rest
  let digits := whole ++ fraction
  if digits.isEmpty then none
  else
    let x : Decimal := ⟨negative, Text.ofDigits digits, exponent - fraction.length⟩
    if greatestTextExponent < x.adjusted ∨ x.exponent < leastTextExponent then none else some x

/-- The text after the sign, in lower case. -/
def unsigned? (negative : Bool) (text : List Char) : Option Numeral :=
  if text = ['i', 'n', 'f'] ∨ text = ['i', 'n', 'f', 'i', 'n', 'i', 't', 'y'] then some (.infinity negative)
  else match text with
    | 'n' :: 'a' :: 'n' :: payload => (onlyDigits? payload).map fun ds => .nan negative false (Text.ofDigits ds)
    | 's' :: 'n' :: 'a' :: 'n' :: payload => (onlyDigits? payload).map fun ds => .nan negative true (Text.ofDigits ds)
    | text => (number? negative text).map .finite

/-- A character in lower case and with its digit value spelled in ASCII. -/
def normalChar (c : Char) : Char :=
  match Text.digitValue? c with
  | some d => Text.asciiDigit d
  | none => c.toLower

/-- The numeral that a text spells. -/
def ofText? (text : String) : Option Numeral :=
  match ((Text.trim text.toList).filter (· != '_')).map normalChar with
  | '-' :: rest => unsigned? true rest
  | '+' :: rest => unsigned? false rest
  | rest => unsigned? false rest

/-- Whether a numeral denotes a given integer; a signaling one cannot be asked. -/
def isInt (n : Int) : Numeral → Except Signal Bool
  | .finite x => .ok (x.sameNumber (.ofInt n))
  | .infinity _ => .ok false
  | .nan _ signaling _ => if signaling then .error .invalidOperation else .ok false

end Numeral

/-! ### Writing -/

/-- The minus of a negative number. -/
def signText (negative : Bool) : String :=
  if negative then "-" else ""

/-- An exponent with its sign. -/
def exponentText (exponent : Int) : String :=
  (if exponent < 0 then "E-" else "E+") ++ toString exponent.natAbs

namespace Decimal

/-- Digits with a point after the first `whole` of them; nothing is cut off and no point ends the text. -/
def pointAfter (whole : Nat) (digits : List Char) : List Char :=
  if digits.length ≤ whole then digits else digits.take whole ++ '.' :: digits.drop whole

/-- The spelling that shows coefficient and exponent. -/
def toText (x : Decimal) : String :=
  let digits := (toString x.coefficient).toList
  let first := x.exponent + digits.length - 1
  let body :=
    if x.exponent ≤ 0 ∧ -6 ≤ first then
      if 0 ≤ first then String.ofList (pointAfter (first + 1).toNat digits)
      else "0." ++ String.ofList (List.replicate (-first - 1).toNat '0' ++ digits)
    else
      String.ofList (pointAfter 1 digits) ++ exponentText first
  signText x.negative ++ body

/-- The number rounded to a number of digits, and padded with zeros to it. -/
def withDigits (count : Nat) (x : Decimal) : Decimal :=
  if x.digits ≤ count then
    ⟨x.negative, x.coefficient * Nat.pow 10 (count - x.digits), x.exponent - (count - x.digits : Nat)⟩
  else
    let dropped := x.digits - count
    let c := halfEven x.coefficient (Nat.pow 10 dropped)
    if c = Nat.pow 10 count then ⟨x.negative, Nat.pow 10 (count - 1), x.exponent + dropped + 1⟩
    else ⟨x.negative, c, x.exponent + dropped⟩

/-- One digit, `places` digits after the point, and the exponent. A zero shows the exponent its first digit has. -/
def scientific (places : Nat) (x : Decimal) : String :=
  if x.coefficient = 0 then
    signText x.negative ++ String.ofList (pointAfter 1 (List.replicate (places + 1) '0'))
      ++ exponentText (x.exponent + places)
  else
    let y := x.withDigits (places + 1)
    signText y.negative ++ String.ofList (pointAfter 1 (toString y.coefficient).toList) ++ exponentText y.adjusted

end Decimal

namespace Numeral

/-- The text of a numeral. -/
def toText : Numeral → String
  | .finite x => x.toText
  | .infinity negative => signText negative ++ "Infinity"
  | .nan negative signaling payload =>
    signText negative ++ (if signaling then "sNaN" else "NaN") ++ (if payload = 0 then "" else toString payload)

/-- `Decimal.scientific` for every numeral; what is not finite has its usual text. -/
def scientific (places : Nat) : Numeral → String
  | .finite x => x.scientific places
  | x => x.toText

end Numeral
end BondingCurve
