import BondingCurve.Error
import BondingCurve.Text.Quoted

/-!
# Directions and fee modes

A trade gives base for quote or quote for base, and its fee is collected in quote or in the token that comes out.
-/

namespace BondingCurve

/-- Which token a trader gives. -/
inductive TradeDirection
  /-- A sale of base. -/
  | baseToQuote
  /-- A purchase of base. -/
  | quoteToBase
  deriving DecidableEq, Repr

namespace TradeDirection

/-- The name of a direction. -/
def name : TradeDirection → String
  | baseToQuote => "base_to_quote"
  | quoteToBase => "quote_to_base"

/-- The direction of a name. -/
def ofName (text : String) : Except CurveError TradeDirection :=
  if text = baseToQuote.name then .ok baseToQuote
  else if text = quoteToBase.name then .ok quoteToBase
  else .error (.unknownDirection (Text.quoted text))

end TradeDirection

/-- The token in which fees are collected. -/
inductive FeeMode
  /-- Quote, whatever the direction. -/
  | quoteToken
  /-- The token that the trader receives. -/
  | outputToken
  deriving DecidableEq, Repr

/-- The fee mode of a number. -/
def FeeMode.ofInt (n : Int) : Except CurveError FeeMode :=
  if n = 0 then .ok .quoteToken else if n = 1 then .ok .outputToken else .error (.unknownFeeMode n)

end BondingCurve
