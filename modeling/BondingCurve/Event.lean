import BondingCurve.Decimal.Text
import BondingCurve.Migration.Venue
import BondingCurve.Text.Integer
import BondingCurve.Trade.Direction

/-!
# Events

An operation that is traced tells what it computed on the way. An `Event` is one such report; `Event.line` is its
text, which starts with the part of the engine that reports.
-/

namespace BondingCurve

/-- A report of an intermediate result. -/
inductive Event
  /-- A price turned into a sqrt price. -/
  | encoded (price : Decimal) (sqrtPrice : Int)
  /-- The liquidities that two amounts would back. -/
  | backed (fromBase fromQuote : Int)
  /-- A walk that ended inside a segment. -/
  | endedInside (index : Nat) (amount capacity price : Int)
  /-- A walk that filled a segment. -/
  | filled (index : Nat) (capacity left price : Int)
  /-- The base released up to a price. -/
  | released (target total : Int)
  /-- The base set aside for a venue. -/
  | reserved (option : MigrationOption) (quote price base : Int)
  /-- The parts of a reconstructed supply. -/
  | itemised (price swap buffered migration total : Int)
  /-- A first segment sized again from its quote side. -/
  | resized (start : Int)
  | firstSegment (start migration liquidity : Int)
  /-- The amounts that a linear design starts from. -/
  | allotted (total migration vesting swap threshold : Int)
  | terminalSegment (remaining liquidity : Int)
  /-- The ratio and the boundaries of geometric segments. -/
  | spaced (ratio : Decimal) (boundaries : List Int)
  /-- The weight sum of a graph design and the liquidity of its first segment. -/
  | weighted (weight liquidity : Decimal)
  /-- The amounts that follow from the segments of a graph design. -/
  | derived (swap buffered migration threshold : Int)
  /-- A purchase that emptied a segment. -/
  | bought (index : Nat) (left output : Int)
  /-- A sale that refilled a segment. -/
  | sold (index : Nat) (left output : Int)
  | traded (direction : TradeDirection) (amount actual output price next : Int)
  deriving DecidableEq, Repr

/-- The text of an event. The integers in it are taken to have texts. -/
def Event.line : Event → String
  | encoded price sqrtPrice => s!"[PRICE] price={price.toText} -> sqrt_price={sqrtPrice}"
  | backed fromBase fromQuote => s!"[CURVE_MATH] liquidity from base={fromBase}, from quote={fromQuote}"
  | endedInside index amount capacity price =>
    s!"[WALKER] seg[{index}] partial: amount={amount} < capacity={capacity} -> price={price}"
  | filled index capacity left price =>
    s!"[WALKER] seg[{index}] full: capacity={capacity}, left={left}, price={price}"
  | released target total => s!"[WALKER] base for swap up to {target}: {total}"
  | reserved option quote price base =>
    s!"[MIGRATION] option={option.name} quote={quote} price={price} -> base={base}"
  | itemised price swap buffered migration total =>
    s!"[SUPPLY] migration price={price} swap={swap} buffered={buffered} migration={migration} total={total}"
  | resized start => s!"[DESIGN] first curve resized from quote side: start={start}"
  | firstSegment start migration liquidity =>
    s!"[DESIGN] first curve: start={start} migration={migration} L={liquidity}"
  | allotted total migration vesting swap threshold =>
    s!"[DESIGN] total={total} migration={migration} vesting={vesting} swap={swap} threshold={threshold}"
  | terminalSegment remaining liquidity => s!"[DESIGN] terminal segment: remaining={remaining} L={liquidity}"
  | spaced ratio boundaries => s!"[DESIGN] q={ratio.toText} boundaries={Text.integerList boundaries}"
  | weighted weight liquidity => s!"[DESIGN] S={weight.toText} L1={liquidity.toText}"
  | derived swap buffered migration threshold =>
    s!"[DESIGN] swap={swap} buffered={buffered} migration={migration} threshold={threshold}"
  | bought index left output => s!"[SWAP] buy seg[{index}] full: left={left} out={output}"
  | sold index left output => s!"[SWAP] sell seg[{index}] full: left={left} out={output}"
  | traded direction amount actual output price next =>
    s!"[SWAP] {direction.name}: in={amount} actual_in={actual} out={output} price {price}->{next}"

end BondingCurve
