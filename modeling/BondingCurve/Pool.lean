import BondingCurve.Design.Basic
import BondingCurve.Trade.Simulation

/-!
# Pools

A pool is a design in trade: the price on its curve and the reserves of base and quote. It starts at the start price
with the base of the swap phase and of the migration, and without quote. Fees do not enter the reserves.

* `Pool.quote` previews a trade and `Pool.swap` makes it; a trade that the reserves cannot pay is refused.
* `Pool.after` is the pool after an order: a refused order leaves it as it was.
-/

namespace BondingCurve

/-- The state of a design in trade. -/
structure Pool where
  design : CurveDesign
  mode : FeeMode
  sqrtPrice : Int
  baseReserve : Int
  quoteReserve : Int
  deriving DecidableEq, Repr

/-- A trade that is asked for. -/
structure Order where
  amount : Int
  direction : TradeDirection
  referral : Bool
  deriving DecidableEq, Repr

/-- The base that a trade takes from the curve: the output, with the fee if that is taken from it. -/
def SwapResult.baseOut (r : SwapResult) : Int :=
  if r.feeOnInput then r.output else r.output + r.totalFee

/-- The quote that a sale takes from the curve: the output and the fee taken from it. -/
def SwapResult.quoteOut (r : SwapResult) : Int :=
  r.output + r.totalFee

namespace Pool

/-- The fresh pool of a design. -/
def start (design : CurveDesign) (mode : FeeMode) : Pool :=
  ⟨design, mode, design.curve.sqrtStartPrice, design.supply.swapAmount + design.supply.migrationAmount, 0⟩

/-- The fresh pool of a design, with the fee mode by its number. -/
def startInMode (design : CurveDesign) (mode : Int) : Except CurveError Pool := do
  pure (start design (← FeeMode.ofInt mode))

/-- Whether the migration threshold is reached. -/
def isComplete (pool : Pool) : Bool :=
  isCurveComplete pool.quoteReserve pool.design.migration.quoteAmount

/-- The outcome of an order, without making the trade. -/
def quote (pool : Pool) (order : Order) : Traced SwapResult :=
  simulateSwap pool.design.curve pool.sqrtPrice order.amount order.direction pool.design.feeNumerator pool.mode
    order.referral

/-- The reserves and the price after a trade. -/
def settle (pool : Pool) (direction : TradeDirection) (r : SwapResult) : Except CurveError Pool :=
  match direction with
  | .quoteToBase =>
    if pool.baseReserve < r.baseOut then
      .error (.insufficientLiquidity r.baseOut pool.baseReserve (r.baseOut - pool.baseReserve))
    else
      .ok { pool with
        sqrtPrice := r.nextSqrtPrice
        baseReserve := pool.baseReserve - r.baseOut
        quoteReserve := pool.quoteReserve + r.actualInput }
  | .baseToQuote =>
    if pool.quoteReserve < r.quoteOut then
      .error (.insufficientLiquidity r.quoteOut pool.quoteReserve (r.quoteOut - pool.quoteReserve))
    else
      .ok { pool with
        sqrtPrice := r.nextSqrtPrice
        baseReserve := pool.baseReserve + r.actualInput
        quoteReserve := pool.quoteReserve - r.quoteOut }

/-- Makes a trade. -/
def swap (pool : Pool) (order : Order) : Traced (SwapResult × Pool) := do
  let r ← pool.quote order
  let next ← pool.settle order.direction r
  pure (r, next)

/-- The pool after an order. -/
def after (pool : Pool) (order : Order) : Pool :=
  match (pool.swap order).result with
  | .ok (_, next) => next
  | .error _ => pool

/-- The pool after orders, one after the other. -/
def afterAll (pool : Pool) (orders : List Order) : Pool :=
  orders.foldl after pool

@[simp] theorem afterAll_nil (pool : Pool) : pool.afterAll [] = pool := rfl

@[simp] theorem afterAll_cons (pool : Pool) (order : Order) (orders : List Order) :
    pool.afterAll (order :: orders) = (pool.after order).afterAll orders := rfl

/-- A refused order changes nothing. -/
theorem after_of_error {pool : Pool} {order : Order} {e : CurveError} (h : (pool.swap order).result = .error e) :
    pool.after order = pool := by
  simp [after, h]

end Pool
end BondingCurve
