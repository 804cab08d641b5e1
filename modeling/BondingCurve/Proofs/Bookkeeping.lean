import BondingCurve.Proofs.Runs
import BondingCurve.Proofs.Solvency

/-!
# The books of a pool

Every unit of a token that reaches a pool is in its reserve, has been paid out or has been taken as a fee, whatever
orders came in (`Pool.afterAll_balances`).  One trade moves the reserve of the token given and that of the token
received (`Pool.swap_reserve`), and the fee makes up the difference to what the trader sees (`Pool.swap_balance`); a run
balances trade by trade (`Pool.Run.balance`).

A pool may also be kept in place, by one assignment after the other (`Pool.swapInPlace`).  All checks come before the
first assignment, so a trade that is refused on the way leaves nothing half done (`Pool.swapInPlace_run`).
-/

namespace BondingCurve

/-! ### What trades book -/

namespace TradeDirection

/-- The token that a trader gives; `received` is the other one. -/
def given : TradeDirection → Token
  | baseToQuote => .base
  | quoteToBase => .quote

def received : TradeDirection → Token
  | baseToQuote => .quote
  | quoteToBase => .base

private theorem given_ne_received (direction : TradeDirection) : direction.given ≠ direction.received := by
  cases direction <;> decide

private theorem received_ne_given (direction : TradeDirection) : direction.received ≠ direction.given :=
  direction.given_ne_received.symm

private theorem eq_given_or_eq_received (direction : TradeDirection) (t : Token) :
    t = direction.given ∨ t = direction.received := by
  cases direction <;> cases t <;> decide

end TradeDirection

/-- The token in which the fee of a trade is taken. -/
def FeeMode.feeToken : FeeMode → TradeDirection → Token
  | quoteToken, _ => .quote
  | outputToken, direction => direction.received

namespace Trade

/-! What a trader gives of a token, what he receives of it, and what is kept of it as the fee: -/

def paidIn (t : Token) (trade : Trade) : Int :=
  if trade.direction.given = t then trade.result.amountIn else 0

def paidOut (t : Token) (trade : Trade) : Int :=
  if trade.direction.received = t then trade.result.output else 0

def fee (mode : FeeMode) (t : Token) (trade : Trade) : Int :=
  if mode.feeToken trade.direction = t then trade.result.totalFee else 0

/-- An amount over trades together. -/
def total (amount : Trade → Int) (trades : List Trade) : Int :=
  (trades.map amount).sum

@[simp] theorem total_nil (amount : Trade → Int) : total amount [] = 0 := rfl

@[simp] theorem total_cons (amount : Trade → Int) (trade : Trade) (trades : List Trade) :
    total amount (trade :: trades) = amount trade + total amount trades :=
  List.sum_cons

section Fee

variable {direction : TradeDirection} {mode : FeeMode} {r : SwapResult}
  (hplace : r.feeOnInput = feeOnInput direction mode)
include hplace

private theorem fee_given : fee mode direction.given ⟨direction, r⟩ = if r.feeOnInput then r.totalFee else 0 := by
  rw [hplace]
  cases direction <;> cases mode <;> rfl

private theorem fee_received : fee mode direction.received ⟨direction, r⟩ = if r.feeOnInput then 0 else r.totalFee := by
  rw [hplace]
  cases direction <;> cases mode <;> rfl

end Fee

end Trade

namespace Pool

open Trade (paidIn paidOut fee total)

def reserve (pool : Pool) : Token → Int
  | .base => pool.baseReserve
  | .quote => pool.quoteReserve

variable {pool next last : Pool} {order : Order} {r : SwapResult} {trades : List Trade}

/-- A trade adds to the reserve of the token given and takes from that of the token received. -/
theorem swap_reserve (h : (pool.swap order).result = .ok (r, next)) :
    next.mode = pool.mode ∧
    next.reserve order.direction.given = pool.reserve order.direction.given + r.actualInput ∧
    next.reserve order.direction.received =
      pool.reserve order.direction.received - (r.output + if r.feeOnInput then 0 else r.totalFee) := by
  obtain ⟨hquote, -⟩ := swap_eq_ok_iff.mp h
  obtain ⟨fill, hexec⟩ := executed_of_simulateSwap hquote
  have hplace := hexec.feeOnInput
  rcases swap_cases h with ⟨hdirection, -, rfl⟩ | ⟨hdirection, -, rfl⟩
  · rw [hdirection]
    refine ⟨rfl, rfl, ?_⟩
    simp only [reserve, TradeDirection.received, SwapResult.baseOut]
    split <;> omega
  · -- The fee of a sale is never on its input.
    rw [hdirection] at hplace ⊢
    refine ⟨rfl, rfl, ?_⟩
    rw [hplace]
    rfl

theorem swap_balance (h : (pool.swap order).result = .ok (r, next)) (t : Token) :
    next.reserve t + paidOut t ⟨order.direction, r⟩ + fee pool.mode t ⟨order.direction, r⟩ =
      pool.reserve t + paidIn t ⟨order.direction, r⟩ := by
  obtain ⟨hquote, -⟩ := swap_eq_ok_iff.mp h
  obtain ⟨fill, hexec⟩ := executed_of_simulateSwap hquote
  have hplace := hexec.feeOnInput
  have hinput := hexec.input
  obtain ⟨-, hgiven, hreceived⟩ := swap_reserve h
  rcases order.direction.eq_given_or_eq_received t with rfl | rfl
  · -- What the trader gives is what reaches the reserve and a fee on the input.
    have hin : paidIn order.direction.given ⟨order.direction, r⟩ = r.amountIn := if_pos rfl
    have hout : paidOut order.direction.given ⟨order.direction, r⟩ = 0 := if_neg order.direction.received_ne_given
    rw [Trade.fee_given hplace, hin, hout, hgiven]
    omega
  · -- What leaves the reserve is what the trader receives and a fee on the output.
    have hin : paidIn order.direction.received ⟨order.direction, r⟩ = 0 := if_neg order.direction.given_ne_received
    have hout : paidOut order.direction.received ⟨order.direction, r⟩ = r.output := if_pos rfl
    rw [Trade.fee_received hplace, hin, hout, hreceived]
    omega

theorem Run.balance (hrun : Run pool trades last) (t : Token) :
    last.reserve t + total (paidOut t) trades + total (fee pool.mode t) trades =
      pool.reserve t + total (paidIn t) trades := by
  induction hrun with
  | nil => simp
  | cons hswap _ ih =>
    obtain ⟨hmode, -⟩ := swap_reserve hswap
    have hhere := swap_balance hswap t
    rw [hmode] at ih
    simp only [Trade.total_cons]
    omega

/-! ### Trades in place -/

/-- Moves the reserves and the price by assignments, if the reserves pay the trade. -/
def settleInPlace (direction : TradeDirection) (r : SwapResult) : EStateM CurveError Pool Unit := do
  match direction with
  | .quoteToBase =>
    let available := (← get).baseReserve
    if available < r.baseOut then
      throw (.insufficientLiquidity r.baseOut available (r.baseOut - available))
    modify fun pool => { pool with quoteReserve := pool.quoteReserve + r.actualInput }
    modify fun pool => { pool with baseReserve := pool.baseReserve - r.baseOut }
  | .baseToQuote =>
    let available := (← get).quoteReserve
    if available < r.quoteOut then
      throw (.insufficientLiquidity r.quoteOut available (r.quoteOut - available))
    modify fun pool => { pool with baseReserve := pool.baseReserve + r.actualInput }
    modify fun pool => { pool with quoteReserve := pool.quoteReserve - r.quoteOut }
  modify fun pool => { pool with sqrtPrice := r.nextSqrtPrice }

/-- Makes a trade by assignments. -/
def swapInPlace (order : Order) : EStateM CurveError Pool SwapResult := do
  match ((← get).quote order).result with
  | .ok r =>
    settleInPlace order.direction r
    return r
  | .error e => throw e

private theorem settleInPlace_run (pool : Pool) (direction : TradeDirection) (r : SwapResult) :
    (settleInPlace direction r).run pool =
      match pool.settle direction r with
      | .ok next => .ok () next
      | .error e => .error e pool := by
  cases direction with
  | quoteToBase =>
    by_cases hshort : pool.baseReserve < r.baseOut
    · simp [settleInPlace, settle, hshort]
    · simp [settleInPlace, settle, hshort]
  | baseToQuote =>
    by_cases hshort : pool.quoteReserve < r.quoteOut
    · simp [settleInPlace, settle, hshort]
    · simp [settleInPlace, settle, hshort]

/-- In place a trade comes to the same, and one that is refused leaves the pool that it found. -/
theorem swapInPlace_run (pool : Pool) (order : Order) :
    (swapInPlace order).run pool =
      match (pool.swap order).result with
      | .ok (r, next) => .ok r next
      | .error e => .error e pool := by
  simp only [swapInPlace, EStateM.run_bind, EStateM.run_get, swap, Traced.result_bind, Traced.result_liftM]
  cases hquote : (pool.quote order).result with
  | error e => rfl
  | ok r =>
    simp only [EStateM.run_bind, settleInPlace_run, ok_bind]
    cases hsettle : pool.settle order.direction r with
    | error e => rfl
    | ok next => rfl

/-! ### The books -/

/-- Whatever orders came in since a pool was fresh, an order that is refused changes nothing, and the books balance:
what traders have given of a token, with what the fresh pool had of it, is in the reserve, has been paid out or has been
taken as fees. -/
theorem afterAll_balances (design : CurveDesign) (mode : FeeMode) (orders : List Order) :
    let pool := (start design mode).afterAll orders
    let trades := (start design mode).trades orders
    (∀ (order : Order) (e : CurveError), (pool.swap order).result = .error e →
      (swapInPlace order).run pool = .error e pool ∧ pool.after order = pool) ∧
    pool.quoteReserve + total (paidOut .quote) trades + total (fee mode .quote) trades = total (paidIn .quote) trades ∧
    pool.baseReserve + total (paidOut .base) trades + total (fee mode .base) trades =
      design.supply.swapAmount + design.supply.migrationAmount + total (paidIn .base) trades := by
  intro pool trades
  have hrun : Run (start design mode) trades pool := run_afterAll _ orders
  refine ⟨?_, ?_, ?_⟩
  · intro order e hswap
    have hinPlace := swapInPlace_run pool order
    rw [hswap] at hinPlace
    exact ⟨hinPlace, after_of_error hswap⟩
  · have hbalance := hrun.balance .quote
    rwa [show (start design mode).reserve .quote = 0 from rfl, zero_add] at hbalance
  · exact hrun.balance .base

/-- A design whose base does not suffice for its curve. -/
def scarceDesign : CurveDesign :=
  { gappedDesign with supply := ⟨20000, 1000, 0, 0⟩ }

/-- The order in the middle and the one at the end have a preview, but the base reserve cannot pay them. -/
theorem afterAll_balances_of_scarce_base :
    let orders : List Order :=
      [⟨30000, .quoteToBase, false⟩, ⟨60000, .quoteToBase, false⟩, ⟨4000, .baseToQuote, true⟩]
    let pool := (start scarceDesign .outputToken).afterAll orders
    (∃ r, (pool.quote ⟨50000, .quoteToBase, false⟩).result = .ok r) ∧
    (swapInPlace ⟨50000, .quoteToBase, false⟩).run pool = .error (.insufficientLiquidity 16915 4421 12494) pool ∧
    pool.quoteReserve + 7785 + 20 = 30000 ∧
    pool.baseReserve + 20527 + 52 = 20000 + 1000 + 4000 := by
  intro orders pool
  obtain ⟨hrefused, hquote, hbase⟩ := afterAll_balances scarceDesign .outputToken orders
  have hswap : (pool.swap ⟨50000, .quoteToBase, false⟩).result =
      .error (.insufficientLiquidity 16915 4421 12494) := rfl
  exact ⟨⟨_, rfl⟩, (hrefused _ _ hswap).1, hquote, hbase⟩

end Pool

end BondingCurve
