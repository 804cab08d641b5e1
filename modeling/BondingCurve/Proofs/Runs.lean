import BondingCurve.Proofs.Arbitrage
import BondingCurve.Proofs.Settlement

/-!
# Runs of a pool

Of the orders that reach a pool some are refused, the others make trades (`Pool.trades`).  A run is a sequence of
trades, each of them made by the pool that the one before has left (`Pool.Run`).

Refused orders leave no trace: orders lead to the pool at the end of the run of their trades (`Pool.run_afterAll`).
So what orders come to is read off runs, by induction on them.
-/

namespace BondingCurve

namespace Pool

variable {pool next : Pool} {order : Order} {r : SwapResult}

/-- The trades that orders make, one after the other; a refused order makes none. -/
def trades (pool : Pool) : List Order → List Trade
  | [] => []
  | order :: orders =>
    match (pool.swap order).result with
    | .ok (r, next) => ⟨order.direction, r⟩ :: next.trades orders
    | .error _ => pool.trades orders

theorem trades_cons_of_ok (h : (pool.swap order).result = .ok (r, next)) (orders : List Order) :
    pool.trades (order :: orders) = ⟨order.direction, r⟩ :: next.trades orders := by
  simp only [trades, h]

theorem trades_cons_of_error {e : CurveError} (h : (pool.swap order).result = .error e) (orders : List Order) :
    pool.trades (order :: orders) = pool.trades orders := by
  simp only [trades, h]

/-- Trades that follow each other, from one pool to another. -/
inductive Run : Pool → List Trade → Pool → Prop
  | nil (pool : Pool) : Run pool [] pool
  | cons {pool next last : Pool} {order : Order} {r : SwapResult} {trades : List Trade}
      (hswap : (pool.swap order).result = .ok (r, next)) (hrun : Run next trades last) :
      Run pool (⟨order.direction, r⟩ :: trades) last

/-- Orders lead to the end of the run of their trades. -/
theorem run_afterAll (pool : Pool) (orders : List Order) : Run pool (pool.trades orders) (pool.afterAll orders) := by
  induction orders generalizing pool with
  | nil => exact .nil pool
  | cons order orders ih =>
    rw [afterAll_cons]
    cases hswap : (pool.swap order).result with
    | error e =>
      rw [trades_cons_of_error hswap, after_of_error hswap]
      exact ih pool
    | ok outcome =>
      obtain ⟨r, next⟩ := outcome
      rw [trades_cons_of_ok hswap, after_of_ok hswap]
      exact .cons hswap (ih next)

end Pool

end BondingCurve
