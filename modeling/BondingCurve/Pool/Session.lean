import BondingCurve.Pool

/-!
# Sessions with a pool

A session is a list of steps on one pool: trades, previews, and assignments to its price and reserves. A step that
fails leaves the pool as it was, and the session goes on.

* `PoolStep.perform` is one step, `Pool.session` the reports of all steps;
* `Pool.last_session` shows that a session of trades ends in the pool that `Pool.afterAll` names.
-/

namespace BondingCurve

/-- A step of a session; a direction is given by its name. -/
inductive PoolStep
  | swap (amount : Int) (direction : String) (referral : Bool)
  | quote (amount : Int) (direction : String) (referral : Bool)
  /-- Sets the given parts of the state. -/
  | assign (sqrtPrice baseReserve quoteReserve : Option Int)

/-- The order of a direction by its name. -/
def Order.ofName (amount : Int) (direction : String) (referral : Bool) : Except CurveError Order := do
  pure ⟨amount, ← TradeDirection.ofName direction, referral⟩

/-- What a step shows, and the pool after it. -/
structure StepReport where
  /-- The outcome of a trade or preview; nothing after an assignment. -/
  outcome : Option (Except CurveError SwapResult)
  pool : Pool

namespace PoolStep

/-- The outcome of a step and the pool that it leaves if it succeeds. -/
def perform (pool : Pool) : PoolStep → Traced (Option SwapResult × Pool)
  | swap amount direction referral => do
    let (r, next) ← pool.swap (← Order.ofName amount direction referral)
    pure (some r, next)
  | quote amount direction referral => do
    let r ← pool.quote (← Order.ofName amount direction referral)
    pure (some r, pool)
  | assign sqrtPrice baseReserve quoteReserve =>
    pure (none, { pool with
      sqrtPrice := sqrtPrice.getD pool.sqrtPrice
      baseReserve := baseReserve.getD pool.baseReserve
      quoteReserve := quoteReserve.getD pool.quoteReserve })

/-- The report of a step. -/
def report (pool : Pool) (step : PoolStep) : StepReport :=
  match (step.perform pool).result with
  | .ok (outcome, next) => ⟨outcome.map .ok, next⟩
  | .error e => ⟨some (.error e), pool⟩

end PoolStep

namespace Pool

/-- The events and reports of the steps of a session. -/
def session (pool : Pool) : List PoolStep → List Event × List StepReport
  | [] => ([], [])
  | step :: rest =>
    let report := step.report pool
    let (events, reports) := report.pool.session rest
    ((step.perform pool).events ++ events, report :: reports)

/-- The step of an order. -/
def stepOf (order : Order) : PoolStep :=
  .swap order.amount order.direction.name order.referral

private theorem ofName_name (order : Order) :
    Order.ofName order.amount order.direction.name order.referral = .ok order := by
  obtain ⟨amount, direction, referral⟩ := order
  cases direction <;> rfl

/-- The step of an order leaves the pool that follows the order. -/
theorem report_stepOf (pool : Pool) (order : Order) : ((stepOf order).report pool).pool = pool.after order := by
  have h : ((stepOf order).perform pool).result = (pool.swap order).result.map fun r => (some r.1, r.2) := by
    simp only [stepOf, PoolStep.perform, Traced.result_bind, Traced.result_liftM, ofName_name, ok_bind]
    cases (pool.swap order).result <;> rfl
  unfold PoolStep.report Pool.after
  rw [h]
  cases (pool.swap order).result <;> rfl

/-- A session of orders reports, after each of them, the pool that follows. -/
theorem last_session (pool : Pool) (orders : List Order) :
    (((pool.session (orders.map stepOf)).2.map StepReport.pool).getLast?).getD pool = pool.afterAll orders := by
  induction orders generalizing pool with
  | nil => rfl
  | cons order orders ih =>
    simp only [List.map_cons, session, afterAll_cons, report_stepOf]
    rw [← ih (pool.after order)]
    cases ((pool.after order).session (orders.map stepOf)).2 <;> simp [List.getLast?_cons]

end Pool
end BondingCurve
