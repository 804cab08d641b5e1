import BondingCurve.Pool
import BondingCurve.Proofs.Trades

/-!
# What an order does to a pool

An order is refused, or settles one purchase or one sale on the curve, fee aside: `Pool.Step` says so, and
`Pool.step_after` that there is no other case.  A property that every step keeps holds after any orders
(`Pool.afterAll_induction`).
-/

namespace BondingCurve

/-- The curve pays what a trade takes from it, with the fee if that is not on the input. -/
theorem Executed.output_eq_baseOut {curve : Curve} {price amount : Int} {direction : TradeDirection} {mode : FeeMode}
    {r : SwapResult} {fill : Fill} (h : Executed curve price amount direction mode r fill) :
    fill.output = r.baseOut := by
  have houtput := h.output
  unfold SwapResult.baseOut
  split at houtput <;> simp_all

namespace Pool

/-- A purchase on the curve of a pool, from its price to a next one. -/
def Purchase (pool : Pool) (amount next output : Int) : Prop :=
  Bought pool.design.curve.slices pool.design.curve.sqrtEndPrice ⟨pool.sqrtPrice, amount, 0⟩ ⟨next, 0, output⟩

/-- A sale on the curve of a pool, from its price to a next one. -/
def Sale (pool : Pool) (amount next output : Int) : Prop :=
  Sold pool.design.curve.slices pool.design.curve.sqrtStartPrice ⟨pool.sqrtPrice, amount, 0⟩ ⟨next, 0, output⟩

/-- The step from a pool to the next. -/
inductive Step (pool : Pool) : Pool → Prop
  | refused : Step pool pool
  | bought {amount next output : Int} (h : pool.Purchase amount next output) :
      Step pool { pool with
        sqrtPrice := next
        baseReserve := pool.baseReserve - output
        quoteReserve := pool.quoteReserve + amount }
  | sold {amount next output : Int} (h : pool.Sale amount next output) :
      Step pool { pool with
        sqrtPrice := next
        baseReserve := pool.baseReserve + amount
        quoteReserve := pool.quoteReserve - output }

variable {pool next : Pool} {order : Order} {r : SwapResult}

/-- The preview of a purchase is a purchase on the curve. -/
theorem quote_bought (hdirection : order.direction = .quoteToBase) (h : (pool.quote order).result = .ok r) :
    pool.Purchase r.actualInput r.nextSqrtPrice r.baseOut := by
  obtain ⟨fill, hexec⟩ := executed_of_simulateSwap h
  rw [hdirection] at hexec
  obtain ⟨-, -, hbought⟩ := hexec.bought
  rwa [hexec.output_eq_baseOut] at hbought

theorem quote_sold (hdirection : order.direction = .baseToQuote) (h : (pool.quote order).result = .ok r) :
    pool.Sale r.actualInput r.nextSqrtPrice r.quoteOut := by
  obtain ⟨fill, hexec⟩ := executed_of_simulateSwap h
  rw [hdirection] at hexec
  have hfee : r.feeOnInput = false := hexec.feeOnInput
  have hout : fill.output = r.quoteOut := by
    have houtput := hexec.output
    rw [hfee] at houtput
    exact houtput
  obtain ⟨-, -, hsold⟩ := hexec.sold
  rwa [hout] at hsold

/-- A purchase that the base reserve pays is made. -/
theorem swap_bought (hdirection : order.direction = .quoteToBase) (h : (pool.quote order).result = .ok r)
    (hpaid : r.baseOut ≤ pool.baseReserve) : ∃ next, (pool.swap order).result = .ok (r, next) := by
  have hnot : ¬ pool.baseReserve < r.baseOut := by omega
  simp [swap, settle, h, hdirection, hnot]

theorem swap_sold (hdirection : order.direction = .baseToQuote) (h : (pool.quote order).result = .ok r)
    (hpaid : r.quoteOut ≤ pool.quoteReserve) : ∃ next, (pool.swap order).result = .ok (r, next) := by
  have hnot : ¬ pool.quoteReserve < r.quoteOut := by omega
  simp [swap, settle, h, hdirection, hnot]

theorem swap_eq_ok_iff : (pool.swap order).result = .ok (r, next) ↔
    (pool.quote order).result = .ok r ∧ pool.settle order.direction r = .ok next := by
  simp only [swap, Traced.result_bind, Traced.result_liftM, bind_eq_ok_iff]
  constructor
  · rintro ⟨_, hquote, _, hsettle, ⟨⟩⟩
    exact ⟨hquote, hsettle⟩
  · rintro ⟨hquote, hsettle⟩
    exact ⟨r, hquote, next, hsettle, rfl⟩

/-- What a trade does to the pool that makes it. -/
theorem swap_cases (h : (pool.swap order).result = .ok (r, next)) :
    (order.direction = .quoteToBase ∧ pool.Purchase r.actualInput r.nextSqrtPrice r.baseOut ∧
      next = { pool with
        sqrtPrice := r.nextSqrtPrice
        baseReserve := pool.baseReserve - r.baseOut
        quoteReserve := pool.quoteReserve + r.actualInput }) ∨
    (order.direction = .baseToQuote ∧ pool.Sale r.actualInput r.nextSqrtPrice r.quoteOut ∧
      next = { pool with
        sqrtPrice := r.nextSqrtPrice
        baseReserve := pool.baseReserve + r.actualInput
        quoteReserve := pool.quoteReserve - r.quoteOut }) := by
  obtain ⟨hquote, hsettle⟩ := swap_eq_ok_iff.mp h
  cases hdirection : order.direction with
  | quoteToBase =>
    simp only [settle, hdirection, ite_error_eq_ok_iff] at hsettle
    obtain ⟨-, ⟨⟩⟩ := hsettle
    exact .inl ⟨rfl, quote_bought hdirection hquote, rfl⟩
  | baseToQuote =>
    simp only [settle, hdirection, ite_error_eq_ok_iff] at hsettle
    obtain ⟨-, ⟨⟩⟩ := hsettle
    exact .inr ⟨rfl, quote_sold hdirection hquote, rfl⟩

theorem after_of_ok (h : (pool.swap order).result = .ok (r, next)) : pool.after order = next := by
  simp [after, h]

/-- An order is refused, or settles a purchase or a sale. -/
theorem step_after (pool : Pool) (order : Order) : Step pool (pool.after order) := by
  cases hswap : (pool.swap order).result with
  | error e =>
    rw [after_of_error hswap]
    exact .refused
  | ok outcome =>
    obtain ⟨r, next⟩ := outcome
    rw [after_of_ok hswap]
    rcases swap_cases hswap with ⟨-, hpurchase, rfl⟩ | ⟨-, hsale, rfl⟩
    · exact .bought hpurchase
    · exact .sold hsale

/-- What every step keeps holds after any orders. -/
theorem afterAll_induction {P : Pool → Prop} (hstep : ∀ pool next, Step pool next → P pool → P next)
    (hstart : P pool) (orders : List Order) : P (pool.afterAll orders) := by
  induction orders generalizing pool with
  | nil => exact hstart
  | cons order orders ih =>
    rw [afterAll_cons]
    exact ih (hstep _ _ (pool.step_after order) hstart)

theorem Step.design_eq (h : Step pool next) : next.design = pool.design := by
  cases h <;> rfl

theorem afterAll_design (pool : Pool) (orders : List Order) : (pool.afterAll orders).design = pool.design :=
  afterAll_induction (P := fun next => next.design = pool.design)
    (fun _ _ hstep h => hstep.design_eq.trans h) rfl orders

end Pool

end BondingCurve
