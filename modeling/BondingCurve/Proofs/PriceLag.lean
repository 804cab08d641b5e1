import BondingCurve.Proofs.Runs
import BondingCurve.Proofs.Solvency

/-!
# The price lag of repeated purchases

A purchase pays the charge of the range that it crosses, so purchases that follow each other pay more than a single
one to the same price: each of them rounds anew.  The excess is the lag of the pool (`Pool.lag`).

* (first) from the start price there is no earlier rounding, so the first purchase leaves no lag;
* (step) a purchase cuts the range below its last price at one more price, which costs at most a unit
  (`Ascending.charge_add_le`): the lag grows by at most one, whatever number of slices is crossed
  (`Pool.Solvent.lag_swap_le`);
* (run) so after `m` purchases the lag is at most `m - 1`, and it is never negative, for the pool is solvent
  (`Pool.quoteReserve_lag`).
-/

namespace BondingCurve

namespace Pool

/-- What a single purchase from the start price to the price of a pool costs, rounded up in each slice. -/
def cost (pool : Pool) : Int :=
  Token.quote.charge pool.design.curve.slices pool.design.curve.sqrtStartPrice pool.sqrtPrice

/-- The quote that a pool holds beyond the cost of a single purchase. -/
def lag (pool : Pool) : Int :=
  pool.quoteReserve - pool.cost

variable {pool next last : Pool} {order : Order} {r : SwapResult} {trades : List Trade} {design : CurveDesign}
  {mode : FeeMode}

private theorem Solvent.lag_nonneg (h : pool.Solvent) : 0 ≤ pool.lag :=
  sub_nonneg.mpr h.charge_le

/-- A purchase moves the quote reserve by the charge of its range. -/
private theorem swap_buys (hdirection : order.direction = .quoteToBase)
    (hswap : (pool.swap order).result = .ok (r, next)) :
    next.design = pool.design ∧ pool.sqrtPrice ≤ next.sqrtPrice ∧
      next.quoteReserve = pool.quoteReserve +
        Token.quote.charge pool.design.curve.slices pool.sqrtPrice next.sqrtPrice := by
  rcases swap_cases hswap with ⟨-, hpurchase, rfl⟩ | ⟨hsale, -⟩
  · refine ⟨rfl, hpurchase.le_price, ?_⟩
    rw [hpurchase.cost_eq]
  · rw [hdirection] at hsale
    cases hsale

private theorem lag_first (hdirection : order.direction = .quoteToBase)
    (hswap : ((start design mode).swap order).result = .ok (r, next)) : next.lag = 0 := by
  obtain ⟨hdesign, -, hreserve⟩ := swap_buys hdirection hswap
  -- The fresh pool is at the start price without quote, so the reserve is the charge of one range.
  have hcost : next.cost = 0 + Token.quote.charge design.curve.slices design.curve.sqrtStartPrice next.sqrtPrice := by
    rw [cost, hdesign, zero_add]
    rfl
  exact sub_eq_zero.mpr (hreserve.trans hcost.symm)

namespace Solvent

theorem lag_swap_le (h : pool.Solvent) (hdirection : order.direction = .quoteToBase)
    (hswap : (pool.swap order).result = .ok (r, next)) : next.lag ≤ pool.lag + 1 := by
  obtain ⟨hdesign, hprice, hreserve⟩ := swap_buys hdirection hswap
  -- The last price cuts the range below the next one in two.
  have hcut := pool.design.curve.slices_ascending.charge_add_le Token.quote h.start_le hprice
  simp only [lag, cost, hdesign, hreserve]
  omega

private theorem lag_run_le (h : pool.Solvent) (hrun : Run pool trades last)
    (hbuys : ∀ trade ∈ trades, trade.direction = .quoteToBase) : last.lag ≤ pool.lag + trades.length := by
  induction hrun with
  | nil => simp
  | cons hswap _ ih =>
    obtain ⟨hdirection, hbuys⟩ := List.forall_mem_cons.mp hbuys
    have hhere := h.lag_swap_le hdirection hswap
    have hlater := ih (h.swap hswap) hbuys
    rw [List.length_cons, Nat.cast_succ]
    omega

end Solvent

private theorem Run.lag_le_of_start (hrun : Run (start design mode) trades last) (hmade : trades ≠ [])
    (hbuys : ∀ trade ∈ trades, trade.direction = .quoteToBase) : last.lag ≤ trades.length - 1 := by
  -- Only the purchases after the first add to the lag.
  cases hrun with
  | nil => exact absurd rfl hmade
  | cons hswap hrun =>
    obtain ⟨hdirection, hbuys⟩ := List.forall_mem_cons.mp hbuys
    have hfirst := lag_first hdirection hswap
    have hlater := ((Solvent.start design mode).swap hswap).lag_run_le hrun hbuys
    rw [List.length_cons, Nat.cast_succ]
    omega

/-- If orders make `m` purchases in a fresh pool and no sale, then what a single purchase to the final price would have
cost is at most what the pool has received, and less than that by at most `m - 1` units. -/
theorem quoteReserve_lag (design : CurveDesign) (mode : FeeMode) (orders : List Order)
    (hmade : (start design mode).trades orders ≠ [])
    (hbuys : ∀ trade ∈ (start design mode).trades orders, trade.direction = .quoteToBase) :
    let pool := (start design mode).afterAll orders
    ∃ cost, Token.quote.sumOf .up (design.curve.between design.curve.sqrtStartPrice pool.sqrtPrice) = .ok cost ∧
      pool.quoteReserve - (((start design mode).trades orders).length - 1) ≤ cost ∧ cost ≤ pool.quoteReserve := by
  intro pool
  have hsolvent : pool.Solvent := (Solvent.start design mode).afterAll orders
  have hdesign : pool.design = design := afterAll_design _ orders
  have hnonneg := hsolvent.lag_nonneg
  have hle : pool.lag ≤ ((start design mode).trades orders).length - 1 :=
    (run_afterAll _ orders).lag_le_of_start hmade hbuys
  have hstart := hsolvent.start_le
  simp only [lag, cost, hdesign] at hnonneg hle hstart
  refine ⟨_, Token.quote.sumOf_up design.curve.slices_ascending.valid hstart, ?_, ?_⟩
  · omega
  · omega

/-- A curve on which amounts of quote meet no price exactly. -/
def unevenCurve : Curve where
  sqrtStartPrice := 3 * 2 ^ 62
  segments := [⟨3 * 2 ^ 63, 3 * 2 ^ 78, by decide, by decide⟩]
  start_mem := by decide
  segments_ne_nil := by decide
  length_le := by decide
  increasing := by simp [Increasing]

def unevenDesign : CurveDesign where
  curve := unevenCurve
  migration := ⟨36864, 3 * 2 ^ 63⟩
  supply := ⟨30000, 10000, 0, 0⟩
  totalSupply := 40000
  migrationOption := .constantProduct
  baseDecimals := 6
  quoteDecimals := 9
  vesting := .nothing
  feeNumerator := defaultFeeNumerator

/-- The bound is attained.  The order in the middle is refused. -/
theorem quoteReserve_lag_attained :
    let orders : List Order :=
      [⟨10000, .quoteToBase, false⟩, ⟨60000, .quoteToBase, false⟩, ⟨26865, .quoteToBase, false⟩]
    let pool := (start unevenDesign .outputToken).afterAll orders
    ((start unevenDesign .outputToken).trades orders).length = 2 ∧ pool.quoteReserve = 36865 ∧
    ∃ cost, Token.quote.sumOf .up
        (unevenDesign.curve.between unevenDesign.curve.sqrtStartPrice pool.sqrtPrice) = .ok cost ∧
      pool.quoteReserve - (2 - 1) ≤ cost ∧ cost ≤ pool.quoteReserve ∧ cost = 36864 := by
  intro orders pool
  have htrades : (start unevenDesign .outputToken).trades orders =
      [⟨.quoteToBase, 10000, 10000, 13949, 17588057744757577045, ⟨28, 7, 0⟩, false⟩,
        ⟨.quoteToBase, 26865, 26865, 18736, 27670116110564327424, ⟨38, 9, 0⟩, false⟩] := rfl
  have hcount : ((start unevenDesign .outputToken).trades orders).length = 2 := by rw [htrades]; rfl
  obtain ⟨cost, hcost, hlow, hhigh⟩ :=
    quoteReserve_lag unevenDesign .outputToken orders (by simp [htrades]) (by simp [htrades])
  have hcost_eq : Token.quote.sumOf .up
      (unevenDesign.curve.between unevenDesign.curve.sqrtStartPrice pool.sqrtPrice) = .ok 36864 := rfl
  rw [hcount] at hlow
  exact ⟨hcount, rfl, cost, hcost, hlow, hhigh, Except.ok.inj (hcost.symm.trans hcost_eq)⟩

end Pool

end BondingCurve
