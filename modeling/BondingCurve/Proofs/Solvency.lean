import BondingCurve.Proofs.Settlement

/-!
# Quote solvency

The quote in a pool covers, rounded up in each slice, what it costs to come from the start price to the current one
(`Pool.Solvent`).  A purchase adds exactly the charge of the range it crosses, and charges of two parts exceed the
charge of the whole; a sale takes the payout of its range, which the charge of the whole leaves over
(`Pool.Solvent.step`).

So no sale is refused for want of quote (`Pool.quoteReserve_covers_price`).
-/

namespace BondingCurve

namespace Pool

/-- The price is on the curve, and the quote covers the charge from the start price. -/
structure Solvent (pool : Pool) : Prop where
  start_le : pool.design.curve.sqrtStartPrice ≤ pool.sqrtPrice
  le_end : pool.sqrtPrice ≤ pool.design.curve.sqrtEndPrice
  charge_le :
    Token.quote.charge pool.design.curve.slices pool.design.curve.sqrtStartPrice pool.sqrtPrice ≤ pool.quoteReserve

namespace Solvent

theorem start (design : CurveDesign) (mode : FeeMode) : (start design mode).Solvent where
  start_le := le_rfl
  le_end := design.curve.slices_ascending.le
  charge_le := by simp [Pool.start]

variable {pool next : Pool}

theorem quoteReserve_nonneg (h : pool.Solvent) : 0 ≤ pool.quoteReserve :=
  (Token.quote.charge_nonneg pool.design.curve.slices_ascending.valid h.start_le).trans h.charge_le

/-- A sale leaves the charge of the range that remains. -/
private theorem charge_add_output_le (h : pool.Solvent) {amount price output : Int}
    (hsale : pool.Sale amount price output) :
    Token.quote.charge pool.design.curve.slices pool.design.curve.sqrtStartPrice price + output ≤
      pool.quoteReserve := by
  rw [hsale.output_eq]
  exact Token.quote.charge_add_payout_le.trans h.charge_le

theorem step (h : pool.Solvent) (hstep : Step pool next) : next.Solvent := by
  cases hstep with
  | refused => exact h
  | @bought amount price output hpurchase =>
    refine ⟨h.start_le.trans hpurchase.le_price, hpurchase.price_le, ?_⟩
    calc Token.quote.charge pool.design.curve.slices pool.design.curve.sqrtStartPrice price
        ≤ Token.quote.charge pool.design.curve.slices pool.design.curve.sqrtStartPrice pool.sqrtPrice +
            Token.quote.charge pool.design.curve.slices pool.sqrtPrice price := Token.quote.charge_le_add
      _ ≤ pool.quoteReserve + amount := add_le_add h.charge_le hpurchase.cost_eq.le
  | @sold amount price output hsale =>
    refine ⟨hsale.le_price, hsale.price_le.trans h.le_end, ?_⟩
    exact le_sub_iff_add_le.mpr (h.charge_add_output_le hsale)

theorem swap (h : pool.Solvent) {order : Order} {r : SwapResult} (hswap : (pool.swap order).result = .ok (r, next)) :
    next.Solvent := by
  rw [← after_of_ok hswap]
  exact h.step (pool.step_after order)

theorem afterAll (h : pool.Solvent) (orders : List Order) : (pool.afterAll orders).Solvent :=
  afterAll_induction (fun _ _ hstep h => h.step hstep) h orders

/-- A sale that has a preview is paid. -/
theorem swap_of_quote (h : pool.Solvent) {order : Order} {r : SwapResult} (hdirection : order.direction = .baseToQuote)
    (hquote : (pool.quote order).result = .ok r) :
    r.quoteOut ≤ pool.quoteReserve ∧ ∃ next, (pool.swap order).result = .ok (r, next) := by
  have hsale := quote_sold hdirection hquote
  have hleft := h.charge_add_output_le hsale
  have hcharge : 0 ≤ Token.quote.charge pool.design.curve.slices pool.design.curve.sqrtStartPrice r.nextSqrtPrice :=
    Token.quote.charge_nonneg pool.design.curve.slices_ascending.valid hsale.le_price
  have hpaid : r.quoteOut ≤ pool.quoteReserve := by omega
  exact ⟨hpaid, swap_sold hdirection hquote hpaid⟩

end Solvent

/-- Whatever orders came in since a pool was fresh, its price is on the curve, its quote covers the quote below that
price, rounded up in each slice, and every sale that has a preview is paid. -/
theorem quoteReserve_covers_price (design : CurveDesign) (mode : FeeMode) (orders : List Order) :
    let pool := (start design mode).afterAll orders
    design.curve.sqrtStartPrice ≤ pool.sqrtPrice ∧ pool.sqrtPrice ≤ design.curve.sqrtEndPrice ∧
    (∃ cost, Token.quote.sumOf .up (design.curve.between design.curve.sqrtStartPrice pool.sqrtPrice) = .ok cost ∧
      cost ≤ pool.quoteReserve) ∧
    0 ≤ pool.quoteReserve ∧
    ∀ (order : Order) (r : SwapResult), order.direction = .baseToQuote → (pool.quote order).result = .ok r →
      r.quoteOut ≤ pool.quoteReserve ∧ ∃ next, (pool.swap order).result = .ok (r, next) := by
  intro pool
  have hsolvent : pool.Solvent := (Solvent.start design mode).afterAll orders
  have hdesign : pool.design = design := afterAll_design _ orders
  have hstart := hsolvent.start_le
  have hend := hsolvent.le_end
  have hcharge := hsolvent.charge_le
  rw [hdesign] at hstart hend hcharge
  have hcost := Token.quote.sumOf_up design.curve.slices_ascending.valid hstart
  refine ⟨hstart, hend, ⟨_, hcost, hcharge⟩, hsolvent.quoteReserve_nonneg, ?_⟩
  intro order r hdirection hquote
  exact hsolvent.swap_of_quote hdirection hquote

/-- A design on a curve with an idle segment. -/
def gappedDesign : CurveDesign where
  curve := .gapped
  migration := ⟨70000, 3 * 2 ^ 64⟩
  supply := ⟨60000, 10000, 0, 0⟩
  totalSupply := 70000
  migrationOption := .constantProduct
  baseDecimals := 6
  quoteDecimals := 9
  vesting := .nothing
  feeNumerator := defaultFeeNumerator

theorem quoteReserve_covers_price_after_purchase :
    let pool := (start gappedDesign .outputToken).afterAll [⟨70000, .quoteToBase, false⟩]
    ∃ r next, r.quoteOut = 69739 ∧ (pool.swap ⟨33000, .baseToQuote, true⟩).result = .ok (r, next) := by
  intro pool
  have hcovered := quoteReserve_covers_price gappedDesign .outputToken [⟨70000, .quoteToBase, false⟩]
  have hquote : (pool.quote ⟨33000, .baseToQuote, true⟩).result =
      .ok ⟨33000, 33000, 69564, 18519935346517596929, ⟨140, 28, 7⟩, false⟩ := rfl
  obtain ⟨-, next, hswap⟩ := hcovered.2.2.2.2 _ _ rfl hquote
  exact ⟨_, next, rfl, hswap⟩

end Pool

end BondingCurve
