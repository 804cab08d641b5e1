import BondingCurve.Proofs.Reconciliation
import BondingCurve.Proofs.Solvency

/-!
# The migration reserve

The base that is set aside for the migration stays in the pool until the curve is complete.

* (releases) What has been released so far is at most the exact content below the current price, in whatever order
  purchases and sales came (`Pool.Backed`).
* (threshold) A pool with no more quote than the threshold has come no further than the price at the threshold, idle
  ranges aside (`Pool.Solvent.below_threshold`).
* (reserve) Up to there the swap amount backs the releases, and everywhere if it is the capacity of the curve
  (`Pool.migrationAmount_le_baseReserve`).
-/

namespace BondingCurve

namespace Pool

/-- The base that has left a pool since it was fresh. -/
def released (pool : Pool) : Int :=
  pool.design.supply.swapAmount + pool.design.supply.migrationAmount - pool.baseReserve

/-- No more base has left than lies between the start price and the current one. -/
def Backed (pool : Pool) : Prop :=
  (pool.released : ℚ) ≤ Token.base.content pool.design.curve.slices pool.design.curve.sqrtStartPrice pool.sqrtPrice

namespace Backed

theorem start (design : CurveDesign) (mode : FeeMode) : (start design mode).Backed := by
  simp [Backed, released, Pool.start]

variable {pool next : Pool}

/-- A purchase releases no more than the range that it adds. -/
private theorem add_output_le (h : pool.Backed) {amount price output : Int}
    (hpurchase : pool.Purchase amount price output) :
    ((pool.released + output : Int) : ℚ) ≤
      Token.base.content pool.design.curve.slices pool.design.curve.sqrtStartPrice price := by
  have hpayout : (output : ℚ) ≤ Token.base.content pool.design.curve.slices pool.sqrtPrice price := by
    rw [hpurchase.output_eq]
    exact Token.base.payout_le_content
  rw [Int.cast_add, ← Token.base.content_add (b := pool.sqrtPrice)]
  exact add_le_add h hpayout

private theorem sub_amount_le (h : pool.Backed) {amount price output : Int} (hsale : pool.Sale amount price output) :
    ((pool.released - amount : Int) : ℚ) ≤
      Token.base.content pool.design.curve.slices pool.design.curve.sqrtStartPrice price := by
  have hcharge : Token.base.content pool.design.curve.slices price pool.sqrtPrice ≤ amount :=
    Token.base.content_le_charge.trans (by exact_mod_cast hsale.cost_le)
  -- The content below the new price is that below the old one less the range between them.
  rw [Int.cast_sub, ← Token.base.content_add (b := pool.sqrtPrice),
    Token.base.content_neg (a := pool.sqrtPrice) (b := price), ← sub_eq_add_neg]
  exact sub_le_sub h hcharge

theorem step (h : pool.Backed) (hstep : Step pool next) : next.Backed := by
  cases hstep with
  | refused => exact h
  | @bought amount price output hpurchase =>
    have hreleased : pool.design.supply.swapAmount + pool.design.supply.migrationAmount -
        (pool.baseReserve - output) = pool.released + output := by
      unfold released
      omega
    unfold Backed
    rw [released, hreleased]
    exact h.add_output_le hpurchase
  | @sold amount price output hsale =>
    have hreleased : pool.design.supply.swapAmount + pool.design.supply.migrationAmount -
        (pool.baseReserve + amount) = pool.released - amount := by
      unfold released
      omega
    unfold Backed
    rw [released, hreleased]
    exact h.sub_amount_le hsale

theorem afterAll (h : pool.Backed) (orders : List Order) : (pool.afterAll orders).Backed :=
  afterAll_induction (fun _ _ hstep h => h.step hstep) h orders

/-- The releases are at most what a walk to the current price releases, rounded up. -/
theorem released_le_charge (h : pool.Backed) :
    pool.released ≤ Token.base.charge pool.design.curve.slices pool.design.curve.sqrtStartPrice pool.sqrtPrice := by
  exact_mod_cast h.trans Token.base.content_le_charge

/-- No purchase releases more than the capacity of the curve. -/
private theorem add_output_le_capacity (h : pool.Backed) {amount price output capacity : Int}
    (hcapacity : pool.design.curve.baseCapacity.result = .ok capacity)
    (hpurchase : pool.Purchase amount price output) : pool.released + output ≤ capacity :=
  calc pool.released + output
      ≤ Token.base.charge pool.design.curve.slices pool.design.curve.sqrtStartPrice price := by
        exact_mod_cast (h.add_output_le hpurchase).trans Token.base.content_le_charge
    _ ≤ capacity := Curve.charge_le_baseCapacity hcapacity hpurchase.price_le

end Backed

variable {pool : Pool}

/-- With no more quote than the threshold, a pool is not above the price at the threshold, idle ranges aside. -/
theorem Solvent.below_threshold (h : pool.Solvent) {threshold price output : Int}
    (hwalk : Bought pool.design.curve.slices pool.design.curve.sqrtEndPrice
      ⟨pool.design.curve.sqrtStartPrice, threshold, 0⟩ ⟨price, 0, output⟩)
    (hthreshold : pool.quoteReserve ≤ threshold) :
    pool.sqrtPrice ≤ price ∨ price < pool.sqrtPrice ∧ Idle pool.design.curve.slices price pool.sqrtPrice := by
  rcases le_or_gt pool.sqrtPrice price with hle | hlt
  · exact .inl hle
  · rcases hwalk.greatest rfl pool.sqrtPrice hlt with hcost | hidle
    · -- The quote in the pool covers the price, so the price cannot cost more than the threshold.
      exact absurd (hcost.trans_le (h.charge_le.trans hthreshold)) (lt_irrefl _)
    · exact .inr ⟨hlt, hidle⟩

/-- Up to the price of a walk, idle ranges aside, the releases are at most those of the walk. -/
private theorem Backed.released_le_of_below (h : pool.Backed) {price : Int}
    (hbelow : pool.sqrtPrice ≤ price ∨ price < pool.sqrtPrice ∧ Idle pool.design.curve.slices price pool.sqrtPrice) :
    pool.released ≤ Token.base.charge pool.design.curve.slices pool.design.curve.sqrtStartPrice price := by
  rcases hbelow with hle | ⟨hlt, hidle⟩
  · exact h.released_le_charge.trans (Token.base.charge_mono pool.design.curve.slices_ascending.valid hle)
  · rw [← hidle.charge_eq Token.base hlt.le]
    exact h.released_le_charge

/-- A purchase that has a preview is paid if the swap amount is the capacity of the curve. -/
theorem Backed.swap_of_quote (h : pool.Backed)
    (hcapacity : pool.design.curve.baseCapacity.result = .ok pool.design.supply.swapAmount)
    (hmigration : 0 ≤ pool.design.supply.migrationAmount) {order : Order} {r : SwapResult}
    (hdirection : order.direction = .quoteToBase) (hquote : (pool.quote order).result = .ok r) :
    r.baseOut ≤ pool.baseReserve ∧ ∃ next, (pool.swap order).result = .ok (r, next) := by
  have hcovered := h.add_output_le_capacity hcapacity (quote_bought hdirection hquote)
  have hpaid : r.baseOut ≤ pool.baseReserve := by
    unfold released at hcovered
    omega
  exact ⟨hpaid, swap_bought hdirection hquote hpaid⟩

/-- As long as the quote in a pool of a design is no more than the threshold, the migration reserve is untouched, and
the price has not passed the migration price but through an idle range.  If the swap amount is the capacity of the
curve, the reserve is never touched and every purchase that has a preview is paid. -/
theorem migrationAmount_le_baseReserve {design : CurveDesign}
    (hdesign : (∃ m : LinearMarket, m.design.result = .ok design) ∨ ∃ m : GraphMarket, m.design.result = .ok design)
    (mode : FeeMode) (orders : List Order) :
    let pool := (start design mode).afterAll orders
    (pool.quoteReserve ≤ design.migration.quoteAmount →
      design.supply.migrationAmount ≤ pool.baseReserve ∧
      (start design mode).baseReserve - pool.baseReserve ≤ design.supply.swapAmount ∧
      (pool.sqrtPrice ≤ design.migration.sqrtPrice ∨
        ∀ s ∈ design.curve.between design.migration.sqrtPrice pool.sqrtPrice, s.liquidity = 0)) ∧
    (design.curve.baseCapacity.result = .ok design.supply.swapAmount →
      design.supply.migrationAmount ≤ pool.baseReserve ∧
      ∀ (order : Order) (r : SwapResult), order.direction = .quoteToBase → (pool.quote order).result = .ok r →
        r.baseOut ≤ pool.baseReserve ∧ ∃ next, (pool.swap order).result = .ok (r, next)) := by
  intro pool
  have hreconciled : design.Reconciled := by
    rcases hdesign with ⟨m, hm⟩ | ⟨m, hm⟩
    · exact LinearMarket.design_reconciled hm
    · exact GraphMarket.design_reconciled hm
  obtain ⟨_, _, _, _, _, hreconcile⟩ := hreconciled
  obtain ⟨⟨out, hwalk⟩, hswap, hmigration⟩ := reconcile_backing hreconcile
  have hsolvent : pool.Solvent := (Solvent.start design mode).afterAll orders
  have hbacked : pool.Backed := (Backed.start design mode).afterAll orders
  have hsame : pool.design = design := afterAll_design _ orders
  have hreleased : pool.released = (start design mode).baseReserve - pool.baseReserve := by
    rw [released, hsame]
    rfl
  have hfresh : (start design mode).baseReserve = design.supply.swapAmount + design.supply.migrationAmount := rfl
  constructor
  · -- The walk to the threshold bounds the price, and so what has been released.
    intro hthreshold
    rw [← hsame] at hwalk hthreshold
    have hbelow := hsolvent.below_threshold hwalk hthreshold
    have hle := hbacked.released_le_of_below hbelow
    rw [hsame] at hbelow hle
    refine ⟨by omega, by omega, ?_⟩
    rcases hbelow with hprice | ⟨hlt, hidle⟩
    · exact .inl hprice
    · exact .inr ((Token.liquidity_eq_zero_iff design.curve.slices_ascending.valid hlt.le).mpr hidle)
  · -- Here the whole curve is for sale.
    intro hcapacity
    have hle : pool.released ≤ design.supply.swapAmount := by
      have hend := hsolvent.le_end
      have hcharge := hbacked.released_le_charge
      rw [hsame] at hend hcharge
      exact hcharge.trans (Curve.charge_le_baseCapacity hcapacity hend)
    rw [← hsame] at hcapacity hmigration
    refine ⟨by omega, ?_⟩
    intro order r hdirection hquote
    exact hbacked.swap_of_quote hcapacity hmigration hdirection hquote

/-- A market whose design sells all that its curve releases. -/
def sampleMarket : LinearMarket where
  supply := .int 1000000
  migrationPercentage := .int 20
  threshold := .int 100
  option := .int 0
  baseDecimals := 6
  quoteDecimals := 9

theorem migrationAmount_le_baseReserve_after_trades :
    let orders : List Order := [⟨50000000000, .quoteToBase, false⟩, ⟨1000000, .baseToQuote, true⟩]
    ∃ design, sampleMarket.design.result = .ok design ∧
      design.curve.baseCapacity.result = .ok design.supply.swapAmount ∧
      ((start design .quoteToken).afterAll orders).quoteReserve ≤ design.migration.quoteAmount ∧
      design.supply.migrationAmount ≤ ((start design .quoteToken).afterAll orders).baseReserve := by
  intro orders
  have h : (match sampleMarket.design.result with
      | .ok design =>
        decide (design.curve.baseCapacity.result.toOption = some design.supply.swapAmount ∧
          ((start design .quoteToken).afterAll orders).quoteReserve ≤ design.migration.quoteAmount)
      | .error _ => false) = true := by decide +kernel
  cases hdesign : sampleMarket.design.result with
  | error e =>
    rw [hdesign] at h
    cases h
  | ok design =>
    rw [hdesign] at h
    obtain ⟨hcapacity, hthreshold⟩ := of_decide_eq_true h
    have hkept := migrationAmount_le_baseReserve (.inl ⟨sampleMarket, hdesign⟩) .quoteToken orders
    rw [design.curve.baseCapacity_result] at hcapacity
    refine ⟨design, rfl, ?_, hthreshold, (hkept.1 hthreshold).1⟩
    rw [design.curve.baseCapacity_result, Option.some.inj hcapacity]

end Pool

end BondingCurve
