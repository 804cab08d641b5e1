import BondingCurve.Proofs.MigrationReserve

/-!
# Selling back what was released

Whoever holds the base that has left a pool can sell it back to the curve.

* (walk) The releases are at most the content below the price (`Pool.Backed`), so a sale of no more than them never
  runs past the start price (`Pool.Backed.sale_result`).
* (reserve) The quote covers what such a sale pays (`Pool.Solvent`), so all that can stand against it is a payment
  wider than the ledger holds (`Pool.sale_of_released`).
-/

namespace BondingCurve

namespace Pool

variable {pool : Pool} {amount : Int}

/-- A sale of base that was released ends on the curve with nothing left. -/
theorem Backed.sale_result (h : pool.Backed) (hsolvent : pool.Solvent) (hamount : 0 ≤ amount)
    (hheld : amount ≤ pool.released) :
    ∃ price output, pool.Sale amount price output ∧
      (pool.design.curve.sell pool.sqrtPrice amount).result = Progress.finish amount ⟨price, 0, output⟩ := by
  obtain ⟨⟨price, left, output⟩, hsold, hresult⟩ :=
    pool.design.curve.sell_result hsolvent.start_le hsolvent.le_end hamount
  have hcovered := h.released_le_charge
  -- A sale with base left has crossed all that was released.
  have hzero : left = 0 := by
    by_contra hleft
    have hstart : price = pool.design.curve.sqrtStartPrice := hsold.exhausted.resolve_left hleft
    have hspent : left + Token.base.charge pool.design.curve.slices price pool.sqrtPrice = amount := hsold.spent hleft
    have hnonneg : 0 ≤ left := hsold.left_nonneg
    rw [hstart] at hspent
    omega
  subst hzero
  exact ⟨price, output, hsold, hresult⟩

section Fee

variable (hfee : 0 ≤ pool.design.feeNumerator ∧ pool.design.feeNumerator ≤ maxFeeNumerator) (hamount : IsU64 amount)
  (referral : Bool)
include hfee hamount

private theorem quote_of_sell {fill : Fill} (h : (pool.design.curve.sell pool.sqrtPrice amount).result = .ok fill) :
    ∃ r, (pool.quote ⟨amount, .baseToQuote, referral⟩).result = .ok r := by
  -- No fee is taken from what a seller hands in.
  have htrade : (pool.design.curve.trade pool.sqrtPrice
      (lessFee (feeOnInput .baseToQuote pool.mode) pool.design.feeNumerator amount) .baseToQuote).result = .ok fill := h
  obtain ⟨r, hr, -⟩ := simulateSwap_of_trade hfee hamount referral htrade
  exact ⟨r, hr⟩

private theorem swap_of_sell_error {e : CurveError}
    (h : (pool.design.curve.sell pool.sqrtPrice amount).result = .error e) :
    (pool.swap ⟨amount, .baseToQuote, referral⟩).result = .error e := by
  have hquote : (pool.quote ⟨amount, .baseToQuote, referral⟩).result = .error e :=
    simulateSwap_of_trade_error hfee hamount referral h
  simp [swap, hquote]

end Fee

/-- Whatever orders came in since a pool was fresh, as much base as has left it can be sold back: such a sale is made,
unless it would pay more quote than the ledger holds. -/
theorem sale_of_released (design : CurveDesign)
    (hfee : 0 ≤ design.feeNumerator ∧ design.feeNumerator ≤ maxFeeNumerator) (mode : FeeMode) (orders : List Order) :
    let pool := (start design mode).afterAll orders
    ∀ (amount : Int) (referral : Bool), 0 ≤ amount → amount ≤ min pool.released u64Max →
      (∃ r next, (pool.swap ⟨amount, .baseToQuote, referral⟩).result = .ok (r, next)) ∨
      ∃ price output, design.curve.sqrtStartPrice ≤ price ∧
        Token.quote.sumOf .down (design.curve.between price pool.sqrtPrice) = .ok output ∧ u64Max < output ∧
        (pool.swap ⟨amount, .baseToQuote, referral⟩).result = .error (.tooWide "output_amount" output 64) := by
  intro pool amount referral hamount hheld
  have hsolvent : pool.Solvent := (Solvent.start design mode).afterAll orders
  have hbacked : pool.Backed := (Backed.start design mode).afterAll orders
  have hdesign : pool.design = design := afterAll_design _ orders
  obtain ⟨hreleased, hfits⟩ := le_min_iff.mp hheld
  obtain ⟨price, output, hsale, hsell⟩ := hbacked.sale_result hsolvent hamount hreleased
  have hpayout : output = Token.quote.payout pool.design.curve.slices price pool.sqrtPrice := hsale.output_eq
  have hnonneg : 0 ≤ output := by
    rw [hpayout]
    exact Token.quote.payout_nonneg pool.design.curve.slices_ascending.valid hsale.price_le
  rw [← hdesign] at hfee
  rcases le_or_gt output u64Max with hnarrow | hwide
  · left
    have hfill := hsell.trans (Progress.finish_eq_ok_iff.mpr ⟨rfl, ⟨hnonneg, hnarrow⟩, rfl⟩)
    obtain ⟨r, hquote⟩ := quote_of_sell hfee ⟨hamount, hfits⟩ referral hfill
    obtain ⟨-, next, hswap⟩ := hsolvent.swap_of_quote rfl hquote
    exact ⟨r, next, hswap⟩
  · right
    have hfailed : Progress.finish amount ⟨price, 0, output⟩ = .error (.tooWide "output_amount" output 64) := by
      simp [Progress.finish, checkedU64_of_lt hwide]
    have hswap := swap_of_sell_error hfee ⟨hamount, hfits⟩ referral (hsell.trans hfailed)
    have hsum := Token.quote.sumOf_down pool.design.curve.slices_ascending.valid hsale.price_le
    rw [← hpayout] at hsum
    rw [← hdesign]
    exact ⟨price, output, hsale.le_price, hsum, hwide, hswap⟩

/-- The whole of a purchase can be sold back. -/
theorem sale_of_released_after_purchase :
    let pool := (start gappedDesign .outputToken).afterAll [⟨70000, .quoteToBase, false⟩]
    0 < pool.released ∧ ∃ r next, (pool.swap ⟨pool.released, .baseToQuote, true⟩).result = .ok (r, next) := by
  intro pool
  have hpositive : 0 < pool.released := by decide +kernel
  have hfits : pool.released ≤ u64Max := by decide +kernel
  have hsold := sale_of_released gappedDesign ⟨by decide, by decide⟩ .outputToken [⟨70000, .quoteToBase, false⟩]
    pool.released true hpositive.le (le_min le_rfl hfits)
  refine ⟨hpositive, ?_⟩
  rcases hsold with hsold | ⟨price, output, -, -, -, hrefused⟩
  · exact hsold
  · have hnarrow : (pool.swap ⟨pool.released, .baseToQuote, true⟩).result.isOk = true := by decide +kernel
    rw [hrefused] at hnarrow
    cases hnarrow

end Pool

end BondingCurve
