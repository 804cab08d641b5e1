import BondingCurve.Proofs.Reconciliation

/-!
# Swap amounts

The base released up to a price grows with the price, from nothing at the start price to the capacity of the curve
(`Ascending.charge_of_le`, `Ascending.charge_of_ge`).

* (threshold) More quote takes a walk further, or back to the other side of an idle range, which releases nothing.  So
  the base released below the price at a threshold grows with the threshold (`Bought.charge_le_of_le`).
* (padding) The padded amount grows with the base and the padding, and the cap keeps this order
  (`Curve.paddedCharge_mono`).  Padding never takes anything away, so a swap amount lies between the base released and
  the capacity (`Curve.swapAmount_mono`).
-/

namespace BondingCurve

open Token (base quote)

section Walks

variable {slices : List Slice} {low high p : Int}

/-- Below their lowest price slices charge nothing. -/
theorem Ascending.charge_of_le (h : Ascending low slices high) (t : Token) (hp : p ≤ low) :
    t.charge slices low p = 0 := by
  rw [t.charge_congr (fun _ _ => rfl) (h.clamp_eq hp), t.charge_self]

/-- Above their highest price slices charge nothing more. -/
theorem Ascending.charge_of_ge (h : Ascending low slices high) (t : Token) (hp : high ≤ p) :
    t.charge slices low p = t.charge slices low high := by
  have hclamp := h.reverse.clamp_eq hp
  exact t.charge_congr (fun _ _ => rfl) fun s hs => hclamp s (List.mem_reverse.mpr hs)

/-- A walk with more quote crosses at least what a walk with less crosses. -/
theorem Bought.charge_le_of_le {start small large priceSmall priceLarge outSmall outLarge : Int}
    (hv : ∀ s ∈ slices, s.Valid) (hsmall : Bought slices high ⟨start, small, 0⟩ ⟨priceSmall, 0, outSmall⟩)
    (hlarge : Bought slices high ⟨start, large, 0⟩ ⟨priceLarge, 0, outLarge⟩) (hle : small ≤ large) (t : Token) :
    t.charge slices start priceSmall ≤ t.charge slices start priceLarge := by
  rcases le_or_gt priceSmall priceLarge with hprice | hprice
  · exact t.charge_mono hv hprice
  · rcases hlarge.greatest rfl priceSmall hprice with hmore | hidle
    · -- The smaller amount cannot pay for a price that the larger one cannot pay for.
      have hcost := hsmall.cost_eq
      have hmore' : large < quote.charge slices start priceSmall := hmore
      omega
    · rw [hidle.charge_eq t hprice.le]

end Walks

namespace Curve

variable {curve : Curve} {price price' buffer buffer' : Int}

/-- No target releases more than the capacity, on the curve or beyond it. -/
private theorem charge_le_capacity (curve : Curve) (target : Int) :
    base.charge curve.slices curve.sqrtStartPrice target ≤
      base.charge curve.slices curve.sqrtStartPrice maxSqrtPrice := by
  rcases le_total target curve.sqrtEndPrice with hle | hge
  · exact charge_le_baseCapacity curve.baseCapacity_result hle
  · rw [curve.slices_ascending.charge_of_ge base hge]
    exact charge_le_baseCapacity curve.baseCapacity_result le_rfl

theorem paddedCharge_mono (hstart : curve.sqrtStartPrice ≤ price)
    (hcharge : base.charge curve.slices curve.sqrtStartPrice price ≤
      base.charge curve.slices curve.sqrtStartPrice price')
    (hbuffer : 0 ≤ buffer) (hle : buffer ≤ buffer') :
    curve.paddedCharge price buffer ≤ curve.paddedCharge price' buffer' := by
  have hnonneg : 0 ≤ base.charge curve.slices curve.sqrtStartPrice price :=
    base.charge_nonneg curve.slices_ascending.valid hstart
  have hproduct : base.charge curve.slices curve.sqrtStartPrice price * buffer ≤
      base.charge curve.slices curve.sqrtStartPrice price' * buffer' :=
    mul_le_mul hcharge hle hbuffer (hnonneg.trans hcharge)
  have hpad := Int.ediv_le_ediv (by decide : (0 : Int) < 100) hproduct
  exact min_le_min (add_le_add hcharge hpad) le_rfl

/-- The base released up to a target grows with the target, from nothing at the start price to the capacity at the end
price.  So the swap amount of a supply lies between the base released at its threshold and the capacity of the curve,
and a larger threshold with a larger padding never makes it smaller. -/
theorem swapAmount_mono (curve : Curve) :
    (∀ target target', target ≤ target' →
      ∃ released released' capacity, (curve.baseReleased target).result = .ok released ∧
        (curve.baseReleased target').result = .ok released' ∧ curve.baseCapacity.result = .ok capacity ∧
        released ≤ released' ∧ released' ≤ capacity ∧
        (target ≤ curve.sqrtStartPrice → released = 0) ∧ (curve.sqrtEndPrice ≤ target' → released' = capacity)) ∧
    (∀ threshold vesting (option : MigrationOption) leftover buffer b,
      (reconstructSupply curve threshold vesting option leftover buffer).result = .ok b →
      ∃ price released capacity, (curve.thresholdPrice threshold).result = .ok price ∧
        (curve.baseReleased price).result = .ok released ∧ curve.baseCapacity.result = .ok capacity ∧
        released ≤ b.swapAmount ∧ b.swapAmount ≤ capacity) ∧
    ∀ threshold threshold' vesting vesting' (option option' : MigrationOption) leftover leftover' buffer buffer' b b',
      threshold ≤ threshold' → buffer ≤ buffer' →
      (reconstructSupply curve threshold vesting option leftover buffer).result = .ok b →
      (reconstructSupply curve threshold' vesting' option' leftover' buffer').result = .ok b' →
      b.swapAmount ≤ b'.swapAmount := by
  have hascending := curve.slices_ascending
  refine ⟨?_, ?_, ?_⟩
  · intro target target' hle
    refine ⟨_, _, _, curve.baseReleased_result target, curve.baseReleased_result target', curve.baseCapacity_result,
      base.charge_mono hascending.valid hle, curve.charge_le_capacity target', ?_, ?_⟩
    · intro hstart
      exact hascending.charge_of_le base hstart
    · intro hend
      rw [hascending.charge_of_ge base hend, hascending.charge_of_ge base curve.sqrtEndPrice_le]
  · intro threshold vesting option leftover buffer b hb
    obtain ⟨price, hreconstructed⟩ := reconstructed_of_reconstructSupply hb
    obtain ⟨out, hbought⟩ := bought_of_thresholdPrice hreconstructed.threshold_price
    have hmax : price ≤ maxSqrtPrice := hbought.price_le.trans curve.sqrtEndPrice_le
    refine ⟨price, _, _, hreconstructed.threshold_price, curve.baseReleased_result price, curve.baseCapacity_result,
      hreconstructed.charge_le_swapAmount hbought.le_price hmax, ?_⟩
    rw [hreconstructed.swap_eq]
    exact min_le_right _ _
  · intro threshold threshold' vesting vesting' option option' leftover leftover' buffer buffer' b b' hthreshold hbuffer
      hb hb'
    obtain ⟨price, hreconstructed⟩ := reconstructed_of_reconstructSupply hb
    obtain ⟨price', hreconstructed'⟩ := reconstructed_of_reconstructSupply hb'
    obtain ⟨out, hbought⟩ := bought_of_thresholdPrice hreconstructed.threshold_price
    obtain ⟨out', hbought'⟩ := bought_of_thresholdPrice hreconstructed'.threshold_price
    rw [hreconstructed.swap_eq, hreconstructed'.swap_eq]
    exact paddedCharge_mono hbought.le_price (hbought.charge_le_of_le hascending.valid hbought' hthreshold base)
      hreconstructed.buffer_nonneg hbuffer

/-- A threshold before an idle segment, and one beyond it whose padded amount reaches the capacity. -/
theorem swapAmount_mono_across_gap :
    let small : SupplyBreakdown := ⟨27324, 15425, 0, 0⟩
    let large : SupplyBreakdown := ⟨43691, 9393, 0, 5⟩
    (reconstructSupply gapped 40000 .nothing MigrationOption.constantProduct 0 10).result = .ok small ∧
    (reconstructSupply gapped 100000 .nothing MigrationOption.concentrated 5 50).result = .ok large ∧
    small.swapAmount ≤ large.swapAmount ∧
    (∃ released capacity, (gapped.baseReleased (5 * 2 ^ 63)).result = .ok released ∧
      gapped.baseCapacity.result = .ok capacity ∧ released ≤ capacity) ∧
    ∃ released capacity, gapped.baseCapacity.result = .ok capacity ∧
      released ≤ large.swapAmount ∧ large.swapAmount ≤ capacity := by
  intro small large
  have hsmall : (reconstructSupply gapped 40000 .nothing MigrationOption.constantProduct 0 10).result = .ok small := rfl
  have hlarge : (reconstructSupply gapped 100000 .nothing MigrationOption.concentrated 5 50).result = .ok large := rfl
  obtain ⟨hwalk, hbounds, hmono⟩ := swapAmount_mono gapped
  obtain ⟨released, _, capacity, hreleased, -, hcapacity, hle, hle', -⟩ :=
    hwalk (5 * 2 ^ 63) (2 ^ 70) (by decide)
  obtain ⟨price, released', capacity', -, -, hcapacity', hlow, hhigh⟩ := hbounds _ _ _ _ _ _ hlarge
  exact ⟨hsmall, hlarge, hmono _ _ _ _ _ _ _ _ _ _ _ _ (by decide) (by decide) hsmall hlarge,
    ⟨released, capacity, hreleased, hcapacity, hle.trans hle'⟩, released', capacity', hcapacity', hlow, hhigh⟩

end Curve

end BondingCurve
