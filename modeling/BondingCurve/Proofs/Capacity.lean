import BondingCurve.Proofs.Sale
import BondingCurve.Proofs.Threshold

/-!
# Capacity

A walk takes up an amount exactly if the slices ahead of it cost at least as much.

* (walks) What a walk leaves of an amount is what the amount has beyond that capacity: `Bought.left_eq` for purchases
  and walks to a threshold, `sellAlong_left_eq` for sales.
* (refusals) So a walk runs out of liquidity above its capacity and nowhere else, and the refusal names the capacity
  (`limitedBy_of_left`).  Within the capacity a walk to a threshold always succeeds, and a trade fails only if it would
  pay more than the ledger holds (`Curve.refused_iff_above_capacity`).
-/

namespace BondingCurve

open Token (base quote)

/-! ### What is left of an amount -/

section Left

variable {slices : List Slice} {high bottom top : Int} {p q : Progress}

theorem Bought.left_eq (hv : ∀ s ∈ slices, s.Valid) (h : Bought slices top p q) :
    q.left = max 0 (p.left - quote.charge slices p.price top) := by
  have hspent := h.spent
  have hleft := h.left_nonneg
  rcases h.exhausted with hzero | htop
  · have hmono := quote.charge_mono hv (a := p.price) h.price_le
    omega
  · rw [htop] at hspent
    omega

-- `Sold` does not determine what is left: a sale may give more than the charge of the range that it crossed.
theorem sellAlong_left_eq (h : Descending high slices bottom) (hbottom : bottom ≤ p.price) (hhigh : p.price ≤ high)
    (hleft : 0 ≤ p.left) (hsell : (sellAlong slices p).result = .ok q) :
    q.left = max 0 (p.left - base.charge slices bottom p.price) := by
  induction h generalizing p with
  | nil =>
    obtain rfl : p = q := Except.ok.inj hsell
    rw [base.charge_nil]
    omega
  | @cons s rest bottom hs hrest ih =>
    have hlower : s.clamp bottom = s.lower := Slice.clamp_of_le hrest.le
    have hrest_nonneg := base.charge_nonneg hrest.valid hbottom
    have hstep := sellStep hs rest hhigh hleft
    rw [hsell] at hstep
    cases hstep with
    | stopped hzero hr =>
      obtain rfl : q = p := Except.ok.inj hr
      have hnonneg := base.charge_nonneg (List.forall_mem_cons.mpr ⟨hs, hrest.valid⟩) hbottom
      omega
    | skipped hskip hr =>
      rw [base.charge_cons, hlower, Slice.clamp_of_le hskip, base.amount_self, Int.ceil_zero, zero_add]
      exact ih hbottom hskip hleft hr.symm
    | ended n _ hprice hinside _ hleast hr =>
      obtain rfl : q = _ := Except.ok.inj hr
      -- The slice alone costs more than the amount.
      have hcost := hleast s.lower hs.lower_pos hinside
      rw [base.charge_cons, hlower, Slice.clamp_of_mem (hinside.le.trans hprice) hhigh]
      simp only
      omega
    | crossed _ habove hpaid hr =>
      have hcrossed := ih hrest.le le_rfl (sub_nonneg.mpr hpaid) hr.symm
      have hbelow : base.charge rest bottom p.price = base.charge rest bottom s.lower :=
        base.charge_congr (fun _ _ => rfl) (hrest.clamp_eq habove.le)
      rw [base.charge_cons, hlower, Slice.clamp_of_mem habove.le hhigh, hbelow]
      simp only at hcrossed
      omega

end Left

/-! ### Refusals -/

/-- A walk with an amount runs out of liquidity if the amount exceeds a capacity and in no other case; the refusal names
the amount, the capacity, and the difference. -/
def LimitedBy {α : Type} (capacity amount : Int) (walk : Except CurveError α) : Prop :=
  ∀ requested available remaining, walk = .error (.insufficientLiquidity requested available remaining) ↔
    capacity < amount ∧ requested = amount ∧ available = capacity ∧ remaining = amount - capacity

theorem limitedBy_of_left {α : Type} {capacity amount left : Int} {walk : Except CurveError α}
    (hleft : left = max 0 (amount - capacity))
    (hrefused : ∀ requested available remaining,
      walk = .error (.insufficientLiquidity requested available remaining) ↔
        left ≠ 0 ∧ requested = amount ∧ available = amount - left ∧ remaining = left) :
    LimitedBy capacity amount walk := by
  intro requested available remaining
  rw [hrefused]
  omega

private theorem Progress.finish_limitedBy {capacity amount : Int} {q : Progress}
    (hleft : q.left = max 0 (amount - capacity)) (hout : 0 ≤ q.output) :
    LimitedBy capacity amount (q.finish amount) ∧
      (amount ≤ capacity → (∃ fill, q.finish amount = .ok fill) ∨
        ∃ output, u64Max < output ∧ q.finish amount = .error (.tooWide "output_amount" output 64)) := by
  refine ⟨limitedBy_of_left hleft fun _ _ _ => finish_eq_insufficientLiquidity_iff, ?_⟩
  intro hwithin
  have hzero : q.left = 0 := by omega
  rcases finish_of_left_eq_zero hzero hout with hpaid | hwide
  · exact .inl ⟨_, hpaid⟩
  · exact .inr ⟨_, hwide⟩

namespace Curve

theorem exists_thresholdPrice {curve : Curve} {threshold : Int} (hnonneg : 0 ≤ threshold)
    (hle : threshold ≤ quote.charge curve.slices curve.sqrtStartPrice curve.sqrtEndPrice) :
    ∃ price, (curve.thresholdPrice threshold).result = .ok price := by
  obtain ⟨q, hbought, -, hresult⟩ := curve.thresholdPrice_result hnonneg
  have hleft : q.left = max 0 (threshold - quote.charge curve.slices curve.sqrtStartPrice curve.sqrtEndPrice) :=
    hbought.left_eq curve.slices_ascending.valid
  have hzero : q.left = 0 := by omega
  exact ⟨q.price, by simp [hresult, Progress.reached, hzero]⟩

/-- From any price on a curve, a purchase runs out of liquidity exactly if its amount exceeds what the slices above
cost in quote, a sale exactly if its amount exceeds what the slices below cost in base, and the walk to a threshold
exactly if the threshold exceeds the quote capacity of the curve.  Up to there a trade can fail only because the ledger
does not hold what it pays, and the walk to a threshold cannot fail. -/
theorem refused_iff_above_capacity (curve : Curve) {price amount : Int} (hstart : curve.sqrtStartPrice ≤ price)
    (hend : price ≤ curve.sqrtEndPrice) (hamount : 0 ≤ amount) :
    (∃ capacity, quote.sumOf .up (curve.between price curve.sqrtEndPrice) = .ok capacity ∧
      LimitedBy capacity amount (curve.buy price amount).result ∧
      (amount ≤ capacity → (∃ fill, (curve.buy price amount).result = .ok fill) ∨
        ∃ output, u64Max < output ∧ (curve.buy price amount).result = .error (.tooWide "output_amount" output 64))) ∧
    (∃ capacity, base.sumOf .up (curve.between curve.sqrtStartPrice price) = .ok capacity ∧
      LimitedBy capacity amount (curve.sell price amount).result ∧
      (amount ≤ capacity → (∃ fill, (curve.sell price amount).result = .ok fill) ∨
        ∃ output, u64Max < output ∧ (curve.sell price amount).result = .error (.tooWide "output_amount" output 64))) ∧
    ∃ capacity, curve.quoteCapacity = .ok capacity ∧
      LimitedBy capacity amount (curve.thresholdPrice amount).result ∧
      (amount ≤ capacity → ∃ reached, (curve.thresholdPrice amount).result = .ok reached) := by
  have hascending := curve.slices_ascending
  have hv := hascending.valid
  refine ⟨?_, ?_, ?_⟩
  · obtain ⟨q, hbought, hresult⟩ := curve.buy_result hstart hend hamount
    have hout : 0 ≤ q.output := by
      rw [hbought.received, zero_add]
      exact base.payout_nonneg hv hbought.le_price
    rw [hresult]
    exact ⟨_, quote.sumOf_up hv hend, Progress.finish_limitedBy (hbought.left_eq hv) hout⟩
  · obtain ⟨q, hwalk, hsold⟩ := sellAlong_sold hascending.reverse ⟨price, amount, 0⟩ hstart hend hamount
    have hleft := sellAlong_left_eq hascending.reverse hstart hend hamount hwalk
    have hout : 0 ≤ q.output := by
      rw [hsold.of_reverse.received, zero_add]
      exact quote.payout_nonneg hv hsold.price_le
    rw [base.charge_reverse] at hleft
    rw [sell_of_sellAlong hstart hend hamount hwalk]
    exact ⟨_, base.sumOf_up hv hstart, Progress.finish_limitedBy hleft hout⟩
  · obtain ⟨q, hbought, -, hresult⟩ := curve.thresholdPrice_result hamount
    refine ⟨_, curve.quoteCapacity_eq, ?_, exists_thresholdPrice hamount⟩
    rw [hresult]
    exact limitedBy_of_left (hbought.left_eq hv) fun _ _ _ => Progress.reached_eq_insufficientLiquidity_iff

theorem refused_above_capacity_in_gap :
    (gapped.buy (5 * 2 ^ 63) (200000 : Int)).result = .error (.insufficientLiquidity 200000 131072 68928) ∧
    (gapped.sell (5 * 2 ^ 63) (200000 : Int)).result = .error (.insufficientLiquidity 200000 32768 167232) ∧
    (gapped.thresholdPrice (200000 : Int)).result = .error (.insufficientLiquidity 200000 196608 3392) := by
  have hstart : gapped.sqrtStartPrice ≤ 5 * 2 ^ 63 := by decide
  have hend : 5 * 2 ^ 63 ≤ gapped.sqrtEndPrice := by decide
  have hamount : (0 : Int) ≤ 200000 := by decide
  obtain ⟨⟨above, habove, hbuy, -⟩, ⟨below, hbelow, hsell, -⟩, whole, hwhole, hwalk, -⟩ :=
    refused_iff_above_capacity gapped hstart hend hamount
  obtain rfl : 131072 = above := Except.ok.inj habove
  obtain rfl : 32768 = below := Except.ok.inj hbelow
  obtain rfl : 196608 = whole := Except.ok.inj hwhole
  exact ⟨(hbuy _ _ _).mpr (by decide), (hsell _ _ _).mpr (by decide), (hwalk _ _ _).mpr (by decide)⟩

end Curve

end BondingCurve
