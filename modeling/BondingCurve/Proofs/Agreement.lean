import BondingCurve.Proofs.Threshold

/-!
# Design and trade agree

A design walks its curve to the threshold, and adds up the base released below the price it finds; a trader who spends
the threshold on the fresh curve makes the same way as a purchase.  Both end at one price or both are refused, and the
two amounts of base differ by the rounding of the segments on the way (`Curve.buy_agrees_with_thresholdPrice`).
-/

namespace BondingCurve

open Token (base quote)

namespace Curve

/-- The walk to a threshold and the purchase with it from the start price run out of liquidity together, by the same
amounts, or come to the same price.  The base released up to that price is at least what the purchase pays out, and
exceeds it by at most a unit for each segment that starts below the price. -/
theorem buy_agrees_with_thresholdPrice (curve : Curve) {amount : Int} (hamount : 0 ≤ amount) :
    (∃ available remaining,
      (curve.thresholdPrice amount).result = .error (.insufficientLiquidity amount available remaining) ∧
      (curve.buy curve.sqrtStartPrice amount).result = .error (.insufficientLiquidity amount available remaining)) ∨
    ∃ price output released,
      (curve.thresholdPrice amount).result = .ok price ∧
      ((curve.buy curve.sqrtStartPrice amount).result = .ok ⟨output, price⟩ ∨
        u64Max < output ∧
          (curve.buy curve.sqrtStartPrice amount).result = .error (.tooWide "output_amount" output 64)) ∧
      (curve.baseReleased price).result = .ok released ∧
      output ≤ released ∧ released ≤ output + curve.lowerBounds.countP (· < price) := by
  have hascending := curve.slices_ascending
  obtain ⟨q, hbought, hbuy, hwalk⟩ := curve.thresholdPrice_result hamount
  have houtput : q.output = base.payout curve.slices curve.sqrtStartPrice q.price := by
    rw [hbought.received, zero_add]
  by_cases hleft : q.left = 0
  · right
    have hnonneg : 0 ≤ q.output := by
      rw [houtput]
      exact base.payout_nonneg hascending.valid hbought.le_price
    refine ⟨q.price, q.output, _, ?_, ?_, curve.baseReleased_result q.price, ?_, ?_⟩
    · rw [hwalk, Progress.reached, if_pos hleft]
    · rw [hbuy]
      exact Progress.finish_of_left_eq_zero hleft hnonneg
    · rw [houtput]
      exact base.payout_le_charge
    · rw [houtput, lowerBounds, List.countP_map]
      exact base.charge_le_payout_add hascending.le_lower
  · left
    refine ⟨amount - q.left, q.left, ?_, ?_⟩
    · rw [hwalk, Progress.reached, if_neg hleft]
    · rw [hbuy, Progress.finish, if_neg hleft]

theorem buy_agrees_with_thresholdPrice_across_gap :
    (gapped.thresholdPrice (65537 : Int)).result = .ok 55340372958617010176 ∧
    (gapped.buy gapped.sqrtStartPrice (65537 : Int)).result = .ok ⟨32768, 55340372958617010176⟩ ∧
    ∃ released, (gapped.baseReleased 55340372958617010176).result = .ok released ∧
      32768 ≤ released ∧ released ≤ 32768 + 3 := by
  have hwalk : (gapped.thresholdPrice (65537 : Int)).result = .ok 55340372958617010176 := rfl
  have hbuy : (gapped.buy gapped.sqrtStartPrice (65537 : Int)).result = .ok ⟨32768, 55340372958617010176⟩ := rfl
  refine ⟨hwalk, hbuy, ?_⟩
  rcases buy_agrees_with_thresholdPrice gapped (by decide : (0 : Int) ≤ 65537) with
    ⟨_, _, hrefused, -⟩ | ⟨price, output, released, hprice, hpaid, hreleased, hlow, hhigh⟩
  · rw [hwalk] at hrefused
    cases hrefused
  · obtain rfl : 55340372958617010176 = price := Except.ok.inj (hwalk.symm.trans hprice)
    rcases hpaid with hpaid | ⟨-, hwide⟩
    · obtain ⟨⟩ : (⟨32768, 55340372958617010176⟩ : Fill) = ⟨output, 55340372958617010176⟩ :=
        Except.ok.inj (hbuy.symm.trans hpaid)
      exact ⟨released, hreleased, hlow, hhigh⟩
    · rw [hbuy] at hwide
      cases hwide

end Curve

end BondingCurve
