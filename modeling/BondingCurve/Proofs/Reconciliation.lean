import BondingCurve.Design.Graph
import BondingCurve.Design.Linear
import BondingCurve.Proofs.Threshold

/-!
# Reconciled designs

Both kinds of design end with `reconcile`, which walks the finished curve to the threshold
(`LinearMarket.design_reconciled`, `GraphMarket.design_reconciled`).  So the swap amount of a design is at least the
charge from the start price to the price at the threshold, and the migration reserve is not negative
(`reconcile_backing`).  What a breakdown contains is read off once (`reconstructed_of_reconcile`).
-/

namespace BondingCurve

open Token (base)

private theorem divide_up_nonneg {a b n : Int} (h : Rounding.up.divide a b = .ok n) : 0 ≤ n := by
  simp only [Rounding.divide, ite_error_eq_ok_iff] at h
  obtain ⟨hdomain, ⟨⟩⟩ := h
  exact ceilDiv_nonneg (by omega) (by omega)

theorem migrationBase_eq_ok_iff {threshold price amount : Int} {option : MigrationOption} :
    (migrationBase threshold price option).result = .ok amount ↔
      0 ≤ threshold ∧ IsSqrtPrice price ∧ option.base threshold price = .ok amount := by
  simp only [migrationBase, Traced.result_bind, Traced.result_liftM, Traced.result_emit, Traced.result_pure,
    MigrationOption.ofScalar_toScalar, ok_bind, bind_eq_ok_iff, nonNegative_eq_ok_iff, checkSqrtPrice_eq_ok_iff]
  constructor
  · rintro ⟨_, ⟨hthreshold, rfl⟩, _, ⟨hprice, rfl⟩, _, hamount, ⟨⟩⟩
    exact ⟨hthreshold, hprice, hamount⟩
  · rintro ⟨hthreshold, hprice, hamount⟩
    exact ⟨_, ⟨hthreshold, rfl⟩, _, ⟨hprice, rfl⟩, _, hamount, rfl⟩

private theorem MigrationOption.base_nonneg {threshold price amount : Int} {option : MigrationOption}
    (h : option.base threshold price = .ok amount) : 0 ≤ amount := by
  cases option with
  | constantProduct => exact divide_up_nonneg h
  | concentrated =>
    simp only [base, concentratedBase, baseBetween, bind_eq_ok_iff] at h
    obtain ⟨_, -, _, -, _, -, hdivide⟩ := h
    exact divide_up_nonneg hdivide

/-! ### Supplies of a curve -/

/-- The charge up to a price with a percentage added, at most the capacity of the curve. -/
def Curve.paddedCharge (curve : Curve) (price buffer : Int) : Int :=
  let released := base.charge curve.slices curve.sqrtStartPrice price
  min (released + released * buffer / 100) (base.charge curve.slices curve.sqrtStartPrice maxSqrtPrice)

/-- What the supply of a curve consists of, if a threshold of quote takes the curve to a price. -/
structure Reconstructed (curve : Curve) (threshold : Int) (vesting : Vesting) (option : MigrationOption)
    (leftover buffer price : Int) (b : SupplyBreakdown) : Prop where
  threshold_price : (curve.thresholdPrice threshold).result = .ok price
  buffer_nonneg : 0 ≤ buffer
  swap_eq : b.swapAmount = curve.paddedCharge price buffer
  migration : (migrationBase threshold price option).result = .ok b.migrationAmount
  vested : vesting.totalAmount = .ok b.vestingAmount
  leftover_eq : b.leftoverAmount = leftover

section

variable {curve : Curve} {threshold totalSupply leftover buffer price : Int} {vesting : Vesting}
  {option : MigrationOption} {supply b : SupplyBreakdown}

theorem reconstructed_of_reconstructSupply
    (h : (reconstructSupply curve threshold vesting option leftover buffer).result = .ok b) :
    ∃ price, Reconstructed curve threshold vesting option leftover buffer price b := by
  simp only [reconstructSupply, swapAmountWithBuffer, Traced.result_bind, Traced.result_liftM, Traced.result_emit,
    bind_eq_ok_iff, nonNegative_eq_ok_iff, curve.baseReleased_result, curve.baseCapacity_result] at h
  obtain ⟨_, ⟨-, rfl⟩, price, hprice, _, ⟨⟩, _, ⟨_, ⟨-, rfl⟩, _, ⟨hbuffer, rfl⟩, _, ⟨⟩, ⟨⟩⟩, _, hmigration, _, hvested,
    _, -, ⟨⟩⟩ := h
  exact ⟨price, hprice, hbuffer, rfl, hmigration, hvested, rfl⟩

theorem Curve.charge_le_paddedCharge (hbuffer : 0 ≤ buffer) (hstart : curve.sqrtStartPrice ≤ price)
    (hmax : price ≤ maxSqrtPrice) :
    base.charge curve.slices curve.sqrtStartPrice price ≤ curve.paddedCharge price buffer := by
  have hcharge : 0 ≤ base.charge curve.slices curve.sqrtStartPrice price :=
    base.charge_nonneg curve.slices_ascending.valid hstart
  have hpad : 0 ≤ base.charge curve.slices curve.sqrtStartPrice price * buffer / 100 :=
    Int.ediv_nonneg (Int.mul_nonneg hcharge hbuffer) (by decide)
  exact le_min (by omega) (base.charge_mono curve.slices_ascending.valid hmax)

theorem Reconstructed.charge_le_swapAmount
    (h : Reconstructed curve threshold vesting option leftover buffer price b)
    (hstart : curve.sqrtStartPrice ≤ price) (hmax : price ≤ maxSqrtPrice) :
    base.charge curve.slices curve.sqrtStartPrice price ≤ b.swapAmount := by
  rw [h.swap_eq]
  exact Curve.charge_le_paddedCharge h.buffer_nonneg hstart hmax

theorem checkSupply_eq_ok {tolerance remainder : Int} (h : checkSupply b totalSupply tolerance = .ok remainder) :
    b.total ≤ totalSupply + tolerance ∧ remainder = max 0 (totalSupply - b.total) := by
  simp only [checkSupply, bind_eq_ok_iff, nonNegative_eq_ok_iff] at h
  obtain ⟨totalSupply, ⟨-, rfl⟩, tolerance, ⟨htolerance, rfl⟩, h⟩ := h
  by_cases hexcess : totalSupply < b.total
  · rw [if_pos hexcess, ite_error_eq_ok_iff] at h
    obtain ⟨hwithin, ⟨⟩⟩ := h
    omega
  · rw [if_neg hexcess] at h
    obtain ⟨⟩ := h
    omega

/-- The supply of a finished curve is its breakdown, with what is not allotted left over. -/
theorem reconstructed_of_reconcile
    (h : (reconcile curve threshold vesting option totalSupply leftover buffer).result = .ok (supply, price)) :
    ∃ b remainder, Reconstructed curve threshold vesting option leftover buffer price b ∧
      checkSupply b totalSupply leftover = .ok remainder ∧
      supply = { b with leftoverAmount := b.leftoverAmount + remainder } := by
  simp only [reconcile, Traced.result_bind, Traced.result_liftM, bind_eq_ok_iff] at h
  obtain ⟨b, hb, remainder, hremainder, price, hprice, ⟨⟩⟩ := h
  obtain ⟨reached, hreconstructed⟩ := reconstructed_of_reconstructSupply hb
  -- The threshold is walked to twice, once for the breakdown and once for the price.
  obtain rfl : price = reached := Except.ok.inj (hprice.symm.trans hreconstructed.threshold_price)
  exact ⟨b, remainder, hreconstructed, hremainder, rfl⟩

/-- The swap amount backs the walk to the threshold. -/
theorem reconcile_backing
    (h : (reconcile curve threshold vesting option totalSupply leftover buffer).result = .ok (supply, price)) :
    (∃ out, Bought curve.slices curve.sqrtEndPrice ⟨curve.sqrtStartPrice, threshold, 0⟩ ⟨price, 0, out⟩) ∧
    base.charge curve.slices curve.sqrtStartPrice price ≤ supply.swapAmount ∧ 0 ≤ supply.migrationAmount := by
  obtain ⟨b, remainder, hreconstructed, -, rfl⟩ := reconstructed_of_reconcile h
  obtain ⟨out, hbought⟩ := Curve.bought_of_thresholdPrice hreconstructed.threshold_price
  have hmax : price ≤ maxSqrtPrice := hbought.price_le.trans curve.sqrtEndPrice_le
  obtain ⟨-, -, hamount⟩ := migrationBase_eq_ok_iff.mp hreconstructed.migration
  exact ⟨⟨out, hbought⟩, hreconstructed.charge_le_swapAmount hbought.le_price hmax,
    MigrationOption.base_nonneg hamount⟩

end

/-! ### Designs -/

/-- The breakdown of a design is that of its curve, for a vesting, a tolerance and a padding. -/
def CurveDesign.ReconciledWith (d : CurveDesign) (vesting : Vesting) (leftover buffer : Int) : Prop :=
  (reconcile d.curve d.migration.quoteAmount vesting d.migrationOption d.totalSupply leftover buffer).result =
    .ok (d.supply, d.migration.sqrtPrice)

/-- The breakdown and the price of a design are those of its curve and threshold. -/
def CurveDesign.Reconciled (d : CurveDesign) : Prop :=
  ∃ (vesting : Vesting) (option : MigrationOption) (totalSupply leftover buffer : Int),
    (reconcile d.curve d.migration.quoteAmount vesting option totalSupply leftover buffer).result =
      .ok (d.supply, d.migration.sqrtPrice)

theorem LinearMarket.design_reconciled {m : LinearMarket} {d : CurveDesign} (h : m.design.result = .ok d) :
    d.Reconciled := by
  simp only [design, Traced.result_bind, Traced.result_liftM, bind_eq_ok_iff] at h
  obtain ⟨option, -, _, -, supply, -, percentage, -, threshold, -, h⟩ := h
  split at h
  · simp only [build, Traced.result_bind, bind_eq_ok_iff] at h
    obtain ⟨a, -, first, -, curve, -, ⟨breakdown, price⟩, hreconcile, ⟨⟩⟩ := h
    exact ⟨_, _, _, _, _, hreconcile⟩
  · cases h

theorem GraphMarket.design_reconciled {m : GraphMarket} {d : CurveDesign} (h : m.design.result = .ok d) :
    d.Reconciled := by
  simp only [design, build, Traced.result_bind, Traced.result_liftM, bind_eq_ok_iff] at h
  obtain ⟨option, -, _, -, supply, -, a, -, curve, -, threshold, -, ⟨breakdown, price⟩, hreconcile, ⟨⟩⟩ := h
  exact ⟨_, _, _, _, _, hreconcile⟩

end BondingCurve
