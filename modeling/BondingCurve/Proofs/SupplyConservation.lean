import BondingCurve.Proofs.GraphSupply
import BondingCurve.Proofs.LinearRefusals

/-!
# Conservation of supply

Every token of a design is sold on the curve, set aside for the migration, vested or left over.

* (one supply) A reconciled breakdown has no negative part, allots at most the supply, and adds up to the supply or to
  at most the tolerance above it (`conserved_of_reconcile`).  Its swap amount lies between the base released up to the
  migration price and the capacity of the curve.
* (both designs) A linear design has no tolerance, so its breakdown is the supply to the unit; a graph design has its
  leftover as tolerance (`design_conserves_supply`).
-/

namespace BondingCurve

open Token (base)

/-- What every design owes to its supply, its curve and its venue. -/
structure CurveDesign.Conserved (d : CurveDesign) : Prop where
  swap_nonneg : 0 ≤ d.supply.swapAmount
  migration_nonneg : 0 ≤ d.supply.migrationAmount
  vesting_nonneg : 0 ≤ d.supply.vestingAmount
  leftover_nonneg : 0 ≤ d.supply.leftoverAmount
  allotted_le : d.supply.swapAmount + d.supply.migrationAmount + d.supply.vestingAmount ≤ d.totalSupply
  totalSupply_le : d.totalSupply ≤ u64Max
  price_eq : (d.curve.thresholdPrice d.migration.quoteAmount).result = .ok d.migration.sqrtPrice
  reserve_eq : (migrationBase d.migration.quoteAmount d.migration.sqrtPrice d.migrationOption).result =
    .ok d.supply.migrationAmount
  released_le : ∃ released, (d.curve.baseReleased d.migration.sqrtPrice).result = .ok released ∧
    released ≤ d.supply.swapAmount
  le_capacity : ∃ capacity, d.curve.baseCapacity.result = .ok capacity ∧ d.supply.swapAmount ≤ capacity

theorem conserved_of_reconcile {d : CurveDesign} {vesting : Vesting} {leftover buffer : Int}
    (h : d.ReconciledWith vesting leftover buffer) (htotal : IsU64 d.totalSupply) (hleftover : 0 ≤ leftover) :
    d.Conserved ∧ vesting.totalAmount = .ok d.supply.vestingAmount ∧ d.totalSupply ≤ d.supply.total ∧
      d.supply.total ≤ d.totalSupply + leftover := by
  obtain ⟨b, remainder, hreconstructed, hremainder, hsupply⟩ := reconstructed_of_reconcile h
  obtain ⟨⟨out, hbought⟩, hreleased, hmigration⟩ := reconcile_backing h
  obtain ⟨hwithin, hrest⟩ := checkSupply_eq_ok hremainder
  have hcharge : 0 ≤ base.charge d.curve.slices d.curve.sqrtStartPrice d.migration.sqrtPrice :=
    base.charge_nonneg d.curve.slices_ascending.valid hbought.le_price
  obtain ⟨⟨hvesting, -⟩, hvesting_eq⟩ := checkedU64_eq_ok_iff.mp hreconstructed.vested
  have hpadded : b.swapAmount ≤ base.charge d.curve.slices d.curve.sqrtStartPrice maxSqrtPrice := by
    rw [hreconstructed.swap_eq]
    exact min_le_right _ _
  have hpart : b.total = b.swapAmount + b.migrationAmount + b.vestingAmount + leftover := by
    rw [SupplyBreakdown.total, hreconstructed.leftover_eq]
  have htotal_eq : d.supply.total = b.total + remainder := by
    rw [hsupply]
    simp only [SupplyBreakdown.total]
    omega
  have hfields : d.supply.swapAmount = b.swapAmount ∧ d.supply.migrationAmount = b.migrationAmount ∧
      d.supply.vestingAmount = b.vestingAmount ∧ d.supply.leftoverAmount = leftover + remainder := by
    rw [hsupply, ← hreconstructed.leftover_eq]
    exact ⟨rfl, rfl, rfl, rfl⟩
  obtain ⟨hswap, hreserve, hvested, hrest_eq⟩ := hfields
  refine ⟨?_, ?_, ?_, ?_⟩
  · constructor
    case released_le => exact ⟨_, d.curve.baseReleased_result _, hreleased⟩
    case le_capacity => exact ⟨_, d.curve.baseCapacity_result, by omega⟩
    case price_eq => exact hreconstructed.threshold_price
    case reserve_eq => rw [hreserve]; exact hreconstructed.migration
    case totalSupply_le => exact htotal.2
    all_goals omega
  · rw [hvested]
    exact hreconstructed.vested
  · omega
  · omega

/-! ### Both kinds of design -/

private theorem LinearMarket.reconciledWith_of_design {m : LinearMarket} {d : CurveDesign}
    (h : m.design.result = .ok d) :
    d.ReconciledWith m.vesting 0 m.bufferPercentage ∧ IsU64 d.totalSupply ∧
      MigrationOption.ofScalar m.option = .ok d.migrationOption := by
  simp only [design, Traced.result_bind, Traced.result_liftM, bind_eq_ok_iff] at h
  obtain ⟨option, hoption, _, -, supply, -, percentage, -, threshold, -, h⟩ := h
  split at h
  · simp only [build, Traced.result_bind, bind_eq_ok_iff] at h
    obtain ⟨a, ha, first, -, curve, -, ⟨breakdown, price⟩, hreconcile, ⟨⟩⟩ := h
    obtain ⟨htotal, -⟩ := derived_of_amounts ha
    exact ⟨hreconcile, htotal, hoption⟩
  · cases h

private theorem GraphMarket.reconciledWith_of_design {m : GraphMarket} {d : CurveDesign} (h : m.design.result = .ok d) :
    ∃ leftover, scaleToUnits m.leftover m.baseDecimals = .ok leftover ∧
      d.ReconciledWith m.vesting leftover m.bufferPercentage ∧ IsU64 d.totalSupply ∧
      MigrationOption.ofScalar m.option = .ok d.migrationOption := by
  obtain ⟨supply, a, hreached, htotal, hreconcile⟩ := reached_of_design h
  obtain ⟨ha, -⟩ := allotted_of_amounts hreached.amounts_eq
  refine ⟨a.leftover, ha.leftover_eq, hreconcile, ?_, hreached.option_eq⟩
  rw [htotal]
  exact ha.totalSupply_mem

/-- Every token of a design is accounted for.  The parts of the breakdown are those of its own curve and venue, none is
negative, and together they are the supply: exactly for a linear design, and within the leftover for a graph design. -/
theorem design_conserves_supply (d : CurveDesign) :
    (∀ m : LinearMarket, m.design.result = .ok d →
      d.Conserved ∧ MigrationOption.ofScalar m.option = .ok d.migrationOption ∧
      m.vesting.totalAmount = .ok d.supply.vestingAmount ∧ d.supply.total = d.totalSupply) ∧
    (∀ m : GraphMarket, m.design.result = .ok d →
      d.Conserved ∧ MigrationOption.ofScalar m.option = .ok d.migrationOption ∧
      m.vesting.totalAmount = .ok d.supply.vestingAmount ∧
      ∃ leftover, scaleToUnits m.leftover m.baseDecimals = .ok leftover ∧ d.totalSupply ≤ d.supply.total ∧
        d.supply.total ≤ d.totalSupply + leftover) := by
  constructor
  · intro m hm
    obtain ⟨hreconciled, htotal, hoption⟩ := LinearMarket.reconciledWith_of_design hm
    obtain ⟨hconserved, hvested, hlow, hhigh⟩ := conserved_of_reconcile hreconciled htotal le_rfl
    exact ⟨hconserved, hoption, hvested, by omega⟩
  · intro m hm
    obtain ⟨leftover, hleftover, hreconciled, htotal, hoption⟩ := GraphMarket.reconciledWith_of_design hm
    obtain ⟨hconserved, hvested, hlow, hhigh⟩ :=
      conserved_of_reconcile hreconciled htotal (nonneg_of_scaleToUnits hleftover)
    exact ⟨hconserved, hoption, hvested, leftover, hleftover, hlow, hhigh⟩

theorem design_conserves_supply_markets :
    (∃ d : CurveDesign, LinearMarket.resizedMarket.design.result = .ok d ∧ d.Conserved ∧
      d.supply.total = d.totalSupply) ∧
    ∃ (d : CurveDesign) (leftover : Int), GraphMarket.referenceMarket.design.result = .ok d ∧ d.Conserved ∧
      scaleToUnits GraphMarket.referenceMarket.leftover GraphMarket.referenceMarket.baseDecimals = .ok leftover ∧
      d.supply.total ≤ d.totalSupply + leftover := by
  obtain ⟨linear, hlinear⟩ := exists_of_isOk (by decide +kernel : LinearMarket.resizedMarket.design.result.isOk = true)
  obtain ⟨graph, hgraph⟩ := GraphMarket.exists_design_referenceMarket
  obtain ⟨hconserved, -, -, htotal⟩ := (design_conserves_supply linear).1 _ hlinear
  obtain ⟨hconserved', -, -, leftover, hleftover, -, hhigh⟩ := (design_conserves_supply graph).2 _ hgraph
  exact ⟨⟨linear, hlinear, hconserved, htotal⟩, graph, leftover, hgraph, hconserved', hleftover, hhigh⟩

end BondingCurve
