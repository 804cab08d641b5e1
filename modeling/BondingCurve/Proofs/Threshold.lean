import BondingCurve.Proofs.Purchase

/-!
# Walks from the start price

The walk to a threshold of quote goes the way of a purchase from the start price (`absorbAlong_of_buyAlong`), so the
two come to the same end (`Curve.thresholdPrice_result`), and the price at the threshold is the greatest that the
threshold pays for (`Curve.bought_of_thresholdPrice`).  The base released up to a price is the charge of the range below
it (`Curve.baseReleased_result`), and the quote that a curve takes up is the charge of its whole range
(`Curve.quoteCapacity_eq`).
-/

namespace BondingCurve

open Token (base quote)

/-! ### The walk to a threshold -/

/-- Taking up quote moves the price as buying with it does. -/
theorem absorbAlong_of_buyAlong {slices : List Slice} {low top : Int} (h : Ascending low slices top) {p q : Progress}
    (hlow : p.price = low) (hbuy : (buyAlong slices p).result = .ok q) :
    (absorbAlong slices p.price p.left).result = .ok (q.price, q.left) := by
  induction h generalizing p with
  | nil top =>
    obtain ⟨⟩ := hbuy
    rfl
  | @cons s rest top hs hrest ih =>
    -- The walk stands at the lower bound of the slice, so the purchase does not leave it aside.
    have habove : ¬ s.upper ≤ p.price := by
      have := hs.lower_lt
      omega
    unfold buyAlong at hbuy
    unfold absorbAlong
    by_cases hzero : p.left = 0
    · rw [if_pos hzero] at hbuy ⊢
      obtain ⟨⟩ := hbuy
      rfl
    rw [if_neg hzero, if_neg habove] at hbuy
    rw [if_neg hzero]
    simp only [Traced.result_bind, Traced.result_liftM, bind_eq_ok_iff] at hbuy ⊢
    obtain ⟨capacity, hcapacity, hbuy⟩ := hbuy
    refine ⟨capacity, hcapacity, ?_⟩
    by_cases hinside : p.left < capacity
    · rw [if_pos hinside] at hbuy ⊢
      simp only [Traced.result_bind, Traced.result_liftM, bind_eq_ok_iff] at hbuy
      obtain ⟨next, hnext, out, -, ⟨⟩⟩ := hbuy
      simp [hnext]
    · rw [if_neg hinside] at hbuy ⊢
      simp only [Traced.result_bind, Traced.result_liftM, Traced.result_emit, bind_eq_ok_iff] at hbuy
      obtain ⟨out, -, _, -, hbuy⟩ := hbuy
      simpa using ih rfl hbuy

/-- The price that a walk to a threshold comes to, if nothing of the threshold is left. -/
def Progress.reached (requested : Int) (p : Progress) : Except CurveError Int :=
  if p.left = 0 then .ok p.price else .error (.insufficientLiquidity requested (requested - p.left) p.left)

theorem Progress.reached_eq_insufficientLiquidity_iff {requested r available remaining : Int} {p : Progress} :
    p.reached requested = .error (.insufficientLiquidity r available remaining) ↔
      p.left ≠ 0 ∧ r = requested ∧ available = requested - p.left ∧ remaining = p.left := by
  unfold Progress.reached
  by_cases hleft : p.left = 0
  · simp [hleft]
  · simp [hleft, eq_comm]

/-! ### Base released and quote taken up -/

/-- The base released up to a price is the charge of the range below it. -/
private theorem releaseAlong_eq {slices : List Slice} {low top : Int} (h : Ascending low slices top) (target : Int) :
    releaseAlong target slices = .ok (base.charge slices low target) := by
  induction h with
  | nil => rfl
  | @cons s rest top hs hrest ih =>
    unfold releaseAlong
    by_cases hbelow : target < s.upper
    · -- To the slices above the target both prices are the lowest one.
      have hidle : base.charge rest s.lower target = 0 := by
        rw [base.charge_congr (hrest.clamp_eq hs.lower_lt.le) (hrest.clamp_eq hbelow.le), base.charge_self]
      rw [if_pos hbelow, base.charge_cons, Slice.clamp_of_le le_rfl, hidle, add_zero]
      by_cases hinside : s.lower < target
      · rw [if_pos hinside, Slice.clamp_of_mem hinside.le hbelow.le]
        exact base.between_up hs.lower_pos hinside.le hs.liquidity_mem.1
      · rw [if_neg hinside, Slice.clamp_of_le (by omega), base.amount_self, Int.ceil_zero]
    · have hhere : baseBetween s.lower s.upper s.liquidity .up = .ok ⌈base.amount s.lower s.upper s.liquidity⌉ :=
        base.between_up hs.lower_pos hs.lower_lt.le hs.liquidity_mem.1
      rw [if_neg hbelow, hhere, ih, hrest.charge_cons hs base (Int.not_lt.mp hbelow)]
      rfl

/-- The quote that slices take up is the charge of the range that they fill. -/
private theorem quoteAlong_eq {slices : List Slice} {low high : Int} (h : Ascending low slices high) :
    quoteAlong slices = .ok (quote.charge slices low high) := by
  induction h with
  | nil => rfl
  | @cons s rest top hs hrest ih =>
    have hhere : quoteBetween s.lower s.upper s.liquidity .up = .ok ⌈quote.amount s.lower s.upper s.liquidity⌉ :=
      quote.between_up hs.lower_pos hs.lower_lt.le hs.liquidity_mem.1
    rw [quoteAlong, hhere, ih, hrest.charge_cons hs quote hrest.le]
    rfl

namespace Curve

theorem sqrtEndPrice_le (curve : Curve) : curve.sqrtEndPrice ≤ maxSqrtPrice :=
  (curve.segments.getLast curve.segments_ne_nil).price_mem.2

/-- The walk to a threshold ends where a purchase with it from the start price ends. -/
theorem thresholdPrice_result (curve : Curve) {threshold : Int} (hnonneg : 0 ≤ threshold) :
    ∃ q, Bought curve.slices curve.sqrtEndPrice ⟨curve.sqrtStartPrice, threshold, 0⟩ q ∧
      (curve.buy curve.sqrtStartPrice threshold).result = q.finish threshold ∧
      (curve.thresholdPrice threshold).result = q.reached threshold := by
  have hend := curve.slices_ascending.le
  obtain ⟨q, hq, hbought⟩ := buyAlong_bought curve.slices_ascending ⟨curve.sqrtStartPrice, threshold, 0⟩ le_rfl hend
    hnonneg
  have hwalk : (absorbAlong curve.slices curve.sqrtStartPrice threshold).result = .ok (q.price, q.left) :=
    absorbAlong_of_buyAlong curve.slices_ascending rfl hq
  refine ⟨q, hbought, buy_of_buyAlong le_rfl hend hnonneg hq, ?_⟩
  simp [thresholdPrice, nonNegative_of_nonneg hnonneg, hwalk, Traced.result_ite, Progress.reached]

/-- The price at a threshold of quote is where a purchase with it from the start price ends. -/
theorem bought_of_thresholdPrice {curve : Curve} {threshold price : Int}
    (h : (curve.thresholdPrice threshold).result = .ok price) :
    ∃ out, Bought curve.slices curve.sqrtEndPrice ⟨curve.sqrtStartPrice, threshold, 0⟩ ⟨price, 0, out⟩ := by
  have hnonneg : 0 ≤ threshold := by
    simp only [thresholdPrice, Traced.result_bind, Traced.result_liftM, bind_eq_ok_iff, nonNegative_eq_ok_iff] at h
    obtain ⟨_, ⟨hnonneg, -⟩, -⟩ := h
    exact hnonneg
  obtain ⟨⟨reached, left, out⟩, hbought, -, hresult⟩ := curve.thresholdPrice_result hnonneg
  rw [h, Progress.reached] at hresult
  by_cases hzero : left = 0
  · rw [if_pos hzero] at hresult
    obtain ⟨⟩ := hresult
    subst hzero
    exact ⟨out, hbought⟩
  · rw [if_neg hzero] at hresult
    cases hresult

theorem quoteCapacity_eq (curve : Curve) :
    curve.quoteCapacity = .ok (quote.charge curve.slices curve.sqrtStartPrice curve.sqrtEndPrice) :=
  quoteAlong_eq curve.slices_ascending

theorem baseReleased_result (curve : Curve) (target : Int) :
    (curve.baseReleased target).result = .ok (base.charge curve.slices curve.sqrtStartPrice target) := by
  simp [baseReleased, releaseAlong_eq curve.slices_ascending]

theorem baseCapacity_result (curve : Curve) :
    curve.baseCapacity.result = .ok (base.charge curve.slices curve.sqrtStartPrice maxSqrtPrice) :=
  curve.baseReleased_result maxSqrtPrice

/-- The capacity covers the charge up to every price on the curve. -/
theorem charge_le_baseCapacity {curve : Curve} {price capacity : Int}
    (hcapacity : curve.baseCapacity.result = .ok capacity) (hprice : price ≤ curve.sqrtEndPrice) :
    base.charge curve.slices curve.sqrtStartPrice price ≤ capacity := by
  have hwhole : base.charge curve.slices curve.sqrtStartPrice maxSqrtPrice = capacity :=
    Except.ok.inj (curve.baseCapacity_result.symm.trans hcapacity)
  rw [← hwhole]
  exact base.charge_mono curve.slices_ascending.valid (hprice.trans curve.sqrtEndPrice_le)

end Curve

end BondingCurve
