import BondingCurve.Curve.Swap
import BondingCurve.Proofs.Slices

/-!
# Purchases

A purchase goes up along the slices and never fails on the way: `buyAlong_bought` says where it ends.  The quote
spent is the charge of the range crossed, to the unit, the base received is its payout, and the price is the
greatest that the amount pays for, up to idle ranges.

At each slice the walk stops because nothing is left, leaves the slice aside, ends inside it, or crosses it and goes
on (`BuyStep`).  What follows for the whole walk has one lemma for each case: `Bought.stop`, `Bought.skip`,
`Bought.inside` and `Bought.across`.
-/

namespace BondingCurve

open Token (base quote)

/-! ### One slice -/

/-- What a purchase from `p` does at its first slice, and the result `r` that it comes to. -/
inductive BuyStep (s : Slice) (rest : List Slice) (p : Progress) (r : Except CurveError Progress) : Prop
  | stopped (hleft : p.left = 0) (hr : r = .ok p)
  | skipped (habove : s.upper ≤ p.price) (hr : r = (buyAlong rest p).result)
  | ended (n : Int) (hliquidity : s.liquidity ≠ 0) (hprice : p.price ≤ n) (hupper : n < s.upper)
      (hspent : ⌈quote.amount p.price n s.liquidity⌉ = p.left)
      (hgreatest : ∀ P, n < P → p.left < ⌈quote.amount p.price P s.liquidity⌉)
      (hr : r = .ok ⟨n, 0, p.output + ⌊base.amount p.price n s.liquidity⌋⟩)
  | crossed (hleft : p.left ≠ 0) (hupper : p.price < s.upper)
      (hpaid : ⌈quote.amount p.price s.upper s.liquidity⌉ ≤ p.left)
      (hr : r = (buyAlong rest ⟨s.upper, p.left - ⌈quote.amount p.price s.upper s.liquidity⌉,
        p.output + ⌊base.amount p.price s.upper s.liquidity⌋⟩).result)

theorem buyStep {s : Slice} (hs : s.Valid) (rest : List Slice) {p : Progress} (hlow : s.lower ≤ p.price)
    (hleft : 0 ≤ p.left) : BuyStep s rest p (buyAlong (s :: rest) p).result := by
  unfold buyAlong
  -- The cases are those of the walk, in its order.
  by_cases hzero : p.left = 0
  · rw [if_pos hzero]
    exact .stopped hzero rfl
  rw [if_neg hzero]
  by_cases hskip : s.upper ≤ p.price
  · rw [if_pos hskip]
    exact .skipped hskip rfl
  rw [if_neg hskip]
  have hpos : 0 < p.price := hs.lower_pos.trans_le hlow
  have hup : p.price ≤ s.upper := by omega
  have hcapacity : quoteBetween p.price s.upper s.liquidity .up = .ok ⌈quote.amount p.price s.upper s.liquidity⌉ :=
    quote.between_up hpos hup hs.liquidity_mem.1
  simp only [Traced.result_bind, Traced.result_liftM, hcapacity, ok_bind]
  by_cases hinside : p.left < ⌈quote.amount p.price s.upper s.liquidity⌉
  · have hwide : s.upper ≤ u128Max := hs.upper_le.trans (by decide)
    obtain ⟨n, hn, hpn, hnu, hspent, hgreatest⟩ :=
      Token.priceAfterQuote_inside hpos hwide hs.liquidity_mem (by omega) hinside
    have hout : baseBetween p.price n s.liquidity .down = .ok ⌊base.amount p.price n s.liquidity⌋ :=
      base.between_down hpos hpn hs.liquidity_mem.1
    rw [if_pos hinside]
    simp only [Traced.result_bind, Traced.result_liftM, Traced.result_pure, hn, hout, ok_bind]
    exact .ended n (quote.liquidity_ne_zero hleft hinside) hpn hnu hspent hgreatest rfl
  · have hout : baseBetween p.price s.upper s.liquidity .down = .ok ⌊base.amount p.price s.upper s.liquidity⌋ :=
      base.between_down hpos hup hs.liquidity_mem.1
    rw [if_neg hinside]
    simp only [Traced.result_bind, Traced.result_liftM, Traced.result_emit, hout, ok_bind]
    exact .crossed hzero (by omega) (by omega) rfl

/-! ### The whole walk -/

/-- `q` is where a purchase from `p` along slices up to `top` ends. -/
structure Bought (slices : List Slice) (top : Int) (p q : Progress) : Prop where
  le_price : p.price ≤ q.price
  price_le : q.price ≤ top
  left_nonneg : 0 ≤ q.left
  spent : q.left + quote.charge slices p.price q.price = p.left
  received : q.output = p.output + base.payout slices p.price q.price
  exhausted : q.left = 0 ∨ q.price = top
  /-- No price above is paid for, unless the range in between is idle. -/
  greatest : q.left = 0 → ∀ P, q.price < P → p.left < quote.charge slices p.price P ∨ Idle slices q.price P

namespace Bought

variable {s : Slice} {slices rest : List Slice} {top : Int} {p q : Progress}

theorem stop (hv : ∀ s ∈ slices, s.Valid) (htop : p.price ≤ top) (hleft : p.left = 0) : Bought slices top p p where
  le_price := le_rfl
  price_le := htop
  left_nonneg := hleft.ge
  spent := by simp
  received := by simp
  exhausted := .inl hleft
  greatest := by
    intro _ P hP
    rw [hleft]
    exact quote.charge_pos_or_idle hv hP.le

theorem skip (hs : s.Valid) (hp : s.upper ≤ p.price) (h : Bought rest top p q) : Bought (s :: rest) top p q := by
  have hclamp : ∀ P, p.price ≤ P → s.clamp P = s.upper := fun P hP => Slice.clamp_of_ge hs (hp.trans hP)
  have hq := h.le_price
  refine ⟨hq, h.price_le, h.left_nonneg, ?_, ?_, h.exhausted, ?_⟩
  · rw [quote.charge_cons, hclamp _ le_rfl, hclamp _ hq]
    simpa using h.spent
  · rw [base.payout_cons, hclamp _ le_rfl, hclamp _ hq]
    simpa using h.received
  · intro hleft P hP
    rw [quote.charge_cons, Idle.cons_iff, hclamp _ le_rfl, hclamp _ hq, hclamp _ (hq.trans hP.le)]
    simpa using h.greatest hleft P hP

theorem inside {n : Int} (hs : s.Valid) (hrest : Ascending s.upper rest top) (hl : s.lower ≤ p.price)
    (hp : p.price ≤ n) (hn : n < s.upper) (hspent : ⌈quote.amount p.price n s.liquidity⌉ = p.left)
    (hgreatest : ∀ P, n < P → p.left < ⌈quote.amount p.price P s.liquidity⌉) :
    Bought (s :: rest) top p ⟨n, 0, p.output + ⌊base.amount p.price n s.liquidity⌋⟩ := by
  have hcp : s.clamp p.price = p.price := Slice.clamp_of_mem hl (hp.trans hn.le)
  have hcn : s.clamp n = n := Slice.clamp_of_mem (hl.trans hp) hn.le
  have hclamp := fun P (hP : P ≤ s.upper) => hrest.clamp_eq hP
  have hpu := hclamp _ (hp.trans hn.le)
  have hnu := hclamp _ hn.le
  refine ⟨hp, hn.le.trans hrest.le, le_rfl, ?_, ?_, .inl rfl, ?_⟩
  · rw [quote.charge_cons, hcp, hcn, hspent, quote.charge_congr hpu hnu, quote.charge_self]
    show 0 + (p.left + 0) = p.left
    omega
  · rw [base.payout_cons, hcp, hcn, base.payout_congr hpu hnu, base.payout_self, add_zero]
  · intro _ P hP
    have hPn : n < s.clamp P := by
      have := hs.lower_lt
      simp only at hP
      unfold Slice.clamp
      omega
    have hrest_nonneg := quote.charge_nonneg hrest.valid (hp.trans hP.le)
    have hhere := hgreatest _ hPn
    left
    rw [quote.charge_cons, hcp]
    omega

theorem across (hs : s.Valid) (hrest : Ascending s.upper rest top) (hl : s.lower ≤ p.price) (hp : p.price ≤ s.upper)
    (h : Bought rest top ⟨s.upper, p.left - ⌈quote.amount p.price s.upper s.liquidity⌉,
      p.output + ⌊base.amount p.price s.upper s.liquidity⌋⟩ q) : Bought (s :: rest) top p q := by
  have hcp : s.clamp p.price = p.price := Slice.clamp_of_mem hl hp
  have hclamp : ∀ P, s.upper ≤ P → s.clamp P = s.upper := fun P hP => Slice.clamp_of_ge hs hP
  have hpu := hrest.clamp_eq hp
  obtain ⟨hq, hqtop, hleft, hspent, hreceived, hexhausted, hgreatest⟩ := h
  simp only at hq hspent hreceived hgreatest
  have hcharge : ∀ P, s.upper ≤ P → quote.charge (s :: rest) p.price P =
      ⌈quote.amount p.price s.upper s.liquidity⌉ + quote.charge rest s.upper P := by
    intro P hP
    rw [quote.charge_cons, hcp, hclamp P hP, quote.charge_congr hpu fun _ _ => rfl]
  refine ⟨hp.trans hq, hqtop, hleft, ?_, ?_, hexhausted, ?_⟩
  · rw [hcharge _ hq]
    omega
  · rw [base.payout_cons, hcp, hclamp _ hq, base.payout_congr hpu fun _ _ => rfl]
    omega
  · intro hzero P hP
    rw [hcharge _ (hq.trans hP.le), Idle.cons_iff, hclamp _ hq, hclamp _ (hq.trans hP.le)]
    rcases hgreatest hzero P hP with hcost | hidle
    · left
      omega
    · exact .inr ⟨fun hlt => absurd hlt (lt_irrefl _), hidle⟩

/-! Of a purchase that uses up its amount: -/

section Complete

variable {price amount next output : Int} (h : Bought slices top ⟨price, amount, 0⟩ ⟨next, 0, output⟩)
include h

theorem cost_eq : quote.charge slices price next = amount := by
  have hspent : 0 + quote.charge slices price next = amount := h.spent
  omega

theorem output_eq : output = base.payout slices price next := by
  have hreceived : output = 0 + base.payout slices price next := h.received
  omega

end Complete

end Bought

/-- A purchase along slices never fails, and ends at the price that its amount pays for. -/
theorem buyAlong_bought {slices : List Slice} {low top : Int} (h : Ascending low slices top) (p : Progress)
    (hlow : low ≤ p.price) (htop : p.price ≤ top) (hleft : 0 ≤ p.left) :
    ∃ q, (buyAlong slices p).result = .ok q ∧ Bought slices top p q := by
  induction h generalizing p with
  | nil top =>
    have hprice : p.price = top := by omega
    refine ⟨p, rfl, le_rfl, htop, hleft, by simp, by simp, .inr hprice, ?_⟩
    intro _ P _
    exact .inr (by simp [Idle])
  | @cons s rest top hs hrest ih =>
    have hv : ∀ s' ∈ s :: rest, s'.Valid := List.forall_mem_cons.mpr ⟨hs, hrest.valid⟩
    cases buyStep hs rest hlow hleft with
    | stopped hzero hr => exact ⟨p, hr, .stop hv htop hzero⟩
    | skipped hskip hr =>
      obtain ⟨q, hq, hbought⟩ := ih p hskip htop hleft
      exact ⟨q, hr.trans hq, hbought.skip hs hskip⟩
    | ended n _ hprice hupper hspent hgreatest hr =>
      exact ⟨_, hr, .inside hs hrest hlow hprice hupper hspent hgreatest⟩
    | crossed _ hupper hpaid hr =>
      obtain ⟨q, hq, hbought⟩ := ih ⟨s.upper, p.left - ⌈quote.amount p.price s.upper s.liquidity⌉,
        p.output + ⌊base.amount p.price s.upper s.liquidity⌋⟩ le_rfl hrest.le (sub_nonneg.mpr hpaid)
      exact ⟨q, hr.trans hq, hbought.across hs hrest hlow hupper.le⟩

theorem bought_of_buyAlong {slices : List Slice} {low top : Int} (h : Ascending low slices top) {p q : Progress}
    (hlow : low ≤ p.price) (htop : p.price ≤ top) (hleft : 0 ≤ p.left) (hbuy : (buyAlong slices p).result = .ok q) :
    Bought slices top p q := by
  obtain ⟨q', hq', hbought⟩ := buyAlong_bought h p hlow htop hleft
  rwa [Except.ok.inj (hq'.symm.trans hbuy)] at hbought

/-! ### Purchases on a curve -/

namespace Curve

theorem buy_of_buyAlong {curve : Curve} {price amount : Int} {q : Progress} (hstart : curve.sqrtStartPrice ≤ price)
    (hend : price ≤ curve.sqrtEndPrice) (hamount : 0 ≤ amount)
    (hwalk : (buyAlong curve.slices ⟨price, amount, 0⟩).result = .ok q) :
    (curve.buy price amount).result = q.finish amount := by
  have hcurve : curve.requireOnCurve price = .ok () := requireOnCurve_eq_ok_iff.mpr ⟨hstart, hend⟩
  simp [buy, hamount, hcurve, hwalk]

/-- A purchase on a curve ends where its walk ends. -/
theorem buy_result (curve : Curve) {price amount : Int} (hstart : curve.sqrtStartPrice ≤ price)
    (hend : price ≤ curve.sqrtEndPrice) (hamount : 0 ≤ amount) :
    ∃ q, Bought curve.slices curve.sqrtEndPrice ⟨price, amount, 0⟩ q ∧
      (curve.buy price amount).result = q.finish amount := by
  obtain ⟨q, hq, hbought⟩ := buyAlong_bought curve.slices_ascending ⟨price, amount, 0⟩ hstart hend hamount
  exact ⟨q, hbought, buy_of_buyAlong hstart hend hamount hq⟩

/-- A purchase that is made starts on the curve, and its walk uses up its amount. -/
theorem buyAlong_of_buy {curve : Curve} {price amount : Int} {fill : Fill}
    (h : (curve.buy price amount).result = .ok fill) :
    curve.sqrtStartPrice ≤ price ∧ price ≤ curve.sqrtEndPrice ∧ 0 ≤ amount ∧ IsU64 fill.output ∧
      (buyAlong curve.slices ⟨price, amount, 0⟩).result = .ok ⟨fill.price, 0, fill.output⟩ := by
  simp only [buy, Traced.result_bind, Traced.result_liftM, bind_eq_ok_iff, nonNegative_eq_ok_iff,
    Progress.finish_eq_ok_iff] at h
  obtain ⟨_, ⟨hamount, rfl⟩, ⟨⟩, hcurve, ⟨next, left, output⟩, hwalk, hleft, hfits, rfl⟩ := h
  obtain rfl : left = 0 := hleft
  obtain ⟨hstart, hend⟩ := requireOnCurve_eq_ok_iff.mp hcurve
  exact ⟨hstart, hend, hamount, hfits, hwalk⟩

theorem bought_of_buy {curve : Curve} {price amount : Int} {fill : Fill}
    (h : (curve.buy price amount).result = .ok fill) :
    curve.sqrtStartPrice ≤ price ∧ price ≤ curve.sqrtEndPrice ∧
      Bought curve.slices curve.sqrtEndPrice ⟨price, amount, 0⟩ ⟨fill.price, 0, fill.output⟩ := by
  obtain ⟨hstart, hend, hamount, -, hwalk⟩ := buyAlong_of_buy h
  exact ⟨hstart, hend, bought_of_buyAlong curve.slices_ascending hstart hend hamount hwalk⟩

/-- A purchase ends at the greatest price that its amount pays for: the quote it costs to get there, rounded up in
each slice, is the amount, every price above costs more or is only an idle range away, and the base received is
rounded down in each slice. -/
theorem buy_greatest {curve : Curve} {price amount : Int} {fill : Fill}
    (h : (curve.buy price amount).result = .ok fill) :
    price ≤ fill.price ∧ fill.price ≤ curve.sqrtEndPrice ∧
    quote.sumOf .up (curve.between price fill.price) = .ok amount ∧
    (∀ P, fill.price < P → P ≤ curve.sqrtEndPrice →
      (∃ cost, quote.sumOf .up (curve.between price P) = .ok cost ∧ amount < cost) ∨
        ∀ s ∈ curve.between fill.price P, s.liquidity = 0) ∧
    base.sumOf .down (curve.between price fill.price) = .ok fill.output := by
  obtain ⟨-, -, hbought⟩ := bought_of_buy h
  have hv := curve.slices_ascending.valid
  have hle : price ≤ fill.price := hbought.le_price
  refine ⟨hle, hbought.price_le, ?_, ?_, ?_⟩
  · rw [between, quote.sumOf_up hv hle, hbought.cost_eq]
  · intro P hP _
    rcases hbought.greatest rfl P hP with hcost | hidle
    · exact .inl ⟨_, quote.sumOf_up hv (hle.trans hP.le), hcost⟩
    · exact .inr ((Token.liquidity_eq_zero_iff hv hP.le).mpr hidle)
  · rw [between, base.sumOf_down hv hle, hbought.output_eq]

/-- A curve with an idle segment in the middle. -/
def gapped : Curve where
  sqrtStartPrice := 2 ^ 64
  segments :=
    [⟨2 ^ 65, 2 ^ 80, by decide, by decide⟩, ⟨3 * 2 ^ 64, 0, by decide, by decide⟩,
      ⟨2 ^ 66, 2 ^ 81, by decide, by decide⟩]
  start_mem := by decide
  segments_ne_nil := by decide
  length_le := by decide
  increasing := by simp [Increasing]

theorem buy_greatest_across_gap :
    (gapped.buy (3 * 2 ^ 63) (40000 : Int)).result = .ok ⟨11711, 56358045736914386944⟩ ∧
    quote.sumOf .up (gapped.between (3 * 2 ^ 63) 56358045736914386944) = .ok 40000 := by
  have h : (gapped.buy (3 * 2 ^ 63) (40000 : Int)).result = .ok ⟨11711, 56358045736914386944⟩ := rfl
  exact ⟨h, (buy_greatest h).2.2.1⟩

end Curve

end BondingCurve
