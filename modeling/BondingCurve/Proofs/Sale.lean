import BondingCurve.Curve.Swap
import BondingCurve.Proofs.Slices

/-!
# Sales

A sale goes down along the slices and never fails on the way: `sellAlong_sold` says where it ends.  The base given
covers the charge of the range crossed, the quote received is its payout, and the price is the least that the amount
pays for, up to idle ranges.  Other than a purchase, a sale that ends inside a slice may give more base than the
charge: the price solved from it is rounded up.
-/

namespace BondingCurve

open Token (base quote)

/-! ### One slice -/

/-- What a sale from `p` does at its first slice, and the result `r` that it comes to. -/
inductive SellStep (s : Slice) (rest : List Slice) (p : Progress) (r : Except CurveError Progress) : Prop
  | stopped (hleft : p.left = 0) (hr : r = .ok p)
  | skipped (hbelow : p.price ≤ s.lower) (hr : r = (sellAlong rest p).result)
  | ended (n : Int) (hliquidity : s.liquidity ≠ 0) (hprice : n ≤ p.price) (hlower : s.lower < n)
      (hspent : ⌈base.amount n p.price s.liquidity⌉ ≤ p.left)
      (hleast : ∀ P, 0 < P → P < n → p.left < ⌈base.amount P p.price s.liquidity⌉)
      (hr : r = .ok ⟨n, 0, p.output + ⌊quote.amount n p.price s.liquidity⌋⟩)
  | crossed (hleft : p.left ≠ 0) (hlower : s.lower < p.price)
      (hpaid : ⌈base.amount s.lower p.price s.liquidity⌉ ≤ p.left)
      (hr : r = (sellAlong rest ⟨s.lower, p.left - ⌈base.amount s.lower p.price s.liquidity⌉,
        p.output + ⌊quote.amount s.lower p.price s.liquidity⌋⟩).result)

theorem sellStep {s : Slice} (hs : s.Valid) (rest : List Slice) {p : Progress} (hhigh : p.price ≤ s.upper)
    (hleft : 0 ≤ p.left) : SellStep s rest p (sellAlong (s :: rest) p).result := by
  unfold sellAlong
  -- The cases are those of the walk, in its order.
  by_cases hzero : p.left = 0
  · rw [if_pos hzero]
    exact .stopped hzero rfl
  rw [if_neg hzero]
  by_cases hskip : p.price ≤ s.lower
  · rw [if_pos hskip]
    exact .skipped hskip rfl
  rw [if_neg hskip]
  have hpos := hs.lower_pos
  have hdown : s.lower ≤ p.price := by omega
  have hcapacity : baseBetween s.lower p.price s.liquidity .up = .ok ⌈base.amount s.lower p.price s.liquidity⌉ :=
    base.between_up hpos hdown hs.liquidity_mem.1
  simp only [Traced.result_bind, Traced.result_liftM, hcapacity, ok_bind]
  by_cases hinside : p.left < ⌈base.amount s.lower p.price s.liquidity⌉
  · have hwide : p.price ≤ u128Max := hhigh.trans (hs.upper_le.trans (by decide))
    obtain ⟨n, hn, hln, hnp, hspent, hleast⟩ :=
      Token.priceAfterBase_inside hpos hdown hwide hs.liquidity_mem.1 (by omega) hinside
    have hout : quoteBetween n p.price s.liquidity .down = .ok ⌊quote.amount n p.price s.liquidity⌋ :=
      quote.between_down (hpos.trans hln) hnp hs.liquidity_mem.1
    rw [if_pos hinside]
    simp only [Traced.result_bind, Traced.result_liftM, Traced.result_pure, hn, hout, ok_bind]
    exact .ended n (base.liquidity_ne_zero hleft hinside) hnp hln hspent hleast rfl
  · have hout : quoteBetween s.lower p.price s.liquidity .down = .ok ⌊quote.amount s.lower p.price s.liquidity⌋ :=
      quote.between_down hpos hdown hs.liquidity_mem.1
    rw [if_neg hinside]
    simp only [Traced.result_bind, Traced.result_liftM, Traced.result_emit, hout, ok_bind]
    exact .crossed hzero (by omega) (by omega) rfl

/-! ### The whole walk -/

/-- `q` is where a sale from `p` along slices down to `bottom` ends. -/
structure Sold (slices : List Slice) (bottom : Int) (p q : Progress) : Prop where
  price_le : q.price ≤ p.price
  le_price : bottom ≤ q.price
  left_nonneg : 0 ≤ q.left
  spent_le : q.left + base.charge slices q.price p.price ≤ p.left
  spent : q.left ≠ 0 → q.left + base.charge slices q.price p.price = p.left
  received : q.output = p.output + quote.payout slices q.price p.price
  exhausted : q.left = 0 ∨ q.price = bottom
  /-- No price below is paid for, unless the range in between is idle. -/
  least : q.left = 0 → ∀ P, P < q.price → p.left < base.charge slices P p.price ∨ Idle slices P q.price

namespace Sold

variable {s : Slice} {slices rest : List Slice} {bottom : Int} {p q : Progress}

theorem stop (hv : ∀ s ∈ slices, s.Valid) (hbottom : bottom ≤ p.price) (hleft : p.left = 0) :
    Sold slices bottom p p where
  price_le := le_rfl
  le_price := hbottom
  left_nonneg := hleft.ge
  spent_le := by simp
  spent := by simp
  received := by simp
  exhausted := .inl hleft
  least := by
    intro _ P hP
    rw [hleft]
    exact base.charge_pos_or_idle hv hP.le

theorem skip (hp : p.price ≤ s.lower) (h : Sold rest bottom p q) : Sold (s :: rest) bottom p q := by
  have hclamp : ∀ P, P ≤ p.price → s.clamp P = s.lower := fun P hP => Slice.clamp_of_le (hP.trans hp)
  have hq := h.price_le
  refine ⟨hq, h.le_price, h.left_nonneg, ?_, ?_, ?_, h.exhausted, ?_⟩
  · rw [base.charge_cons, hclamp _ le_rfl, hclamp _ hq]
    simpa using h.spent_le
  · rw [base.charge_cons, hclamp _ le_rfl, hclamp _ hq]
    simpa using h.spent
  · rw [quote.payout_cons, hclamp _ le_rfl, hclamp _ hq]
    simpa using h.received
  · intro hleft P hP
    rw [base.charge_cons, Idle.cons_iff, hclamp _ le_rfl, hclamp _ hq, hclamp _ (hP.le.trans hq)]
    simpa using h.least hleft P hP

theorem inside {n : Int} (hs : s.Valid) (hrest : Descending s.lower rest bottom) (hu : p.price ≤ s.upper)
    (hp : n ≤ p.price) (hn : s.lower < n) (hspent : ⌈base.amount n p.price s.liquidity⌉ ≤ p.left)
    (hleast : ∀ P, 0 < P → P < n → p.left < ⌈base.amount P p.price s.liquidity⌉) :
    Sold (s :: rest) bottom p ⟨n, 0, p.output + ⌊quote.amount n p.price s.liquidity⌋⟩ := by
  have hcp : s.clamp p.price = p.price := Slice.clamp_of_mem (hn.le.trans hp) hu
  have hcn : s.clamp n = n := Slice.clamp_of_mem hn.le (hp.trans hu)
  have hclamp := fun P (hP : s.lower ≤ P) => hrest.clamp_eq hP
  have hpl := hclamp _ (hn.le.trans hp)
  have hnl := hclamp _ hn.le
  refine ⟨hp, hrest.le.trans hn.le, le_rfl, ?_, fun h => absurd rfl h, ?_, .inl rfl, ?_⟩
  · rw [base.charge_cons, hcp, hcn, base.charge_congr hnl hpl, base.charge_self]
    show 0 + (⌈base.amount n p.price s.liquidity⌉ + 0) ≤ p.left
    omega
  · rw [quote.payout_cons, hcp, hcn, quote.payout_congr hnl hpl, quote.payout_self, add_zero]
  · intro _ P hP
    have hPn : s.clamp P < n := by
      simp only at hP
      unfold Slice.clamp
      omega
    have hrest_nonneg := base.charge_nonneg hrest.valid (hP.le.trans hp)
    have hhere := hleast _ (Slice.clamp_pos hs P) hPn
    left
    rw [base.charge_cons, hcp]
    omega

theorem across (hrest : Descending s.lower rest bottom) (hp : s.lower ≤ p.price) (hu : p.price ≤ s.upper)
    (h : Sold rest bottom ⟨s.lower, p.left - ⌈base.amount s.lower p.price s.liquidity⌉,
      p.output + ⌊quote.amount s.lower p.price s.liquidity⌋⟩ q) : Sold (s :: rest) bottom p q := by
  have hcp : s.clamp p.price = p.price := Slice.clamp_of_mem hp hu
  have hclamp : ∀ P, P ≤ s.lower → s.clamp P = s.lower := fun P hP => Slice.clamp_of_le hP
  have hpl := hrest.clamp_eq hp
  obtain ⟨hq, hqbottom, hleft, hspent_le, hspent, hreceived, hexhausted, hleast⟩ := h
  simp only at hq hspent_le hspent hreceived hleast
  have hcharge : ∀ P, P ≤ s.lower → base.charge (s :: rest) P p.price =
      ⌈base.amount s.lower p.price s.liquidity⌉ + base.charge rest P s.lower := by
    intro P hP
    rw [base.charge_cons, hcp, hclamp P hP, base.charge_congr (fun _ _ => rfl) hpl]
  refine ⟨hq.trans hp, hqbottom, hleft, ?_, ?_, ?_, hexhausted, ?_⟩
  · rw [hcharge _ hq]
    omega
  · intro hne
    have := hspent hne
    rw [hcharge _ hq]
    omega
  · rw [quote.payout_cons, hcp, hclamp _ hq, quote.payout_congr (fun _ _ => rfl) hpl]
    omega
  · intro hzero P hP
    rw [hcharge _ (hP.le.trans hq), Idle.cons_iff, hclamp _ hq, hclamp _ (hP.le.trans hq)]
    rcases hleast hzero P hP with hcost | hidle
    · left
      omega
    · exact .inr ⟨fun hlt => absurd hlt (lt_irrefl _), hidle⟩

/-- The order in which the slices are listed does not matter. -/
theorem of_reverse (h : Sold slices.reverse bottom p q) : Sold slices bottom p q := by
  obtain ⟨hprice, hbottom, hleft, hspent_le, hspent, hreceived, hexhausted, hleast⟩ := h
  simp only [Token.charge_reverse, Token.payout_reverse, Idle.reverse_iff] at hspent_le hspent hreceived hleast
  exact ⟨hprice, hbottom, hleft, hspent_le, hspent, hreceived, hexhausted, hleast⟩

/-! Of a sale that uses up its amount: -/

section Complete

variable {price amount next output : Int} (h : Sold slices bottom ⟨price, amount, 0⟩ ⟨next, 0, output⟩)
include h

theorem cost_le : base.charge slices next price ≤ amount := by
  have hspent : 0 + base.charge slices next price ≤ amount := h.spent_le
  omega

theorem output_eq : output = quote.payout slices next price := by
  have hreceived : output = 0 + quote.payout slices next price := h.received
  omega

end Complete

end Sold

/-- A sale along slices never fails, and ends at the price that its amount pays for. -/
theorem sellAlong_sold {slices : List Slice} {high bottom : Int} (h : Descending high slices bottom) (p : Progress)
    (hbottom : bottom ≤ p.price) (hhigh : p.price ≤ high) (hleft : 0 ≤ p.left) :
    ∃ q, (sellAlong slices p).result = .ok q ∧ Sold slices bottom p q := by
  induction h generalizing p with
  | nil bottom =>
    have hprice : p.price = bottom := by omega
    refine ⟨p, rfl, le_rfl, hbottom, hleft, by simp, by simp, by simp, .inr hprice, ?_⟩
    intro _ P _
    exact .inr (by simp [Idle])
  | @cons s rest bottom hs hrest ih =>
    have hv : ∀ s' ∈ s :: rest, s'.Valid := List.forall_mem_cons.mpr ⟨hs, hrest.valid⟩
    cases sellStep hs rest hhigh hleft with
    | stopped hzero hr => exact ⟨p, hr, .stop hv hbottom hzero⟩
    | skipped hskip hr =>
      obtain ⟨q, hq, hsold⟩ := ih p hbottom hskip hleft
      exact ⟨q, hr.trans hq, hsold.skip hskip⟩
    | ended n _ hprice hlower hspent hleast hr =>
      exact ⟨_, hr, .inside hs hrest hhigh hprice hlower hspent hleast⟩
    | crossed _ hlower hpaid hr =>
      obtain ⟨q, hq, hsold⟩ := ih ⟨s.lower, p.left - ⌈base.amount s.lower p.price s.liquidity⌉,
        p.output + ⌊quote.amount s.lower p.price s.liquidity⌋⟩ hrest.le le_rfl (sub_nonneg.mpr hpaid)
      exact ⟨q, hr.trans hq, hsold.across hrest hlower.le hhigh⟩

theorem sold_of_sellAlong {slices : List Slice} {high bottom : Int} (h : Descending high slices bottom) {p q : Progress}
    (hbottom : bottom ≤ p.price) (hhigh : p.price ≤ high) (hleft : 0 ≤ p.left)
    (hsell : (sellAlong slices p).result = .ok q) : Sold slices bottom p q := by
  obtain ⟨q', hq', hsold⟩ := sellAlong_sold h p hbottom hhigh hleft
  rwa [Except.ok.inj (hq'.symm.trans hsell)] at hsold

/-! ### Sales on a curve -/

namespace Curve

theorem sell_of_sellAlong {curve : Curve} {price amount : Int} {q : Progress} (hstart : curve.sqrtStartPrice ≤ price)
    (hend : price ≤ curve.sqrtEndPrice) (hamount : 0 ≤ amount)
    (hwalk : (sellAlong curve.slices.reverse ⟨price, amount, 0⟩).result = .ok q) :
    (curve.sell price amount).result = q.finish amount := by
  have hcurve : curve.requireOnCurve price = .ok () := requireOnCurve_eq_ok_iff.mpr ⟨hstart, hend⟩
  simp [sell, hamount, hcurve, hwalk]

/-- A sale on a curve ends where its walk ends. -/
theorem sell_result (curve : Curve) {price amount : Int} (hstart : curve.sqrtStartPrice ≤ price)
    (hend : price ≤ curve.sqrtEndPrice) (hamount : 0 ≤ amount) :
    ∃ q, Sold curve.slices curve.sqrtStartPrice ⟨price, amount, 0⟩ q ∧
      (curve.sell price amount).result = q.finish amount := by
  obtain ⟨q, hq, hsold⟩ := sellAlong_sold curve.slices_ascending.reverse ⟨price, amount, 0⟩ hstart hend hamount
  exact ⟨q, hsold.of_reverse, sell_of_sellAlong hstart hend hamount hq⟩

/-- A sale that is made starts on the curve, and its walk uses up its amount. -/
theorem sellAlong_of_sell {curve : Curve} {price amount : Int} {fill : Fill}
    (h : (curve.sell price amount).result = .ok fill) :
    curve.sqrtStartPrice ≤ price ∧ price ≤ curve.sqrtEndPrice ∧ 0 ≤ amount ∧ IsU64 fill.output ∧
      (sellAlong curve.slices.reverse ⟨price, amount, 0⟩).result = .ok ⟨fill.price, 0, fill.output⟩ := by
  simp only [sell, Traced.result_bind, Traced.result_liftM, bind_eq_ok_iff, nonNegative_eq_ok_iff,
    Progress.finish_eq_ok_iff] at h
  obtain ⟨_, ⟨hamount, rfl⟩, ⟨⟩, hcurve, ⟨next, left, output⟩, hwalk, hleft, hfits, rfl⟩ := h
  obtain rfl : left = 0 := hleft
  obtain ⟨hstart, hend⟩ := requireOnCurve_eq_ok_iff.mp hcurve
  exact ⟨hstart, hend, hamount, hfits, hwalk⟩

theorem sold_of_sell {curve : Curve} {price amount : Int} {fill : Fill}
    (h : (curve.sell price amount).result = .ok fill) :
    curve.sqrtStartPrice ≤ price ∧ price ≤ curve.sqrtEndPrice ∧
      Sold curve.slices curve.sqrtStartPrice ⟨price, amount, 0⟩ ⟨fill.price, 0, fill.output⟩ := by
  obtain ⟨hstart, hend, hamount, -, hwalk⟩ := sellAlong_of_sell h
  have hsold := sold_of_sellAlong curve.slices_ascending.reverse hstart hend hamount hwalk
  exact ⟨hstart, hend, hsold.of_reverse⟩

/-- A sale ends at the least price that its amount pays for: the base it costs to get there, rounded up in each slice,
is at most the amount, every price below costs more or is only an idle range away, and the quote received is rounded
down in each slice. -/
theorem sell_least {curve : Curve} {price amount : Int} {fill : Fill}
    (h : (curve.sell price amount).result = .ok fill) :
    curve.sqrtStartPrice ≤ fill.price ∧ fill.price ≤ price ∧
    (∃ cost, base.sumOf .up (curve.between fill.price price) = .ok cost ∧ cost ≤ amount) ∧
    (∀ P, curve.sqrtStartPrice ≤ P → P < fill.price →
      (∃ cost, base.sumOf .up (curve.between P price) = .ok cost ∧ amount < cost) ∨
        ∀ s ∈ curve.between P fill.price, s.liquidity = 0) ∧
    quote.sumOf .down (curve.between fill.price price) = .ok fill.output := by
  obtain ⟨-, -, hsold⟩ := sold_of_sell h
  have hv := curve.slices_ascending.valid
  have hle : fill.price ≤ price := hsold.price_le
  refine ⟨hsold.le_price, hle, ⟨_, base.sumOf_up hv hle, hsold.cost_le⟩, ?_, ?_⟩
  · intro P _ hP
    rcases hsold.least rfl P hP with hcost | hidle
    · exact .inl ⟨_, base.sumOf_up hv (hP.le.trans hle), hcost⟩
    · exact .inr ((Token.liquidity_eq_zero_iff hv hP.le).mpr hidle)
  · rw [between, quote.sumOf_down hv hle, hsold.output_eq]

/-- A curve whose lower segment is so deep that a unit of base does not move the price by a unit, below an idle
segment. -/
def stepped : Curve where
  sqrtStartPrice := 2 ^ 61
  segments :=
    [⟨2 ^ 62, 2 ^ 128 - 1, by decide, by decide⟩, ⟨3 * 2 ^ 61, 0, by decide, isU128_zero⟩,
      ⟨2 ^ 63, 2 ^ 79, by decide, by decide⟩]
  start_mem := by decide
  segments_ne_nil := by decide
  length_le := by decide
  increasing := ⟨by decide, by decide, by decide, trivial⟩

theorem sell_least_across_gap :
    (stepped.sell (2 ^ 63) (21847 : Int)).result = .ok ⟨4096, 2 ^ 62⟩ ∧
    ∃ cost, base.sumOf .up (stepped.between (2 ^ 62) (2 ^ 63)) = .ok cost ∧ cost ≤ 21847 := by
  have h : (stepped.sell (2 ^ 63) (21847 : Int)).result = .ok ⟨4096, 2 ^ 62⟩ := rfl
  exact ⟨h, (sell_least h).2.2.1⟩

end Curve

end BondingCurve
