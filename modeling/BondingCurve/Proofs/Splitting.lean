import BondingCurve.Proofs.Trades

/-!
# Splitting a trade

Two trades that follow each other never beat one trade of both amounts.

* (idle ranges) The charge does not tell two prices apart that have only an idle range between them.  What tells
  them apart is that a walk enters an idle range only with something left to spend (`buyAlong_charge_lt`,
  `sellAlong_charge_lt`), and that a sale that stops above one has paid exactly (`sellAlong_charge_eq`).
* (one curve) So two trades end no further than one trade of at least both amounts, and pay out no more
  (`Curve.buy_split_price_le`, `Curve.buy_split_output_le`, and the same for sales).
* (rounding) Each trade rounds up what it is charged, so two trades may together take an amount that is too large for
  one trade, by a unit and by what the sales among them gave in excess (`Curve.buy_split_remaining`,
  `Curve.sell_split_remaining`).
-/

namespace BondingCurve

open Token (base quote)

/-! ### Idle ranges on the way -/

section IdleRanges

variable {slices : List Slice} {low high bottom top P : Int} {p q : Progress}

/-- A purchase enters an idle range only with quote left: up to that range it costs less than the amount. -/
theorem buyAlong_charge_lt (h : Ascending low slices top) (hlow : low ≤ p.price) (htop : p.price ≤ top)
    (hleft : 0 ≤ p.left) (hbuy : (buyAlong slices p).result = .ok q) (hpP : p.price ≤ P) (hPq : P < q.price)
    (hidle : Idle slices P q.price) : quote.charge slices p.price P < p.left := by
  induction h generalizing p with
  | nil =>
    obtain rfl : p = q := Except.ok.inj hbuy
    omega
  | @cons s rest top hs hrest ih =>
    obtain ⟨hhere, habove⟩ := Idle.cons_iff.mp hidle
    rw [quote.charge_cons]
    have hstep := buyStep hs rest hlow hleft
    rw [hbuy] at hstep
    cases hstep with
    | stopped _ hr =>
      obtain rfl : q = p := Except.ok.inj hr
      omega
    | skipped hskip hr =>
      have hcharge := ih hskip htop hleft hr.symm hpP habove
      rw [Slice.clamp_of_ge hs hskip, Slice.clamp_of_ge hs (hskip.trans hpP), quote.amount_self, Int.ceil_zero]
      omega
    | ended n hliquidity hprice hupper _ _ hr =>
      obtain rfl : q = _ := Except.ok.inj hr
      have hPn : P < n := hPq
      -- The slice has liquidity between the two prices.
      refine absurd (hhere ?_) hliquidity
      rw [Slice.clamp_of_mem (hlow.trans hpP) (by omega), Slice.clamp_of_mem (hlow.trans hprice) hupper.le]
      exact hPn
    | crossed hne hupper hpaid hr =>
      have hbelow := hrest.clamp_eq hupper.le
      rw [Slice.clamp_of_mem hlow hupper.le]
      rcases le_or_gt s.upper P with hpast | hwithin
      · have hcharge := ih le_rfl hrest.le (sub_nonneg.mpr hpaid) hr.symm hpast habove
        simp only at hcharge
        rw [Slice.clamp_of_ge hs hpast, quote.charge_congr hbelow fun _ _ => rfl]
        omega
      · -- The slice is idle itself, so nothing has been spent yet.
        have hbought := bought_of_buyAlong hrest le_rfl hrest.le (sub_nonneg.mpr hpaid) hr.symm
        have hzero : s.liquidity = 0 := by
          apply hhere
          rw [Slice.clamp_of_mem (hlow.trans hpP) hwithin.le, Slice.clamp_of_ge hs hbought.le_price]
          exact hwithin
        rw [hzero, quote.amount_zero, Int.ceil_zero, quote.charge_congr hbelow (hrest.clamp_eq hwithin.le),
          quote.charge_self]
        omega

/-- A sale enters an idle range only with base left. -/
theorem sellAlong_charge_lt (h : Descending high slices bottom) (hbottom : bottom ≤ p.price) (hhigh : p.price ≤ high)
    (hleft : 0 ≤ p.left) (hsell : (sellAlong slices p).result = .ok q) (hqP : q.price < P) (hPp : P ≤ p.price)
    (hidle : Idle slices q.price P) : base.charge slices P p.price < p.left := by
  induction h generalizing p with
  | nil =>
    obtain rfl : p = q := Except.ok.inj hsell
    omega
  | @cons s rest bottom hs hrest ih =>
    obtain ⟨hhere, hbelow⟩ := Idle.cons_iff.mp hidle
    rw [base.charge_cons]
    have hstep := sellStep hs rest hhigh hleft
    rw [hsell] at hstep
    cases hstep with
    | stopped _ hr =>
      obtain rfl : q = p := Except.ok.inj hr
      omega
    | skipped hskip hr =>
      have hcharge := ih hbottom hskip hleft hr.symm hPp hbelow
      rw [Slice.clamp_of_le hskip, Slice.clamp_of_le (hPp.trans hskip), base.amount_self, Int.ceil_zero]
      omega
    | ended n hliquidity hprice hlower _ _ hr =>
      obtain rfl : q = _ := Except.ok.inj hr
      have hnP : n < P := hqP
      refine absurd (hhere ?_) hliquidity
      rw [Slice.clamp_of_mem hlower.le (hprice.trans hhigh), Slice.clamp_of_mem (by omega) (hPp.trans hhigh)]
      exact hnP
    | crossed hne hlower hpaid hr =>
      have habove := hrest.clamp_eq hlower.le
      rw [Slice.clamp_of_mem hlower.le hhigh]
      rcases le_or_gt P s.lower with hpast | hwithin
      · have hcharge := ih hrest.le le_rfl (sub_nonneg.mpr hpaid) hr.symm hpast hbelow
        simp only at hcharge
        rw [Slice.clamp_of_le hpast, base.charge_congr (fun _ _ => rfl) habove]
        omega
      · have hsold := sold_of_sellAlong hrest hrest.le le_rfl (sub_nonneg.mpr hpaid) hr.symm
        have hzero : s.liquidity = 0 := by
          apply hhere
          rw [Slice.clamp_of_le hsold.price_le, Slice.clamp_of_mem hwithin.le (hPp.trans hhigh)]
          exact hwithin
        rw [hzero, base.amount_zero, Int.ceil_zero, base.charge_congr (hrest.clamp_eq hwithin.le) habove,
          base.charge_self]
        omega

/-- A sale that stops above an idle range has given no more base than the range it crossed costs. -/
theorem sellAlong_charge_eq (h : Descending high slices bottom) (hbottom : bottom ≤ p.price) (hhigh : p.price ≤ high)
    (hleft : 0 ≤ p.left) (hsell : (sellAlong slices p).result = .ok q) (hstop : q.left = 0) (hPq : P < q.price)
    (hidle : Idle slices P q.price) : base.charge slices q.price p.price = p.left := by
  induction h generalizing p with
  | nil =>
    obtain rfl : p = q := Except.ok.inj hsell
    simp [hstop]
  | @cons s rest bottom hs hrest ih =>
    obtain ⟨hhere, hbelow⟩ := Idle.cons_iff.mp hidle
    have hstep := sellStep hs rest hhigh hleft
    rw [hsell] at hstep
    cases hstep with
    | stopped hzero hr =>
      obtain rfl : q = p := Except.ok.inj hr
      rw [base.charge_self, hzero]
    | skipped hskip hr =>
      have hprice := (sold_of_sellAlong hrest hbottom hskip hleft hr.symm).price_le
      rw [base.charge_cons, Slice.clamp_of_le hskip, Slice.clamp_of_le (hprice.trans hskip), base.amount_self,
        Int.ceil_zero, zero_add]
      exact ih hbottom hskip hleft hr.symm hbelow
    | ended n hliquidity hprice hlower _ _ hr =>
      obtain rfl : q = _ := Except.ok.inj hr
      have hPn : P < n := hPq
      refine absurd (hhere ?_) hliquidity
      rw [Slice.clamp_of_mem hlower.le (hprice.trans hhigh)]
      unfold Slice.clamp
      omega
    | crossed hne hlower hpaid hr =>
      have hprice := (sold_of_sellAlong hrest hrest.le le_rfl (sub_nonneg.mpr hpaid) hr.symm).price_le
      have hcharge := ih hrest.le le_rfl (sub_nonneg.mpr hpaid) hr.symm hbelow
      simp only at hcharge hprice
      rw [base.charge_cons, Slice.clamp_of_mem hlower.le hhigh, Slice.clamp_of_le hprice,
        base.charge_congr (fun _ _ => rfl) (hrest.clamp_eq hlower.le)]
      omega

end IdleRanges

/-! ### Two trades and one on a curve -/

namespace Curve

variable {curve : Curve} {price amount a b c P : Int} {fill x y z : Fill}

private theorem charge_lt_of_buy (h : (curve.buy price amount).result = .ok fill) (hP : price ≤ P)
    (hlt : P < fill.price) (hidle : Idle curve.slices P fill.price) : quote.charge curve.slices price P < amount := by
  obtain ⟨hstart, hend, hamount, -, hwalk⟩ := buyAlong_of_buy h
  have hleft := buyAlong_charge_lt curve.slices_ascending hstart hend hamount hwalk hP hlt hidle
  exact hleft

private theorem charge_lt_of_sell (h : (curve.sell price amount).result = .ok fill) (hP : P ≤ price)
    (hlt : fill.price < P) (hidle : Idle curve.slices fill.price P) : base.charge curve.slices P price < amount := by
  obtain ⟨hstart, hend, hamount, -, hwalk⟩ := sellAlong_of_sell h
  have hleft := sellAlong_charge_lt curve.slices_ascending.reverse hstart hend hamount hwalk hlt hP
    (Idle.reverse_iff.mpr hidle)
  rwa [base.charge_reverse] at hleft

theorem charge_eq_of_sell (h : (curve.sell price amount).result = .ok fill) (hlt : P < fill.price)
    (hidle : Idle curve.slices P fill.price) : base.charge curve.slices fill.price price = amount := by
  obtain ⟨hstart, hend, hamount, -, hwalk⟩ := sellAlong_of_sell h
  have hpaid := sellAlong_charge_eq curve.slices_ascending.reverse hstart hend hamount hwalk rfl hlt
    (Idle.reverse_iff.mpr hidle)
  rwa [base.charge_reverse] at hpaid

/-- Two purchases end no higher than one of at least both amounts. -/
theorem buy_split_price_le (hx : (curve.buy price a).result = .ok x) (hy : (curve.buy x.price b).result = .ok y)
    (hz : (curve.buy price c).result = .ok z) (h : a + b ≤ c) : y.price ≤ z.price := by
  obtain ⟨-, -, hfirst⟩ := bought_of_buy hx
  obtain ⟨-, -, hsecond⟩ := bought_of_buy hy
  obtain ⟨-, -, hwhole⟩ := bought_of_buy hz
  have ha := hfirst.cost_eq
  have hb := hsecond.cost_eq
  have hc := hwhole.cost_eq
  have hb_nonneg : 0 ≤ b := (buyAlong_of_buy hy).2.2.1
  have hprice : price ≤ z.price := hwhole.le_price
  by_contra hbeyond
  have hlt : z.price < y.price := by omega
  -- The whole amount pays for the end of the second purchase, so only an idle range can lie before it.
  have hsplit : quote.charge curve.slices price y.price ≤
      quote.charge curve.slices price x.price + quote.charge curve.slices x.price y.price := quote.charge_le_add
  have hidle : Idle curve.slices z.price y.price := by
    rcases hwhole.greatest rfl y.price hlt with hcost | hidle
    · have : c < quote.charge curve.slices price y.price := hcost
      omega
    · exact hidle
  -- One of the two purchases entered that range, with quote left that the whole would have spent.
  rcases le_or_gt x.price z.price with hafter | hbefore
  · have hleft := charge_lt_of_buy hy hafter hlt hidle
    have hsum : quote.charge curve.slices price z.price ≤
        quote.charge curve.slices price x.price + quote.charge curve.slices x.price z.price := quote.charge_le_add
    omega
  · have hy_price : x.price ≤ y.price := hsecond.le_price
    have hleft := charge_lt_of_buy hx hprice hbefore (hidle.mono le_rfl hy_price)
    omega

/-- Two sales end no lower than one of at least both amounts. -/
private theorem sell_split_le_price (hx : (curve.sell price a).result = .ok x)
    (hy : (curve.sell x.price b).result = .ok y)
    (hz : (curve.sell price c).result = .ok z) (h : a + b ≤ c) : z.price ≤ y.price := by
  obtain ⟨-, -, hfirst⟩ := sold_of_sell hx
  obtain ⟨-, -, hsecond⟩ := sold_of_sell hy
  obtain ⟨-, -, hwhole⟩ := sold_of_sell hz
  have ha := hfirst.cost_le
  have hb := hsecond.cost_le
  have hb_nonneg : 0 ≤ b := (sellAlong_of_sell hy).2.2.1
  have hprice : z.price ≤ price := hwhole.price_le
  by_contra hbeyond
  have hlt : y.price < z.price := by omega
  have hsplit : base.charge curve.slices y.price price ≤
      base.charge curve.slices y.price x.price + base.charge curve.slices x.price price := base.charge_le_add
  have hidle : Idle curve.slices y.price z.price := by
    rcases hwhole.least rfl y.price hlt with hcost | hidle
    · have : c < base.charge curve.slices y.price price := hcost
      omega
    · exact hidle
  -- Above an idle range the whole has stopped without excess.
  have hc := charge_eq_of_sell hz hlt hidle
  rcases le_or_gt z.price x.price with hafter | hbefore
  · have hleft := charge_lt_of_sell hy hafter hlt hidle
    have hsum : base.charge curve.slices z.price price ≤
        base.charge curve.slices z.price x.price + base.charge curve.slices x.price price := base.charge_le_add
    omega
  · have hy_price : y.price ≤ x.price := hsecond.price_le
    have hleft := charge_lt_of_sell hx hprice hbefore (hidle.mono hy_price le_rfl)
    omega

theorem buy_split_output_le (hx : (curve.buy price a).result = .ok x) (hy : (curve.buy x.price b).result = .ok y)
    (hz : (curve.buy price c).result = .ok z) (h : a + b ≤ c) : x.output + y.output ≤ z.output := by
  obtain ⟨-, -, hfirst⟩ := bought_of_buy hx
  obtain ⟨-, -, hsecond⟩ := bought_of_buy hy
  obtain ⟨-, -, hwhole⟩ := bought_of_buy hz
  have hbeyond := base.payout_nonneg curve.slices_ascending.valid (buy_split_price_le hx hy hz h)
  rw [hfirst.output_eq, hsecond.output_eq, hwhole.output_eq]
  calc base.payout curve.slices price x.price + base.payout curve.slices x.price y.price
      ≤ base.payout curve.slices price y.price := base.payout_add_le
    _ ≤ base.payout curve.slices price y.price + base.payout curve.slices y.price z.price := by omega
    _ ≤ base.payout curve.slices price z.price := base.payout_add_le

private theorem sell_split_output_le (hx : (curve.sell price a).result = .ok x)
    (hy : (curve.sell x.price b).result = .ok y)
    (hz : (curve.sell price c).result = .ok z) (h : a + b ≤ c) : x.output + y.output ≤ z.output := by
  obtain ⟨-, -, hfirst⟩ := sold_of_sell hx
  obtain ⟨-, -, hsecond⟩ := sold_of_sell hy
  obtain ⟨-, -, hwhole⟩ := sold_of_sell hz
  have hbeyond := quote.payout_nonneg curve.slices_ascending.valid (sell_split_le_price hx hy hz h)
  rw [hfirst.output_eq, hsecond.output_eq, hwhole.output_eq]
  calc quote.payout curve.slices x.price price + quote.payout curve.slices y.price x.price
      = quote.payout curve.slices y.price x.price + quote.payout curve.slices x.price price := add_comm _ _
    _ ≤ quote.payout curve.slices y.price price := quote.payout_add_le
    _ ≤ quote.payout curve.slices z.price y.price + quote.payout curve.slices y.price price := by omega
    _ ≤ quote.payout curve.slices z.price price := quote.payout_add_le

/-! ### An amount that only two trades can bring in -/

/-- One purchase runs out of liquidity where two do not by no more than a unit. -/
theorem buy_split_remaining (hx : (curve.buy price a).result = .ok x) (hy : (curve.buy x.price b).result = .ok y)
    {requested available remaining : Int}
    (h : (curve.buy price (a + b)).result = .error (.insufficientLiquidity requested available remaining)) :
    remaining = 1 := by
  obtain ⟨hstart, hend, hfirst⟩ := bought_of_buy hx
  obtain ⟨-, -, hsecond⟩ := bought_of_buy hy
  have ha_nonneg : 0 ≤ a := (buyAlong_of_buy hx).2.2.1
  have hb_nonneg : 0 ≤ b := (buyAlong_of_buy hy).2.2.1
  obtain ⟨q, hwhole, hq⟩ := curve.buy_result hstart hend (add_nonneg ha_nonneg hb_nonneg)
  obtain ⟨hleft, -, -, rfl⟩ := Progress.finish_eq_insufficientLiquidity_iff.mp (hq.symm.trans h)
  have hspent : q.left + quote.charge curve.slices price q.price = a + b := hwhole.spent
  have hsum := curve.slices_ascending.charge_add_le quote hfirst.le_price hsecond.le_price
  rw [hfirst.cost_eq, hsecond.cost_eq] at hsum
  have hmono : quote.charge curve.slices price y.price ≤ quote.charge curve.slices price q.price := by
    rw [hwhole.exhausted.resolve_left hleft]
    exact quote.charge_mono curve.slices_ascending.valid hsecond.price_le
  have hnonneg := hwhole.left_nonneg
  simp only at hsum
  omega

/-- One sale runs out of liquidity where two do not by no more than a unit and what the two gave in excess. -/
theorem sell_split_remaining (hx : (curve.sell price a).result = .ok x) (hy : (curve.sell x.price b).result = .ok y)
    {requested available remaining : Int}
    (h : (curve.sell price (a + b)).result = .error (.insufficientLiquidity requested available remaining)) :
    remaining ≤ (a - base.charge curve.slices x.price price) + (b - base.charge curve.slices y.price x.price) + 1 := by
  obtain ⟨hstart, hend, hfirst⟩ := sold_of_sell hx
  obtain ⟨-, -, hsecond⟩ := sold_of_sell hy
  have ha_nonneg : 0 ≤ a := (sellAlong_of_sell hx).2.2.1
  have hb_nonneg : 0 ≤ b := (sellAlong_of_sell hy).2.2.1
  obtain ⟨q, hwhole, hq⟩ := curve.sell_result hstart hend (add_nonneg ha_nonneg hb_nonneg)
  obtain ⟨hleft, -, -, rfl⟩ := Progress.finish_eq_insufficientLiquidity_iff.mp (hq.symm.trans h)
  have hspent : q.left + base.charge curve.slices q.price price = a + b := hwhole.spent hleft
  have hsum := curve.slices_ascending.charge_add_le base hsecond.price_le hfirst.price_le
  have hmono : base.charge curve.slices y.price price ≤ base.charge curve.slices q.price price := by
    rw [hwhole.exhausted.resolve_left hleft]
    exact base.charge_anti curve.slices_ascending.valid hsecond.le_price
  simp only at hsum
  omega

/-- Two segments that take up 2000 of quote each; few amounts of quote end on a whole unit of the price. -/
def twoStep : Curve where
  sqrtStartPrice := 18446744073709551616
  segments :=
    [⟨36893488147419103232, 36893488147419103232000, by decide, by decide⟩,
      ⟨73786976294838206464, 18446744073709551616000, by decide, by decide⟩]
  start_mem := by decide
  segments_ne_nil := by decide
  length_le := by decide
  increasing := ⟨by decide, by decide, trivial⟩

/-- A single unit of the price, with more base than many a sale brings in. -/
def oneUnit : Curve where
  sqrtStartPrice := 2 ^ 33
  segments := [⟨2 ^ 33 + 1, 2 ^ 126, by decide, by decide⟩]
  start_mem := by decide
  segments_ne_nil := by decide
  length_le := by decide
  increasing := ⟨by decide, trivial⟩

end Curve

/-! ### Two trades and one with fees -/

section Fees

variable {curve : Curve} {price a b numerator : Int} {direction : TradeDirection} {mode : FeeMode} {referral : Bool}
  {first second whole : SwapResult}

private theorem split_of_simulateSwap
    (hfirst : (simulateSwap curve price a direction numerator mode referral).result = .ok first)
    (hsecond : (simulateSwap curve first.nextSqrtPrice b direction numerator mode referral).result = .ok second)
    (hwhole : (simulateSwap curve price (a + b) direction numerator mode referral).result = .ok whole) :
    first.output + second.output ≤ whole.output ∧
      (direction = .quoteToBase → second.nextSqrtPrice ≤ whole.nextSqrtPrice) ∧
      (direction = .baseToQuote → whole.nextSqrtPrice ≤ second.nextSqrtPrice) := by
  obtain ⟨hn, -, x, hx, hxout, hxnext⟩ := trade_of_simulateSwap hfirst
  obtain ⟨-, -, y, hy, hyout, hynext⟩ := trade_of_simulateSwap hsecond
  obtain ⟨-, -, z, hz, hzout, hznext⟩ := trade_of_simulateSwap hwhole
  rw [hxnext] at hy
  rw [hxout, hyout, hzout, hynext, hznext]
  -- The fees on the parts take no less than the fee on the whole, from the input and from the output.
  have hinput := lessFee_add_le hn (feeOnInput direction mode) (le_refl (a + b))
  cases direction with
  | quoteToBase =>
    have houtput := Curve.buy_split_output_le hx hy hz hinput
    have hprice := Curve.buy_split_price_le hx hy hz hinput
    exact ⟨lessFee_add_le hn _ houtput, fun _ => hprice, nofun⟩
  | baseToQuote =>
    have houtput := Curve.sell_split_output_le hx hy hz hinput
    have hprice := Curve.sell_split_le_price hx hy hz hinput
    exact ⟨lessFee_add_le hn _ houtput, nofun, fun _ => hprice⟩

private theorem split_remaining_of_simulateSwap
    (hfirst : (simulateSwap curve price a direction 0 mode referral).result = .ok first)
    (hsecond : (simulateSwap curve first.nextSqrtPrice b direction 0 mode referral).result = .ok second)
    (hsum : a + b ≤ u64Max) {requested available remaining : Int}
    (hwhole : (simulateSwap curve price (a + b) direction 0 mode referral).result =
      .error (.insufficientLiquidity requested available remaining)) :
    (direction = .quoteToBase → remaining = 1) ∧
      (direction = .baseToQuote → remaining ≤
        (a - base.charge curve.slices first.nextSqrtPrice price) +
          (b - base.charge curve.slices second.nextSqrtPrice first.nextSqrtPrice) + 1) := by
  obtain ⟨hn, ha, x, hx, -, hxnext⟩ := trade_of_simulateSwap hfirst
  obtain ⟨-, hb, y, hy, -, hynext⟩ := trade_of_simulateSwap hsecond
  have hab : IsU64 (a + b) := ⟨add_nonneg ha.1 hb.1, hsum⟩
  rw [hxnext] at hy
  rw [hxnext, hynext]
  rw [lessFee_zero] at hx hy
  have hz : (curve.trade price (a + b) direction).result =
      .error (.insufficientLiquidity requested available remaining) := by
    have hfailed := trade_error_of_simulateSwap hn hab hwhole
    rwa [lessFee_zero] at hfailed
  cases direction with
  | quoteToBase => exact ⟨fun _ => Curve.buy_split_remaining hx hy hz, nofun⟩
  | baseToQuote => exact ⟨nofun, fun _ => Curve.sell_split_remaining hx hy hz⟩

/-- Two trades that follow each other pay out no more than one trade of both amounts, and end no further.  Without
fees, the one trade runs out of liquidity only by what rounding adds to the charges of two trades: a purchase by one
unit, a sale by one unit and what the two sales gave beyond the charges of the ranges they crossed. -/
theorem simulateSwap_split_le
    (hfirst : (simulateSwap curve price a direction numerator mode referral).result = .ok first)
    (hsecond : (simulateSwap curve first.nextSqrtPrice b direction numerator mode referral).result = .ok second)
    (hsum : a + b ≤ u64Max) :
    (∀ whole, (simulateSwap curve price (a + b) direction numerator mode referral).result = .ok whole →
      first.output + second.output ≤ whole.output ∧
      (direction = .quoteToBase → second.nextSqrtPrice ≤ whole.nextSqrtPrice) ∧
      (direction = .baseToQuote → whole.nextSqrtPrice ≤ second.nextSqrtPrice)) ∧
    (numerator = 0 → ∀ requested available remaining,
      (simulateSwap curve price (a + b) direction numerator mode referral).result =
        .error (.insufficientLiquidity requested available remaining) →
      (direction = .quoteToBase → remaining = 1) ∧
      (direction = .baseToQuote → ∃ cost₁ cost₂,
        base.sumOf .up (curve.between first.nextSqrtPrice price) = .ok cost₁ ∧
        base.sumOf .up (curve.between second.nextSqrtPrice first.nextSqrtPrice) = .ok cost₂ ∧
        remaining ≤ (a - cost₁) + (b - cost₂) + 1)) := by
  refine ⟨fun whole hwhole => split_of_simulateSwap hfirst hsecond hwhole, ?_⟩
  rintro rfl requested available remaining hwhole
  obtain ⟨hbuy, hsell⟩ := split_remaining_of_simulateSwap hfirst hsecond hsum hwhole
  refine ⟨hbuy, ?_⟩
  rintro rfl
  obtain ⟨fill₁, hexec₁⟩ := executed_of_simulateSwap hfirst
  obtain ⟨fill₂, hexec₂⟩ := executed_of_simulateSwap hsecond
  obtain ⟨-, -, hsold₁⟩ := hexec₁.sold
  obtain ⟨-, -, hsold₂⟩ := hexec₂.sold
  have hv := curve.slices_ascending.valid
  exact ⟨_, _, base.sumOf_up hv hsold₁.price_le, base.sumOf_up hv hsold₂.price_le, hsell rfl⟩

/-- A purchase in two parts with fees, and without fees a purchase and a sale whose parts outlast the whole. -/
theorem simulateSwap_split_le_across_gap :
    (let first : SwapResult := ⟨30000, 29700, 20437, 26806550882016034816, ⟨240, 48, 12⟩, true⟩
      let second : SwapResult := ⟨40000, 39600, 12744, 55869968127298109440, ⟨320, 64, 16⟩, true⟩
      let whole : SwapResult := ⟨70000, 69300, 33182, 55869968127298109440, ⟨560, 112, 28⟩, true⟩
      (simulateSwap .gapped (2 ^ 64) 30000 .quoteToBase (10 ^ 7) .quoteToken true).result = .ok first ∧
      (simulateSwap .gapped first.nextSqrtPrice 40000 .quoteToBase (10 ^ 7) .quoteToken true).result = .ok second ∧
      (simulateSwap .gapped (2 ^ 64) (30000 + 40000) .quoteToBase (10 ^ 7) .quoteToken true).result = .ok whole ∧
      first.output + second.output ≤ whole.output ∧ second.nextSqrtPrice ≤ whole.nextSqrtPrice) ∧
    (∃ (first second : SwapResult) (remaining : Int),
      (simulateSwap .twoStep (2 ^ 64) 1001 .quoteToBase 0 .quoteToken false).result = .ok first ∧
      (simulateSwap .twoStep first.nextSqrtPrice 3000 .quoteToBase 0 .quoteToken false).result = .ok second ∧
      (simulateSwap .twoStep (2 ^ 64) (1001 + 3000) .quoteToBase 0 .quoteToken false).result =
        .error (.insufficientLiquidity 4001 4000 remaining) ∧ remaining = 1) ∧
    ∃ (first second : SwapResult) (cost₁ cost₂ : Int),
      (simulateSwap .oneUnit (2 ^ 33 + 1) (10 ^ 18) .baseToQuote 0 .quoteToken false).result = .ok first ∧
      (simulateSwap .oneUnit first.nextSqrtPrice (10 ^ 18) .baseToQuote 0 .quoteToken false).result = .ok second ∧
      (simulateSwap .oneUnit (2 ^ 33 + 1) (10 ^ 18 + 10 ^ 18) .baseToQuote 0 .quoteToken false).result =
        .error (.insufficientLiquidity 2000000000000000000 1152921504472629249 847078495527370751) ∧
      base.sumOf .up (Curve.oneUnit.between first.nextSqrtPrice (2 ^ 33 + 1)) = .ok cost₁ ∧
      base.sumOf .up (Curve.oneUnit.between second.nextSqrtPrice first.nextSqrtPrice) = .ok cost₂ ∧
      847078495527370751 ≤ (10 ^ 18 - cost₁) + (10 ^ 18 - cost₂) + 1 := by
  refine ⟨?_, ?_, ?_⟩
  · intro first second whole
    have hfirst : (simulateSwap .gapped (2 ^ 64) 30000 .quoteToBase (10 ^ 7) .quoteToken true).result = .ok first := rfl
    have hsecond : (simulateSwap .gapped first.nextSqrtPrice 40000 .quoteToBase (10 ^ 7) .quoteToken true).result =
        .ok second := rfl
    have hwhole : (simulateSwap .gapped (2 ^ 64) (30000 + 40000) .quoteToBase (10 ^ 7) .quoteToken true).result =
        .ok whole := rfl
    obtain ⟨houtput, hprice, -⟩ := (simulateSwap_split_le hfirst hsecond (by decide)).1 whole hwhole
    exact ⟨hfirst, hsecond, hwhole, houtput, hprice rfl⟩
  · have hfirst : (simulateSwap .twoStep (2 ^ 64) 1001 .quoteToBase 0 .quoteToken false).result =
        .ok ⟨1001, 1001, 667, 27679339482601182199, ⟨0, 0, 0⟩, true⟩ := rfl
    have hsecond : (simulateSwap .twoStep 27679339482601182199 3000 .quoteToBase 0 .quoteToken false).result =
        .ok ⟨3000, 3000, 582, 73786976294838206464, ⟨0, 0, 0⟩, true⟩ := rfl
    have hwhole : (simulateSwap .twoStep (2 ^ 64) (1001 + 3000) .quoteToBase 0 .quoteToken false).result =
        .error (.insufficientLiquidity 4001 4000 1) := rfl
    obtain ⟨hremaining, -⟩ := (simulateSwap_split_le hfirst hsecond (by decide)).2 rfl _ _ _ hwhole
    exact ⟨_, _, _, hfirst, hsecond, hwhole, hremaining rfl⟩
  · have hfirst : (simulateSwap .oneUnit (2 ^ 33 + 1) (10 ^ 18) .baseToQuote 0 .quoteToken false).result =
        .ok ⟨10 ^ 18, 10 ^ 18, 0, 2 ^ 33 + 1, ⟨0, 0, 0⟩, false⟩ := rfl
    have hwhole : (simulateSwap .oneUnit (2 ^ 33 + 1) (10 ^ 18 + 10 ^ 18) .baseToQuote 0 .quoteToken false).result =
        .error (.insufficientLiquidity 2000000000000000000 1152921504472629249 847078495527370751) := rfl
    -- Neither sale moves the price, so the second one is the first one again.
    obtain ⟨-, hsold⟩ := (simulateSwap_split_le hfirst hfirst (by decide)).2 rfl _ _ _ hwhole
    obtain ⟨cost₁, cost₂, hcost₁, hcost₂, hle⟩ := hsold rfl
    exact ⟨_, _, cost₁, cost₂, hfirst, hfirst, hwhole, hcost₁, hcost₂, hle⟩

/-- Purchases and sales in two parts where the whole runs out of liquidity, without fees. -/
theorem simulateSwap_split_outlasts_whole :
    (∃ first second,
      (simulateSwap .twoStep (2 ^ 64) 1001 .quoteToBase 0 .quoteToken false).result = .ok first ∧
      (simulateSwap .twoStep first.nextSqrtPrice 3000 .quoteToBase 0 .quoteToken false).result = .ok second ∧
      (simulateSwap .twoStep (2 ^ 64) (1001 + 3000) .quoteToBase 0 .quoteToken false).result =
        .error (.insufficientLiquidity 4001 4000 1)) ∧
    ∃ first second,
      (simulateSwap .oneUnit (2 ^ 33 + 1) (10 ^ 18) .baseToQuote 0 .quoteToken false).result = .ok first ∧
      (simulateSwap .oneUnit first.nextSqrtPrice (10 ^ 18) .baseToQuote 0 .quoteToken false).result = .ok second ∧
      (simulateSwap .oneUnit (2 ^ 33 + 1) (10 ^ 18 + 10 ^ 18) .baseToQuote 0 .quoteToken false).result =
        .error (.insufficientLiquidity 2000000000000000000 1152921504472629249 847078495527370751) :=
  ⟨⟨_, _, rfl, rfl, rfl⟩, _, _, rfl, rfl, rfl⟩

end Fees

end BondingCurve
