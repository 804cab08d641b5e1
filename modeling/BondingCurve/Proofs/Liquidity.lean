import BondingCurve.Proofs.Amounts

/-!
# Liquidity of an amount

The liquidity that an amount backs over a range is the greatest one that the amount can pay for
(`Token.ceil_amount_le_iff`).  It is rounded down, but no unit of the amount is lost: over a range that is not wider
than the scale of its token, the liquidity costs exactly the amount (`Token.ceil_amount_backed`).  Every range is that
narrow for base, and every range of sqrt prices is for quote.  The liquidity of two amounts is the greatest that both
can pay for (`liquidity_tight`).
-/

namespace BondingCurve

private theorem ceilDiv_mul_le_iff {L d s n : Int} (hd : 0 < d) (hs : 0 < s) :
    ceilDiv (L * d) s ≤ n ↔ L ≤ n * s / d := by
  rw [ceilDiv_le_iff hs, Int.le_ediv_iff_mul_le hd]

/-- Rounding down by a step that is not longer than the scale loses less than a unit, which rounding up restores. -/
private theorem ceilDiv_ediv_mul {n d s : Int} (hd : 0 < d) (hds : d ≤ s) : ceilDiv (n * s / d * d) s = n := by
  have hs : 0 < s := hd.trans_le hds
  apply le_antisymm
  · rw [ceilDiv_mul_le_iff hd hs]
  · have hlt : n * s < (n * s / d + 1) * d := Int.lt_ediv_add_one_mul_self _ hd
    rw [← Int.sub_one_lt_iff, lt_ceilDiv_iff hs]
    linarith

namespace Token

/-- The denominator of the amounts of a token over a range. -/
def scale : Token → Int → Int → Int
  | base, l, u => l * u
  | quote, _, _ => quoteScale

/-- The liquidity that an amount backs over a range, rounded down. -/
def backed (t : Token) (l u x : Int) : Int := x * t.scale l u / (u - l)

variable {l u L x : Int}

private theorem scale_pos (t : Token) (hl : 0 < l) (hu : l < u) : 0 < t.scale l u := by
  cases t with
  | base => exact mul_pos hl (hl.trans hu)
  | quote => exact (by decide : 0 < quoteScale)

private theorem amount_eq (t : Token) (hl : 0 < l) (hu : l < u) :
    t.amount l u L = ((L * (u - l) : Int) : ℚ) / (t.scale l u : Int) := by
  cases t with
  | base => exact amount_base_eq hl (hl.trans hu)
  | quote => exact amount_quote_eq l u L

theorem ceil_amount_le_iff (t : Token) (hl : 0 < l) (hu : l < u) : ⌈t.amount l u L⌉ ≤ x ↔ L ≤ t.backed l u x := by
  rw [t.amount_eq hl hu, ← ceilDiv_eq_ceil (t.scale_pos hl hu), ceilDiv_mul_le_iff (by omega) (t.scale_pos hl hu)]
  rfl

theorem ceil_amount_backed (t : Token) (hl : 0 < l) (hu : l < u) (hwidth : u - l ≤ t.scale l u) (x : Int) :
    ⌈t.amount l u (t.backed l u x)⌉ = x := by
  rw [t.amount_eq hl hu, ← ceilDiv_eq_ceil (t.scale_pos hl hu)]
  exact ceilDiv_ediv_mul (by omega) hwidth

private theorem nonneg_of_between {t : Token} {rounding : Rounding} {b : Int} (h : t.between l u L rounding = .ok b) :
    0 ≤ L := by
  cases t <;>
    simp only [between, baseBetween, quoteBetween, bind_eq_ok_iff, nonNegative_eq_ok_iff] at h <;>
    obtain ⟨_, -, _, ⟨hL, -⟩, -⟩ := h <;>
    exact hL

/-- An amount can pay for the liquidities from zero up to the one that it backs. -/
private theorem exists_between_le_iff (t : Token) (hl : 0 < l) (hu : l < u) :
    (∃ b, t.between l u L .up = .ok b ∧ b ≤ x) ↔ 0 ≤ L ∧ L ≤ t.backed l u x := by
  constructor
  · rintro ⟨b, hb, hle⟩
    have hL := nonneg_of_between hb
    obtain rfl : b = ⌈t.amount l u L⌉ := Except.ok.inj (hb.symm.trans (t.between_up hl hu.le hL))
    exact ⟨hL, (t.ceil_amount_le_iff hl hu).mp hle⟩
  · rintro ⟨hL, hle⟩
    exact ⟨_, t.between_up hl hu.le hL, (t.ceil_amount_le_iff hl hu).mpr hle⟩

theorem width_le_scale_base (hl : 0 < l) (hu : l < u) : u - l ≤ base.scale l u := by
  have hle : 1 * u ≤ l * u := mul_le_mul_of_nonneg_right hl (by omega)
  simp only [scale]
  omega

theorem width_le_scale_quote (hl : 0 < l) (hu : u ≤ maxSqrtPrice) : u - l ≤ quote.scale l u := by
  have hmax : maxSqrtPrice ≤ quoteScale := by decide
  simp only [scale]
  omega

theorem backed_nonneg (t : Token) (hl : 0 < l) (hu : l < u) (hx : 0 ≤ x) : 0 ≤ t.backed l u x :=
  Int.ediv_nonneg (mul_nonneg hx (t.scale_pos hl hu).le) (by omega)

end Token

/-! ### Liquidities that were computed -/

section Computed

open Token (base quote)

variable {l u x L : Int}

theorem requireRange_eq_ok_iff {range : Int × Int} : requireRange l u = .ok range ↔ 0 < l ∧ l ≤ u ∧ range = (l, u) := by
  constructor
  · intro h
    simp only [requireRange, bind_eq_ok_iff, nonNegative_eq_ok_iff, ite_error_eq_ok_iff] at h
    obtain ⟨_, ⟨hl, rfl⟩, _, ⟨hu, rfl⟩, hzero, horder, ⟨⟩⟩ := h
    exact ⟨by omega, by omega, rfl⟩
  · rintro ⟨hl, hu, rfl⟩
    exact requireRange_eq hl hu

theorem liquidityFromBase_eq_ok_iff :
    liquidityFromBase x l u = .ok L ↔ 0 < l ∧ l < u ∧ 0 ≤ x ∧ L = base.backed l u x := by
  constructor
  · intro h
    simp only [liquidityFromBase, bind_eq_ok_iff, requireRange_eq_ok_iff, nonNegative_eq_ok_iff,
      ite_error_eq_ok_iff] at h
    obtain ⟨_, ⟨hl, hu, rfl⟩, _, ⟨hx, rfl⟩, hne, ⟨⟩⟩ := h
    rw [Token.backed, Token.scale, ← mul_assoc]
    exact ⟨hl, by omega, hx, rfl⟩
  · rintro ⟨hl, hu, hx, rfl⟩
    rw [liquidityFromBase_eq hl hu hx, Token.backed, Token.scale, mul_assoc]

theorem liquidityFromQuote_eq_ok_iff :
    liquidityFromQuote x l u = .ok L ↔ 0 < l ∧ l < u ∧ 0 ≤ x ∧ L = quote.backed l u x := by
  constructor
  · intro h
    simp only [liquidityFromQuote, bind_eq_ok_iff, requireRange_eq_ok_iff, nonNegative_eq_ok_iff,
      ite_error_eq_ok_iff] at h
    obtain ⟨_, ⟨hl, hu, rfl⟩, _, ⟨hx, rfl⟩, hne, ⟨⟩⟩ := h
    exact ⟨hl, by omega, hx, rfl⟩
  · rintro ⟨hl, hu, hx, rfl⟩
    exact liquidityFromQuote_eq hl hu hx

/-- The least of the liquidities that both tokens back. -/
theorem liquidityFromBoth_eq_ok_iff {y : Int} :
    (liquidityFromBoth x y l u).result = .ok L ↔
      0 < l ∧ l < u ∧ 0 ≤ x ∧ 0 ≤ y ∧ L = min (base.backed l u x) (quote.backed l u y) := by
  simp only [liquidityFromBoth, Traced.result_bind, Traced.result_liftM, Traced.result_emit, bind_eq_ok_iff,
    liquidityFromBase_eq_ok_iff, liquidityFromQuote_eq_ok_iff, Traced.result_pure, Except.ok.injEq]
  constructor
  · rintro ⟨_, ⟨hl, hu, hx, rfl⟩, _, ⟨-, -, hy, rfl⟩, _, -, rfl⟩
    exact ⟨hl, hu, hx, hy, rfl⟩
  · rintro ⟨hl, hu, hx, hy, rfl⟩
    exact ⟨_, ⟨hl, hu, hx, rfl⟩, _, ⟨hl, hu, hy, rfl⟩, (), trivial, rfl⟩

/-- The liquidity of an amount costs exactly the amount again, and the liquidity of two amounts is the greatest one
that costs no more than them. -/
theorem liquidity_tight {y : Int} (hl : 0 < l) (hu : l < u) (hwidth : u - l ≤ 2 ^ 128) (hx : 0 ≤ x) (hy : 0 ≤ y) :
    (∃ L, liquidityFromBase x l u = .ok L ∧ baseBetween l u L .up = .ok x) ∧
    (∃ L, liquidityFromQuote y l u = .ok L ∧ quoteBetween l u L .up = .ok y) ∧
    ∃ L, (liquidityFromBoth x y l u).result = .ok L ∧
      IsGreatest {L | (∃ b, baseBetween l u L .up = .ok b ∧ b ≤ x) ∧ ∃ q, quoteBetween l u L .up = .ok q ∧ q ≤ y} L := by
  have hbase_nonneg := base.backed_nonneg hl hu hx
  have hquote_nonneg := quote.backed_nonneg hl hu hy
  have hcost_base := base.between_up hl hu.le hbase_nonneg
  have hcost_quote := quote.between_up hl hu.le hquote_nonneg
  rw [base.ceil_amount_backed hl hu (Token.width_le_scale_base hl hu)] at hcost_base
  rw [quote.ceil_amount_backed hl hu hwidth] at hcost_quote
  refine ⟨⟨_, liquidityFromBase_eq_ok_iff.mpr ⟨hl, hu, hx, rfl⟩, hcost_base⟩,
    ⟨_, liquidityFromQuote_eq_ok_iff.mpr ⟨hl, hu, hy, rfl⟩, hcost_quote⟩,
    _, liquidityFromBoth_eq_ok_iff.mpr ⟨hl, hu, hx, hy, rfl⟩, ?_, ?_⟩
  · have hnonneg := le_min hbase_nonneg hquote_nonneg
    exact ⟨(base.exists_between_le_iff hl hu).mpr ⟨hnonneg, min_le_left _ _⟩,
      (quote.exists_between_le_iff hl hu).mpr ⟨hnonneg, min_le_right _ _⟩⟩
  · rintro L ⟨hb, hq⟩
    exact le_min ((base.exists_between_le_iff hl hu).mp hb).2 ((quote.exists_between_le_iff hl hu).mp hq).2

/-- Over a range as wide as the scale of the quote. -/
theorem liquidity_tight_widest :
    (∃ L, liquidityFromBase (5 : Int) 3 (3 + 2 ^ 128) = .ok L ∧ baseBetween 3 (3 + 2 ^ 128) L .up = .ok 5) ∧
    (∃ L, liquidityFromQuote (7 : Int) 3 (3 + 2 ^ 128) = .ok L ∧ quoteBetween 3 (3 + 2 ^ 128) L .up = .ok 7) ∧
    (liquidityFromBoth (5 : Int) 7 3 (3 + 2 ^ 128)).result = .ok 7 ∧
    IsGreatest {L : Int | (∃ b, baseBetween 3 (3 + 2 ^ 128) L .up = .ok b ∧ b ≤ 5) ∧
      ∃ q, quoteBetween 3 (3 + 2 ^ 128) L .up = .ok q ∧ q ≤ 7} 7 := by
  have hboth : (liquidityFromBoth (5 : Int) 7 3 (3 + 2 ^ 128)).result = .ok 7 := rfl
  obtain ⟨hbase, hquote, L, hL, hgreatest⟩ := liquidity_tight (l := 3) (u := 3 + 2 ^ 128) (x := 5) (y := 7) (by decide)
    (by decide) (by decide) (by decide) (by decide)
  obtain rfl : L = 7 := Except.ok.inj (hL.symm.trans hboth)
  exact ⟨hbase, hquote, hboth, hgreatest⟩

end Computed

end BondingCurve
