import BondingCurve.Integral
import Mathlib.Algebra.Order.Floor.Ring
import Mathlib.Data.Rat.Floor
import Mathlib.Tactic.FieldSimp
import Mathlib.Tactic.Linarith
import Mathlib.Tactic.Positivity
import Mathlib.Tactic.Ring

/-!
# Exact amounts

The amount of a token that a liquidity `L` holds between two prices is `L` times the difference of a level that
grows with the price: `-1 / P` for base and `P / 2 ^ 128` for quote.  So the two tokens obey the same laws, and a
rounded amount is the floor or the ceiling of an exact one (`Token.between_up`, `Token.between_down`).

* (additivity) exact amounts of neighbouring ranges add up (`Token.amount_add`), and rounding loses or gains only in
  the direction that it has (`Token.ceil_amount_le_add`, `Token.ceil_amount_add_floor_le`);
* (next prices) a price solved from an input is the last one that the input can pay for: `ceil_base_le_iff` and
  `ceil_quote_le_iff` state this as an adjunction.
-/

namespace BondingCurve

/-! ### Quotients as floors and ceilings -/

theorem ceilDiv_eq_ceil {a b : Int} (hb : 0 < b) : ceilDiv a b = ⌈(a : ℚ) / b⌉ := by
  have hb' : (0 : ℚ) < b := by exact_mod_cast hb
  apply eq_of_forall_ge_iff
  intro n
  rw [ceilDiv_le_iff hb, Int.ceil_le, div_le_iff₀ hb']
  exact_mod_cast Iff.rfl

theorem ediv_eq_floor {a b : Int} (hb : 0 < b) : a / b = ⌊(a : ℚ) / b⌋ := by
  have hb' : (0 : ℚ) < b := by exact_mod_cast hb
  apply eq_of_forall_le_iff
  intro n
  rw [Int.le_ediv_iff_mul_le hb, Int.le_floor, le_div_iff₀ hb']
  exact_mod_cast Iff.rfl

/-- A part rounded up and a part rounded down are together at most the whole rounded up. -/
private theorem ceil_add_floor_le_ceil (x y : ℚ) : ⌈x⌉ + ⌊y⌋ ≤ ⌈x + y⌉ := by
  rw [← Int.ceil_add_intCast]
  exact Int.ceil_le_ceil (by linarith [Int.floor_le y])

/-! ### The two tokens -/

/-- One of the two tokens that a curve trades. -/
inductive Token
  | base
  | quote
  deriving DecidableEq, Repr

namespace Token

/-- The amount that a unit of liquidity holds below a price, up to a constant. -/
def level : Token → Int → ℚ
  | base, p => -1 / p
  | quote, p => p / quoteScale

/-- The exact amount that a liquidity holds between two prices. -/
def amount (t : Token) (l u L : Int) : ℚ := L * (t.level u - t.level l)

/-- The rounded amount that a liquidity holds between two prices. -/
def between : Token → Int → Int → Int → Rounding → Except CurveError Int
  | base => baseBetween
  | quote => quoteBetween

variable {l m u L : Int}

private theorem level_lt_level (t : Token) (hl : 0 < l) (hu : l < u) : t.level l < t.level u := by
  have hl' : (0 : ℚ) < l := by exact_mod_cast hl
  have hlu : (l : ℚ) < u := by exact_mod_cast hu
  cases t with
  | base =>
    have h : (1 : ℚ) / u < 1 / l := one_div_lt_one_div_of_lt hl' hlu
    simp only [level, neg_div]
    linarith
  | quote => exact (div_lt_div_iff_of_pos_right (by norm_num [quoteScale])).mpr hlu

theorem level_le_level (t : Token) (hl : 0 < l) (hu : l ≤ u) : t.level l ≤ t.level u := by
  rcases hu.eq_or_lt with rfl | hu
  · exact le_rfl
  · exact (t.level_lt_level hl hu).le

@[simp] theorem amount_self (t : Token) (l L : Int) : t.amount l l L = 0 := by
  simp [amount]

@[simp] theorem amount_zero (t : Token) (l u : Int) : t.amount l u 0 = 0 := by
  simp [amount]

theorem amount_add (t : Token) (l m u L : Int) : t.amount l m L + t.amount m u L = t.amount l u L := by
  simp only [amount]
  ring

theorem amount_nonneg (t : Token) (hl : 0 < l) (hu : l ≤ u) (hL : 0 ≤ L) : 0 ≤ t.amount l u L := by
  have hL' : (0 : ℚ) ≤ L := by exact_mod_cast hL
  exact mul_nonneg hL' (sub_nonneg.mpr (t.level_le_level hl hu))

theorem amount_pos (t : Token) (hl : 0 < l) (hu : l < u) (hL : 0 < L) : 0 < t.amount l u L := by
  have hL' : (0 : ℚ) < L := by exact_mod_cast hL
  exact mul_pos hL' (sub_pos.mpr (t.level_lt_level hl hu))

theorem amount_base_eq (hl : 0 < l) (hu : 0 < u) : base.amount l u L = ((L * (u - l) : Int) : ℚ) / (l * u : Int) := by
  have hl' : (l : ℚ) ≠ 0 := by exact_mod_cast hl.ne'
  have hu' : (u : ℚ) ≠ 0 := by exact_mod_cast hu.ne'
  simp only [amount, level]
  push_cast
  field_simp
  ring

theorem amount_quote_eq (l u L : Int) : quote.amount l u L = ((L * (u - l) : Int) : ℚ) / quoteScale := by
  simp only [amount, level]
  push_cast
  ring

/-- What a trader pays for a range: the exact amount rounded up. -/
theorem between_up (t : Token) (hl : 0 < l) (hu : l ≤ u) (hL : 0 ≤ L) :
    t.between l u L .up = .ok ⌈t.amount l u L⌉ := by
  cases t with
  | base =>
    rw [amount_base_eq hl (hl.trans_le hu), ← ceilDiv_eq_ceil (mul_pos hl (hl.trans_le hu))]
    exact baseBetween_up hl hu hL
  | quote =>
    rw [amount_quote_eq, ← ceilDiv_eq_ceil (by decide)]
    exact quoteBetween_up hl hu hL

/-- What a trader receives for a range: the exact amount rounded down. -/
theorem between_down (t : Token) (hl : 0 < l) (hu : l ≤ u) (hL : 0 ≤ L) :
    t.between l u L .down = .ok ⌊t.amount l u L⌋ := by
  cases t with
  | base =>
    rw [amount_base_eq hl (hl.trans_le hu), ← ediv_eq_floor (mul_pos hl (hl.trans_le hu))]
    exact baseBetween_down hl hu hL
  | quote =>
    rw [amount_quote_eq, ← ediv_eq_floor (by decide)]
    exact quoteBetween_down hl hu hL

/-- Paying for a range in two parts is never cheaper. -/
theorem ceil_amount_le_add (t : Token) (l m u L : Int) :
    ⌈t.amount l u L⌉ ≤ ⌈t.amount l m L⌉ + ⌈t.amount m u L⌉ := by
  rw [← t.amount_add l m u L]
  exact Int.ceil_add_le _ _

/-- What was paid for a range covers what its lower part costs and what its upper part pays back. -/
theorem ceil_amount_add_floor_le (t : Token) (l m u L : Int) :
    ⌈t.amount l m L⌉ + ⌊t.amount m u L⌋ ≤ ⌈t.amount l u L⌉ := by
  rw [← t.amount_add l m u L]
  exact ceil_add_floor_le_ceil _ _

/-- Paying for a range in two parts costs at most one unit more. -/
theorem ceil_amount_add_le (t : Token) (l m u L : Int) :
    ⌈t.amount l m L⌉ + ⌈t.amount m u L⌉ ≤ ⌈t.amount l u L⌉ + 1 := by
  rw [← t.amount_add l m u L]
  exact Int.ceil_add_ceil_le _ _

/-- Being paid for a range in two parts never pays more. -/
theorem floor_amount_add_le (t : Token) (l m u L : Int) :
    ⌊t.amount l m L⌋ + ⌊t.amount m u L⌋ ≤ ⌊t.amount l u L⌋ := by
  rw [← t.amount_add l m u L]
  exact Int.le_floor_add _ _

/-- Being paid for a range in two parts pays at most one unit less. -/
theorem floor_amount_le_add (t : Token) (l m u L : Int) :
    ⌊t.amount l u L⌋ ≤ ⌊t.amount l m L⌋ + ⌊t.amount m u L⌋ + 1 := by
  rw [← t.amount_add l m u L, ← sub_le_iff_le_add]
  exact Int.le_floor_add_floor _ _

/-! ### Next prices -/

section NextPrices

variable {c p n a : Int}

/-- The prices that an input of base can pay for, coming from `p`, are those from the next price on. -/
theorem ceil_base_le_iff (hn : 0 < n) (hp : 0 < p) (hL : 0 < L) (ha : 0 ≤ a) :
    ⌈base.amount n p L⌉ ≤ a ↔ ceilDiv (p * L) (L + a * p) ≤ n := by
  have hd : 0 < L + a * p := add_pos_of_pos_of_nonneg hL (mul_nonneg ha hp.le)
  rw [amount_base_eq hn hp, ← ceilDiv_eq_ceil (mul_pos hn hp), ceilDiv_le_iff (mul_pos hn hp), ceilDiv_le_iff hd]
  constructor <;> intro h <;> linarith

/-- The prices that an input of quote can pay for, coming from `c`, are those up to the next price. -/
theorem ceil_quote_le_iff (hL : 0 < L) : ⌈quote.amount c n L⌉ ≤ a ↔ n ≤ c + a * quoteScale / L := by
  rw [amount_quote_eq, ← ceilDiv_eq_ceil (by decide), ceilDiv_le_iff (by decide), ← sub_le_iff_le_add',
    Int.le_ediv_iff_mul_le hL, mul_comm]

/-- A liquidity below `2 ^ 128` moves the price by the whole input: no unit of quote is lost. -/
theorem ceil_quote_next_eq (hL : 0 < L) (hL' : L ≤ u128Max) (a : Int) :
    ⌈quote.amount c (c + a * quoteScale / L) L⌉ = a := by
  apply le_antisymm
  · rw [ceil_quote_le_iff hL]
  · have hQ : u128Max < quoteScale := by decide
    have hlt : a * quoteScale < (a * quoteScale / L + 1) * L := Int.lt_ediv_add_one_mul_self _ hL
    rw [← Int.sub_one_lt_iff, amount_quote_eq, ← ceilDiv_eq_ceil (by decide), lt_ceilDiv_iff (by decide)]
    linarith

theorem liquidity_ne_zero (t : Token) (ha : 0 ≤ a) (h : a < ⌈t.amount l u L⌉) : L ≠ 0 := by
  rintro rfl
  rw [t.amount_zero, Int.ceil_zero] at h
  omega

/-- An input of quote below what a range costs ends inside the range and is used up. -/
theorem priceAfterQuote_inside (hc : 0 < c) (hu : u ≤ u128Max) (hL : IsU128 L) (ha : 0 < a)
    (h : a < ⌈quote.amount c u L⌉) :
    ∃ n, priceAfterQuote c L a = .ok n ∧ c ≤ n ∧ n < u ∧ ⌈quote.amount c n L⌉ = a ∧
      ∀ P, n < P → a < ⌈quote.amount c P L⌉ := by
  have hL₀ : 0 < L := hL.1.lt_of_ne' (quote.liquidity_ne_zero ha.le h)
  have hstop : ∀ P, c + a * quoteScale / L < P ↔ a < ⌈quote.amount c P L⌉ := by
    intro P
    rw [← not_le, ← ceil_quote_le_iff hL₀, not_le]
  have hstep : 0 ≤ a * quoteScale / L := Int.ediv_nonneg (mul_nonneg ha.le (by decide)) hL₀.le
  have hlt := (hstop u).mpr h
  refine ⟨c + a * quoteScale / L, ?_, by omega, hlt, ceil_quote_next_eq hL₀ hL.2 a, fun P => (hstop P).mp⟩
  rw [priceAfterQuote_eq hc.le hL₀ ha, checkedU128_eq_ok_iff]
  exact ⟨⟨by omega, by omega⟩, rfl⟩

/-- An input of base below what a range costs ends inside the range. -/
theorem priceAfterBase_inside (hl : 0 < l) (hlp : l ≤ p) (hp : p ≤ u128Max) (hL : 0 ≤ L) (ha : 0 < a)
    (h : a < ⌈base.amount l p L⌉) :
    ∃ n, priceAfterBase p L a = .ok n ∧ l < n ∧ n ≤ p ∧ ⌈base.amount n p L⌉ ≤ a ∧
      ∀ P, 0 < P → P < n → a < ⌈base.amount P p L⌉ := by
  have hp₀ : 0 < p := hl.trans_le hlp
  have hL₀ : 0 < L := hL.lt_of_ne' (base.liquidity_ne_zero ha.le h)
  have hstop : ∀ P, 0 < P → (P < ceilDiv (p * L) (L + a * p) ↔ a < ⌈base.amount P p L⌉) := by
    intro P hP
    rw [← not_le, ← ceil_base_le_iff hP hp₀ hL₀ ha.le, not_le]
  have hlt := (hstop l hl).mpr h
  have hle : ceilDiv (p * L) (L + a * p) ≤ p := by
    rw [← ceil_base_le_iff hp₀ hp₀ hL₀ ha.le]
    simpa using ha.le
  refine ⟨ceilDiv (p * L) (L + a * p), ?_, hlt, hle, ?_, fun P hP => (hstop P hP).mp⟩
  · rw [priceAfterBase_eq hp₀.le hL₀ ha, checkedU128_eq_ok_iff]
    exact ⟨⟨by omega, by omega⟩, rfl⟩
  · rw [ceil_base_le_iff (hl.trans hlt) hp₀ hL₀ ha.le]

end NextPrices

end Token

end BondingCurve
