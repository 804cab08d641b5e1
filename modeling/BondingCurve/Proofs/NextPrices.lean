import BondingCurve.Proofs.Amounts
import Mathlib.Order.Bounds.Basic

/-!
# Next prices as optima

An input can pay for the prices whose distance costs no more than the input, the cost rounded up: those not above the
price for an input of base (`pricesForBase`), those not below it for an input of quote (`pricesForQuote`).  The next
price is the last of them, the least for base (`isLeast_pricesForBase`) and the greatest for quote
(`isGreatest_pricesForQuote`).

A positive input fails exactly if this price is wider than 128 bits (`settledPrice`); an input of zero stays at the
price without a look at its width.
-/

namespace BondingCurve

/-- The prices that an input of base can pay for. -/
def pricesForBase (p L a : Int) : Set Int :=
  {n | 1 ≤ n ∧ n ≤ p ∧ ∃ cost, baseBetween n p L .up = .ok cost ∧ cost ≤ a}

/-- The prices that an input of quote can pay for. -/
def pricesForQuote (p L a : Int) : Set Int :=
  {n | p ≤ n ∧ ∃ cost, quoteBetween p n L .up = .ok cost ∧ cost ≤ a}

/-- What an input that ends at a price comes to. -/
def settledPrice (a n : Int) : Except CurveError Int :=
  if 0 < a ∧ u128Max < n then .error (.tooWide "next_sqrt_price" n 128) else .ok n

variable {p L a n : Int}

/-- A solve checks the width of the price that a positive input ends at. -/
private theorem checkedU128_eq_settledPrice (ha : 0 < a) (hn : 0 ≤ n) :
    checkedU128 "next_sqrt_price" n = settledPrice a n := by
  rw [settledPrice]
  by_cases hwide : u128Max < n
  · rw [if_pos ⟨ha, hwide⟩, checkedU128_of_lt hwide]
  · rw [if_neg fun h => hwide h.2, checkedU128_eq_ok_iff]
    exact ⟨⟨hn, not_lt.mp hwide⟩, rfl⟩

private theorem settledPrice_zero (n : Int) : settledPrice 0 n = .ok n := rfl

section

variable (hp : 1 ≤ p) (hL : 1 ≤ L) (ha : 0 ≤ a)
include hp hL ha

/-! ### An input of base -/

private theorem mem_pricesForBase_iff :
    n ∈ pricesForBase p L a ↔ 1 ≤ n ∧ n ≤ p ∧ ceilDiv (p * L) (L + a * p) ≤ n := by
  constructor
  · rintro ⟨hn, hnp, cost, hcost, hle⟩
    refine ⟨hn, hnp, ?_⟩
    have hup : baseBetween n p L .up = _ := Token.base.between_up hn hnp (zero_le_one.trans hL)
    rw [← Token.ceil_base_le_iff hn hp hL ha, ← Except.ok.inj (hcost.symm.trans hup)]
    exact hle
  · rintro ⟨hn, hnp, hle⟩
    refine ⟨hn, hnp, _, Token.base.between_up hn hnp (zero_le_one.trans hL), ?_⟩
    rwa [Token.ceil_base_le_iff hn hp hL ha]

theorem isLeast_pricesForBase : IsLeast (pricesForBase p L a) (ceilDiv (p * L) (L + a * p)) := by
  have hd : 0 < L + a * p := add_pos_of_pos_of_nonneg hL (mul_nonneg ha (zero_le_one.trans hp))
  constructor
  · rw [mem_pricesForBase_iff hp hL ha]
    refine ⟨?_, ?_, le_rfl⟩
    · rw [← Int.sub_one_lt_iff, sub_self, lt_ceilDiv_iff hd, zero_mul]
      exact mul_pos hp hL
    · rw [ceilDiv_le_iff hd]
      nlinarith [mul_nonneg ha (mul_self_nonneg p)]
  · intro n hn
    rw [mem_pricesForBase_iff hp hL ha] at hn
    exact hn.2.2

private theorem priceAfterBase_eq_settledPrice :
    priceAfterBase p L a = settledPrice a (ceilDiv (p * L) (L + a * p)) := by
  have hp₀ : 0 ≤ p := zero_le_one.trans hp
  have hL₀ : 0 ≤ L := zero_le_one.trans hL
  rcases ha.eq_or_lt with rfl | ha
  · have hstay : ceilDiv (p * L) (L + 0 * p) = p := by
      apply eq_of_forall_ge_iff
      intro n
      rw [zero_mul, add_zero, ceilDiv_le_iff hL, mul_le_mul_iff_left₀ hL]
    rw [settledPrice_zero, hstay]
    simp [priceAfterBase, nonNegative_of_nonneg hp₀, nonNegative_of_nonneg hL₀, nonNegative_of_nonneg le_rfl]
  · have hd : 0 < L + a * p := add_pos_of_pos_of_nonneg hL (mul_nonneg ha.le hp₀)
    rw [priceAfterBase_eq hp₀ hL ha]
    exact checkedU128_eq_settledPrice ha (ceilDiv_nonneg (mul_nonneg hp₀ hL₀) hd)

/-! ### An input of quote -/

omit ha in
private theorem mem_pricesForQuote_iff : n ∈ pricesForQuote p L a ↔ p ≤ n ∧ n ≤ p + a * quoteScale / L := by
  constructor
  · rintro ⟨hpn, cost, hcost, hle⟩
    refine ⟨hpn, ?_⟩
    have hup : quoteBetween p n L .up = _ := Token.quote.between_up hp hpn (zero_le_one.trans hL)
    rw [← Token.ceil_quote_le_iff hL, ← Except.ok.inj (hcost.symm.trans hup)]
    exact hle
  · rintro ⟨hpn, hle⟩
    refine ⟨hpn, _, Token.quote.between_up hp hpn (zero_le_one.trans hL), ?_⟩
    rwa [Token.ceil_quote_le_iff hL]

theorem isGreatest_pricesForQuote : IsGreatest (pricesForQuote p L a) (p + a * quoteScale / L) := by
  constructor
  · rw [mem_pricesForQuote_iff hp hL]
    have hstep : 0 ≤ a * quoteScale / L := Int.ediv_nonneg (mul_nonneg ha (by decide)) (zero_le_one.trans hL)
    exact ⟨by omega, le_rfl⟩
  · intro n hn
    rw [mem_pricesForQuote_iff hp hL] at hn
    exact hn.2

private theorem priceAfterQuote_eq_settledPrice : priceAfterQuote p L a = settledPrice a (p + a * quoteScale / L) := by
  have hp₀ : 0 ≤ p := zero_le_one.trans hp
  have hL₀ : 0 ≤ L := zero_le_one.trans hL
  rcases ha.eq_or_lt with rfl | ha
  · rw [settledPrice_zero, zero_mul, Int.zero_ediv, add_zero]
    simp [priceAfterQuote, nonNegative_of_nonneg hp₀, nonNegative_of_nonneg hL₀, nonNegative_of_nonneg le_rfl]
  · have hstep : 0 ≤ a * quoteScale / L := Int.ediv_nonneg (mul_nonneg ha.le (by decide)) hL₀
    rw [priceAfterQuote_eq hp₀ hL ha]
    exact checkedU128_eq_settledPrice ha (by omega)

/-- An input of quote is used up to the last unit by a liquidity that fits in 128 bits. -/
private theorem quoteBetween_priceAfterQuote (hL' : L ≤ u128Max) :
    quoteBetween p (p + a * quoteScale / L) L .up = .ok a := by
  have hle : p ≤ p + a * quoteScale / L := (isGreatest_pricesForQuote hp hL ha).1.1
  have hup := Token.quote.between_up hp hle (zero_le_one.trans hL)
  rwa [Token.ceil_quote_next_eq hL hL'] at hup

end

/-! ### Both inputs -/

/-- The next prices are the last ones that the inputs can pay for. -/
theorem next_prices_optimal (hp : 1 ≤ p) (hL : 1 ≤ L) (ha : 0 ≤ a) :
    (∃ n, IsLeast (pricesForBase p L a) n ∧ priceAfterBase p L a = settledPrice a n) ∧
    ∃ n, IsGreatest (pricesForQuote p L a) n ∧ priceAfterQuote p L a = settledPrice a n ∧
      (L ≤ u128Max → quoteBetween p n L .up = .ok a) := by
  constructor
  · exact ⟨_, isLeast_pricesForBase hp hL ha, priceAfterBase_eq_settledPrice hp hL ha⟩
  · exact ⟨_, isGreatest_pricesForQuote hp hL ha, priceAfterQuote_eq_settledPrice hp hL ha,
      quoteBetween_priceAfterQuote hp hL ha⟩

/-- An input of both kinds that the ledger's prices allow, and one of quote that leads past them: there the solve finds
the optimum, and fails. -/
theorem next_prices_optimal_one :
    ((1 : Int) ≤ 2 ^ 64 ∧ (1 : Int) ≤ 1000 * 2 ^ 64 ∧ (0 : Int) ≤ 1000 ∧ (1000 * 2 ^ 64 : Int) ≤ u128Max) ∧
      (IsLeast (pricesForBase (2 ^ 64) (1000 * 2 ^ 64) 1000) (2 ^ 63) ∧
        priceAfterBase (2 ^ 64 : Int) (1000 * 2 ^ 64) 1000 = .ok (2 ^ 63)) ∧
      (IsGreatest (pricesForQuote (2 ^ 64) (1000 * 2 ^ 64) 1000) (2 ^ 65) ∧
        priceAfterQuote (2 ^ 64 : Int) (1000 * 2 ^ 64) 1000 = .ok (2 ^ 65) ∧
        quoteBetween (2 ^ 64 : Int) (2 ^ 65) (1000 * 2 ^ 64) .up = .ok 1000) ∧
      IsGreatest (pricesForQuote 1 1 1) (u128Max + 2) ∧
        priceAfterQuote (1 : Int) 1 1 = .error (.tooWide "next_sqrt_price" (u128Max + 2) 128) ∧
        quoteBetween 1 (u128Max + 2) 1 .up = .ok 1 := by
  obtain ⟨⟨n, hleast, hbase⟩, m, hgreatest, hquote, hcost⟩ :=
    @next_prices_optimal (2 ^ 64) (1000 * 2 ^ 64) 1000 (by decide) (by decide) (by decide)
  obtain ⟨-, m', hgreatest', hquote', hcost'⟩ := @next_prices_optimal 1 1 1 (by decide) (by decide) (by decide)
  obtain rfl : n = 2 ^ 63 :=
    hleast.unique (isLeast_pricesForBase (by decide) (by decide) (by decide))
  obtain rfl : m = 2 ^ 65 :=
    hgreatest.unique (isGreatest_pricesForQuote (by decide) (by decide) (by decide))
  obtain rfl : m' = u128Max + 2 :=
    hgreatest'.unique (isGreatest_pricesForQuote (by decide) (by decide) (by decide))
  exact ⟨⟨by decide, by decide, by decide, by decide⟩, ⟨hleast, hbase⟩, ⟨hgreatest, hquote, hcost (by decide)⟩,
    hgreatest', hquote', hcost' (by decide)⟩

end BondingCurve
