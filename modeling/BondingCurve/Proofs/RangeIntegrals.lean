import BondingCurve.Proofs.Amounts
import Mathlib.Analysis.SpecialFunctions.Integrals.Basic

/-!
# Amounts as integrals

A unit of liquidity holds `1 / P ^ 2` of base and `1 / 2 ^ 128` of quote for each unit of price at the price `P`
(`Token.density`), and an exact amount is the integral of this density over its range (`Token.integral_density`).

* (rounding) An amount rounded up and the same amount rounded down differ by at most one, and agree if and only if the
  integral is whole (`ceil_eq_floor_iff`).
* (parts) An integral over a range is the sum of the integrals over two parts of it.  Paid for in parts, a range costs
  no less than the whole and at most one unit more; sold in parts, it brings no more than the whole and at most one
  unit less (`Token.between_parts`).
-/

namespace BondingCurve

/-- Rounding up and rounding down agree on integers only. -/
theorem ceil_eq_floor_iff (x : ℚ) : ⌈x⌉ = ⌊x⌋ ↔ ∃ n : ℤ, x = n := by
  constructor
  · intro h
    refine ⟨⌊x⌋, le_antisymm ?_ (Int.floor_le x)⟩
    rw [← h]
    exact Int.le_ceil x
  · rintro ⟨n, rfl⟩
    rw [Int.ceil_intCast, Int.floor_intCast]

namespace Token

/-- The amount of a token that a unit of liquidity holds at a price, for each unit of the price. -/
noncomputable def density : Token → ℝ → ℝ
  | base, p => p ^ (-2 : ℤ)
  | quote, _ => 1 / quoteScale

variable {l u L : Int}

private theorem integral_density_base (hl : 0 < l) (hu : l ≤ u) :
    ∫ p in (l : ℝ)..u, base.density p = ((base.level u - base.level l : ℚ) : ℝ) := by
  have hl' : (0 : ℝ) < l := by exact_mod_cast hl
  have hlu : (l : ℝ) ≤ u := by exact_mod_cast hu
  have hzero : (0 : ℝ) ∉ Set.uIcc (l : ℝ) u := by
    rw [Set.uIcc_of_le hlu, Set.mem_Icc]
    rintro ⟨h, -⟩
    linarith
  simp only [density]
  rw [integral_zpow (.inr ⟨by decide, hzero⟩)]
  simp only [level]
  norm_num
  ring

private theorem integral_density_quote (l u : Int) :
    ∫ p in (l : ℝ)..u, quote.density p = ((quote.level u - quote.level l : ℚ) : ℝ) := by
  simp only [density, level]
  rw [intervalIntegral.integral_const, smul_eq_mul]
  push_cast
  ring

/-- The exact amount of a range is the integral of the density over it. -/
theorem integral_density (t : Token) (hl : 0 < l) (hu : l ≤ u) (L : Int) :
    ∫ p in (l : ℝ)..u, L * t.density p = ((t.amount l u L : ℚ) : ℝ) := by
  have hunit : ∫ p in (l : ℝ)..u, t.density p = ((t.level u - t.level l : ℚ) : ℝ) := by
    cases t with
    | base => exact integral_density_base hl hu
    | quote => exact integral_density_quote l u
  rw [intervalIntegral.integral_const_mul, hunit, amount]
  push_cast
  rfl

/-- The amounts of a range, rounded in either direction, against those of its two parts. -/
theorem between_parts (t : Token) (hL : 0 ≤ L) :
    ∃ up down : Int → Int → Int,
      (∀ l u, 0 < l → l ≤ u → t.between l u L .up = .ok (up l u) ∧ t.between l u L .down = .ok (down l u)) ∧
      ∀ l m u, 0 < l → l ≤ m → m ≤ u →
        (up l u ≤ up l m + up m u ∧ up l m + up m u ≤ up l u + 1) ∧
        (down l m + down m u ≤ down l u ∧ down l u ≤ down l m + down m u + 1) ∧
        (down l u ≤ up l u ∧ up l u ≤ down l u + 1) ∧
        (up l u = down l u ↔ ∃ n : ℤ, ∫ p in (l : ℝ)..u, L * t.density p = n) := by
  refine ⟨fun l u => ⌈t.amount l u L⌉, fun l u => ⌊t.amount l u L⌋, ?_, ?_⟩
  · intro l u hl hu
    exact ⟨t.between_up hl hu hL, t.between_down hl hu hL⟩
  · intro l m u hl hm hu
    refine ⟨⟨t.ceil_amount_le_add l m u L, t.ceil_amount_add_le l m u L⟩,
      ⟨t.floor_amount_add_le l m u L, t.floor_amount_le_add l m u L⟩,
      ⟨Int.floor_le_ceil _, Int.ceil_le_floor_add_one _⟩, ?_⟩
    rw [ceil_eq_floor_iff, t.integral_density hl (hm.trans hu)]
    exact_mod_cast Iff.rfl

/-- A liquidity of five holds ten thirds of base between the prices one and three: not a whole amount, and a unit is
lost when it is sold in two parts. -/
theorem between_parts_one_two_three :
    (0 : Int) ≤ 5 ∧
      base.between 1 3 5 .up = .ok 4 ∧ base.between 1 3 5 .down = .ok 3 ∧
      base.between 1 2 5 .down = .ok 2 ∧ base.between 2 3 5 .down = .ok 0 ∧
      ¬∃ n : ℤ, ∫ p in ((1 : ℤ) : ℝ)..(3 : ℤ), (5 : ℤ) * base.density p = n := by
  have hup : base.between 1 3 5 .up = .ok 4 := rfl
  have hdown : base.between 1 3 5 .down = .ok 3 := rfl
  obtain ⟨up, down, hvalues, hparts⟩ := between_parts (L := 5) base (by decide)
  obtain ⟨hup', hdown'⟩ := hvalues 1 3 (by decide) (by decide)
  obtain ⟨-, -, -, hwhole⟩ := hparts 1 2 3 (by decide) (by decide) (by decide)
  refine ⟨by decide, hup, hdown, rfl, rfl, ?_⟩
  rw [← hwhole, ← Except.ok.inj (hup.symm.trans hup'), ← Except.ok.inj (hdown.symm.trans hdown')]
  decide

end Token

end BondingCurve
