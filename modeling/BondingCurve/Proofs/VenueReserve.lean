import BondingCurve.Proofs.Liquidity
import BondingCurve.Proofs.Reconciliation

/-!
# The reserves of the two venues

The base that goes to a venue is an exact amount rounded up (`migrationBase_result`).  Of a threshold `q` at a price
`P`, a constant product venue takes `q * 2 ^ 128 / P ^ 2`, and a concentrated one what a liquidity that was rounded
down holds from `P` up to the greatest price.

* (monotone) Both amounts grow with the threshold and fall with the price (`MigrationOption.reserve_mono`,
  `MigrationOption.reserve_anti`).
* (comparison) Without rounding, the concentrated amount would be the other one times `P * (M - P) / (M * (P - m))` for
  the least price `m` and the greatest price `M`.  This factor is at most one exactly where `P ^ 2` is at least
  `m * M` (`MigrationOption.concentration_le_one_iff`), and the part of the liquidity that is rounded away holds less
  than a unit of base (`MigrationOption.reserve_concentrated_le`, `MigrationOption.reserve_constantProduct_le`).
-/

namespace BondingCurve

theorem minSqrtPrice_pos : 0 < minSqrtPrice := by decide

theorem quoteScale_pos : 0 < quoteScale := by decide

namespace Token

variable {l u L L' x : Int}

private theorem amount_le_amount (t : Token) (hl : 0 < l) (hu : l ≤ u) (hL : L ≤ L') :
    t.amount l u L ≤ t.amount l u L' := by
  have hL' : (L : ℚ) ≤ L' := by exact_mod_cast hL
  exact mul_le_mul_of_nonneg_right hL' (sub_nonneg.mpr (t.level_le_level hl hu))

/-- The liquidity that an amount backs is less than one below the exact one. -/
private theorem backed_spec (t : Token) (hu : l < u) :
    (t.backed l u x : ℚ) ≤ ((x * t.scale l u : Int) : ℚ) / (u - l : Int) ∧
      ((x * t.scale l u : Int) : ℚ) / (u - l : Int) < t.backed l u x + 1 := by
  rw [backed, ediv_eq_floor (sub_pos.mpr hu)]
  exact ⟨Int.floor_le _, Int.lt_floor_add_one _⟩

end Token

namespace MigrationOption

/-- The base that goes with an amount of quote to a venue, before it is rounded up. -/
def reserve : MigrationOption → Int → Int → ℚ
  | constantProduct, q, p => ((q * quoteScale : Int) : ℚ) / (p * p : Int)
  | concentrated, q, p => Token.base.amount p maxSqrtPrice (Token.quote.backed minSqrtPrice p q)

variable {p p' q q' : Int}

/-! ### Order -/

theorem reserve_mono (hp : minSqrtPrice < p) (hmax : p ≤ maxSqrtPrice) (hq : q ≤ q') (option : MigrationOption) :
    option.reserve q p ≤ option.reserve q' p := by
  have hpos : 0 < p := minSqrtPrice_pos.trans hp
  have hscaled : q * quoteScale ≤ q' * quoteScale := mul_le_mul_of_nonneg_right hq quoteScale_pos.le
  cases option with
  | constantProduct =>
    have hsquare : (0 : ℚ) < (p * p : Int) := by exact_mod_cast mul_pos hpos hpos
    exact (div_le_div_iff_of_pos_right hsquare).mpr (by exact_mod_cast hscaled)
  | concentrated =>
    apply Token.base.amount_le_amount hpos hmax
    exact Int.ediv_le_ediv (sub_pos.mpr hp) hscaled

private theorem backed_anti (hp : minSqrtPrice < p) (hpp : p ≤ p') (hq : 0 ≤ q) :
    Token.quote.backed minSqrtPrice p' q ≤ Token.quote.backed minSqrtPrice p q := by
  have hnonneg := Token.quote.backed_nonneg minSqrtPrice_pos (hp.trans_le hpp) hq
  unfold Token.backed at *
  rw [Int.le_ediv_iff_mul_le (sub_pos.mpr hp)]
  calc q * quoteScale / (p' - minSqrtPrice) * (p - minSqrtPrice)
      ≤ q * quoteScale / (p' - minSqrtPrice) * (p' - minSqrtPrice) :=
        mul_le_mul_of_nonneg_left (by omega) hnonneg
    _ ≤ q * quoteScale := Int.ediv_mul_le _ (by omega)

theorem reserve_anti (hp : minSqrtPrice < p) (hpp : p ≤ p') (hmax : p' ≤ maxSqrtPrice) (hq : 0 ≤ q)
    (option : MigrationOption) : option.reserve q p' ≤ option.reserve q p := by
  have hpos : 0 < p := minSqrtPrice_pos.trans hp
  cases option with
  | constantProduct =>
    have hsquare : (0 : ℚ) < (p * p : Int) := by exact_mod_cast mul_pos hpos hpos
    have hsquares : ((p * p : Int) : ℚ) ≤ (p' * p' : Int) := by
      exact_mod_cast mul_le_mul hpp hpp hpos.le (hpos.le.trans hpp)
    have hscaled : (0 : ℚ) ≤ (q * quoteScale : Int) := by exact_mod_cast mul_nonneg hq quoteScale_pos.le
    exact div_le_div_of_nonneg_left hscaled hsquare hsquares
  | concentrated =>
    have hliquidity := Token.quote.backed_nonneg minSqrtPrice_pos (hp.trans_le hpp) hq
    calc Token.base.amount p' maxSqrtPrice (Token.quote.backed minSqrtPrice p' q)
        ≤ Token.base.amount p maxSqrtPrice (Token.quote.backed minSqrtPrice p' q) := by
          rw [← Token.base.amount_add p p']
          exact le_add_of_nonneg_left (Token.base.amount_nonneg hpos hpp hliquidity)
      _ ≤ Token.base.amount p maxSqrtPrice (Token.quote.backed minSqrtPrice p q) :=
          Token.base.amount_le_amount hpos (hpp.trans hmax) (backed_anti hp hpp hq)

/-! ### Comparison -/

private theorem reserve_nonneg (hp : minSqrtPrice < p) (hmax : p ≤ maxSqrtPrice) (hq : 0 ≤ q)
    (option : MigrationOption) : 0 ≤ option.reserve q p := by
  have hgrows := option.reserve_mono hp hmax hq
  have hnothing : option.reserve 0 p = 0 := by
    cases option <;> simp [reserve, Token.backed, Token.amount]
  rwa [hnothing] at hgrows

/-- What a concentrated venue takes of each unit that a constant product one takes, without rounding. -/
def concentration (p : Int) : ℚ :=
  ((p * (maxSqrtPrice - p) : Int) : ℚ) / (maxSqrtPrice * (p - minSqrtPrice) : Int)

private theorem concentration_denominator_pos (hp : minSqrtPrice < p) :
    (0 : ℚ) < (maxSqrtPrice * (p - minSqrtPrice) : Int) := by
  exact_mod_cast mul_pos (by decide : 0 < maxSqrtPrice) (sub_pos.mpr hp)

theorem concentration_le_one_iff (hp : minSqrtPrice < p) :
    concentration p ≤ 1 ↔ minSqrtPrice * maxSqrtPrice ≤ p ^ 2 := by
  rw [concentration, div_le_one (concentration_denominator_pos hp), Int.cast_le]
  constructor
  · intro h
    linarith
  · intro h
    linarith

private theorem one_le_concentration_iff (hp : minSqrtPrice < p) :
    1 ≤ concentration p ↔ p ^ 2 ≤ minSqrtPrice * maxSqrtPrice := by
  rw [concentration, one_le_div (concentration_denominator_pos hp), Int.cast_le]
  constructor
  · intro h
    linarith
  · intro h
    linarith

/-- The base that a unit of liquidity holds from a price up. -/
def unitReserve (p : Int) : ℚ := Token.base.level maxSqrtPrice - Token.base.level p

private theorem unitReserve_nonneg (hp : minSqrtPrice < p) (hmax : p ≤ maxSqrtPrice) : 0 ≤ unitReserve p :=
  sub_nonneg.mpr (Token.base.level_le_level (minSqrtPrice_pos.trans hp) hmax)

private theorem unitReserve_le_one (hp : minSqrtPrice < p) : unitReserve p ≤ 1 := by
  have hp₁ : (1 : ℚ) ≤ p := by exact_mod_cast (minSqrtPrice_pos.trans hp : 1 ≤ p)
  have hinv : 1 / (p : ℚ) ≤ 1 := (div_le_one (by linarith)).mpr hp₁
  have hmax₀ : (0 : ℚ) ≤ 1 / maxSqrtPrice := by norm_num [maxSqrtPrice]
  simp only [unitReserve, Token.level, neg_div]
  linarith

/-- The base of the exact liquidity of an amount of quote. -/
private theorem liquidity_mul_unitReserve (hp : minSqrtPrice < p) (q : Int) :
    ((q * quoteScale : Int) : ℚ) / (p - minSqrtPrice : Int) * unitReserve p =
      constantProduct.reserve q p * concentration p := by
  have hpos : (p : ℚ) ≠ 0 := by exact_mod_cast (minSqrtPrice_pos.trans hp).ne'
  have hmax : (maxSqrtPrice : ℚ) ≠ 0 := by norm_num [maxSqrtPrice]
  have hwidth : (p : ℚ) - minSqrtPrice ≠ 0 := by
    rw [sub_ne_zero]
    exact_mod_cast hp.ne'
  simp only [reserve, concentration, unitReserve, Token.level]
  push_cast
  field_simp
  ring

theorem reserve_concentrated_le (hp : minSqrtPrice < p) (hmax : p ≤ maxSqrtPrice) (hq : 0 ≤ q)
    (h : minSqrtPrice * maxSqrtPrice ≤ p ^ 2) : concentrated.reserve q p ≤ constantProduct.reserve q p := by
  calc concentrated.reserve q p
      ≤ ((q * quoteScale : Int) : ℚ) / (p - minSqrtPrice : Int) * unitReserve p :=
        mul_le_mul_of_nonneg_right (Token.quote.backed_spec hp).1 (unitReserve_nonneg hp hmax)
    _ = constantProduct.reserve q p * concentration p := liquidity_mul_unitReserve hp q
    _ ≤ constantProduct.reserve q p :=
        mul_le_of_le_one_right (constantProduct.reserve_nonneg hp hmax hq) ((concentration_le_one_iff hp).mpr h)

theorem reserve_constantProduct_le (hp : minSqrtPrice < p) (hmax : p ≤ maxSqrtPrice) (hq : 0 ≤ q)
    (h : p ^ 2 ≤ minSqrtPrice * maxSqrtPrice) : constantProduct.reserve q p ≤ concentrated.reserve q p + 1 := by
  calc constantProduct.reserve q p
      ≤ constantProduct.reserve q p * concentration p :=
        le_mul_of_one_le_right (constantProduct.reserve_nonneg hp hmax hq) ((one_le_concentration_iff hp).mpr h)
    _ = ((q * quoteScale : Int) : ℚ) / (p - minSqrtPrice : Int) * unitReserve p := (liquidity_mul_unitReserve hp q).symm
    _ ≤ (Token.quote.backed minSqrtPrice p q + 1) * unitReserve p :=
        mul_le_mul_of_nonneg_right (Token.quote.backed_spec hp).2.le (unitReserve_nonneg hp hmax)
    _ ≤ concentrated.reserve q p + 1 := by
        -- The unit of liquidity that is rounded away at most holds no more than a unit of base.
        rw [add_one_mul]
        exact add_le_add le_rfl (unitReserve_le_one hp)

end MigrationOption

/-! ### Computed reserves -/

section Computed

variable {p p' q q' : Int}

theorem migrationBase_result (hp : minSqrtPrice < p) (hmax : p ≤ maxSqrtPrice) (hq : 0 ≤ q)
    (option : MigrationOption) : (migrationBase q p option).result = .ok ⌈option.reserve q p⌉ := by
  have hpos : 0 < p := minSqrtPrice_pos.trans hp
  rw [migrationBase_eq_ok_iff]
  refine ⟨hq, ⟨hp.le, hmax⟩, ?_⟩
  cases option with
  | constantProduct =>
    have hsquare : 0 < p * p := mul_pos hpos hpos
    rw [MigrationOption.base, constantProductBase, MigrationOption.reserve, ← ceilDiv_eq_ceil hsquare]
    exact Rounding.divide_up (mul_nonneg hq quoteScale_pos.le) hsquare
  | concentrated =>
    have hliquidity : liquidityFromQuote q minSqrtPrice p = .ok (Token.quote.backed minSqrtPrice p q) :=
      liquidityFromQuote_eq_ok_iff.mpr ⟨minSqrtPrice_pos, hp, hq, rfl⟩
    rw [MigrationOption.base, concentratedBase, hliquidity, ok_bind]
    exact Token.base.between_up hpos hmax (Token.quote.backed_nonneg minSqrtPrice_pos hp hq)

/-- The reserve of either venue exists; it does not fall with the threshold and does not rise with the price.  At prices
from the geometric mean of the price bounds on the concentrated reserve is at most the constant product one, and up to
there it falls short of that by at most a unit. -/
theorem migrationBase_ordered (hp : minSqrtPrice < p) (hpp : p ≤ p') (hmax : p' ≤ maxSqrtPrice) (hq : 0 ≤ q)
    (hqq : q ≤ q') :
    (∀ option : MigrationOption, ∃ reserve more less, (migrationBase q p option).result = .ok reserve ∧
      (migrationBase q' p option).result = .ok more ∧ (migrationBase q p' option).result = .ok less ∧
      reserve ≤ more ∧ less ≤ reserve) ∧
    ∃ paired spread, (migrationBase q p MigrationOption.constantProduct).result = .ok paired ∧
      (migrationBase q p MigrationOption.concentrated).result = .ok spread ∧
      (minSqrtPrice * maxSqrtPrice ≤ p ^ 2 → spread ≤ paired) ∧
      (p ^ 2 ≤ minSqrtPrice * maxSqrtPrice → paired - 1 ≤ spread) := by
  have hpmax : p ≤ maxSqrtPrice := hpp.trans hmax
  constructor
  · intro option
    refine ⟨_, _, _, migrationBase_result hp hpmax hq option, migrationBase_result hp hpmax (hq.trans hqq) option,
      migrationBase_result (hp.trans_le hpp) hmax hq option, ?_, ?_⟩
    · exact Int.ceil_le_ceil (option.reserve_mono hp hpmax hqq)
    · exact Int.ceil_le_ceil (option.reserve_anti hp hpp hmax hq)
  · refine ⟨_, _, migrationBase_result hp hpmax hq _, migrationBase_result hp hpmax hq _, ?_, ?_⟩
    · intro hhigh
      exact Int.ceil_le_ceil (MigrationOption.reserve_concentrated_le hp hpmax hq hhigh)
    · intro hlow
      have hle := Int.ceil_le_ceil (MigrationOption.reserve_constantProduct_le hp hpmax hq hlow)
      rw [Int.ceil_add_one] at hle
      omega

/-- About the geometric mean: below it the concentrated reserve is the larger one, above it the smaller one. -/
theorem migrationBase_ordered_about_mean :
    ((migrationBase (10 ^ 12 : Int) (2 ^ 63) MigrationOption.concentrated).result = .ok 4000000001398 ∧
      (migrationBase (10 ^ 13 : Int) (2 ^ 63) MigrationOption.concentrated).result = .ok 40000000013971 ∧
      (migrationBase (10 ^ 12 : Int) (2 ^ 65) MigrationOption.concentrated).result = .ok 249999999913 ∧
      (4000000001398 : Int) ≤ 40000000013971 ∧ (249999999913 : Int) ≤ 4000000001398) ∧
    ((migrationBase (10 ^ 12 : Int) (2 ^ 63) MigrationOption.constantProduct).result = .ok 4000000000000 ∧
      (4000000000000 : Int) - 1 ≤ 4000000001398) ∧
    (migrationBase (10 ^ 12 : Int) (2 ^ 65) MigrationOption.constantProduct).result = .ok 250000000000 ∧
      (249999999913 : Int) ≤ 250000000000 := by
  have hthresholds : (10 : Int) ^ 12 ≤ 10 ^ 13 := by decide
  obtain ⟨hordered, paired, spread, hpaired, hspread, -, hlow⟩ := migrationBase_ordered
    (by decide : minSqrtPrice < 2 ^ 63) (by decide : (2 : Int) ^ 63 ≤ 2 ^ 65) (by decide) (by decide) hthresholds
  obtain ⟨reserve, more, less, hreserve, hmore, hless, hle, hge⟩ := hordered .concentrated
  obtain ⟨-, paired', spread', hpaired', hspread', hhigh, -⟩ := migrationBase_ordered
    (by decide : minSqrtPrice < 2 ^ 65) le_rfl (by decide) (by decide) hthresholds
  obtain rfl : 4000000001398 = reserve := Except.ok.inj hreserve
  obtain rfl : 40000000013971 = more := Except.ok.inj hmore
  obtain rfl : 249999999913 = less := Except.ok.inj hless
  obtain rfl : 4000000000000 = paired := Except.ok.inj hpaired
  obtain rfl : 4000000001398 = spread := Except.ok.inj hspread
  obtain rfl : 250000000000 = paired' := Except.ok.inj hpaired'
  obtain rfl : 249999999913 = spread' := Except.ok.inj hspread'
  exact ⟨⟨hreserve, hmore, hless, hle, hge⟩, ⟨hpaired, hlow (by decide)⟩, hpaired', hhigh (by decide)⟩

end Computed

end BondingCurve
