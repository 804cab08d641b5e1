import BondingCurve.Proofs.GraphSupply
import BondingCurve.Proofs.LinearRefusals
import BondingCurve.Proofs.StepRatio

/-!
# Order of geometric boundaries

Each boundary is the one before it times a rounded ratio, rounded, and rounded down.  The ratio may lie above the exact
one, and the first rounding may go up as well; yet no boundary but the last reaches the upper end, which is put in its
place (`geometricPrices_ordered`).

* (steps) A boundary does not lie below the one before it, and on a logarithmic scale it lies above it by at most the
  ratio and one unit of the last digit (`Follows.le`, `Follows.log_le`).
* (room) So the boundaries stay below an end that is far enough for the remaining steps (`Room.step`).  At the start
  there is room for all steps but the last: the ends differ by at least one unit, and a single step of the exact ratio
  is still much longer than all errors together (`room_of_ratio`).
* (growth) If the first boundary lies above the start, then the ratio is so large that it takes every later price to
  the next integer (`Follows.grows`), so one step that moves is enough for the whole list (`isChain_lt_of_follows`).
-/

namespace BondingCurve

private theorem IsSqrtPrice.cast_le_pow {p : ℤ} (h : IsSqrtPrice p) : (p : ℝ) ≤ 10 ^ 29 := by
  have hle : p ≤ 10 ^ 29 := h.2.trans (by decide)
  exact_mod_cast hle

/-! ### One step -/

/-- A boundary is the integer part of the rounded product of a ratio and the price before it. -/
structure Follows (ρ : ℝ) (price next : ℤ) : Prop where
  pos : 0 < price
  mul_le : ρ * price ≤ 10 ^ 29
  floor_eq : ∃ v : ℝ, CorrectlyRounded precision (ρ * price) v ∧ next = ⌊v⌋

namespace Follows

variable {ρ : ℝ} {price next m : ℤ}

private theorem one_le_mul (hρ : 1 ≤ ρ) (h : Follows ρ price next) : 1 ≤ ρ * price := by
  have hprice : (1 : ℝ) ≤ price := by exact_mod_cast h.pos
  exact one_le_mul_of_one_le_of_one_le hρ hprice

/-- Products of ordinary size are rounded to the right of the point, so no integer is passed. -/
private theorem le_of_le (hρ : 1 ≤ ρ) (h : Follows ρ price next) (hm : m ≤ ρ * price) : m ≤ next := by
  have hpos : 0 < ρ * price := by linarith [h.one_le_mul hρ]
  have hlt : ρ * price < 10 ^ precision := h.mul_le.trans_lt (by norm_num [precision])
  obtain ⟨v, hv, rfl⟩ := h.floor_eq
  exact Int.le_floor.mpr (hv.intCast_le hpos hlt hm)

theorem le (hρ : 1 ≤ ρ) (h : Follows ρ price next) : price ≤ next := by
  have hprice : (0 : ℝ) ≤ price := by exact_mod_cast h.pos.le
  exact h.le_of_le hρ (le_mul_of_one_le_left hprice hρ)

private theorem le_add (hρ : 1 ≤ ρ) (h : Follows ρ price next) : (next : ℝ) ≤ ρ * price + 1 / 10 ^ 30 := by
  have hmul_le := h.mul_le
  have hpos := h.one_le_mul hρ
  obtain ⟨v, hv, rfl⟩ := h.floor_eq
  have herror := (abs_le.mp (hv.abs_sub_le_tiny le_rfl (by linarith))).2
  have hfloor := Int.floor_le v
  linarith

theorem log_le (hρ : 1 ≤ ρ) (h : Follows ρ price next) :
    Real.log next ≤ Real.log price + (Real.log ρ + 1 / 10 ^ 59) := by
  have hprice : (0 : ℝ) < price := by exact_mod_cast h.pos
  have hnext : (0 : ℝ) < next := by exact_mod_cast h.pos.trans_le (h.le hρ)
  have hpos := h.one_le_mul hρ
  obtain ⟨v, hv, rfl⟩ := h.floor_eq
  calc Real.log ⌊v⌋ ≤ Real.log v := Real.log_le_log hnext (Int.floor_le v)
    _ ≤ Real.log (ρ * price) + 1 / 10 ^ 59 := hv.log_le le_rfl hpos
    _ = Real.log price + (Real.log ρ + 1 / 10 ^ 59) := by
      rw [Real.log_mul (by linarith) hprice.ne']
      ring

/-- A ratio that moves one price moves every greater one to its successor at least. -/
theorem grows (hρ : 1 ≤ ρ) (h : Follows ρ price next) (hlt : price < next) (hm : price < m) :
    ((m + 1 : ℤ) : ℝ) ≤ ρ * m := by
  have hprice : (1 : ℝ) ≤ price := by exact_mod_cast h.pos
  have hprice_le : (price : ℝ) ≤ 10 ^ 29 := (le_mul_of_one_le_left (by linarith) hρ).trans h.mul_le
  have hnext : (price : ℝ) + 1 ≤ next := by exact_mod_cast hlt
  have hm' : (price : ℝ) + 1 ≤ m := by exact_mod_cast hm
  have hgain : 1 - 1 / 10 ^ 30 ≤ (ρ - 1) * price := by linarith [h.le_add hρ]
  -- What the ratio adds to a unit makes up for the rounding of the step.
  have hunit : 1 / 10 ^ 30 ≤ ρ - 1 := by
    by_contra hsmall
    have hprod : (ρ - 1) * price ≤ 1 / 10 ^ 30 * 10 ^ 29 :=
      mul_le_mul (not_le.mp hsmall).le hprice_le (by linarith) (by norm_num)
    linarith
  have hmul : (ρ - 1) * (price + 1) ≤ (ρ - 1) * m := mul_le_mul_of_nonneg_left hm' (by linarith)
  push_cast
  linarith

end Follows

section Chains

variable {ρ : ℝ} {price next : ℤ} {rest : List ℤ}

/-- From a step that moves on, all steps move. -/
theorem isChain_lt_of_follows (hρ : 1 ≤ ρ) (h : (price :: next :: rest).IsChain (Follows ρ)) (hlt : price < next) :
    (price :: next :: rest).IsChain (· < ·) := by
  induction rest generalizing price next with
  | nil => simpa using hlt
  | cons later rest ih =>
    rw [List.isChain_cons_cons] at h ⊢
    obtain ⟨hfirst, hrest⟩ := h
    have hsecond : Follows ρ next later := (List.isChain_cons_cons.mp hrest).1
    have hlater : next < later := Int.lt_of_add_one_le (hsecond.le_of_le hρ (hfirst.grows hρ hlt hlt))
    exact ⟨hlt, ih hrest hlater⟩

end Chains

/-! ### Room below the upper end -/

/-- There is room for a number of steps below an end, even if every rounding goes up. -/
structure Room (ρ : ℝ) (high : ℤ) (count : ℕ) (price : ℤ) : Prop where
  pos : 0 < price
  log_lt : Real.log price + count * (Real.log ρ + 1 / 10 ^ 59) < Real.log high

namespace Room

variable {ρ : ℝ} {price next high : ℤ} {count : ℕ}

private theorem steps_nonneg (hρ : 1 ≤ ρ) (count : ℕ) : 0 ≤ count * (Real.log ρ + 1 / 10 ^ 59) :=
  mul_nonneg (Nat.cast_nonneg _) (by linarith [Real.log_nonneg hρ])

theorem lt (hρ : 1 ≤ ρ) (hhigh : 0 < high) (h : Room ρ high count price) : price < high := by
  have hprice : (0 : ℝ) < price := by exact_mod_cast h.pos
  have hhigh' : (0 : ℝ) < high := by exact_mod_cast hhigh
  have hlog : Real.log price < Real.log high := by linarith [h.log_lt, steps_nonneg hρ count]
  exact_mod_cast (Real.log_lt_log_iff hprice hhigh').mp hlog

private theorem mul_lt (hρ : 1 ≤ ρ) (hhigh : 0 < high) (h : Room ρ high (count + 1) price) : ρ * price < high := by
  have hprice : (0 : ℝ) < price := by exact_mod_cast h.pos
  have hhigh' : (0 : ℝ) < high := by exact_mod_cast hhigh
  have hsteps := steps_nonneg hρ count
  have hlog := h.log_lt
  push_cast at hlog
  rw [← Real.log_lt_log_iff (by positivity) hhigh', Real.log_mul (by linarith) hprice.ne']
  linarith

theorem step (hρ : 1 ≤ ρ) (h : Room ρ high (count + 1) price) (hnext : Follows ρ price next) :
    Room ρ high count next := by
  have hlog := h.log_lt
  push_cast at hlog
  exact ⟨h.pos.trans_le (hnext.le hρ), by linarith [hnext.log_le hρ]⟩

end Room

section Steps

variable {ratio : Decimal} {low high price : ℤ} {count : ℕ}

/-- Product and floor exist for a price with room for a step. -/
private theorem exists_follows (hsign : ratio.negative = false) (hρ : (1 : ℝ) ≤ (ratio.magnitude : ℚ))
    (hhigh : IsSqrtPrice high) (h : Room (ratio.magnitude : ℚ) high (count + 1) price) :
    ∃ product next, ratio.mul (.ofInt price) = .ok product ∧ product.floor = .ok next ∧
      Follows (ratio.magnitude : ℚ) price next := by
  have hmagnitude := Decimal.magnitude_ofInt h.pos.le
  have hmul_le := (h.mul_lt hρ hhigh.pos).le.trans hhigh.cast_le_pow
  have hcast : ((ratio.magnitude * (Decimal.ofInt price).magnitude : ℚ) : ℝ) = (ratio.magnitude : ℚ) * price := by
    rw [hmagnitude, Rat.cast_mul, Rat.cast_intCast]
  have hfits : ratio.magnitude * (Decimal.ofInt price).magnitude ≤ 10 ^ greatestExponent := by
    rw [← Rat.cast_le (K := ℝ), hcast, Rat.cast_zpow, Rat.cast_ofNat]
    linarith [pow_hundred_le]
  obtain ⟨product, hproduct⟩ := Decimal.exists_mul hfits
  obtain ⟨hproduct_sign, hrounded⟩ := Decimal.correctlyRounded_mul hproduct
  have hnonneg : product.negative = false := by
    rw [hproduct_sign, hsign, Decimal.negative_ofInt h.pos.le, bne_self_eq_false]
  obtain ⟨next, hnext⟩ : ∃ next, product.floor = .ok next :=
    ⟨_, Decimal.floor_eq_ok_iff.mpr ⟨Decimal.value_nonneg hnonneg, rfl⟩⟩
  have hfloor : next = ⌊((product.magnitude : ℚ) : ℝ)⌋ := by
    rw [Rat.floor_cast, (Decimal.floor_eq_ok_iff.mp hnext).2, Decimal.value_of_not_negative hnonneg]
  rw [hmagnitude, Rat.cast_intCast] at hrounded
  exact ⟨product, next, hproduct, hnext, h.pos, hmul_le, _, hrounded, hfloor⟩

/-- The whole run: every boundary follows the one before it, and all lie below the end. -/
private theorem scaledPrices_follows (hsign : ratio.negative = false) (hρ : (1 : ℝ) ≤ (ratio.magnitude : ℚ))
    (hhigh : IsSqrtPrice high) (h : Room (ratio.magnitude : ℚ) high count price) :
    ∃ prices, scaledPrices ratio count price = .ok prices ∧
      (price :: prices).IsChain (Follows (ratio.magnitude : ℚ)) ∧ ∀ p ∈ price :: prices, p < high := by
  induction count generalizing price with
  | zero => exact ⟨[], rfl, by simp, by simpa using h.lt hρ hhigh.pos⟩
  | succ count ih =>
    obtain ⟨product, next, hproduct, hfloor, hnext⟩ := exists_follows hsign hρ hhigh h
    obtain ⟨rest, hrest, hchain, hbelow⟩ := ih (h.step hρ hnext)
    refine ⟨next :: rest, ?_, List.isChain_cons_cons.mpr ⟨hnext, hchain⟩, ?_⟩
    · simp only [scaledPrices, hproduct, hfloor, hrest, ok_bind, liftM_eq_liftSignal, liftSignal_ok]
      rfl
    · rw [List.forall_mem_cons]
      exact ⟨h.lt hρ hhigh.pos, hbelow⟩

/-- A step of the exact ratio is longer than the errors of all roundings. -/
theorem room_of_ratio (hlow : IsSqrtPrice low) (hhigh : IsSqrtPrice high) (hlt : low < high)
    (hcount : count < maxCurvePoints)
    (h : ratio.LogBounded (Real.log ((high : ℝ) / low) / (count + 1 : ℕ) + 1 / 10 ^ 55)) :
    Room (ratio.magnitude : ℚ) high count low := by
  have hlow_pos : (0 : ℝ) < low := by exact_mod_cast hlow.pos
  have hhigh_pos : (0 : ℝ) < high := by exact_mod_cast hhigh.pos
  have hhigh_le := hhigh.cast_le_pow
  have hgap : (low : ℝ) + 1 ≤ high := by exact_mod_cast hlt
  have hcount_le : ((count + 1 : ℕ) : ℝ) ≤ 16 := by exact_mod_cast hcount
  have hcount_pos : (0 : ℝ) < (count + 1 : ℕ) := by exact_mod_cast Nat.succ_pos count
  set whole := Real.log ((high : ℝ) / low) with hwhole
  have hlog_high : Real.log high = Real.log low + whole := by
    rw [hwhole, Real.log_div hhigh_pos.ne' hlow_pos.ne']
    ring
  have hwhole_ge : 1 / 10 ^ 29 ≤ whole := by
    have hlog := Real.one_sub_inv_le_log_of_pos (div_pos hhigh_pos hlow_pos)
    have hpart : 1 / (10 : ℝ) ^ 29 ≤ 1 - ((high : ℝ) / low)⁻¹ := by
      rw [inv_div, one_sub_div hhigh_pos.ne', div_le_div_iff₀ (by norm_num) hhigh_pos]
      nlinarith
    linarith
  have hstep : 1 / 10 ^ 29 / 16 ≤ whole / (count + 1 : ℕ) := by
    rw [div_le_div_iff₀ (by norm_num) hcount_pos]
    nlinarith
  have hsteps : count * (whole / (count + 1 : ℕ)) = whole - whole / (count + 1 : ℕ) := by
    push_cast at hcount_pos ⊢
    field_simp
    ring
  have herrors : count * (Real.log (ratio.magnitude : ℚ) + 1 / 10 ^ 59) ≤
      count * (whole / (count + 1 : ℕ)) + count * (2 / 10 ^ 55) := by
    rw [← mul_add]
    exact mul_le_mul_of_nonneg_left (by linarith [h.log_le]) (Nat.cast_nonneg _)
  push_cast at hcount_le
  exact ⟨hlow.pos, by linarith⟩

end Steps

/-! ### The list of boundaries -/

section Lists

variable {low high second start : ℤ} {inner rest : List ℤ} {segments : List Segment}

private theorem isChain_concat {R : ℤ → ℤ → Prop} {a : ℤ} {l : List ℤ} (h : l.IsChain R) (ha : ∀ p ∈ l, R p a) :
    (l ++ [a]).IsChain R := by
  rw [List.isChain_append]
  refine ⟨h, by simp, ?_⟩
  intro p hp q hq
  simp only [List.head?_cons, Option.mem_some_iff] at hq
  subst hq
  exact ha p (List.mem_of_getLast? hp)

/-- The boundaries before the upper end follow each other and stay below it. -/
private theorem geometricPrices_follows {n : ℤ} (hlow : IsSqrtPrice low) (hhigh : IsSqrtPrice high) (hlt : low < high)
    (hn : 1 ≤ n) (hn' : n ≤ maxCurvePoints) :
    ∃ (ρ : ℝ) (inner : List ℤ), 1 ≤ ρ ∧ (geometricPrices low high n).result = .ok (low :: inner ++ [high]) ∧
      (inner.length : ℤ) + 1 = n ∧ (low :: inner).IsChain (Follows ρ) ∧ ∀ p ∈ low :: inner, p < high := by
  obtain ⟨count, hcount⟩ : ∃ count : ℕ, n.toNat = count + 1 := ⟨n.toNat - 1, by omega⟩
  obtain ⟨ratio, hratio, hlog⟩ := stepRatio_spec hlow hhigh hlt (Nat.succ_pos count)
  have hroom := room_of_ratio hlow hhigh hlt (by omega) hlog
  obtain ⟨inner, hinner, hfollows, hbelow⟩ := scaledPrices_follows hlog.negative_eq hlog.one_le hhigh hroom
  have hlength := length_of_scaledPrices hinner
  refine ⟨(ratio.magnitude : ℚ), inner, hlog.one_le, ?_, by omega, hfollows, hbelow⟩
  simp only [geometricPrices, if_neg (show ¬ n ≤ 0 by omega), if_neg (Int.not_le.mpr hlt), hcount, hratio, hinner,
    Nat.add_sub_cancel, Traced.result_bind, Traced.result_liftM_signal, Traced.result_liftM, Traced.result_emit,
    Traced.result_pure, liftSignal_ok, ok_bind]

/-- Between two sqrt prices the boundaries never decrease and stay below the upper end up to the last one.  They
increase, and serve as the bounds of a curve, exactly if the second one lies above the first. -/
theorem geometricPrices_ordered {n : ℤ} (hlow : IsSqrtPrice low) (hhigh : IsSqrtPrice high) (hlt : low < high)
    (hn : 1 ≤ n) (hn' : n ≤ maxCurvePoints) :
    ∃ second rest, (geometricPrices low high n).result = .ok (low :: second :: rest) ∧
      ((low :: second :: rest).length : ℤ) = n + 1 ∧ (low :: second :: rest).getLast? = some high ∧
      (low :: second :: rest).IsChain (· ≤ ·) ∧ (∀ p ∈ (low :: second :: rest).dropLast, p < high) ∧
      ((low :: second :: rest).IsChain (· < ·) ↔ low < second) ∧
      ∀ segments : List Segment, segments.map Segment.sqrtPrice = second :: rest →
        ((∃ curve, Curve.ofSegments low segments = .ok curve) ↔ low < second) := by
  obtain ⟨ρ, inner, hρ, hresult, hlength, hfollows, hbelow⟩ := geometricPrices_follows hlow hhigh hlt hn hn'
  have hmonotone : (low :: inner ++ [high]).IsChain (· ≤ ·) :=
    isChain_concat (hfollows.imp fun _ _ h => h.le hρ) fun p hp => (hbelow p hp).le
  have hstrict : ∀ second ∈ (inner ++ [high]).head?, low < second → (low :: inner ++ [high]).IsChain (· < ·) := by
    intro second hsecond hmoves
    refine isChain_concat ?_ hbelow
    cases inner with
    | nil => simp
    | cons next rest =>
      -- One step that moves on is followed by steps that do.
      simp only [List.cons_append, List.head?_cons, Option.mem_some_iff] at hsecond
      subst hsecond
      exact isChain_lt_of_follows hρ hfollows hmoves
  have hdropLast : (low :: inner ++ [high]).dropLast = low :: inner := List.dropLast_concat
  obtain ⟨second, rest, hsplit⟩ := List.exists_cons_of_ne_nil (show inner ++ [high] ≠ [] by simp)
  rw [List.cons_append, hsplit] at hresult hmonotone hstrict hdropLast
  have hiff : (low :: second :: rest).IsChain (· < ·) ↔ low < second :=
    ⟨fun h => (List.isChain_cons_cons.mp h).1, hstrict second (by simp)⟩
  have hrest_length : ((second :: rest).length : ℤ) = n := by
    rw [← hsplit, List.length_append, List.length_singleton, Nat.cast_add, Nat.cast_one, hlength]
  refine ⟨second, rest, hresult, ?_, ?_, hmonotone, ?_, hiff, ?_⟩
  · rw [List.length_cons, Nat.cast_add, Nat.cast_one, hrest_length]
  · rw [← hsplit, ← List.cons_append, List.getLast?_concat]
  · rw [hdropLast]
    exact hbelow
  · intro segments hsegments
    have hsegments_length : (segments.length : ℤ) = n := by
      rw [← List.length_map (f := Segment.sqrtPrice), hsegments, hrest_length]
    rw [Curve.exists_ofSegments_iff hlow (List.ne_nil_of_length_pos (by omega)) (by omega), increasing_iff_isChain,
      hsegments, hiff]

/-- Between neighbouring prices no boundary moves before the last one, so there is no curve with these bounds; between
prices with a ratio of sixteen every boundary doubles the one before, and there is one. -/
theorem geometricPrices_ordered_tightest :
    (IsSqrtPrice (2 ^ 64) ∧ IsSqrtPrice (2 ^ 64 + 1) ∧ (2 ^ 64 : ℤ) < 2 ^ 64 + 1 ∧ ∃ rest : List ℤ,
      (geometricPrices (2 ^ 64) (2 ^ 64 + 1) 16).result = .ok (2 ^ 64 :: 2 ^ 64 :: rest) ∧ rest.length = 15 ∧
      rest.getLast? = some (2 ^ 64 + 1) ∧ ¬ (2 ^ 64 :: 2 ^ 64 :: rest).IsChain (· < ·) ∧
      ∀ segments : List Segment, segments.map Segment.sqrtPrice = 2 ^ 64 :: rest →
        ¬∃ curve, Curve.ofSegments (2 ^ 64) segments = .ok curve) ∧
    IsSqrtPrice (2 ^ 68) ∧ (2 ^ 64 : ℤ) < 2 ^ 68 ∧
      (geometricPrices (2 ^ 64) (2 ^ 68) 4).result = .ok [2 ^ 64, 2 ^ 65, 2 ^ 66, 2 ^ 67, 2 ^ 68] ∧
      [(2 : ℤ) ^ 64, 2 ^ 65, 2 ^ 66, 2 ^ 67, 2 ^ 68].IsChain (· < ·) ∧
      ∀ segments : List Segment, segments.map Segment.sqrtPrice = [2 ^ 65, 2 ^ 66, 2 ^ 67, 2 ^ 68] →
        ∃ curve, Curve.ofSegments (2 ^ 64) segments = .ok curve := by
  have hlow : IsSqrtPrice (2 ^ 64) := by decide
  constructor
  · have hhigh : IsSqrtPrice (2 ^ 64 + 1) := by decide
    have hlt : (2 ^ 64 : ℤ) < 2 ^ 64 + 1 := by decide
    obtain ⟨second, rest, hresult, hlength, hlast, hmonotone, hbelow, hiff, hcurve⟩ :=
      geometricPrices_ordered hlow hhigh hlt (show (1 : ℤ) ≤ 16 by decide) (by decide)
    have hrest : rest.length = 15 := by
      simp only [List.length_cons] at hlength
      omega
    obtain ⟨third, rest, rfl⟩ : ∃ third tail, rest = third :: tail := List.exists_cons_of_length_pos (by omega)
    -- The second boundary lies between the ends.
    have hsecond_ge := (List.isChain_cons_cons.mp hmonotone).1
    have hsecond_lt : second < 2 ^ 64 + 1 := hbelow second (by simp)
    obtain rfl : second = 2 ^ 64 := by omega
    refine ⟨hlow, hhigh, hlt, third :: rest, hresult, hrest, by simpa using hlast, ?_, ?_⟩
    · rw [hiff]
      exact lt_irrefl _
    · intro segments hsegments
      rw [hcurve segments hsegments]
      exact lt_irrefl _
  · have hhigh : IsSqrtPrice (2 ^ 68) := by decide
    have hlt : (2 ^ 64 : ℤ) < 2 ^ 68 := by decide
    obtain ⟨second, rest, hresult, -, -, -, -, hiff, hcurve⟩ :=
      geometricPrices_ordered hlow hhigh hlt (show (1 : ℤ) ≤ 4 by decide) (by decide)
    have hprices : (geometricPrices (2 ^ 64) (2 ^ 68) 4).result = .ok [2 ^ 64, 2 ^ 65, 2 ^ 66, 2 ^ 67, 2 ^ 68] :=
      eq_ok_of_toOption (by decide +kernel)
    obtain ⟨rfl, rfl⟩ : second = 2 ^ 65 ∧ rest = [2 ^ 66, 2 ^ 67, 2 ^ 68] := by
      simpa using Except.ok.inj (hresult.symm.trans hprices)
    have hmoves : (2 ^ 64 : ℤ) < 2 ^ 65 := by decide
    exact ⟨hhigh, hlt, hprices, hiff.mpr hmoves, fun segments hsegments => (hcurve segments hsegments).mpr hmoves⟩

end Lists

end BondingCurve
