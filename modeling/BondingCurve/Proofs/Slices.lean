import BondingCurve.Curve.Walk
import BondingCurve.Proofs.Amounts
import Mathlib.Algebra.BigOperators.Group.List.Basic

/-!
# Amounts along slices

The slices of a curve follow each other without a gap (`Curve.slices_ascending`).  Between two prices they hold an
exact amount of each token (`Token.content`); a trader who crosses them pays it rounded up in each slice
(`Token.charge`) or receives it rounded down in each slice (`Token.payout`).

* `Curve.between` lists the parts of the slices that lie between two prices, and `Token.sumOf` adds up their rounded
  amounts; charge and payout are these sums (`Token.sumOf_up`, `Token.sumOf_down`).
* (additivity) contents of neighbouring ranges add up, and a charge covers a smaller charge together with a payout
  (`Token.content_add`, `Token.charge_le_add`, `Token.charge_add_payout_le`).
* (idle ranges) a range without liquidity holds nothing of either token, every other range holds some of both
  (`Token.content_eq_zero_iff`).
-/

namespace BondingCurve

/-! ### Parts of slices -/

/-- The part of a slice between two prices; it is empty if its bounds are not in order. -/
def Slice.cut (low high : Int) (s : Slice) : Slice :=
  { s with lower := max s.lower low, upper := min s.upper high }

/-- The parts of slices that lie between two prices. -/
def slicesBetween (low high : Int) (slices : List Slice) : List Slice :=
  (slices.map (Slice.cut low high)).filter fun s => s.lower < s.upper

/-- The parts of a curve's slices that lie between two prices. -/
def Curve.between (curve : Curve) (low high : Int) : List Slice :=
  slicesBetween low high curve.slices

/-- The amounts of a token that slices hold, each rounded, together. -/
def Token.sumOf (t : Token) (rounding : Rounding) : List Slice → Except CurveError Int
  | [] => .ok 0
  | s :: rest => do
    let here ← t.between s.lower s.upper s.liquidity rounding
    let above ← t.sumOf rounding rest
    pure (here + above)

/-! ### Slices in order -/

/-- What every slice of a curve satisfies. -/
structure Slice.Valid (s : Slice) : Prop where
  lower_pos : 0 < s.lower
  lower_lt : s.lower < s.upper
  upper_le : s.upper ≤ maxSqrtPrice
  liquidity_mem : IsU128 s.liquidity

/-- Slices that follow each other from one price up to another. -/
inductive Ascending : Int → List Slice → Int → Prop
  | nil (p : Int) : Ascending p [] p
  | cons {s : Slice} {rest : List Slice} {top : Int} (hs : s.Valid) (hrest : Ascending s.upper rest top) :
      Ascending s.lower (s :: rest) top

/-- Slices that follow each other from one price down to another. -/
inductive Descending : Int → List Slice → Int → Prop
  | nil (p : Int) : Descending p [] p
  | cons {s : Slice} {rest : List Slice} {bottom : Int} (hs : s.Valid) (hrest : Descending s.lower rest bottom) :
      Descending s.upper (s :: rest) bottom

variable {slices : List Slice} {low high bottom top : Int}

theorem Ascending.valid (h : Ascending low slices high) : ∀ s ∈ slices, s.Valid := by
  induction h with
  | nil => simp
  | cons hs _ ih => exact List.forall_mem_cons.mpr ⟨hs, ih⟩

theorem Ascending.of_cons {s : Slice} {rest : List Slice} (h : Ascending low (s :: rest) high) :
    s.Valid ∧ Ascending s.upper rest high := by
  cases h with
  | cons hs hrest => exact ⟨hs, hrest⟩

theorem Ascending.le (h : Ascending low slices high) : low ≤ high := by
  induction h with
  | nil => exact le_rfl
  | cons hs _ ih => exact hs.lower_lt.le.trans ih

theorem Ascending.le_lower (h : Ascending low slices high) : ∀ s ∈ slices, low ≤ s.lower := by
  induction h with
  | nil => simp
  | cons hs _ ih =>
    refine List.forall_mem_cons.mpr ⟨le_rfl, fun s hmem => ?_⟩
    exact hs.lower_lt.le.trans (ih s hmem)

theorem Descending.valid (h : Descending high slices low) : ∀ s ∈ slices, s.Valid := by
  induction h with
  | nil => simp
  | cons hs _ ih => exact List.forall_mem_cons.mpr ⟨hs, ih⟩

theorem Descending.le (h : Descending high slices low) : low ≤ high := by
  induction h with
  | nil => exact le_rfl
  | cons hs _ ih => exact ih.trans hs.lower_lt.le

theorem Descending.upper_le (h : Descending high slices low) : ∀ s ∈ slices, s.upper ≤ high := by
  induction h with
  | nil => simp
  | cons hs _ ih =>
    refine List.forall_mem_cons.mpr ⟨le_rfl, fun s hmem => ?_⟩
    exact (ih s hmem).trans hs.lower_lt.le

private theorem Descending.append_singleton {s : Slice} (hs : s.Valid) (h : Descending high slices s.upper) :
    Descending high (slices ++ [s]) s.lower := by
  -- The induction needs a variable where the slices end.
  generalize hm : s.upper = m at h
  induction h with
  | nil p =>
    subst hm
    exact .cons hs (.nil _)
  | cons hv _ ih => exact .cons hv (ih hm)

theorem Ascending.reverse (h : Ascending low slices high) : Descending high slices.reverse low := by
  induction h with
  | nil p => exact .nil p
  | cons hs _ ih =>
    rw [List.reverse_cons]
    exact ih.append_singleton hs

private theorem slicesFrom_ascending {segments : List Segment} {index : Nat} {lower : Int} (hl : 0 < lower)
    (h : Increasing lower segments) :
    Ascending lower (slicesFrom index lower segments) ((segments.map Segment.sqrtPrice).getLastD lower) := by
  induction segments generalizing index lower with
  | nil => exact .nil lower
  | cons s rest ih =>
    have hs : (Slice.mk index lower s.sqrtPrice s.liquidity).Valid := ⟨hl, h.1, s.price_mem.2, s.liquidity_mem⟩
    rw [List.map_cons, List.getLastD_cons]
    exact .cons hs (ih (hl.trans h.1) h.2)

/-- The end price is the last bound. -/
theorem Curve.getLastD_sqrtPrice (curve : Curve) (p : Int) :
    (curve.segments.map Segment.sqrtPrice).getLastD p = curve.sqrtEndPrice := by
  rw [List.getLastD_eq_getLast?, List.getLast?_map, List.getLast?_eq_some_getLast curve.segments_ne_nil]
  rfl

/-- The slices of a curve reach from its start price to its end price. -/
theorem Curve.slices_ascending (curve : Curve) :
    Ascending curve.sqrtStartPrice curve.slices curve.sqrtEndPrice := by
  have h : Ascending curve.sqrtStartPrice curve.slices _ := slicesFrom_ascending curve.start_mem.pos curve.increasing
  rwa [curve.getLastD_sqrtPrice] at h

theorem length_slicesFrom (segments : List Segment) (index : Nat) (lower : Int) :
    (slicesFrom index lower segments).length = segments.length := by
  induction segments generalizing index lower with
  | nil => rfl
  | cons s rest ih => rw [slicesFrom, List.length_cons, List.length_cons, ih]

section First

variable {curve : Curve} {first : Segment} {rest : List Segment}

theorem Curve.slices_of_cons (h : curve.segments = first :: rest) :
    curve.slices =
      ⟨0, curve.sqrtStartPrice, first.sqrtPrice, first.liquidity⟩ :: slicesFrom 1 first.sqrtPrice rest := by
  rw [slices, h]
  rfl

theorem Curve.ascending_of_cons (h : curve.segments = first :: rest) :
    Slice.Valid ⟨0, curve.sqrtStartPrice, first.sqrtPrice, first.liquidity⟩ ∧
      Ascending first.sqrtPrice (slicesFrom 1 first.sqrtPrice rest) curve.sqrtEndPrice := by
  have hascending := curve.slices_ascending
  rw [slices_of_cons h] at hascending
  exact hascending.of_cons

/-- The first segment of a curve costs its exact amount, rounded up. -/
theorem Curve.between_first (h : curve.segments = first :: rest) (t : Token) :
    t.between curve.sqrtStartPrice first.sqrtPrice first.liquidity .up =
      .ok ⌈t.amount curve.sqrtStartPrice first.sqrtPrice first.liquidity⌉ := by
  obtain ⟨hvalid, -⟩ := ascending_of_cons h
  exact t.between_up hvalid.lower_pos hvalid.lower_lt.le hvalid.liquidity_mem.1

end First

/-! ### Prices within a slice -/

namespace Slice

/-- The price of a slice that is nearest to a price. -/
def clamp (s : Slice) (p : Int) : Int := max s.lower (min p s.upper)

variable {s : Slice} {p q : Int}

theorem clamp_of_le (h : p ≤ s.lower) : s.clamp p = s.lower := by
  unfold clamp
  omega

theorem clamp_of_ge (hs : s.Valid) (h : s.upper ≤ p) : s.clamp p = s.upper := by
  have := hs.lower_lt
  unfold clamp
  omega

theorem clamp_of_mem (hl : s.lower ≤ p) (hu : p ≤ s.upper) : s.clamp p = p := by
  unfold clamp
  omega

theorem clamp_mono (h : p ≤ q) : s.clamp p ≤ s.clamp q := by
  unfold clamp
  omega

theorem clamp_pos (hs : s.Valid) (p : Int) : 0 < s.clamp p :=
  hs.lower_pos.trans_le (le_max_left _ _)

end Slice

/-! ### Contents, charges and payouts -/

namespace Token

/-- The exact amount of a token that slices hold between two prices. -/
def content (t : Token) (slices : List Slice) (low high : Int) : ℚ :=
  (slices.map fun s => t.amount (s.clamp low) (s.clamp high) s.liquidity).sum

/-- The amount of a token that a trader pays to cross slices between two prices: rounded up in each slice. -/
def charge (t : Token) (slices : List Slice) (low high : Int) : Int :=
  (slices.map fun s => ⌈t.amount (s.clamp low) (s.clamp high) s.liquidity⌉).sum

/-- The amount of a token that a trader receives for crossing slices between two prices: rounded down in each
slice. -/
def payout (t : Token) (slices : List Slice) (low high : Int) : Int :=
  (slices.map fun s => ⌊t.amount (s.clamp low) (s.clamp high) s.liquidity⌋).sum

variable (t : Token) {a b c : Int} {s : Slice} {rest : List Slice}

@[simp] theorem content_nil : t.content [] a b = 0 := rfl

@[simp] theorem charge_nil : t.charge [] a b = 0 := rfl

@[simp] theorem payout_nil : t.payout [] a b = 0 := rfl

@[simp] theorem content_cons :
    t.content (s :: rest) a b = t.amount (s.clamp a) (s.clamp b) s.liquidity + t.content rest a b :=
  List.sum_cons

@[simp] theorem charge_cons :
    t.charge (s :: rest) a b = ⌈t.amount (s.clamp a) (s.clamp b) s.liquidity⌉ + t.charge rest a b :=
  List.sum_cons

@[simp] theorem payout_cons :
    t.payout (s :: rest) a b = ⌊t.amount (s.clamp a) (s.clamp b) s.liquidity⌋ + t.payout rest a b :=
  List.sum_cons

@[simp] theorem charge_reverse : t.charge slices.reverse a b = t.charge slices a b := by
  rw [charge, charge, List.map_reverse, List.sum_reverse]

@[simp] theorem payout_reverse : t.payout slices.reverse a b = t.payout slices a b := by
  rw [payout, payout, List.map_reverse, List.sum_reverse]

@[simp] theorem content_self : t.content slices a a = 0 := by
  simp [content]

@[simp] theorem charge_self : t.charge slices a a = 0 := by
  simp [charge]

@[simp] theorem payout_self : t.payout slices a a = 0 := by
  simp [payout]

theorem content_add : t.content slices a b + t.content slices b c = t.content slices a c := by
  simp only [content, ← List.sum_map_add, t.amount_add]

theorem content_neg : t.content slices a b = -t.content slices b a := by
  have h : t.content slices a b + t.content slices b a = 0 := by rw [t.content_add, t.content_self]
  linarith

/-- Crossing a range in two parts is never cheaper. -/
theorem charge_le_add : t.charge slices a c ≤ t.charge slices a b + t.charge slices b c := by
  simp only [charge, ← List.sum_map_add]
  exact List.sum_le_sum fun s _ => t.ceil_amount_le_add _ _ _ _

/-- The charge of a range covers the charge of its lower part and the payout of its upper part. -/
theorem charge_add_payout_le : t.charge slices a b + t.payout slices b c ≤ t.charge slices a c := by
  simp only [charge, payout, ← List.sum_map_add]
  exact List.sum_le_sum fun s _ => t.ceil_amount_add_floor_le _ _ _ _

/-- Crossing a range in two parts never pays more. -/
theorem payout_add_le : t.payout slices a b + t.payout slices b c ≤ t.payout slices a c := by
  simp only [payout, ← List.sum_map_add]
  exact List.sum_le_sum fun s _ => t.floor_amount_add_le _ _ _ _

theorem content_le_charge : t.content slices a b ≤ t.charge slices a b := by
  induction slices with
  | nil => simp
  | cons s rest ih =>
    rw [content_cons, charge_cons, Int.cast_add]
    exact add_le_add (Int.le_ceil _) ih

theorem payout_le_content : (t.payout slices a b : ℚ) ≤ t.content slices a b := by
  induction slices with
  | nil => simp
  | cons s rest ih =>
    rw [content_cons, payout_cons, Int.cast_add]
    exact add_le_add (Int.floor_le _) ih

theorem payout_le_charge : t.payout slices a b ≤ t.charge slices a b := by
  exact_mod_cast t.payout_le_content.trans t.content_le_charge

/-- Rounding up instead of down adds at most a unit in each slice that a walk from below enters. -/
theorem charge_le_payout_add (hlow : ∀ s ∈ slices, a ≤ s.lower) :
    t.charge slices a b ≤ t.payout slices a b + slices.countP (·.lower < b) := by
  induction slices with
  | nil => simp
  | cons s rest ih =>
    rw [List.forall_mem_cons] at hlow
    have habove := ih hlow.2
    rw [charge_cons, payout_cons, List.countP_cons, Slice.clamp_of_le hlow.1]
    by_cases hentered : s.lower < b
    · have hhere := Int.ceil_le_floor_add_one (t.amount s.lower (s.clamp b) s.liquidity)
      simp only [hentered, decide_true, if_true]
      omega
    · rw [Slice.clamp_of_le (Int.not_lt.mp hentered), t.amount_self, Int.ceil_zero, Int.floor_zero]
      simp only [hentered, decide_false, Bool.false_eq_true, if_false]
      omega

section Valid

variable (hv : ∀ s ∈ slices, s.Valid)
include hv

private theorem amount_clamp_nonneg (h : a ≤ b) : ∀ s ∈ slices, 0 ≤ t.amount (s.clamp a) (s.clamp b) s.liquidity :=
  fun s hs => t.amount_nonneg (Slice.clamp_pos (hv s hs) a) (Slice.clamp_mono h) (hv s hs).liquidity_mem.1

theorem content_nonneg (h : a ≤ b) : 0 ≤ t.content slices a b :=
  List.sum_nonneg (List.forall_mem_map.mpr (amount_clamp_nonneg t hv h))

theorem charge_nonneg (h : a ≤ b) : 0 ≤ t.charge slices a b :=
  List.sum_nonneg (List.forall_mem_map.mpr fun s hs => Int.ceil_nonneg (amount_clamp_nonneg t hv h s hs))

theorem payout_nonneg (h : a ≤ b) : 0 ≤ t.payout slices a b :=
  List.sum_nonneg (List.forall_mem_map.mpr fun s hs => Int.floor_nonneg.mpr (amount_clamp_nonneg t hv h s hs))

theorem charge_mono (h : b ≤ c) : t.charge slices a b ≤ t.charge slices a c := by
  have h₁ := t.payout_nonneg hv h
  have h₂ : t.charge slices a b + t.payout slices b c ≤ t.charge slices a c := t.charge_add_payout_le
  omega

theorem charge_anti (h : a ≤ b) : t.charge slices b c ≤ t.charge slices a c := by
  apply List.sum_le_sum
  intro s hs
  apply Int.ceil_le_ceil
  rw [← t.amount_add (s.clamp a) (s.clamp b)]
  exact le_add_of_nonneg_left (t.amount_clamp_nonneg hv h s hs)

end Valid

private theorem sum_clamp_congr (f : ℚ → Int) {a' b' : Int} (ha : ∀ s ∈ slices, s.clamp a = s.clamp a')
    (hb : ∀ s ∈ slices, s.clamp b = s.clamp b') :
    (slices.map fun s => f (t.amount (s.clamp a) (s.clamp b) s.liquidity)).sum =
      (slices.map fun s => f (t.amount (s.clamp a') (s.clamp b') s.liquidity)).sum := by
  congr 1
  apply List.map_congr_left
  intro s hs
  rw [ha s hs, hb s hs]

/-- A charge depends only on where its prices lie within the slices. -/
theorem charge_congr {a' b' : Int} (ha : ∀ s ∈ slices, s.clamp a = s.clamp a')
    (hb : ∀ s ∈ slices, s.clamp b = s.clamp b') : t.charge slices a b = t.charge slices a' b' :=
  t.sum_clamp_congr Int.ceil ha hb

theorem payout_congr {a' b' : Int} (ha : ∀ s ∈ slices, s.clamp a = s.clamp a')
    (hb : ∀ s ∈ slices, s.clamp b = s.clamp b') : t.payout slices a b = t.payout slices a' b' :=
  t.sum_clamp_congr Int.floor ha hb

end Token

/-- Slices see every price below them as their lowest price. -/
theorem Ascending.clamp_eq {p : Int} (h : Ascending low slices high) (hp : p ≤ low) :
    ∀ s ∈ slices, s.clamp p = s.clamp low := by
  intro s hs
  have hlow := h.le_lower s hs
  rw [Slice.clamp_of_le (hp.trans hlow), Slice.clamp_of_le hlow]

/-- Slices see the ends of the range that they fill as their own bounds. -/
theorem Ascending.clamp_ends (h : Ascending low slices high) :
    ∀ s ∈ slices, s.clamp low = s.lower ∧ s.clamp high = s.upper := by
  intro s hs
  have hvalid := h.valid s hs
  have hupper := h.reverse.upper_le s (List.mem_reverse.mpr hs)
  exact ⟨Slice.clamp_of_le (h.le_lower s hs), Slice.clamp_of_ge hvalid hupper⟩

/-- Crossing slices from the bottom pays for the whole of the first one before those above it. -/
theorem Ascending.charge_cons {s : Slice} {rest : List Slice} {p : Int} (hrest : Ascending s.upper rest top)
    (hs : s.Valid) (t : Token) (hp : s.upper ≤ p) :
    t.charge (s :: rest) s.lower p = ⌈t.amount s.lower s.upper s.liquidity⌉ + t.charge rest s.upper p := by
  have hrest_eq : t.charge rest s.lower p = t.charge rest s.upper p :=
    t.charge_congr (hrest.clamp_eq hs.lower_lt.le) fun _ _ => rfl
  rw [t.charge_cons, Slice.clamp_of_le le_rfl, Slice.clamp_of_ge hs hp, hrest_eq]

/-- Crossing a curve from its start pays for the whole of its first segment before those above it. -/
theorem Curve.charge_first {curve : Curve} {first : Segment} {rest : List Segment} {p : Int}
    (h : curve.segments = first :: rest) (t : Token) (hp : first.sqrtPrice ≤ p) :
    t.charge curve.slices curve.sqrtStartPrice p =
      ⌈t.amount curve.sqrtStartPrice first.sqrtPrice first.liquidity⌉ +
        t.charge (slicesFrom 1 first.sqrtPrice rest) first.sqrtPrice p := by
  obtain ⟨hvalid, hrest⟩ := ascending_of_cons h
  rw [slices_of_cons h]
  exact hrest.charge_cons hvalid t hp

theorem Curve.charge_to_first {curve : Curve} {first : Segment} {rest : List Segment}
    (h : curve.segments = first :: rest) (t : Token) :
    t.charge curve.slices curve.sqrtStartPrice first.sqrtPrice =
      ⌈t.amount curve.sqrtStartPrice first.sqrtPrice first.liquidity⌉ := by
  rw [charge_first h t le_rfl, t.charge_self, add_zero]

/-- Crossing a range in two parts costs at most one unit more: no more than one slice is cut. -/
theorem Ascending.charge_add_le (h : Ascending low slices high) (t : Token) {a b c : Int} (hab : a ≤ b) (hbc : b ≤ c) :
    t.charge slices a b + t.charge slices b c ≤ t.charge slices a c + 1 := by
  induction h with
  | nil => simp
  | @cons s rest top hs hrest ih =>
    simp only [t.charge_cons]
    rcases le_or_gt b s.upper with hcut | hpast
    · -- The slices above the first see the two lower prices as one.
      have ha := hrest.clamp_eq (hab.trans hcut)
      have hb := hrest.clamp_eq hcut
      have hidle : t.charge rest a b = 0 := by rw [t.charge_congr ha hb, t.charge_self]
      have hrest_eq : t.charge rest b c = t.charge rest a c :=
        t.charge_congr (fun s hs => (hb s hs).trans (ha s hs).symm) fun _ _ => rfl
      have hhere := t.ceil_amount_add_le (s.clamp a) (s.clamp b) (s.clamp c) s.liquidity
      omega
    · rw [Slice.clamp_of_ge hs hpast.le, Slice.clamp_of_ge hs (hpast.le.trans hbc), t.amount_self, Int.ceil_zero]
      omega

theorem Descending.clamp_eq {p : Int} (h : Descending high slices low) (hp : high ≤ p) :
    ∀ s ∈ slices, s.clamp p = s.clamp high := by
  intro s hs
  have hhigh := h.upper_le s hs
  rw [Slice.clamp_of_ge (h.valid s hs) (hhigh.trans hp), Slice.clamp_of_ge (h.valid s hs) hhigh]

/-! ### Idle ranges -/

/-- Between two prices no slice has liquidity. -/
def Idle (slices : List Slice) (low high : Int) : Prop :=
  ∀ s ∈ slices, s.clamp low < s.clamp high → s.liquidity = 0

namespace Idle

variable {s : Slice} {rest : List Slice} {a b c : Int}

theorem cons_iff : Idle (s :: rest) a b ↔ (s.clamp a < s.clamp b → s.liquidity = 0) ∧ Idle rest a b :=
  List.forall_mem_cons

@[simp] theorem reverse_iff : Idle slices.reverse a b ↔ Idle slices a b := by
  simp only [Idle, List.mem_reverse]

private theorem amount_eq_zero (t : Token) (h : Idle slices a b) (hab : a ≤ b) :
    ∀ s ∈ slices, t.amount (s.clamp a) (s.clamp b) s.liquidity = 0 := by
  intro s hs
  rcases (s.clamp_mono hab).eq_or_lt with he | hlt
  · rw [he, t.amount_self]
  · rw [h s hs hlt, t.amount_zero]

theorem mono {d : Int} (h : Idle slices a d) (hab : a ≤ b) (hcd : c ≤ d) : Idle slices b c := by
  intro s hs hlt
  exact h s hs ((s.clamp_mono hab).trans_lt (hlt.trans_le (s.clamp_mono hcd)))

theorem content_eq_zero (t : Token) (h : Idle slices a b) (hab : a ≤ b) : t.content slices a b = 0 := by
  apply List.sum_eq_zero
  rw [List.forall_mem_map]
  exact h.amount_eq_zero t hab

/-- Crossing an idle range costs nothing more. -/
theorem charge_eq (t : Token) (h : Idle slices b c) (hbc : b ≤ c) : t.charge slices a c = t.charge slices a b := by
  unfold Token.charge
  congr 1
  apply List.map_congr_left
  intro s hs
  rw [← t.amount_add _ (s.clamp b), h.amount_eq_zero t hbc s hs, add_zero]

end Idle

/-- A range holds nothing of a token exactly if it is idle. -/
theorem Token.content_eq_zero_iff (t : Token) {a b : Int} (hv : ∀ s ∈ slices, s.Valid) (hab : a ≤ b) :
    t.content slices a b = 0 ↔ Idle slices a b := by
  refine ⟨fun h => ?_, fun h => h.content_eq_zero t hab⟩
  induction slices with
  | nil => simp [Idle]
  | cons s rest ih =>
    rw [List.forall_mem_cons] at hv
    have hs := t.amount_nonneg (Slice.clamp_pos hv.1 a) (s.clamp_mono hab) hv.1.liquidity_mem.1
    have hrest := t.content_nonneg hv.2 hab
    -- No summand is negative, so each of them is zero.
    rw [t.content_cons] at h
    refine Idle.cons_iff.mpr ⟨fun hlt => ?_, ih hv.2 (by linarith)⟩
    by_contra hL
    have hpos : 0 < s.liquidity := lt_of_le_of_ne hv.1.liquidity_mem.1 (Ne.symm hL)
    have := t.amount_pos (Slice.clamp_pos hv.1 a) hlt hpos
    linarith

/-- A range is free of charge only if it is idle. -/
theorem Token.charge_pos_or_idle (t : Token) {a b : Int} (hv : ∀ s ∈ slices, s.Valid) (hab : a ≤ b) :
    0 < t.charge slices a b ∨ Idle slices a b := by
  rw [← t.content_eq_zero_iff hv hab]
  rcases (t.content_nonneg hv hab).eq_or_lt with h | h
  · exact .inr h.symm
  · exact .inl (by exact_mod_cast h.trans_le t.content_le_charge)

/-! ### Sums over parts -/

namespace Token

variable {s : Slice} {rest : List Slice}

private theorem cut_bounds (hs : s.Valid) (h : low ≤ high) :
    (max s.lower low < min s.upper high ∧ s.clamp low = max s.lower low ∧ s.clamp high = min s.upper high) ∨
    (¬ max s.lower low < min s.upper high ∧ s.clamp low = s.clamp high) := by
  have := hs.lower_lt
  unfold Slice.clamp
  omega

private theorem slicesBetween_cons_of_lt (h : max s.lower low < min s.upper high) :
    slicesBetween low high (s :: rest) = s.cut low high :: slicesBetween low high rest := by
  simp [slicesBetween, Slice.cut, h]

private theorem slicesBetween_cons_of_not_lt (h : ¬ max s.lower low < min s.upper high) :
    slicesBetween low high (s :: rest) = slicesBetween low high rest := by
  simp only [slicesBetween, Slice.cut, List.map_cons]
  rw [List.filter_cons_of_neg (by simpa using h)]

private theorem sumOf_slicesBetween (t : Token) {rounding : Rounding} {f : ℚ → Int} (hf : f 0 = 0)
    (hround : ∀ {l u L : Int}, 0 < l → l ≤ u → 0 ≤ L → t.between l u L rounding = .ok (f (t.amount l u L)))
    (hv : ∀ s ∈ slices, s.Valid) (h : low ≤ high) :
    t.sumOf rounding (slicesBetween low high slices) =
      .ok (slices.map fun s => f (t.amount (s.clamp low) (s.clamp high) s.liquidity)).sum := by
  induction slices with
  | nil => rfl
  | cons s rest ih =>
    rw [List.forall_mem_cons] at hv
    rw [List.map_cons, List.sum_cons]
    rcases cut_bounds hv.1 h with ⟨hlt, hlow, hhigh⟩ | ⟨hnlt, heq⟩
    · have hhere := hround (Slice.clamp_pos hv.1 low) (Slice.clamp_mono h) hv.1.liquidity_mem.1
      rw [hlow, hhigh] at hhere
      rw [slicesBetween_cons_of_lt hlt, hlow, hhigh]
      simp [sumOf, Slice.cut, hhere, ih hv.2]
    · rw [slicesBetween_cons_of_not_lt hnlt, ih hv.2, heq, t.amount_self, hf, zero_add]

/-- The parts between two prices cost the charge of the range. -/
theorem sumOf_up (t : Token) (hv : ∀ s ∈ slices, s.Valid) (h : low ≤ high) :
    t.sumOf .up (slicesBetween low high slices) = .ok (t.charge slices low high) :=
  t.sumOf_slicesBetween Int.ceil_zero t.between_up hv h

theorem sumOf_down (t : Token) (hv : ∀ s ∈ slices, s.Valid) (h : low ≤ high) :
    t.sumOf .down (slicesBetween low high slices) = .ok (t.payout slices low high) :=
  t.sumOf_slicesBetween Int.floor_zero t.between_down hv h

theorem liquidity_eq_zero_iff (hv : ∀ s ∈ slices, s.Valid) (h : low ≤ high) :
    (∀ s ∈ slicesBetween low high slices, s.liquidity = 0) ↔ Idle slices low high := by
  induction slices with
  | nil => simp [slicesBetween, Idle]
  | cons s rest ih =>
    rw [List.forall_mem_cons] at hv
    rw [Idle.cons_iff, ← ih hv.2]
    rcases cut_bounds hv.1 h with ⟨hlt, hlow, hhigh⟩ | ⟨hnlt, heq⟩
    · rw [slicesBetween_cons_of_lt hlt, List.forall_mem_cons, hlow, hhigh]
      exact and_congr_left fun _ => ⟨fun hz _ => hz, fun hz => hz hlt⟩
    · rw [slicesBetween_cons_of_not_lt hnlt, heq]
      simp

end Token

end BondingCurve
