import BondingCurve.Proofs.Slices
import Mathlib.Data.List.Chain

/-!
# Curves tile a price range

To build a segment or a curve undoes reading its fields: the points that are accepted are those of some curve
(`Curve.ofPoints_eq_ok_iff`).  What that asks of the points is what the types carry, with the order of the bounds as a
chain from the start price (`Curve.exists_ofPoints_iff`).

* (tiling) Slices that follow each other leave no gap and do not overlap, so a price above the start and up to the end
  lies in exactly one of them (`Ascending.existsUnique_slice`).
* (extension) One more segment keeps all intervals and adds the one from the old end up to its own bound
  (`Curve.withSegment_slices`).
-/

namespace BondingCurve

/-! ### Accepted points -/

/-- The bound and the liquidity of a segment. -/
def Segment.point (s : Segment) : Int × Int := (s.sqrtPrice, s.liquidity)

/-- The bounds and liquidities of a curve. -/
def Curve.points (curve : Curve) : List (Int × Int) := curve.segments.map Segment.point

section Construction

variable {start price liquidity : Int} {segments : List Segment} {s : Segment} {points : List (Int × Int)}

theorem Segment.ofInts_eq_ok_iff :
    Segment.ofInts price liquidity = .ok s ↔ s.sqrtPrice = price ∧ s.liquidity = liquidity := by
  constructor
  · exact Segment.fields_of_ofInts
  · rintro ⟨rfl, rfl⟩
    have hprice : requireSqrtPrice "segment.sqrt_price" s.sqrtPrice = .ok ⟨s.price_mem⟩ := dif_pos s.price_mem
    rw [Segment.ofInts, hprice, requireU128_of_isU128 _ s.liquidity_mem]
    rfl

theorem exists_segment (hprice : IsSqrtPrice price) (hliquidity : IsU128 liquidity) :
    ∃ s, Segment.ofInts price liquidity = .ok s :=
  ⟨⟨price, liquidity, hprice, hliquidity⟩, Segment.ofInts_eq_ok_iff.mpr ⟨rfl, rfl⟩⟩

theorem increasing_iff_isChain :
    Increasing start segments ↔ (start :: segments.map Segment.sqrtPrice).IsChain (· < ·) := by
  induction segments generalizing start with
  | nil => simp [Increasing]
  | cons s rest ih => rw [Increasing, List.map_cons, List.isChain_cons_cons, ih]

private theorem increasing_concat_iff :
    Increasing start (segments ++ [s]) ↔
      Increasing start segments ∧ (segments.map Segment.sqrtPrice).getLastD start < s.sqrtPrice := by
  induction segments generalizing start with
  | nil => simp [Increasing]
  | cons first rest ih =>
    rw [List.cons_append, Increasing, Increasing, ih, List.map_cons, List.getLastD_cons, and_assoc]

namespace Curve

theorem ofSegments_eq_ok_iff {curve : Curve} :
    ofSegments start segments = .ok curve ↔ curve.sqrtStartPrice = start ∧ curve.segments = segments := by
  constructor
  · exact fields_of_ofSegments
  · rintro ⟨rfl, rfl⟩
    have hstart : requireSqrtPrice "sqrt_start_price" curve.sqrtStartPrice = .ok ⟨curve.start_mem⟩ :=
      dif_pos curve.start_mem
    have horder : disorder 0 curve.sqrtStartPrice curve.segments = none := disorder_eq_none_iff.mpr curve.increasing
    rw [ofSegments, hstart, ok_bind]
    dsimp only
    rw [dif_neg curve.segments_ne_nil, dif_neg (Nat.not_lt.mpr curve.length_le)]
    split
    · rename_i hfault
      rw [horder] at hfault
      cases hfault
    · rfl

theorem exists_ofSegments_iff (hstart : IsSqrtPrice start) (hne : segments ≠ [])
    (hlength : segments.length ≤ maxCurvePoints) :
    (∃ curve, ofSegments start segments = .ok curve) ↔ Increasing start segments := by
  constructor
  · rintro ⟨curve, hcurve⟩
    obtain ⟨rfl, rfl⟩ := ofSegments_eq_ok_iff.mp hcurve
    exact curve.increasing
  · intro hincreasing
    exact ⟨⟨start, segments, hstart, hne, hlength, hincreasing⟩, ofSegments_eq_ok_iff.mpr ⟨rfl, rfl⟩⟩

theorem segmentsOfPoints_eq_ok_iff : segmentsOfPoints points = .ok segments ↔ segments.map Segment.point = points := by
  induction points generalizing segments with
  | nil => simp [segmentsOfPoints, eq_comm]
  | cons x rest ih =>
    obtain ⟨price, liquidity⟩ := x
    simp only [segmentsOfPoints, bind_eq_ok_iff, Segment.ofInts_eq_ok_iff, ih]
    constructor
    · rintro ⟨s, ⟨rfl, rfl⟩, above, rfl, ⟨⟩⟩
      rfl
    · intro h
      obtain ⟨s, above, rfl, hpoint, habove⟩ := List.map_eq_cons_iff.mp h
      exact ⟨s, ⟨congrArg Prod.fst hpoint, congrArg Prod.snd hpoint⟩, above, habove, rfl⟩

/-- A start price and points are accepted exactly as those of a curve that has them. -/
theorem ofPoints_eq_ok_iff {curve : Curve} :
    ofPoints start points = .ok curve ↔ curve.sqrtStartPrice = start ∧ curve.points = points := by
  simp only [ofPoints, bind_eq_ok_iff, segmentsOfPoints_eq_ok_iff, ofSegments_eq_ok_iff]
  constructor
  · rintro ⟨segments, hpoints, hstart, rfl⟩
    exact ⟨hstart, hpoints⟩
  · rintro ⟨hstart, hpoints⟩
    exact ⟨curve.segments, hpoints, hstart, rfl⟩

private theorem exists_segmentsOfPoints (h : ∀ x ∈ points, IsSqrtPrice x.1 ∧ IsU128 x.2) :
    ∃ segments, segmentsOfPoints points = .ok segments := by
  induction points with
  | nil => exact ⟨[], rfl⟩
  | cons x rest ih =>
    rw [List.forall_mem_cons] at h
    obtain ⟨s, hs⟩ := exists_segment h.1.1 h.1.2
    obtain ⟨above, habove⟩ := ih h.2
    exact ⟨s :: above, by simp [segmentsOfPoints, hs, habove]⟩

private theorem map_fst_points (segments : List Segment) :
    (segments.map Segment.point).map Prod.fst = segments.map Segment.sqrtPrice := by
  rw [List.map_map]
  rfl

theorem exists_ofPoints_iff :
    (∃ curve, ofPoints start points = .ok curve) ↔
      IsSqrtPrice start ∧ (∀ x ∈ points, IsSqrtPrice x.1 ∧ IsU128 x.2) ∧
      1 ≤ points.length ∧ points.length ≤ maxCurvePoints ∧ (start :: points.map Prod.fst).IsChain (· < ·) := by
  constructor
  · rintro ⟨curve, hcurve⟩
    obtain ⟨rfl, rfl⟩ := ofPoints_eq_ok_iff.mp hcurve
    refine ⟨curve.start_mem, ?_, ?_, ?_, ?_⟩
    · intro x hx
      obtain ⟨s, -, rfl⟩ := List.mem_map.mp hx
      exact ⟨s.price_mem, s.liquidity_mem⟩
    · rw [points, List.length_map]
      exact List.length_pos_of_ne_nil curve.segments_ne_nil
    · rw [points, List.length_map]
      exact curve.length_le
    · rw [points, map_fst_points]
      exact increasing_iff_isChain.mp curve.increasing
  · rintro ⟨hstart, hmem, hpos, hlength, hchain⟩
    obtain ⟨segments, hsegments⟩ := exists_segmentsOfPoints hmem
    obtain rfl := segmentsOfPoints_eq_ok_iff.mp hsegments
    rw [List.length_map] at hpos hlength
    rw [map_fst_points] at hchain
    obtain ⟨curve, hcurve⟩ := (exists_ofSegments_iff hstart (List.ne_nil_of_length_pos hpos) hlength).mpr
      (increasing_iff_isChain.mpr hchain)
    refine ⟨curve, ?_⟩
    rw [ofPoints, hsegments]
    exact hcurve

end Curve

end Construction

/-! ### Tiling -/

/-- Between the ends of slices that follow each other, a price lies in exactly one slice. -/
theorem Ascending.existsUnique_slice {slices : List Slice} {low high p : Int} (h : Ascending low slices high)
    (hlow : low < p) (hhigh : p ≤ high) : ∃! i : Nat, ∃ s : Slice, slices[i]? = some s ∧ s.lower < p ∧ p ≤ s.upper := by
  induction h with
  | nil => omega
  | @cons s rest top hs hrest ih =>
    by_cases hp : p ≤ s.upper
    · refine ⟨0, ⟨s, rfl, hlow, hp⟩, ?_⟩
      rintro (_ | j) ⟨t, ht, hbelow, -⟩
      · rfl
      · -- The slices above start where the first one ends.
        have := hrest.le_lower t (List.mem_of_getElem? ht)
        omega
    · obtain ⟨i, ⟨t, ht, hmem⟩, hunique⟩ := ih (by omega) hhigh
      refine ⟨i + 1, ⟨t, ht, hmem⟩, ?_⟩
      rintro (_ | j) ⟨t', ht', hmem'⟩
      · obtain rfl : s = t' := by simpa using ht'
        omega
      · exact congrArg Nat.succ (hunique j ⟨t', ht', hmem'⟩)

private theorem map_upper_slicesFrom (segments : List Segment) (index : Nat) (lower : Int) :
    (slicesFrom index lower segments).map Slice.upper = segments.map Segment.sqrtPrice := by
  induction segments generalizing index lower with
  | nil => rfl
  | cons s rest ih => rw [slicesFrom, List.map_cons, List.map_cons, ih]

private theorem slicesFrom_concat (segments : List Segment) (s : Segment) (index : Nat) (lower : Int) :
    slicesFrom index lower (segments ++ [s]) = slicesFrom index lower segments ++
      [⟨index + segments.length, (segments.map Segment.sqrtPrice).getLastD lower, s.sqrtPrice, s.liquidity⟩] := by
  induction segments generalizing index lower with
  | nil => rfl
  | cons first rest ih =>
    rw [List.cons_append, slicesFrom, slicesFrom, ih, List.map_cons, List.getLastD_cons, List.length_cons,
      List.cons_append, Nat.add_right_comm, Nat.add_assoc]

namespace Curve

/-- A price lies in the interval of a segment: above its lower bound and up to its own. -/
def Covers (curve : Curve) (i : Nat) (p : Int) : Prop :=
  ∃ lower s, curve.lowerBounds[i]? = some lower ∧ curve.segments[i]? = some s ∧ lower < p ∧ p ≤ s.sqrtPrice

variable {curve next : Curve} {s : Segment} {i : Nat} {p : Int}

theorem covers_iff : curve.Covers i p ↔ ∃ s, curve.slices[i]? = some s ∧ s.lower < p ∧ p ≤ s.upper := by
  have hbounds : curve.segments[i]?.map Segment.sqrtPrice = curve.slices[i]?.map Slice.upper := by
    rw [← List.getElem?_map, ← List.getElem?_map, slices, map_upper_slicesFrom]
  unfold Covers
  rw [lowerBounds, List.getElem?_map]
  cases hslice : curve.slices[i]? with
  | none => simp
  | some t =>
    rw [hslice] at hbounds
    obtain ⟨u, hu, hupper⟩ := Option.map_eq_some_iff.mp hbounds
    simp [hu, hupper]

theorem withSegment_eq_ok_iff :
    curve.withSegment s = .ok next ↔
      next.sqrtStartPrice = curve.sqrtStartPrice ∧ next.segments = curve.segments ++ [s] :=
  ofSegments_eq_ok_iff

private theorem exists_withSegment_iff :
    (∃ next, curve.withSegment s = .ok next) ↔
      curve.segments.length < maxCurvePoints ∧ curve.sqrtEndPrice < s.sqrtPrice := by
  have horder : Increasing curve.sqrtStartPrice (curve.segments ++ [s]) ↔ curve.sqrtEndPrice < s.sqrtPrice := by
    rw [increasing_concat_iff, curve.getLastD_sqrtPrice]
    exact and_iff_right curve.increasing
  constructor
  · rintro ⟨next, hnext⟩
    obtain ⟨hstart, hsegments⟩ := withSegment_eq_ok_iff.mp hnext
    have hlength := next.length_le
    have hincreasing := next.increasing
    rw [hsegments, List.length_append, List.length_singleton] at hlength
    rw [hstart, hsegments] at hincreasing
    exact ⟨hlength, horder.mp hincreasing⟩
  · rintro ⟨hlength, habove⟩
    have hroom : (curve.segments ++ [s]).length ≤ maxCurvePoints := by
      rw [List.length_append, List.length_singleton]
      exact hlength
    exact (exists_ofSegments_iff curve.start_mem (by simp) hroom).mpr (horder.mpr habove)

/-- One more segment adds the slice from the old end up to its bound. -/
theorem withSegment_slices (h : curve.withSegment s = .ok next) :
    next.slices = curve.slices ++ [⟨curve.segments.length, curve.sqrtEndPrice, s.sqrtPrice, s.liquidity⟩] := by
  obtain ⟨hstart, hsegments⟩ := withSegment_eq_ok_iff.mp h
  rw [slices, hstart, hsegments, slicesFrom_concat, curve.getLastD_sqrtPrice, Nat.zero_add]
  rfl

private theorem withSegment_covers_iff (h : curve.withSegment s = .ok next) :
    next.Covers curve.segments.length p ↔ curve.sqrtEndPrice < p ∧ p ≤ s.sqrtPrice := by
  have hlength : curve.slices.length = curve.segments.length := length_slicesFrom _ _ _
  rw [covers_iff, withSegment_slices h, ← hlength, List.getElem?_concat_length]
  simp

/-- The points that make a curve are those in range, in order and few enough; the intervals of a curve tile the range
from its start price to its end price; and a segment can be added exactly if there is room for it and its bound lies
above the end, which keeps what is there and adds one interval. -/
theorem ofPoints_tiles :
    (∀ start points, (∃ curve, ofPoints start points = .ok curve) ↔
      IsSqrtPrice start ∧ (∀ x ∈ points, IsSqrtPrice x.1 ∧ IsU128 x.2) ∧
      1 ≤ points.length ∧ points.length ≤ maxCurvePoints ∧ (start :: points.map Prod.fst).IsChain (· < ·)) ∧
    (∀ start points curve, ofPoints start points = .ok curve →
      curve.sqrtStartPrice = start ∧ curve.points = points ∧
      (∀ p, curve.sqrtStartPrice < p → p ≤ curve.sqrtEndPrice → ∃! i, curve.Covers i p) ∧
      ∀ s, ((∃ next, curve.withSegment s = .ok next) ↔
          curve.segments.length < maxCurvePoints ∧ curve.sqrtEndPrice < s.sqrtPrice) ∧
        ∀ next, curve.withSegment s = .ok next →
          next.sqrtStartPrice = curve.sqrtStartPrice ∧ next.segments = curve.segments ++ [s] ∧
          next.lowerBounds = curve.lowerBounds ++ [curve.sqrtEndPrice] ∧
          ∀ p, next.Covers curve.segments.length p ↔ curve.sqrtEndPrice < p ∧ p ≤ s.sqrtPrice) := by
  refine ⟨fun _ _ => exists_ofPoints_iff, ?_⟩
  intro start points curve hcurve
  obtain ⟨hstart, hpoints⟩ := ofPoints_eq_ok_iff.mp hcurve
  refine ⟨hstart, hpoints, ?_, ?_⟩
  · intro p hlow hhigh
    simp only [covers_iff]
    exact curve.slices_ascending.existsUnique_slice hlow hhigh
  · intro s
    refine ⟨exists_withSegment_iff, ?_⟩
    intro next hnext
    obtain ⟨hsame, hsegments⟩ := withSegment_eq_ok_iff.mp hnext
    refine ⟨hsame, hsegments, ?_, fun p => withSegment_covers_iff hnext⟩
    rw [lowerBounds, withSegment_slices hnext, List.map_append]
    rfl

/-- A curve with an idle segment at its end, a price just above a bound, and one more segment. -/
theorem ofPoints_tiles_extended :
    ∃ curve next, ofPoints (2 ^ 64) [(2 ^ 65, 2 ^ 80), (3 * 2 ^ 64, 0)] = .ok curve ∧
      (∃! i, curve.Covers i (2 ^ 65 + 1)) ∧
      curve.withSegment ⟨2 ^ 66, 2 ^ 81, by decide, by decide⟩ = .ok next ∧
      next.lowerBounds = curve.lowerBounds ++ [3 * 2 ^ 64] := by
  obtain ⟨haccepted, htiles⟩ := ofPoints_tiles
  obtain ⟨curve, hcurve⟩ := (haccepted (2 ^ 64) [(2 ^ 65, 2 ^ 80), (3 * 2 ^ 64, 0)]).mpr (by decide)
  obtain ⟨hstart, hpoints, hcovers, hextends⟩ := htiles _ _ curve hcurve
  have hbounds : curve.segments.map Segment.sqrtPrice = [2 ^ 65, 3 * 2 ^ 64] := by
    rw [← map_fst_points, show curve.segments.map Segment.point = _ from hpoints]
    rfl
  have hend : curve.sqrtEndPrice = 3 * 2 ^ 64 := by
    rw [← curve.getLastD_sqrtPrice 0, hbounds]
    rfl
  have hlength : curve.segments.length = 2 := by
    rw [← List.length_map (f := Segment.sqrtPrice), hbounds]
    rfl
  obtain ⟨hadded, hkeeps⟩ := hextends ⟨2 ^ 66, 2 ^ 81, by decide, by decide⟩
  obtain ⟨next, hnext⟩ := hadded.mpr (by rw [hlength, hend]; decide)
  obtain ⟨-, -, hlower, -⟩ := hkeeps next hnext
  rw [hend] at hlower
  exact ⟨curve, next, hcurve, hcovers _ (by rw [hstart]; decide) (by rw [hend]; decide), hnext, hlower⟩

end Curve

end BondingCurve
