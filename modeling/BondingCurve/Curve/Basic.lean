import BondingCurve.Scalar
import BondingCurve.Width

/-!
# Curves

A curve is a start price and one to sixteen segments; a segment reaches from the previous bound up to its own and has
constant liquidity. A `Curve` is valid by its type: prices and liquidities are in range and the bounds increase.

* `Segment.ofInts` and `Curve.ofSegments` check what the types demand and name the first fault; `Curve.ofPoints`
  checks each segment in turn and then the curve.
* `Curve.slices` lists the segments with their lower bounds; the walks go along this list.
* `disorder_eq_none_iff`: the search for a bound out of order finds none exactly if the bounds increase.
-/

namespace BondingCurve

/-- Constant liquidity up to a price. Zero liquidity is allowed. -/
structure Segment where
  sqrtPrice : Int
  liquidity : Int
  price_mem : IsSqrtPrice sqrtPrice
  liquidity_mem : IsU128 liquidity
  deriving DecidableEq, Repr

/-- The segment with a bound and a liquidity. -/
def Segment.ofInts (sqrtPrice liquidity : Int) : Except CurveError Segment := do
  let ⟨hp⟩ ← requireSqrtPrice "segment.sqrt_price" sqrtPrice
  let ⟨hl⟩ ← requireU128 "segment.liquidity" liquidity
  pure ⟨sqrtPrice, liquidity, hp, hl⟩

theorem Segment.fields_of_ofInts {price liquidity : Int} {s : Segment} (h : Segment.ofInts price liquidity = .ok s) :
    s.sqrtPrice = price ∧ s.liquidity = liquidity := by
  simp only [ofInts, bind_eq_ok_iff] at h
  obtain ⟨⟨hp⟩, -, ⟨hl⟩, -, ⟨⟩⟩ := h
  exact ⟨rfl, rfl⟩

/-- Every bound lies above the one before it, the first above `previous`. -/
def Increasing : Int → List Segment → Prop
  | _, [] => True
  | previous, s :: rest => previous < s.sqrtPrice ∧ Increasing s.sqrtPrice rest

/-- The first bound that does not lie above the one before it. -/
def disorder (index : Nat) (previous : Int) : List Segment → Option PriceError
  | [] => none
  | s :: rest =>
    if s.sqrtPrice ≤ previous then some (.boundNotAbove index s.sqrtPrice previous)
    else disorder (index + 1) s.sqrtPrice rest

theorem disorder_eq_none_iff {segments : List Segment} {index : Nat} {previous : Int} :
    disorder index previous segments = none ↔ Increasing previous segments := by
  induction segments generalizing index previous with
  | nil => simp [disorder, Increasing]
  | cons s rest ih =>
    unfold disorder Increasing
    by_cases h : s.sqrtPrice ≤ previous
    · simp [h, Int.not_lt.mpr h]
    · simp [h, Int.not_le.mp h, ih]

/-- A start price with segments above it. -/
structure Curve where
  sqrtStartPrice : Int
  segments : List Segment
  start_mem : IsSqrtPrice sqrtStartPrice
  segments_ne_nil : segments ≠ []
  length_le : segments.length ≤ maxCurvePoints
  increasing : Increasing sqrtStartPrice segments
  deriving DecidableEq, Repr

/-- The part of a segment's data that a walk needs: its place, both bounds and the liquidity. -/
structure Slice where
  index : Nat
  lower : Int
  upper : Int
  liquidity : Int
  deriving DecidableEq, Repr

/-- The slices of segments that start at a price, counted from an index. -/
def slicesFrom (index : Nat) (lower : Int) : List Segment → List Slice
  | [] => []
  | s :: rest => ⟨index, lower, s.sqrtPrice, s.liquidity⟩ :: slicesFrom (index + 1) s.sqrtPrice rest

namespace Curve

/-- The curve with a start price and segments. -/
def ofSegments (start : Int) (segments : List Segment) : Except CurveError Curve := do
  let ⟨hs⟩ ← requireSqrtPrice "sqrt_start_price" start
  if hn : segments = [] then .error (.price .noSegments)
  else if hl : maxCurvePoints < segments.length then .error (.price (.tooManySegments segments.length))
  else
    match hd : disorder 0 start segments with
    | some fault => .error (.price fault)
    | none => .ok ⟨start, segments, hs, hn, Nat.le_of_not_lt hl, disorder_eq_none_iff.mp hd⟩

theorem fields_of_ofSegments {start : Int} {segments : List Segment} {curve : Curve}
    (h : ofSegments start segments = .ok curve) : curve.sqrtStartPrice = start ∧ curve.segments = segments := by
  simp only [ofSegments, bind_eq_ok_iff] at h
  obtain ⟨⟨hs⟩, -, h⟩ := h
  by_cases hn : segments = []
  · rw [dif_pos hn] at h
    cases h
  rw [dif_neg hn] at h
  by_cases hl : maxCurvePoints < segments.length
  · rw [dif_pos hl] at h
    cases h
  rw [dif_neg hl] at h
  split at h
  · cases h
  · cases h
    exact ⟨rfl, rfl⟩

/-- The segments of bounds and liquidities. -/
def segmentsOfPoints : List (Int × Int) → Except CurveError (List Segment)
  | [] => .ok []
  | (price, liquidity) :: rest => do
    let s ← Segment.ofInts price liquidity
    let segments ← segmentsOfPoints rest
    pure (s :: segments)

/-- The curve with a start price and the given bounds and liquidities. -/
def ofPoints (start : Int) (points : List (Int × Int)) : Except CurveError Curve := do
  ofSegments start (← segmentsOfPoints points)

/-- The curve with one more segment at its end. -/
def withSegment (curve : Curve) (segment : Segment) : Except CurveError Curve :=
  ofSegments curve.sqrtStartPrice (curve.segments ++ [segment])

/-- The last bound. -/
def sqrtEndPrice (curve : Curve) : Int :=
  (curve.segments.getLast curve.segments_ne_nil).sqrtPrice

/-- Whether the curve reaches up to the greatest price. -/
def isOpenEnded (curve : Curve) : Bool :=
  curve.sqrtEndPrice = maxSqrtPrice

/-- The slices from the start price upwards. -/
def slices (curve : Curve) : List Slice :=
  slicesFrom 0 curve.sqrtStartPrice curve.segments

/-- The lower bounds of the segments. -/
def lowerBounds (curve : Curve) : List Int :=
  curve.slices.map Slice.lower

end Curve
end BondingCurve
