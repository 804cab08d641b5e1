import BondingCurve.Curve.Walk

/-!
# Trades along a curve

Trades without fees, from any price on the curve.

* `Curve.buy` gives quote for base: the walk goes up, each slice takes up its quote rounded up and pays out its base
  rounded down, and an amount that ends inside a slice moves the price up by a step rounded down.
* `Curve.sell` gives base for quote: the walk goes down, each slice takes up its base rounded up and pays out its
  quote rounded down, and an amount that ends inside a slice moves the price down to a price rounded up.
-/

namespace BondingCurve

/-- Where a trade stands: the price, what is left of the input, and the output so far. -/
structure Progress where
  price : Int
  left : Int
  output : Int
  deriving DecidableEq, Repr

/-- What a trade pays out and the price it ends at. -/
structure Fill where
  output : Int
  price : Int
  deriving DecidableEq, Repr

/-- A purchase along slices in increasing order. -/
def buyAlong : List Slice → Progress → Traced Progress
  | [], p => pure p
  | s :: rest, p =>
    if p.left = 0 then pure p
    else if s.upper ≤ p.price then buyAlong rest p
    else do
      let capacity ← quoteBetween p.price s.upper s.liquidity .up
      if p.left < capacity then
        let next ← priceAfterQuote p.price s.liquidity p.left
        let out ← baseBetween p.price next s.liquidity .down
        pure ⟨next, 0, p.output + out⟩
      else
        let out ← baseBetween p.price s.upper s.liquidity .down
        Traced.emit (.bought s.index (p.left - capacity) (p.output + out))
        buyAlong rest ⟨s.upper, p.left - capacity, p.output + out⟩

/-- A sale along slices in decreasing order. -/
def sellAlong : List Slice → Progress → Traced Progress
  | [], p => pure p
  | s :: rest, p =>
    if p.left = 0 then pure p
    else if p.price ≤ s.lower then sellAlong rest p
    else do
      let capacity ← baseBetween s.lower p.price s.liquidity .up
      if p.left < capacity then
        let next ← priceAfterBase p.price s.liquidity p.left
        let out ← quoteBetween next p.price s.liquidity .down
        pure ⟨next, 0, p.output + out⟩
      else
        let out ← quoteBetween s.lower p.price s.liquidity .down
        Traced.emit (.sold s.index (p.left - capacity) (p.output + out))
        sellAlong rest ⟨s.lower, p.left - capacity, p.output + out⟩

/-- The fill of a trade that used up its input. -/
def Progress.finish (requested : Int) (p : Progress) : Except CurveError Fill :=
  if p.left = 0 then do
    let output ← checkedU64 "output_amount" p.output
    pure ⟨output, p.price⟩
  else .error (.insufficientLiquidity requested (requested - p.left) p.left)

theorem Progress.finish_eq_ok_iff {requested : Int} {p : Progress} {fill : Fill} :
    p.finish requested = .ok fill ↔ p.left = 0 ∧ IsU64 p.output ∧ fill = ⟨p.output, p.price⟩ := by
  unfold Progress.finish
  split
  · simp only [bind_eq_ok_iff, checkedU64_eq_ok_iff, pure, Except.pure, Except.ok.injEq, true_and, *]
    constructor
    · rintro ⟨_, ⟨hfits, rfl⟩, rfl⟩
      exact ⟨hfits, rfl⟩
    · rintro ⟨hfits, rfl⟩
      exact ⟨_, ⟨hfits, rfl⟩, rfl⟩
  · simp [*]

/-- A trade that used up its input is paid, unless the ledger cannot hold what it pays. -/
theorem Progress.finish_of_left_eq_zero {requested : Int} {p : Progress} (hleft : p.left = 0) (hout : 0 ≤ p.output) :
    p.finish requested = .ok ⟨p.output, p.price⟩ ∨
      u64Max < p.output ∧ p.finish requested = .error (.tooWide "output_amount" p.output 64) := by
  by_cases hwide : u64Max < p.output
  · exact .inr ⟨hwide, by simp [finish, hleft, checkedU64_of_lt hwide]⟩
  · exact .inl (finish_eq_ok_iff.mpr ⟨hleft, ⟨hout, Int.not_lt.mp hwide⟩, rfl⟩)

/-- A trade runs out of liquidity exactly if a part of its input is left. -/
theorem Progress.finish_eq_insufficientLiquidity_iff {requested r available remaining : Int} {p : Progress} :
    p.finish requested = .error (.insufficientLiquidity r available remaining) ↔
      p.left ≠ 0 ∧ r = requested ∧ available = requested - p.left ∧ remaining = p.left := by
  unfold Progress.finish
  by_cases hleft : p.left = 0
  · rw [if_pos hleft]
    by_cases hneg : p.output < 0
    · simp [checkedU64_of_neg hneg, hleft]
    by_cases hwide : u64Max < p.output
    · simp [checkedU64_of_lt hwide, hleft]
    · have hfits : IsU64 p.output := ⟨Int.not_lt.mp hneg, Int.not_lt.mp hwide⟩
      simp [checkedU64_eq_ok_iff.mpr ⟨hfits, rfl⟩, hleft]
  · simp [hleft, eq_comm]

namespace Curve

/-- Checks that a price lies on the curve. -/
def requireOnCurve (curve : Curve) (price : Int) : Except CurveError Unit :=
  if price < curve.sqrtStartPrice ∨ curve.sqrtEndPrice < price then
    .error (.price (.offCurve price curve.sqrtStartPrice curve.sqrtEndPrice))
  else .ok ()

theorem requireOnCurve_eq_ok_iff {curve : Curve} {price : Int} :
    curve.requireOnCurve price = .ok () ↔ curve.sqrtStartPrice ≤ price ∧ price ≤ curve.sqrtEndPrice := by
  unfold requireOnCurve
  split <;> simp <;> omega

variable {α : Type} [Argument α]

/-- A purchase of base with an amount of quote. -/
def buy (curve : Curve) (price : Int) (amount : α) : Traced Fill := do
  let requested ← nonNegative "amount_in" amount
  curve.requireOnCurve price
  let p ← buyAlong curve.slices ⟨price, requested, 0⟩
  p.finish requested

/-- A sale of an amount of base for quote. -/
def sell (curve : Curve) (price : Int) (amount : α) : Traced Fill := do
  let requested ← nonNegative "amount_in" amount
  curve.requireOnCurve price
  let p ← sellAlong curve.slices.reverse ⟨price, requested, 0⟩
  p.finish requested

end Curve
end BondingCurve
