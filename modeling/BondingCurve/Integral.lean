import BondingCurve.Rounding
import BondingCurve.Scalar
import BondingCurve.Traced
import BondingCurve.Width

/-!
# Amounts over a price range

Over sqrt prices from `l` to `u` a constant liquidity `L` holds `L * (u - l) / (l * u)` of base and
`L * (u - l) / 2 ^ 128` of quote. This module has the two amounts, rounded in either direction, and their inverses:
the price after an input, rounded so that the price never passes the exact one, and the liquidity that an amount
backs, rounded down. What holds of them for arguments in their domain:

* `baseBetween_up`, `baseBetween_down`, `quoteBetween_up`, `quoteBetween_down`: the amounts as quotients;
* `priceAfterBase_eq`, `priceAfterQuote_eq`: the next prices as quotients;
* `liquidityFromBase_eq`, `liquidityFromQuote_eq`: the liquidities as quotients.
-/

namespace BondingCurve

variable {α : Type} [Argument α]

/-- The two ends of a price range: a positive lower end and an upper end not below it. -/
def requireRange (lower upper : α) : Except CurveError (Int × Int) := do
  let l ← nonNegative "lower" lower
  let u ← nonNegative "upper" upper
  if l = 0 then .error (.amount .zeroLowerPrice)
  else if u < l then .error (.amount (.reversedRange l u))
  else .ok (l, u)

/-! ### Amounts of a range -/

/-- The base between two prices. -/
def baseBetween (lower upper liquidity : α) (rounding : Rounding) : Except CurveError Int := do
  let (l, u) ← requireRange lower upper
  let liquidity ← nonNegative "liquidity" liquidity
  rounding.divide (liquidity * (u - l)) (l * u)

/-- The quote between two prices. -/
def quoteBetween (lower upper liquidity : α) (rounding : Rounding) : Except CurveError Int := do
  let (l, u) ← requireRange lower upper
  let liquidity ← nonNegative "liquidity" liquidity
  rounding.divide (liquidity * (u - l)) quoteScale

/-! ### Price after an input -/

/-- The price that an input of base moves down to, rounded up. -/
def priceAfterBase (price liquidity amount : α) : Except CurveError Int := do
  let price ← nonNegative "sqrt_price" price
  let liquidity ← nonNegative "liquidity" liquidity
  let amount ← nonNegative "amount_in" amount
  if amount = 0 then pure price
  else if liquidity = 0 then .error (.amount .noLiquidityForBase)
  else
    let next ← Rounding.up.divide (price * liquidity) (liquidity + amount * price)
    checkedU128 "next_sqrt_price" next

/-- The price that an input of quote moves up to, rounded down. -/
def priceAfterQuote (price liquidity amount : α) : Except CurveError Int := do
  let price ← nonNegative "sqrt_price" price
  let liquidity ← nonNegative "liquidity" liquidity
  let amount ← nonNegative "amount_in" amount
  if amount = 0 then pure price
  else if liquidity = 0 then .error (.amount .noLiquidityForQuote)
  else
    let step ← Rounding.down.divide (amount * quoteScale) liquidity
    checkedU128 "next_sqrt_price" (price + step)

/-- The price after an input: base in moves it down, quote in moves it up. -/
def priceAfterInput (price liquidity amount : α) (baseForQuote : Bool) : Except CurveError Int :=
  if baseForQuote then priceAfterBase price liquidity amount else priceAfterQuote price liquidity amount

/-! ### Liquidity of an amount -/

/-- The liquidity that an amount of base backs over a range. -/
def liquidityFromBase (base lower upper : α) : Except CurveError Int := do
  let (l, u) ← requireRange lower upper
  let base ← nonNegative "base_amount" base
  if l = u then .error (.amount .emptyRange)
  else .ok (base * l * u / (u - l))

/-- The liquidity that an amount of quote backs over a range. -/
def liquidityFromQuote (quote lower upper : α) : Except CurveError Int := do
  let (l, u) ← requireRange lower upper
  let quote ← nonNegative "quote_amount" quote
  if l = u then .error (.amount .emptyRange)
  else .ok (quote * quoteScale / (u - l))

/-- The greatest liquidity that both amounts back over a range. -/
def liquidityFromBoth (base quote lower upper : α) : Traced Int := do
  let fromBase ← liquidityFromBase base lower upper
  let fromQuote ← liquidityFromQuote quote lower upper
  Traced.emit (.backed fromBase fromQuote)
  pure (min fromBase fromQuote)

/-! ### Closed forms -/

section ClosedForms

variable {l u L : Int}

/-- A range in order is accepted as it is. -/
theorem requireRange_eq (hl : 0 < l) (hu : l ≤ u) : requireRange l u = .ok (l, u) := by
  have hl' : 0 ≤ l := Int.le_of_lt hl
  have hu' : 0 ≤ u := Int.le_trans hl' hu
  simp [requireRange, nonNegative_of_nonneg hl', nonNegative_of_nonneg hu', Int.ne_of_gt hl, Int.not_lt.mpr hu]

theorem baseBetween_eq (hl : 0 < l) (hu : l ≤ u) (hL : 0 ≤ L) (rounding : Rounding) :
    baseBetween l u L rounding = rounding.divide (L * (u - l)) (l * u) := by
  simp [baseBetween, requireRange_eq hl hu, nonNegative_of_nonneg hL]

theorem quoteBetween_eq (hl : 0 < l) (hu : l ≤ u) (hL : 0 ≤ L) (rounding : Rounding) :
    quoteBetween l u L rounding = rounding.divide (L * (u - l)) quoteScale := by
  simp [quoteBetween, requireRange_eq hl hu, nonNegative_of_nonneg hL]

private theorem spread_nonneg (hu : l ≤ u) (hL : 0 ≤ L) : 0 ≤ L * (u - l) :=
  Int.mul_nonneg hL (Int.sub_nonneg_of_le hu)

private theorem ends_pos (hl : 0 < l) (hu : l ≤ u) : 0 < l * u :=
  Int.mul_pos hl (Int.lt_of_lt_of_le hl hu)

/-- The base that a trader pays for a range. -/
theorem baseBetween_up (hl : 0 < l) (hu : l ≤ u) (hL : 0 ≤ L) :
    baseBetween l u L .up = .ok (ceilDiv (L * (u - l)) (l * u)) := by
  rw [baseBetween_eq hl hu hL, Rounding.divide_up (spread_nonneg hu hL) (ends_pos hl hu)]

/-- The base that a trader receives for a range. -/
theorem baseBetween_down (hl : 0 < l) (hu : l ≤ u) (hL : 0 ≤ L) :
    baseBetween l u L .down = .ok (L * (u - l) / (l * u)) := by
  rw [baseBetween_eq hl hu hL, Rounding.divide_down (spread_nonneg hu hL) (ends_pos hl hu)]

/-- The quote that a trader pays for a range. -/
theorem quoteBetween_up (hl : 0 < l) (hu : l ≤ u) (hL : 0 ≤ L) :
    quoteBetween l u L .up = .ok (ceilDiv (L * (u - l)) quoteScale) := by
  rw [quoteBetween_eq hl hu hL, Rounding.divide_up (spread_nonneg hu hL) (by decide)]

/-- The quote that a trader receives for a range. -/
theorem quoteBetween_down (hl : 0 < l) (hu : l ≤ u) (hL : 0 ≤ L) :
    quoteBetween l u L .down = .ok (L * (u - l) / quoteScale) := by
  rw [quoteBetween_eq hl hu hL, Rounding.divide_down (spread_nonneg hu hL) (by decide)]

variable {p a : Int}

/-- An input of base divides the price; the result has to fit. -/
theorem priceAfterBase_eq (hp : 0 ≤ p) (hL : 0 < L) (ha : 0 < a) :
    priceAfterBase p L a = checkedU128 "next_sqrt_price" (ceilDiv (p * L) (L + a * p)) := by
  have hL' : 0 ≤ L := Int.le_of_lt hL
  have ha' : 0 ≤ a := Int.le_of_lt ha
  have hd : 0 < L + a * p := Int.add_pos_of_pos_of_nonneg hL (Int.mul_nonneg ha' hp)
  simp [priceAfterBase, nonNegative_of_nonneg hp, nonNegative_of_nonneg hL', nonNegative_of_nonneg ha',
    Int.ne_of_gt ha, Int.ne_of_gt hL, Rounding.divide_up (Int.mul_nonneg hp hL') hd]

/-- An input of quote adds to the price; the result has to fit. -/
theorem priceAfterQuote_eq (hp : 0 ≤ p) (hL : 0 < L) (ha : 0 < a) :
    priceAfterQuote p L a = checkedU128 "next_sqrt_price" (p + a * quoteScale / L) := by
  have hL' : 0 ≤ L := Int.le_of_lt hL
  have ha' : 0 ≤ a := Int.le_of_lt ha
  have hs : 0 ≤ a * quoteScale := Int.mul_nonneg ha' (by decide)
  simp [priceAfterQuote, nonNegative_of_nonneg hp, nonNegative_of_nonneg hL', nonNegative_of_nonneg ha',
    Int.ne_of_gt ha, Int.ne_of_gt hL, Rounding.divide_down hs hL]

variable {x : Int}

/-- The liquidity that an amount of base backs, as a quotient. -/
theorem liquidityFromBase_eq (hl : 0 < l) (hu : l < u) (hx : 0 ≤ x) :
    liquidityFromBase x l u = .ok (x * l * u / (u - l)) := by
  simp [liquidityFromBase, requireRange_eq hl (Int.le_of_lt hu), nonNegative_of_nonneg hx, Int.ne_of_lt hu]

/-- The liquidity that an amount of quote backs, as a quotient. -/
theorem liquidityFromQuote_eq (hl : 0 < l) (hu : l < u) (hx : 0 ≤ x) :
    liquidityFromQuote x l u = .ok (x * quoteScale / (u - l)) := by
  simp [liquidityFromQuote, requireRange_eq hl (Int.le_of_lt hu), nonNegative_of_nonneg hx, Int.ne_of_lt hu]

end ClosedForms
end BondingCurve
