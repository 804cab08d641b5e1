import BondingCurve.Design.Graph
import BondingCurve.Design.Linear

/-!
# Refused arguments

A design fails for one of three reasons: an argument or a number derived from one is out of its range, the curve cannot
take up the threshold, or the supply does not suffice.  Every step of a design but the walk to the threshold and the
comparisons with the supply fails for the first reason only (`CurveError.OfArgument`).

`FailsWith P x` says that `x` fails with errors in `P` only.  It goes through sequences and choices (`bind_iff`,
`ite_iff`), so that the lemma of a function follows from those of its parts.
-/

namespace BondingCurve

variable {α β : Type} {P Q : CurveError → Prop}

/-! ### Failures of a computation -/

/-- All failures of a computation have a property. -/
def FailsWith (P : CurveError → Prop) (x : Except CurveError α) : Prop := ∀ e, x = .error e → P e

namespace FailsWith

@[simp] theorem ok (a : α) : FailsWith P (.ok a) := by
  intro e h
  cases h

@[simp] theorem pure (a : α) : FailsWith P (pure a : Except CurveError α) :=
  ok a

@[simp] theorem error_iff {e : CurveError} : FailsWith P (.error e : Except CurveError α) ↔ P e := by
  constructor
  · intro h
    exact h e rfl
  · rintro h _ ⟨⟩
    exact h

@[simp] theorem throw_iff {e : CurveError} : FailsWith P (throw e : Except CurveError α) ↔ P e :=
  error_iff

@[simp] theorem bind_iff {x : Except CurveError α} {f : α → Except CurveError β} :
    FailsWith P (x >>= f) ↔ FailsWith P x ∧ ∀ a, x = .ok a → FailsWith P (f a) := by
  cases x <;> simp

@[simp] theorem map_iff {x : Except CurveError α} {f : α → β} : FailsWith P (f <$> x) ↔ FailsWith P x := by
  cases x <;> simp

@[simp] theorem ite_iff {p : Prop} [Decidable p] {x y : Except CurveError α} :
    FailsWith P (if p then x else y) ↔ (p → FailsWith P x) ∧ (¬p → FailsWith P y) := by
  by_cases h : p <;> simp [h]

theorem mono {x : Except CurveError α} (h : FailsWith P x) (hPQ : ∀ e, P e → Q e) : FailsWith Q x := by
  intro e he
  exact hPQ e (h e he)

theorem inl {x : Except CurveError α} (h : FailsWith P x) : FailsWith (fun e => P e ∨ Q e) x :=
  h.mono fun _ => .inl

end FailsWith

/-- A failure that names an argument, or a number derived from one. -/
def CurveError.OfArgument : CurveError → Prop
  | insufficientLiquidity .. => False
  | supplyMismatch .. => False
  | _ => True

open CurveError (OfArgument)

@[simp] theorem ofArgument_amount (cause : AmountError) : OfArgument (.amount cause) := trivial

@[simp] theorem ofArgument_tooWide (name : String) (value : Int) (bits : Nat) :
    OfArgument (.tooWide name value bits) := trivial

@[simp] theorem ofArgument_price (cause : PriceError) : OfArgument (.price cause) := trivial

@[simp] theorem ofArgument_migrationOption (shown : String) : OfArgument (.migrationOption shown) := trivial

@[simp] theorem ofArgument_fee (shown : String) : OfArgument (.fee shown) := trivial

@[simp] theorem ofArgument_textTooLong : OfArgument .textTooLong := trivial

@[simp] theorem ofArgument_arithmetic (signal : Signal) : OfArgument (.arithmetic signal) := trivial

/-- A failure other than a curve that cannot take up a threshold. -/
def CurveError.Served (e : CurveError) : Prop :=
  ∀ requested available remaining, e ≠ .insufficientLiquidity requested available remaining

@[simp] theorem served_supplyMismatch (reconstructed supply tolerance : Int) :
    CurveError.Served (.supplyMismatch reconstructed supply tolerance) := by
  rintro _ _ _ ⟨⟩

theorem CurveError.OfArgument.served {e : CurveError} (h : OfArgument e) : e.Served := by
  rintro _ _ _ rfl
  exact h

/-- What fails for an argument only does not fail for lack of liquidity. -/
@[simp] theorem FailsWith.served {x : Except CurveError α} (h : FailsWith OfArgument x) :
    FailsWith CurveError.Served x :=
  h.mono fun _ => CurveError.OfArgument.served

/-! ### Checks -/

section Checks

variable [Argument α] (name : String) (n : Int)

@[simp] theorem failsWith_liftSignal (x : Except Signal β) : FailsWith OfArgument (liftSignal x) := by
  cases x <;> simp

@[simp] theorem failsWith_liftM (x : Except Signal β) : FailsWith OfArgument (liftM x : Except CurveError β) :=
  failsWith_liftSignal x

@[simp] theorem failsWith_nonNegative (x : α) : FailsWith OfArgument (nonNegative name x) := by
  unfold nonNegative
  split <;> simp

@[simp] theorem failsWith_checkSqrtPrice (x : α) : FailsWith OfArgument (checkSqrtPrice name x) := by
  unfold checkSqrtPrice
  split <;> simp

@[simp] theorem failsWith_feeNumerator (x : α) : FailsWith OfArgument (feeNumerator x) := by
  unfold feeNumerator
  split <;> simp

@[simp] theorem failsWith_requireSqrtPrice : FailsWith OfArgument (requireSqrtPrice name n) := by
  unfold requireSqrtPrice
  by_cases h : IsSqrtPrice n
  · rw [dif_pos h]
    exact FailsWith.ok _
  · rw [dif_neg h]
    simp

@[simp] theorem failsWith_requireU64 : FailsWith OfArgument (requireU64 name n) := by
  unfold requireU64
  by_cases hn : n < 0
  · rw [dif_pos hn]
    simp
  rw [dif_neg hn]
  by_cases hm : u64Max < n
  · rw [dif_pos hm]
    simp
  · rw [dif_neg hm]
    exact FailsWith.ok _

@[simp] theorem failsWith_requireU128 : FailsWith OfArgument (requireU128 name n) := by
  unfold requireU128
  by_cases hn : n < 0
  · rw [dif_pos hn]
    simp
  rw [dif_neg hn]
  by_cases hm : u128Max < n
  · rw [dif_pos hm]
    simp
  · rw [dif_neg hm]
    exact FailsWith.ok _

@[simp] theorem failsWith_checkedU64 : FailsWith OfArgument (checkedU64 name n) := by
  simp [checkedU64]

@[simp] theorem failsWith_checkedU128 : FailsWith OfArgument (checkedU128 name n) := by
  simp [checkedU128]

end Checks

/-! ### Amounts and prices -/

section Amounts

variable (name : String) (x y : Scalar) (n : Numeral) (d e : Decimal) (i j : Int)

@[simp] theorem failsWith_spelling : FailsWith OfArgument x.spelling := by
  unfold Scalar.spelling
  split <;> simp

@[simp] theorem failsWith_ofScalar : FailsWith OfArgument (Numeral.ofScalar x) := by
  unfold Numeral.ofScalar
  split
  · simp
  · simp
  · simp only [FailsWith.bind_iff, failsWith_spelling, true_and]
    intro text _
    split <;> simp

@[simp] theorem failsWith_positiveNumeral : FailsWith OfArgument (positiveNumeral name n) := by
  unfold positiveNumeral
  split <;> simp

@[simp] theorem failsWith_positiveDecimal : FailsWith OfArgument (positiveDecimal name x) := by
  simp [positiveDecimal]

@[simp] theorem failsWith_decimalFloor : FailsWith OfArgument d.floor := by
  simp [Decimal.floor]

@[simp] theorem failsWith_floor : FailsWith OfArgument n.floor := by
  unfold Numeral.floor
  split <;> simp

@[simp] theorem failsWith_scaleToUnits : FailsWith OfArgument (scaleToUnits x i) := by
  simp [scaleToUnits]

@[simp] theorem failsWith_totalAmount (v : Vesting) : FailsWith OfArgument v.totalAmount := by
  simp [Vesting.totalAmount]

@[simp] theorem failsWith_decimalShift : FailsWith OfArgument (decimalShift i j) := by
  simp [decimalShift]

@[simp] theorem failsWith_encodePrice : FailsWith OfArgument (encodePrice d i j) := by
  simp [encodePrice]

@[simp] theorem failsWith_sqrtPriceOfNumeral : FailsWith OfArgument (sqrtPriceOfNumeral n i j).result := by
  simp [sqrtPriceOfNumeral]

@[simp] theorem failsWith_sqrtPriceOfMarketCap : FailsWith OfArgument (sqrtPriceOfMarketCap x y i j).result := by
  simp [sqrtPriceOfMarketCap]

@[simp] theorem failsWith_priceOfAmounts : FailsWith OfArgument (priceOfAmounts x y) := by
  simp [priceOfAmounts]

@[simp] theorem failsWith_migrationSupply : FailsWith OfArgument (migrationSupply d e) := by
  simp [migrationSupply]

end Amounts

/-! ### Ranges and reserves -/

section Ranges

variable (i j k l : Int)

@[simp] theorem failsWith_divide (rounding : Rounding) : FailsWith OfArgument (rounding.divide i j) := by
  unfold Rounding.divide
  cases rounding <;> simp

@[simp] theorem failsWith_requireRange : FailsWith OfArgument (requireRange i j) := by
  simp [requireRange]

@[simp] theorem failsWith_baseBetween (rounding : Rounding) : FailsWith OfArgument (baseBetween i j k rounding) := by
  simp [baseBetween]

@[simp] theorem failsWith_quoteBetween (rounding : Rounding) : FailsWith OfArgument (quoteBetween i j k rounding) := by
  simp [quoteBetween]

@[simp] theorem failsWith_liquidityFromBase : FailsWith OfArgument (liquidityFromBase i j k) := by
  simp [liquidityFromBase]

@[simp] theorem failsWith_liquidityFromQuote : FailsWith OfArgument (liquidityFromQuote i j k) := by
  simp [liquidityFromQuote]

@[simp] theorem failsWith_liquidityFromBoth : FailsWith OfArgument (liquidityFromBoth i j k l).result := by
  simp [liquidityFromBoth]

@[simp] theorem failsWith_migrationOption (x : Scalar) : FailsWith OfArgument (MigrationOption.ofScalar x) := by
  simp [MigrationOption.ofScalar]

@[simp] theorem failsWith_base (option : MigrationOption) : FailsWith OfArgument (option.base i j) := by
  cases option <;> simp [MigrationOption.base, constantProductBase, concentratedBase]

@[simp] theorem failsWith_migrationBase (option : MigrationOption) :
    FailsWith OfArgument (migrationBase i j option).result := by
  simp [migrationBase]

end Ranges

/-! ### Curves -/

section Curves

variable (i j k l : Int) (segments : List Segment)

@[simp] theorem failsWith_segment : FailsWith OfArgument (Segment.ofInts i j) := by
  rw [Segment.ofInts, FailsWith.bind_iff]
  refine ⟨by simp, ?_⟩
  rintro ⟨hp⟩ -
  dsimp only
  rw [FailsWith.bind_iff]
  refine ⟨by simp, ?_⟩
  rintro ⟨hl⟩ -
  exact FailsWith.pure _

@[simp] theorem failsWith_ofSegments : FailsWith OfArgument (Curve.ofSegments i segments) := by
  rw [Curve.ofSegments, FailsWith.bind_iff]
  refine ⟨by simp, ?_⟩
  rintro ⟨hs⟩ -
  dsimp only
  by_cases hn : segments = []
  · rw [dif_pos hn]
    simp
  rw [dif_neg hn]
  by_cases hl : maxCurvePoints < segments.length
  · rw [dif_pos hl]
    simp
  rw [dif_neg hl]
  split
  · simp
  · exact FailsWith.ok _

@[simp] theorem failsWith_resizeFromQuote : FailsWith OfArgument (resizeFromQuote i j k).result := by
  simp [resizeFromQuote, Traced.result_ite]

@[simp] theorem failsWith_sizeFrom : FailsWith OfArgument (sizeFrom i j k l).result := by
  simp [sizeFrom, Traced.result_ite]

@[simp] theorem failsWith_sizeFirst : FailsWith OfArgument (sizeFirst i j k l).result := by
  simp [sizeFirst, Traced.result_ite]

@[simp] theorem failsWith_firstCurve : FailsWith OfArgument (firstCurve i j k l).result := by
  simp [firstCurve]

end Curves

/-! ### Graph segments -/

section Graph

variable (ratio k : Decimal) (factor : Scalar) (liquidity : Numeral) (count index : Nat) (i j l : Int) (prices : List Int)

@[simp] theorem failsWith_scaledPrices : FailsWith OfArgument (scaledPrices ratio count i) := by
  induction count generalizing i with
  | zero => simp [scaledPrices]
  | succ count ih => simp [scaledPrices, ih]

@[simp] theorem failsWith_geometricPrices : FailsWith OfArgument (geometricPrices i j l).result := by
  simp [geometricPrices, Traced.result_ite]

@[simp] theorem failsWith_weightSum : FailsWith OfArgument (weightSum prices factor) := by
  simp [weightSum]

@[simp] theorem failsWith_segmentsFrom : FailsWith OfArgument (segmentsFrom liquidity k index prices) := by
  induction prices generalizing index with
  | nil => simp [segmentsFrom]
  | cons bound rest ih => simp [segmentsFrom, ih]

@[simp] theorem failsWith_graphSegments : FailsWith OfArgument (graphSegments prices liquidity factor) := by
  simp [graphSegments]

end Graph

end BondingCurve
