import BondingCurve.Proofs.GraphSupply
import BondingCurve.Proofs.LinearDesign
import BondingCurve.Proofs.Spellings

/-!
# Designs do not depend on spellings

Two markets whose amounts denote the same numbers have one design, or none for reasons of one kind
(`design_sameOutcome`), whatever the kinds and spellings of the amounts.  Each step from the amounts to the first
integers looks at values only; from there on the two designs are one computation.

Two spellings are refused where others of the same number are not (`design_differs_by_spelling`): an integer too long
for a text, and a text that is to select an option.
-/

namespace BondingCurve

open Decimal (SameValue SameResult)

variable {x x' y y' : Decimal} {s s' : Scalar}

/-! ### Amounts -/

private theorem alike_positiveNumeral (name : String) {a b : Numeral} (h : a.SameNumber b) :
    Alike SameKind SameValue (positiveNumeral name a) (positiveNumeral name b) := by
  cases h with
  | refl a => exact .refl SameKind.refl SameValue.refl _
  | finite h =>
    unfold positiveNumeral
    exact .ite (by rw [h.isPositive_eq]) (.ok h) (.error rfl)

private theorem alike_positiveDecimal (name : String) (h : s.SameNumber s') :
    Alike SameKind SameValue (positiveDecimal name s) (positiveDecimal name s') :=
  h.ofScalar.bind fun _ _ hab => alike_positiveNumeral name hab

private theorem alike_mul_finite (hx : x.SameValue x') (hy : y.SameValue y') :
    Alike Eq Numeral.SameNumber ((Numeral.finite x).mul y) ((Numeral.finite x').mul y') :=
  (hx.mul hy).map fun _ _ h => .finite h

private theorem sameOutcome_floor {a b : Numeral} (h : a.SameNumber b) : SameOutcome a.floor b.floor := by
  cases h with
  | refl a => exact SameOutcome.refl _
  | finite h => exact h.floor

/-- The smallest units in an amount of whole tokens. -/
private theorem sameOutcome_scaleToUnits (decimals : Int)
    (h : Alike SameKind Numeral.SameNumber (Numeral.ofScalar s) (Numeral.ofScalar s')) :
    SameOutcome (scaleToUnits s decimals) (scaleToUnits s' decimals) := by
  unfold scaleToUnits
  dsimp only
  refine .ite Iff.rfl (.error rfl) (h.bind fun a b hab => ?_)
  refine .bind_self SameKind.refl fun unit => ?_
  cases hab with
  | refl a => exact SameOutcome.refl _
  | finite h => exact (alike_mul_finite h (.refl unit)).liftSignal.bind fun _ _ hscaled => sameOutcome_floor hscaled

/-! ### Prices -/

private theorem sameOutcome_encodePrice (h : x.SameValue x') (baseDecimals quoteDecimals : Int) :
    SameOutcome (encodePrice x baseDecimals quoteDecimals) (encodePrice x' baseDecimals quoteDecimals) := by
  unfold encodePrice
  refine .bind_self SameKind.refl fun shift => ?_
  refine (h.div (.refl shift)).liftSignal.bind fun adjusted adjusted' hadjusted => ?_
  refine hadjusted.sqrt.liftSignal.bind fun root root' hroot => ?_
  exact (hroot.mul (.refl oneQ64Decimal)).liftSignal.bind fun _ _ hscaled => hscaled.floor

private theorem sameOutcome_sqrtPriceOfNumeral (h : x.SameValue x') (baseDecimals quoteDecimals : Int) :
    SameOutcome (sqrtPriceOfNumeral (.finite x) baseDecimals quoteDecimals).result
      (sqrtPriceOfNumeral (.finite x') baseDecimals quoteDecimals).result := by
  simp only [sqrtPriceOfNumeral, Traced.result_bind, Traced.result_liftM, Traced.result_emit, Traced.result_pure,
    ok_bind]
  refine (alike_positiveNumeral "price" (.finite h)).bind fun price price' hprice => ?_
  exact (sameOutcome_encodePrice hprice baseDecimals quoteDecimals).bind_eq fun _ => SameOutcome.refl _

private theorem alike_priceOfAmounts (hx : x.SameValue x') (hy : y.SameValue y') :
    Alike SameKind SameValue (priceOfAmounts (.decimal (.finite x)) (.decimal (.finite y)))
      (priceOfAmounts (.decimal (.finite x')) (.decimal (.finite y'))) := by
  unfold priceOfAmounts
  refine (alike_positiveNumeral "quote_amount" (.finite hx)).bind fun quote quote' hquote => ?_
  refine (alike_positiveNumeral "base_amount" (.finite hy)).bind fun base base' hbase => ?_
  exact (hquote.div hbase).liftSignal

private theorem sameOutcome_sqrtPriceOfMarketCap (hcap : s.SameNumber s') (hx : x.SameValue x')
    (baseDecimals quoteDecimals : Int) :
    SameOutcome (sqrtPriceOfMarketCap s (.decimal (.finite x)) baseDecimals quoteDecimals).result
      (sqrtPriceOfMarketCap s' (.decimal (.finite x')) baseDecimals quoteDecimals).result := by
  simp only [sqrtPriceOfMarketCap, Traced.result_bind, Traced.result_liftM, Traced.result_liftM_signal]
  refine (alike_positiveDecimal "market_cap" hcap).bind fun cap cap' hcap => ?_
  refine (alike_positiveNumeral "total_supply" (.finite hx)).bind fun supply supply' hsupply => ?_
  exact (hcap.div hsupply).liftSignal.bind fun price price' hprice =>
    sameOutcome_sqrtPriceOfNumeral hprice baseDecimals quoteDecimals

/-! ### Linear designs -/

private theorem sameOutcome_migrationSupply (hx : x.SameValue x') (hy : y.SameValue y') :
    SameOutcome (migrationSupply x y) (migrationSupply x' y') := by
  unfold migrationSupply
  refine (hx.mul hy).liftSignal.bind fun product product' hproduct => ?_
  refine (hproduct.div (.refl (.ofInt 100))).liftSignal.bind fun share share' hshare => ?_
  exact hshare.floor.bind_eq fun _ => SameOutcome.refl _

private theorem LinearMarket.sameOutcome_amounts (m : LinearMarket) (option : MigrationOption)
    {supply supply' percentage percentage' threshold threshold' : Decimal} (hsupply : supply.SameValue supply')
    (hpercentage : percentage.SameValue percentage') (hthreshold : threshold.SameValue threshold') :
    SameOutcome (m.amounts option supply percentage threshold).result
      (m.amounts option supply' percentage' threshold').result := by
  simp only [amounts, Traced.result_bind, Traced.result_liftM]
  refine (sameOutcome_migrationSupply hsupply hpercentage).bind_eq fun base => ?_
  refine (sameOutcome_scaleToUnits m.baseDecimals (.ok (.finite hsupply))).bind_eq fun units => ?_
  refine .bind_self SameKind.refl fun totalSupply => ?_
  refine (sameOutcome_scaleToUnits m.quoteDecimals (.ok (.finite hthreshold))).bind_eq fun units => ?_
  refine .bind_self SameKind.refl fun quoteThreshold => ?_
  refine (alike_priceOfAmounts hthreshold (.refl base)).bind fun price price' hprice => ?_
  exact (sameOutcome_sqrtPriceOfNumeral hprice m.baseDecimals m.quoteDecimals).bind_eq fun _ => SameOutcome.refl _

/-- Two linear markets that differ in the spelling of their numbers only. -/
structure LinearMarket.Respelled (m m' : LinearMarket) : Prop where
  supply : m.supply.SameNumber m'.supply
  migrationPercentage : m.migrationPercentage.SameNumber m'.migrationPercentage
  threshold : m.threshold.SameNumber m'.threshold
  option : m.option.SameOption m'.option
  /-- All other parts are equal. -/
  rest : { m' with
    supply := m.supply
    migrationPercentage := m.migrationPercentage
    threshold := m.threshold
    option := m.option } = m

private theorem LinearMarket.sameOutcome_design {m m' : LinearMarket} (h : m.Respelled m') :
    SameOutcome m.design.result m'.design.result := by
  have hamounts : m'.amounts = m.amounts := by
    rw [← h.rest]
    rfl
  have hbuild : m'.build = m.build := by
    rw [← h.rest]
    rfl
  have hfee : m'.feeNumerator = m.feeNumerator := by rw [← h.rest]
  simp only [design, Traced.result_bind, Traced.result_liftM, Traced.result_ite, hamounts, hbuild, hfee]
  refine (h.option.sameOutcome).bind_eq fun option => ?_
  refine .bind_self SameKind.refl fun _ => ?_
  refine (alike_positiveDecimal _ h.supply).bind fun supply supply' hsupply => ?_
  refine (alike_positiveDecimal _ h.migrationPercentage).bind fun percentage percentage' hpercentage => ?_
  refine (alike_positiveDecimal _ h.threshold).bind fun threshold threshold' hthreshold => ?_
  refine .ite (by rw [hpercentage.lt_eq (.refl _)]) ?_ (.error rfl)
  exact (m.sameOutcome_amounts option hsupply hpercentage hthreshold).bind_eq fun _ => SameOutcome.refl _

/-! ### Graph designs -/

section Weights

variable {k k' total total' : Decimal} (hk : k.SameValue k')
include hk

private theorem alike_rangeWeight (lastSquared : Decimal) (index : Nat) (low high : Int) :
    SameResult (rangeWeight k lastSquared index low high) (rangeWeight k' lastSquared index low high) := by
  unfold rangeWeight
  refine .bind_self (fun _ => rfl) fun width => ?_
  refine .bind_self (fun _ => rfl) fun product => ?_
  refine .bind_self (fun _ => rfl) fun released => ?_
  refine .bind_self (fun _ => rfl) fun worth => ?_
  refine (hk.power index).bind fun factor factor' hfactor => ?_
  exact .bind_self (fun _ => rfl) fun sum => hfactor.mul (.refl sum)

private theorem alike_addWeights (lastSquared : Decimal) (index : Nat) (prices : List Int)
    (htotal : total.SameValue total') :
    SameResult (addWeights k lastSquared index prices total) (addWeights k' lastSquared index prices total') := by
  induction prices generalizing index total total' with
  | nil => exact .ok htotal
  | cons low prices ih =>
    cases prices with
    | nil => exact .ok htotal
    | cons high rest =>
      simp only [addWeights]
      refine (alike_rangeWeight hk lastSquared index low high).bind fun weight weight' hweight => ?_
      exact (htotal.add hweight).bind fun sum sum' hsum => ih (index + 1) hsum

/-- The liquidities are scaled by powers of the factor and rounded down. -/
private theorem sameOutcome_segmentsFrom (hx : x.SameValue x') (index : Nat) (bounds : List Int) :
    SameOutcome (segmentsFrom (.finite x) k index bounds) (segmentsFrom (.finite x') k' index bounds) := by
  induction bounds generalizing index with
  | nil => exact SameOutcome.refl _
  | cons bound rest ih =>
    unfold segmentsFrom
    refine (hk.power index).liftSignal.bind fun factor factor' hfactor => ?_
    refine (alike_mul_finite hx hfactor).liftSignal.bind fun scaled scaled' hscaled => ?_
    refine (sameOutcome_floor hscaled).bind_eq fun liquidity => ?_
    refine .bind_self SameKind.refl fun checked => ?_
    refine .bind_self SameKind.refl fun segment => ?_
    exact (ih (index + 1)).bind_eq fun _ => SameOutcome.refl _

end Weights

private theorem alike_weightSum (prices : List Int) (h : s.SameNumber s') :
    Alike SameKind SameValue (weightSum prices s) (weightSum prices s') := by
  unfold weightSum
  refine .ite Iff.rfl (.error rfl) ((alike_positiveDecimal "k_factor" h).bind fun k k' hk => ?_)
  exact .bind_self SameKind.refl fun lastSquared =>
    (alike_addWeights hk lastSquared 0 prices (.refl (.ofInt 0))).liftSignal

private theorem sameOutcome_graphSegments (prices : List Int) (hx : x.SameValue x') (h : s.SameNumber s') :
    SameOutcome (graphSegments prices (.finite x) s) (graphSegments prices (.finite x') s') :=
  (alike_positiveDecimal "k_factor" h).bind fun _ _ hk => sameOutcome_segmentsFrom hk hx 0 prices.tail

namespace GraphMarket

/-- Two graph markets that differ in the spelling of their numbers only. -/
structure Respelled (m m' : GraphMarket) : Prop where
  supply : m.supply.SameNumber m'.supply
  initialMarketCap : m.initialMarketCap.SameNumber m'.initialMarketCap
  migrationMarketCap : m.migrationMarketCap.SameNumber m'.migrationMarketCap
  option : m.option.SameOption m'.option
  leftover : m.leftover.SameNumber m'.leftover
  factor : m.factor.SameNumber m'.factor
  /-- All other parts are equal. -/
  rest : { m' with
    supply := m.supply
    initialMarketCap := m.initialMarketCap
    migrationMarketCap := m.migrationMarketCap
    option := m.option
    leftover := m.leftover
    factor := m.factor } = m

variable {m m' : GraphMarket}

private theorem sameOutcome_priceAt (m : GraphMarket) (name : String) (hcap : s.SameNumber s') (hx : x.SameValue x') :
    SameOutcome (m.priceAt name s x).result (m.priceAt name s' x').result := by
  simp only [priceAt, Traced.result_bind, Traced.result_liftM]
  exact (sameOutcome_sqrtPriceOfMarketCap hcap hx m.baseDecimals m.quoteDecimals).bind_eq fun _ => SameOutcome.refl _

namespace Respelled

variable (h : m.Respelled m')
include h

private theorem baseDecimals_eq : m'.baseDecimals = m.baseDecimals := by rw [← h.rest]

private theorem vesting_eq : m'.vesting = m.vesting := by rw [← h.rest]

private theorem sameOutcome_amounts (hx : x.SameValue x') :
    SameOutcome (m.amounts x).result (m'.amounts x').result := by
  have hprice : m'.priceAt = m.priceAt := by
    rw [← h.rest]
    rfl
  simp only [amounts, Traced.result_bind, Traced.result_liftM, hprice, h.baseDecimals_eq, h.vesting_eq]
  refine (m.sameOutcome_priceAt _ h.initialMarketCap hx).bind_eq fun low => ?_
  refine (m.sameOutcome_priceAt _ h.migrationMarketCap hx).bind_eq fun high => ?_
  refine .bind_self SameKind.refl fun prices => ?_
  refine (sameOutcome_scaleToUnits m.baseDecimals (.ok (.finite hx))).bind_eq fun units => ?_
  refine .bind_self SameKind.refl fun totalSupply => ?_
  exact (sameOutcome_scaleToUnits m.baseDecimals h.leftover.ofScalar).bind_eq fun _ => SameOutcome.refl _

private theorem sameOutcome_curveOf (a : GraphAmounts) : SameOutcome (m.curveOf a).result (m'.curveOf a).result := by
  simp only [curveOf, Traced.result_bind, Traced.result_liftM, Traced.result_liftM_signal]
  refine (alike_weightSum a.prices h.factor).bind fun weight weight' hweight => ?_
  refine (Decimal.SameValue.div (.refl _) hweight).liftSignal.bind fun liquidity liquidity' hliquidity => ?_
  exact (sameOutcome_graphSegments a.prices hliquidity h.factor).bind_eq fun _ => SameOutcome.refl _

private theorem sameOutcome_design : SameOutcome m.design.result m'.design.result := by
  have hthreshold : m'.thresholdOf = m.thresholdOf := by
    rw [← h.rest]
    rfl
  have hfee : m'.feeNumerator = m.feeNumerator := by rw [← h.rest]
  have hbuffer : m'.bufferPercentage = m.bufferPercentage := by rw [← h.rest]
  have hquote : m'.quoteDecimals = m.quoteDecimals := by rw [← h.rest]
  simp only [design, build, Traced.result_bind, Traced.result_liftM, hthreshold, hfee, hbuffer, hquote,
    h.baseDecimals_eq, h.vesting_eq]
  refine (h.option.sameOutcome).bind_eq fun option => ?_
  refine .bind_self SameKind.refl fun _ => ?_
  refine (alike_positiveDecimal _ h.supply).bind fun supply supply' hsupply => ?_
  refine (h.sameOutcome_amounts hsupply).bind_eq fun a => ?_
  exact (h.sameOutcome_curveOf a).bind_eq fun _ => SameOutcome.refl _

end Respelled

end GraphMarket

/-! ### Both designs -/

/-- A market with vesting, spelled in other ways. -/
def LinearMarket.respelledMarket : LinearMarket :=
  { LinearMarket.resizedMarket with
    supply := .text "1e6"
    migrationPercentage := .decimal (.finite ⟨false, 2000, -2⟩)
    threshold := .text " 0_100_000.0 "
    option := .decimal (.finite ⟨false, 10, -1⟩) }

private theorem LinearMarket.respelled_resizedMarket : resizedMarket.Respelled respelledMarket where
  supply := .of_int (by decide) (.text (x := ⟨false, 1, 6⟩) rfl) (by norm_num [Decimal.value, Decimal.magnitude])
  migrationPercentage := .of_int (by decide) (.decimal _) (by norm_num [Decimal.value, Decimal.magnitude])
  threshold :=
    .of_int (by decide) (.text (x := ⟨false, 1000000, -1⟩) rfl) (by norm_num [Decimal.value, Decimal.magnitude])
  option := by
    refine .inr ⟨_, .int (n := 1) (by decide), ?_, fun _ _ => rfl⟩
    have hone : (⟨false, 10, -1⟩ : Decimal).value = (1 : ℤ) := by norm_num [Decimal.value, Decimal.magnitude]
    rw [← hone]
    exact .decimal _
  rest := rfl

/-- A graph market, spelled in other ways. -/
def GraphMarket.respelledMarket : GraphMarket :=
  { GraphMarket.referenceMarket with
    supply := .decimal (.finite ⟨false, 1, 9⟩)
    initialMarketCap := .text "3E+1"
    leftover := .text " 10_000.00"
    factor := .decimal (.finite ⟨false, 120, -2⟩) }

private theorem GraphMarket.respelled_referenceMarket : referenceMarket.Respelled respelledMarket where
  supply := .of_int (by decide) (.decimal _) (by norm_num [Decimal.value, Decimal.magnitude])
  initialMarketCap :=
    .of_int (by decide) (.text (x := ⟨false, 3, 1⟩) rfl) (by norm_num [Decimal.value, Decimal.magnitude])
  migrationMarketCap := .refl _
  option := .inl rfl
  leftover :=
    .of_int (by decide) (.text (x := ⟨false, 1000000, -2⟩) rfl) (by norm_num [Decimal.value, Decimal.magnitude])
  factor := by
    refine .inr ⟨_, .text (x := ⟨false, 12, -1⟩) rfl, ?_⟩
    have hfactor : (⟨false, 12, -1⟩ : Decimal).value = (⟨false, 120, -2⟩ : Decimal).value := by
      norm_num [Decimal.value, Decimal.magnitude]
    rw [hfactor]
    exact .decimal _
  rest := rfl

end BondingCurve
