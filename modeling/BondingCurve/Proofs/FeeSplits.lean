import BondingCurve.Migration.Fee
import BondingCurve.Proofs.Fees
import BondingCurve.Proofs.Purchase
import BondingCurve.Trade.Simulation

/-!
# Shares of fees

A fee is rounded up, each part that is taken out of it is rounded down, and what is left at each place is a difference.
So nothing is lost, and no part is negative.

* (trading fee) What an amount leaves and the three shares of its fee are `FeeOnAmount.PartsOf` it.
* (referral) A referrer is paid out of the protocol's share.  With that part given back (`SwapResult.unreferred`), the
  result of a trade is the one without a referrer, and a failure stays the same (`simulateSwapInMode_unreferred`).
* (migration fee) The migrated part is rounded up, so the fee is the percentage of the threshold rounded down
  (`migrationAmount_eq`), and the partner has what the creator's part leaves of it (`migrationFeeDistribution_eq`).
-/

namespace BondingCurve

/-! ### Checks -/

section Checks

variable {α : Type} [Argument α] {f : α} {n : Int}

private theorem feeNumerator_of_mem (hf : (toScalar f).countable? = some n) (hn : 0 ≤ n ∧ n ≤ maxFeeNumerator) :
    feeNumerator f = .ok n := by
  simp only [feeNumerator, hf]
  exact if_neg (by omega)

private theorem checkPercentage_of_mem (name : String) (hf : (toScalar f).countable? = some n) (hn : 0 ≤ n ∧ n ≤ 100) :
    checkPercentage name f = .ok n := by
  simp only [checkPercentage, hf]
  exact if_neg (by omega)

end Checks

/-! ### Trading fees -/

private theorem FeeShares.ofFee_nonneg {fee : Int} (hfee : 0 ≤ fee) (referral : Bool) :
    0 ≤ (ofFee fee referral).trading ∧ 0 ≤ (ofFee fee referral).protocol ∧ 0 ≤ (ofFee fee referral).referral := by
  obtain ⟨hprotocol, hle⟩ := percentOf_mem protocolFeePercent_mem hfee
  obtain ⟨hreferred, hle'⟩ := percentOf_mem hostFeePercent_mem hprotocol
  cases referral with
  | false =>
    simp only [ofFee, Bool.false_eq_true, if_false]
    omega
  | true =>
    simp only [ofFee, if_true]
    omega

/-- An amount after its fee and the shares of the fee are parts of the amount, and together all of it. -/
structure FeeOnAmount.PartsOf (x : FeeOnAmount) (whole : Int) : Prop where
  amount_nonneg : 0 ≤ x.amount
  trading_nonneg : 0 ≤ x.shares.trading
  protocol_nonneg : 0 ≤ x.shares.protocol
  referral_nonneg : 0 ≤ x.shares.referral
  sum_eq : x.amount + x.shares.trading + x.shares.protocol + x.shares.referral = whole

private theorem feeOnAmount_partsOf {α : Type} [Argument α] {f : α} {n amount : Int} {referral : Bool} {x : FeeOnAmount}
    (hf : feeNumerator f = .ok n) (ha : IsU64 amount) (h : feeOnAmount f amount referral = .ok x) :
    x.PartsOf amount := by
  have hn := mem_of_feeNumerator hf
  rw [feeOnAmount_eq hf ha] at h
  obtain rfl := Except.ok.inj h
  obtain ⟨htrading, hprotocol, hreferral⟩ := FeeShares.ofFee_nonneg (feeOf_mem hn ha.1).1 referral
  refine ⟨lessFee_nonneg hn true ha.1, htrading, hprotocol, hreferral, ?_⟩
  have htotal := FeeShares.total_ofFee (feeOf n amount) referral
  simp only [FeeShares.total] at htotal
  simp only [lessFee, if_true]
  omega

/-! ### Referral -/

/-- The shares when the protocol has the referrer's part. -/
def FeeShares.unreferred (shares : FeeShares) : FeeShares :=
  ⟨shares.trading, shares.protocol + shares.referral, 0⟩

def FeeOnAmount.unreferred (x : FeeOnAmount) : FeeOnAmount :=
  ⟨x.amount, x.shares.unreferred⟩

def SwapResult.unreferred (r : SwapResult) : SwapResult :=
  { r with shares := r.shares.unreferred }

private theorem FeeShares.unreferred_ofFee (fee : Int) (referral : Bool) :
    (ofFee fee referral).unreferred = ofFee fee false := by
  cases referral <;> simp [ofFee, unreferred]

private theorem splitFee_unreferred (fee : Int) (referral : Bool) :
    FeeShares.unreferred <$> splitFee fee referral = splitFee fee false := by
  cases hchecked : checkedU64 "fee_amount" fee with
  | error e => simp only [splitFee, hchecked, error_bind, error_map]
  | ok checked =>
    have hfee : IsU64 fee := (checkedU64_eq_ok_iff.mp hchecked).1
    rw [splitFee_result hfee, splitFee_result hfee, ok_map, FeeShares.unreferred_ofFee]

private theorem feeOnAmount_unreferred {α : Type} [Argument α] (f : α) (amount : Int) (referral : Bool) :
    FeeOnAmount.unreferred <$> feeOnAmount f amount referral = feeOnAmount f amount false := by
  simp only [feeOnAmount]
  cases excludedFee f amount with
  | error e => rfl
  | ok excluded =>
    simp only [ok_bind, ← splitFee_unreferred excluded.fee referral]
    cases splitFee excluded.fee referral <;> rfl

section Trades

variable (curve : Curve) (price amount : Int) (direction : TradeDirection) (numerator : Int)

private theorem tradeWithInputFee_unreferred (referral : Bool) :
    SwapResult.unreferred <$> (tradeWithInputFee curve price amount direction numerator referral).result =
      (tradeWithInputFee curve price amount direction numerator false).result := by
  simp only [tradeWithInputFee, Traced.result_bind, Traced.result_liftM,
    ← feeOnAmount_unreferred numerator amount referral]
  cases feeOnAmount numerator amount referral with
  | error e => rfl
  | ok fee =>
    simp only [ok_bind, ok_map, FeeOnAmount.unreferred]
    cases (curve.trade price fee.amount direction).result <;> rfl

private theorem tradeWithOutputFee_unreferred (referral : Bool) :
    SwapResult.unreferred <$> (tradeWithOutputFee curve price amount direction numerator referral).result =
      (tradeWithOutputFee curve price amount direction numerator false).result := by
  simp only [tradeWithOutputFee, Traced.result_bind, Traced.result_liftM]
  cases (curve.trade price amount direction).result with
  | error e => rfl
  | ok fill =>
    simp only [ok_bind, ← feeOnAmount_unreferred numerator fill.output referral]
    cases feeOnAmount numerator fill.output referral <;> rfl

private theorem simulateSwap_unreferred (mode : FeeMode) (referral : Bool) :
    SwapResult.unreferred <$> (simulateSwap curve price amount direction numerator mode referral).result =
      (simulateSwap curve price amount direction numerator mode false).result := by
  simp only [simulateSwap, Traced.result_bind, Traced.result_liftM, Traced.result_ite]
  cases checkedU64 "amount_in" amount with
  | error e => rfl
  | ok checked =>
    cases feeOnInput direction mode with
    | true =>
      simp only [ok_bind, if_true, ← tradeWithInputFee_unreferred curve price amount direction numerator referral]
      cases (tradeWithInputFee curve price amount direction numerator referral).result <;> rfl
    | false =>
      simp only [ok_bind, Bool.false_eq_true, if_false,
        ← tradeWithOutputFee_unreferred curve price amount direction numerator referral]
      cases (tradeWithOutputFee curve price amount direction numerator referral).result <;> rfl

theorem simulateSwapInMode_unreferred (mode : Int) (referral : Bool) :
    SwapResult.unreferred <$> (simulateSwapInMode curve price amount direction numerator mode referral).result =
      (simulateSwapInMode curve price amount direction numerator mode false).result := by
  simp only [simulateSwapInMode, Traced.result_bind, Traced.result_liftM]
  cases checkedU64 "amount_in" amount with
  | error e => rfl
  | ok checked =>
    cases FeeMode.ofInt mode with
    | error e => rfl
    | ok mode => exact simulateSwap_unreferred curve price amount direction numerator mode referral

end Trades

/-- Two outcomes of a trade that differ at most in what the protocol leaves to a referrer. -/
structure SwapResult.SamePayments (r r' : SwapResult) : Prop where
  output : r.output = r'.output
  nextSqrtPrice : r.nextSqrtPrice = r'.nextSqrtPrice
  trading : r.shares.trading = r'.shares.trading
  totalFee : r.totalFee = r'.totalFee

private theorem SwapResult.samePayments_of_unreferred {r r' : SwapResult} (h : r.unreferred = r'.unreferred) :
    r.SamePayments r' := by
  simp only [unreferred, FeeShares.unreferred, mk.injEq, FeeShares.mk.injEq] at h
  obtain ⟨-, -, houtput, hnext, ⟨htrading, hprotocol, -⟩, -⟩ := h
  refine ⟨houtput, hnext, htrading, ?_⟩
  simp only [totalFee, FeeShares.total]
  omega

/-- A trade fails with a referrer exactly as without one, and pays the same. -/
private theorem simulateSwapInMode_referral (curve : Curve) (price amount : Int) (direction : TradeDirection)
    (numerator mode : Int) (referral referral' : Bool) :
    (∀ e, (simulateSwapInMode curve price amount direction numerator mode referral).result = .error e ↔
      (simulateSwapInMode curve price amount direction numerator mode referral').result = .error e) ∧
    ∀ r, (simulateSwapInMode curve price amount direction numerator mode referral).result = .ok r →
      ∃ r', (simulateSwapInMode curve price amount direction numerator mode referral').result = .ok r' ∧
        r.SamePayments r' := by
  have h := (simulateSwapInMode_unreferred curve price amount direction numerator mode referral).trans
    (simulateSwapInMode_unreferred curve price amount direction numerator mode referral').symm
  cases hr : (simulateSwapInMode curve price amount direction numerator mode referral).result with
  | error e =>
    cases hr' : (simulateSwapInMode curve price amount direction numerator mode referral').result with
    | error e' =>
      rw [hr, hr', error_map, error_map] at h
      rw [Except.error.inj h]
      exact ⟨fun _ => Iff.rfl, nofun⟩
    | ok r' =>
      rw [hr, hr'] at h
      cases h
  | ok r =>
    cases hr' : (simulateSwapInMode curve price amount direction numerator mode referral').result with
    | error e' =>
      rw [hr, hr'] at h
      cases h
    | ok r' =>
      rw [hr, hr', ok_map, ok_map] at h
      refine ⟨fun e => by simp, ?_⟩
      rintro _ ⟨⟩
      exact ⟨r', rfl, SwapResult.samePayments_of_unreferred (Except.ok.inj h)⟩

/-! ### Migration fee -/

section Migration

variable {α : Type} [Argument α] {f g : α} {threshold p c : Int}

theorem migrationAmount_eq (ht : IsU64 threshold) (hf : (toScalar f).countable? = some p) (hp : 0 ≤ p ∧ p ≤ 100) :
    migrationAmount threshold f = .ok ⟨threshold - percentOf p threshold, percentOf p threshold⟩ := by
  have hquote : Rounding.up.mulDiv threshold (100 - p) 100 = .ok (threshold - percentOf p threshold) := by
    rw [Rounding.mulDiv_up ht.1 (by omega) (by decide), Int.mul_sub, ceilDiv, percentOf]
    congr 1
    omega
  simp only [migrationAmount, checkedU64_eq_ok_iff.mpr ⟨ht, rfl⟩, checkPercentage_of_mem _ hf hp, ok_bind, hquote,
    sub_sub_cancel]
  rfl

theorem migrationFeeDistribution_eq (ht : IsU64 threshold) (hf : (toScalar f).countable? = some p)
    (hp : 0 ≤ p ∧ p ≤ 100) (hg : (toScalar g).countable? = some c) (hc : 0 ≤ c ∧ c ≤ 100) :
    migrationFeeDistribution threshold f g =
      .ok ⟨percentOf p threshold - percentOf c (percentOf p threshold), percentOf c (percentOf p threshold)⟩ := by
  have hfee := (percentOf_mem hp ht.1).1
  simp only [migrationFeeDistribution, checkPercentage_of_mem _ hg hc, migrationAmount_eq ht hf hp, ok_bind,
    mulDiv_percent hc.1 hfee]
  rfl

end Migration

/-- A fee is taken in parts that are not negative and make up the amount, to split an amount saves no fee and costs a
unit at most, a referrer is paid by the protocol alone, and the migration fee is shared without a remainder. -/
theorem fees_lose_nothing :
    (∀ {α : Type} [Argument α] (f : α) (n a b : Int) (referral : Bool), (toScalar f).countable? = some n →
      0 ≤ n ∧ n ≤ maxFeeNumerator → 0 ≤ a → 0 ≤ b → a + b ≤ u64Max →
      ∃ x y whole, feeOnAmount f a referral = .ok x ∧ feeOnAmount f b referral = .ok y ∧
        feeOnAmount f (a + b) referral = .ok whole ∧ x.PartsOf a ∧
        whole.shares.total ≤ x.shares.total + y.shares.total ∧
        x.shares.total + y.shares.total ≤ whole.shares.total + 1) ∧
    (∀ curve price amount direction numerator mode referral referral',
      (∀ e, (simulateSwapInMode curve price amount direction numerator mode referral).result = .error e ↔
        (simulateSwapInMode curve price amount direction numerator mode referral').result = .error e) ∧
      ∀ r, (simulateSwapInMode curve price amount direction numerator mode referral).result = .ok r →
        ∃ r', (simulateSwapInMode curve price amount direction numerator mode referral').result = .ok r' ∧
          r.SamePayments r') ∧
    ∀ {α : Type} [Argument α] (f g : α) (threshold p c : Int), IsU64 threshold →
      (toScalar f).countable? = some p → 0 ≤ p ∧ p ≤ 100 → (toScalar g).countable? = some c → 0 ≤ c ∧ c ≤ 100 →
      ∃ migrated shared, migrationAmount threshold f = .ok migrated ∧
        migrationFeeDistribution threshold f g = .ok shared ∧
        migrated.quoteAmount + shared.partner + shared.creator = threshold ∧
        0 ≤ migrated.quoteAmount ∧ 0 ≤ shared.partner ∧ 0 ≤ shared.creator ∧
        shared.partner + shared.creator = threshold * p / 100 := by
  refine ⟨?_, simulateSwapInMode_referral, ?_⟩
  · intro α _ f n a b referral hf hn ha hb hsum
    have hnumerator := feeNumerator_of_mem hf hn
    have hx := feeOnAmount_eq hnumerator ⟨ha, by omega⟩ referral
    have hy := feeOnAmount_eq hnumerator ⟨hb, by omega⟩ referral
    have hwhole := feeOnAmount_eq hnumerator ⟨Int.add_nonneg ha hb, hsum⟩ referral
    refine ⟨_, _, _, hx, hy, hwhole, feeOnAmount_partsOf hnumerator ⟨ha, by omega⟩ hx, ?_, ?_⟩
    · simpa only [FeeShares.total_ofFee] using feeOf_add_le n a b
    · simpa only [FeeShares.total_ofFee] using feeOf_add_feeOf_le n a b
  · intro α _ f g threshold p c ht hf hp hg hc
    obtain ⟨hfee, hfee_le⟩ := percentOf_mem hp ht.1
    obtain ⟨hcreator, hcreator_le⟩ := percentOf_mem hc hfee
    refine ⟨_, _, migrationAmount_eq ht hf hp, migrationFeeDistribution_eq ht hf hp hg hc, ?_, ?_, ?_, hcreator, ?_⟩
    · simp only
      omega
    · simp only
      omega
    · simp only
      omega
    · exact sub_add_cancel _ _

/-- Two amounts that each pay a fee of a part of a unit, a trade across the gap of a curve with a referrer and without
one, and a threshold at the end of the ledger's range. -/
theorem fees_lose_nothing_of_parts :
    (∃ x y whole, feeOnAmount (2500000 : Int) 999 true = .ok x ∧ feeOnAmount (2500000 : Int) 1 true = .ok y ∧
      feeOnAmount (2500000 : Int) (999 + 1) true = .ok whole ∧ x.PartsOf 999 ∧
      whole.shares.total ≤ x.shares.total + y.shares.total ∧
      x.shares.total + y.shares.total ≤ whole.shares.total + 1) ∧
    (∃ r, (simulateSwapInMode .gapped (2 ^ 64) 70000 .quoteToBase (10 ^ 7) 0 false).result = .ok r ∧
      SwapResult.SamePayments ⟨70000, 69300, 33182, 55869968127298109440, ⟨560, 112, 28⟩, true⟩ r) ∧
    ∃ migrated shared, migrationAmount u64Max (33 : Int) = .ok migrated ∧
      migrationFeeDistribution u64Max (33 : Int) 50 = .ok shared ∧
      migrated.quoteAmount + shared.partner + shared.creator = u64Max ∧
      0 ≤ migrated.quoteAmount ∧ 0 ≤ shared.partner ∧ 0 ≤ shared.creator ∧
      shared.partner + shared.creator = 6087425544324152032 := by
  obtain ⟨hfees, hreferral, hmigration⟩ := fees_lose_nothing
  refine ⟨hfees (2500000 : Int) 2500000 999 1 true rfl (by decide) (by decide) (by decide) (by decide), ?_, ?_⟩
  · exact (hreferral .gapped (2 ^ 64) 70000 .quoteToBase (10 ^ 7) 0 true false).2 _ rfl
  · exact hmigration (33 : Int) 50 u64Max 33 50 (by decide) rfl (by decide) rfl (by decide)

end BondingCurve
