import BondingCurve.Fee
import Mathlib.Tactic.Linarith

/-!
# Fees lose nothing

A fee that is taken from an amount and what the amount leaves make up the amount, and so do the shares of the fee
(`feeOnAmount_conserves`).

A fee within its bounds can be taken from every amount that the ledger holds (`feeOnAmount_result`), with the shares
`FeeShares.ofFee` (`feeOnAmount_eq`).  The fees of two amounts are at least the fee of their sum, and at most a unit
more (`feeOf_add_le`, `feeOf_add_feeOf_le`), so to take a fee from two amounts leaves no more than to take it from their
sum (`lessFee_add_le`).  A larger amount has no smaller fee, and the fee leaves no less of it (`feeOf_mono`,
`lessFee_mono`).

The amount that is grossed up by a fee is the least one that leaves what it was made from (`grossUp_le_iff`), and it
leaves exactly that (`lessFee_grossUp`): the divisor of the quotient that is rounded up is at most the denominator of
the fee, so no unit is skipped.
-/

namespace BondingCurve

theorem feeNumerator_eq_ok_iff {n m : Int} :
    feeNumerator n = .ok m ↔ (0 ≤ n ∧ n ≤ maxFeeNumerator) ∧ m = n := by
  simp only [feeNumerator, toScalar_int, Scalar.countable?]
  split
  · simp
    omega
  · simp [eq_comm]
    omega

/-- Whatever kind of argument a fee numerator was handed in as, it is in its range. -/
theorem mem_of_feeNumerator {α : Type} [Argument α] {f : α} {n : Int} (h : feeNumerator f = .ok n) :
    0 ≤ n ∧ n ≤ maxFeeNumerator := by
  unfold feeNumerator at h
  split at h
  · rw [ite_error_eq_ok_iff, Except.ok.injEq] at h
    omega
  · cases h

/-! ### What a fee leaves -/

/-- The fee of an amount. -/
def feeOf (numerator amount : Int) : Int := ceilDiv (amount * numerator) feeDenominator

/-- An amount, less its fee if the fee is taken from it. -/
def lessFee (taken : Bool) (numerator amount : Int) : Int :=
  if taken then amount - feeOf numerator amount else amount

/-- A percentage of an amount, rounded down. -/
def percentOf (percentage amount : Int) : Int := amount * percentage / 100

theorem mulDiv_percent {percentage amount : Int} (hp : 0 ≤ percentage) (ha : 0 ≤ amount) :
    Rounding.down.mulDiv amount percentage 100 = .ok (percentOf percentage amount) :=
  Rounding.mulDiv_down ha hp (by decide)

theorem percentOf_mem {percentage amount : Int} (hp : 0 ≤ percentage ∧ percentage ≤ 100) (ha : 0 ≤ amount) :
    0 ≤ percentOf percentage amount ∧ percentOf percentage amount ≤ amount := by
  constructor
  · exact Int.ediv_nonneg (Int.mul_nonneg ha hp.1) (by decide)
  · have hle : amount * percentage ≤ amount * 100 := Int.mul_le_mul_of_nonneg_left hp.2 ha
    unfold percentOf
    omega

theorem protocolFeePercent_mem : 0 ≤ protocolFeePercent ∧ protocolFeePercent ≤ 100 := by decide

theorem hostFeePercent_mem : 0 ≤ hostFeePercent ∧ hostFeePercent ≤ 100 := by decide

/-- The shares of a fee. -/
def FeeShares.ofFee (fee : Int) (referral : Bool) : FeeShares :=
  let protocol := percentOf protocolFeePercent fee
  let referred := if referral then percentOf hostFeePercent protocol else 0
  ⟨fee - protocol, protocol - referred, referred⟩

@[simp] theorem FeeShares.total_ofFee (fee : Int) (referral : Bool) : (ofFee fee referral).total = fee := by
  simp only [total, ofFee]
  omega

theorem splitFee_result {fee : Int} (hfee : IsU64 fee) (referral : Bool) :
    splitFee fee referral = .ok (.ofFee fee referral) := by
  have hprotocol : Rounding.down.mulDiv fee protocolFeePercent 100 = .ok (percentOf protocolFeePercent fee) :=
    mulDiv_percent protocolFeePercent_mem.1 hfee.1
  have hreferred : Rounding.down.mulDiv (percentOf protocolFeePercent fee) hostFeePercent 100 =
      .ok (percentOf hostFeePercent (percentOf protocolFeePercent fee)) :=
    mulDiv_percent hostFeePercent_mem.1 (percentOf_mem protocolFeePercent_mem hfee.1).1
  simp only [splitFee, checkedU64_eq_ok_iff.mpr ⟨hfee, rfl⟩, ok_bind, hprotocol]
  cases referral
  · rfl
  · simp only [if_true, hreferred, ok_bind]
    rfl

/-- What is left of an amount that the ledger holds, and the fee. -/
private theorem excludedFee_result {α : Type} [Argument α] {f : α} {n amount : Int} (hf : feeNumerator f = .ok n)
    (ha : IsU64 amount) : excludedFee f amount = .ok ⟨lessFee true n amount, feeOf n amount⟩ := by
  have hfee : Rounding.up.mulDiv amount n feeDenominator = .ok (feeOf n amount) :=
    Rounding.mulDiv_up ha.1 (mem_of_feeNumerator hf).1 (by decide)
  simp only [excludedFee, hf, checkedU64_eq_ok_iff.mpr ⟨ha, rfl⟩, ok_bind, hfee]
  rfl

/-- No fee is negative or exceeds its amount. -/
theorem feeOf_mem {numerator amount : Int} (hn : 0 ≤ numerator ∧ numerator ≤ maxFeeNumerator) (ha : 0 ≤ amount) :
    0 ≤ feeOf numerator amount ∧ feeOf numerator amount ≤ amount := by
  refine ⟨ceilDiv_nonneg (Int.mul_nonneg ha hn.1) (by decide), ?_⟩
  rw [feeOf, ceilDiv_le_iff (by decide)]
  exact Int.mul_le_mul_of_nonneg_left (hn.2.trans (by decide)) ha

/-- What is left of an amount that the ledger holds, and the shares of the fee. -/
theorem feeOnAmount_eq {α : Type} [Argument α] {f : α} {n amount : Int} (hf : feeNumerator f = .ok n)
    (ha : IsU64 amount) (referral : Bool) :
    feeOnAmount f amount referral = .ok ⟨lessFee true n amount, .ofFee (feeOf n amount) referral⟩ := by
  obtain ⟨hfee_nonneg, hfee_le⟩ := feeOf_mem (mem_of_feeNumerator hf) ha.1
  have hshares := splitFee_result ⟨hfee_nonneg, hfee_le.trans ha.2⟩ referral
  simp only [feeOnAmount, excludedFee_result hf ha, ok_bind, hshares]
  rfl

section Conserved

variable {numerator amount : Int} {referral : Bool} {x : FeeOnAmount}

theorem feeOnAmount_eq_ok_iff :
    feeOnAmount numerator amount referral = .ok x ↔
      (0 ≤ numerator ∧ numerator ≤ maxFeeNumerator) ∧ IsU64 amount ∧
        x = ⟨lessFee true numerator amount, .ofFee (feeOf numerator amount) referral⟩ := by
  constructor
  · intro h
    have hchecked := h
    simp only [feeOnAmount, excludedFee, bind_eq_ok_iff, feeNumerator_eq_ok_iff, checkedU64_eq_ok_iff] at hchecked
    obtain ⟨_, ⟨_, ⟨hn, -⟩, _, ⟨ha, -⟩, -⟩, -⟩ := hchecked
    have heq := feeOnAmount_eq (feeNumerator_eq_ok_iff.mpr ⟨hn, rfl⟩) ha referral
    exact ⟨hn, ha, Except.ok.inj (h.symm.trans heq)⟩
  · rintro ⟨hn, ha, rfl⟩
    exact feeOnAmount_eq (feeNumerator_eq_ok_iff.mpr ⟨hn, rfl⟩) ha referral

/-- What an amount leaves without its fee and the shares of the fee make up the amount. -/
theorem feeOnAmount_conserves (h : feeOnAmount numerator amount referral = .ok x) :
    x.amount + x.shares.total = amount ∧ 0 ≤ x.shares.total := by
  obtain ⟨hn, ha, rfl⟩ := feeOnAmount_eq_ok_iff.mp h
  have hfee := (feeOf_mem hn ha.1).1
  simp only [lessFee, if_true, FeeShares.total_ofFee]
  omega

end Conserved

/-- A fee pays for its part of the amount, and a unit less would not. -/
private theorem feeOf_spec (numerator amount : Int) :
    (feeOf numerator amount - 1) * feeDenominator < amount * numerator ∧
      amount * numerator ≤ feeOf numerator amount * feeDenominator := by
  constructor
  · exact (lt_ceilDiv_iff (by decide)).mp (Int.sub_one_lt_iff.mpr le_rfl)
  · exact (ceilDiv_le_iff (by decide)).mp le_rfl

/-- To split an amount saves no fee. -/
theorem feeOf_add_le (numerator a b : Int) : feeOf numerator (a + b) ≤ feeOf numerator a + feeOf numerator b := by
  have ha := (feeOf_spec numerator a).2
  have hb := (feeOf_spec numerator b).2
  rw [feeOf, ceilDiv_le_iff (by decide)]
  linarith

/-- To split an amount costs a unit at most. -/
theorem feeOf_add_feeOf_le (numerator a b : Int) :
    feeOf numerator a + feeOf numerator b ≤ feeOf numerator (a + b) + 1 := by
  have ha := (feeOf_spec numerator a).1
  have hb := (feeOf_spec numerator b).1
  have hsum : feeOf numerator a + feeOf numerator b - 2 < feeOf numerator (a + b) := by
    apply (lt_ceilDiv_iff (by decide)).mpr
    linarith
  omega

section Valid

variable {numerator amount : Int} (hn : 0 ≤ numerator ∧ numerator ≤ maxFeeNumerator)
include hn

/-- A valid fee can be taken from every amount that the ledger holds. -/
theorem feeOnAmount_result (ha : IsU64 amount) (referral : Bool) :
    ∃ x, feeOnAmount numerator amount referral = .ok x ∧ x.amount = lessFee true numerator amount :=
  ⟨_, feeOnAmount_eq_ok_iff.mpr ⟨hn, ha, rfl⟩, rfl⟩

/-- A fee on parts of an amount leaves no more than a fee on the whole. -/
theorem lessFee_add_le (taken : Bool) {a b c : Int} (h : a + b ≤ c) :
    lessFee taken numerator a + lessFee taken numerator b ≤ lessFee taken numerator c := by
  cases taken with
  | false => exact h
  | true =>
    -- What the whole has more than its parts pays its own fee.
    have hrest := (feeOf_mem hn (show 0 ≤ c - (a + b) by omega)).2
    have hparts := feeOf_add_le numerator a b
    have hwhole := feeOf_add_le numerator (a + b) (c - (a + b))
    rw [add_sub_cancel] at hwhole
    simp only [lessFee, if_true]
    omega

/-- A larger amount has no smaller fee. -/
theorem feeOf_mono {a b : Int} (h : a ≤ b) : feeOf numerator a ≤ feeOf numerator b := by
  rw [feeOf, ceilDiv_le_iff (by decide)]
  exact (Int.mul_le_mul_of_nonneg_right h hn.1).trans (feeOf_spec numerator b).2

/-- A fee leaves no less of a larger amount. -/
theorem lessFee_mono (taken : Bool) {a b : Int} (h : a ≤ b) :
    lessFee taken numerator a ≤ lessFee taken numerator b := by
  have hnothing : lessFee taken numerator 0 = 0 := by simp [lessFee, feeOf, ceilDiv_zero]
  have hsum := lessFee_add_le hn taken (show a + 0 ≤ b by omega)
  rwa [hnothing, add_zero] at hsum

theorem lessFee_nonneg (taken : Bool) (ha : 0 ≤ amount) : 0 ≤ lessFee taken numerator amount := by
  have hfee := (feeOf_mem hn ha).2
  unfold lessFee
  split <;> omega

end Valid

@[simp] theorem lessFee_zero (taken : Bool) (amount : Int) : lessFee taken 0 amount = amount := by
  simp [lessFee, feeOf, ceilDiv_zero]

/-! ### Grossing up -/

/-- The amount that leaves `amount` without its fee. -/
def grossUp (numerator amount : Int) : Int := ceilDiv (amount * feeDenominator) (feeDenominator - numerator)

section GrossUp

variable {α : Type} [Argument α] {f : α} {n e g : Int} {x : FeeAmount}

private theorem rest_pos (hn : n ≤ maxFeeNumerator) : 0 < feeDenominator - n := by
  have hlt : maxFeeNumerator < feeDenominator := by decide
  omega

/-- Grossing up is the lower adjoint of taking the fee. -/
theorem grossUp_le_iff (hn : n ≤ maxFeeNumerator) : grossUp n e ≤ g ↔ e ≤ lessFee true n g := by
  have hfee : feeOf n g ≤ g - e ↔ g * n ≤ (g - e) * feeDenominator := ceilDiv_le_iff (by decide)
  have hgross : grossUp n e ≤ g ↔ e * feeDenominator ≤ g * (feeDenominator - n) := ceilDiv_le_iff (rest_pos hn)
  rw [Int.sub_mul] at hfee
  rw [Int.mul_sub] at hgross
  simp only [lessFee, if_true]
  omega

/-- Without its fee, an amount that was grossed up is what it was made from. -/
theorem lessFee_grossUp (hn : 0 ≤ n ∧ n ≤ maxFeeNumerator) (e : Int) : lessFee true n (grossUp n e) = e := by
  apply le_antisymm
  · -- A unit less than the gross amount would leave less, and a unit pays for no more than one.
    by_contra hmore
    have hsucc : grossUp n (e + 1) ≤ grossUp n e := (grossUp_le_iff hn.2).mpr (not_le.mp hmore)
    have hpays : (e + 1) * feeDenominator ≤ grossUp n e * (feeDenominator - n) :=
      (ceilDiv_le_iff (rest_pos hn.2)).mp hsucc
    have hleast : (grossUp n e - 1) * (feeDenominator - n) < e * feeDenominator :=
      (lt_ceilDiv_iff (rest_pos hn.2)).mp (Int.sub_one_lt_iff.mpr le_rfl)
    linarith [hn.1]
  · exact (grossUp_le_iff hn.2).mp le_rfl

private theorem grossUp_nonneg (hn : n ≤ maxFeeNumerator) (he : 0 ≤ e) : 0 ≤ grossUp n e :=
  ceilDiv_nonneg (Int.mul_nonneg he (by decide)) (rest_pos hn)

/-- An amount is grossed up exactly if the ledger holds both it and the gross amount. -/
theorem includedFee_eq_ok_iff (hf : feeNumerator f = .ok n) :
    includedFee f e = .ok x ↔ IsU64 e ∧ IsU64 (grossUp n e) ∧ x = ⟨grossUp n e, grossUp n e - e⟩ := by
  have hgross (he : IsU64 e) : Rounding.up.mulDiv e feeDenominator (feeDenominator - n) = .ok (grossUp n e) :=
    Rounding.mulDiv_up he.1 (by decide) (rest_pos (mem_of_feeNumerator hf).2)
  simp only [includedFee, hf, ok_bind, bind_eq_ok_iff, checkedU64_eq_ok_iff]
  constructor
  · rintro ⟨_, ⟨he, rfl⟩, included, hincluded, h⟩
    obtain rfl : included = grossUp n _ := Except.ok.inj (hincluded.symm.trans (hgross he))
    obtain ⟨_, ⟨hfits, rfl⟩, ⟨⟩⟩ := h
    exact ⟨he, hfits, rfl⟩
  · rintro ⟨he, hfits, rfl⟩
    exact ⟨e, ⟨he, rfl⟩, _, hgross he, _, ⟨hfits, rfl⟩, rfl⟩

/-- Grossing up and taking the fee undo each other: the gross amount is the least one that leaves what it was made
from, and what a fee leaves can be grossed up again to no more than there was. -/
theorem includedFee_excludedFee_inverse (hf : feeNumerator f = .ok n) :
    (∀ e x, includedFee f e = .ok x →
      excludedFee f x.amount = .ok ⟨e, x.fee⟩ ∧
      ∀ g, 0 ≤ g → g < x.amount → ∃ y, excludedFee f g = .ok y ∧ y.amount < e) ∧
    (∀ g, IsU64 g → ∃ y x, excludedFee f g = .ok y ∧ includedFee f y.amount = .ok x ∧ x.amount ≤ g) := by
  have hn := mem_of_feeNumerator hf
  refine ⟨fun e x hx => ?_, fun g hg => ?_⟩
  · obtain ⟨-, hfits, rfl⟩ := (includedFee_eq_ok_iff hf).mp hx
    have hleaves := lessFee_grossUp hn e
    have hfee : feeOf n (grossUp n e) = grossUp n e - e := by
      simp only [lessFee, if_true] at hleaves
      omega
    refine ⟨by rw [excludedFee_result hf hfits, hleaves, hfee], fun g hg hlt => ?_⟩
    refine ⟨_, excludedFee_result hf ⟨hg, hlt.le.trans hfits.2⟩, ?_⟩
    exact not_le.mp fun hle => absurd ((grossUp_le_iff hn.2).mpr hle) (not_le.mpr hlt)
  · have hnet : IsU64 (lessFee true n g) := by
      have hfee := feeOf_mem hn hg.1
      have hfits := hg.2
      simp only [lessFee, if_true]
      constructor <;> omega
    have hgross : grossUp n (lessFee true n g) ≤ g := (grossUp_le_iff hn.2).mpr le_rfl
    refine ⟨_, _, excludedFee_result hf hg, (includedFee_eq_ok_iff hf).mpr ⟨hnet, ?_, rfl⟩, hgross⟩
    exact ⟨grossUp_nonneg hn.2 hnet.1, hgross.trans hg.2⟩

/-- At the highest fee and close to the end of the ledger's range. -/
theorem includedFee_excludedFee_inverse_greatest :
    includedFee (990000000 : Int) 184467440737095516 = .ok ⟨18446744073709551600, 18262276632972456084⟩ ∧
    excludedFee (990000000 : Int) 18446744073709551600 = .ok ⟨184467440737095516, 18262276632972456084⟩ ∧
    (∃ y, excludedFee (990000000 : Int) 18446744073709551599 = .ok y ∧ y.amount < 184467440737095516) ∧
    ∃ y x, excludedFee (990000000 : Int) u64Max = .ok y ∧ includedFee (990000000 : Int) y.amount = .ok x ∧
      x.amount ≤ u64Max := by
  have hf : feeNumerator (990000000 : Int) = .ok 990000000 := rfl
  have hgross : includedFee (990000000 : Int) 184467440737095516 = .ok ⟨18446744073709551600, 18262276632972456084⟩ :=
    rfl
  obtain ⟨hinverse, hregross⟩ := includedFee_excludedFee_inverse hf
  obtain ⟨hexcluded, hless⟩ := hinverse _ _ hgross
  exact ⟨hgross, hexcluded, hless _ (by decide) (by decide), hregross _ (by decide)⟩

end GrossUp

end BondingCurve
