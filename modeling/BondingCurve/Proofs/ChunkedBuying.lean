import BondingCurve.Command.Walkthrough
import BondingCurve.Proofs.Settlement

/-!
# Buying in chunks

The walkthrough buys one chunk after the other until the pool is complete or refuses a chunk.  `Pool.buyRound` is one
round of it, `Pool.buyRounds` a number of rounds, and `Pool.BuyingStops` says that some number of rounds is the last.

* (step) A round adds to the quote reserve what the fee leaves of the chunk (`Pool.quoteReserve_buyRound`), so `n`
  rounds add `n` times as much (`Pool.quoteReserve_buyRounds`).
* (progress) If the fee leaves anything, the threshold bounds the number of rounds (`Pool.buying_stops_of_pos`).
* (no progress) The fee is rounded up.  If it is the whole chunk, a round leaves the pool as it was, and there is no
  last one (`Pool.buyRounds_of_lessFee_eq_zero`), unless the pool has no base to pay with
  (`Pool.buyingStops_iff_of_lessFee_eq_zero`).

So the rounds come to an end exactly if a chunk pays for more than its fee (`Pool.buying_stops_iff`).  The command,
which is given by its turns, ends within some number of them exactly if the rounds do
(`Pool.exists_buyUntilComplete_iff`), at the last pool (`Pool.rounds_of_buyUntilComplete`), and from there on more turns
change nothing (`Command.walkthrough_of_le`).
-/

namespace BondingCurve

/-- A purchase of nothing pays nothing and stays at its price. -/
private theorem Curve.buy_zero {curve : Curve} {price : Int} (hstart : curve.sqrtStartPrice ≤ price)
    (hend : price ≤ curve.sqrtEndPrice) : (curve.buy price (0 : Int)).result = .ok ⟨0, price⟩ := by
  have hwalk : (buyAlong curve.slices ⟨price, 0, 0⟩).result = .ok ⟨price, 0, 0⟩ := by
    cases curve.slices <;> rfl
  have hcurve := requireOnCurve_eq_ok_iff.mpr ⟨hstart, hend⟩
  simp only [buy, Traced.result_bind, Traced.result_liftM, nonNegative_of_nonneg le_rfl, ok_bind, hcurve, hwalk]
  rfl

namespace Command

/-! ### More turns -/

variable {turns more step : Nat}

theorem buyUntilComplete_of_le {threshold chunk : Int} {pool : Pool} {purchases : Traced Purchases}
    (hle : turns ≤ more) (h : buyUntilComplete threshold chunk turns step pool = some purchases) :
    buyUntilComplete threshold chunk more step pool = some purchases := by
  induction turns generalizing more step pool purchases with
  | zero => cases h
  | succ turns ih =>
    obtain ⟨more, rfl⟩ : ∃ k, more = k + 1 := Nat.exists_eq_add_one_of_ne_zero (by omega)
    rw [buyUntilComplete] at h ⊢
    cases hturn : buyTurn threshold chunk step pool with
    | ended ended => rwa [hturn] at h
    | bought events line next =>
      rw [hturn] at h
      obtain ⟨rest, hrest, hafter⟩ := Option.bind_eq_some_iff.mp h
      exact Option.bind_eq_some_iff.mpr ⟨rest, ih (by omega) hrest, hafter⟩

private theorem buyInChunks_of_le {design : CurveDesign} {chunks : Int} {purchases : Traced Purchases}
    (hle : turns ≤ more) (h : buyInChunks turns design chunks = some purchases) :
    buyInChunks more design chunks = some purchases := by
  unfold buyInChunks at h ⊢
  by_cases hzero : chunks = 0
  · rwa [if_pos hzero] at h ⊢
  · rw [if_neg hzero] at h ⊢
    obtain ⟨bought, hbought, hafter⟩ := Option.bind_eq_some_iff.mp h
    exact Option.bind_eq_some_iff.mpr ⟨bought, buyUntilComplete_of_le hle hbought, hafter⟩

private theorem walk_of_le {settings : WalkthroughSettings} {lines : Traced (List String)} (hle : turns ≤ more)
    (h : walk turns settings = some lines) : walk more settings = some lines := by
  unfold walk Traced.andPerhaps at h ⊢
  cases hdesigns : (designScenarios settings.compact).result with
  | error e => rwa [hdesigns] at h
  | ok designs =>
    rw [hdesigns] at h
    obtain ⟨sold, hsold, hafter⟩ := Option.bind_eq_some_iff.mp h
    obtain ⟨bought, hbought, hsell⟩ := Option.bind_eq_some_iff.mp hsold
    refine Option.bind_eq_some_iff.mpr ⟨sold, ?_, hafter⟩
    exact Option.bind_eq_some_iff.mpr ⟨bought, buyInChunks_of_le hle hbought, hsell⟩

/-- Once the walkthrough has ended, more turns change nothing. -/
theorem walkthrough_of_le {arguments : List String} {outcome : Traced Outcome} (hle : turns ≤ more)
    (h : walkthrough turns arguments = some outcome) : walkthrough more arguments = some outcome := by
  unfold walkthrough at h ⊢
  cases hread : readWalkthrough arguments with
  | error halt => rwa [hread] at h
  | ok settings =>
    rw [hread] at h
    obtain ⟨walked, hwalked, hafter⟩ := Option.bind_eq_some_iff.mp h
    exact Option.bind_eq_some_iff.mpr ⟨walked, walk_of_le hle hwalked, hafter⟩

end Command

namespace Pool

open Command

/-- The pool after one more chunk; there is none if the pool is complete or refuses the chunk. -/
def buyRound (chunk : Int) (pool : Pool) : Option Pool :=
  if pool.isComplete then none
  else
    match (pool.swap (buyOrder chunk)).result with
    | .ok (_, next) => some next
    | .error _ => none

/-- The pool after a number of rounds, if there are as many. -/
def buyRounds (chunk : Int) : Nat → Pool → Option Pool
  | 0, pool => some pool
  | n + 1, pool => (pool.buyRound chunk).bind (buyRounds chunk n)

/-- There is a last round. -/
def BuyingStops (chunk : Int) (pool : Pool) : Prop :=
  ∃ n last, pool.buyRounds chunk n = some last ∧ last.buyRound chunk = none

variable {chunk : Int} {pool next last : Pool} {n : Nat}

theorem isComplete_eq_false_iff : pool.isComplete = false ↔ pool.quoteReserve < pool.design.migration.quoteAmount := by
  simp [isComplete, isCurveComplete]

theorem buyRound_eq_some_iff :
    pool.buyRound chunk = some next ↔
      pool.isComplete = false ∧ ∃ r, (pool.swap (buyOrder chunk)).result = .ok (r, next) := by
  unfold buyRound
  cases hcomplete : pool.isComplete with
  | true => simp
  | false =>
    cases hswap : (pool.swap (buyOrder chunk)).result with
    | error e => simp
    | ok outcome =>
      obtain ⟨r, pool'⟩ := outcome
      simp

theorem buyRounds_succ_eq_some_iff :
    pool.buyRounds chunk (n + 1) = some last ↔
      ∃ next, pool.buyRound chunk = some next ∧ next.buyRounds chunk n = some last := by
  rw [buyRounds, Option.bind_eq_some_iff]

/-! ### One round -/

/-- What a round changes: the reserve grows by what the fee leaves of the chunk. -/
theorem quoteReserve_buyRound (h : pool.buyRound chunk = some next) :
    next.design = pool.design ∧ next.mode = pool.mode ∧
      next.quoteReserve = pool.quoteReserve +
        lessFee (feeOnInput .quoteToBase pool.mode) pool.design.feeNumerator chunk := by
  obtain ⟨-, r, hswap⟩ := buyRound_eq_some_iff.mp h
  obtain ⟨hquote, -⟩ := swap_eq_ok_iff.mp hswap
  have hinput := (fee_of_simulateSwap hquote).1
  rcases swap_cases hswap with ⟨-, -, rfl⟩ | ⟨hsale, -, -⟩
  · exact ⟨rfl, rfl, congrArg (pool.quoteReserve + ·) hinput⟩
  · cases hsale

/-- A pool without base to pay with refuses every chunk. -/
private theorem buyRound_of_baseReserve_neg (hbase : pool.baseReserve < 0) : pool.buyRound chunk = none := by
  rw [Option.eq_none_iff_forall_ne_some]
  intro next hround
  obtain ⟨-, r, hswap⟩ := buyRound_eq_some_iff.mp hround
  obtain ⟨hquote, hsettle⟩ := swap_eq_ok_iff.mp hswap
  obtain ⟨fill, hexec⟩ := executed_of_simulateSwap hquote
  have hout : 0 ≤ fill.output := (Curve.isU64_of_trade hexec.trade).1
  simp only [settle, buyOrder, ite_error_eq_ok_iff, ← hexec.output_eq_baseOut] at hsettle
  omega

section NoProgress

variable (hfee : 0 ≤ pool.design.feeNumerator ∧ pool.design.feeNumerator ≤ maxFeeNumerator)
  (hmode : pool.mode = .quoteToken) (hchunk : IsU64 chunk)
  (hstart : pool.design.curve.sqrtStartPrice ≤ pool.sqrtPrice)
  (hend : pool.sqrtPrice ≤ pool.design.curve.sqrtEndPrice)
  (hopen : pool.isComplete = false) (hnet : lessFee true pool.design.feeNumerator chunk = 0)
include hfee hmode hchunk hstart hend hopen hnet

/-- A round whose fee is the whole chunk leaves the pool as it was. -/
private theorem buyRound_of_lessFee_eq_zero (hbase : 0 ≤ pool.baseReserve) : pool.buyRound chunk = some pool := by
  have htrade : (pool.design.curve.trade pool.sqrtPrice (lessFee (feeOnInput .quoteToBase pool.mode)
      pool.design.feeNumerator chunk) .quoteToBase).result = .ok ⟨0, pool.sqrtPrice⟩ := by
    rw [hmode]
    show (pool.design.curve.buy pool.sqrtPrice (lessFee true pool.design.feeNumerator chunk)).result = _
    rw [hnet]
    exact Curve.buy_zero hstart hend
  obtain ⟨r, hquote, hout, hprice⟩ := simulateSwap_of_trade hfee hchunk false htrade
  obtain ⟨hinput, -⟩ := fee_of_simulateSwap hquote
  obtain ⟨_, hexec⟩ := executed_of_simulateSwap hquote
  have honInput := hexec.feeOnInput
  rw [hmode] at hout hinput honInput
  have hinput₀ : r.actualInput = 0 := hinput.trans hnet
  have hbase₀ : r.baseOut = 0 := by
    rw [SwapResult.baseOut, honInput]
    exact hout
  obtain ⟨next, hswap⟩ : ∃ next, (pool.swap (buyOrder chunk)).result = .ok (r, next) :=
    swap_bought rfl hquote (by omega)
  rw [buyRound_eq_some_iff]
  refine ⟨hopen, r, ?_⟩
  rcases swap_cases hswap with ⟨-, -, rfl⟩ | ⟨hsale, -, -⟩
  · rw [hswap, hinput₀, hbase₀, hprice, sub_zero, add_zero]
  · cases hsale

/-- Rounds whose fee is the whole chunk go on for ever. -/
theorem buyRounds_of_lessFee_eq_zero (hbase : 0 ≤ pool.baseReserve) (n : Nat) :
    pool.buyRounds chunk n = some pool := by
  induction n with
  | zero => rfl
  | succ n ih =>
    rw [buyRounds, buyRound_of_lessFee_eq_zero hfee hmode hchunk hstart hend hopen hnet hbase]
    exact ih

private theorem not_buyingStops_of_lessFee_eq_zero (hbase : 0 ≤ pool.baseReserve) : ¬pool.BuyingStops chunk := by
  rintro ⟨n, last, hrounds, hlast⟩
  rw [buyRounds_of_lessFee_eq_zero hfee hmode hchunk hstart hend hopen hnet hbase] at hrounds
  obtain rfl : pool = last := Option.some.inj hrounds
  rw [buyRound_of_lessFee_eq_zero hfee hmode hchunk hstart hend hopen hnet hbase] at hlast
  cases hlast

/-- Then only a pool without base to pay with stops the rounds. -/
theorem buyingStops_iff_of_lessFee_eq_zero : pool.BuyingStops chunk ↔ pool.baseReserve < 0 := by
  constructor
  · intro hstops
    by_contra hbase
    exact not_buyingStops_of_lessFee_eq_zero hfee hmode hchunk hstart hend hopen hnet (not_lt.mp hbase) hstops
  · intro hdebt
    exact ⟨0, pool, rfl, buyRound_of_baseReserve_neg hdebt⟩

end NoProgress

/-! ### Any number of rounds -/

/-- What a number of rounds change. -/
theorem quoteReserve_buyRounds (h : pool.buyRounds chunk n = some last) :
    last.design = pool.design ∧ last.mode = pool.mode ∧
      last.quoteReserve = pool.quoteReserve +
        n * lessFee (feeOnInput .quoteToBase pool.mode) pool.design.feeNumerator chunk := by
  induction n generalizing pool with
  | zero =>
    obtain rfl : pool = last := Option.some.inj h
    simp
  | succ n ih =>
    obtain ⟨next, hround, hrest⟩ := buyRounds_succ_eq_some_iff.mp h
    obtain ⟨hdesign, hmode, hreserve⟩ := quoteReserve_buyRound hround
    obtain ⟨hdesign', hmode', hreserve'⟩ := ih hrest
    rw [hdesign, hmode, hreserve] at hreserve'
    refine ⟨hdesign'.trans hdesign, hmode'.trans hmode, ?_⟩
    rw [hreserve']
    push_cast
    ring

/-- If the fee leaves a part of the chunk, there are no more rounds than units up to the threshold. -/
theorem buying_stops_of_pos
    (hnet : 0 < lessFee (feeOnInput .quoteToBase pool.mode) pool.design.feeNumerator chunk) {k : Nat}
    (hk : pool.design.migration.quoteAmount - pool.quoteReserve ≤ k) :
    ∃ n ≤ k, ∃ last, pool.buyRounds chunk n = some last ∧ last.buyRound chunk = none := by
  induction k generalizing pool with
  | zero =>
    refine ⟨0, le_rfl, pool, rfl, ?_⟩
    rw [Option.eq_none_iff_forall_ne_some]
    intro next hround
    have hopen := isComplete_eq_false_iff.mp (buyRound_eq_some_iff.mp hround).1
    push_cast at hk
    omega
  | succ k ih =>
    cases hround : pool.buyRound chunk with
    | none => exact ⟨0, by omega, pool, rfl, hround⟩
    | some next =>
      obtain ⟨hdesign, hmode, hreserve⟩ := quoteReserve_buyRound hround
      have hcloser : next.design.migration.quoteAmount - next.quoteReserve ≤ k := by
        rw [hdesign, hreserve]
        push_cast at hk
        omega
      rw [← hdesign, ← hmode] at hnet
      obtain ⟨n, hn, last, hrounds, hlast⟩ := ih hnet hcloser
      exact ⟨n + 1, by omega, last, buyRounds_succ_eq_some_iff.mpr ⟨next, hround, hrounds⟩, hlast⟩

/-! ### The chunks of the walkthrough -/

/-- The fee leaves a part of a chunk exactly if the chunk pays for the rest of the fee's denominator. -/
private theorem lessFee_pos_iff {numerator : Int} (hn : numerator ≤ maxFeeNumerator) :
    0 < lessFee true numerator chunk ↔ feeDenominator ≤ chunk * (feeDenominator - numerator) := by
  have hrest : 0 < feeDenominator - numerator := by
    have hlt : maxFeeNumerator < feeDenominator := by decide
    omega
  have hgross : grossUp numerator 1 ≤ chunk ↔ 1 * feeDenominator ≤ chunk * (feeDenominator - numerator) :=
    ceilDiv_le_iff hrest
  rw [one_mul] at hgross
  rw [← hgross, grossUp_le_iff hn]
  exact Int.lt_iff_add_one_le

/-- A chunk that its fee takes up is small. -/
private theorem isU64_of_lessFee_eq_zero {numerator : Int} (hn : numerator ≤ maxFeeNumerator) (hchunk : 0 ≤ chunk)
    (hnet : lessFee true numerator chunk = 0) : IsU64 chunk := by
  have hsmall : chunk * (feeDenominator - numerator) < feeDenominator := by
    rw [← not_le, ← lessFee_pos_iff hn, hnet]
    exact lt_irrefl 0
  have hrest : 10000000 ≤ feeDenominator - numerator := by
    simp only [maxFeeNumerator, feeDenominator] at *
    omega
  have hle : chunk * 10000000 ≤ chunk * (feeDenominator - numerator) := Int.mul_le_mul_of_nonneg_left hrest hchunk
  have hbound : chunk ≤ 100 := by
    simp only [feeDenominator] at *
    omega
  exact ⟨hchunk, hbound.trans (by decide)⟩

/-! ### The command -/

section Command

variable {threshold : Int} {turns step : Nat} {purchases : Traced Purchases}
  (hthreshold : pool.design.migration.quoteAmount = threshold)
include hthreshold

variable (chunk step) in
/-- A turn of the command is a round, or ends the command where there is no round. -/
private theorem buyTurn_cases :
    (∃ events line next, buyTurn threshold chunk step pool = .bought events line next ∧
      pool.buyRound chunk = some next) ∨
    ∃ purchases, buyTurn threshold chunk step pool = .ended purchases ∧ pool.buyRound chunk = none ∧
      ∀ bought, purchases.result = .ok bought → bought.pool = pool := by
  have hcomplete : isCurveComplete pool.quoteReserve threshold = pool.isComplete := by
    rw [isComplete, hthreshold]
  rw [buyTurn, hcomplete, buyRound]
  cases pool.isComplete with
  | true => exact .inr ⟨_, rfl, rfl, by rintro _ ⟨⟩; rfl⟩
  | false =>
    simp only [Bool.false_eq_true, if_false]
    cases (pool.swap (buyOrder chunk)).result with
    | ok outcome => exact .inl ⟨_, _, _, rfl, rfl⟩
    | error e =>
      right
      split
      · exact ⟨_, rfl, rfl, by rintro _ ⟨⟩; rfl⟩
      · exact ⟨_, rfl, rfl, by rintro _ ⟨⟩⟩
      · rename_i hok
        cases hok

/-- If there is a last round, the command ends in the turn after it. -/
private theorem exists_buyUntilComplete_of_rounds (hrounds : pool.buyRounds chunk n = some last)
    (hlast : last.buyRound chunk = none) :
    ∃ purchases, buyUntilComplete threshold chunk (n + 1) step pool = some purchases := by
  induction n generalizing pool step with
  | zero =>
    obtain rfl : pool = last := Option.some.inj hrounds
    obtain ⟨_, _, _, -, hround⟩ | ⟨ended, hturn, -, -⟩ := buyTurn_cases chunk step hthreshold
    · rw [hlast] at hround
      cases hround
    · exact ⟨ended, by rw [buyUntilComplete, hturn]⟩
  | succ n ih =>
    obtain ⟨next, hround, hrest⟩ := buyRounds_succ_eq_some_iff.mp hrounds
    have hdesign := (quoteReserve_buyRound hround).1
    obtain ⟨rest, hgoes⟩ := @ih next (step + 1) (by rw [hdesign, hthreshold]) hrest
    obtain ⟨_, _, next', hturn, hround'⟩ | ⟨_, -, hnone, -⟩ := buyTurn_cases chunk step hthreshold
    · obtain rfl : next = next' := Option.some.inj (hround.symm.trans hround')
      rw [buyUntilComplete, hturn]
      dsimp only
      rw [hgoes]
      exact ⟨_, rfl⟩
    · rw [hround] at hnone
      cases hnone

/-- What the command returns was bought in rounds, up to the last one. -/
theorem rounds_of_buyUntilComplete (h : buyUntilComplete threshold chunk turns step pool = some purchases) :
    ∃ n last, pool.buyRounds chunk n = some last ∧ last.buyRound chunk = none ∧
      ∀ bought, purchases.result = .ok bought → bought.pool = last := by
  induction turns generalizing step pool purchases with
  | zero => cases h
  | succ turns ih =>
    rw [buyUntilComplete] at h
    obtain ⟨events, line, next, hturn, hround⟩ | ⟨ended, hturn, hnone, hpool⟩ := buyTurn_cases chunk step hthreshold
    · rw [hturn] at h
      obtain ⟨rest, hrest, hafter⟩ := Option.bind_eq_some_iff.mp h
      obtain ⟨n, last, hrounds, hlast, hpool⟩ := ih (by rw [(quoteReserve_buyRound hround).1, hthreshold]) hrest
      refine ⟨n + 1, last, buyRounds_succ_eq_some_iff.mpr ⟨next, hround, hrounds⟩, hlast, ?_⟩
      obtain rfl := Option.some.inj hafter
      intro bought hbought
      obtain ⟨p, hresult, rfl⟩ := map_eq_ok_iff.mp hbought
      exact hpool p hresult
    · rw [hturn] at h
      obtain rfl : ended = purchases := Option.some.inj h
      exact ⟨0, pool, rfl, hnone, hpool⟩

/-- The command ends exactly if the rounds do. -/
theorem exists_buyUntilComplete_iff :
    (∃ turns purchases, buyUntilComplete threshold chunk turns step pool = some purchases) ↔
      pool.BuyingStops chunk := by
  constructor
  · rintro ⟨turns, purchases, h⟩
    obtain ⟨n, last, hrounds, hlast, -⟩ := rounds_of_buyUntilComplete hthreshold h
    exact ⟨n, last, hrounds, hlast⟩
  · rintro ⟨n, last, hrounds, hlast⟩
    exact ⟨n + 1, exists_buyUntilComplete_of_rounds hthreshold hrounds hlast⟩

end Command

/-- The rounds of the walkthrough come to an end exactly if a chunk pays for more than its fee, or if the pool has no
base to pay with.  Each round that is made adds what the fee leaves of a chunk, and the command ends exactly if the
rounds do, with the last one. -/
theorem buying_stops_iff (design : CurveDesign) {chunks : Int}
    (hfee : 0 ≤ design.feeNumerator ∧ design.feeNumerator ≤ maxFeeNumerator)
    (hthreshold : 1 ≤ design.migration.quoteAmount) (hchunks : 1 ≤ chunks) :
    let chunk := design.migration.quoteAmount.fdiv chunks + 1
    let pool := start design .quoteToken
    (pool.BuyingStops chunk ↔
      feeDenominator ≤ chunk * (feeDenominator - design.feeNumerator) ∨
        design.supply.swapAmount + design.supply.migrationAmount < 0) ∧
    (∀ n last next, pool.buyRounds chunk n = some last → last.buyRound chunk = some next →
      next.quoteReserve = last.quoteReserve + lessFee true design.feeNumerator chunk) ∧
    ((∃ turns purchases, buyUntilComplete design.migration.quoteAmount chunk turns 0 pool = some purchases) ↔
      pool.BuyingStops chunk) ∧
    (∀ turns purchases bought,
      buyUntilComplete design.migration.quoteAmount chunk turns 0 pool = some purchases →
      purchases.result = .ok bought →
        ∃ n, pool.buyRounds chunk n = some bought.pool ∧ bought.pool.buyRound chunk = none) := by
  intro chunk pool
  have hchunk : 0 ≤ chunk := by
    have hshare : 0 ≤ design.migration.quoteAmount.fdiv chunks := Int.fdiv_nonneg (by omega) (by omega)
    omega
  have hopen : pool.isComplete = false := isComplete_eq_false_iff.mpr hthreshold
  have hadds : ∀ n last next, pool.buyRounds chunk n = some last → last.buyRound chunk = some next →
      next.quoteReserve = last.quoteReserve + lessFee true design.feeNumerator chunk := by
    intro n last next hrounds hround
    obtain ⟨hdesign, hmode, -⟩ := quoteReserve_buyRounds hrounds
    have hreserve := (quoteReserve_buyRound hround).2.2
    rwa [hdesign, hmode] at hreserve
  have hstart : pool.design.migration.quoteAmount = design.migration.quoteAmount := rfl
  refine ⟨?_, hadds, exists_buyUntilComplete_iff hstart, ?_⟩
  · rw [← lessFee_pos_iff hfee.2]
    rcases (lessFee_nonneg hfee true hchunk).eq_or_lt with hnone | hpos
    · -- A round changes nothing, if there is one.
      have hcurve := design.curve.slices_ascending.le
      have hstops : pool.BuyingStops chunk ↔ design.supply.swapAmount + design.supply.migrationAmount < 0 :=
        buyingStops_iff_of_lessFee_eq_zero hfee rfl (isU64_of_lessFee_eq_zero hfee.2 hchunk hnone.symm) le_rfl hcurve
          hopen hnone.symm
      rw [hstops, ← hnone]
      simp
    · have hnet : 0 < lessFee (feeOnInput .quoteToBase pool.mode) pool.design.feeNumerator chunk := hpos
      have hunits : design.migration.quoteAmount - pool.quoteReserve ≤ design.migration.quoteAmount.toNat := by
        show design.migration.quoteAmount - 0 ≤ _
        omega
      obtain ⟨n, -, last, hrounds, hlast⟩ := buying_stops_of_pos hnet hunits
      exact ⟨fun _ => .inl hpos, fun _ => ⟨n, last, hrounds, hlast⟩⟩
  · intro turns purchases bought h hbought
    obtain ⟨n, last, hrounds, hlast, hpool⟩ := rounds_of_buyUntilComplete hstart h
    rw [hpool bought hbought]
    exact ⟨n, hrounds, hlast⟩

/-- A threshold of one unit. -/
def unitDesign : CurveDesign where
  curve := .gapped
  migration := ⟨1, 2 ^ 64 + 1⟩
  supply := ⟨60000, 10000, 0, 0⟩
  totalSupply := 70000
  migrationOption := .constantProduct
  baseDecimals := 6
  quoteDecimals := 9
  vesting := .nothing
  feeNumerator := defaultFeeNumerator

/-- In one chunk the threshold is met; in two chunks of one unit each the fee takes up every chunk, and the command
does not end. -/
theorem buying_stops_iff_unit :
    (start unitDesign .quoteToken).BuyingStops ((1 : Int).fdiv 1 + 1) ∧
      (∃ turns purchases,
        buyUntilComplete 1 ((1 : Int).fdiv 1 + 1) turns 0 (start unitDesign .quoteToken) = some purchases) ∧
      ¬(start unitDesign .quoteToken).BuyingStops ((1 : Int).fdiv 2 + 1) ∧
      ∀ turns, buyUntilComplete 1 ((1 : Int).fdiv 2 + 1) turns 0 (start unitDesign .quoteToken) = none := by
  obtain ⟨hone, -, hends, -⟩ := @buying_stops_iff unitDesign 1 (by decide) (by decide) (by decide)
  obtain ⟨htwo, -, hends', -⟩ := @buying_stops_iff unitDesign 2 (by decide) (by decide) (by decide)
  have hstops := hone.mpr (by decide)
  have hgoes : ¬(start unitDesign .quoteToken).BuyingStops ((1 : Int).fdiv 2 + 1) :=
    fun h => absurd (htwo.mp h) (by decide)
  refine ⟨hstops, hends.mpr hstops, hgoes, ?_⟩
  intro turns
  rw [Option.eq_none_iff_forall_ne_some]
  intro purchases h
  exact hgoes (hends'.mp ⟨turns, purchases, h⟩)

/-- Not all rounds come to an end, at whatever valid fee, threshold and number of chunks. -/
theorem not_buying_stops_always :
    ¬∀ (design : CurveDesign) (chunks : Int), 0 ≤ design.feeNumerator ∧ design.feeNumerator ≤ maxFeeNumerator →
      1 ≤ design.migration.quoteAmount → 1 ≤ chunks →
        (start design .quoteToken).BuyingStops (design.migration.quoteAmount.fdiv chunks + 1) := by
  intro hall
  have hstops := hall unitDesign 2 (by decide) (by decide) (by decide)
  exact not_buyingStops_of_lessFee_eq_zero (by decide) rfl (by decide) le_rfl (by decide) rfl (by decide) (by decide)
    hstops

end Pool

end BondingCurve
