import BondingCurve.Command.DesignCommand
import BondingCurve.Pool

/-!
# The walkthrough command

The walkthrough designs a linear and a graph curve, buys along the graph curve in equal chunks until the migration
threshold is met, and sells one percent of the released base back. `walkthrough` is the whole command: its lines of
output as a function of its arguments.

The purchases stop at the threshold or at the end of the curve. A chunk that its fee takes up brings them to neither, so
they may go on for ever. The command is therefore given by its turns (`buyUntilComplete`): it is `some` computation once
the purchases have ended within a number of turns, and `none` before, which is what it stays if they never end.
-/

namespace BondingCurve.Command

/-! ### Lines -/

/-- A number with at least two digits. -/
def twoDigits (n : Nat) : String :=
  if n < 10 then "0" ++ toString n else toString n

/-- The lines of the slices of a curve. -/
def sliceLines (slices : List Slice) : List String :=
  slices.map fun s => s!"  • seg[{twoDigits s.index}] ({s.lower}, {s.upper}] L={s.liquidity}"

/-- The lines of a design. -/
def designLines (title : String) (d : CurveDesign) (withSlices : Bool) : Except CurveError (List String) := do
  let start ← shortPrice d d.curve.sqrtStartPrice
  let migration ← shortPrice d d.migration.sqrtPrice
  let s := d.supply
  pure <| [
    "",
    s!"=== {title} ===",
    s!"- start price     : {start}",
    s!"- migration price : {migration}",
    s!"- threshold       : {d.migration.quoteAmount}",
    s!"- supply          : swap={s.swapAmount} migration={s.migrationAmount} " ++
      s!"vesting={s.vestingAmount} leftover={s.leftoverAmount} (total={s.total})"]
    ++ if withSlices then sliceLines d.curve.slices else []

/-- The text of a truth value. -/
def truthText (value : Bool) : String :=
  if value then "True" else "False"

/-- The line of a pool. -/
def poolLine (tag : String) (pool : Pool) : Except CurveError String := do
  let price ← shortPrice pool.design pool.sqrtPrice
  pure (s!"  [{tag}] price={price} base_reserve={pool.baseReserve} " ++
    s!"quote_reserve={pool.quoteReserve} complete={truthText pool.isComplete}")

/-! ### Scenarios -/

/-- The vesting of the linear scenario. -/
def scenarioVesting : Except CurveError Vesting :=
  Vesting.ofInts 123456 0 1 120 123456

/-- The linear scenario. -/
def linearScenario (vesting : Vesting) : LinearMarket where
  supply := .int 1000000000
  migrationPercentage := .int 10
  threshold := .int 300
  option := .int 0
  baseDecimals := 6
  quoteDecimals := 9
  vesting := vesting

/-- The graph scenario. -/
def graphScenario : GraphMarket where
  supply := .int 1000000000
  initialMarketCap := .int 30
  migrationMarketCap := .int 300
  option := .int 0
  baseDecimals := 6
  quoteDecimals := 9
  vesting := .nothing
  leftover := .int 10000
  factor := .text "1.2"

/-- What a series of purchases leaves: its lines, and the pool at its end. -/
structure Purchases where
  lines : List String
  pool : Pool

/-- The line of a purchase. -/
def purchaseLine (step : Nat) (r : SwapResult) : String :=
  s!"  buy#{twoDigits step} in={r.amountIn} out={r.output} fee={r.totalFee}"

/-- An order to buy without referrer. -/
def buyOrder (chunk : Int) : Order :=
  ⟨chunk, .quoteToBase, false⟩

/-- What one turn of the purchases comes to: their end, or a purchase and the pool after it. -/
inductive Turn
  | ended (purchases : Traced Purchases)
  | bought (events : List Event) (line : String) (next : Pool)

/-- Buys one chunk, unless the quote reserve has reached a threshold. -/
def buyTurn (threshold chunk : Int) (step : Nat) (pool : Pool) : Turn :=
  if isCurveComplete pool.quoteReserve threshold then .ended (pure ⟨[], pool⟩)
  else
    let attempt := pool.swap (buyOrder chunk)
    match attempt.result with
    | .error (.insufficientLiquidity requested available remaining) =>
      let e := CurveError.insufficientLiquidity requested available remaining
      .ended ⟨attempt.events, .ok ⟨[s!"  curve exhausted: {e.message}"], pool⟩⟩
    | .error e => .ended ⟨attempt.events, .error e⟩
    | .ok (r, next) => .bought attempt.events (purchaseLine (step + 1) r) next

/-- Buys chunks until the quote reserve reaches a threshold or the curve is exhausted, if a number of turns is enough
for that. -/
def buyUntilComplete (threshold chunk : Int) : (turns step : Nat) → Pool → Option (Traced Purchases)
  | 0, _, _ => none
  | turns + 1, step, pool =>
    match buyTurn threshold chunk step pool with
    | .ended purchases => some purchases
    | .bought events line next => do
      let rest ← buyUntilComplete threshold chunk turns (step + 1) next
      some ⟨events ++ rest.events, rest.result.map fun p => ⟨line :: p.lines, p.pool⟩⟩

/-- Buys along a design in a number of chunks, if a number of turns is enough. -/
def buyInChunks (turns : Nat) (design : CurveDesign) (chunks : Int) : Option (Traced Purchases) :=
  if chunks = 0 then some (Traced.fail .zeroDivisor)
  else do
    let threshold := design.migration.quoteAmount
    let purchases ← buyUntilComplete threshold (threshold.fdiv chunks + 1) turns 0 (.start design .quoteToken)
    some do
      let bought ← purchases
      let line ← poolLine "after buys" bought.pool
      pure ⟨["", s!"=== S3 Buy in {chunks} chunks until migration ==="] ++ bought.lines ++ [line], bought.pool⟩

/-- Sells one percent of the base that a pool released. -/
def sellPercent (pool : Pool) : Traced (List String) := do
  let released := pool.design.supply.swapAmount + pool.design.supply.migrationAmount - pool.baseReserve
  let (r, next) ← pool.swap ⟨max (released / 100) 1, .baseToQuote, false⟩
  let line ← poolLine "after sell" next
  pure ["", "=== S4 Sell 1% of released base ===",
    s!"  sell in={r.amountIn} out={r.output} fee={r.totalFee}", line]

/-! ### The command -/

/-- The settings of the walkthrough. -/
structure WalkthroughSettings where
  chunks : Int := 8
  compact : Bool := false

/-- The options of the walkthrough. -/
def walkthroughSpecs : List OptionSpec :=
  [⟨"--chunks", .value⟩, ⟨"--compact", .flag⟩]

/-- The settings of a command line. -/
def readWalkthrough (arguments : List String) : Except Halt WalkthroughSettings := do
  let (settings, unknown) ← readAll walkthroughSpecs
    (fun _ text s => do pure { s with chunks := ← readInteger text })
    (fun _ s => { s with compact := true }) arguments {}
  if unknown then .error .refused else pure settings

/-- The lines of both designs, and the graph design. -/
def designScenarios (compact : Bool) : Traced (List String × CurveDesign) := do
  let linear ← (linearScenario (← scenarioVesting)).design
  let linearLines ← designLines "S1 Linear design" linear true
  let graph ← graphScenario.design
  let graphLines ← designLines "S2 Graph design (k=1.2)" graph (!compact)
  pure (linearLines ++ graphLines, graph)

/-- The lines of the walkthrough, if its purchases end within a number of turns. -/
def walk (turns : Nat) (settings : WalkthroughSettings) : Option (Traced (List String)) :=
  (designScenarios settings.compact).andPerhaps fun (lines, graph) => do
    let purchases ← buyInChunks turns graph settings.chunks
    some do
      let bought ← purchases
      let soldLines ← sellPercent bought.pool
      pure (lines ++ bought.lines ++ soldLines)

/-- The walkthrough command, if its purchases end within a number of turns; its output ends with a line break. -/
def walkthrough (turns : Nat) (arguments : List String) : Option (Traced Outcome) :=
  match readWalkthrough arguments with
  | .error halt => some (Traced.ofExcept halt.outcome)
  | .ok settings => do
    let walked ← walk turns settings
    some do
      let lines ← walked
      pure (.printed ("\n".intercalate lines ++ "\n") "")

end BondingCurve.Command
