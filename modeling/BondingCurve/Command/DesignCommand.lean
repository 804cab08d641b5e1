import BondingCurve.Command.Settings
import BondingCurve.Design.Graph
import BondingCurve.Design.Linear

/-!
# The design command

The command reads its arguments, designs a curve, and prints the report of the design; on request it adds a summary
for people. `run` is the whole command as a function of its arguments.
-/

namespace BondingCurve.Command

/-- How a command ends, unless it fails. -/
inductive Outcome
  /-- Without a result, with an exit code. -/
  | exit (code : Nat)
  /-- With texts for the two outputs. -/
  | printed (output summary : String)

/-- The outcome of a halt. -/
def Halt.outcome : Halt → Except CurveError Outcome
  | .refused => .ok (.exit 2)
  | .help => .ok (.exit 0)
  | .failed error => .error error

/-- A design that is fully specified. -/
inductive Request
  | linear (market : LinearMarket)
  | graph (market : GraphMarket)

/-- The design of a request. -/
def Request.design : Request → Traced CurveDesign
  | linear market => market.design
  | graph market => market.design

namespace Settings

/-- The vesting schedule of the settings. -/
def vesting (s : Settings) : Except CurveError Vesting :=
  Vesting.ofInts s.vestingAmountPerPeriod s.vestingCliffDuration s.vestingFrequency s.vestingPeriods
    s.vestingCliffAmount

/-- The request of the settings, given the vesting; nothing if a required option is missing. -/
def request? (s : Settings) : DesignKind → Option (Vesting → Request)
  | .linear => do
    let supply ← s.supply
    let percentage ← s.migrationPercentage
    let threshold ← s.threshold
    pure fun vesting => .linear {
      supply := .decimal supply
      migrationPercentage := .decimal percentage
      threshold := .decimal threshold
      option := .int s.migrationOption
      baseDecimals := s.baseDecimals
      quoteDecimals := s.quoteDecimals
      vesting
      feeNumerator := s.feeNumerator
      bufferPercentage := s.bufferPercentage }
  | .graph => do
    let supply ← s.supply
    let initial ← s.initialMarketCap
    let migration ← s.migrationMarketCap
    let leftover ← s.leftover
    pure fun vesting => .graph {
      supply := .decimal supply
      initialMarketCap := .decimal initial
      migrationMarketCap := .decimal migration
      option := .int s.migrationOption
      baseDecimals := s.baseDecimals
      quoteDecimals := s.quoteDecimals
      vesting
      leftover := .decimal leftover
      factor := .decimal s.factor
      feeNumerator := s.feeNumerator
      bufferPercentage := s.bufferPercentage }

end Settings

/-- The settings and the request of a command line. -/
def read (arguments : List String) : Except Halt (Settings × (Vesting → Request)) := do
  let (kind, rest, stray) ← readKind arguments
  let (settings, unknown) ← readAll (specsOf kind) Settings.assign Settings.raiseFlag rest {}
  match settings.request? kind with
  | none => .error .refused
  | some request => if stray || unknown then .error .refused else pure (settings, request)

/-- The price of a sqrt price of a design, with six places. -/
def shortPrice (d : CurveDesign) (sqrtPrice : Int) : Except CurveError String := do
  pure ((← priceOfSqrtPrice sqrtPrice d.baseDecimals d.quoteDecimals).scientific 6)

/-- The summary of a design. -/
def summary (d : CurveDesign) : Except CurveError String := do
  let start ← shortPrice d d.curve.sqrtStartPrice
  let migration ← shortPrice d d.migration.sqrtPrice
  pure <| "\n".intercalate [
    s!"segments           : {d.curve.segments.length}",
    s!"start price        : {start}",
    s!"migration price    : {migration}",
    s!"migration threshold: {d.migration.quoteAmount}",
    s!"swap / migration   : {d.supply.swapAmount} / {d.supply.migrationAmount}",
    s!"vesting / leftover : {d.supply.vestingAmount} / {d.supply.leftoverAmount}"]

/-- The design command. -/
def run (arguments : List String) : Traced Outcome :=
  match read arguments with
  | .error halt => Traced.ofExcept halt.outcome
  | .ok (settings, request) => do
    let vesting ← settings.vesting
    let design ← (request vesting).design
    let output := design.toDocument.toText ++ "\n"
    if settings.verbose then do
      let text ← summary design
      pure (.printed output (text ++ "\n"))
    else pure (.printed output "")

end BondingCurve.Command
