import BondingCurve.Command.Arguments
import BondingCurve.Decimal.Text
import BondingCurve.Ledger
import BondingCurve.Text.Integer

/-!
# Settings of the design command

The command designs a linear or a graph curve. Both kinds share the options of the token pair, the fee and the
vesting; `specsOf` adds the options of the kind. An option without a default is required.
-/

namespace BondingCurve.Command

/-- The kinds of design. -/
inductive DesignKind
  | linear
  | graph
  deriving DecidableEq

/-- The kind of a name. -/
def DesignKind.ofName? (name : String) : Option DesignKind :=
  if name = "linear" then some .linear else if name = "graph" then some .graph else none

/-- The values of all options. -/
structure Settings where
  supply : Option Numeral := none
  migrationPercentage : Option Numeral := none
  threshold : Option Numeral := none
  initialMarketCap : Option Numeral := none
  migrationMarketCap : Option Numeral := none
  leftover : Option Numeral := none
  factor : Numeral := .finite (.ofInt 1)
  migrationOption : Int := 0
  baseDecimals : Int := 6
  quoteDecimals : Int := 9
  feeNumerator : Int := defaultFeeNumerator
  bufferPercentage : Int := defaultBufferPercentage
  vestingAmountPerPeriod : Int := 0
  vestingCliffDuration : Int := 0
  vestingFrequency : Int := 0
  vestingPeriods : Int := 0
  vestingCliffAmount : Int := 0
  verbose : Bool := false

/-- The options of every kind of design. -/
def commonSpecs : List OptionSpec :=
  [⟨"--supply", .value⟩, ⟨"--migration-option", .value⟩, ⟨"--base-decimals", .value⟩, ⟨"--quote-decimals", .value⟩,
    ⟨"--fee-numerator", .value⟩, ⟨"--buffer-pct", .value⟩, ⟨"--vesting-amount-per-period", .value⟩,
    ⟨"--vesting-cliff-duration", .value⟩, ⟨"--vesting-frequency", .value⟩, ⟨"--vesting-periods", .value⟩,
    ⟨"--vesting-cliff-amount", .value⟩, ⟨"--verbose", .flag⟩]

/-- The options of a kind of design. -/
def specsOf : DesignKind → List OptionSpec
  | .linear => commonSpecs ++ [⟨"--migration-pct", .value⟩, ⟨"--threshold", .value⟩]
  | .graph => commonSpecs ++
      [⟨"--initial-mcap", .value⟩, ⟨"--migration-mcap", .value⟩, ⟨"--k", .value⟩, ⟨"--leftover", .value⟩]

/-- A decimal value; what is no decimal fails at once. -/
def readNumeral (text : String) : Except Halt Numeral :=
  match Numeral.ofText? text with
  | some value => .ok value
  | none => .error (.failed (.arithmetic .invalidOperation))

/-- An integer value; what is no integer is refused. -/
def readInteger (text : String) : Except Halt Int :=
  match Text.integer? text with
  | some value => .ok value
  | none => .error .refused

/-- A migration option, zero or one. -/
def readOption (text : String) : Except Halt Int := do
  let value ← readInteger text
  if value = 0 ∨ value = 1 then pure value else .error .refused

namespace Settings

/-- The settings with the value of an option. -/
def assign (spec : OptionSpec) (text : String) (s : Settings) : Except Halt Settings :=
  match spec.name with
  | "--supply" => do pure { s with supply := ← readNumeral text }
  | "--migration-pct" => do pure { s with migrationPercentage := ← readNumeral text }
  | "--threshold" => do pure { s with threshold := ← readNumeral text }
  | "--initial-mcap" => do pure { s with initialMarketCap := ← readNumeral text }
  | "--migration-mcap" => do pure { s with migrationMarketCap := ← readNumeral text }
  | "--leftover" => do pure { s with leftover := ← readNumeral text }
  | "--k" => do pure { s with factor := ← readNumeral text }
  | "--migration-option" => do pure { s with migrationOption := ← readOption text }
  | "--base-decimals" => do pure { s with baseDecimals := ← readInteger text }
  | "--quote-decimals" => do pure { s with quoteDecimals := ← readInteger text }
  | "--fee-numerator" => do pure { s with feeNumerator := ← readInteger text }
  | "--buffer-pct" => do pure { s with bufferPercentage := ← readInteger text }
  | "--vesting-amount-per-period" => do pure { s with vestingAmountPerPeriod := ← readInteger text }
  | "--vesting-cliff-duration" => do pure { s with vestingCliffDuration := ← readInteger text }
  | "--vesting-frequency" => do pure { s with vestingFrequency := ← readInteger text }
  | "--vesting-periods" => do pure { s with vestingPeriods := ← readInteger text }
  | "--vesting-cliff-amount" => do pure { s with vestingCliffAmount := ← readInteger text }
  | _ => .error .refused

/-- The settings with a flag set; the only flag asks for the summary. -/
def raiseFlag (_ : OptionSpec) (s : Settings) : Settings :=
  { s with verbose := true }

end Settings

/-- The kind and the remaining arguments of a command line, and whether unknown texts stand before the kind. -/
def readKind : List String → Except Halt (DesignKind × List String × Bool)
  | [] => .error .refused
  | text :: rest =>
    if text = "--" then .error .refused
    else do
      match ← classifyOne helpOptions text with
      | .argument name =>
        match DesignKind.ofName? name with
        | some kind => pure (kind, rest, false)
        | none => .error .refused
      | .option spec attached => .error (helpHalt spec attached)
      | _ => do
        let (kind, arguments, _) ← readKind rest
        pure (kind, arguments, true)

end BondingCurve.Command
