import BondingCurve.Amount
import BondingCurve.Command.Arguments
import BondingCurve.Command.DesignCommand
import BondingCurve.Command.Settings
import BondingCurve.Command.Walkthrough
import BondingCurve.Curve.Basic
import BondingCurve.Curve.Swap
import BondingCurve.Curve.Walk
import BondingCurve.Decimal.Arithmetic
import BondingCurve.Decimal.Basic
import BondingCurve.Decimal.Enclosure
import BondingCurve.Decimal.Exponential
import BondingCurve.Decimal.Logarithm
import BondingCurve.Decimal.Root
import BondingCurve.Decimal.Round
import BondingCurve.Decimal.Text
import BondingCurve.Design.Basic
import BondingCurve.Design.Boundaries
import BondingCurve.Design.Graph
import BondingCurve.Design.Linear
import BondingCurve.Document
import BondingCurve.Error
import BondingCurve.Event
import BondingCurve.Fee
import BondingCurve.Integral
import BondingCurve.Ledger
import BondingCurve.Main
import BondingCurve.Migration.Fee
import BondingCurve.Migration.Reserve
import BondingCurve.Migration.Venue
import BondingCurve.Pool
import BondingCurve.Pool.Session
import BondingCurve.Price
import BondingCurve.Rounding
import BondingCurve.Scalar
import BondingCurve.Supply
import BondingCurve.Text.Blank
import BondingCurve.Text.Digit
import BondingCurve.Text.Integer
import BondingCurve.Text.Printable
import BondingCurve.Text.Quoted
import BondingCurve.Traced
import BondingCurve.Trade.Direction
import BondingCurve.Trade.Simulation
import BondingCurve.Vesting
import BondingCurve.Width
import BondingCurve.Proofs.Amounts
import BondingCurve.Proofs.Slices
import BondingCurve.Proofs.Tiling
import BondingCurve.Proofs.Purchase
import BondingCurve.Proofs.Sale
import BondingCurve.Proofs.Fees
import BondingCurve.Proofs.Trades
import BondingCurve.Proofs.FeeSplits
import BondingCurve.Proofs.Arbitrage
import BondingCurve.Proofs.Settlement
import BondingCurve.Proofs.Solvency
import BondingCurve.Proofs.Reconciliation
import BondingCurve.Proofs.SwapAmount
import BondingCurve.Proofs.MigrationReserve
import BondingCurve.Proofs.Splitting
import BondingCurve.Proofs.Redemption
import BondingCurve.Proofs.Liquidity
import BondingCurve.Proofs.VenueReserve
import BondingCurve.Proofs.LinearDesign
import BondingCurve.Proofs.DecimalValue
import BondingCurve.Proofs.RoundingError
import BondingCurve.Proofs.GraphWeights
import BondingCurve.Proofs.GraphSupply
import BondingCurve.Proofs.Refusals
import BondingCurve.Proofs.LinearRefusals
import BondingCurve.Proofs.SupplyConservation
import BondingCurve.Proofs.GraphThreshold
import BondingCurve.Proofs.Capacity
import BondingCurve.Proofs.Agreement
import BondingCurve.Proofs.Runs
import BondingCurve.Proofs.PriceLag
import BondingCurve.Proofs.Bookkeeping
import BondingCurve.Proofs.TradeSize
import BondingCurve.Proofs.FirstSegment
import BondingCurve.Proofs.CorrectRounding
import BondingCurve.Proofs.RoundedOperations
import BondingCurve.Proofs.PriceAccuracy
import BondingCurve.Proofs.PriceRoundTrip
import BondingCurve.Proofs.Enclosures
import BondingCurve.Proofs.StepRatio
import BondingCurve.Proofs.GeometricBoundaries
import BondingCurve.Proofs.PowerAccuracy
import BondingCurve.Proofs.WeightAccuracy
import BondingCurve.Proofs.RangeIntegrals
import BondingCurve.Proofs.ChunkedBuying
import BondingCurve.Proofs.NextPrices
import BondingCurve.Proofs.Outcomes
import BondingCurve.Proofs.ValueArithmetic
import BondingCurve.Proofs.Spellings
import BondingCurve.Proofs.SpellingIndependence
import BondingCurve.Proofs.TokenUnits
