import BondingCurve.Decimal.Basic
import BondingCurve.Ledger

/-!
# Failures

Every failure is a statement about the input. The constructors name the cause and carry what the message shows;
`CurveError.message` is the only place with the wording. A message takes the integers it shows to have texts
(`HasText`), which only arguments far out of every range lack; where a number is read from such a text,
`CurveError.textTooLong` says so.
-/

namespace BondingCurve

/-- An argument that is no amount, or outside the domain of a formula. -/
inductive AmountError
  /-- A quotient rounded up with a negative dividend or a divisor that is not positive. -/
  | ceilDomain
  /-- A quotient rounded down with a negative dividend or a divisor that is not positive. -/
  | floorDomain
  /-- A rounding that is neither up nor down. -/
  | unknownRounding (shown : String)
  /-- A negative factor. -/
  | negativeFactor (x y : Int)
  | negative (name : String) (value : Int)
  | notPositive (name shown : String)
  | notFinite (name shown : String)
  | notInteger (name kind : String)
  /-- A truth value where a number is wanted. -/
  | truthValue
  /-- The floor of something that is not a finite number. -/
  | floorOfSpecial
  | floorOfNegative (shown : String)
  /-- Numbers of decimal places, one of them negative. -/
  | negativeDecimals (base quote : Int)
  | zeroLowerPrice
  | reversedRange (lower upper : Int)
  | emptyRange
  /-- An input of base that no liquidity takes up. -/
  | noLiquidityForBase
  /-- An input of quote that no liquidity takes up. -/
  | noLiquidityForQuote
  | notPercentage (name shown : String)
  /-- A share of the supply that leaves nothing to sell. -/
  | shareTooLarge (shown : String)
  | tooFewBoundaries
  deriving DecidableEq, Repr

/-- A price outside the ledger's range, or boundaries out of order. -/
inductive PriceError
  | outOfRange (name shown : String)
  | noSegments
  | tooManySegments (count : Nat)
  | boundNotAbove (index : Nat) (bound previous : Int)
  /-- A price outside the range of a curve. -/
  | offCurve (price start stop : Int)
  /-- A start price that a migration reserve pushes up to the migration price. -/
  | reserveTooLarge (start migration reserve swapAmount : Int)
  | startNotBelow (start migration : Int)
  /-- Market caps out of order. -/
  | capsNotIncreasing (initial migration : Int)
  deriving DecidableEq, Repr

/-- Why an operation has no result. -/
inductive CurveError
  | amount (cause : AmountError)
  /-- A result wider than the ledger stores. -/
  | tooWide (name : String) (value : Int) (bits : Nat)
  | price (cause : PriceError)
  | migrationOption (shown : String)
  | fee (shown : String)
  /-- A curve or reserve that cannot take up or pay out what was asked for. -/
  | insufficientLiquidity (requested available remaining : Int)
  /-- A design that spends more than the supply and its tolerance. -/
  | supplyMismatch (reconstructed supply tolerance : Int)
  /-- A text that names no direction. -/
  | unknownDirection (shown : String)
  /-- A number that names no fee mode. -/
  | unknownFeeMode (value : Int)
  /-- A format with a negative number of places. -/
  | malformedFormat
  /-- An integer with more digits than a text may have. -/
  | textTooLong
  /-- A product divided by zero. -/
  | productOverZero
  /-- An integer divided by zero. -/
  | zeroDivisor
  | arithmetic (signal : Signal)
  deriving DecidableEq, Repr

namespace AmountError

/-- The wording of an amount failure. -/
def message : AmountError → String
  | ceilDomain => "_ceil_div expects a>=0 and b>0"
  | floorDomain => "_floor_div expects a>=0 and b>0"
  | unknownRounding shown => s!"invalid rounding: {shown}"
  | negativeFactor x y => s!"mul_div expects non-negative operands: x={x}, y={y}"
  | negative name value => s!"{name} must be >= 0, got {value}"
  | notPositive name shown => s!"{name} must be > 0, got {shown}"
  | notFinite name shown => s!"{name} must be finite, got {shown}"
  | notInteger name kind => s!"{name} must be int, got {kind}"
  | truthValue => "bool is not a numeric input"
  | floorOfSpecial => "floor_to_int: invalid Decimal"
  | floorOfNegative shown => s!"floor_to_int: negative not allowed ({shown})"
  | negativeDecimals base quote => s!"decimals must be >= 0 (base={base}, quote={quote})"
  | zeroLowerPrice => "lower sqrt price must be > 0"
  | reversedRange lower upper => s!"lower sqrt price {lower} above upper {upper}"
  | emptyRange => "empty price range"
  | noLiquidityForBase => "cannot absorb base input with zero liquidity"
  | noLiquidityForQuote => "cannot absorb quote input with zero liquidity"
  | notPercentage name shown => s!"{name} must be an int in [0, 100], got {shown}"
  | shareTooLarge shown => s!"percentage_supply_on_migration must be < 100, got {shown}"
  | tooFewBoundaries => "need at least two boundaries"

end AmountError

namespace PriceError

/-- The wording of a price failure. -/
def message : PriceError → String
  | outOfRange name shown => s!"{name}={shown} outside [{minSqrtPrice}, {maxSqrtPrice}]"
  | noSegments => "curve needs at least one segment"
  | tooManySegments count => s!"curve has {count} segments, max is {maxCurvePoints}"
  | boundNotAbove index bound previous => s!"segment {index} bound {bound} is not above previous bound {previous}"
  | offCurve price start stop => s!"sqrt_price={price} outside curve [{start}, {stop}]"
  | reserveTooLarge start migration reserve swapAmount =>
    s!"start price {start} not below migration price {migration}: " ++
      s!"migration reserve ({reserve}) must be smaller than swap amount ({swapAmount})"
  | startNotBelow start migration => s!"start price {start} not below migration price {migration}"
  | capsNotIncreasing initial migration =>
    s!"initial sqrt price {initial} must be below migration sqrt price {migration}"

end PriceError

/-- The wording of a failure of decimal arithmetic. -/
def Signal.message : Signal → String
  | invalidOperation => "invalid operation"
  | divisionByZero => "division by zero"
  | overflow => "overflow"

namespace CurveError

/-- The wording of a failure. The integers in it are taken to have texts. -/
def message : CurveError → String
  | amount cause => cause.message
  | tooWide name value bits => s!"{name}={value} overflows u{bits}"
  | price cause => cause.message
  | migrationOption shown => s!"Invalid migration option: {shown}"
  | fee shown => s!"fee numerator must be in [0, {maxFeeNumerator}], got {shown}"
  | insufficientLiquidity requested available remaining =>
    s!"Not enough liquidity on curve: requested={requested}, available={available}, amount_left={remaining}"
  | supplyMismatch reconstructed supply tolerance =>
    s!"Reconstructed supply={reconstructed} exceeds total supply={supply} " ++
      s!"by {reconstructed - supply} (tolerance={tolerance})"
  | unknownDirection shown => s!"{shown} is not a valid TradeDirection"
  | unknownFeeMode value => s!"{value} is not a valid CollectFeeMode"
  | malformedFormat => "invalid format string"
  | textTooLong =>
    s!"Exceeds the limit ({maxTextDigits} digits) for integer string conversion; " ++
      "use sys.set_int_max_str_digits() to increase the limit"
  | productOverZero => "mul_div: division by zero"
  | zeroDivisor => "integer division or modulo by zero"
  | arithmetic signal => signal.message

end CurveError

/-- A decimal computation as part of an operation. -/
def liftSignal {α : Type} : Except Signal α → Except CurveError α
  | .ok a => .ok a
  | .error signal => .error (.arithmetic signal)

instance : MonadLift (Except Signal) (Except CurveError) := ⟨liftSignal⟩

/-! ### Sequences -/

/-- A sequence goes on with the result of its first part. -/
@[simp] theorem ok_bind {ε α β : Type} (a : α) (f : α → Except ε β) : (Except.ok a >>= f) = f a := rfl

/-- A sequence ends with the failure of its first part. -/
@[simp] theorem error_bind {ε α β : Type} (e : ε) (f : α → Except ε β) :
    (Except.error e >>= f) = Except.error e := rfl

/-- A sequence succeeds exactly if both of its parts do. -/
theorem bind_eq_ok_iff {ε α β : Type} {x : Except ε α} {f : α → Except ε β} {b : β} :
    (x >>= f) = .ok b ↔ ∃ a, x = .ok a ∧ f a = .ok b := by
  cases x <;> simp

theorem exists_of_isOk {ε α : Type} {x : Except ε α} (h : x.isOk = true) : ∃ a, x = .ok a := by
  cases x with
  | error e => cases h
  | ok a => exact ⟨a, rfl⟩

theorem eq_ok_of_toOption {ε α : Type} {x : Except ε α} {a : α} (h : x.toOption = some a) : x = .ok a := by
  cases x with
  | error e => cases h
  | ok a' => rw [Option.some.inj h]

/-- A check passes exactly if it finds no fault. -/
theorem ite_error_eq_ok_iff {ε α : Type} {p : Prop} [Decidable p] {e : ε} {x : Except ε α} {a : α} :
    (if p then .error e else x) = .ok a ↔ ¬p ∧ x = .ok a := by
  by_cases h : p <;> simp [h]

@[simp] theorem ok_map {ε α β : Type} (a : α) (f : α → β) : (f <$> (Except.ok a : Except ε α)) = .ok (f a) := rfl

@[simp] theorem error_map {ε α β : Type} (e : ε) (f : α → β) : (f <$> (Except.error e : Except ε α)) = .error e := rfl

/-- A result is mapped exactly if there is one. -/
theorem map_eq_ok_iff {ε α β : Type} {x : Except ε α} {f : α → β} {b : β} :
    f <$> x = .ok b ↔ ∃ a, x = .ok a ∧ f a = b := by
  cases x <;> simp

@[simp] theorem liftSignal_ok {α : Type} (a : α) : liftSignal (.ok a) = .ok a := rfl

@[simp] theorem liftSignal_error {α : Type} (signal : Signal) :
    liftSignal (.error signal : Except Signal α) = .error (.arithmetic signal) := rfl

theorem liftM_eq_liftSignal {α : Type} (x : Except Signal α) : (liftM x : Except CurveError α) = liftSignal x := rfl

theorem liftSignal_eq_ok_iff {α : Type} {x : Except Signal α} {a : α} : liftSignal x = .ok a ↔ x = .ok a := by
  cases x <;> simp

end BondingCurve
