import Mathlib

/-!
# The broker-neutral boundary

What a caller may ask of an adapter and what an adapter may answer. A value of one
of these types has passed the checks that its constructor makes, so an invalid
request, order or fill cannot be built. The only order is a market order for the
day in regular hours.
-/

namespace TradingEngine.Broker

/-- Instants in UTC, counted in microseconds. -/
abbrev Instant := Int

/-- Failures that the broker boundary raises, with their texts. -/
inductive BrokerError where
  | adapterRaised
  | riskRejected (text : String)
  | submissionUncertain (text : String)
  | cancellationUncertain (text : String)
  | idempotencyConflict (text : String)
  | stateError (text : String)
  | valueError (text : String)
  deriving DecidableEq

def MAX_FILL_BATCH : Nat := 500
def MAX_ACCOUNT_ROWS : Nat := 1000

/-- A letter or digit followed by at most 127 letters, digits and `_.:-`. -/
def validIdentifier (value : String) : Bool :=
  match value.toList with
  | [] => false
  | first :: rest => first.isAlphanum && decide (rest.length ≤ 127) &&
      rest.all fun c => c.isAlphanum || decide (c ∈ ['_', '.', ':', '-'])

/-- A capital or digit followed by at most 31 capitals, digits and `.^=-`. -/
def validSymbol (value : String) : Bool :=
  match value.toList with
  | [] => false
  | first :: rest => (first.isUpper || first.isDigit) && decide (rest.length ≤ 31) &&
      rest.all fun c => c.isUpper || c.isDigit || decide (c ∈ ['.', '^', '=', '-'])

/-- Three ASCII characters, no small letter among them and at least one capital. -/
def validCurrency (value : String) : Bool :=
  decide (value.toList.length = 3) && value.toList.any Char.isUpper &&
    value.toList.all fun c => decide (c.toNat < 128) && !c.isLower

/-- Text accepted by `require_identifier`. -/
structure Identifier where
  text : String
  valid : validIdentifier text
  deriving DecidableEq

/-- Text accepted by `require_symbol`. -/
structure Symbol where
  text : String
  valid : validSymbol text
  deriving DecidableEq

/-- How an identifier is quoted in an error text. -/
def Identifier.quoted (key : Identifier) : String := "'" ++ key.text ++ "'"

inductive BrokerSide where
  | buy | sell
  deriving DecidableEq

inductive BrokerOrderType where
  | market
  deriving DecidableEq

inductive TimeInForce where
  | day
  deriving DecidableEq

inductive BrokerEnvironment where
  | simulator | paper | liveDisabled
  deriving DecidableEq

inductive BrokerOrderStatus where
  | pending | partiallyFilled | filled | rejected | cancelled | expired
  deriving DecidableEq

namespace BrokerOrderStatus

/-- States whose reason must be given. -/
def terminal : BrokerOrderStatus → Bool
  | rejected | cancelled | expired => true
  | pending | partiallyFilled | filled => false

/-- States of an order that still stands at the venue. -/
def stands : BrokerOrderStatus → Bool
  | pending | partiallyFilled => true
  | filled | rejected | cancelled | expired => false

end BrokerOrderStatus

/-- One order intent presented to an adapter. -/
structure SubmitOrderRequest where
  idempotencyKey : Identifier
  accountId : Identifier
  symbol : Symbol
  side : BrokerSide
  quantity : ℚ
  signalDate : Int
  orderType : BrokerOrderType := .market
  timeInForce : TimeInForce := .day
  extendedHours : Bool := false
  positive : 0 < quantity
  regularHours : extendedHours = false
  deriving DecidableEq

structure BrokerAccount where
  accountId : Identifier
  venue : Identifier
  environment : BrokerEnvironment
  active : Bool
  currency : String
  cash : ℚ
  buyingPower : ℚ
  initialCash : ℚ
  marginEnabled : Bool
  currencyCode : validCurrency currency
  cashNonneg : 0 ≤ cash
  buyingPowerNonneg : 0 ≤ buyingPower
  initialPositive : 0 < initialCash
  deriving DecidableEq

structure BrokerPosition where
  accountId : Identifier
  symbol : Symbol
  quantity : ℚ
  averagePrice : ℚ
  quantityPositive : 0 < quantity
  pricePositive : 0 < averagePrice
  deriving DecidableEq

/-- Reason and filled quantity that fit a status. -/
def validOrderState (status : BrokerOrderStatus) (rejectionReason : Option String)
    (filledQuantity quantity : ℚ) : Bool :=
  (match rejectionReason with
    | some reason => status.terminal && decide (reason.length ≤ 4096) &&
        reason.toList.any fun c => !c.isWhitespace
    | none => !status.terminal) &&
  match status with
  | .pending => decide (filledQuantity = 0)
  | .partiallyFilled => decide (0 < filledQuantity ∧ filledQuantity < quantity)
  | .filled => decide (filledQuantity = quantity)
  | .rejected | .cancelled | .expired => true

structure BrokerOrder where
  brokerOrderId : Identifier
  idempotencyKey : Identifier
  accountId : Identifier
  symbol : Symbol
  side : BrokerSide
  quantity : ℚ
  signalDate : Int
  status : BrokerOrderStatus
  rejectionReason : Option String
  filledQuantity : ℚ := 0
  orderType : BrokerOrderType := .market
  timeInForce : TimeInForce := .day
  extendedHours : Bool := false
  positive : 0 < quantity
  filledNonneg : 0 ≤ filledQuantity
  filledWithin : filledQuantity ≤ quantity
  stateValid : validOrderState status rejectionReason filledQuantity quantity
  regularHours : extendedHours = false
  deriving DecidableEq

structure BrokerFill where
  executionId : Identifier
  brokerOrderId : Identifier
  idempotencyKey : Identifier
  accountId : Identifier
  symbol : Symbol
  side : BrokerSide
  quantity : ℚ
  occurredOn : Int
  referencePrice : ℚ
  price : ℚ
  totalCostBps : ℚ
  quantityPositive : 0 < quantity
  referencePositive : 0 < referencePrice
  pricePositive : 0 < price
  costNonneg : 0 ≤ totalCostBps
  deriving DecidableEq

/-- Fills are listed by intent, then by date, then by execution. -/
def BrokerFill.listedBefore (first second : BrokerFill) : Bool :=
  if first.idempotencyKey ≠ second.idempotencyKey then
    decide (first.idempotencyKey.text < second.idempotencyKey.text)
  else if first.occurredOn ≠ second.occurredOn then decide (first.occurredOn < second.occurredOn)
  else decide (first.executionId.text ≤ second.executionId.text)

/-- The terms on which an order and the request behind it must agree. -/
structure OrderTerms where
  idempotencyKey : Identifier
  accountId : Identifier
  symbol : Symbol
  side : BrokerSide
  quantity : ℚ
  signalDate : Int
  orderType : BrokerOrderType
  timeInForce : TimeInForce
  extendedHours : Bool
  deriving DecidableEq

def SubmitOrderRequest.terms (request : SubmitOrderRequest) : OrderTerms where
  idempotencyKey := request.idempotencyKey
  accountId := request.accountId
  symbol := request.symbol
  side := request.side
  quantity := request.quantity
  signalDate := request.signalDate
  orderType := request.orderType
  timeInForce := request.timeInForce
  extendedHours := request.extendedHours

def BrokerOrder.terms (order : BrokerOrder) : OrderTerms where
  idempotencyKey := order.idempotencyKey
  accountId := order.accountId
  symbol := order.symbol
  side := order.side
  quantity := order.quantity
  signalDate := order.signalDate
  orderType := order.orderType
  timeInForce := order.timeInForce
  extendedHours := order.extendedHours

theorem paperAccount_valid : validIdentifier "paper-account" = true := by decide
theorem simulator_valid : validIdentifier "simulator" = true := by decide
theorem order1_valid : validIdentifier "order-1" = true := by decide
theorem intent1_valid : validIdentifier "intent-1" = true := by decide
theorem spy_valid : validSymbol "SPY" = true := by decide
theorem usd_valid : validCurrency "USD" = true := by decide
theorem pending_valid : validOrderState .pending none 0 2 = true := by decide
theorem zero_nonneg : (0 : ℚ) ≤ 0 := by decide
theorem two_positive : (0 : ℚ) < 2 := by decide
theorem two_nonneg : (0 : ℚ) ≤ 2 := by decide
theorem hundred_positive : (0 : ℚ) < 100 := by decide
theorem hundred_nonneg : (0 : ℚ) ≤ 100 := by decide

end TradingEngine.Broker
