import TradingEngine.BrokerContract
import TradingEngine.CheckedRecords
import TradingEngine.IntentIntake

/-!
# The inputs of a pre-trade risk decision

A policy, the identity that an order is sent under, the order and a snapshot of the account
and its market. Each is a record that checks its fields, in the order of its class; numbers
are kept as doubles.
-/

namespace TradingEngine.PreTrade

open BinaryFloats CheckedRecords

def positive (raised : String → Raised) (label : String) : Check Double :=
  let error := raised (label ++ " must be a positive finite number")
  .number error fun value => if Double.zero.lt value then none else some error

def refuseNegative (label : String) (value : Double) : Option Raised :=
  if Double.zero.le value then none
  else some (.contract (label ++ " must be a nonnegative finite number"))

def nonnegative (label : String) : Check Double :=
  .number (.contract (label ++ " must be a nonnegative finite number")) (refuseNegative label)

def fraction (label : String) : Check Double :=
  .number (.contract (label ++ " must be a nonnegative finite number")) fun value =>
    (refuseNegative label value).or (if value.le .one then none
      else some (.contract (label ++ " must be from zero through one")))

def sha256 (label : String) : Check String :=
  .text (.contract (label ++ " must be a lowercase SHA-256")) PaperAccounts.isSha256

def identifier (raised : String → Raised) (label : String) : Check String :=
  .text (raised (label ++ " is invalid")) Broker.validIdentifier

def boolean (label : String) : Check Bool :=
  .bool (.contract (label ++ " must be boolean")) fun _ => true

def seconds (label : String) : Check ℤ :=
  .integer (.contract (label ++ " must be from 1 through 300")) fun value =>
    decide (1 ≤ value) && decide (value ≤ 300)

def count (label : String) : Check ℤ :=
  .integer (.contract (label ++ " must be nonnegative")) fun value => decide (0 ≤ value)

/-- Limits of one strategy, in the order of their checks. -/
inductive PolicyField where
  | policyId | accountId | strategyId | executionProfileId | releaseSha256
  | strategyConfigSha256 | executionProfileSha256 | allowedSymbols | capitalCeiling
  | maxGrossExposure | maxPositionFraction | maxOrderNotional | maxDailyTurnover
  | maxParticipation | maxDailyLossFraction | maxDrawdownFraction
  | maxReferenceDeviationFraction | maxDailyOrders | maxQuoteAgeSeconds
  | maxReconciliationAgeSeconds | decisionTtlSeconds
  deriving DecidableEq

@[reducible] def PolicyField.Value : PolicyField → Type
  | .policyId | .accountId | .strategyId | .releaseSha256 | .strategyConfigSha256
  | .executionProfileId | .executionProfileSha256 => String
  | .allowedSymbols => List String
  | .maxDailyOrders | .maxQuoteAgeSeconds | .maxReconciliationAgeSeconds
  | .decisionTtlSeconds => ℤ
  | .capitalCeiling | .maxGrossExposure | .maxPositionFraction | .maxOrderNotional
  | .maxDailyTurnover | .maxParticipation | .maxDailyLossFraction | .maxDrawdownFraction
  | .maxReferenceDeviationFraction => Double

abbrev RiskPolicy := ∀ field : PolicyField, field.Value

/-- What binds an order to its policy. -/
inductive IdentityField where
  | policyId | strategyId | executionProfileId | releaseSha256 | strategyConfigSha256
  | executionProfileSha256
  deriving DecidableEq

abbrev RiskIdentity := IdentityField → String

/-- One order intent. -/
inductive RequestField where
  | idempotencyKey | accountId | symbol | side | quantity | signalDate | orderType
  | timeInForce | extendedHours
  deriving DecidableEq

@[reducible] def RequestField.Value : RequestField → Type
  | .idempotencyKey | .accountId | .symbol | .side | .orderType | .timeInForce => String
  | .quantity => Double
  | .signalDate => Day
  | .extendedHours => Bool

abbrev SubmitOrderRequest := ∀ field : RequestField, field.Value

/-- The account, the market and the controls when an order is weighed. -/
inductive SnapshotField where
  | asOf | quoteDate | observedAt | quoteAt | reconciliationAt | accountSnapshotSha256
  | reconciliationSha256 | marketStateSha256 | performanceStateSha256
  | operationalControlSha256 | accountActive | marginEnabled | instrumentActive
  | instrumentLiquid | instrumentQuarantined | marketSessionOpen | clockSynchronized
  | storageHealthy | brokerHealthy | reconciled | operationalHalt | corporateActionClear
  | instrumentType | currency | quotePrice | referencePrice | equity | medianDollarVolume
  | cash | buyingPower | grossExposure | symbolExposure | heldQuantity
  | pendingSellQuantity | reservedBuyNotional | reservedSymbolBuyNotional
  | reservedTurnoverNotional | dailyTurnover | reservedOrderCount | dailyOrderCount
  | dailyPnl | drawdownFraction
  deriving DecidableEq

@[reducible] def SnapshotField.Value : SnapshotField → Type
  | .asOf | .quoteDate => Day
  | .observedAt | .quoteAt | .reconciliationAt => Datetime
  | .accountSnapshotSha256 | .reconciliationSha256 | .marketStateSha256
  | .performanceStateSha256 | .operationalControlSha256 | .instrumentType
  | .currency => String
  | .medianDollarVolume => Option Double
  | .accountActive | .marginEnabled | .instrumentActive | .instrumentLiquid
  | .instrumentQuarantined | .marketSessionOpen | .clockSynchronized | .storageHealthy
  | .brokerHealthy | .reconciled | .operationalHalt | .corporateActionClear => Bool
  | .reservedOrderCount | .dailyOrderCount => ℤ
  | .quotePrice | .referencePrice | .cash | .buyingPower | .equity | .grossExposure
  | .symbolExposure | .heldQuantity | .pendingSellQuantity | .reservedBuyNotional
  | .reservedSymbolBuyNotional | .reservedTurnoverNotional | .dailyTurnover | .dailyPnl
  | .drawdownFraction => Double

abbrev PreTradeSnapshot := ∀ field : SnapshotField, field.Value

def policyCheck : ∀ field : PolicyField, Check field.Value
  | .policyId => identifier .contract "risk policy identifier"
  | .accountId => identifier .contract "risk account identifier"
  | .strategyId => identifier .contract "risk strategy identifier"
  | .executionProfileId => identifier .contract "risk execution profile identifier"
  | .releaseSha256 => sha256 "release identity"
  | .strategyConfigSha256 => sha256 "strategy config identity"
  | .executionProfileSha256 => sha256 "execution profile identity"
  | .allowedSymbols => .texts (.contract "allowed symbols must be a sorted unique tuple")
      Broker.validSymbol (.contract "symbol is invalid")
  | .capitalCeiling => positive .contract "capital ceiling"
  | .maxGrossExposure => positive .contract "gross exposure ceiling"
  | .maxPositionFraction => fraction "position fraction ceiling"
  | .maxOrderNotional => positive .contract "order-notional ceiling"
  | .maxDailyTurnover => positive .contract "daily turnover ceiling"
  | .maxParticipation => fraction "participation ceiling"
  | .maxDailyLossFraction => fraction "daily loss ceiling"
  | .maxDrawdownFraction => fraction "drawdown ceiling"
  | .maxReferenceDeviationFraction => fraction "reference deviation ceiling"
  | .maxDailyOrders => .integer (.contract "daily order-count ceiling must be positive")
      fun value => decide (0 < value)
  | .maxQuoteAgeSeconds => seconds "max quote age seconds"
  | .maxReconciliationAgeSeconds => seconds "max reconciliation age seconds"
  | .decisionTtlSeconds => seconds "decision ttl seconds"

/-- The limits of a policy must fit each other. -/
def policyAgrees (policy : RiskPolicy) : Except Raised Unit :=
  if (policy .capitalCeiling).lt (policy .maxOrderNotional) then
    .error (.contract "order-notional ceiling exceeds capital ceiling")
  else if (policy .capitalCeiling).lt (policy .maxGrossExposure) then
    .error (.contract "gross exposure ceiling exceeds capital ceiling")
  else if (policy .maxDailyTurnover).lt (policy .maxOrderNotional) then
    .error (.contract "daily turnover ceiling is below order-notional ceiling")
  else .ok ()

def policySchema : Schema PolicyField.Value where
  check := policyCheck
  first := (List.range 17).map .ofNat
  agree := policyAgrees
  later := (List.range' 17 4).map .ofNat
  complete field := by cases field <;> decide

instance : Fintype PolicyField := policySchema.fintype

def identityCheck : IdentityField → Check String
  | .policyId => identifier .contract "risk policy identifier"
  | .strategyId => identifier .contract "risk strategy identifier"
  | .executionProfileId => identifier .contract "risk execution profile identifier"
  | .releaseSha256 => sha256 "release identity"
  | .strategyConfigSha256 => sha256 "strategy config identity"
  | .executionProfileSha256 => sha256 "execution profile identity"

def identitySchema : Schema fun _ : IdentityField => String where
  check := identityCheck
  first := (List.range 6).map .ofNat
  agree _ := .ok ()
  later := []
  complete field := by cases field <;> decide

instance : Fintype IdentityField := identitySchema.fintype

def requestCheck : ∀ field : RequestField, Check field.Value
  | .idempotencyKey => identifier .value "idempotency key"
  | .accountId => identifier .value "account identifier"
  | .symbol => .text (.value "symbol is invalid") Broker.validSymbol
  | .side => .text (.value "side is invalid") ["buy", "sell"].contains
  | .quantity => positive .value "quantity"
  | .signalDate => .date (.value "signal date is invalid")
  | .orderType => .text (.value "only market orders are supported") (· == "market")
  | .timeInForce => .text (.value "only day time-in-force is supported") (· == "day")
  | .extendedHours => .bool (.value "extended-hours orders are unsupported") (!·)

def requestSchema : Schema RequestField.Value where
  check := requestCheck
  first := (List.range 9).map .ofNat
  agree _ := .ok ()
  later := []
  complete field := by cases field <;> decide

instance : Fintype RequestField := requestSchema.fintype

def requestDefault : RequestField → Option Atom
  | .orderType => some (.text "market")
  | .timeInForce => some (.text "day")
  | .extendedHours => some (.bool false)
  | _ => none

def snapshotCheck : ∀ field : SnapshotField, Check field.Value
  | .asOf => .date (.contract "risk dates are invalid")
  | .quoteDate => .date (.contract "risk dates are invalid")
  | .observedAt => .utc (.contract "observed at must be UTC")
  | .quoteAt => .utc (.contract "quote at must be UTC")
  | .reconciliationAt => .utc (.contract "reconciliation at must be UTC")
  | .accountSnapshotSha256 => sha256 "account snapshot sha256"
  | .reconciliationSha256 => sha256 "reconciliation sha256"
  | .marketStateSha256 => sha256 "market state sha256"
  | .performanceStateSha256 => sha256 "performance state sha256"
  | .operationalControlSha256 => sha256 "operational control sha256"
  | .accountActive => boolean "account active"
  | .marginEnabled => boolean "margin enabled"
  | .instrumentActive => boolean "instrument active"
  | .instrumentLiquid => boolean "instrument liquid"
  | .instrumentQuarantined => boolean "instrument quarantined"
  | .marketSessionOpen => boolean "market session open"
  | .clockSynchronized => boolean "clock synchronized"
  | .storageHealthy => boolean "storage healthy"
  | .brokerHealthy => boolean "broker healthy"
  | .reconciled => boolean "reconciled"
  | .operationalHalt => boolean "operational halt"
  | .corporateActionClear => boolean "corporate action clear"
  | .instrumentType => .text (.contract "instrument type must be equity or etf")
      ["equity", "etf"].contains
  | .currency => .text (.contract "risk currency must be USD") (· == "USD")
  | .quotePrice => positive .contract "quote_price"
  | .referencePrice => positive .contract "reference_price"
  | .equity => positive .contract "equity"
  | .medianDollarVolume =>
    let error := .contract "median dollar volume must be a positive finite number"
    .optionalNumber error fun value => if Double.zero.lt value then none else some error
  | .cash => nonnegative "cash"
  | .buyingPower => nonnegative "buying_power"
  | .grossExposure => nonnegative "gross_exposure"
  | .symbolExposure => nonnegative "symbol_exposure"
  | .heldQuantity => nonnegative "held_quantity"
  | .pendingSellQuantity => nonnegative "pending_sell_quantity"
  | .reservedBuyNotional => nonnegative "reserved_buy_notional"
  | .reservedSymbolBuyNotional => nonnegative "reserved_symbol_buy_notional"
  | .reservedTurnoverNotional => nonnegative "reserved_turnover_notional"
  | .dailyTurnover => nonnegative "daily_turnover"
  | .reservedOrderCount => count "reserved order count"
  | .dailyOrderCount => count "daily order count"
  | .dailyPnl => .number (.contract "daily P&L must be finite") fun _ => none
  | .drawdownFraction => fraction "drawdown fraction"

def snapshotSchema : Schema SnapshotField.Value where
  check := snapshotCheck
  first := (List.range 42).map .ofNat
  agree _ := .ok ()
  later := []
  complete field := by cases field <;> decide

instance : Fintype SnapshotField := snapshotSchema.fintype

end TradingEngine.PreTrade
