import TradingEngine.Fills
import TradingEngine.LedgerEvents

/-!
# Engine-owned paper accounts

The state of one account: its settings, its book and retained ledger, its
orders in the two order tables, its equity history and its lifecycle log. Other
accounts are seen only through a world: their due orders and traded notional
compete for the same liquidity, and their orders use the same number sequence.

The order table keeps a coarse status; the details of an account order keep the
fine state. They are written by separate statements, so the model keeps both.
-/

namespace TradingEngine.Accounts

open KeyedTables OrderTypes Nyse Ledger Costs Fills

inductive AccountStatus where
  | inactive | active | halted | retiring | retired
  deriving DecidableEq

inductive DayTradeRule where
  | pdt25kLegacy | intradayMargin2026
  deriving DecidableEq

/-- The account-side settings of a portfolio. -/
structure AccountSettings where
  accountType : AccountType
  costProfile : CostProfile
  status : AccountStatus
  priceSource : PriceSource
  dayTradeRule : DayTradeRule
  allowShort : Bool

/-- The limits of an admitted specification. -/
structure Spec where
  maxPositionFraction : ℚ
  maxGrossFraction : ℚ
  minTradeUsd : ℚ
  wholeShares : Bool

/-- Details of an account order. An order is executable when its instrument is a
stock or a fund and it is no leg of another order. -/
structure OrderDetails where
  executable : Bool
  orderType : OrderTypes.OrderType
  limitPx : Option ℚ
  sessionDate : Int
  receivedAt : Int
  contingentOn : Option OrderId
  state : OrderState
  stateReason : List Reason
  stateAt : Int
  limited : orderType = .limit → limitPx.isSome

instance : DecidableEq OrderDetails := fun one other =>
  decidable_of_iff (one.executable = other.executable ∧ one.orderType = other.orderType ∧
      one.limitPx = other.limitPx ∧ one.sessionDate = other.sessionDate ∧
      one.receivedAt = other.receivedAt ∧ one.contingentOn = other.contingentOn ∧
      one.state = other.state ∧ one.stateReason = other.stateReason ∧
      one.stateAt = other.stateAt)
    (by cases one; cases other; simp)

/-- A row of the order table with its details, if it has any. -/
structure Order where
  ticker : Ticker
  side : Side
  qty : ℚ
  signalDate : Int
  status : CoarseStatus
  rejectReason : List Reason
  details : Option OrderDetails
  deriving DecidableEq

/-- One persisted equity mark. -/
structure EquityRow where
  equity : ℚ
  cash : ℚ
  nPositions : Nat

/-- Evidence of a reconciliation. -/
structure Evidence where
  expectedSha256 : String
  observedSha256 : String
  mismatch : Bool
  detail : String

structure Reconciliation where
  evidence : Evidence
  createdAt : Int

/-- Lifecycle entries of the account's event log. -/
inductive AccountEvent where
  | halted (reason : Reason) (createdAt : Int)
  | resumed (anchorSession : Option Int) (createdAt : Int)
  | retirementRequested (createdAt : Int)
  | retired (createdAt : Int)

/-- A trade intent. The intent itself stands for its digest. -/
structure Intent where
  intentId : String
  ticker : Ticker
  executable : Bool
  orderType : OrderTypes.OrderType
  side : Side
  quantity : ℚ
  limitPrice : Option ℚ
  sessionDate : Int
  contingentOn : Option String
  deriving DecidableEq

/-- A retained intent and the order it created. -/
structure Intake where
  orderId : OrderId
  intent : Intent

/-- One account with everything it persists. -/
structure Account where
  settings : AccountSettings
  spec : Spec
  executionProfile : ExecutionProfile
  created : Int
  active : Bool
  book : Book
  ledger : LedgerTables
  orders : Table OrderId Order
  equity : Table Int EquityRow
  marks : Table Int (List (Ticker × ℚ))
  pdtRestrictedUntil : Option Int
  updatedAt : Int
  log : List AccountEvent
  reconciliations : Table Int Reconciliation
  intakes : Table String Intake

/-- What a call raises. -/
inductive AccountError where
  | ledger (raised : LedgerError)
  | noPriceObserved (ticker : Ticker)   -- no price ever observed
  | buyOnShort                          -- buy cannot close a short; use cover
  | shortOnLong                         -- short cannot close a long; use sell
  | uncharged                           -- the broker profile refuses the quantity
  | duplicateFill (id : OrderId)        -- the order already has a fill
  | changedFill (id : OrderId)          -- ledger changed the prevalidated account fill quantity
  | nonPositiveDividend                 -- dividend per share must be positive
  | sourceUnavailable
  | verification                        -- ledger reconstruction failed verification
  | nonPositivePeak                     -- peak equity must be positive
  | duplicateSettlement (ticker : Ticker) (effective : Int)
  | settlementRefused
  | accountRefused
  deriving DecidableEq

/-- Settlement terms as submitted or derived. -/
structure Terms where
  ticker : Ticker
  kind : SettlementKind
  effective : Int
  source : String
  price : ℚ
  intoTicker : Option Ticker
  ratio : Option ℚ

/-- A due order of the fold with its attempted fill. -/
abbrev Prepared := PendingRow × FillResult

/-- What one call sees beyond its own account: market data, the clocks, the
other accounts and the attached sources. -/
structure World (zone : Zone) where
  market : Market zone
  now : Int
  wallClock : Int
  orderSequence : Nat
  foreignDue : Int → List Prepared
  foreignNotional : Int → Ticker → Bool → ℚ
  foreignIntent : String → Bool
  sourcedTerms : Ticker → Int → Option Terms
  shortConnection : Bool
  failure : Evidence

/-- A world with one account, seen at an instant. -/
def worldAt {zone : Zone} (market : Market zone) (now : Int) : World zone where
  market := market
  now := now
  wallClock := now
  orderSequence := 0
  foreignDue _ := []
  foreignNotional _ _ _ := 0
  foreignIntent _ := false
  sourcedTerms _ _ := none
  shortConnection := true
  failure := ⟨"", "", true, ""⟩

/-- The settings that the ledger reads: this book belongs to the account engine. -/
def Account.ledgerSettings (account : Account) : LedgerSettings :=
  ⟨.account, account.settings.accountType⟩

/-- The next number of the order sequence, above every number in use. -/
def nextOrderId (sequence : Nat) (orders : Table OrderId Order) : OrderId :=
  orders.keys.foldr max sequence + 1

/-- Rewrite one order row. -/
def rewriteOrder (id : OrderId) (change : Order → Order) (orders : Table OrderId Order) :
    Table OrderId Order :=
  mapRows (fun key order => if key = id then change order else order) orders

/-- The status that settlement writes beside a fine state. -/
def settledStatus : OrderState → CoarseStatus
  | .filled => .filled
  | .queued => .pending
  | .cancelled => .cancelled
  | _ => .rejected

/-- Both tables' entries for a new state of one order. -/
def Order.withState (state : OrderState) (reason : List Reason) (stateAt : Int) (order : Order) :
    Order :=
  { order with
    status := settledStatus state
    rejectReason := if settledStatus state = .rejected then reason else []
    details := order.details.map fun details =>
      { details with state := state, stateReason := reason, stateAt := stateAt } }

/-- Write an order's state during settlement. -/
def Account.setState (account : Account) (id : OrderId) (state : OrderState)
    (reason : List Reason) (stateAt : Int) : Account :=
  { account with orders := rewriteOrder id (Order.withState state reason stateAt) account.orders }

/-- Cancel an order in the order table, and in its details where these are queued. -/
def Order.cancel (reason : Reason) (stateAt : Int) (order : Order) : Order :=
  { order with
    status := .cancelled
    rejectReason := [reason]
    details := order.details.map fun details =>
      if details.state = .queued then
        { details with state := .cancelled, stateReason := [reason], stateAt := stateAt }
      else details }

/-- The reason that stands first, as a pattern with a trailing wildcard sees it. -/
def Order.led (leading : Reason → Bool) (order : Order) : Bool :=
  (order.details.bind fun details => details.stateReason.head?).any leading

/-- A pending order with queued details, as settlement reads it. -/
def pendingRow (id : OrderId) (order : Order) : Option PendingRow :=
  match order.details with
  | none => none
  | some details =>
    if order.status = .pending ∧ details.state = .queued then
      some
        { orderId := id, ticker := order.ticker, side := order.side, qty := order.qty
          signalDate := order.signalDate, orderType := details.orderType
          executable := details.executable, limitPx := details.limitPx
          sessionDate := details.sessionDate, receivedAt := details.receivedAt
          contingentOn := details.contingentOn, stateReason := details.stateReason
          limited := details.limited }
    else none

/-- Every pending row, by order number. -/
def Account.pendingRows (account : Account) : List PendingRow :=
  (account.orders.entries.filterMap fun row => pendingRow row.1 row.2).insertionSort
    fun a b => a.orderId ≤ b.orderId

theorem lookup_rewriteOrder (id other : OrderId) (change : Order → Order)
    (orders : Table OrderId Order) :
    (rewriteOrder id change orders).lookup other =
      (orders.lookup other).map fun order => if other = id then change order else order := by
  exact lookup_mapRows _ orders other

/-- A fresh number is in no row. -/
theorem nextOrderId_missing (sequence : Nat) (orders : Table OrderId Order) :
    orders.lookup (nextOrderId sequence orders) = none := by
  apply AList.lookup_eq_none.mpr
  intro member
  have bounded : nextOrderId sequence orders ≤ orders.keys.foldr max sequence :=
    le_foldr_max (AList.mem_keys.mp member)
  exact absurd bounded (Nat.not_succ_le_self _)

end TradingEngine.Accounts
