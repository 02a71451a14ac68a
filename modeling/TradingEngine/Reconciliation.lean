import TradingEngine.BrokerSnapshots
import TradingEngine.KeyedTables
import TradingEngine.Runs

/-!
# Reconciliation of two venues

Two snapshots are compared without the identifiers of their venues. Positions and
orders are compared under their keys; fills are compared under their intents, in the
order of their texts. What is recorded is the comparable payload of each side, which
keeps the fills in the order of the snapshot, and a match is recorded only when the
two payloads have one digest.

A comparison raises when it finds too many differences; it writes nothing before. The
length of a detail is bounded by the classifications there are and is not checked here.
-/

namespace TradingEngine.Broker

open KeyedTables Runs

def MAX_DIFFERENCES : Nat := 1000

structure ComparableAccount where
  active : Bool
  currency : String
  cash : ℚ
  buyingPower : ℚ
  initialCash : ℚ
  marginEnabled : Bool
  deriving DecidableEq

structure ComparablePosition where
  symbol : Symbol
  quantity : ℚ
  averagePrice : ℚ
  deriving DecidableEq

structure ComparableOrder where
  idempotencyKey : Identifier
  symbol : Symbol
  side : BrokerSide
  quantity : ℚ
  signalDate : Int
  status : BrokerOrderStatus
  rejectionReason : Option String
  filledQuantity : ℚ
  orderType : BrokerOrderType
  timeInForce : TimeInForce
  extendedHours : Bool
  deriving DecidableEq

structure ComparableFill where
  idempotencyKey : Identifier
  symbol : Symbol
  side : BrokerSide
  quantity : ℚ
  occurredOn : Int
  referencePrice : ℚ
  price : ℚ
  totalCostBps : ℚ
  deriving DecidableEq

structure ComparablePayload where
  schemaVersion : Nat := 1
  account : ComparableAccount
  positions : List ComparablePosition
  openOrders : List ComparableOrder
  fills : List ComparableFill
  deriving DecidableEq

def BrokerAccount.comparable (account : BrokerAccount) : ComparableAccount where
  active := account.active
  currency := account.currency
  cash := account.cash
  buyingPower := account.buyingPower
  initialCash := account.initialCash
  marginEnabled := account.marginEnabled

def BrokerPosition.comparable (position : BrokerPosition) : ComparablePosition where
  symbol := position.symbol
  quantity := position.quantity
  averagePrice := position.averagePrice

def BrokerOrder.comparable (order : BrokerOrder) : ComparableOrder where
  idempotencyKey := order.idempotencyKey
  symbol := order.symbol
  side := order.side
  quantity := order.quantity
  signalDate := order.signalDate
  status := order.status
  rejectionReason := order.rejectionReason
  filledQuantity := order.filledQuantity
  orderType := order.orderType
  timeInForce := order.timeInForce
  extendedHours := order.extendedHours

def BrokerFill.comparable (fill : BrokerFill) : ComparableFill where
  idempotencyKey := fill.idempotencyKey
  symbol := fill.symbol
  side := fill.side
  quantity := fill.quantity
  occurredOn := fill.occurredOn
  referencePrice := fill.referencePrice
  price := fill.price
  totalCostBps := fill.totalCostBps

/-- Economic state normalized across different account and native identifiers. -/
def BrokerSnapshot.comparablePayload (snapshot : BrokerSnapshot) : ComparablePayload where
  account := snapshot.account.comparable
  positions := snapshot.positions.map BrokerPosition.comparable
  openOrders := snapshot.openOrders.map BrokerOrder.comparable
  fills := snapshot.fills.map BrokerFill.comparable

inductive FieldValue where
  | flag (value : Bool)
  | number (value : ℚ)
  | date (value : Int)
  | text (value : String)
  | identifier (value : Identifier)
  | symbol (value : Symbol)
  | side (value : BrokerSide)
  | status (value : BrokerOrderStatus)
  | reason (value : Option String)
  | orderType (value : BrokerOrderType)
  | timeInForce (value : TimeInForce)
  deriving DecidableEq

/-- What stands on one side of a difference. -/
inductive Observation where
  | none
  | value (value : FieldValue)
  | position (position : ComparablePosition)
  | order (order : ComparableOrder)
  | fills (fills : List ComparableFill)
  deriving DecidableEq

structure ReconciliationDifference where
  classification : String
  key : String
  field : String
  expected : Observation
  observed : Observation
  deriving DecidableEq

/-- The fields of an account in the order of their names; so for the others. -/
def ComparableAccount.fields (account : ComparableAccount) : List (String × FieldValue) :=
  [("active", .flag account.active), ("buying_power", .number account.buyingPower),
    ("cash", .number account.cash), ("currency", .text account.currency),
    ("initial_cash", .number account.initialCash), ("margin_enabled", .flag account.marginEnabled)]

def ComparablePosition.fields (position : ComparablePosition) : List (String × FieldValue) :=
  [("average_price", .number position.averagePrice), ("quantity", .number position.quantity),
    ("symbol", .symbol position.symbol)]

def ComparableOrder.fields (order : ComparableOrder) : List (String × FieldValue) :=
  [("extended_hours", .flag order.extendedHours), ("filled_quantity", .number order.filledQuantity),
    ("idempotency_key", .identifier order.idempotencyKey), ("order_type", .orderType order.orderType),
    ("quantity", .number order.quantity), ("rejection_reason", .reason order.rejectionReason),
    ("side", .side order.side), ("signal_date", .date order.signalDate),
    ("status", .status order.status), ("symbol", .symbol order.symbol),
    ("time_in_force", .timeInForce order.timeInForce)]

def ComparableFill.fields (fill : ComparableFill) : List (String × FieldValue) :=
  [("idempotency_key", .identifier fill.idempotencyKey), ("occurred_on", .date fill.occurredOn),
    ("price", .number fill.price), ("quantity", .number fill.quantity),
    ("reference_price", .number fill.referencePrice), ("side", .side fill.side),
    ("symbol", .symbol fill.symbol), ("total_cost_bps", .number fill.totalCostBps)]

/-- One difference for each field that differs. -/
def compareMapping (category key : String) (expected observed : List (String × FieldValue)) :
    List ReconciliationDifference :=
  (expected.zip observed).filterMap fun (entry, other) =>
    if entry.2 = other.2 then none
    else some
      { classification := category ++ "_" ++ entry.1, key, field := entry.1
        expected := .value entry.2, observed := .value other.2 }

/-- Rows under their keys; among rows of one key the last one counts. -/
def byKey {α : Type} (keyText : α → String) (rows : List α) : Table String α :=
  rows.foldl (fun table row => table.insert (keyText row) row) ∅

def sortedTexts (texts : List String) : List String := texts.mergeSort fun a b => a ≤ b

def compareKeyed {α : Type} (category : String) (keyText : α → String)
    (fields : α → List (String × FieldValue)) (shown : α → Observation) (expected observed : List α) :
    List ReconciliationDifference :=
  let expectedByKey := byKey keyText expected
  let observedByKey := byKey keyText observed
  let missing := (sortedTexts (expectedByKey.keys.filter fun key => key ∉ observedByKey)).map fun key =>
    { classification := category ++ "_missing", key, field := category
      expected := ((expectedByKey.lookup key).map shown).getD .none, observed := .none }
  let extra := (sortedTexts (observedByKey.keys.filter fun key => key ∉ expectedByKey)).map fun key =>
    { classification := category ++ "_extra", key, field := category
      expected := .none, observed := ((observedByKey.lookup key).map shown).getD .none }
  let changed := (sortedTexts (expectedByKey.keys.filter fun key => key ∈ observedByKey)).flatMap
    fun key => match expectedByKey.lookup key, observedByKey.lookup key with
      | some row, some other => compareMapping category key (fields row) (fields other)
      | _, _ => []
  missing ++ extra ++ changed

section Fills

-- The JSON text of a comparable fill.
variable (dumps : ComparableFill → String)

/-- The fills of an intent in the order of their texts. -/
def fillsOf (fills : List ComparableFill) (key : Identifier) : List ComparableFill :=
  (fills.filter fun fill => fill.idempotencyKey = key).mergeSort fun a b => dumps a ≤ dumps b

def fillKeys (expected observed : List ComparableFill) : List Identifier :=
  (((expected ++ observed).map ComparableFill.idempotencyKey).eraseDups).mergeSort
    fun a b => a.text ≤ b.text

def compareFills (expected observed : List ComparableFill) : List ReconciliationDifference :=
  (fillKeys expected observed).flatMap fun key =>
    let expectedFills := fillsOf dumps expected key
    let observedFills := fillsOf dumps observed key
    if expectedFills.length ≠ observedFills.length then
      [{ classification := "fill_count", key := key.text, field := "fills"
         expected := .fills expectedFills, observed := .fills observedFills }]
    else
      (expectedFills.zip observedFills).zipIdx.flatMap fun ((fill, other), index) =>
        compareMapping "fill" (key.text ++ ":" ++ toString index) fill.fields other.fields

/-- Classify exact economic differences between two adapter snapshots. -/
def compare (expected observed : BrokerSnapshot) :
    Except BrokerError (List ReconciliationDifference) :=
  let expectedPayload := expected.comparablePayload
  let observedPayload := observed.comparablePayload
  let differences :=
    compareMapping "account" "account" expectedPayload.account.fields
        observedPayload.account.fields ++
      compareKeyed "position" (·.symbol.text) ComparablePosition.fields .position
        expectedPayload.positions observedPayload.positions ++
      compareKeyed "order" (·.idempotencyKey.text) ComparableOrder.fields .order
        expectedPayload.openOrders observedPayload.openOrders ++
      compareFills dumps expectedPayload.fills observedPayload.fills
  if MAX_DIFFERENCES < differences.length then
    .error (.stateError "reconciliation difference count exceeds limit")
  else .ok differences

end Fills

inductive ReconciliationStatus where
  | matched | difference | unavailable
  deriving DecidableEq

inductive SnapshotRole where
  | expected | observed
  deriving DecidableEq

/-- The JSON detail of a result. -/
structure ReconciliationDetail where
  schemaVersion : Nat := 1
  differenceCount : Nat
  classifications : List String
  errorType : Option String := none
  deriving DecidableEq

structure ReconciliationRow (Digest : Type) where
  accountId : Identifier
  status : ReconciliationStatus
  expectedSha256 : Option Digest
  observedSha256 : Option Digest
  expectedPayload : Option ComparablePayload
  observedPayload : Option ComparablePayload
  detail : ReconciliationDetail
  deriving DecidableEq

/-- Snapshots under their reconciliation and role, results, and the differences of each
result in their order. A row is stored under what its digest is taken from. -/
structure ReconciliationLedger (Digest : Type) where
  snapshots : Table (Identifier × SnapshotRole) (Identifier × BrokerSnapshot)
  reconciliations : Table Identifier (ReconciliationRow Digest)
  differences : Table Identifier (List ReconciliationDifference)

structure ReconciliationResult where
  status : ReconciliationStatus
  expected : Option BrokerSnapshot
  observed : Option BrokerSnapshot
  differences : List ReconciliationDifference

section Records

variable {Digest : Type} [DecidableEq Digest] (sha256 : ComparablePayload → Digest)

/-- Append one exact adapter snapshot, accepting only exact replay. -/
def recordSnapshot (ledger : ReconciliationLedger Digest) (key : Identifier) (role : SnapshotRole)
    (accountId : Identifier) (snapshot : BrokerSnapshot) :
    Except BrokerError (ReconciliationLedger Digest) :=
  match ledger.snapshots.lookup (key, role) with
  | none =>
    .ok { ledger with snapshots := ledger.snapshots.insert (key, role) (accountId, snapshot) }
  | some stored =>
    if stored ≠ (accountId, snapshot) then
      .error (.stateError "stored broker snapshot conflicts with snapshot key")
    else .ok ledger

/-- Append one immutable reconciliation result, accepting exact replay. -/
def recordReconciliation (ledger : ReconciliationLedger Digest) (key accountId : Identifier)
    (status : ReconciliationStatus) (expected observed : Option ComparablePayload)
    (detail : ReconciliationDetail) : Except BrokerError (ReconciliationLedger Digest) :=
  let expectedSha256 := expected.map sha256
  let observedSha256 := observed.map sha256
  if status = .matched ∧ (expectedSha256 = none ∨ expectedSha256 ≠ observedSha256) then
    .error (.valueError "matching reconciliation requires equal expected and observed state")
  else
    let row : ReconciliationRow Digest :=
      { accountId, status, expectedSha256, observedSha256, expectedPayload := expected
        observedPayload := observed, detail }
    match ledger.reconciliations.lookup key with
    | none => .ok { ledger with reconciliations := ledger.reconciliations.insert key row }
    | some stored =>
      if stored ≠ row then
        .error (.stateError "stored broker reconciliation conflicts with key")
      else .ok ledger

/-- Append one complete ordered discrepancy set, accepting exact replay. -/
def recordReconciliationDifferences (ledger : ReconciliationLedger Digest) (key : Identifier)
    (differences : List ReconciliationDifference) :
    Except BrokerError (ReconciliationLedger Digest) :=
  match ledger.reconciliations.lookup key with
  | none => .error (.stateError "broker reconciliation result is unavailable")
  | some row =>
    if decide (row.status = .matched) ≠ decide (differences.length = 0) then
      .error (.stateError
        "broker reconciliation difference count conflicts with result status")
    else
      let stored := (ledger.differences.lookup key).getD []
      if stored ≠ [] then
        if stored ≠ differences then
          .error (.stateError "stored broker reconciliation differences conflict with key")
        else .ok ledger
      else if differences = [] then .ok ledger
      else .ok { ledger with differences := ledger.differences.insert key differences }

end Records

/-- A capture, or the name of the adapter error that ended it. -/
abbrev Capture := Except String BrokerSnapshot

section Reconcile

variable (dumps : ComparableFill → String) {Digest : Type} [DecidableEq Digest]
  (sha256 : ComparablePayload → Digest)

/-- Record that one side could not be read. -/
def unavailableResult (ledger : ReconciliationLedger Digest)
    (key expectedAccountId : Identifier) (unavailable : Identifier) (stage errorType : String)
    (expected : Option BrokerSnapshot) :
    Except BrokerError (ReconciliationResult × ReconciliationLedger Digest) :=
  let difference : ReconciliationDifference :=
    { classification := stage ++ "_unavailable", key := unavailable.text, field := "account"
      expected := .value (.text "available")
      observed := .value (.text "unavailable") }
  let detail : ReconciliationDetail :=
    { differenceCount := 1, classifications := [stage ++ "_unavailable"]
      errorType := some errorType }
  let snapshots : Except BrokerError (ReconciliationLedger Digest) := match expected with
    | none => .ok ledger
    | some snapshot => recordSnapshot ledger key .expected expectedAccountId snapshot
  snapshots.bind fun ledger =>
  (recordReconciliation sha256 ledger key expectedAccountId .unavailable
    (expected.map BrokerSnapshot.comparablePayload) none detail).bind fun ledger =>
  (recordReconciliationDifferences ledger key [difference]).map fun ledger =>
    (⟨.unavailable, expected, none, [difference]⟩, ledger)

/-- Capture, compare, and durably retain one reconciliation result. The expected side is
captured once more after the observed side. -/
def reconcile (ledger : ReconciliationLedger Digest)
    (key expectedAccountId observedAccountId : Identifier)
    (expectedCapture observedCapture expectedAfter : Capture) :
    Except BrokerError (ReconciliationResult × ReconciliationLedger Digest) :=
  match expectedCapture, observedCapture, expectedAfter with
  | .error raised, _, _ =>
    unavailableResult sha256 ledger key expectedAccountId expectedAccountId "expected" raised none
  | .ok expected, .error raised, _ =>
    unavailableResult sha256 ledger key expectedAccountId observedAccountId "observed" raised
      (some expected)
  | .ok _, .ok _, .error raised =>
    unavailableResult sha256 ledger key expectedAccountId expectedAccountId "expected" raised none
  | .ok expected, .ok observed, .ok again =>
    if expected ≠ again then
      .error (.stateError "expected adapter state changed during cross-venue reconciliation")
    else
      (compare dumps expected observed).bind fun differences =>
      let status : ReconciliationStatus := if differences = [] then .matched else .difference
      let detail : ReconciliationDetail :=
        { differenceCount := differences.length
          classifications :=
            sortedTexts (differences.map ReconciliationDifference.classification).eraseDups }
      (recordSnapshot ledger key .expected expectedAccountId expected).bind fun ledger =>
      (recordSnapshot ledger key .observed observedAccountId observed).bind fun ledger =>
      (recordReconciliation sha256 ledger key expectedAccountId status
        (some expected.comparablePayload) (some observed.comparablePayload) detail).bind
        fun ledger =>
      (recordReconciliationDifferences ledger key differences).map fun ledger =>
        (⟨status, some expected, some observed, differences⟩, ledger)

end Reconcile

end TradingEngine.Broker
