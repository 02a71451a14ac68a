import TradingEngine.BrokerSnapshots
import TradingEngine.EmergencyStopLog
import TradingEngine.Procedures
import TradingEngine.RiskControl

/-!
# Halt first, then cancel

`cancel_all_and_halt` records a halt, plans the cancellation of every open order,
cancels each under a record of its own and completes when the venue shows no open
order. Every part that matters is a transaction of its own, so a call that is lost
leaves a record of how far it came, and a retry goes on from there or refuses.

A cancellation is uncertain from the transaction that starts it until the venue's
cancelled order is bound to it, and no retry passes an uncertain cancellation.
-/

namespace TradingEngine.Broker

open KeyedTables Runs Procedures

variable {Digest : Type} [DecidableEq Digest]

inductive CancellationEventType where
  | cancellationStarted | cancellationAcknowledged
  deriving DecidableEq

/-- A row of `broker_cancellation_events`. -/
structure CancellationEvent (Digest : Type) where
  eventSequence : Nat
  accountId : Identifier
  brokerOrderId : Identifier
  eventType : CancellationEventType
  orderSha256 : Option Digest
  orderPayload : Option BrokerOrder
  occurredAt : Instant

inductive CancellationState where
  | uncertain | acknowledged
  deriving DecidableEq

/-- Payloads of the emergency-stop log. -/
inductive StopBody (Digest : Type) where
  | started (body : StopStarted Digest)
  | completed (body : StopCompleted Digest)
  deriving DecidableEq

def stopFields : StopFields (StopBody Digest) where
  haltKey
    | .started body => some body.haltKey
    | .completed body => some body.haltKey
  accountId
    | .started body => some body.accountId
    | .completed body => some body.accountId
  occurredAt
    | .started body => some body.occurredAt
    | .completed body => some body.occurredAt

/-- Halts, cancellations under their keys by event sequence, and the stop log. -/
structure StopLedger (Digest : Type) where
  controlEvents : List (HaltEvent Digest)
  cancellations : Table Digest (List (CancellationEvent Digest))
  stops : StopLog (StopBody Digest) Digest

def StopLedger.empty : StopLedger Digest := ⟨[], ∅, ∅⟩

def StopLedger.events (ledger : StopLedger Digest) (key : Digest) : List (CancellationEvent Digest) :=
  (ledger.cancellations.lookup key).getD []

def StopLedger.insertEvent (ledger : StopLedger Digest) (key : Digest)
    (event : CancellationEvent Digest) : StopLedger Digest :=
  { ledger with cancellations := ledger.cancellations.insert key (ledger.events key ++ [event]) }

/-- The state of a cancellation with its latest event, once both are verified. -/
def cancellationEvents (ledger : StopLedger Digest) (key : Digest) :
    Except BrokerError (Option (CancellationState × CancellationEvent Digest)) :=
  match ledger.events key with
  | [] => .ok none
  | started :: rest =>
    if 1 < rest.length ∨ started.eventSequence ≠ 1 ∨ started.eventType ≠ .cancellationStarted ∨
        started.orderSha256.isSome ∨ started.orderPayload.isSome then
      .error (.stateError "stored broker cancellation event sequence is invalid")
    else
      match rest with
      | [] => .ok (some (.uncertain, started))
      | acknowledged :: _ =>
        if acknowledged.eventSequence ≠ 2 ∨ acknowledged.accountId ≠ started.accountId ∨
            acknowledged.brokerOrderId ≠ started.brokerOrderId ∨
            acknowledged.eventType ≠ .cancellationAcknowledged ∨
            acknowledged.orderSha256.isNone ∨ acknowledged.orderPayload.isNone then
          .error (.stateError "stored broker cancellation event sequence is invalid")
        else .ok (some (.acknowledged, acknowledged))

/-- Persist cancellation uncertainty before invoking an adapter. An acknowledged
cancellation is reported as such and nothing is written. -/
def beginCancellation (ledger : StopLedger Digest) (key : Digest)
    (accountId brokerOrderId : Identifier) (now : Instant) :
    Except BrokerError (CancellationState × StopLedger Digest) :=
  (cancellationEvents ledger key).bind fun
  | none =>
    .ok (.uncertain, ledger.insertEvent key
      { eventSequence := 1, accountId, brokerOrderId, eventType := .cancellationStarted
        orderSha256 := none, orderPayload := none, occurredAt := now })
  | some (state, event) =>
    if event.accountId ≠ accountId ∨ event.brokerOrderId ≠ brokerOrderId then
      .error (.stateError "stored broker cancellation conflicts with request")
    else
      match state with
      | .uncertain =>
        .error (.cancellationUncertain "cancellation is uncertain and requires reconciliation")
      | .acknowledged => .ok (.acknowledged, ledger)

section Records

variable (sha256 : Payload Digest → Digest)

/-- Bind one exact cancelled-order acknowledgement to a started cancellation. -/
def acknowledgeCancellation (ledger : StopLedger Digest) (key : Digest)
    (accountId brokerOrderId : Identifier) (order : BrokerOrder) (now : Instant) :
    Except BrokerError (StopLedger Digest) :=
  if order.accountId ≠ accountId ∨ order.brokerOrderId ≠ brokerOrderId ∨
      order.status ≠ .cancelled then
    .error (.stateError "adapter cancellation acknowledgement does not match request")
  else
    (cancellationEvents ledger key).bind fun
    | none => .error (.stateError "broker cancellation was not durably started")
    | some (state, event) =>
      if event.accountId ≠ accountId ∨ event.brokerOrderId ≠ brokerOrderId then
        .error (.stateError "stored broker cancellation conflicts with request")
      else
        let digest := sha256 (.order order)
        match state with
        | .acknowledged =>
          if event.orderSha256 ≠ some digest ∨ event.orderPayload ≠ some order then
            .error (.stateError
              "stored broker cancellation acknowledgement conflicts with adapter order")
          else .ok ledger
        | .uncertain =>
          .ok (ledger.insertEvent key
            { eventSequence := 2, accountId, brokerOrderId, eventType := .cancellationAcknowledged
              orderSha256 := some digest, orderPayload := some order, occurredAt := now })

/-- The exact verified cancelled order, if acknowledged. -/
def acknowledgedCancellationOrder (ledger : StopLedger Digest) (key : Digest) :
    Except BrokerError (Option BrokerOrder) :=
  (cancellationEvents ledger key).bind fun
  | none | some (.uncertain, _) => .ok none
  | some (.acknowledged, event) =>
    match event.orderPayload with
    | none => .error (.stateError "stored broker order payload is invalid")
    | some order =>
      if order.accountId ≠ event.accountId ∨ order.brokerOrderId ≠ event.brokerOrderId ∨
          order.status ≠ .cancelled ∨ some (sha256 (.order order)) ≠ event.orderSha256 then
        .error (.stateError "stored broker cancellation acknowledgement is invalid")
      else .ok (some order)

/-- Every verified cancellation state of one account. -/
def cancellationStatesForAccount (ledger : StopLedger Digest) (accountId : Identifier) :
    Except BrokerError (List (Digest × CancellationState)) :=
  ((ledger.cancellations.entries.filter fun entry =>
      entry.2.any fun row => decide (row.accountId = accountId)).map (·.1)).mapM fun key =>
    (cancellationEvents ledger key).bind fun
    | none => .error (.stateError "stored broker cancellation account state is invalid")
    | some (state, event) =>
      if event.accountId ≠ accountId then
        .error (.stateError "stored broker cancellation account state is invalid")
      else .ok (key, state)

end Records

inductive StopOperation (Digest : Type) where
  | halt (haltKey accountId : Identifier) (reason : String) (now : Instant)
  | read
  | recordStart (body : StopStarted Digest) (now : Instant)
  | beginCancellation (key : Digest) (accountId brokerOrderId : Identifier) (now : Instant)
  | acknowledgeCancellation (key : Digest) (accountId brokerOrderId : Identifier)
      (order : BrokerOrder) (now : Instant)
  | recordCompletion (body : StopCompleted Digest) (now : Instant)

/-- Calls of the adapter. The halt key says for which stop a cancellation is asked; the
adapter does not see it. -/
inductive StopQuestion where
  | capture (accountId : Identifier)
  | cancelOrder (haltKey accountId brokerOrderId : Identifier)

/-- Two readings of the account, a returned order, or anything else, exceptions included. -/
inductive StopAnswer where
  | readings (first second : AccountReading)
  | cancelled (order : BrokerOrder)
  | other

structure StopRequest where
  accountId : Identifier
  haltKey : Identifier
  reason : String
  now : Instant

abbrev StopProcedure (Digest : Type) :=
  Procedure (StopLedger Digest) (StopOperation Digest) StopQuestion StopAnswer BrokerError
    (StopCompleted Digest × Digest)

def StopAnswer.captured (accountId : Identifier) : StopAnswer → Except BrokerError BrokerSnapshot
  | .readings first second => captureSnapshot accountId first second
  | .cancelled _ | .other => .error .adapterRaised

/-- Everything but the status and its reason. -/
def sameOrder (left right : BrokerOrder) : Bool :=
  left.brokerOrderId = right.brokerOrderId && left.terms = right.terms &&
    left.filledQuantity = right.filledQuantity

def validateAcknowledgement (reply : StopAnswer) (planned : BrokerOrder) :
    Except BrokerError BrokerOrder :=
  match reply with
  | .cancelled order =>
    if order.status = .cancelled && sameOrder order planned then .ok order
    else
      .error (.stateError "adapter cancellation acknowledgement does not match planned order")
  | .readings .. =>
    .error (.stateError "adapter cancellation acknowledgement does not match planned order")
  | .other => .error .adapterRaised

section Coordinator

variable (sha256 : Payload Digest → Digest)

/-- The digest of a body of the stop log. -/
def stopDigest : StopBody Digest → Digest
  | .started body => sha256 (.stopStarted body)
  | .completed body => sha256 (.stopCompleted body)

def recordStopEvent (ledger : StopLedger Digest) (call : StopCall (StopBody Digest)) :
    Except BrokerError (StopLedger Digest) :=
  (recordEmergencyStopEvent stopFields (stopDigest sha256) ledger.stops call).map
    fun (_, stops) => { ledger with stops := stops }

def stopEvents (ledger : StopLedger Digest) (haltKey : Identifier) :
    Except BrokerError (List (StopBody Digest)) :=
  emergencyStopEvents stopFields (stopDigest sha256) ledger.stops haltKey

def applyStop : StopOperation Digest → StopLedger Digest → Except BrokerError (StopLedger Digest)
  | .halt haltKey accountId reason now, ledger =>
    (recordHalt sha256 ledger.controlEvents haltKey accountId reason now).map fun events =>
      { ledger with controlEvents := events }
  | .read, ledger => .ok ledger
  | .recordStart body now, ledger =>
    recordStopEvent sha256 ledger
      ⟨body.haltKey, body.accountId, .emergencyStopStarted, .started body, now⟩
  | .beginCancellation key accountId brokerOrderId now, ledger =>
    (beginCancellation ledger key accountId brokerOrderId now).map Prod.snd
  | .acknowledgeCancellation key accountId brokerOrderId order now, ledger =>
    acknowledgeCancellation sha256 ledger key accountId brokerOrderId order now
  | .recordCompletion body now, ledger =>
    recordStopEvent sha256 ledger
      ⟨body.haltKey, body.accountId, .emergencyStopCompleted, .completed body, now⟩

def cancellationKey (haltKey : Identifier) (order : BrokerOrder) : Digest :=
  sha256 (.cancellation haltKey order.accountId order.brokerOrderId order.idempotencyKey)

def startPayload (request : StopRequest) (haltEventSha256 : Digest) (snapshot : BrokerSnapshot) :
    StopStarted Digest :=
  let orders := snapshot.openOrders.map fun order =>
    ({ cancellationKey := cancellationKey sha256 request.haltKey order, order } :
      PlannedOrder Digest)
  { haltKey := request.haltKey, accountId := request.accountId, reason := request.reason
    occurredAt := request.now, haltEventSha256
    initialOpenOrdersSha256 := sha256 (.plannedOrders orders), orders }

/-- Planned orders still stand, carry their own keys and repeat neither key nor order. -/
def validatePlanned (haltKey : Identifier) (orders : List (PlannedOrder Digest)) : Bool :=
  (orders.all fun planned => planned.order.status.stands &&
    planned.cancellationKey = cancellationKey sha256 haltKey planned.order) &&
  (orders.map (·.cancellationKey)).Nodup && (orders.map (·.order.brokerOrderId)).Nodup

def validateStart (event : StopBody Digest) (haltKey accountId : Identifier) :
    Except BrokerError (StopStarted Digest) :=
  match event with
  | .completed _ => .error (.stateError "stored emergency-stop start event is invalid")
  | .started start =>
    if start.schemaVersion ≠ 1 ∨ start.eventType ≠ "emergency_stop_started" ∨
        start.haltKey ≠ haltKey ∨ start.accountId ≠ accountId ∨ start.reason = "" ∨
        sha256 (.plannedOrders start.orders) ≠ start.initialOpenOrdersSha256 ∨
        start.submissionAuthority ≠ "none" then
      .error (.stateError "stored emergency-stop start event is invalid")
    else if validatePlanned sha256 haltKey start.orders then .ok start
    else .error (.stateError "stored emergency-stop order is invalid")

/-- Order identifiers in the order of their texts. -/
def sortedIds (ids : List Identifier) : List Identifier := ids.mergeSort fun a b => a.text ≤ b.text

def completionPayload (request : StopRequest) (start : StopStarted Digest)
    (cancelled : List BrokerOrder) : StopCompleted Digest where
  accountId := request.accountId
  haltKey := request.haltKey
  haltEventSha256 := start.haltEventSha256
  startEventSha256 := sha256 (.stopStarted start)
  occurredAt := request.now
  cancelledOrderIds := sortedIds (cancelled.map (·.brokerOrderId))
  cancelledCount := cancelled.length
  finalOpenOrdersSha256 := sha256 (.plannedOrders [])

/-- A stored completion, if there is one, must be the one that the start calls for. -/
def completedResult (events : List (StopBody Digest)) (start : StopStarted Digest) :
    Except BrokerError (Option (StopCompleted Digest × Digest)) :=
  match events with
  | _ :: .completed result :: _ =>
    if result.schemaVersion ≠ 1 ∨ result.eventType ≠ "emergency_stop_completed" ∨
        result.status ≠ "halted_cancelled" ∨ result.accountId ≠ start.accountId ∨
        result.haltKey ≠ start.haltKey ∨ result.haltEventSha256 ≠ start.haltEventSha256 ∨
        result.startEventSha256 ≠ sha256 (.stopStarted start) ∨
        result.remainingOpenOrderCount ≠ 0 ∨ result.submissionAuthority ≠ "none" ∨
        ¬ result.cancelledOrderIds.Nodup ∨
        result.cancelledCount ≠ result.cancelledOrderIds.length ∨
        result.cancelledOrderIds ≠ sortedIds (start.orders.map (·.order.brokerOrderId)) ∨
        result.finalOpenOrdersSha256 ≠ sha256 (.plannedOrders []) then
      .error (.stateError "stored emergency-stop completion event is invalid")
    else .ok (some (result, sha256 (.stopCompleted result)))
  | _ :: .started _ :: _ =>
    .error (.stateError "stored emergency-stop completion event is invalid")
  | [] | [_] => .ok none

def verifiedAcknowledgements (ledger : StopLedger Digest)
    (states : List (Digest × CancellationState)) (planned : List (PlannedOrder Digest)) :
    Except BrokerError (List BrokerOrder) :=
  planned.mapM fun entry =>
    if states.lookup entry.cancellationKey ≠ some .acknowledged then
      .error (.stateError "completed emergency stop has an unacknowledged cancellation")
    else
      (acknowledgedCancellationOrder sha256 ledger entry.cancellationKey).bind fun
      | none =>
        .error (.stateError "acknowledged cancellation conflicts with emergency-stop order")
      | some order =>
        if sameOrder order entry.order then .ok order
        else .error (.stateError "acknowledged cancellation conflicts with emergency-stop order")

/-- Go on with a result, or end with what was raised. -/
def proceed {α : Type} (result : Except BrokerError α) (next : α → StopProcedure Digest) :
    StopProcedure Digest :=
  match result with
  | .ok value => next value
  | .error raised => .done (.error raised)

/-- Go on when a condition holds. -/
def ensure (condition : Bool) (raised : BrokerError) (next : StopProcedure Digest) :
    StopProcedure Digest :=
  if condition then next else .done (.error raised)

/-- The start that is stored, or a new one over what is open at the venue. -/
def startEvents (request : StopRequest) (haltEventSha256 : Digest) (ledger : StopLedger Digest)
    (next : List (StopBody Digest) → StopProcedure Digest) : StopProcedure Digest :=
  proceed (stopEvents sha256 ledger request.haltKey) fun events =>
  if events ≠ [] then next events
  else
    proceed (emergencyStopStatesForAccount stopFields (stopDigest sha256) ledger.stops
      request.accountId) fun operations =>
    ensure (operations.all fun entry => entry.2 ≠ .started)
      (.stateError "another emergency-stop operation is already in progress") <|
    proceed (cancellationStatesForAccount ledger request.accountId) fun existing =>
    ensure (existing.all fun entry => entry.2 ≠ .uncertain)
      (.cancellationUncertain "account has uncertain cancellation evidence") <|
    .ask (.capture request.accountId) fun answer =>
    proceed (answer.captured request.accountId) fun initial =>
    let start := startPayload sha256 request haltEventSha256 initial
    .transact (.recordStart start request.now) fun _ => next [.started start]

/-- Cancel the planned orders one after another. -/
def cancelPlannedOrders (request : StopRequest) (states : List (Digest × CancellationState))
    (current : List BrokerOrder) : List (PlannedOrder Digest) → List BrokerOrder →
    (List BrokerOrder → StopProcedure Digest) → StopProcedure Digest
  | [], cancelled, next => next cancelled
  | planned :: rest, cancelled, next =>
    if states.lookup planned.cancellationKey = some .acknowledged then
      .transact .read fun ledger =>
      proceed (acknowledgedCancellationOrder sha256 ledger planned.cancellationKey) fun
      | none =>
        .done (.error
          (.stateError "acknowledged cancellation conflicts with emergency-stop order"))
      | some acknowledgement =>
        ensure (sameOrder acknowledgement planned.order &&
            current.all fun order => order.brokerOrderId ≠ planned.order.brokerOrderId)
          (.stateError "acknowledged cancellation conflicts with emergency-stop order") <|
        cancelPlannedOrders request states current rest (cancelled ++ [acknowledgement]) next
    else
      ensure ((current.find? fun order => order.brokerOrderId = planned.order.brokerOrderId).any
          fun observed => sameOrder observed planned.order)
        (.stateError "uncancelled emergency-stop order is not currently open") <|
      .transact (.beginCancellation planned.cancellationKey request.accountId
        planned.order.brokerOrderId request.now) fun _ =>
      .ask (.cancelOrder request.haltKey request.accountId planned.order.brokerOrderId)
        fun answer =>
      proceed (validateAcknowledgement answer planned.order) fun acknowledgement =>
      .transact (.acknowledgeCancellation planned.cancellationKey request.accountId
        planned.order.brokerOrderId acknowledgement request.now) fun _ =>
      cancelPlannedOrders request states current rest (cancelled ++ [acknowledgement]) next

/-- Persist a halt first, then cancel every stable open order exactly once. -/
def cancelAllAndHalt (request : StopRequest) : StopProcedure Digest :=
  .transact (.halt request.haltKey request.accountId request.reason request.now) fun _ =>
  .transact .read fun ledger =>
  proceed (controlStatus sha256 ledger.controlEvents request.accountId) fun control =>
  ensure control.halted (.stateError "emergency stop did not establish halted state") <|
  proceed (haltEventSha256 sha256 ledger.controlEvents request.haltKey request.accountId)
    fun haltEvent =>
  startEvents sha256 request haltEvent ledger fun events =>
  match events with
  | [] => .done (.error (.stateError "stored emergency-stop start event is invalid"))
  | first :: _ =>
    proceed (validateStart sha256 first request.haltKey request.accountId) fun start =>
    ensure (start.reason = request.reason && start.haltEventSha256 = haltEvent)
      (.stateError "stored emergency-stop start conflicts with halt event") <|
    proceed (completedResult sha256 events start) fun completed =>
    .transact .read fun ledger =>
    proceed (cancellationStatesForAccount ledger request.accountId) fun states =>
    ensure (states.all fun entry => entry.2 ≠ .uncertain)
      (.cancellationUncertain "account has uncertain cancellation evidence") <|
    match completed with
    | some result =>
      proceed (verifiedAcknowledgements sha256 ledger states start.orders) fun _ =>
      .ask (.capture request.accountId) fun answer =>
      proceed (answer.captured request.accountId) fun closing =>
      ensure closing.openOrders.isEmpty
        (.stateError "open orders exist after completed emergency stop") <|
      .done (.ok result)
    | none =>
      .ask (.capture request.accountId) fun answer =>
      proceed (answer.captured request.accountId) fun current =>
      ensure (current.openOrders.all fun order =>
          order.brokerOrderId ∈ start.orders.map (·.order.brokerOrderId))
        (.stateError "open-order set changed after emergency stop started") <|
      cancelPlannedOrders sha256 request states current.openOrders start.orders [] fun cancelled =>
      .ask (.capture request.accountId) fun answer =>
      proceed (answer.captured request.accountId) fun closing =>
      ensure closing.openOrders.isEmpty
        (.stateError "open orders remain after emergency cancellation") <|
      .transact .read fun ledger =>
      proceed (cancellationStatesForAccount ledger request.accountId) fun finalStates =>
      ensure (finalStates.all fun entry => entry.2 ≠ .uncertain)
        (.cancellationUncertain "account has uncertain cancellation evidence") <|
      proceed (verifiedAcknowledgements sha256 ledger finalStates start.orders) fun retained =>
      ensure (sortedIds (retained.map (·.brokerOrderId)) =
          sortedIds (cancelled.map (·.brokerOrderId)))
        (.stateError "emergency-stop cancellation evidence is incomplete") <|
      let body := completionPayload sha256 request start cancelled
      .transact (.recordCompletion body request.now) fun _ =>
      .done (.ok (body, sha256 (.stopCompleted body)))

/-- Calls of `cancel_all_and_halt` on one ledger. -/
def stopSystem : System (StopLedger Digest) (StopOperation Digest) StopQuestion StopAnswer
    BrokerError (StopCompleted Digest × Digest) StopRequest where
  apply := applyStop sha256
  serve := cancelAllAndHalt sha256

end Coordinator

end TradingEngine.Broker
