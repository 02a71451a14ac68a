import TradingEngine.RiskControl
import TradingEngine.KeyedTables

/-!
# The submission ledger

Intents, risk decisions, submission attempts and their resolutions. A submission is
uncertain from the transaction that starts it until an adapter's order is bound to
it; what was stored under a key is checked again whenever the key is read.

A stored text is modelled by the body that it encodes, so parsing it back returns
that body; the checks that remain compare columns with bodies and with digests.
Attempts are kept under their key in the order of their event sequence, which is how
every query reads them.
-/

namespace TradingEngine.Broker

open KeyedTables Runs

variable {Digest : Type} [DecidableEq Digest]

/-- A row of `broker_intents`. -/
structure IntentRow (Digest : Type) where
  accountId : Identifier
  intentSha256 : Digest
  intentPayload : SubmitOrderRequest
  deriving DecidableEq

inductive RiskStatus where
  | pass | reject
  deriving DecidableEq

/-- A risk decision. The expiry is absent when its text is no timestamp; `retained`
stands for the fields that are stored and compared but not read here. -/
structure RiskDecision (Digest : Type) where
  request : SubmitOrderRequest
  requestSha256 : Digest
  status : RiskStatus
  expiresAt : Option Instant
  decisionSha256 : Digest
  retained : String
  deriving DecidableEq

/-- A row of `broker_risk_decisions`. -/
structure RiskDecisionRow (Digest : Type) where
  accountId : Identifier
  decisionSha256 : Digest
  decisionPayload : RiskDecision Digest
  deriving DecidableEq

inductive SubmissionEventType where
  | submissionStarted | submissionAcknowledged
  deriving DecidableEq

/-- A row of `broker_submission_events`. -/
structure SubmissionEvent (Digest : Type) where
  eventSequence : Nat
  accountId : Identifier
  intentSha256 : Digest
  eventType : SubmissionEventType
  brokerOrderId : Option Identifier
  orderSha256 : Option Digest
  orderPayload : Option BrokerOrder
  occurredAt : Instant

/-- A row of `broker_submission_resolutions`. -/
structure ResolutionRow (Digest : Type) where
  resolutionKey : Identifier
  accountId : Identifier
  intentSha256 : Digest
  outcome : SubmissionResolutionOutcome
  controlSha256 : Digest
  evidenceSha256 : Digest
  evidencePayload : ResolutionEvidence
  resolutionSha256 : Digest
  resolutionPayload : ResolutionBody Digest
  observedAt : Instant

inductive SubmissionState where
  | uncertain | acknowledged
  deriving DecidableEq

structure BrokerLedger (Digest : Type) where
  intents : Table Identifier (IntentRow Digest)
  riskDecisions : Table Identifier (RiskDecisionRow Digest)
  attempts : Table Identifier (List (SubmissionEvent Digest))
  resolutions : Table Identifier (ResolutionRow Digest)
  controlEvents : List (HaltEvent Digest)

/-- The tables as they are created. -/
def BrokerLedger.empty : BrokerLedger Digest := ⟨∅, ∅, ∅, ∅, []⟩

/-- The attempts stored under a key, in the order of their event sequence. -/
def BrokerLedger.events (ledger : BrokerLedger Digest) (key : Identifier) :
    List (SubmissionEvent Digest) :=
  (ledger.attempts.lookup key).getD []

def BrokerLedger.insertEvent (ledger : BrokerLedger Digest) (key : Identifier)
    (event : SubmissionEvent Digest) : BrokerLedger Digest :=
  { ledger with attempts := ledger.attempts.insert key (ledger.events key ++ [event]) }

omit [DecidableEq Digest] in
@[simp] theorem BrokerLedger.events_insertEvent (ledger : BrokerLedger Digest) (key : Identifier)
    (event : SubmissionEvent Digest) :
    (ledger.insertEvent key event).events key = ledger.events key ++ [event] := by
  simp [insertEvent, events]

omit [DecidableEq Digest] in
theorem BrokerLedger.events_insertEvent_ne (ledger : BrokerLedger Digest) {key other : Identifier}
    (event : SubmissionEvent Digest) (different : other ≠ key) :
    (ledger.insertEvent key event).events other = ledger.events other := by
  simp [insertEvent, events, AList.lookup_insert_ne different]

section Intents

variable (sha256 : Payload Digest → Digest)

/-- Insert an immutable intent, or verify an exact idempotent replay. -/
def recordIntent (ledger : BrokerLedger Digest) (request : SubmitOrderRequest) :
    Except BrokerError (Digest × BrokerLedger Digest) :=
  let digest := sha256 (.intent request)
  let row : IntentRow Digest := ⟨request.accountId, digest, request⟩
  match ledger.intents.lookup request.idempotencyKey with
  | none => .ok (digest, { ledger with intents := ledger.intents.insert request.idempotencyKey row })
  | some stored =>
    if stored ≠ row then
      .error (.idempotencyConflict "stored broker intent conflicts with idempotency key")
    else .ok (digest, ledger)

/-- Append one verified risk decision bound to the immutable intent. The verifier
returns the decision that it was given, or raises. -/
def recordRiskDecision (verify : RiskDecision Digest → Except BrokerError Unit)
    (ledger : BrokerLedger Digest) (request : SubmitOrderRequest) (decision : RiskDecision Digest) :
    Except BrokerError (Digest × BrokerLedger Digest) :=
  (verify decision).bind fun _ =>
  if decision.request ≠ request ∨ decision.requestSha256 ≠ sha256 (.request request) then
    .error (.stateError "risk decision does not match broker intent")
  else
    (recordIntent sha256 ledger request).bind fun (_, ledger) =>
    let row : RiskDecisionRow Digest := ⟨request.accountId, decision.decisionSha256, decision⟩
    match ledger.riskDecisions.lookup request.idempotencyKey with
    | none =>
      .ok (decision.decisionSha256,
        { ledger with riskDecisions := ledger.riskDecisions.insert request.idempotencyKey row })
    | some stored =>
      if stored ≠ row then
        .error (.stateError "stored risk decision conflicts with idempotency key")
      else .ok (decision.decisionSha256, ledger)

/-- The state of a submission with its latest event, once both are verified. -/
def submissionEvents (ledger : BrokerLedger Digest) (key : Identifier) :
    Except BrokerError (Option (SubmissionState × SubmissionEvent Digest)) :=
  match ledger.events key with
  | [] => .ok none
  | started :: rest =>
    if 1 < rest.length ∨ started.eventSequence ≠ 1 ∨ started.eventType ≠ .submissionStarted ∨
        started.brokerOrderId.isSome ∨ started.orderSha256.isSome ∨ started.orderPayload.isSome then
      .error (.stateError "stored broker submission event sequence is invalid")
    else
      match ledger.intents.lookup key with
      | none => .error (.stateError "stored broker submission has no intent")
      | some intent =>
        let request := intent.intentPayload
        if request.idempotencyKey ≠ key ∨ request.accountId ≠ intent.accountId ∨
            started.accountId ≠ intent.accountId ∨ started.intentSha256 ≠ intent.intentSha256 ∨
            sha256 (.intent request) ≠ intent.intentSha256 then
          .error (.stateError "stored broker submission intent is invalid")
        else
          match rest with
          | [] => .ok (some (.uncertain, started))
          | acknowledged :: _ =>
            if acknowledged.eventSequence ≠ 2 ∨ acknowledged.accountId ≠ started.accountId ∨
                acknowledged.intentSha256 ≠ started.intentSha256 ∨
                acknowledged.eventType ≠ .submissionAcknowledged ∨
                acknowledged.brokerOrderId.isNone ∨ acknowledged.orderSha256.isNone ∨
                acknowledged.orderPayload.isNone then
              .error (.stateError "stored broker submission event sequence is invalid")
            else .ok (some (.acknowledged, acknowledged))

def submissionState (ledger : BrokerLedger Digest) (key : Identifier) :
    Except BrokerError (Option SubmissionState) :=
  (submissionEvents sha256 ledger key).map fun found => found.map Prod.fst

/-- Persist pre-call uncertainty before any adapter submission is attempted. -/
def beginSubmission (ledger : BrokerLedger Digest) (request : SubmitOrderRequest) (now : Instant) :
    Except BrokerError (SubmissionState × BrokerLedger Digest) :=
  (recordIntent sha256 ledger request).bind fun (intentSha256, ledger) =>
  (submissionEvents sha256 ledger request.idempotencyKey).bind fun
  | none =>
    .ok (.uncertain, ledger.insertEvent request.idempotencyKey
      { eventSequence := 1, accountId := request.accountId, intentSha256
        eventType := .submissionStarted, brokerOrderId := none, orderSha256 := none
        orderPayload := none, occurredAt := now })
  | some (state, event) =>
    if event.accountId ≠ request.accountId ∨ event.intentSha256 ≠ intentSha256 then
      .error (.stateError "stored broker submission conflicts with intent")
    else
      match state with
      | .uncertain =>
        .error (.submissionUncertain ("submission " ++ request.idempotencyKey.quoted ++
          " is uncertain and requires reconciliation"))
      | .acknowledged => .ok (.acknowledged, ledger)

/-- Bind one exact adapter acknowledgement to its durable intent. -/
def acknowledgeSubmission (ledger : BrokerLedger Digest) (request : SubmitOrderRequest)
    (order : BrokerOrder) (now : Instant) : Except BrokerError (BrokerLedger Digest) :=
  if order.terms ≠ request.terms then
    .error (.stateError "adapter order acknowledgement does not match intent")
  else
    (recordIntent sha256 ledger request).bind fun (intentSha256, ledger) =>
    (submissionEvents sha256 ledger request.idempotencyKey).bind fun
    | none => .error (.stateError "broker submission was not durably started")
    | some (state, event) =>
      if event.accountId ≠ request.accountId ∨ event.intentSha256 ≠ intentSha256 then
        .error (.stateError "stored broker submission conflicts with intent")
      else
        let digest := sha256 (.order order)
        match state with
        | .acknowledged =>
          if event.brokerOrderId ≠ some order.brokerOrderId ∨ event.orderSha256 ≠ some digest ∨
              event.orderPayload ≠ some order then
            .error (.stateError "stored broker acknowledgement conflicts with adapter order")
          else .ok ledger
        | .uncertain =>
          .ok (ledger.insertEvent request.idempotencyKey
            { eventSequence := 2, accountId := request.accountId, intentSha256
              eventType := .submissionAcknowledged, brokerOrderId := some order.brokerOrderId
              orderSha256 := some digest, orderPayload := some order, occurredAt := now })

/-- The immutable acknowledged order, if one exists. -/
def acknowledgedOrder (ledger : BrokerLedger Digest) (key : Identifier) :
    Except BrokerError (Option BrokerOrder) :=
  (submissionEvents sha256 ledger key).bind fun
  | none | some (.uncertain, _) => .ok none
  | some (.acknowledged, event) =>
    match event.orderPayload with
    | none => .error (.stateError "stored broker order payload is invalid")
    | some order =>
      if some order.brokerOrderId ≠ event.brokerOrderId ∨
          some (sha256 (.order order)) ≠ event.orderSha256 then
        .error (.stateError "stored broker order acknowledgement is invalid")
      else .ok (some order)

/-- The verified immutable request of one uncertain submission. -/
def uncertainSubmissionRequest (ledger : BrokerLedger Digest) (key : Identifier) :
    Except BrokerError SubmitOrderRequest :=
  (submissionEvents sha256 ledger key).bind fun
  | none | some (.acknowledged, _) => .error (.stateError "broker submission is not uncertain")
  | some (.uncertain, event) =>
    match ledger.intents.lookup key with
    | none => .error (.stateError "uncertain broker submission has no intent")
    | some intent =>
      let request := intent.intentPayload
      if request.idempotencyKey ≠ key ∨ request.accountId ≠ intent.accountId ∨
          event.accountId ≠ intent.accountId ∨ event.intentSha256 ≠ intent.intentSha256 ∨
          sha256 (.intent request) ≠ intent.intentSha256 then
        .error (.stateError "uncertain broker submission intent is invalid")
      else .ok request

end Intents

end TradingEngine.Broker
