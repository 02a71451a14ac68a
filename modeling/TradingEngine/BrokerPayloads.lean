import TradingEngine.BrokerContract

/-!
# Retained payloads

The JSON bodies that the broker ledger stores and hashes. A stored text is the
canonical encoding of such a body and determines it, so a column that holds the
text is modelled by the body. The digest of a body is whatever the hash function
says: nothing below depends on how it computes it.
-/

namespace TradingEngine.Broker

/-- Body of one halt event, as it is hashed. -/
structure HaltBody (Digest : Type) where
  schemaVersion : Nat := 1
  haltKey : Identifier
  accountId : Identifier
  eventSequence : Nat
  eventType : String := "halt"
  reason : String
  occurredAt : Instant
  priorEventSha256 : Option Digest
  executionAuthority : String := "none"

/-- Verified operational control of one account. -/
structure RiskControlStatus (Digest : Type) where
  schemaVersion : Nat := 1
  accountId : Identifier
  halted : Bool
  reason : String
  eventCount : Nat
  latestEventSha256 : Option Digest
  executionAuthority : String := "none"
  deriving DecidableEq

/-- A stable observation of one account, retained with a resolution. -/
structure ResolutionEvidence where
  schemaVersion : Nat := 1
  account : BrokerAccount
  positions : List BrokerPosition
  openOrders : List BrokerOrder
  fills : List BrokerFill
  deriving DecidableEq

inductive SubmissionResolutionOutcome where
  | observedOpen | observedFilled | observedTerminalPartialFill | notObservedBurned
  deriving DecidableEq

/-- What is recorded about an uncertain submission that was adjudicated. -/
structure ResolutionBody (Digest : Type) where
  schemaVersion : Nat := 1
  resolutionKey : Identifier
  idempotencyKey : Identifier
  accountId : Identifier
  intentSha256 : Digest
  outcome : SubmissionResolutionOutcome
  operationalControl : RiskControlStatus Digest
  operationalControlSha256 : Digest
  evidenceSha256 : Digest
  observedAt : Instant
  matchingOrderIds : List Identifier
  matchingExecutionIds : List Identifier
  observedFilledQuantity : ℚ
  retryPermitted : Bool := false
  submissionAuthority : String := "none"
  deriving DecidableEq

/-- An order that an emergency stop set out to cancel, with its cancellation key.
The key's text is a fixed prefix before a digest; the model keeps the digest. -/
structure PlannedOrder (Digest : Type) where
  cancellationKey : Digest
  order : BrokerOrder
  deriving DecidableEq

structure StopStarted (Digest : Type) where
  schemaVersion : Nat := 1
  eventType : String := "emergency_stop_started"
  haltKey : Identifier
  accountId : Identifier
  reason : String
  occurredAt : Instant
  haltEventSha256 : Digest
  initialOpenOrdersSha256 : Digest
  orders : List (PlannedOrder Digest)
  submissionAuthority : String := "none"
  deriving DecidableEq

structure StopCompleted (Digest : Type) where
  schemaVersion : Nat := 1
  eventType : String := "emergency_stop_completed"
  status : String := "halted_cancelled"
  accountId : Identifier
  haltKey : Identifier
  haltEventSha256 : Digest
  startEventSha256 : Digest
  occurredAt : Instant
  cancelledOrderIds : List Identifier
  cancelledCount : Nat
  finalOpenOrdersSha256 : Digest
  remainingOpenOrderCount : Nat := 0
  submissionAuthority : String := "none"
  deriving DecidableEq

/-- Bodies that are hashed. A request is hashed without the schema version that
an intent carries. -/
inductive Payload (Digest : Type) where
  | intent (request : SubmitOrderRequest)
  | request (request : SubmitOrderRequest)
  | order (order : BrokerOrder)
  | halt (body : HaltBody Digest)
  | control (status : RiskControlStatus Digest)
  | evidence (evidence : ResolutionEvidence)
  | resolution (body : ResolutionBody Digest)
  | cancellation (haltKey accountId brokerOrderId idempotencyKey : Identifier)
  | plannedOrders (orders : List (PlannedOrder Digest))
  | stopStarted (body : StopStarted Digest)
  | stopCompleted (body : StopCompleted Digest)

end TradingEngine.Broker
