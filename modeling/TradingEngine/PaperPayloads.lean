import TradingEngine.BrokerLedger

/-!
# Records of the automatic-paper authority

A lease, the events retained under it, the usage derived from them, a risk
evaluation made under it and the plan of one consumption. A record is what its
canonical text encodes; a digest of a text is the hash function's value at the
record. Fields that are hashed and compared but never read on their own are kept
together as `retained`.
-/

namespace TradingEngine.Broker

variable {Digest : Type}

def MAX_LEASE_SECONDS : Int := 300
def MAX_LEASE_ORDERS : Nat := 16

inductive PaperMode where
  | agentOnly | hybrid
  deriving DecidableEq

/-- One externally approved, bounded automatic-paper capability. -/
structure PaperAuthorityLease (Digest : Type) where
  leaseId : Identifier
  mode : PaperMode
  policyId : Identifier
  policyRegistrationSha256 : Digest
  accountId : Identifier
  dataSnapshotSha256 : Digest
  decisionWindowId : Identifier
  capitalCeiling : ℚ
  maxOrderNotional : ℚ
  maxOrders : Nat
  approvedAt : Instant
  notBefore : Instant
  expiresAt : Instant
  retained : String
  notionalPositive : 0 < maxOrderNotional
  withinCeiling : maxOrderNotional ≤ capitalCeiling
  someOrders : 1 ≤ maxOrders ∧ maxOrders ≤ MAX_LEASE_ORDERS
  ordered : approvedAt ≤ notBefore ∧ notBefore < expiresAt
  brief : expiresAt - notBefore ≤ MAX_LEASE_SECONDS * 1000000

instance {Digest : Type} [DecidableEq Digest] : DecidableEq (PaperAuthorityLease Digest) :=
  fun one other =>
    decidable_of_iff (one.leaseId = other.leaseId ∧ one.mode = other.mode ∧
        one.policyId = other.policyId ∧
        one.policyRegistrationSha256 = other.policyRegistrationSha256 ∧
        one.accountId = other.accountId ∧ one.dataSnapshotSha256 = other.dataSnapshotSha256 ∧
        one.decisionWindowId = other.decisionWindowId ∧
        one.capitalCeiling = other.capitalCeiling ∧
        one.maxOrderNotional = other.maxOrderNotional ∧ one.maxOrders = other.maxOrders ∧
        one.approvedAt = other.approvedAt ∧ one.notBefore = other.notBefore ∧
        one.expiresAt = other.expiresAt ∧ one.retained = other.retained)
      (by cases one; cases other; simp)

/-- Verified position in the append-only operational-halt chain. -/
structure ControlAnchor (Digest : Type) where
  eventCount : Nat
  latestEventSha256 : Digest
  positive : 1 ≤ eventCount
  deriving DecidableEq

inductive EventType where
  | activationRecorded | consumptionCommitted | revocationRecorded
  deriving DecidableEq

/-- The fields of a consumption event that no other event has. -/
structure Consumption (Digest : Type) where
  consumptionKey : Identifier
  idempotencyKey : Identifier
  eligibilitySha256 : Digest
  requestSha256 : Digest
  riskEvaluationSha256 : Digest
  brokerSubmissionStartedSha256 : Digest
  submissionState : SubmissionState
  orderNotional : ℚ
  resultingConsumedOrderCount : Nat
  resultingConsumedNotional : ℚ
  deriving DecidableEq

/-- The fields that depend on the type of an event. -/
inductive EventDetail (Digest : Type) where
  | activationRecorded (candidateAssessmentSha256 startupAssessmentSha256 : Digest)
      (controlEventCount : Nat) (controlEventSha256 runtimeEpochSha256 : Digest)
  | consumptionCommitted (consumption : Consumption Digest)
  | revocationRecorded (revocationKey : Identifier) (reason : String)
      (controlEventCount : Nat) (controlEventSha256 : Digest)
  deriving DecidableEq

/-- Body of an authority event, as it is hashed. -/
structure EventBody (Digest : Type) where
  schemaVersion : Nat := 2
  eventSequence : Nat
  leaseId : Identifier
  leaseSha256 : Digest
  accountId : Identifier
  mode : PaperMode
  occurredAt : Instant
  priorEventSha256 : Option Digest
  submissionAuthority : String := "none"
  detail : EventDetail Digest
  deriving DecidableEq

structure AuthorityEvent (Digest : Type) extends EventBody Digest where
  eventSha256 : Digest
  deriving DecidableEq

def EventDetail.eventType : EventDetail Digest → EventType
  | .activationRecorded .. => .activationRecorded
  | .consumptionCommitted _ => .consumptionCommitted
  | .revocationRecorded .. => .revocationRecorded

/-- What an event consumes, if it is a consumption. -/
def EventDetail.consumption? : EventDetail Digest → Option (Consumption Digest)
  | .consumptionCommitted consumption => some consumption
  | .activationRecorded .. | .revocationRecorded .. => none

inductive TranscriptState where
  | revoked | invalidatedByRestart | invalidatedByHalt | expired | exhausted
  | activationWindowOpen
  deriving DecidableEq

/-- What `verify_transcript` returns, without its hash. -/
structure TranscriptBody (Digest : Type) where
  leaseId : Identifier
  leaseSha256 : Digest
  accountId : Identifier
  mode : PaperMode
  state : TranscriptState
  eventCount : Nat
  latestEventSha256 : Digest
  consumedOrderCount : Nat
  consumedNotional : ℚ
  remainingOrderCount : Int
  remainingNotional : ℚ
  observedAt : Instant
  leaseExpiresAt : Instant
  activationRuntimeEpochSha256 : Digest
  currentRuntimeEpochSha256 : Digest
  activationControl : ControlAnchor Digest
  currentControl : ControlAnchor Digest

structure PaperLeaseUsage (Digest : Type) where
  leaseId : Identifier
  leaseSha256 : Digest
  consumedOrderCount : Nat
  consumedNotional : ℚ
  nonneg : 0 ≤ consumedNotional

instance {Digest : Type} [DecidableEq Digest] : DecidableEq (PaperLeaseUsage Digest) :=
  fun one other =>
    decidable_of_iff (one.leaseId = other.leaseId ∧ one.leaseSha256 = other.leaseSha256 ∧
        one.consumedOrderCount = other.consumedOrderCount ∧
        one.consumedNotional = other.consumedNotional)
      (by cases one; cases other; simp)

/-- Derived usage with the transcript that it was derived from. -/
structure UsageBody (Digest : Type) where
  usage : PaperLeaseUsage Digest
  consumedConsumptionKeys : List Identifier
  consumedIdempotencyKeys : List Identifier
  consumedRequestSha256s : List Digest
  transcriptSha256 : Digest
  eventCount : Nat
  latestEventSha256 : Digest
  candidateAssessmentSha256 : Digest
  startupAssessmentSha256 : Digest
  activationRuntimeEpochSha256 : Digest
  currentRuntimeEpochSha256 : Digest
  currentControl : ControlAnchor Digest
  observedAt : Instant
  leaseExpiresAt : Instant
  transcriptState : TranscriptState := .activationWindowOpen
  executionAuthority : String := "none"
  deriving DecidableEq

structure LoadedPaperLeaseUsage (Digest : Type) extends UsageBody Digest where
  evidenceSha256 : Digest
  deriving DecidableEq

/-- The process epoch and the halt-chain head that a caller read. -/
structure RuntimeBody (Digest : Type) where
  accountId : Identifier
  runtimeEpochSha256 : Digest
  control : ControlAnchor Digest
  controlStatusSha256 : Digest
  executionAuthority : String := "none"
  deriving DecidableEq

structure RuntimeControlBindings (Digest : Type) extends RuntimeBody Digest where
  evidenceSha256 : Digest
  deriving DecidableEq

inductive GateStatus where
  | pass | fail
  deriving DecidableEq

structure PaperRiskGate where
  name : String
  status : GateStatus
  detail : String
  deriving DecidableEq

inductive EvaluationStatus where
  | riskPass | blocked
  deriving DecidableEq

/-- A design-only risk evaluation. The flags that are constant and the identities
that nothing below reads are among `retained`. -/
structure EvaluationBody (Digest : Type) where
  leaseId : Identifier
  leaseSha256 : Digest
  accountId : Identifier
  candidateAssessmentSha256 : Digest
  usageEvidenceSha256 : Digest
  transcriptSha256 : Digest
  runtimeEpochSha256 : Digest
  controlEventCount : Nat
  controlEventSha256 : Digest
  requestSha256 : Digest
  assessedAt : Instant
  riskEvaluatedAt : Instant
  riskExpiresAt : Instant
  leaseExpiresAt : Instant
  status : EvaluationStatus
  riskGateNames : List String
  riskGates : List PaperRiskGate
  riskFailedGates : List String
  orderNotional : ℚ
  retained : String
  deriving DecidableEq

structure AuthorityAwareRiskEvaluation (Digest : Type) extends EvaluationBody Digest where
  evaluationSha256 : Digest

/-- What an agent's intent and a hybrid one have in common. -/
structure IntentTerms (Digest : Type) where
  policyId : Identifier
  policyRegistrationSha256 : Digest
  dataSnapshotSha256 : Digest
  decisionWindowId : Identifier
  requestSha256 : Digest
  symbol : Symbol
  side : BrokerSide
  signalDate : Int

inductive HybridStatus where
  | hybridAllow | hybridVeto | hybridFallbackAllow
  deriving DecidableEq

/-- Trusted facts about an intent that are absent from the risk decision. A hybrid
intent is always in the effective order set. -/
inductive IntentBindings (Digest : Type) where
  | agentOnly (terms : IntentTerms Digest) (maxNotional : ℚ) (proposalExpiresAt : Instant)
      (retained : String)
  | hybrid (terms : IntentTerms Digest) (quantity : ℚ) (terminalStatus : HybridStatus)
      (evidenceObservedAt : Instant) (retained : String)

/-- An admissible candidate assessment. -/
structure CandidateAssessment (Digest : Type) where
  observedAt : Instant
  retained : String
  assessmentSha256 : Digest

/-- What makes an order eligible. -/
structure Eligibility (Digest : Type) where
  leaseId : Identifier
  leaseSha256 : Digest
  accountId : Identifier
  mode : PaperMode
  candidateAssessmentSha256 : Digest
  intentBindingsSha256 : Digest
  usageEvidenceSha256 : Digest
  transcriptSha256 : Digest
  riskEvaluationSha256 : Digest
  requestSha256 : Digest
  consumptionKey : Identifier
  idempotencyKey : Identifier
  plannedAt : Instant
  riskExpiresAt : Instant
  leaseExpiresAt : Instant
  orderNotional : ℚ
  priorConsumedOrderCount : Nat
  priorConsumedNotional : ℚ
  resultingConsumedOrderCount : Nat
  resultingConsumedNotional : ℚ
  deriving DecidableEq

/-- The submission marker that a commit must write. -/
structure SubmissionStarted (Digest : Type) where
  eventSequence : Nat
  idempotencyKey : Identifier
  accountId : Identifier
  intentSha256 : Digest
  occurredAt : Instant
  deriving DecidableEq

/-- The plan of one atomic pre-call commit, without its hash. What the plan repeats
of the eligibility stands in `terms`. -/
structure PlanBody (Digest : Type) where
  terms : Eligibility Digest
  expectedEventSequence : Nat
  expectedPriorEventSha256 : Digest
  eligibility : Eligibility Digest
  eligibilitySha256 : Digest
  expectedBrokerIntent : SubmitOrderRequest
  expectedBrokerIntentSha256 : Digest
  expectedSubmissionStarted : SubmissionStarted Digest
  expectedSubmissionStartedSha256 : Digest
  expectedConsumptionEvent : EventBody Digest
  expectedConsumptionEventSha256 : Digest
  deriving DecidableEq

structure ConsumptionPlan (Digest : Type) extends PlanBody Digest where
  atomicBundleSha256 : Digest
  deriving DecidableEq

/-- Body of a retained row, as it is hashed. -/
structure RetainedRowBody (Digest : Type) where
  globalSequence : Nat
  accountId : Identifier
  mode : PaperMode
  leaseId : Identifier
  leaseSha256 : Digest
  leasePayload : PaperAuthorityLease Digest
  eventSequence : Nat
  eventType : EventType
  eventPayload : AuthorityEvent Digest
  eventSha256 : Digest
  trustedActivationEventSha256 : Digest
  candidateAssessmentSha256 : Digest
  startupAssessmentSha256 : Digest
  activationRuntimeEpochSha256 : Digest
  priorGlobalRowSha256 : Option Digest
  deriving DecidableEq

/-- A row of `broker_paper_authority_retained_events`. -/
structure RetainedRow (Digest : Type) extends RetainedRowBody Digest where
  rowSha256 : Digest
  deriving DecidableEq

/-- A row of `broker_paper_authority_risk_evaluations` under its idempotency key,
without the hash of the two. -/
structure RiskRowBody (Digest : Type) where
  accountId : Identifier
  leaseId : Identifier
  evaluationSha256 : Digest
  evaluationPayload : EvaluationBody Digest
  eligibilitySha256 : Digest
  eligibilityPayload : Eligibility Digest
  atomicBundleSha256 : Digest
  atomicBundlePayload : ConsumptionPlan Digest
  recordedAt : Instant
  deriving DecidableEq

structure RiskRow (Digest : Type) extends RiskRowBody Digest where
  recordSha256 : Digest
  deriving DecidableEq

/-- What a pre-call commit returns, without its hash. -/
structure PreCallBody (Digest : Type) where
  leaseId : Identifier
  leaseSha256 : Digest
  accountId : Identifier
  mode : PaperMode
  consumptionKey : Identifier
  idempotencyKey : Identifier
  atomicBundleSha256 : Digest
  consumptionEventSha256 : Digest
  consumptionGlobalSequence : Nat
  consumptionRowSha256 : Digest
  brokerIntentSha256 : Digest
  riskEvaluationSha256 : Digest
  submissionStartedSha256 : Digest

structure PreCallResult (Digest : Type) extends PreCallBody Digest where
  preCallRecordSha256 : Digest

/-- Records of the paper authority that are hashed. -/
inductive PaperPayload (Digest : Type) where
  | lease (lease : PaperAuthorityLease Digest)
  | event (body : EventBody Digest)
  | transcript (body : TranscriptBody Digest)
  | usage (usage : PaperLeaseUsage Digest)
  | usageEvidence (body : UsageBody Digest) (usageSha256 : Digest)
  | runtime (body : RuntimeBody Digest)
  | evaluation (body : EvaluationBody Digest)
  | intentBindings (bindings : IntentBindings Digest)
  | eligibility (eligibility : Eligibility Digest)
  | started (started : SubmissionStarted Digest)
  | bundle (body : PlanBody Digest)
  | retainedRow (body : RetainedRowBody Digest)
  | riskRow (idempotencyKey : Identifier) (body : RiskRowBody Digest)
  | preCall (body : PreCallBody Digest)

/-- Go on when the condition holds. -/
def require (condition : Prop) [Decidable condition] (text : String) : Except String Unit :=
  if condition then .ok () else .error text

@[simp] theorem require_ok {condition : Prop} [Decidable condition] {text : String} {done : Unit} :
    require condition text = .ok done ↔ condition := by
  unfold require
  split <;> simp [*]

theorem seq_ok {ε α β : Type} {first : Except ε α} {rest : α → Except ε β} {result : β} :
    (first >>= rest) = .ok result ↔ ∃ value, first = .ok value ∧ rest value = .ok result :=
  Runs.bind_ok

theorem mapError_ok {ε η α : Type} {first : Except ε α} {rename : ε → η} {result : α} :
    first.mapError rename = .ok result ↔ first = .ok result := by
  cases first <;> simp [Except.mapError]

end TradingEngine.Broker
