import TradingEngine.PaperTranscript

/-!
# Consumption plans

A plan joins the lease, the candidate, the intent, the usage and the risk evaluation
into the exact records that one commit would have to write. It consumes nothing; who
commits it verifies it again.
-/

namespace TradingEngine.Broker

variable {Digest : Type} [DecidableEq Digest]

/-- The standard risk gates, in their order. -/
def GATE_NAMES : List String :=
  ["identity", "account", "instrument", "order_constraints", "market_session",
    "dependency_health", "reconciliation", "operational_control", "corporate_action",
    "market_data", "order_notional", "cash", "capital_allocation", "gross_exposure",
    "position_concentration", "daily_turnover", "daily_order_count",
    "liquidity_participation", "daily_loss", "drawdown"]

def IntentBindings.terms : IntentBindings Digest → IntentTerms Digest
  | .agentOnly terms .. | .hybrid terms .. => terms

def IntentBindings.mode : IntentBindings Digest → PaperMode
  | .agentOnly .. => .agentOnly
  | .hybrid .. => .hybrid

/-- The gates that failed. -/
def failedGates (gates : List PaperRiskGate) : List String :=
  (gates.filter fun gate => gate.status = .fail).map PaperRiskGate.name

/-- The status that an evaluation's gates and instants call for. -/
def EvaluationBody.expectedStatus (evaluation : EvaluationBody Digest) : EvaluationStatus :=
  if failedGates evaluation.riskGates = [] ∧
      evaluation.riskEvaluatedAt ≤ evaluation.assessedAt ∧
      evaluation.assessedAt < evaluation.riskExpiresAt ∧
      evaluation.assessedAt < evaluation.leaseExpiresAt then .riskPass
  else .blocked

/-- Lease, request and intent agree. -/
def commonIntentMatches (lease : PaperAuthorityLease Digest) (request : SubmitOrderRequest)
    (requestSha256 : Digest) (intent : IntentBindings Digest) : Prop :=
  intent.mode = lease.mode ∧ intent.terms.policyId = lease.policyId ∧
    intent.terms.policyRegistrationSha256 = lease.policyRegistrationSha256 ∧
    intent.terms.dataSnapshotSha256 = lease.dataSnapshotSha256 ∧
    intent.terms.decisionWindowId = lease.decisionWindowId ∧
    intent.terms.requestSha256 = requestSha256 ∧ intent.terms.symbol = request.symbol ∧
    intent.terms.side = request.side ∧ intent.terms.signalDate = request.signalDate

instance (lease : PaperAuthorityLease Digest) (request : SubmitOrderRequest)
    (requestSha256 : Digest) (intent : IntentBindings Digest) :
    Decidable (commonIntentMatches lease request requestSha256 intent) :=
  inferInstanceAs (Decidable (_ ∧ _))

/-- What an intent of either mode asks of the order besides. -/
def modeIntentMatches (lease : PaperAuthorityLease Digest) (request : SubmitOrderRequest)
    (orderNotional : ℚ) (plannedAt : Instant) : IntentBindings Digest → Bool
  | .agentOnly _ maxNotional proposalExpiresAt _ =>
    decide (orderNotional ≤ maxNotional) && decide (plannedAt < proposalExpiresAt)
  | .hybrid _ quantity terminalStatus evidenceObservedAt _ =>
    decide (terminalStatus ≠ .hybridVeto) && decide (request.quantity = quantity) &&
      decide (lease.notBefore ≤ evidenceObservedAt) && decide (evidenceObservedAt ≤ plannedAt)

section Plans

variable (basis : Primitives Digest)

/-- Verify the closed shape of an evaluation without creating a risk decision. -/
def verifyEvaluation (evaluation : AuthorityAwareRiskEvaluation Digest) : Except String Unit := do
  require (1 ≤ evaluation.controlEventCount ∧ 0 < evaluation.orderNotional)
    "paper risk evaluation computed values are invalid"
  require (evaluation.riskGateNames = GATE_NAMES ∧
      evaluation.riskGates.map PaperRiskGate.name = GATE_NAMES ∧
      ∀ gate ∈ evaluation.riskGates, gate.detail ≠ "" ∧ gate.detail.length ≤ 512)
    "paper risk evaluation gate contract is invalid"
  require (evaluation.riskFailedGates = failedGates evaluation.riskGates ∧
      evaluation.status = evaluation.expectedStatus ∧
      evaluation.evaluationSha256 = basis.paperSha256 (.evaluation evaluation.toEvaluationBody))
    "paper risk evaluation is invalid"

/-- The submission marker that a plan commits to. -/
def PlanBody.startedCommitment (plan : PlanBody Digest) : SubmissionStarted Digest where
  eventSequence := 1
  idempotencyKey := plan.terms.idempotencyKey
  accountId := plan.terms.accountId
  intentSha256 := plan.expectedBrokerIntentSha256
  occurredAt := plan.terms.plannedAt

/-- The consumption event that a plan commits to. -/
def PlanBody.consumptionCommitment (plan : PlanBody Digest) : EventBody Digest where
  eventSequence := plan.expectedEventSequence
  leaseId := plan.terms.leaseId
  leaseSha256 := plan.terms.leaseSha256
  accountId := plan.terms.accountId
  mode := plan.terms.mode
  occurredAt := plan.terms.plannedAt
  priorEventSha256 := some plan.expectedPriorEventSha256
  detail := .consumptionCommitted
    { consumptionKey := plan.terms.consumptionKey
      idempotencyKey := plan.terms.idempotencyKey
      eligibilitySha256 := plan.eligibilitySha256
      requestSha256 := plan.terms.requestSha256
      riskEvaluationSha256 := plan.terms.riskEvaluationSha256
      brokerSubmissionStartedSha256 := plan.expectedSubmissionStartedSha256
      submissionState := .uncertain
      orderNotional := plan.terms.orderNotional
      resultingConsumedOrderCount := plan.terms.resultingConsumedOrderCount
      resultingConsumedNotional := plan.terms.resultingConsumedNotional }

/-- Re-verify the canonical bundle without making it executable. -/
def verifyPlan (plan : ConsumptionPlan Digest) : Except String Unit := do
  require (0 < plan.terms.orderNotional)
    "paper consumption order notional must be a positive finite number"
  require (0 ≤ plan.terms.priorConsumedNotional ∧ 0 ≤ plan.terms.resultingConsumedNotional)
    "paper consumption notional must be a nonnegative finite number"
  require (plan.terms.plannedAt < plan.terms.riskExpiresAt ∧
      plan.terms.plannedAt < plan.terms.leaseExpiresAt ∧
      plan.terms.resultingConsumedOrderCount = plan.terms.priorConsumedOrderCount + 1 ∧
      closeTo plan.terms.resultingConsumedNotional
        (plan.terms.priorConsumedNotional + plan.terms.orderNotional) ∧
      plan.expectedEventSequence = plan.terms.priorConsumedOrderCount + 2)
    "paper consumption plan is invalid"
  require (plan.expectedBrokerIntent.idempotencyKey = plan.terms.idempotencyKey ∧
      plan.expectedBrokerIntent.accountId = plan.terms.accountId ∧
      basis.sha256 (.request plan.expectedBrokerIntent) = plan.terms.requestSha256)
    "paper consumption broker intent is inconsistent"
  require (plan.eligibility = plan.terms ∧
      plan.expectedSubmissionStarted = plan.startedCommitment ∧
      plan.expectedConsumptionEvent = plan.consumptionCommitment ∧
      basis.paperSha256 (.eligibility plan.eligibility) = plan.eligibilitySha256 ∧
      basis.sha256 (.intent plan.expectedBrokerIntent) = plan.expectedBrokerIntentSha256 ∧
      basis.paperSha256 (.started plan.expectedSubmissionStarted) =
        plan.expectedSubmissionStartedSha256 ∧
      basis.paperSha256 (.event plan.expectedConsumptionEvent) =
        plan.expectedConsumptionEventSha256)
    "paper consumption commitments are inconsistent"
  require (basis.paperSha256 (.bundle plan.toPlanBody) = plan.atomicBundleSha256)
    "paper consumption bundle hash does not match"

/-- The verifier of candidate assessments. -/
abbrev CandidateVerifier (Digest : Type) :=
  CandidateAssessment Digest → PaperAuthorityLease Digest → Digest → Except String Unit

/-- The eligibility of an order whose evidence matches. -/
def eligibilityBody (lease : PaperAuthorityLease Digest)
    (candidateAssessmentSha256 intentBindingsSha256 : Digest)
    (usage : LoadedPaperLeaseUsage Digest) (evaluation : AuthorityAwareRiskEvaluation Digest)
    (requestSha256 : Digest) (consumptionKey idempotencyKey : Identifier)
    (plannedAt : Instant) : Eligibility Digest where
  leaseId := lease.leaseId
  leaseSha256 := lease.sha256 basis
  accountId := lease.accountId
  mode := lease.mode
  candidateAssessmentSha256
  intentBindingsSha256
  usageEvidenceSha256 := usage.evidenceSha256
  transcriptSha256 := usage.transcriptSha256
  riskEvaluationSha256 := evaluation.evaluationSha256
  requestSha256
  consumptionKey
  idempotencyKey
  plannedAt
  riskExpiresAt := evaluation.riskExpiresAt
  leaseExpiresAt := lease.expiresAt
  orderNotional := evaluation.orderNotional
  priorConsumedOrderCount := usage.usage.consumedOrderCount
  priorConsumedNotional := usage.usage.consumedNotional
  resultingConsumedOrderCount := usage.usage.consumedOrderCount + 1
  resultingConsumedNotional := usage.usage.consumedNotional + evaluation.orderNotional

/-- The submission marker and the consumption event that a commit would write. -/
def expectedCommitments (lease : PaperAuthorityLease Digest) (request : SubmitOrderRequest)
    (consumptionKey : Identifier) (plannedAt : Instant) (usage : LoadedPaperLeaseUsage Digest)
    (evaluation : AuthorityAwareRiskEvaluation Digest) (eligibilitySha256 : Digest) :
    SubmissionStarted Digest × EventBody Digest :=
  let started : SubmissionStarted Digest :=
    { eventSequence := 1, idempotencyKey := request.idempotencyKey
      accountId := request.accountId, intentSha256 := basis.sha256 (.intent request)
      occurredAt := plannedAt }
  (started,
    { eventSequence := usage.eventCount + 1
      leaseId := lease.leaseId, leaseSha256 := lease.sha256 basis
      accountId := lease.accountId, mode := lease.mode
      occurredAt := plannedAt
      priorEventSha256 := some usage.latestEventSha256
      detail := .consumptionCommitted
        { consumptionKey
          idempotencyKey := request.idempotencyKey
          eligibilitySha256
          requestSha256 := evaluation.requestSha256
          riskEvaluationSha256 := evaluation.evaluationSha256
          brokerSubmissionStartedSha256 := basis.paperSha256 (.started started)
          submissionState := .uncertain
          orderNotional := evaluation.orderNotional
          resultingConsumedOrderCount := usage.usage.consumedOrderCount + 1
          resultingConsumedNotional :=
            usage.usage.consumedNotional + evaluation.orderNotional } })

/-- Build exact future commit records after re-verifying every input. -/
def buildPlan (verifyCandidate : CandidateVerifier Digest) (lease : PaperAuthorityLease Digest)
    (candidate : CandidateAssessment Digest) (intent : IntentBindings Digest)
    (usage : LoadedPaperLeaseUsage Digest) (evaluation : AuthorityAwareRiskEvaluation Digest)
    (request : SubmitOrderRequest) (consumptionKey : Identifier)
    (trustedCandidateSha256 trustedIntentSha256 : Digest) (plannedAt : Instant) :
    Except String (ConsumptionPlan Digest) := do
  (verifyCandidate candidate lease trustedCandidateSha256).mapError
    fun _ => "paper consumption source evidence verification failed"
  (verifyLoadedUsage basis usage lease).mapError
    fun _ => "paper consumption source evidence verification failed"
  (verifyEvaluation basis evaluation).mapError
    fun _ => "paper consumption source evidence verification failed"
  let requestSha256 := basis.sha256 (.request request)
  let intentSha256 := basis.paperSha256 (.intentBindings intent)
  require (candidate.assessmentSha256 = trustedCandidateSha256 ∧
      trustedCandidateSha256 = usage.candidateAssessmentSha256 ∧
      usage.candidateAssessmentSha256 = evaluation.candidateAssessmentSha256 ∧
      intentSha256 = trustedIntentSha256 ∧ evaluation.leaseId = lease.leaseId ∧
      evaluation.leaseSha256 = lease.sha256 basis ∧
      evaluation.accountId = lease.accountId ∧
      evaluation.usageEvidenceSha256 = usage.evidenceSha256 ∧
      evaluation.transcriptSha256 = usage.transcriptSha256 ∧
      evaluation.runtimeEpochSha256 = usage.currentRuntimeEpochSha256 ∧
      usage.currentRuntimeEpochSha256 = usage.activationRuntimeEpochSha256 ∧
      evaluation.controlEventCount = usage.currentControl.eventCount ∧
      evaluation.controlEventSha256 = usage.currentControl.latestEventSha256 ∧
      evaluation.requestSha256 = requestSha256)
    "paper consumption evidence bindings do not match"
  require (evaluation.status = .riskPass ∧ evaluation.riskFailedGates = [] ∧
      evaluation.riskEvaluatedAt ≤ evaluation.assessedAt ∧ evaluation.assessedAt ≤ plannedAt ∧
      plannedAt < evaluation.riskExpiresAt ∧ candidate.observedAt ≤ plannedAt ∧
      plannedAt < lease.expiresAt ∧ usage.observedAt ≤ evaluation.assessedAt ∧
      usage.leaseExpiresAt = lease.expiresAt)
    "paper consumption risk or lease window is not open"
  require (commonIntentMatches lease request requestSha256 intent ∧
      modeIntentMatches lease request evaluation.orderNotional plannedAt intent = true)
    "paper consumption intent does not match"
  require (consumptionKey ∉ usage.consumedConsumptionKeys ∧
      request.idempotencyKey ∉ usage.consumedIdempotencyKeys ∧
      requestSha256 ∉ usage.consumedRequestSha256s)
    "paper consumption identity was already used"
  require (evaluation.orderNotional ≤ lease.maxOrderNotional ∧
      usage.usage.consumedOrderCount + 1 ≤ lease.maxOrders ∧
      usage.usage.consumedNotional + evaluation.orderNotional ≤ lease.capitalCeiling)
    "paper consumption exceeds lease capacity"
  let eligibility := eligibilityBody basis lease candidate.assessmentSha256 intentSha256 usage
    evaluation requestSha256 consumptionKey request.idempotencyKey plannedAt
  let eligibilitySha256 := basis.paperSha256 (.eligibility eligibility)
  let (started, consumption) := expectedCommitments basis lease request consumptionKey plannedAt
    usage evaluation eligibilitySha256
  let body : PlanBody Digest :=
    { terms := eligibility
      expectedEventSequence := usage.eventCount + 1
      expectedPriorEventSha256 := usage.latestEventSha256
      eligibility, eligibilitySha256
      expectedBrokerIntent := request
      expectedBrokerIntentSha256 := basis.sha256 (.intent request)
      expectedSubmissionStarted := started
      expectedSubmissionStartedSha256 := basis.paperSha256 (.started started)
      expectedConsumptionEvent := consumption
      expectedConsumptionEventSha256 := basis.paperSha256 (.event consumption) }
  let plan : ConsumptionPlan Digest :=
    { body with atomicBundleSha256 := basis.paperSha256 (.bundle body) }
  verifyPlan basis plan
  return plan

end Plans

end TradingEngine.Broker
