import TradingEngine.PaperPlans

/-!
# The atomic pre-call commit

One transaction retains a consumption in the authority's global chain, its risk
evidence, the broker intent and the marker of the uncertain submission. Before it
writes it verifies all that is retained, and afterwards it reads everything back. A
failure at any point rolls the transaction back.

Retained rows are listed in the order of their global sequence. The evidence table's
key is unique, and so is the column of evaluation hashes.
-/

namespace TradingEngine.Broker

open KeyedTables

variable {Digest : Type} [DecidableEq Digest]

def MAX_RETAINED_ROWS : Nat := 256 * 18

structure PaperTables (Digest : Type) where
  authority : List (RetainedRow Digest)
  risks : Table Identifier (RiskRow Digest)
  ledger : BrokerLedger Digest

/-- One lease with the events retained under it so far. -/
structure RetainedAuthorityEpoch (Digest : Type) where
  lease : PaperAuthorityLease Digest
  bindings : ActivationBindings Digest
  events : List (AuthorityEvent Digest)

/-- What is known of the retained rows up to a point. -/
structure EpochScan (Digest : Type) where
  expectedGlobalSequence : Nat
  priorGlobalSha256 : Option Digest
  epochs : Table Identifier (RetainedAuthorityEpoch Digest)
  leaseHashOwners : Table Digest Identifier
  activationOwners : Table Digest Identifier

def EpochScan.initial : EpochScan Digest := ⟨1, none, ∅, ∅, ∅⟩

def RetainedRowBody.bindings (row : RetainedRowBody Digest) : ActivationBindings Digest :=
  ⟨row.trustedActivationEventSha256, row.candidateAssessmentSha256,
    row.startupAssessmentSha256, row.activationRuntimeEpochSha256⟩

/-- The rows that a transaction may write, and its end. -/
inductive WriteStep where
  | authorityRow | riskRow | submission | commit
  deriving DecidableEq

/-- The arguments of one call, the epoch of the process that makes it, and the statement
at which the database gives up, if it does. -/
structure PreCall (Digest : Type) where
  lease : PaperAuthorityLease Digest
  usage : LoadedPaperLeaseUsage Digest
  evaluation : AuthorityAwareRiskEvaluation Digest
  runtime : RuntimeControlBindings Digest
  request : SubmitOrderRequest
  plan : ConsumptionPlan Digest
  trustedGlobalRowCount : Nat
  trustedLatestGlobalRowSha256 : Digest
  now : Instant
  processEpoch : Digest
  fault : Option WriteStep

/-- The text of a broker error as the commit reports it. -/
def brokerErrorText : BrokerError → String
  | .stateError _ => "automatic-paper broker evidence verification failed"
  | .adapterRaised => "adapter raised"
  | .riskRejected text | .submissionUncertain text | .cancellationUncertain text
  | .idempotencyConflict text | .valueError text => text

/-- A statement of the transaction, unless the database gives up at it. -/
def statement (fault : Option WriteStep) (step : WriteStep) : Except String Unit :=
  require (fault ≠ some step) "automatic-paper pre-call transaction failed"

section Store

variable (basis : Primitives Digest)

/-- Verify one retained row against the rows before it. -/
def retainStep (accountId : Identifier) (scan : EpochScan Digest) (row : RetainedRow Digest) :
    Except String (EpochScan Digest) := do
  let lease := row.leasePayload
  let event := row.eventPayload
  require (1 ≤ row.globalSequence ∧ 1 ≤ row.eventSequence)
    "retained global sequence must be a positive integer"
  require (lease.sha256 basis = row.leaseSha256)
    "retained paper lease payload or hash does not match"
  require (row.globalSequence = scan.expectedGlobalSequence ∧
      row.priorGlobalRowSha256 = scan.priorGlobalSha256 ∧
      basis.paperSha256 (.retainedRow row.toRetainedRowBody) = row.rowSha256)
    "retained global row chain is incomplete or invalid"
  require (row.accountId = accountId ∧ lease.accountId = accountId ∧
      row.leaseId = lease.leaseId ∧ row.mode = lease.mode ∧ event.leaseId = lease.leaseId ∧
      event.leaseSha256 = lease.sha256 basis ∧ event.accountId = accountId ∧
      event.mode = lease.mode ∧ event.eventSequence = row.eventSequence ∧
      event.detail.eventType = row.eventType ∧ event.eventSha256 = row.eventSha256)
    "retained authority account, mode, lease, or event binding drifted"
  let leaseOwner := (scan.leaseHashOwners.lookup (lease.sha256 basis)).getD lease.leaseId
  let activationOwner :=
    (scan.activationOwners.lookup row.trustedActivationEventSha256).getD lease.leaseId
  require (leaseOwner = lease.leaseId ∧ activationOwner = lease.leaseId)
    "retained lease or activation identity is duplicated"
  let epoch := (scan.epochs.lookup lease.leaseId).getD ⟨lease, row.bindings, []⟩
  require (epoch.lease = lease ∧ epoch.bindings = row.bindings ∧
      row.eventSequence = epoch.events.length + 1 ∧ event ∉ epoch.events)
    "retained authority epoch is incomplete, duplicated, or drifted"
  return {
    expectedGlobalSequence := scan.expectedGlobalSequence + 1
    priorGlobalSha256 := some row.rowSha256
    epochs := scan.epochs.insert lease.leaseId { epoch with events := epoch.events ++ [event] }
    leaseHashOwners := scan.leaseHashOwners.insert (lease.sha256 basis) leaseOwner
    activationOwners :=
      scan.activationOwners.insert row.trustedActivationEventSha256 activationOwner }

/-- The epochs of the retained rows, each under its lease. -/
def epochs (rows : List (RetainedRow Digest)) (accountId : Identifier) :
    Except String (Table Identifier (RetainedAuthorityEpoch Digest)) := do
  let scan ← rows.foldlM (retainStep basis accountId) .initial
  require (∀ entry ∈ scan.epochs.entries,
      entry.2.events.head?.map AuthorityEvent.eventSha256 =
        some entry.2.bindings.trustedActivationEventSha256)
    "retained activation identity does not match the epoch"
  return scan.epochs

def verifiedAuthorityRows (tables : PaperTables Digest) (accountId : Identifier) :
    Except String (Table Identifier (RetainedAuthorityEpoch Digest)) := do
  require (tables.authority.length ≤ MAX_RETAINED_ROWS)
    "paper authority retained row count exceeds the startup bound"
  (epochs basis tables.authority accountId).mapError
    fun _ => "paper authority retention history verification failed"

/-- Verify one row of risk evidence. -/
def verifiedRiskRow (idempotencyKey : Identifier) (row : RiskRow Digest) :
    Except String Unit := do
  let evaluation := row.evaluationPayload
  let plan := row.atomicBundlePayload
  (verifyEvaluation basis { evaluation with evaluationSha256 := row.evaluationSha256 }).mapError
    fun _ => "stored authority-aware risk evaluation is invalid"
  (verifyPlan basis plan).mapError
    fun _ => "stored automatic-paper commit evidence is invalid"
  require (row.accountId = evaluation.accountId ∧ row.leaseId = evaluation.leaseId ∧
      plan.terms.idempotencyKey = idempotencyKey ∧ plan.terms.accountId = row.accountId ∧
      plan.terms.leaseId = row.leaseId ∧
      plan.terms.riskEvaluationSha256 = row.evaluationSha256 ∧
      plan.eligibility = row.eligibilityPayload ∧
      ¬ (plan.eligibilitySha256 ≠ row.eligibilitySha256 ∧
        row.eligibilitySha256 ≠ basis.paperSha256 (.eligibility row.eligibilityPayload)) ∧
      plan.atomicBundleSha256 = row.atomicBundleSha256 ∧
      row.recordSha256 = basis.paperSha256 (.riskRow idempotencyKey row.toRiskRowBody) ∧
      evaluation.assessedAt ≤ row.recordedAt ∧ row.recordedAt < evaluation.riskExpiresAt)
    "stored authority-aware risk evidence is inconsistent"

def verifiedRiskRows (risks : Table Identifier (RiskRow Digest)) : Except String Unit := do
  require (risks.entries.length ≤ MAX_RETAINED_ROWS)
    "authority-aware risk evidence exceeds the verification bound"
  risks.entries.forM fun entry => verifiedRiskRow basis entry.1 entry.2
  require ((risks.entries.map fun entry => entry.2.evaluationSha256).Nodup)
    "stored authority-aware risk evidence is inconsistent"

/-- The consumptions among retained rows, with their events. -/
def consumptionEvents (rows : List (RetainedRow Digest)) :
    List (Consumption Digest × AuthorityEvent Digest) :=
  rows.filterMap fun row =>
    if row.eventType = .consumptionCommitted then
      row.eventPayload.detail.consumption?.map (·, row.eventPayload)
    else none

def submissionStartedMatches (ledger : BrokerLedger Digest) (plan : ConsumptionPlan Digest) :
    Bool :=
  let expected := plan.expectedSubmissionStarted
  match ledger.events plan.terms.idempotencyKey with
  | [] => false
  | started :: rest =>
    decide (rest.length ≤ 1) && decide (started.eventSequence = expected.eventSequence) &&
      decide (started.accountId = expected.accountId) &&
      decide (started.intentSha256 = expected.intentSha256) &&
      decide (started.eventType = .submissionStarted) && started.brokerOrderId.isNone &&
      started.orderSha256.isNone && started.orderPayload.isNone &&
      decide (started.occurredAt = expected.occurredAt)

def intentMatches (ledger : BrokerLedger Digest) (plan : ConsumptionPlan Digest) : Bool :=
  let expected := plan.expectedBrokerIntent
  decide (ledger.intents.lookup plan.terms.idempotencyKey =
    some ⟨expected.accountId, plan.expectedBrokerIntentSha256, expected⟩)

/-- Verify that a consumption, its risk evidence and the broker's records agree. -/
def verifyCommitLink (tables : PaperTables Digest)
    (consumed : Consumption Digest × AuthorityEvent Digest) : Except String Unit := do
  match tables.risks.lookup consumed.1.idempotencyKey with
  | none => .error "automatic-paper authority and risk evidence are incomplete"
  | some row =>
    let plan := row.atomicBundlePayload
    let event := consumed.2
    require (event.toEventBody = plan.expectedConsumptionEvent ∧
        event.eventSha256 = plan.expectedConsumptionEventSha256 ∧
        row.leaseId = event.leaseId ∧ row.accountId = event.accountId ∧
        row.evaluationSha256 = consumed.1.riskEvaluationSha256)
      "automatic-paper committed evidence bindings are inconsistent"
    let state ← (submissionState basis.sha256 tables.ledger
      consumed.1.idempotencyKey).mapError brokerErrorText
    require (state.isSome = true ∧ submissionStartedMatches tables.ledger plan = true ∧
        intentMatches tables.ledger plan = true)
      "automatic-paper committed evidence bindings are inconsistent"

def verifiedCommitLinks (tables : PaperTables Digest) : Except String Unit := do
  let consumed := consumptionEvents tables.authority
  require ((∀ row ∈ tables.authority, row.eventType = .consumptionCommitted →
      row.eventPayload.detail.consumption?.isSome = true ∧
        row.eventPayload.eventSha256 = row.eventSha256) ∧
      (consumed.map fun entry => entry.1.idempotencyKey).Nodup)
    "retained automatic-paper consumption evidence is invalid"
  require (∀ key ∈ tables.risks.keys, key ∈ consumed.map fun entry => entry.1.idempotencyKey)
    "automatic-paper authority and risk evidence are incomplete"
  consumed.forM (verifyCommitLink basis tables)

/-- The usage that an epoch's events give under stated runtime facts. -/
def epochUsage (lease : PaperAuthorityLease Digest) (epoch : RetainedAuthorityEpoch Digest)
    (currentRuntime : Digest) (currentControl : ControlAnchor Digest) (now : Instant) :
    Except String (LoadedPaperLeaseUsage Digest) :=
  match epoch.events.getLast? with
  | none => .error "retained authority events must be a nonempty tuple"
  | some latest =>
    loadOpenUsage basis lease epoch.events epoch.events.length latest.eventSha256 epoch.bindings
      currentRuntime currentControl now

def actualUsage (lease : PaperAuthorityLease Digest) (epoch : RetainedAuthorityEpoch Digest)
    (supplied : LoadedPaperLeaseUsage Digest) :
    Except String (LoadedPaperLeaseUsage Digest) := do
  let loaded ← (epochUsage basis lease epoch supplied.currentRuntimeEpochSha256
    supplied.currentControl supplied.observedAt).mapError
    fun _ => "retained paper authority usage verification failed"
  require (loaded = supplied)
    "supplied paper usage does not match retained authority history"
  return loaded

/-- Verify that a loaded binding belongs to this process and account. -/
def verifyRuntimeControl (processEpoch : Digest) (runtime : RuntimeControlBindings Digest)
    (accountId : Identifier) : Except String Unit :=
  require (runtime.accountId = accountId ∧ runtime.runtimeEpochSha256 = processEpoch ∧
      runtime.executionAuthority = "none" ∧
      runtime.evidenceSha256 = basis.paperSha256 (.runtime runtime.toRuntimeBody))
    "paper runtime binding is invalid"

/-- Load the verified halt anchor for the current process. -/
def loadRuntimeControl (processEpoch : Digest) (ledger : BrokerLedger Digest)
    (accountId : Identifier) : Except String (RuntimeControlBindings Digest) := do
  let status ← (checkedStatus basis.isspace basis.isprintable basis.sha256 ledger.controlEvents
    accountId).mapError fun _ => "paper runtime control verification failed"
  match status.latestEventSha256 with
  | none => .error "paper runtime requires a verified halt-chain anchor"
  | some latest => do
    require (status.accountId = accountId ∧ status.halted = true ∧
        status.executionAuthority = "none" ∧ 1 ≤ status.eventCount)
      "paper runtime requires a verified halt-chain anchor"
    let control ← ControlAnchor.of status.eventCount latest
    let body : RuntimeBody Digest :=
      { accountId, runtimeEpochSha256 := processEpoch, control
        controlStatusSha256 := basis.sha256 (.control status) }
    return { body with evidenceSha256 := basis.paperSha256 (.runtime body) }

/-- Verify the arguments of a call and that they belong together. -/
def verifyInputs (call : PreCall Digest) : Except String Unit := do
  (verifyLoadedUsage basis call.usage call.lease).mapError
    fun _ => "automatic-paper pre-call evidence verification failed"
  (verifyEvaluation basis call.evaluation).mapError
    fun _ => "automatic-paper pre-call evidence verification failed"
  (verifyRuntimeControl basis call.processEpoch call.runtime call.lease.accountId).mapError
    fun _ => "automatic-paper pre-call evidence verification failed"
  (verifyPlan basis call.plan).mapError
    fun _ => "automatic-paper pre-call evidence verification failed"
  require (call.plan.terms.leaseId = call.lease.leaseId ∧
      call.plan.terms.leaseSha256 = call.lease.sha256 basis ∧
      call.plan.terms.accountId = call.lease.accountId ∧
      call.plan.terms.mode = call.lease.mode ∧
      call.plan.terms.usageEvidenceSha256 = call.usage.evidenceSha256 ∧
      call.plan.terms.transcriptSha256 = call.usage.transcriptSha256 ∧
      call.plan.terms.riskEvaluationSha256 = call.evaluation.evaluationSha256 ∧
      call.plan.terms.requestSha256 = call.evaluation.requestSha256 ∧
      call.plan.expectedBrokerIntent = call.request ∧
      ¬ (call.runtime.runtimeEpochSha256 ≠ call.usage.currentRuntimeEpochSha256 ∧
        call.usage.currentRuntimeEpochSha256 ≠ call.evaluation.runtimeEpochSha256) ∧
      call.runtime.control = call.usage.currentControl ∧
      call.runtime.control.eventCount = call.evaluation.controlEventCount ∧
      call.runtime.control.latestEventSha256 = call.evaluation.controlEventSha256)
    "automatic-paper pre-call evidence bindings do not match"

/-- The row that retains a plan's consumption. -/
def authorityRow (lease : PaperAuthorityLease Digest) (plan : ConsumptionPlan Digest)
    (bindings : ActivationBindings Digest) (globalSequence : Nat)
    (priorGlobalRowSha256 : Option Digest) : RetainedRow Digest :=
  let body : RetainedRowBody Digest :=
    { globalSequence
      accountId := lease.accountId, mode := lease.mode, leaseId := lease.leaseId
      leaseSha256 := lease.sha256 basis, leasePayload := lease
      eventSequence := plan.expectedConsumptionEvent.eventSequence
      eventType := plan.expectedConsumptionEvent.detail.eventType
      eventPayload := { plan.expectedConsumptionEvent with
        eventSha256 := plan.expectedConsumptionEventSha256 }
      eventSha256 := plan.expectedConsumptionEventSha256
      trustedActivationEventSha256 := bindings.trustedActivationEventSha256
      candidateAssessmentSha256 := bindings.candidateAssessmentSha256
      startupAssessmentSha256 := bindings.startupAssessmentSha256
      activationRuntimeEpochSha256 := bindings.activationRuntimeEpochSha256
      priorGlobalRowSha256 }
  { body with rowSha256 := basis.paperSha256 (.retainedRow body) }

/-- The risk evidence of a plan's consumption. -/
def riskRow (lease : PaperAuthorityLease Digest)
    (evaluation : AuthorityAwareRiskEvaluation Digest) (plan : ConsumptionPlan Digest) :
    RiskRow Digest :=
  let body : RiskRowBody Digest :=
    { accountId := lease.accountId, leaseId := lease.leaseId
      evaluationSha256 := evaluation.evaluationSha256
      evaluationPayload := evaluation.toEvaluationBody
      eligibilitySha256 := plan.eligibilitySha256
      eligibilityPayload := plan.eligibility
      atomicBundleSha256 := plan.atomicBundleSha256
      atomicBundlePayload := plan
      recordedAt := plan.terms.plannedAt }
  { body with recordSha256 := basis.paperSha256 (.riskRow plan.terms.idempotencyKey body) }

/-- The retained row of a plan that was committed before, or nothing when no trace of
the plan is retained. -/
def exactReplay (tables : PaperTables Digest) (risk : RiskRow Digest)
    (lease : PaperAuthorityLease Digest) (epoch : RetainedAuthorityEpoch Digest)
    (plan : ConsumptionPlan Digest) : Except String (Option (RetainedRow Digest)) := do
  let matchingAuthority := tables.authority.filter
    fun row => row.eventSha256 = plan.expectedConsumptionEventSha256
  let matchingRisk := tables.risks.lookup plan.terms.idempotencyKey
  let state ← (submissionState basis.sha256 tables.ledger
    plan.terms.idempotencyKey).mapError brokerErrorText
  let replay := match matchingAuthority with
    | [retained] =>
      let row := authorityRow basis lease plan epoch.bindings retained.globalSequence
        retained.priorGlobalRowSha256
      if retained = row ∧ matchingRisk = some risk ∧ state = some .uncertain ∧
          submissionStartedMatches tables.ledger plan = true ∧
          intentMatches tables.ledger plan = true then some row
      else none
    | _ => none
  match replay with
  | some row => return some row
  | none => do
    require (matchingAuthority = [] ∧ matchingRisk = none ∧ state = none ∧
        intentMatches tables.ledger plan = false)
      "automatic-paper pre-call identity conflicts with retained evidence"
    return none

def preCallResult (lease : PaperAuthorityLease Digest) (plan : ConsumptionPlan Digest)
    (row : RetainedRow Digest) : PreCallResult Digest :=
  let body : PreCallBody Digest :=
    { leaseId := lease.leaseId, leaseSha256 := lease.sha256 basis
      accountId := lease.accountId, mode := lease.mode
      consumptionKey := plan.terms.consumptionKey
      idempotencyKey := plan.terms.idempotencyKey
      atomicBundleSha256 := plan.atomicBundleSha256
      consumptionEventSha256 := plan.expectedConsumptionEventSha256
      consumptionGlobalSequence := row.globalSequence
      consumptionRowSha256 := row.rowSha256
      brokerIntentSha256 := plan.expectedBrokerIntentSha256
      riskEvaluationSha256 := plan.terms.riskEvaluationSha256
      submissionStartedSha256 := plan.expectedSubmissionStartedSha256 }
  { body with preCallRecordSha256 := basis.paperSha256 (.preCall body) }

/-- The epoch of a lease, once all that is retained is verified at the trusted head. -/
def transactionState (tables : PaperTables Digest) (lease : PaperAuthorityLease Digest)
    (trustedGlobalRowCount : Nat) (trustedLatestGlobalRowSha256 : Digest) :
    Except String (RetainedAuthorityEpoch Digest) := do
  let epochs ← verifiedAuthorityRows basis tables lease.accountId
  match epochs.lookup lease.leaseId with
  | none => .error "paper lease activation is unavailable or ambiguous"
  | some epoch => do
    require (tables.authority.length = trustedGlobalRowCount ∧
        tables.authority.getLast?.map RetainedRow.rowSha256 = some trustedLatestGlobalRowSha256)
      "paper authority retention table does not match the trusted global head"
    verifiedRiskRows basis tables.risks
    verifiedCommitLinks basis tables
    return epoch

/-- Read a commit back and verify it. -/
def verifyResultingCommit (prior resulting : PaperTables Digest) (call : PreCall Digest)
    (authorityRow : RetainedRow Digest) (risk : RiskRow Digest) : Except String Unit := do
  let plan := call.plan
  let resultingEpochs ← verifiedAuthorityRows basis resulting call.lease.accountId
  verifiedRiskRows basis resulting.risks
  match resultingEpochs.lookup call.lease.leaseId with
  | none => .error "automatic-paper pre-call commit failed verification"
  | some epoch => do
    let usage ← (epochUsage basis call.lease epoch call.runtime.runtimeEpochSha256
      call.runtime.control call.now).mapError
      fun _ => "automatic-paper pre-call commit failed verification"
    let state ← (submissionState basis.sha256 resulting.ledger
      call.request.idempotencyKey).mapError brokerErrorText
    require (resulting.authority = prior.authority ++ [authorityRow] ∧
        resulting.risks.entries = (prior.risks.insert plan.terms.idempotencyKey risk).entries ∧
        usage.eventCount = plan.expectedEventSequence ∧
        usage.latestEventSha256 = plan.expectedConsumptionEventSha256 ∧
        usage.usage.consumedOrderCount = plan.terms.resultingConsumedOrderCount ∧
        usage.usage.consumedNotional = plan.terms.resultingConsumedNotional ∧
        state = some .uncertain ∧ submissionStartedMatches resulting.ledger plan = true)
      "automatic-paper pre-call commit failed verification"
    verifiedCommitLinks basis resulting

/-- Write a plan that is new, and verify what was written. -/
def commitNew (tables : PaperTables Digest) (call : PreCall Digest)
    (epoch : RetainedAuthorityEpoch Digest) (risk : RiskRow Digest) :
    Except String (PreCallResult Digest × PaperTables Digest) := do
  let plan := call.plan
  let currentRuntime ← loadRuntimeControl basis call.processEpoch tables.ledger
    call.lease.accountId
  require (currentRuntime = call.runtime)
    "paper runtime or halt-chain binding changed before commit"
  let loaded ← actualUsage basis call.lease epoch call.usage
  let row := authorityRow basis call.lease plan epoch.bindings (call.trustedGlobalRowCount + 1)
    (some call.trustedLatestGlobalRowSha256)
  require (loaded.latestEventSha256 = plan.expectedPriorEventSha256)
    "paper consumption plan does not match the retained lease head"
  require (plan.terms.plannedAt ≤ call.now ∧ call.now < call.evaluation.riskExpiresAt ∧
      call.now < call.lease.expiresAt)
    "paper consumption plan is stale at persistence time"
  statement call.fault .authorityRow
  statement call.fault .riskRow
  require (tables.risks.lookup plan.terms.idempotencyKey = none ∧
      risk.evaluationSha256 ∉ tables.risks.entries.map fun entry => entry.2.evaluationSha256)
    "automatic-paper pre-call transaction failed"
  statement call.fault .submission
  let (_, ledger) ← (beginSubmission basis.sha256 tables.ledger call.request
    plan.terms.plannedAt).mapError brokerErrorText
  let resulting : PaperTables Digest :=
    { authority := tables.authority ++ [row]
      risks := tables.risks.insert plan.terms.idempotencyKey risk
      ledger }
  verifyResultingCommit basis tables resulting call row risk
  statement call.fault .commit
  return (preCallResult basis call.lease plan row, resulting)

/-- The transaction of one call. -/
def recordPreCall (tables : PaperTables Digest) (call : PreCall Digest) :
    Except String (PreCallResult Digest × PaperTables Digest) := do
  verifyInputs basis call
  require (1 ≤ call.trustedGlobalRowCount) "trusted authority global head is invalid"
  let epoch ← transactionState basis tables call.lease call.trustedGlobalRowCount
    call.trustedLatestGlobalRowSha256
  let risk := riskRow basis call.lease call.evaluation call.plan
  let replayRow ← exactReplay basis tables risk call.lease epoch call.plan
  match replayRow with
  | some row => do
    statement call.fault .commit
    return (preCallResult basis call.lease call.plan row, tables)
  | none => commitNew basis tables call epoch risk

/-- One call with its outcome: a failure leaves the tables that it found. -/
def preCall (tables : PaperTables Digest) (call : PreCall Digest) :
    Except String (PreCallResult Digest) × PaperTables Digest :=
  match recordPreCall basis tables call with
  | .ok (result, committed) => (.ok result, committed)
  | .error text => (.error text, tables)

end Store

end TradingEngine.Broker
