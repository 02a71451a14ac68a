import TradingEngine.HaltChains
import TradingEngine.PaperPayloads

/-!
# Paper authority transcripts

The events of one lease form a chain: an activation, then consumptions, then at most
one revocation. The verifier recomputes every hash and every counter. Usage is
derived from a transcript that is still open, never taken from a caller.
-/

namespace TradingEngine.Broker

variable {Digest : Type} [DecidableEq Digest]

/-- Hash functions and character classes that the checks rest on. -/
structure Primitives (Digest : Type) where
  sha256 : Payload Digest → Digest
  paperSha256 : PaperPayload Digest → Digest
  isspace : Char → Bool
  isprintable : Char → Bool

/-- The identities that an activation is trusted under. -/
structure ActivationBindings (Digest : Type) where
  trustedActivationEventSha256 : Digest
  candidateAssessmentSha256 : Digest
  startupAssessmentSha256 : Digest
  activationRuntimeEpochSha256 : Digest
  deriving DecidableEq

/-- What the next event of a chain must continue. -/
structure ChainState (Digest : Type) where
  sequence : Nat
  priorEventSha256 : Option Digest
  priorTime : Option Instant

/-- What the events so far consumed, and whether they end in a revocation. -/
structure SpendingState (Digest : Type) where
  consumedCount : Nat
  consumedNotional : ℚ
  consumptionKeys : List Identifier
  idempotencyKeys : List Identifier
  requestHashes : List Digest
  revokedControl : Option (ControlAnchor Digest)

inductive ControlRelation where
  | same | advanced
  deriving DecidableEq

def ControlAnchor.of (eventCount : Nat) (latestEventSha256 : Digest) :
    Except String (ControlAnchor Digest) :=
  if positive : 1 ≤ eventCount then .ok ⟨eventCount, latestEventSha256, positive⟩
  else .error "control anchor event count must be positive"

def controlRelation (older newer : ControlAnchor Digest) (label : String) :
    Except String ControlRelation :=
  if newer.eventCount < older.eventCount then
    .error (label ++ " control chain moved backward")
  else if newer.eventCount = older.eventCount then
    if newer.latestEventSha256 ≠ older.latestEventSha256 then
      .error (label ++ " control anchor conflicts")
    else .ok .same
  else .ok .advanced

/-- `math.isclose` with the absolute tolerance of the notional checks. -/
def closeTo (first second : ℚ) : Prop := |first - second| ≤ 1 / 10 ^ 9

instance (first second : ℚ) : Decidable (closeTo first second) :=
  inferInstanceAs (Decidable (_ ≤ _))

section Transcript

variable (basis : Primitives Digest)

def PaperAuthorityLease.sha256 (lease : PaperAuthorityLease Digest) : Digest :=
  basis.paperSha256 (.lease lease)

/-- Verify one event against the chain before it and against the lease. -/
def chainStep (lease : PaperAuthorityLease Digest) (chain : ChainState Digest)
    (event : AuthorityEvent Digest) : Except String (ChainState Digest) := do
  require (event.schemaVersion = 2 ∧ event.eventSequence = chain.sequence ∧
      event.priorEventSha256 = chain.priorEventSha256 ∧ event.submissionAuthority = "none")
    "paper authority event sequence or authority is invalid"
  require (basis.paperSha256 (.event event.toEventBody) = event.eventSha256)
    "paper authority event hash does not match"
  require (∀ earlier ∈ chain.priorTime, earlier ≤ event.occurredAt)
    "paper authority event time moved backward"
  require (event.leaseId = lease.leaseId ∧ event.leaseSha256 = lease.sha256 basis ∧
      event.accountId = lease.accountId ∧ event.mode = lease.mode)
    "paper authority event conflicts with lease"
  return ⟨chain.sequence + 1, some event.eventSha256, some event.occurredAt⟩

/-- The control anchor of an activation that matches its trusted identities. -/
def activation (bindings : ActivationBindings Digest) (event : AuthorityEvent Digest) :
    Except String (ControlAnchor Digest) :=
  match event.detail with
  | .activationRecorded candidate startup controlEventCount controlEventSha256 runtimeEpoch => do
    require (event.eventSha256 = bindings.trustedActivationEventSha256 ∧
        candidate = bindings.candidateAssessmentSha256 ∧
        startup = bindings.startupAssessmentSha256 ∧
        runtimeEpoch = bindings.activationRuntimeEpochSha256)
      "paper authority activation binding is invalid"
    ControlAnchor.of controlEventCount controlEventSha256
  | .consumptionCommitted _ | .revocationRecorded .. =>
    .error "paper authority activation binding is invalid"

/-- The chain of events, from an activation in the lease's window that is not observed
before it happened. -/
def verifiedTranscriptEvents (lease : PaperAuthorityLease Digest)
    (bindings : ActivationBindings Digest) (first : AuthorityEvent Digest)
    (rest : List (AuthorityEvent Digest)) (observedAt : Instant) :
    Except String (ControlAnchor Digest) := do
  let _ ← (first :: rest).foldlM (chainStep basis lease) ⟨1, none, none⟩
  let control ← activation bindings first
  require (lease.notBefore ≤ first.occurredAt ∧ first.occurredAt < lease.expiresAt)
    "paper authority activation is outside the lease window"
  require (first.occurredAt ≤ observedAt)
    "paper authority transcript is observed before activation"
  return control

/-- The control anchor of a revocation, which must be later than the activation's. -/
def revocationControl (reason : String) (controlEventCount : Nat) (controlEventSha256 : Digest)
    (activationControl : ControlAnchor Digest) : Except String (ControlAnchor Digest) := do
  require (validReason basis.isspace basis.isprintable reason = true)
    "paper authority revocation reason is invalid"
  let control ← ControlAnchor.of controlEventCount controlEventSha256
  let relation ← controlRelation activationControl control "revocation"
  require (relation = .advanced) "paper authority revocation requires a later halt event"
  return control

/-- Count one consumption against the lease. -/
def verifiedConsumption (lease : PaperAuthorityLease Digest) (state : SpendingState Digest)
    (consumption : Consumption Digest) : Except String (SpendingState Digest) := do
  require (consumption.submissionState = .uncertain)
    "paper consumption must commit with uncertain submission state"
  require (consumption.consumptionKey ∉ state.consumptionKeys ∧
      consumption.idempotencyKey ∉ state.idempotencyKeys ∧
      consumption.requestSha256 ∉ state.requestHashes)
    "paper authority transcript repeats a consumed intent"
  require (0 < consumption.orderNotional)
    "paper consumption order notional must be a positive finite number"
  let consumedCount := state.consumedCount + 1
  let consumedNotional := state.consumedNotional + consumption.orderNotional
  require (consumption.resultingConsumedOrderCount = consumedCount ∧
      closeTo consumption.resultingConsumedNotional consumedNotional ∧
      consumption.orderNotional ≤ lease.maxOrderNotional ∧
      consumedCount ≤ lease.maxOrders ∧ consumedNotional ≤ lease.capitalCeiling)
    "paper authority consumption exceeds or misstates lease capacity"
  return { state with
    consumedCount := consumedCount
    consumedNotional := consumedNotional
    consumptionKeys := state.consumptionKeys ++ [consumption.consumptionKey]
    idempotencyKeys := state.idempotencyKeys ++ [consumption.idempotencyKey]
    requestHashes := state.requestHashes ++ [consumption.requestSha256] }

/-- Count one event after the activation. -/
def usageStep (lease : PaperAuthorityLease Digest) (activationControl : ControlAnchor Digest)
    (state : SpendingState Digest) (event : AuthorityEvent Digest) :
    Except String (SpendingState Digest) := do
  require (state.revokedControl = none) "paper authority event follows terminal revocation"
  require (event.detail.eventType ≠ .activationRecorded)
    "paper authority transcript has multiple activations"
  require (event.occurredAt < lease.expiresAt)
    "paper authority event is outside the lease window"
  match event.detail with
  | .revocationRecorded _ reason controlEventCount controlEventSha256 => do
    let control ← revocationControl basis reason controlEventCount controlEventSha256
      activationControl
    return { state with revokedControl := some control }
  | .consumptionCommitted consumption => verifiedConsumption lease state consumption
  | .activationRecorded .. => .error "paper authority event order is invalid"

def SpendingState.initial : SpendingState Digest := ⟨0, 0, [], [], [], none⟩

/-- The state that a transcript is in. -/
def transcriptState (lease : PaperAuthorityLease Digest) (spent : SpendingState Digest)
    (activationRuntime currentRuntime : Digest) (relation : ControlRelation)
    (observedAt : Instant) : TranscriptState :=
  if spent.revokedControl.isSome then .revoked
  else if currentRuntime ≠ activationRuntime then .invalidatedByRestart
  else if relation = .advanced then .invalidatedByHalt
  else if lease.expiresAt ≤ observedAt then .expired
  else if lease.maxOrders ≤ spent.consumedCount ∨
      lease.capitalCeiling ≤ spent.consumedNotional then .exhausted
  else .activationWindowOpen

/-- What is reported about a transcript that was verified. -/
def transcriptBody (lease : PaperAuthorityLease Digest) (first : AuthorityEvent Digest)
    (rest : List (AuthorityEvent Digest)) (spent : SpendingState Digest)
    (bindings : ActivationBindings Digest) (currentRuntime : Digest)
    (activationControl currentControl : ControlAnchor Digest) (relation : ControlRelation)
    (now : Instant) : TranscriptBody Digest where
  leaseId := lease.leaseId
  leaseSha256 := lease.sha256 basis
  accountId := lease.accountId
  mode := lease.mode
  state := transcriptState lease spent bindings.activationRuntimeEpochSha256 currentRuntime
    relation now
  eventCount := (first :: rest).length
  latestEventSha256 := ((first :: rest).getLast (List.cons_ne_nil _ _)).eventSha256
  consumedOrderCount := spent.consumedCount
  consumedNotional := spent.consumedNotional
  remainingOrderCount := lease.maxOrders - spent.consumedCount
  remainingNotional := lease.capitalCeiling - spent.consumedNotional
  observedAt := now
  leaseExpiresAt := lease.expiresAt
  activationRuntimeEpochSha256 := bindings.activationRuntimeEpochSha256
  currentRuntimeEpochSha256 := currentRuntime
  activationControl
  currentControl

/-- Verify a proposed event chain without making it executable. -/
def verifyTranscript (lease : PaperAuthorityLease Digest) (events : List (AuthorityEvent Digest))
    (bindings : ActivationBindings Digest) (currentRuntime : Digest)
    (currentControl : ControlAnchor Digest) (now : Instant) :
    Except String (TranscriptBody Digest × Digest) :=
  match events with
  | [] => .error "paper authority transcript must be a nonempty tuple"
  | first :: rest => do
    let activationControl ← verifiedTranscriptEvents basis lease bindings first rest now
    let spent ← rest.foldlM (usageStep basis lease activationControl) .initial
    let relation ← controlRelation (spent.revokedControl.getD activationControl) currentControl
      "current"
    let body := transcriptBody basis lease first rest spent bindings currentRuntime
      activationControl currentControl relation now
    return (body, basis.paperSha256 (.transcript body))

/-- Check a verified transcript against the trusted head, and that it is open. -/
def verifiedResult (lease : PaperAuthorityLease Digest) (trustedEventCount : Nat)
    (trustedLatestEventSha256 : Digest) (result : TranscriptBody Digest × Digest) :
    Except String Unit := do
  require (result.1.leaseId = lease.leaseId ∧ result.1.leaseSha256 = lease.sha256 basis ∧
      result.1.accountId = lease.accountId ∧ result.1.mode = lease.mode ∧
      result.1.eventCount = trustedEventCount ∧
      result.1.latestEventSha256 = trustedLatestEventSha256 ∧
      result.2 = basis.paperSha256 (.transcript result.1))
    "verified paper authority transcript binding is invalid"
  require (result.1.state = .activationWindowOpen)
    "paper authority transcript is not open for future consumption"

def PaperLeaseUsage.of (lease : PaperAuthorityLease Digest) (consumedOrderCount : Nat)
    (consumedNotional : ℚ) : Except String (PaperLeaseUsage Digest) :=
  if nonneg : 0 ≤ consumedNotional then
    .ok ⟨lease.leaseId, lease.sha256 basis, consumedOrderCount, consumedNotional, nonneg⟩
  else .error "paper consumed notional must be a nonnegative finite number"

/-- The hash of the evidence that a loaded usage stands on. -/
def UsageBody.sha256 (body : UsageBody Digest) : Digest :=
  basis.paperSha256 (.usageEvidence body (basis.paperSha256 (.usage body.usage)))

/-- Consumptions among events. -/
def consumptions (events : List (AuthorityEvent Digest)) : List (Consumption Digest) :=
  events.filterMap fun event => event.detail.consumption?

/-- Derive current counters from one complete, open transcript. -/
def loadOpenUsage (lease : PaperAuthorityLease Digest) (events : List (AuthorityEvent Digest))
    (trustedEventCount : Nat) (trustedLatestEventSha256 : Digest)
    (bindings : ActivationBindings Digest) (currentRuntime : Digest)
    (currentControl : ControlAnchor Digest) (now : Instant) :
    Except String (LoadedPaperLeaseUsage Digest) := do
  require (events ≠ []) "paper authority transcript must be a nonempty tuple"
  require (1 ≤ trustedEventCount)
    "trusted paper authority event count must be a positive integer"
  require (events.length = trustedEventCount ∧
      events.getLast?.map AuthorityEvent.eventSha256 = some trustedLatestEventSha256)
    "paper authority transcript is incomplete or has the wrong head"
  let result ← (verifyTranscript basis lease events bindings currentRuntime currentControl
    now).mapError fun _ => "paper authority transcript verification failed"
  verifiedResult basis lease trustedEventCount trustedLatestEventSha256 result
  let usage ← PaperLeaseUsage.of basis lease result.1.consumedOrderCount
    result.1.consumedNotional
  let consumed := consumptions events
  let body : UsageBody Digest :=
    { usage
      consumedConsumptionKeys := consumed.map Consumption.consumptionKey
      consumedIdempotencyKeys := consumed.map Consumption.idempotencyKey
      consumedRequestSha256s := consumed.map Consumption.requestSha256
      transcriptSha256 := result.2
      eventCount := result.1.eventCount
      latestEventSha256 := result.1.latestEventSha256
      candidateAssessmentSha256 := bindings.candidateAssessmentSha256
      startupAssessmentSha256 := bindings.startupAssessmentSha256
      activationRuntimeEpochSha256 := result.1.activationRuntimeEpochSha256
      currentRuntimeEpochSha256 := result.1.currentRuntimeEpochSha256
      currentControl := result.1.currentControl
      observedAt := result.1.observedAt
      leaseExpiresAt := result.1.leaseExpiresAt }
  return { body with evidenceSha256 := body.sha256 basis }

/-- Re-verify one derived usage without accepting replacement counters. -/
def verifyLoadedUsage (loaded : LoadedPaperLeaseUsage Digest)
    (lease : PaperAuthorityLease Digest) : Except String Unit :=
  require (loaded.usage.leaseId = lease.leaseId ∧
      loaded.usage.leaseSha256 = lease.sha256 basis ∧
      loaded.consumedConsumptionKeys.length = loaded.usage.consumedOrderCount ∧
      loaded.consumedIdempotencyKeys.length = loaded.usage.consumedOrderCount ∧
      loaded.consumedRequestSha256s.length = loaded.usage.consumedOrderCount ∧
      loaded.eventCount = loaded.usage.consumedOrderCount + 1 ∧
      loaded.consumedConsumptionKeys.Nodup ∧ loaded.consumedIdempotencyKeys.Nodup ∧
      loaded.consumedRequestSha256s.Nodup ∧
      loaded.transcriptState = .activationWindowOpen ∧ loaded.executionAuthority = "none" ∧
      loaded.leaseExpiresAt = lease.expiresAt ∧ lease.notBefore ≤ loaded.observedAt ∧
      loaded.observedAt < loaded.leaseExpiresAt ∧
      loaded.evidenceSha256 = loaded.toUsageBody.sha256 basis)
    "loaded paper usage evidence is invalid"

end Transcript

end TradingEngine.Broker
