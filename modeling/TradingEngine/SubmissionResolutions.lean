import TradingEngine.BrokerLedger

/-!
# Adjudicating uncertain submissions

A resolution retains one stable observation of the account, what it says about the
submission and the halted control under which it was made. It never permits a retry.
Whoever reads it back classifies the evidence anew, finds the halt in its chain and
insists that the attempt is still uncertain.
-/

namespace TradingEngine.Broker

open KeyedTables Runs

variable {Digest : Type} [DecidableEq Digest]

def MAX_RESOLUTION_FILLS : Nat := 10000

/-- The checks that an observation passes before it is retained. -/
def resolutionEvidencePayload (account : BrokerAccount) (positions : List BrokerPosition)
    (openOrders : List BrokerOrder) (fills : List BrokerFill) :
    Except BrokerError ResolutionEvidence :=
  if MAX_ACCOUNT_ROWS < positions.length ∨ MAX_ACCOUNT_ROWS < openOrders.length ∨
      MAX_RESOLUTION_FILLS < fills.length then
    .error (.valueError "submission resolution evidence is invalid")
  else if (∃ item ∈ positions, item.accountId ≠ account.accountId) ∨
      (∃ item ∈ openOrders, item.accountId ≠ account.accountId) ∨
      (∃ item ∈ fills, item.accountId ≠ account.accountId) then
    .error (.valueError "submission resolution evidence crosses account scope")
  else if ∃ order ∈ openOrders, order.status.stands = false then
    .error (.valueError "submission resolution evidence contains a terminal open order")
  else if positions ≠ positions.mergeSort (fun a b => a.symbol.text ≤ b.symbol.text) ∨
      openOrders ≠ openOrders.mergeSort (fun a b => a.idempotencyKey.text ≤ b.idempotencyKey.text) ∨
      fills ≠ fills.mergeSort BrokerFill.listedBefore then
    .error (.valueError "submission resolution evidence is not canonically ordered")
  else if ¬ (positions.map (·.symbol)).Nodup ∨ ¬ (openOrders.map (·.idempotencyKey)).Nodup ∨
      ¬ (openOrders.map (·.brokerOrderId)).Nodup ∨ ¬ (fills.map (·.executionId)).Nodup then
    .error (.valueError "submission resolution evidence contains duplicate identifiers")
  else .ok { account, positions, openOrders, fills }

/-- The observed orders and fills of a submission, which must fit its intent. -/
def matchingResolutionEvidence (request : SubmitOrderRequest) (openOrders : List BrokerOrder)
    (fills : List BrokerFill) : Except BrokerError (List BrokerOrder × List BrokerFill) :=
  let matchingOrders := openOrders.filter fun order => order.idempotencyKey = request.idempotencyKey
  let matchingFills := fills.filter fun fill => fill.idempotencyKey = request.idempotencyKey
  if 1 < matchingOrders.length then
    .error (.stateError "submission resolution evidence is ambiguous")
  else if ∃ order ∈ matchingOrders, order.terms ≠ request.terms then
    .error (.stateError "submission resolution order conflicts with immutable intent")
  else if ∃ fill ∈ matchingFills, fill.accountId ≠ request.accountId ∨
      fill.symbol ≠ request.symbol ∨ fill.side ≠ request.side then
    .error (.stateError "submission resolution fill conflicts with immutable intent")
  else .ok (matchingOrders, matchingFills)

/-- What the evidence says about a submission. -/
structure Classification where
  outcome : SubmissionResolutionOutcome
  matchingOrderIds : List Identifier
  matchingExecutionIds : List Identifier
  filledQuantity : ℚ

def resolutionClassification (request : SubmitOrderRequest) (account : BrokerAccount)
    (openOrders : List BrokerOrder) (fills : List BrokerFill) :
    Except BrokerError Classification :=
  if account.accountId ≠ request.accountId then
    .error (.stateError "submission resolution evidence targets another account")
  else
    (matchingResolutionEvidence request openOrders fills).bind
      fun (matchingOrders, matchingFills) =>
    let brokerOrderIds :=
      (matchingOrders.map (·.brokerOrderId) ++ matchingFills.map (·.brokerOrderId)).dedup
    if 1 < brokerOrderIds.length then
      .error (.stateError
        "submission resolution evidence has conflicting broker order identifiers")
    else
      let filledQuantity := (matchingFills.map (·.quantity)).sum
      let classified (outcome : SubmissionResolutionOutcome) : Classification :=
        { outcome
          matchingOrderIds := (matchingOrders.map (·.brokerOrderId)).mergeSort
            fun a b => a.text ≤ b.text
          matchingExecutionIds := (matchingFills.map (·.executionId)).mergeSort
            fun a b => a.text ≤ b.text
          filledQuantity }
      if filledQuantity < 0 ∨ request.quantity < filledQuantity then
        .error (.stateError "submission resolution evidence exceeds intent quantity")
      else
        match matchingOrders with
        | order :: _ =>
          if order.filledQuantity ≠ filledQuantity then
            .error (.stateError "submission resolution order and fill evidence disagree")
          else .ok (classified .observedOpen)
        | [] =>
          if filledQuantity = request.quantity then .ok (classified .observedFilled)
          else if 0 < filledQuantity then .ok (classified .observedTerminalPartialFill)
          else .ok (classified .notObservedBurned)

section Resolutions

variable (sha256 : Payload Digest → Digest)

/-- The control under which a resolution was made is found again in its chain. -/
def verifiedResolutionControl (ledger : BrokerLedger Digest) (accountId : Identifier)
    (payload : RiskControlStatus Digest) (payloadSha256 : Digest) (resolutionAt : Instant) :
    Except BrokerError Unit :=
  let invalid : BrokerError := .stateError "stored submission resolution control is invalid"
  if payload.accountId ≠ accountId ∨ payload.halted ≠ true ∨ payload.executionAuthority ≠ "none" ∨
      payload.eventCount < 1 ∨ sha256 (.control payload) ≠ payloadSha256 then
    .error invalid
  else
    (controlStatus sha256 ledger.controlEvents accountId).bind fun current =>
    if current.eventCount < payload.eventCount then .error invalid
    else
      match ledger.controlEvents.find? fun event =>
          event.accountId = accountId ∧ event.eventSequence = payload.eventCount with
      | none => .error invalid
      | some row =>
        let expected : RiskControlStatus Digest :=
          { accountId, halted := true, reason := row.reason, eventCount := payload.eventCount
            latestEventSha256 := some row.eventSha256 }
        let haltBody : HaltBody Digest :=
          { haltKey := row.haltKey, accountId, eventSequence := payload.eventCount
            reason := row.reason, occurredAt := row.occurredAt
            priorEventSha256 := row.priorEventSha256 }
        if payload ≠ expected ∨ sha256 (.halt haltBody) ≠ row.eventSha256 ∨
            resolutionAt < row.occurredAt then
          .error invalid
        else .ok ()

/-- The resolution of a key, verified against its evidence, its control and the
attempt that it resolves. -/
def verifiedSubmissionResolution (ledger : BrokerLedger Digest) (key : Identifier) :
    Except BrokerError (Option (ResolutionBody Digest × Digest)) :=
  let invalid : BrokerError := .stateError "stored submission resolution is invalid"
  match ledger.resolutions.lookup key with
  | none => .ok none
  | some row =>
    let payload := row.resolutionPayload
    let evidence := row.evidencePayload
    if payload.schemaVersion ≠ 1 ∨ payload.resolutionKey ≠ row.resolutionKey ∨
        payload.idempotencyKey ≠ key ∨ payload.accountId ≠ row.accountId ∨
        payload.intentSha256 ≠ row.intentSha256 ∨ payload.outcome ≠ row.outcome ∨
        payload.operationalControlSha256 ≠ row.controlSha256 ∨
        payload.evidenceSha256 ≠ row.evidenceSha256 ∨ payload.observedAt ≠ row.observedAt ∨
        payload.retryPermitted ≠ false ∨ payload.submissionAuthority ≠ "none" ∨
        sha256 (.resolution payload) ≠ row.resolutionSha256 ∨
        sha256 (.evidence evidence) ≠ row.evidenceSha256 then
      .error invalid
    else
      match ledger.intents.lookup key with
      | none => .error (.stateError "stored submission resolution has no intent")
      | some intent =>
        let request := intent.intentPayload
        if intent.accountId ≠ row.accountId ∨ intent.intentSha256 ≠ row.intentSha256 ∨
            request.idempotencyKey ≠ key ∨ sha256 (.intent request) ≠ row.intentSha256 then
          .error (.stateError "stored submission resolution intent is invalid")
        else
          (resolutionEvidencePayload evidence.account evidence.positions evidence.openOrders
            evidence.fills).bind fun rebuilt =>
          if rebuilt ≠ evidence then
            .error (.stateError "stored submission resolution evidence is invalid")
          else
            (resolutionClassification request evidence.account evidence.openOrders
              evidence.fills).bind fun derived =>
            (verifiedResolutionControl sha256 ledger row.accountId payload.operationalControl
              row.controlSha256 row.observedAt).bind fun _ =>
            (submissionEvents sha256 ledger key).bind fun
            | none | some (.acknowledged, _) =>
              .error (.stateError "stored submission resolution has no uncertain attempt")
            | some (.uncertain, started) =>
              if row.observedAt < started.occurredAt ∨ derived.outcome ≠ row.outcome ∨
                  payload.matchingOrderIds ≠ derived.matchingOrderIds ∨
                  payload.matchingExecutionIds ≠ derived.matchingExecutionIds ∨
                  payload.observedFilledQuantity ≠ derived.filledQuantity then
                .error invalid
              else .ok (some (payload, row.resolutionSha256))

/-- Append terminal reconciliation evidence without permitting a retry. -/
def recordSubmissionResolution (ledger : BrokerLedger Digest) (request : SubmitOrderRequest)
    (resolutionKey : Identifier) (account : BrokerAccount) (positions : List BrokerPosition)
    (openOrders : List BrokerOrder) (fills : List BrokerFill) (now : Instant) :
    Except BrokerError ((ResolutionBody Digest × Digest) × BrokerLedger Digest) :=
  (uncertainSubmissionRequest sha256 ledger request.idempotencyKey).bind fun requestFromLedger =>
  if requestFromLedger ≠ request then
    .error (.stateError "submission resolution request conflicts with intent")
  else
    (resolutionEvidencePayload account positions openOrders fills).bind fun evidence =>
    (resolutionClassification request account openOrders fills).bind fun found =>
    (controlStatus sha256 ledger.controlEvents request.accountId).bind fun control =>
    if control.halted = false ∨ control.eventCount < 1 then
      .error (.stateError "submission resolution requires durable halted control")
    else
      (submissionEvents sha256 ledger request.idempotencyKey).bind fun
      | none | some (.acknowledged, _) => .error (.stateError "broker submission is not uncertain")
      | some (.uncertain, started) =>
        if now < started.occurredAt then
          .error (.valueError "submission resolution precedes submission start")
        else
          (verifiedSubmissionResolution sha256 ledger request.idempotencyKey).bind fun existing =>
          let body : ResolutionBody Digest :=
            { resolutionKey, idempotencyKey := request.idempotencyKey
              accountId := request.accountId, intentSha256 := sha256 (.intent request)
              outcome := found.outcome, operationalControl := control
              operationalControlSha256 := sha256 (.control control)
              evidenceSha256 := sha256 (.evidence evidence), observedAt := now
              matchingOrderIds := found.matchingOrderIds
              matchingExecutionIds := found.matchingExecutionIds
              observedFilledQuantity := found.filledQuantity }
          match existing with
          | some (stored, digest) =>
            -- an exact replay agrees in everything but the control that was current
            if { stored with
                operationalControl := body.operationalControl
                operationalControlSha256 := body.operationalControlSha256 } ≠ body then
              .error (.stateError "stored submission resolution conflicts with idempotency key")
            else .ok ((stored, digest), ledger)
          | none =>
            let digest := sha256 (.resolution body)
            if ∃ row ∈ ledger.resolutions.entries, row.2.resolutionKey = resolutionKey then
              .error (.stateError "submission resolution key is already used")
            else
              .ok ((body, digest),
                { ledger with
                  resolutions := ledger.resolutions.insert request.idempotencyKey
                    { resolutionKey, accountId := request.accountId
                      intentSha256 := sha256 (.intent request), outcome := found.outcome
                      controlSha256 := sha256 (.control control)
                      evidenceSha256 := sha256 (.evidence evidence), evidencePayload := evidence
                      resolutionSha256 := digest, resolutionPayload := body, observedAt := now } })

variable {sha256}

/-- A key without a verified resolution has none. -/
theorem verifiedSubmissionResolution_none {ledger : BrokerLedger Digest} {key : Identifier}
    (verified : verifiedSubmissionResolution sha256 ledger key = .ok none) :
    ledger.resolutions.lookup key = none := by
  unfold verifiedSubmissionResolution at verified
  dsimp only at verified
  split at verified
  · assumption
  exfalso
  split at verified
  · cases verified
  split at verified
  · cases verified
  split at verified
  · cases verified
  obtain ⟨rebuilt, _, verified⟩ := bind_ok.mp verified
  split at verified
  · cases verified
  obtain ⟨derived, _, verified⟩ := bind_ok.mp verified
  obtain ⟨_, _, verified⟩ := bind_ok.mp verified
  obtain ⟨found, _, verified⟩ := bind_ok.mp verified
  split at verified
  · cases verified
  · cases verified
  · split at verified
    · cases verified
    · cases verified

variable (sha256) in
/-- The row that a resolution inserts. -/
def resolutionRow (request : SubmitOrderRequest) (resolutionKey : Identifier)
    (evidence : ResolutionEvidence) (found : Classification)
    (control : RiskControlStatus Digest) (now : Instant) : ResolutionRow Digest :=
  let body : ResolutionBody Digest :=
    { resolutionKey, idempotencyKey := request.idempotencyKey
      accountId := request.accountId, intentSha256 := sha256 (.intent request)
      outcome := found.outcome, operationalControl := control
      operationalControlSha256 := sha256 (.control control)
      evidenceSha256 := sha256 (.evidence evidence), observedAt := now
      matchingOrderIds := found.matchingOrderIds
      matchingExecutionIds := found.matchingExecutionIds
      observedFilledQuantity := found.filledQuantity }
  { resolutionKey, accountId := request.accountId, intentSha256 := sha256 (.intent request)
    outcome := found.outcome, controlSha256 := sha256 (.control control)
    evidenceSha256 := sha256 (.evidence evidence), evidencePayload := evidence
    resolutionSha256 := sha256 (.resolution body), resolutionPayload := body, observedAt := now }

/-- What recording a resolution does: it repeats the stored one, or it adjudicates an
uncertain submission that had none. -/
theorem recordSubmissionResolution_cases {ledger after : BrokerLedger Digest}
    {request : SubmitOrderRequest} {resolutionKey : Identifier} {account : BrokerAccount}
    {positions : List BrokerPosition} {openOrders : List BrokerOrder} {fills : List BrokerFill}
    {now : Instant} {result : ResolutionBody Digest × Digest}
    (recorded : recordSubmissionResolution sha256 ledger request resolutionKey account positions
      openOrders fills now = .ok (result, after)) :
    after = ledger ∨
    ∃ evidence found control started,
      uncertainSubmissionRequest sha256 ledger request.idempotencyKey = .ok request ∧
      resolutionEvidencePayload account positions openOrders fills = .ok evidence ∧
      resolutionClassification request account openOrders fills = .ok found ∧
      controlStatus sha256 ledger.controlEvents request.accountId = .ok control ∧
      control.halted = true ∧ 1 ≤ control.eventCount ∧
      submissionEvents sha256 ledger request.idempotencyKey = .ok (some (.uncertain, started)) ∧
      started.occurredAt ≤ now ∧ ledger.resolutions.lookup request.idempotencyKey = none ∧
      after = { ledger with
        resolutions := ledger.resolutions.insert request.idempotencyKey
          (resolutionRow sha256 request resolutionKey evidence found control now) } := by
  obtain ⟨stored, uncertain, recorded⟩ := bind_ok.mp recorded
  split at recorded
  · cases recorded
  rename_i same
  obtain rfl := not_not.mp same
  obtain ⟨evidence, observed, recorded⟩ := bind_ok.mp recorded
  obtain ⟨found, classified, recorded⟩ := bind_ok.mp recorded
  obtain ⟨control, halts, recorded⟩ := bind_ok.mp recorded
  split at recorded
  · cases recorded
  rename_i halted
  push Not at halted
  obtain ⟨attempt, read, recorded⟩ := bind_ok.mp recorded
  split at recorded
  · cases recorded
  · cases recorded
  rename_i started
  split at recorded
  · cases recorded
  rename_i late
  obtain ⟨existing, verified, recorded⟩ := bind_ok.mp recorded
  dsimp only at recorded
  split at recorded
  · split at recorded
    · cases recorded
    · cases recorded
      exact .inl rfl
  · split at recorded
    · cases recorded
    · cases recorded
      exact .inr ⟨evidence, found, control, started, uncertain, observed, classified, halts,
        by simpa using halted.1, halted.2, read, not_lt.mp late,
        verifiedSubmissionResolution_none verified, rfl⟩

end Resolutions

end TradingEngine.Broker
