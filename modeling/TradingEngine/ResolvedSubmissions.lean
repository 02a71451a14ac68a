import TradingEngine.SubmitOnce

/-!
# Resolutions that last

A resolution is believed as long as its row, the intent, the single attempt and the
halt that it cites are where they were. Only halts are added to the chain it cites,
and only an acknowledgement touches the attempts of a started submission. A slow
adapter can still bring one: the ledger does not look for a resolution before it
binds the order. A resolution recorded under a clock behind the latest halt is never
believed at all.
-/

namespace TradingEngine.Broker

open KeyedTables Runs Procedures System

variable {Digest : Type} [DecidableEq Digest] {sha256 : Payload Digest → Digest}
  {verify : RiskDecision Digest → Except BrokerError Unit}

/-- The verified control counts the halts of the account and cites the latest. -/
theorem controlStatus_cases {events : List (HaltEvent Digest)} {accountId : Identifier}
    {control : RiskControlStatus Digest} (chains : ChainsHold sha256 events)
    (read : controlStatus sha256 events accountId = .ok control) :
    control.eventCount = (events.filter fun event => event.accountId = accountId).length ∧
    (1 ≤ control.eventCount → ∃ row ∈ events, row.accountId = accountId ∧
      row.eventSequence = control.eventCount ∧ sha256 (.halt row.body) = row.eventSha256 ∧
      control = { accountId, halted := true, reason := row.reason
                  eventCount := control.eventCount
                  latestEventSha256 := some row.eventSha256 }) := by
  unfold controlStatus at read
  rw [chains.verifiedEvents] at read
  simp only [Except.map, Except.ok.injEq] at read
  subst read
  have chain := chains accountId
  cases last : (events.filter fun event => event.accountId = accountId).getLast? with
  | none =>
    rw [List.getLast?_eq_none_iff] at last
    simp [last]
  | some latest =>
    obtain ⟨front, split⟩ := List.getLast?_eq_some_iff.mp last
    rw [split] at chain
    have link := (chained_concat.mp chain).2
    simp only [linked, Bool.and_eq_true, decide_eq_true_eq] at link
    obtain ⟨⟨⟨⟨⟨account, sequence⟩, _⟩, _⟩, _⟩, digest⟩ := link
    refine ⟨rfl, fun _ => ⟨latest, ?_, account, ?_, digest, ?_⟩⟩
    · have listed : latest ∈ events.filter fun event => event.accountId = accountId := by
        rw [split]
        simp
      exact List.mem_of_mem_filter listed
    · dsimp only
      rw [sequence, split]
      simp [add_comm]
    · rfl

theorem findHalt {events : List (HaltEvent Digest)} {accountId : Identifier} {count : Nat}
    {row : HaltEvent Digest} (chains : ChainsHold sha256 events) (listed : row ∈ events)
    (account : row.accountId = accountId) (sequence : row.eventSequence = count) :
    events.find? (fun event => event.accountId = accountId ∧ event.eventSequence = count) =
      some row := by
  cases found : events.find? fun event => event.accountId = accountId ∧ event.eventSequence = count with
  | none =>
    have missing := List.find?_eq_none.mp found row listed
    simp [account, sequence] at missing
  | some other =>
    have matches' := List.find?_some found
    simp only [decide_eq_true_eq] at matches'
    rw [chains.distinct (List.mem_of_find?_eq_some found) listed (matches'.1.trans account.symm)
      (matches'.2.trans sequence.symm)]

/-- A control that was just read is found again, if its halt does not lie ahead. -/
theorem verifiedResolutionControl_read {ledger : BrokerLedger Digest} {accountId : Identifier}
    {control : RiskControlStatus Digest} {now : Instant}
    (chains : ChainsHold sha256 ledger.controlEvents)
    (read : controlStatus sha256 ledger.controlEvents accountId = .ok control)
    (counted : 1 ≤ control.eventCount)
    (timely : ∀ event ∈ ledger.controlEvents, event.accountId = accountId → event.occurredAt ≤ now) :
    verifiedResolutionControl sha256 ledger accountId control (sha256 (.control control)) now =
      .ok () := by
  obtain ⟨_, latest⟩ := controlStatus_cases chains read
  obtain ⟨row, listed, account, sequence, digest, same⟩ := latest counted
  have fields : control.accountId = accountId ∧ control.halted = true ∧
      control.executionAuthority = "none" := by
    rw [same]
    exact ⟨rfl, rfl, rfl⟩
  have body : row.body =
      { haltKey := row.haltKey, accountId, eventSequence := control.eventCount
        reason := row.reason, occurredAt := row.occurredAt
        priorEventSha256 := row.priorEventSha256 } := by
    rw [HaltEvent.body, account, sequence]
  unfold verifiedResolutionControl
  rw [if_neg (by simp [fields, Nat.not_lt.mpr counted]), read, Except.bind]
  dsimp only
  rw [if_neg (lt_irrefl _), findHalt chains listed account sequence]
  dsimp only
  rw [if_neg]
  rw [not_or, not_or, not_not, not_not, not_lt]
  exact ⟨same, body ▸ digest, timely row listed account⟩

/-- What was found in a chain is found in every longer one. -/
theorem verifiedResolutionControl_kept {ledger after : BrokerLedger Digest}
    {accountId : Identifier} {payload : RiskControlStatus Digest} {digest : Digest} {at' : Instant}
    (chains : ChainsHold sha256 ledger.controlEvents)
    (laterChains : ChainsHold sha256 after.controlEvents)
    (extends' : ledger.controlEvents <+: after.controlEvents)
    (verified : verifiedResolutionControl sha256 ledger accountId payload digest at' = .ok ()) :
    verifiedResolutionControl sha256 after accountId payload digest at' = .ok () := by
  have status : ∀ {events : List (HaltEvent Digest)}, ChainsHold sha256 events →
      ∃ control, controlStatus sha256 events accountId = .ok control ∧
        control.eventCount = (events.filter fun event => event.accountId = accountId).length := by
    intro events holds
    cases read : controlStatus sha256 events accountId with
    | ok control => exact ⟨control, rfl, (controlStatus_cases holds read).1⟩
    | error raised =>
      unfold controlStatus at read
      rw [holds.verifiedEvents] at read
      cases read
  obtain ⟨control, read, counted⟩ := status chains
  obtain ⟨later, laterRead, laterCounted⟩ := status laterChains
  have grown : control.eventCount ≤ later.eventCount := by
    rw [counted, laterCounted]
    exact (extends'.filter _).length_le
  unfold verifiedResolutionControl at verified ⊢
  dsimp only at verified ⊢
  split at verified
  · cases verified
  rename_i shape
  rw [if_neg shape]
  rw [read, Except.bind] at verified
  rw [laterRead, Except.bind]
  split at verified
  · cases verified
  rename_i enough
  rw [if_neg (by omega)]
  split at verified
  · cases verified
  rename_i row found
  rw [extends'.find?_eq_some found]
  exact verified

variable (sha256) in
/-- Everything that a reader checks about a stored resolution. -/
structure Verifies (ledger : BrokerLedger Digest) (key : Identifier) (row : ResolutionRow Digest) :
    Prop where
  stored : ledger.resolutions.lookup key = some row
  body : row.resolutionPayload.schemaVersion = 1 ∧
    row.resolutionPayload.resolutionKey = row.resolutionKey ∧
    row.resolutionPayload.idempotencyKey = key ∧ row.resolutionPayload.accountId = row.accountId ∧
    row.resolutionPayload.intentSha256 = row.intentSha256 ∧
    row.resolutionPayload.outcome = row.outcome ∧
    row.resolutionPayload.operationalControlSha256 = row.controlSha256 ∧
    row.resolutionPayload.evidenceSha256 = row.evidenceSha256 ∧
    row.resolutionPayload.observedAt = row.observedAt ∧
    row.resolutionPayload.retryPermitted = false ∧
    row.resolutionPayload.submissionAuthority = "none" ∧
    sha256 (.resolution row.resolutionPayload) = row.resolutionSha256 ∧
    sha256 (.evidence row.evidencePayload) = row.evidenceSha256
  evidence : resolutionEvidencePayload row.evidencePayload.account row.evidencePayload.positions
    row.evidencePayload.openOrders row.evidencePayload.fills = .ok row.evidencePayload
  intent : ∃ intent, ledger.intents.lookup key = some intent ∧ intent.accountId = row.accountId ∧
    intent.intentSha256 = row.intentSha256 ∧ intent.intentPayload.idempotencyKey = key ∧
    sha256 (.intent intent.intentPayload) = row.intentSha256 ∧
    ∃ derived, resolutionClassification intent.intentPayload row.evidencePayload.account
        row.evidencePayload.openOrders row.evidencePayload.fills = .ok derived ∧
      derived.outcome = row.outcome ∧
      row.resolutionPayload.matchingOrderIds = derived.matchingOrderIds ∧
      row.resolutionPayload.matchingExecutionIds = derived.matchingExecutionIds ∧
      row.resolutionPayload.observedFilledQuantity = derived.filledQuantity
  control : verifiedResolutionControl sha256 ledger row.accountId
    row.resolutionPayload.operationalControl row.controlSha256 row.observedAt = .ok ()
  attempt : ∃ started, submissionEvents sha256 ledger key = .ok (some (.uncertain, started)) ∧
    started.occurredAt ≤ row.observedAt

namespace Verifies

variable {ledger after : BrokerLedger Digest} {key : Identifier} {row : ResolutionRow Digest}

theorem read (verifies : Verifies sha256 ledger key row) :
    verifiedSubmissionResolution sha256 ledger key =
      .ok (some (row.resolutionPayload, row.resolutionSha256)) := by
  obtain ⟨stored, body, evidence, intent, control, attempt⟩ := verifies
  obtain ⟨intent, found, account, digest, same, hashed, derived, classified, outcome, orders,
    executions, filled⟩ := intent
  obtain ⟨started, uncertain, inOrder⟩ := attempt
  unfold verifiedSubmissionResolution
  rw [stored]
  dsimp only
  rw [if_neg (by simp [body]), found]
  dsimp only
  rw [if_neg (by simp [account, digest, same, hashed]), evidence, Except.bind, if_neg (by simp),
    classified, Except.bind, control, Except.bind, uncertain, Except.bind]
  exact if_neg (by simp [outcome, orders, executions, filled, not_lt.mpr inOrder])

theorem uncertain (verifies : Verifies sha256 ledger key row) :
    submissionState sha256 ledger key = .ok (some .uncertain) := by
  obtain ⟨started, read, _⟩ := verifies.attempt
  rw [submissionState, read]
  rfl

/-- A resolution stays believed while its row, its intent and its attempt stay and
halts are only added. -/
theorem kept (verifies : Verifies sha256 ledger key row)
    (stored : after.resolutions.lookup key = some row)
    (intents : ∀ intent, ledger.intents.lookup key = some intent →
      after.intents.lookup key = some intent)
    (events : after.events key = ledger.events key)
    (chains : ChainsHold sha256 ledger.controlEvents)
    (laterChains : ChainsHold sha256 after.controlEvents)
    (extends' : ledger.controlEvents <+: after.controlEvents) :
    Verifies sha256 after key row := by
  obtain ⟨intent, found, facts⟩ := verifies.intent
  refine ⟨stored, verifies.body, verifies.evidence, ⟨intent, intents intent found, facts⟩,
    verifiedResolutionControl_kept chains laterChains extends' verifies.control, ?_⟩
  obtain ⟨started, read, inOrder⟩ := verifies.attempt
  refine ⟨started, ?_, inOrder⟩
  unfold submissionEvents at read ⊢
  rw [events, intents intent found]
  rw [found] at read
  exact read

end Verifies

/-- An observation is retained as it was made. -/
theorem resolutionEvidencePayload_cases {account : BrokerAccount} {positions : List BrokerPosition}
    {openOrders : List BrokerOrder} {fills : List BrokerFill} {evidence : ResolutionEvidence}
    (retained : resolutionEvidencePayload account positions openOrders fills = .ok evidence) :
    evidence = { account, positions, openOrders, fills } := by
  unfold resolutionEvidencePayload at retained
  split at retained
  · cases retained
  split at retained
  · cases retained
  split at retained
  · cases retained
  split at retained
  · cases retained
  split at retained
  · cases retained
  · cases retained
    rfl

/-- A request that is read back is the intent that was stored under its key. -/
theorem uncertainSubmissionRequest_cases {ledger : BrokerLedger Digest} {key : Identifier}
    {request : SubmitOrderRequest}
    (read : uncertainSubmissionRequest sha256 ledger key = .ok request) :
    request.idempotencyKey = key ∧
      ledger.intents.lookup key = some ⟨request.accountId, sha256 (.intent request), request⟩ := by
  obtain ⟨found, _, read⟩ := bind_ok.mp read
  split at read
  · cases read
  · cases read
  split at read
  · cases read
  rename_i intent stored
  dsimp only at read
  split at read
  · cases read
  rename_i agrees
  cases read
  push Not at agrees
  obtain ⟨same, account, _, _, digest⟩ := agrees
  refine ⟨same, ?_⟩
  rw [stored, account, digest]

/-- A resolution that is recorded under a clock not behind the account's halts is
believed at once. -/
theorem resolutionRow_verifies {ledger : BrokerLedger Digest} {request : SubmitOrderRequest}
    (resolutionKey : Identifier) {account : BrokerAccount} {positions : List BrokerPosition}
    {openOrders : List BrokerOrder} {fills : List BrokerFill} {now : Instant}
    {evidence : ResolutionEvidence} {found : Classification} {control : RiskControlStatus Digest}
    {started : SubmissionEvent Digest} (chains : ChainsHold sha256 ledger.controlEvents)
    (uncertain : uncertainSubmissionRequest sha256 ledger request.idempotencyKey = .ok request)
    (observed : resolutionEvidencePayload account positions openOrders fills = .ok evidence)
    (classified : resolutionClassification request account openOrders fills = .ok found)
    (read : controlStatus sha256 ledger.controlEvents request.accountId = .ok control)
    (counted : 1 ≤ control.eventCount)
    (attempt : submissionEvents sha256 ledger request.idempotencyKey =
      .ok (some (.uncertain, started)))
    (inOrder : started.occurredAt ≤ now)
    (timely : ∀ event ∈ ledger.controlEvents, event.accountId = request.accountId →
      event.occurredAt ≤ now) :
    let row := resolutionRow sha256 request resolutionKey evidence found control now
    Verifies sha256 { ledger with
      resolutions := ledger.resolutions.insert request.idempotencyKey row }
      request.idempotencyKey row := by
  obtain ⟨_, intent⟩ := uncertainSubmissionRequest_cases uncertain
  have rebuilt := observed
  obtain rfl := resolutionEvidencePayload_cases observed
  exact {
    stored := by simp
    body := by simp [resolutionRow]
    evidence := rebuilt
    intent := ⟨_, intent, rfl, rfl, rfl, rfl, found, classified, rfl, rfl, rfl, rfl⟩
    control := verifiedResolutionControl_read chains read counted timely
    attempt := ⟨started, attempt, inOrder⟩ }

/-- No order that fits the stored intent is bound to a submission that has a
resolution, and no resolution is recorded under a clock behind a halt of its account. -/
def Timely : LedgerOperation Digest → BrokerLedger Digest → Prop
  | .acknowledge request order _, ledger =>
    order.terms = request.terms →
      (ledger.intents.lookup request.idempotencyKey).map (·.intentPayload) = some request →
      ledger.resolutions.lookup request.idempotencyKey = none
  | .resolve request _ _ _ _ _ now, ledger =>
    ∀ event ∈ ledger.controlEvents, event.accountId = request.accountId → event.occurredAt ≤ now
  | .recordRiskDecision .., _ | .admitSubmission .., _ | .halt .., _ => True

instance : (operation : LedgerOperation Digest) → (ledger : BrokerLedger Digest) →
    Decidable (Timely operation ledger)
  | .acknowledge request order _, ledger =>
    inferInstanceAs (Decidable (order.terms = request.terms →
      (ledger.intents.lookup request.idempotencyKey).map (·.intentPayload) = some request →
      ledger.resolutions.lookup request.idempotencyKey = none))
  | .resolve request _ _ _ _ _ now, ledger =>
    inferInstanceAs (Decidable (∀ event ∈ ledger.controlEvents,
      event.accountId = request.accountId → event.occurredAt ≤ now))
  | .recordRiskDecision .., _ | .admitSubmission .., _ | .halt .., _ => isTrue trivial

variable (sha256) in
/-- Halts form chains and every stored resolution is believed. -/
structure Resolved (ledger : BrokerLedger Digest) : Prop where
  chains : ChainsHold sha256 ledger.controlEvents
  verifies : ∀ key row, ledger.resolutions.lookup key = some row → Verifies sha256 ledger key row

theorem resolved_empty : Resolved sha256 (.empty : BrokerLedger Digest) := by
  refine ⟨chainsHold_nil, ?_⟩
  intro key row stored
  simp [BrokerLedger.empty] at stored

/-- What a timely operation leaves of a ledger: stored resolutions and their intents,
the attempts of every resolved key and a chain of halts that only grows. -/
theorem applyOperation_keeps {operation : LedgerOperation Digest}
    {ledger after : BrokerLedger Digest} (resolved : Resolved sha256 ledger)
    (timely : Timely operation ledger)
    (applied : applyOperation sha256 verify operation ledger = .ok after) :
    (∀ key row, ledger.resolutions.lookup key = some row →
      after.resolutions.lookup key = some row ∧ after.events key = ledger.events key) ∧
    (∀ key intent, ledger.intents.lookup key = some intent →
      after.intents.lookup key = some intent) ∧
    ChainsHold sha256 after.controlEvents ∧ ledger.controlEvents <+: after.controlEvents := by
  have attempted : ∀ key row, ledger.resolutions.lookup key = some row →
      ∃ started, ledger.events key = [started] := by
    intro key row stored
    obtain ⟨started, read, _⟩ := (resolved.verifies key row stored).attempt
    obtain ⟨impossible, _⟩ | ⟨only, _, events⟩ | ⟨_, _, impossible, _⟩ :=
      submissionEvents_cases read
    · cases impossible
    · exact ⟨only, events⟩
    · cases impossible
  have elsewhere : ∀ {recorded : BrokerLedger Digest} request event,
      recorded.attempts = ledger.attempts → recorded.resolutions = ledger.resolutions →
      (∀ row, ledger.resolutions.lookup request ≠ some row) →
      ∀ key row, ledger.resolutions.lookup key = some row →
        (recorded.insertEvent request event).resolutions.lookup key = some row ∧
          (recorded.insertEvent request event).events key = ledger.events key := by
    intro recorded request event attempts resolutions unresolved key row stored
    have different : key ≠ request := by
      rintro rfl
      exact unresolved row stored
    refine ⟨?_, ?_⟩
    · change recorded.resolutions.lookup key = some row
      rwa [resolutions]
    · rw [BrokerLedger.events_insertEvent_ne _ _ different]
      unfold BrokerLedger.events
      rw [attempts]
  have frame : ∀ {recorded : BrokerLedger Digest}, recorded.attempts = ledger.attempts →
      recorded.resolutions = ledger.resolutions → ∀ key row,
      ledger.resolutions.lookup key = some row →
        recorded.resolutions.lookup key = some row ∧ recorded.events key = ledger.events key := by
    intro recorded attempts resolutions key row stored
    rw [BrokerLedger.events, attempts, resolutions]
    exact ⟨stored, rfl⟩
  cases operation with
  | recordRiskDecision request decision =>
    obtain ⟨⟨digest, recorded⟩, written, rfl⟩ := map_ok.mp applied
    obtain ⟨_, intended, intent, intents, attempts, resolutions, control⟩ :=
      recordRiskDecision_frame written
    refine ⟨frame attempts resolutions, ?_, control ▸ resolved.chains, control ▸ List.prefix_rfl⟩
    rw [intents]
    exact (recordIntent_frame intent).2.2.1
  | admitSubmission request decision submittedAt now =>
    obtain ⟨⟨result, admitted⟩, written, rfl⟩ := map_ok.mp applied
    obtain ⟨order, _, rfl⟩ | ⟨_, fresh, digest, recorded, intent, rfl⟩ :=
      admitSubmission_cases written
    · exact ⟨frame rfl rfl, fun _ _ kept => kept, resolved.chains, List.prefix_rfl⟩
    · obtain ⟨_, _, intents, attempts, resolutions, control⟩ := recordIntent_frame intent
      refine ⟨elsewhere _ _ attempts resolutions ?_, intents, ?_, ?_⟩
      · intro row stored
        obtain ⟨started, events⟩ := attempted _ row stored
        rw [fresh] at events
        cases events
      · exact control.symm ▸ resolved.chains
      · exact control.symm ▸ List.prefix_rfl
  | acknowledge request order now =>
    obtain ⟨terms, digest, recorded, intent, outcome⟩ := acknowledgeSubmission_cases applied
    obtain ⟨_, own, intents, attempts, resolutions, control⟩ := recordIntent_frame intent
    have unresolved : ∀ row, ledger.resolutions.lookup request.idempotencyKey ≠ some row := by
      intro row stored
      obtain ⟨stored', found, _⟩ := (resolved.verifies _ row stored).intent
      have same := (intents _ _ found).symm.trans own
      have none := timely terms (by rw [found, Option.some.inj same]; rfl)
      rw [none] at stored
      cases stored
    obtain ⟨rfl, _⟩ | ⟨_, _, rfl⟩ := outcome
    · exact ⟨frame attempts resolutions, intents, control.symm ▸ resolved.chains,
        control.symm ▸ List.prefix_rfl⟩
    · exact ⟨elsewhere _ _ attempts resolutions unresolved, intents,
        control.symm ▸ resolved.chains, control.symm ▸ List.prefix_rfl⟩
  | resolve request resolutionKey account positions openOrders fills now =>
    obtain ⟨⟨result, written⟩, recorded, rfl⟩ := map_ok.mp applied
    obtain rfl | ⟨_, _, _, _, _, _, _, _, _, _, _, _, fresh, rfl⟩ :=
      recordSubmissionResolution_cases recorded
    · exact ⟨frame rfl rfl, fun _ _ kept => kept, resolved.chains, List.prefix_rfl⟩
    · refine ⟨?_, fun _ _ kept => kept, resolved.chains, List.prefix_rfl⟩
      intro key row stored
      have different : key ≠ request.idempotencyKey := by
        rintro rfl
        rw [fresh] at stored
        cases stored
      exact ⟨by rwa [AList.lookup_insert_ne different], rfl⟩
  | halt haltKey accountId reason now =>
    obtain ⟨events, recorded, rfl⟩ := map_ok.mp applied
    exact ⟨frame rfl rfl, fun _ _ kept => kept, recordHalt_chains resolved.chains recorded,
      recordHalt_extends resolved.chains recorded⟩

/-- Every timely operation leaves every stored resolution believed. -/
theorem applyOperation_resolved {operation : LedgerOperation Digest}
    {ledger after : BrokerLedger Digest} (resolved : Resolved sha256 ledger)
    (timely : Timely operation ledger)
    (applied : applyOperation sha256 verify operation ledger = .ok after) :
    Resolved sha256 after := by
  obtain ⟨resolutions, intents, chains, extends'⟩ := applyOperation_keeps resolved timely applied
  have old : ∀ key row, ledger.resolutions.lookup key = some row →
      Verifies sha256 after key row := by
    intro key row stored
    obtain ⟨stays, events⟩ := resolutions key row stored
    exact (resolved.verifies key row stored).kept stays (intents key) events resolved.chains
      chains extends'
  refine ⟨chains, ?_⟩
  intro key row stored
  cases before : ledger.resolutions.lookup key with
  | some earlier =>
    have same := (resolutions key earlier before).1.symm.trans stored
    exact Option.some.inj same ▸ old key earlier before
  | none =>
    cases operation with
    | recordRiskDecision request decision =>
      obtain ⟨⟨digest, recorded⟩, written, rfl⟩ := map_ok.mp applied
      obtain ⟨_, _, _, _, _, same, _⟩ := recordRiskDecision_frame written
      rw [same, before] at stored
      cases stored
    | admitSubmission request decision submittedAt now =>
      obtain ⟨⟨result, admitted⟩, written, rfl⟩ := map_ok.mp applied
      obtain ⟨order, _, rfl⟩ | ⟨_, _, digest, recorded, intent, rfl⟩ :=
        admitSubmission_cases written
      · rw [before] at stored
        cases stored
      · change recorded.resolutions.lookup key = some row at stored
        rw [(recordIntent_frame intent).2.2.2.2.1, before] at stored
        cases stored
    | acknowledge request order now =>
      obtain ⟨_, digest, recorded, intent, ⟨rfl, _⟩ | ⟨_, _, rfl⟩⟩ :=
        acknowledgeSubmission_cases applied
      · rw [(recordIntent_frame intent).2.2.2.2.1, before] at stored
        cases stored
      · change recorded.resolutions.lookup key = some row at stored
        rw [(recordIntent_frame intent).2.2.2.2.1, before] at stored
        cases stored
    | resolve request resolutionKey account positions openOrders fills now =>
      obtain ⟨⟨result, written⟩, recorded, rfl⟩ := map_ok.mp applied
      obtain rfl | ⟨evidence, found, control, started, uncertain, observed, classified, read, _,
        counted, attempt, inOrder, _, rfl⟩ := recordSubmissionResolution_cases recorded
      · rw [before] at stored
        cases stored
      · have verifies := resolutionRow_verifies resolutionKey resolved.chains uncertain
           observed classified read counted attempt inOrder timely
        by_cases same : key = request.idempotencyKey
        · subst same
          have inserted := verifies.stored
          obtain rfl := Option.some.inj (inserted.symm.trans stored)
          exact verifies
        · dsimp only at stored
          rw [AList.lookup_insert_ne same, before] at stored
          cases stored
    | halt haltKey accountId reason now =>
      obtain ⟨events, _, rfl⟩ := map_ok.mp applied
      dsimp only at stored
      rw [before] at stored
      cases stored

variable (sha256 verify) in
/-- In every run without a late order and without an early clock, a resolution that was
recorded is believed ever after, and its submission stays uncertain: no attempt is
added, so no acknowledgement is accepted. -/
theorem resolutions_last (earlier later : List (Move AdapterReply (BrokerCall Digest)))
    (timely : Admissible (brokerSystem sha256 verify).step (Respects Timely) (.idle .empty)
      (earlier ++ later)) :
    let system := brokerSystem sha256 verify
    let recorded := (system.run .empty earlier).store
    let final := (system.run .empty (earlier ++ later)).store
    ∀ key row, recorded.resolutions.lookup key = some row →
      verifiedSubmissionResolution sha256 final key =
          .ok (some (row.resolutionPayload, row.resolutionSha256)) ∧
        submissionState sha256 final key = .ok (some .uncertain) ∧
        final.events key = recorded.events key := by
  intro system recorded final key row stored
  obtain ⟨before, after⟩ := admissible_append.mp timely
  have resolved : Resolved sha256 recorded :=
    store_lasts (fun _ _ _ => applyOperation_resolved) resolved_empty before
  have lasts : Resolved sha256 final ∧ final.resolutions.lookup key = some row ∧
      final.events key = recorded.events key := by
    have same : final = (later.foldl system.step (system.run .empty earlier)).store :=
      congrArg Pool.store (run_append _ _ _)
    rw [same]
    let lasting (ledger : BrokerLedger Digest) : Prop := Resolved sha256 ledger ∧
      ledger.resolutions.lookup key = some row ∧ ledger.events key = recorded.events key
    refine @store_lasts _ _ _ _ _ _ _ _ _ lasting ?_ _ ⟨resolved, stored, rfl⟩ _ after
    rintro operation ledger next ⟨holds, found, events⟩ allowed applied
    obtain ⟨kept, unchanged⟩ := (applyOperation_keeps holds allowed applied).1 key row found
    exact ⟨applyOperation_resolved holds allowed applied, kept, unchanged.trans events⟩
  have verifies := lasts.1.verifies key row lasts.2.1
  exact ⟨verifies.read, verifies.uncertain, lasts.2.2⟩

def operatorHalt : Identifier := ⟨"operator-halt", by decide⟩
def firstResolution : Identifier := ⟨"resolution-1", by decide⟩

def quietAccount : BrokerAccount where
  accountId := paperAccount
  venue := ⟨"paper-venue", by decide⟩
  environment := .paper
  active := true
  currency := "USD"
  cash := 1000
  buyingPower := 1000
  initialCash := 1000
  marginEnabled := false
  currencyCode := usd_valid
  cashNonneg := by decide
  buyingPowerNonneg := by decide
  initialPositive := by decide

def venueOrder : BrokerOrder where
  brokerOrderId := ⟨"venue-order:1", by decide⟩
  idempotencyKey := uncertainIntent
  accountId := paperAccount
  symbol := twoShares.symbol
  side := .buy
  quantity := 2
  signalDate := 0
  status := .pending
  rejectionReason := none
  positive := two_positive
  filledNonneg := zero_nonneg
  filledWithin := two_nonneg
  stateValid := pending_valid
  regularHours := rfl

/-- The account is halted while an adapter call is on its way; nothing is observed at
the venue and the submission is resolved. -/
def resolvedWhileCalling : List (Move AdapterReply (BrokerCall String)) :=
  [.enter (.submitOnce twoShares passingDecision 10 10 40), .advance 0, .advance 0, .advance 0,
    .enter (.recordHalt operatorHalt paperAccount "operator halt" 20), .advance 1,
    .enter (.recordSubmissionResolution twoShares firstResolution quietAccount [] [] [] 30),
    .advance 2]

/-- The adapter fails after all: the resolution lasts. -/
theorem failedCall_stays_resolved :
    let system := brokerSystem textDigest fun _ => .ok ()
    let recorded := (system.run .empty resolvedWhileCalling).store
    let final := (system.run .empty (resolvedWhileCalling ++ [.answer 0 .raised, .advance 0])).store
    ∀ key row, recorded.resolutions.lookup key = some row →
      verifiedSubmissionResolution textDigest final key =
          .ok (some (row.resolutionPayload, row.resolutionSha256)) ∧
        submissionState textDigest final key = .ok (some .uncertain) ∧
        final.events key = recorded.events key :=
  resolutions_last textDigest (fun _ => .ok ()) resolvedWhileCalling
    [.answer 0 .raised, .advance 0] (by decide +kernel)

/-- The adapter returns an order after all: it is bound to the resolved submission, and
the resolution is believed no longer. -/
theorem lateOrder_unresolves :
    let system := brokerSystem textDigest fun _ => .ok ()
    let recorded := (system.run .empty resolvedWhileCalling).store
    let final := (system.run .empty
      (resolvedWhileCalling ++ [.answer 0 (.acknowledged venueOrder), .advance 0])).store
    (verifiedSubmissionResolution textDigest recorded uncertainIntent).toOption.join.isSome ∧
      submissionState textDigest final uncertainIntent = .ok (some .acknowledged) ∧
      verifiedSubmissionResolution textDigest final uncertainIntent =
        .error (.stateError "stored submission resolution has no uncertain attempt") := by
  decide +kernel

end TradingEngine.Broker
