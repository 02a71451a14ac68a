import TradingEngine.SubmissionResolutions
import TradingEngine.Procedures

/-!
# Submitting once

A call of `submit_once` records the risk decision, starts the submission in a
transaction of its own, calls the adapter and binds what the adapter returns. Other
calls, direct acknowledgements, resolutions and halts may come between any two of
these steps, and any call may be lost at any of them. Only the transaction that
starts a submission entitles its call to the adapter, and it commits once for a key.
-/

namespace TradingEngine.Broker

open KeyedTables Runs Procedures System

variable {Digest : Type} [DecidableEq Digest]

/-- The transactions on the broker ledger, with the clock readings that they use. -/
inductive LedgerOperation (Digest : Type) where
  | recordRiskDecision (request : SubmitOrderRequest) (decision : RiskDecision Digest)
  | admitSubmission (request : SubmitOrderRequest) (decision : RiskDecision Digest)
      (submittedAt now : Instant)
  | acknowledge (request : SubmitOrderRequest) (order : BrokerOrder) (now : Instant)
  | resolve (request : SubmitOrderRequest) (resolutionKey : Identifier) (account : BrokerAccount)
      (positions : List BrokerPosition) (openOrders : List BrokerOrder) (fills : List BrokerFill)
      (now : Instant)
  | halt (haltKey accountId : Identifier) (reason : String) (now : Instant)

/-- What `adapter.submit_order` may do: return an order, return something else, raise. -/
inductive AdapterReply where
  | acknowledged (order : BrokerOrder)
  | malformed
  | raised

/-- Calls from outside. -/
inductive BrokerCall (Digest : Type) where
  | submitOnce (request : SubmitOrderRequest) (decision : RiskDecision Digest)
      (submittedAt startedAt acknowledgedAt : Instant)
  | acknowledgeSubmission (request : SubmitOrderRequest) (order : BrokerOrder) (now : Instant)
  | recordSubmissionResolution (request : SubmitOrderRequest) (resolutionKey : Identifier)
      (account : BrokerAccount) (positions : List BrokerPosition) (openOrders : List BrokerOrder)
      (fills : List BrokerFill) (now : Instant)
  | recordHalt (haltKey accountId : Identifier) (reason : String) (now : Instant)

section System

variable (sha256 : Payload Digest → Digest) (verify : RiskDecision Digest → Except BrokerError Unit)

/-- The second transaction of `submit_once`: return the acknowledged order, refuse, or
start the submission. -/
def admitSubmission (ledger : BrokerLedger Digest) (request : SubmitOrderRequest)
    (decision : RiskDecision Digest) (submittedAt now : Instant) :
    Except BrokerError (Option BrokerOrder × BrokerLedger Digest) :=
  (submissionState sha256 ledger request.idempotencyKey).bind fun
  | some .acknowledged =>
    (acknowledgedOrder sha256 ledger request.idempotencyKey).bind fun
    | none => .error (.stateError "acknowledged broker order is unavailable")
    | some order =>
      if order.terms ≠ request.terms then
        .error (.stateError "acknowledged broker order conflicts with requested intent")
      else .ok (some order, ledger)
  | some .uncertain =>
    .error (.submissionUncertain ("submission " ++ request.idempotencyKey.quoted ++
      " is uncertain and requires reconciliation"))
  | none =>
    if decision.status ≠ .pass then
      .error (.riskRejected "independent pre-trade risk rejected the broker intent")
    else
      match decision.expiresAt with
      | none => .error (.stateError "risk decision expiry is invalid")
      | some expiresAt =>
        if expiresAt ≤ submittedAt then
          .error (.riskRejected "independent pre-trade risk decision expired")
        else
          (beginSubmission sha256 ledger request now).map fun (_, ledger) => (none, ledger)

def applyOperation : LedgerOperation Digest → BrokerLedger Digest →
    Except BrokerError (BrokerLedger Digest)
  | .recordRiskDecision request decision, ledger =>
    (recordRiskDecision sha256 verify ledger request decision).map Prod.snd
  | .admitSubmission request decision submittedAt now, ledger =>
    (admitSubmission sha256 ledger request decision submittedAt now).map Prod.snd
  | .acknowledge request order now, ledger => acknowledgeSubmission sha256 ledger request order now
  | .resolve request resolutionKey account positions openOrders fills now, ledger =>
    (recordSubmissionResolution sha256 ledger request resolutionKey account positions openOrders
      fills now).map Prod.snd
  | .halt haltKey accountId reason now, ledger =>
    (recordHalt sha256 ledger.controlEvents haltKey accountId reason now).map fun events =>
      { ledger with controlEvents := events }

abbrev BrokerProcedure (Digest : Type) :=
  Procedure (BrokerLedger Digest) (LedgerOperation Digest) SubmitOrderRequest AdapterReply
    BrokerError (Option BrokerOrder)

/-- Submit once, with durable uncertainty spanning the external call. -/
def submitOnce (request : SubmitOrderRequest) (decision : RiskDecision Digest)
    (submittedAt startedAt acknowledgedAt : Instant) : BrokerProcedure Digest :=
  .transact (.recordRiskDecision request decision) fun _ =>
  .transact (.admitSubmission request decision submittedAt startedAt) fun ledger =>
  match admitSubmission sha256 ledger request decision submittedAt startedAt with
  | .ok (some order, _) => .done (.ok (some order))
  | .ok (none, _) | .error _ =>
    .ask request fun
    | .acknowledged order =>
      .transact (.acknowledge request order acknowledgedAt) fun _ => .done (.ok (some order))
    | .malformed =>
      .done (.error (.stateError "adapter returned an invalid order acknowledgement"))
    | .raised => .done (.error .adapterRaised)

def serveCall : BrokerCall Digest → BrokerProcedure Digest
  | .submitOnce request decision submittedAt startedAt acknowledgedAt =>
    submitOnce sha256 request decision submittedAt startedAt acknowledgedAt
  | .acknowledgeSubmission request order now =>
    .transact (.acknowledge request order now) fun _ => .done (.ok none)
  | .recordSubmissionResolution request resolutionKey account positions openOrders fills now =>
    .transact (.resolve request resolutionKey account positions openOrders fills now)
      fun _ => .done (.ok none)
  | .recordHalt haltKey accountId reason now =>
    .transact (.halt haltKey accountId reason now) fun _ => .done (.ok none)

/-- Every caller of one broker ledger. -/
def brokerSystem : System (BrokerLedger Digest) (LedgerOperation Digest) SubmitOrderRequest
    AdapterReply BrokerError (Option BrokerOrder) (BrokerCall Digest) where
  apply := applyOperation sha256 verify
  serve := serveCall sha256

end System

/-- A submission of the key was started. -/
def Started (key : Identifier) (ledger : BrokerLedger Digest) : Prop := ledger.events key ≠ []

variable {sha256 : Payload Digest → Digest} {verify : RiskDecision Digest → Except BrokerError Unit}

/-- Recording an intent leaves every attempt, resolution and halt alone. -/
theorem recordIntent_frame {ledger after : BrokerLedger Digest} {request : SubmitOrderRequest}
    {digest : Digest} (recorded : recordIntent sha256 ledger request = .ok (digest, after)) :
    digest = sha256 (.intent request) ∧
    after.intents.lookup request.idempotencyKey = some ⟨request.accountId, digest, request⟩ ∧
    (∀ key row, ledger.intents.lookup key = some row → after.intents.lookup key = some row) ∧
    after.attempts = ledger.attempts ∧ after.resolutions = ledger.resolutions ∧
    after.controlEvents = ledger.controlEvents := by
  unfold recordIntent at recorded
  dsimp only at recorded
  split at recorded
  · rename_i fresh
    cases recorded
    refine ⟨rfl, by simp, ?_, rfl, rfl, rfl⟩
    intro key row stored
    have different : key ≠ request.idempotencyKey := by
      rintro rfl
      rw [fresh] at stored
      cases stored
    rwa [AList.lookup_insert_ne different]
  · rename_i stored found
    split at recorded
    · cases recorded
    · rename_i same
      cases recorded
      exact ⟨rfl, by rw [found, not_not.mp same], fun _ _ kept => kept, rfl, rfl, rfl⟩

/-- A verified state is read from the attempts of its key. -/
theorem submissionEvents_cases {ledger : BrokerLedger Digest} {key : Identifier}
    {found : Option (SubmissionState × SubmissionEvent Digest)}
    (read : submissionEvents sha256 ledger key = .ok found) :
    (found = none ∧ ledger.events key = []) ∨
    (∃ started, found = some (.uncertain, started) ∧ ledger.events key = [started]) ∨
    (∃ started acknowledged, found = some (.acknowledged, acknowledged) ∧
      ledger.events key = [started, acknowledged]) := by
  unfold submissionEvents at read
  split at read
  · rename_i stored
    cases read
    exact .inl ⟨rfl, stored⟩
  · rename_i started rest stored
    split at read
    · cases read
    · rename_i shape
      push Not at shape
      split at read
      · cases read
      · dsimp only at read
        split at read
        · cases read
        · split at read
          · cases read
            exact .inr (.inl ⟨started, rfl, stored⟩)
          · rename_i acknowledged others
            have single : others = [] := by
              have short := shape.1
              simp only [List.length_cons] at short
              exact List.eq_nil_of_length_eq_zero (by omega)
            split at read
            · cases read
            · cases read
              exact .inr (.inr ⟨started, acknowledged, rfl, by rw [stored, single]⟩)

/-- What the admission of a submission does: it returns what was acknowledged, or it
starts a submission that nobody started before. -/
theorem admitSubmission_cases {ledger after : BrokerLedger Digest} {request : SubmitOrderRequest}
    {decision : RiskDecision Digest} {submittedAt now : Instant} {result : Option BrokerOrder}
    (admitted : admitSubmission sha256 ledger request decision submittedAt now =
      .ok (result, after)) :
    (∃ order, result = some order ∧ after = ledger) ∨
    (result = none ∧ ledger.events request.idempotencyKey = [] ∧
      ∃ digest recorded, recordIntent sha256 ledger request = .ok (digest, recorded) ∧
        after = recorded.insertEvent request.idempotencyKey
          { eventSequence := 1, accountId := request.accountId, intentSha256 := digest
            eventType := .submissionStarted, brokerOrderId := none, orderSha256 := none
            orderPayload := none, occurredAt := now }) := by
  obtain ⟨state, read, admitted⟩ := bind_ok.mp admitted
  obtain ⟨found, verified, rfl⟩ := map_ok.mp read
  obtain ⟨rfl, unstarted⟩ | ⟨started, rfl, _⟩ | ⟨started, acknowledged, rfl, _⟩ :=
    submissionEvents_cases verified
  · dsimp only [Option.map_none] at admitted
    split at admitted
    · cases admitted
    split at admitted
    · cases admitted
    split at admitted
    · cases admitted
    obtain ⟨⟨state, begun⟩, begin, same⟩ := map_ok.mp admitted
    cases same
    obtain ⟨⟨digest, recorded⟩, intent, begin⟩ := bind_ok.mp begin
    obtain ⟨found, reread, begin⟩ := bind_ok.mp begin
    have events : recorded.events request.idempotencyKey = [] := by
      rw [BrokerLedger.events, (recordIntent_frame intent).2.2.2.1]
      exact unstarted
    obtain ⟨rfl, _⟩ | ⟨_, _, other⟩ | ⟨_, _, _, other⟩ := submissionEvents_cases reread
    · cases begin
      exact .inr ⟨rfl, unstarted, digest, recorded, intent, rfl⟩
    · rw [events] at other
      cases other
    · rw [events] at other
      cases other
  · cases admitted
  · dsimp only [Option.map_some] at admitted
    obtain ⟨order, _, admitted⟩ := bind_ok.mp admitted
    cases order with
    | none => cases admitted
    | some order =>
      dsimp only at admitted
      split at admitted
      · cases admitted
      · cases admitted
        exact .inl ⟨order, rfl, rfl⟩

/-- What an acknowledgement does: it repeats the stored one, or it binds its order to
an uncertain attempt. -/
theorem acknowledgeSubmission_cases {ledger after : BrokerLedger Digest}
    {request : SubmitOrderRequest} {order : BrokerOrder} {now : Instant}
    (acknowledged : acknowledgeSubmission sha256 ledger request order now = .ok after) :
    order.terms = request.terms ∧
    ∃ digest recorded, recordIntent sha256 ledger request = .ok (digest, recorded) ∧
      ((after = recorded ∧ ∃ started stored,
          ledger.events request.idempotencyKey = [started, stored]) ∨
        ∃ started, ledger.events request.idempotencyKey = [started] ∧
          after = recorded.insertEvent request.idempotencyKey
            { eventSequence := 2, accountId := request.accountId, intentSha256 := digest
              eventType := .submissionAcknowledged, brokerOrderId := some order.brokerOrderId
              orderSha256 := some (sha256 (.order order)), orderPayload := some order
              occurredAt := now }) := by
  unfold acknowledgeSubmission at acknowledged
  split at acknowledged
  · cases acknowledged
  rename_i terms
  obtain ⟨⟨digest, recorded⟩, intent, acknowledged⟩ := bind_ok.mp acknowledged
  obtain ⟨found, read, acknowledged⟩ := bind_ok.mp acknowledged
  refine ⟨not_not.mp terms, digest, recorded, intent, ?_⟩
  have same : recorded.events request.idempotencyKey = ledger.events request.idempotencyKey := by
    rw [BrokerLedger.events, (recordIntent_frame intent).2.2.2.1]
    rfl
  obtain ⟨rfl, _⟩ | ⟨started, rfl, stored⟩ | ⟨started, event, rfl, stored⟩ :=
    submissionEvents_cases read
  · cases acknowledged
  all_goals
    rw [same] at stored
    dsimp only at acknowledged
    split at acknowledged
    · cases acknowledged
  · cases acknowledged
    exact .inr ⟨started, stored, rfl⟩
  · split at acknowledged
    · cases acknowledged
    · cases acknowledged
      exact .inl ⟨rfl, started, event, stored⟩

theorem recordRiskDecision_frame {ledger after : BrokerLedger Digest}
    {request : SubmitOrderRequest} {decision : RiskDecision Digest} {digest : Digest}
    (recorded : recordRiskDecision sha256 verify ledger request decision = .ok (digest, after)) :
    ∃ digest intended, recordIntent sha256 ledger request = .ok (digest, intended) ∧
      after.intents = intended.intents ∧ after.attempts = ledger.attempts ∧
      after.resolutions = ledger.resolutions ∧ after.controlEvents = ledger.controlEvents := by
  obtain ⟨_, _, recorded⟩ := bind_ok.mp recorded
  split at recorded
  · cases recorded
  obtain ⟨⟨digest, intended⟩, intent, recorded⟩ := bind_ok.mp recorded
  obtain ⟨_, _, _, attempts, resolutions, control⟩ := recordIntent_frame intent
  refine ⟨digest, intended, intent, ?_⟩
  dsimp only at recorded
  split at recorded
  · cases recorded
    exact ⟨rfl, attempts, resolutions, control⟩
  · split at recorded
    · cases recorded
    · cases recorded
      exact ⟨rfl, attempts, resolutions, control⟩

/-- No transaction undoes the start of a submission. -/
theorem applyOperation_started {operation : LedgerOperation Digest}
    {ledger after : BrokerLedger Digest} {key : Identifier}
    (applied : applyOperation sha256 verify operation ledger = .ok after)
    (started : Started key ledger) : Started key after := by
  have kept : ∀ {after : BrokerLedger Digest}, after.attempts = ledger.attempts →
      Started key after := by
    intro after same
    unfold Started BrokerLedger.events
    rw [same]
    exact started
  have inserted : ∀ {recorded : BrokerLedger Digest} other event,
      recorded.attempts = ledger.attempts → Started key (recorded.insertEvent other event) := by
    intro recorded other event same
    unfold Started
    by_cases here : key = other
    · subst here
      simp
    · rw [BrokerLedger.events_insertEvent_ne _ _ here]
      exact kept same
  cases operation with
  | recordRiskDecision request decision =>
    obtain ⟨⟨digest, recorded⟩, written, rfl⟩ := map_ok.mp applied
    obtain ⟨_, _, _, _, attempts, _⟩ := recordRiskDecision_frame written
    exact kept attempts
  | admitSubmission request decision submittedAt now =>
    obtain ⟨⟨result, admitted⟩, written, rfl⟩ := map_ok.mp applied
    obtain ⟨order, _, rfl⟩ | ⟨_, _, digest, recorded, intent, rfl⟩ := admitSubmission_cases written
    · exact started
    · exact inserted _ _ (recordIntent_frame intent).2.2.2.1
  | acknowledge request order now =>
    obtain ⟨_, digest, recorded, intent, ⟨rfl, _⟩ | ⟨_, _, rfl⟩⟩ :=
      acknowledgeSubmission_cases applied
    · exact kept (recordIntent_frame intent).2.2.2.1
    · exact inserted _ _ (recordIntent_frame intent).2.2.2.1
  | resolve request resolutionKey account positions openOrders fills now =>
    obtain ⟨⟨result, resolved⟩, written, rfl⟩ := map_ok.mp applied
    obtain rfl | ⟨_, _, _, _, _, _, _, _, _, _, _, _, _, rfl⟩ :=
      recordSubmissionResolution_cases written
    · exact started
    · exact kept rfl
  | halt haltKey accountId reason now =>
    obtain ⟨events, _, rfl⟩ := map_ok.mp applied
    exact kept rfl

/-- The adapter is called under the start that the same call made. -/
theorem serveCall_licensed (call : BrokerCall Digest) :
    (brokerSystem sha256 verify).Licensed Started
      (fun request : SubmitOrderRequest => some request.idempotencyKey)
      ((brokerSystem sha256 verify).serve call) none := by
  cases call with
  | acknowledgeSubmission request order now => exact fun _ _ _ => ⟨none, trivial, by simp⟩
  | recordSubmissionResolution request resolutionKey account positions openOrders fills now =>
    exact fun _ _ _ => ⟨none, trivial, by simp⟩
  | recordHalt haltKey accountId reason now => exact fun _ _ _ => ⟨none, trivial, by simp⟩
  | submitOnce request decision submittedAt startedAt acknowledgedAt =>
    intro _ _ _
    refine ⟨none, ?_, by simp⟩
    intro ledger after applied
    obtain ⟨⟨result, admitted⟩, written, rfl⟩ := map_ok.mp applied
    dsimp only
    rw [written]
    obtain ⟨order, rfl, rfl⟩ | ⟨rfl, fresh, digest, recorded, intent, rfl⟩ :=
      admitSubmission_cases written
    · exact ⟨none, trivial, by simp⟩
    · refine ⟨some request.idempotencyKey, ⟨by simp, ?_⟩, ?_⟩
      · intro reply
        cases reply with
        | acknowledged order => exact fun _ _ _ => ⟨none, trivial, by simp⟩
        | malformed => trivial
        | raised => trivial
      · rintro key same
        obtain rfl := Option.some.inj same
        exact .inr ⟨not_not.mpr fresh, by simp [Started]⟩

variable (sha256 verify) in
/-- However calls, retries, answers and losses follow each other, the adapter is
called at most once for a key; and once a submission is recorded as uncertain, no
call but the one that recorded it can have called or will call the adapter. -/
theorem submitted_once (ledger : BrokerLedger Digest)
    (earlier later : List (Move AdapterReply (BrokerCall Digest))) :
    let system := brokerSystem sha256 verify
    let final := system.run ledger (earlier ++ later)
    (final.asked.map fun put => put.2.idempotencyKey).Nodup ∧
    ∀ key, submissionState sha256 (system.run ledger earlier).store key = .ok (some .uncertain) →
      ∀ put ∈ final.asked, put.2.idempotencyKey = key →
        MarkedBy system Started ledger earlier put.1 key := by
  intro system final
  have persist : ∀ operation store after key, system.apply operation store = .ok after →
      Started key store → Started key after := fun _ _ _ _ => applyOperation_started
  have served : ∀ call, system.Licensed Started
      (fun request : SubmitOrderRequest => some request.idempotencyKey) (system.serve call) none :=
    serveCall_licensed
  constructor
  · have once := asked_once persist served ledger (earlier ++ later)
    have same : (final.asked.filterMap fun put => some put.2.idempotencyKey) =
        final.asked.map fun put => put.2.idempotencyKey := by
      simp [List.filterMap_eq_map']
    exact same ▸ once
  · rintro key uncertain put listed rfl
    have made := asked_by_marker persist served ledger (earlier ++ later) put listed _ rfl
    refine made.within persist ?_
    obtain ⟨found, verified, state⟩ := map_ok.mp uncertain
    obtain ⟨rfl, _⟩ | ⟨started, rfl, stored⟩ | ⟨_, _, rfl, stored⟩ :=
      submissionEvents_cases verified
    · cases state
    · simp [Started, stored]
    · cases state

/-- A digest for small runs: payloads that such a run tells apart have different ones. -/
def textDigest : Payload String → String
  | .intent request => "intent " ++ request.idempotencyKey.text
  | .request request => "request " ++ request.idempotencyKey.text
  | .order order => "order " ++ order.brokerOrderId.text
  | .halt body => "halt " ++ body.haltKey.text
  | .control status => "control " ++ status.accountId.text ++ " " ++ status.reason
  | .evidence evidence => "evidence " ++ evidence.account.accountId.text
  | .resolution body => "resolution " ++ body.resolutionKey.text
  | .cancellation haltKey _ brokerOrderId _ => "cancel " ++ haltKey.text ++ " " ++ brokerOrderId.text
  | .plannedOrders orders => "orders " ++ String.join (orders.map (·.cancellationKey))
  | .stopStarted body => "started " ++ body.haltKey.text
  | .stopCompleted body => "completed " ++ body.haltKey.text

def paperAccount : Identifier := ⟨"paper-account", paperAccount_valid⟩
def uncertainIntent : Identifier := ⟨"uncertain-intent", by decide⟩

def twoShares : SubmitOrderRequest where
  idempotencyKey := uncertainIntent
  accountId := paperAccount
  symbol := ⟨"SPY", spy_valid⟩
  side := .buy
  quantity := 2
  signalDate := 0
  positive := two_positive
  regularHours := rfl

def passingDecision : RiskDecision String where
  request := twoShares
  requestSha256 := textDigest (.request twoShares)
  status := .pass
  expiresAt := some 60
  decisionSha256 := "decision"
  retained := ""

/-- A call that starts the submission of two shares. -/
def startedCall : List (Move AdapterReply (BrokerCall String)) :=
  [.enter (.submitOnce twoShares passingDecision 10 10 20), .advance 0, .advance 0]

/-- It calls the adapter and is lost; a retry follows. -/
def lostThenRetried : List (Move AdapterReply (BrokerCall String)) :=
  [.advance 0, .crash 0, .enter (.submitOnce twoShares passingDecision 30 30 40), .advance 1,
    .advance 1]

theorem lostCall_submittedOnce :
    let system := brokerSystem textDigest fun _ => .ok ()
    let final := system.run .empty (startedCall ++ lostThenRetried)
    final.asked.length = 1 ∧ ∀ put ∈ final.asked, put.2.idempotencyKey = uncertainIntent →
      MarkedBy system Started .empty startedCall put.1 uncertainIntent :=
  ⟨by decide +kernel, (submitted_once textDigest (fun _ => .ok ()) .empty startedCall
    lostThenRetried).2 uncertainIntent (by decide +kernel)⟩

end TradingEngine.Broker
