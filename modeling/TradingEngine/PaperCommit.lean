import TradingEngine.PaperBudget
import TradingEngine.SubmitOnce

/-!
# Which plans can be committed

A plan is built when the order fits into what is left of the lease, the last order and
the last of the notional included. A commit reads the usage back from a transcript
that must still be open, and a transcript whose capacity is used up is exhausted. So
the order that uses up a lease is planned and never committed; every other order that
is new to the tables is.
-/

namespace TradingEngine.Broker

open KeyedTables Runs

variable {Digest : Type} [DecidableEq Digest]

section Transcripts

variable {basis : Primitives Digest} {lease : PaperAuthorityLease Digest}
  {bindings : ActivationBindings Digest} {runtime : Digest}
  {anchor control : ControlAnchor Digest} {first : AuthorityEvent Digest}
  {rest : List (AuthorityEvent Digest)} {now : Instant} {spent : SpendingState Digest}

/-- Where a chain of events stands after some of them. -/
theorem chain_reached {events : List (AuthorityEvent Digest)} {chain : ChainState Digest}
    (folded : events.foldlM (chainStep basis lease) ⟨1, none, none⟩ = .ok chain) :
    chain = ⟨events.length + 1, events.getLast?.map AuthorityEvent.eventSha256,
      events.getLast?.map fun event => event.occurredAt⟩ := by
  induction events using List.reverseRecOn generalizing chain with
  | nil =>
    cases folded
    rfl
  | append_singleton events event ih =>
    obtain ⟨reached, earlier, stepped⟩ := foldlM_concat_ok.mp folded
    simp only [chainStep, seq_ok] at stepped
    obtain ⟨_, _, _, _, _, _, _, _, ⟨⟩⟩ := stepped
    rw [ih earlier]
    simp

/-- An open transcript of a lease with what it spent. -/
structure OpenTranscript (basis : Primitives Digest) (lease : PaperAuthorityLease Digest)
    (bindings : ActivationBindings Digest) (runtime : Digest) (anchor : ControlAnchor Digest)
    (first : AuthorityEvent Digest) (rest : List (AuthorityEvent Digest)) (now : Instant)
    (control : ControlAnchor Digest) (spent : SpendingState Digest) : Prop where
  chained : ∃ chain, (first :: rest).foldlM (chainStep basis lease) ⟨1, none, none⟩ = .ok chain
  activated : activation bindings first = .ok control
  inWindow : lease.notBefore ≤ first.occurredAt ∧ first.occurredAt < lease.expiresAt
  observed : first.occurredAt ≤ now
  counted : rest.foldlM (usageStep basis lease control) .initial = .ok spent
  unrevoked : spent.revokedControl = none
  sameRuntime : runtime = bindings.activationRuntimeEpochSha256
  sameControl : controlRelation control anchor "current" = .ok .same
  unexpired : now < lease.expiresAt
  ordersLeft : spent.consumedCount < lease.maxOrders
  notionalLeft : spent.consumedNotional < lease.capitalCeiling

/-- The state of a transcript is open when nothing closed it. -/
theorem transcriptState_open {activationRuntime : Digest} {relation : ControlRelation} :
    transcriptState lease spent activationRuntime runtime relation now =
        .activationWindowOpen ↔
      spent.revokedControl = none ∧ runtime = activationRuntime ∧ relation = .same ∧
        now < lease.expiresAt ∧ spent.consumedCount < lease.maxOrders ∧
        spent.consumedNotional < lease.capitalCeiling := by
  unfold transcriptState
  cases spent.revokedControl with
  | some _ => simp
  | none =>
    by_cases restarted : runtime = activationRuntime
    · cases relation with
      | advanced => simp [restarted]
      | same =>
        by_cases expired : lease.expiresAt ≤ now
        · simp [restarted, expired]
        · by_cases exhausted : lease.maxOrders ≤ spent.consumedCount ∨
              lease.capitalCeiling ≤ spent.consumedNotional
          · simp only [restarted, expired, exhausted]
            simp
            grind
          · simp only [restarted, expired, exhausted]
            simp
            grind
    · simp [restarted]

/-- What a loaded usage says about the events and the facts that it was loaded from. -/
structure LoadedFrom (events : List (AuthorityEvent Digest)) (runtime : Digest)
    (anchor : ControlAnchor Digest) (now : Instant) (spent : SpendingState Digest)
    (loaded : LoadedPaperLeaseUsage Digest) : Prop where
  eventCount : loaded.eventCount = events.length
  latest : events.getLast?.map AuthorityEvent.eventSha256 = some loaded.latestEventSha256
  orders : loaded.usage.consumedOrderCount = spent.consumedCount
  notional : loaded.usage.consumedNotional = spent.consumedNotional
  consumptionKeys : loaded.consumedConsumptionKeys =
    (consumptions events).map Consumption.consumptionKey
  idempotencyKeys : loaded.consumedIdempotencyKeys =
    (consumptions events).map Consumption.idempotencyKey
  requestHashes : loaded.consumedRequestSha256s =
    (consumptions events).map Consumption.requestSha256
  runtime : loaded.currentRuntimeEpochSha256 = runtime
  control : loaded.currentControl = anchor
  observedAt : loaded.observedAt = now

/-- Usage is loaded from an open transcript only. -/
theorem opened_of_loadOpenUsage {count : Nat} {latest : Digest}
    {loaded : LoadedPaperLeaseUsage Digest}
    (loads : loadOpenUsage basis lease (first :: rest) count latest bindings runtime anchor now =
      .ok loaded) :
    ∃ control spent, OpenTranscript basis lease bindings runtime anchor first rest now control
        spent ∧ LoadedFrom (first :: rest) runtime anchor now spent loaded := by
  simp only [loadOpenUsage, seq_ok, mapError_ok] at loads
  obtain ⟨_, _, _, _, _, _, result, verified, _, checked, usage, counted, ⟨⟩⟩ := loads
  simp only [verifyTranscript, verifiedTranscriptEvents, seq_ok, require_ok] at verified
  obtain ⟨control, ⟨chain, chained, _, activated, _, inWindow, _, observed, ⟨⟩⟩, spent, folded,
    relation, related, ⟨⟩⟩ := verified
  simp only [verifiedResult, seq_ok, require_ok] at checked
  obtain ⟨_, _, state⟩ := checked
  obtain ⟨unrevoked, sameRuntime, rfl, unexpired, ordersLeft, notionalLeft⟩ :=
    transcriptState_open.mp state
  rw [unrevoked] at related
  refine ⟨control, spent, ?_, ?_⟩
  · exact ⟨⟨chain, chained⟩, activated, inWindow, observed, folded, unrevoked, sameRuntime,
      related, unexpired, ordersLeft, notionalLeft⟩
  · unfold PaperLeaseUsage.of at counted
    split at counted
    · cases counted
      exact ⟨rfl, by rw [List.getLast?_eq_some_getLast (List.cons_ne_nil _ _)]; rfl, rfl, rfl, rfl,
        rfl, rfl, rfl, rfl, rfl⟩
    · cases counted

theorem OpenTranscript.counts
    (opened : OpenTranscript basis lease bindings runtime anchor first rest now control spent) :
    Spent lease (first :: rest) spent :=
  (spent_activation lease (eventType_of_activation opened.activated)).fold opened.counted

/-- Usage is loaded from every open transcript. -/
theorem OpenTranscript.loads
    (opened : OpenTranscript basis lease bindings runtime anchor first rest now control spent) :
    ∃ loaded, loadOpenUsage basis lease (first :: rest) (first :: rest).length
        ((first :: rest).getLast (List.cons_ne_nil _ _)).eventSha256 bindings runtime anchor now =
          .ok loaded ∧
      LoadedFrom (first :: rest) runtime anchor now spent loaded := by
  obtain ⟨chain, chained⟩ := opened.chained
  have state : transcriptState lease spent bindings.activationRuntimeEpochSha256 runtime .same
      now = .activationWindowOpen :=
    transcriptState_open.mpr ⟨opened.unrevoked, opened.sameRuntime, rfl, opened.unexpired,
      opened.ordersLeft, opened.notionalLeft⟩
  have verified : verifyTranscript basis lease (first :: rest) bindings runtime anchor now =
      .ok (transcriptBody basis lease first rest spent bindings runtime control anchor .same now,
        basis.paperSha256 (.transcript (transcriptBody basis lease first rest spent bindings
          runtime control anchor .same now))) := by
    simp only [verifyTranscript, verifiedTranscriptEvents, seq_ok, require_ok]
    refine ⟨control, ⟨chain, chained, control, opened.activated, (), opened.inWindow, (),
      opened.observed, rfl⟩, spent, opened.counted, .same, ?_, rfl⟩
    rw [opened.unrevoked]
    exact opened.sameControl
  have checked : verifiedResult basis lease (first :: rest).length
      ((first :: rest).getLast (List.cons_ne_nil _ _)).eventSha256
      (transcriptBody basis lease first rest spent bindings runtime control anchor .same now,
        basis.paperSha256 (.transcript (transcriptBody basis lease first rest spent bindings
          runtime control anchor .same now))) = .ok () := by
    unfold verifiedResult
    exact seq_ok.mpr ⟨(), require_ok.mpr ⟨rfl, rfl, rfl, rfl, rfl, rfl, rfl⟩, require_ok.mpr state⟩
  have usage : PaperLeaseUsage.of basis lease spent.consumedCount spent.consumedNotional =
      .ok ⟨lease.leaseId, lease.sha256 basis, spent.consumedCount, spent.consumedNotional,
        opened.counts.nonneg⟩ := dif_pos opened.counts.nonneg
  have loads : ∃ loaded, loadOpenUsage basis lease (first :: rest) (first :: rest).length
      ((first :: rest).getLast (List.cons_ne_nil _ _)).eventSha256 bindings runtime anchor now =
        .ok loaded := by
    simp only [loadOpenUsage, seq_ok, mapError_ok, require_ok]
    have latest := List.getLast?_eq_some_getLast (List.cons_ne_nil first rest)
    exact ⟨_, (), List.cons_ne_nil _ _, (), Nat.succ_le_succ (Nat.zero_le _), (),
      ⟨trivial, by rw [latest]; rfl⟩, _, verified, (), checked, _, usage, rfl⟩
  obtain ⟨loaded, loads⟩ := loads
  obtain ⟨_, _, same, from_⟩ := opened_of_loadOpenUsage loads
  cases Except.ok.inj (same.activated.symm.trans opened.activated)
  cases Except.ok.inj (same.counted.symm.trans opened.counted)
  exact ⟨loaded, loads, from_⟩

/-- One more consumption that the lease covers leaves an open transcript open, unless it
uses the lease up. -/
theorem OpenTranscript.extend
    (opened : OpenTranscript basis lease bindings runtime anchor first rest now control spent)
    {event : AuthorityEvent Digest} {consumption : Consumption Digest} {later : Instant}
    {next : SpendingState Digest}
    (chained : ∃ chain, chainStep basis lease ⟨(first :: rest).length + 1,
        (first :: rest).getLast?.map AuthorityEvent.eventSha256,
        (first :: rest).getLast?.map fun event => event.occurredAt⟩ event = .ok chain)
    (consumed : event.detail = .consumptionCommitted consumption)
    (inTime : event.occurredAt < lease.expiresAt)
    (counted : verifiedConsumption lease spent consumption = .ok next)
    (observed : first.occurredAt ≤ later) (unexpired : later < lease.expiresAt)
    (ordersLeft : next.consumedCount < lease.maxOrders)
    (notionalLeft : next.consumedNotional < lease.capitalCeiling) :
    OpenTranscript basis lease bindings runtime anchor first (rest ++ [event]) later control
      next where
  chained := by
    obtain ⟨reached, folded⟩ := opened.chained
    obtain ⟨chain, stepped⟩ := chained
    rw [← List.cons_append]
    exact ⟨chain, foldlM_concat_ok.mpr ⟨reached, folded, by rwa [chain_reached folded]⟩⟩
  activated := opened.activated
  inWindow := opened.inWindow
  observed := observed
  counted := by
    refine foldlM_concat_ok.mpr ⟨spent, opened.counted, ?_⟩
    simp only [usageStep, seq_ok, require_ok, consumed]
    exact ⟨(), opened.unrevoked, (), by simp [EventDetail.eventType], (), inTime, counted⟩
  unrevoked := by
    obtain ⟨_, _, _, _, rfl⟩ := verifiedConsumption_ok.mp counted
    exact opened.unrevoked
  sameRuntime := opened.sameRuntime
  sameControl := opened.sameControl
  unexpired := unexpired
  ordersLeft := ordersLeft
  notionalLeft := notionalLeft

end Transcripts

section Epochs

variable {basis : Primitives Digest} {accountId : Identifier}

/-- Where a scan stands after some rows. -/
structure ScanReached (basis : Primitives Digest) (rows : List (RetainedRow Digest))
    (scan : EpochScan Digest) : Prop where
  sequence : scan.expectedGlobalSequence = rows.length + 1
  prior : scan.priorGlobalSha256 = rows.getLast?.map RetainedRow.rowSha256
  leaseOwners : ∀ row ∈ rows,
    scan.leaseHashOwners.lookup (row.leasePayload.sha256 basis) = some row.leaseId
  activationOwners : ∀ row ∈ rows,
    scan.activationOwners.lookup row.trustedActivationEventSha256 = some row.leaseId
  bound : ∀ row ∈ rows, ∀ epoch, scan.epochs.lookup row.leaseId = some epoch →
    epoch.bindings = row.bindings
  numbered : ∀ leaseId epoch, scan.epochs.lookup leaseId = some epoch →
    ∀ event ∈ epoch.events, event.eventSequence ≤ epoch.events.length

theorem owner_kept {owners : Table Digest Identifier} {key other : Digest}
    {owner stored : Identifier} (found : owners.lookup other = some stored)
    (kept : (owners.lookup key).getD owner = owner) :
    (owners.insert key ((owners.lookup key).getD owner)).lookup other = some stored := by
  by_cases same : other = key
  · subst same
    rw [AList.lookup_insert, found, Option.getD_some]
  · rw [AList.lookup_insert_ne same, found]

/-- One more row takes a scan one row further. -/
theorem ScanReached.step {rows : List (RetainedRow Digest)} {scan next : EpochScan Digest}
    {row : RetainedRow Digest} (reached : ScanReached basis rows scan)
    (scanned : Scanned rows scan)
    (stepped : retainStep basis accountId scan row = .ok next) :
    ScanReached basis (rows ++ [row]) next := by
  simp only [retainStep, seq_ok, require_ok, exists_and_left, exists_const] at stepped
  obtain ⟨_, _, _, ⟨_, _, named, _, _, _, _, _, numbered, _⟩, ⟨leaseOwner, activationOwner⟩,
    ⟨_, sameBindings, sequence, _⟩, ⟨⟩⟩ := stepped
  constructor
  · simp [reached.sequence]
  · simp
  · rw [List.forall_mem_append, List.forall_mem_singleton]
    refine ⟨fun earlier listed => owner_kept (reached.leaseOwners earlier listed) leaseOwner, ?_⟩
    dsimp only
    rw [AList.lookup_insert, leaseOwner, named]
  · rw [List.forall_mem_append, List.forall_mem_singleton]
    refine ⟨fun earlier listed =>
      owner_kept (reached.activationOwners earlier listed) activationOwner, ?_⟩
    dsimp only
    rw [AList.lookup_insert, activationOwner, named]
  · rw [List.forall_mem_append, List.forall_mem_singleton]
    constructor
    · intro earlier listed epoch stored
      by_cases same : earlier.leaseId = row.leasePayload.leaseId
      · dsimp only at stored
        rw [same, AList.lookup_insert, Option.some.injEq] at stored
        obtain ⟨before, known, _⟩ := scanned.known earlier listed
        have bindings := reached.bound earlier listed before known
        rw [same] at known
        rw [← stored, ← bindings, known]
        rfl
      · dsimp only at stored
        rw [AList.lookup_insert_ne same] at stored
        exact reached.bound earlier listed epoch stored
    · intro epoch stored
      dsimp only at stored
      rw [named, AList.lookup_insert, Option.some.injEq] at stored
      rw [← stored]
      exact sameBindings
  · intro leaseId epoch stored
    dsimp only at stored
    by_cases same : leaseId = row.leasePayload.leaseId
    · subst same
      rw [AList.lookup_insert, Option.some.injEq] at stored
      rw [← stored]
      dsimp only
      rw [List.length_append, List.length_singleton, List.forall_mem_append,
        List.forall_mem_singleton]
      refine ⟨fun event listed => Nat.le_succ_of_le ?_, (numbered.trans sequence).le⟩
      cases known : scan.epochs.lookup row.leasePayload.leaseId with
      | none =>
        rw [known] at listed
        cases listed
      | some before =>
        rw [known] at listed
        exact reached.numbered _ before known event listed
    · rw [AList.lookup_insert_ne same] at stored
      exact reached.numbered leaseId epoch stored

theorem scanReached_of_foldlM {rows : List (RetainedRow Digest)} {scan : EpochScan Digest}
    (folded : rows.foldlM (retainStep basis accountId) .initial = .ok scan) :
    ScanReached basis rows scan := by
  induction rows using List.reverseRecOn generalizing scan with
  | nil =>
    cases folded
    constructor
    · rfl
    · rfl
    · exact fun _ listed => nomatch listed
    · exact fun _ listed => nomatch listed
    · exact fun _ listed => nomatch listed
    · rintro _ _ ⟨⟩
  | append_singleton rows row ih =>
    obtain ⟨reached, earlier, stepped⟩ := foldlM_concat_ok.mp folded
    exact (ih earlier).step (scanned_of_foldlM earlier) stepped

/-- A retained epoch has a row, and its first event is the trusted activation. -/
theorem exists_row_of_epoch {rows : List (RetainedRow Digest)}
    {found : Table Identifier (RetainedAuthorityEpoch Digest)} {leaseId : Identifier}
    {epoch : RetainedAuthorityEpoch Digest} (verified : epochs basis rows accountId = .ok found)
    (stored : found.lookup leaseId = some epoch) :
    epoch.events = eventsUnder rows leaseId ∧ epoch.events ≠ [] ∧
      ∃ row ∈ rows, row.leaseId = leaseId ∧ row.leasePayload = epoch.lease ∧
        row.bindings = epoch.bindings := by
  simp only [epochs, seq_ok, require_ok] at verified
  obtain ⟨scan, folded, _, activated, ⟨⟩⟩ := verified
  have events := (scanned_of_foldlM folded).events leaseId epoch stored
  have nonempty : epoch.events ≠ [] := by
    intro empty
    have head := activated ⟨leaseId, epoch⟩ (AList.mem_lookup_iff.mp stored)
    rw [empty] at head
    cases head
  refine ⟨events, nonempty, ?_⟩
  rw [events] at nonempty
  unfold eventsUnder at nonempty
  obtain ⟨row, member⟩ := List.exists_mem_of_ne_nil _ (mt List.map_eq_nil_iff.mpr nonempty)
  obtain ⟨listed, same⟩ := List.mem_filter.mp member
  have same := of_decide_eq_true same
  obtain ⟨known, found, lease⟩ := (scanned_of_foldlM folded).known row listed
  cases (same ▸ found).symm.trans stored
  exact ⟨row, listed, same, lease.symm,
    ((scanReached_of_foldlM folded).bound row listed _ found).symm⟩

/-- A row of a known epoch that continues everything before it is retained. -/
theorem epochs_extend {rows : List (RetainedRow Digest)} (row : RetainedRow Digest)
    {found : Table Identifier (RetainedAuthorityEpoch Digest)}
    {epoch : RetainedAuthorityEpoch Digest} (verified : epochs basis rows accountId = .ok found)
    (stored : found.lookup row.leaseId = some epoch)
    (lease : row.leasePayload = epoch.lease) (bindings : row.bindings = epoch.bindings)
    (leaseHash : row.leasePayload.sha256 basis = row.leaseSha256)
    (chained : row.globalSequence = rows.length + 1 ∧
      row.priorGlobalRowSha256 = rows.getLast?.map RetainedRow.rowSha256 ∧
      basis.paperSha256 (.retainedRow row.toRetainedRowBody) = row.rowSha256)
    (bound : row.accountId = accountId ∧ row.leasePayload.accountId = accountId ∧
      row.leaseId = row.leasePayload.leaseId ∧ row.mode = row.leasePayload.mode ∧
      row.eventPayload.leaseId = row.leasePayload.leaseId ∧
      row.eventPayload.leaseSha256 = row.leasePayload.sha256 basis ∧
      row.eventPayload.accountId = accountId ∧
      row.eventPayload.mode = row.leasePayload.mode ∧
      row.eventPayload.eventSequence = row.eventSequence ∧
      row.eventPayload.detail.eventType = row.eventType ∧
      row.eventPayload.eventSha256 = row.eventSha256)
    (numbered : row.eventSequence = epoch.events.length + 1) :
    ∃ next, epochs basis (rows ++ [row]) accountId = .ok next ∧
      next.lookup row.leaseId =
        some { epoch with events := epoch.events ++ [row.eventPayload] } := by
  obtain ⟨_, nonempty, known, listed, sameLease, knownLease, knownBindings⟩ :=
    exists_row_of_epoch verified stored
  simp only [epochs, seq_ok, require_ok] at verified
  obtain ⟨scan, folded, _, activated, ⟨⟩⟩ := verified
  have reached := scanReached_of_foldlM folded
  have named : row.leaseId = row.leasePayload.leaseId := bound.2.2.1
  have leaseOwner : scan.leaseHashOwners.lookup (row.leasePayload.sha256 basis) =
      some row.leasePayload.leaseId := by
    rw [← named, ← sameLease, lease, ← knownLease]
    exact reached.leaseOwners known listed
  have activationOwner : scan.activationOwners.lookup row.trustedActivationEventSha256 =
      some row.leasePayload.leaseId := by
    have same : known.trustedActivationEventSha256 = row.trustedActivationEventSha256 :=
      congrArg ActivationBindings.trustedActivationEventSha256 (knownBindings.trans bindings.symm)
    rw [← named, ← sameLease, ← same]
    exact reached.activationOwners known listed
  have fresh : row.eventPayload ∉ epoch.events := by
    intro member
    have below := reached.numbered _ epoch stored _ member
    rw [bound.2.2.2.2.2.2.2.2.1, numbered] at below
    omega
  have found : scan.epochs.lookup row.leasePayload.leaseId = some epoch := named ▸ stored
  have stepped : ∃ next, retainStep basis accountId scan row = .ok next ∧
      next.epochs = scan.epochs.insert row.leasePayload.leaseId
        { epoch with events := epoch.events ++ [row.eventPayload] } := by
    simp only [retainStep, seq_ok, require_ok, exists_and_left, exists_const, leaseOwner,
      activationOwner, found, Option.getD_some]
    refine ⟨_, ⟨⟨?_, ?_⟩, leaseHash, ?_, bound, ⟨trivial, trivial⟩,
      ⟨lease.symm, bindings.symm, numbered, fresh⟩, rfl⟩, rfl⟩
    · rw [chained.1]
      exact Nat.succ_le_succ (Nat.zero_le _)
    · rw [numbered]
      exact Nat.succ_le_succ (Nat.zero_le _)
    · rw [reached.sequence, reached.prior]
      exact chained
  obtain ⟨next, stepped, grown⟩ := stepped
  simp only [epochs, seq_ok, require_ok]
  refine ⟨next.epochs, ⟨next, foldlM_concat_ok.mpr ⟨scan, folded, stepped⟩, (), ?_, rfl⟩, ?_⟩
  · rintro ⟨leaseId, kept⟩ member
    have held : next.epochs.lookup leaseId = some kept := AList.mem_lookup_iff.mpr member
    rw [grown] at held
    by_cases same : leaseId = row.leasePayload.leaseId
    · subst same
      rw [AList.lookup_insert] at held
      cases held
      obtain ⟨head, tail, shape⟩ := List.exists_cons_of_ne_nil nonempty
      have first := activated ⟨_, epoch⟩ (AList.mem_lookup_iff.mp found)
      rw [shape] at first ⊢
      exact first
    · rw [AList.lookup_insert_ne same] at held
      exact activated ⟨leaseId, kept⟩ (AList.mem_lookup_iff.mp held)
  · rw [grown, named, AList.lookup_insert]

end Epochs

section Tables

variable {basis : Primitives Digest}

theorem verifiedRiskRows_insert {risks : Table Identifier (RiskRow Digest)} {key : Identifier}
    {row : RiskRow Digest} {done : Unit} (verified : verifiedRiskRows basis risks = .ok done)
    (new : risks.lookup key = none) (room : risks.entries.length < MAX_RETAINED_ROWS)
    (evidence : verifiedRiskRow basis key row = .ok ())
    (unused : row.evaluationSha256 ∉ risks.entries.map fun entry => entry.2.evaluationSha256) :
    verifiedRiskRows basis (risks.insert key row) = .ok () := by
  simp only [verifiedRiskRows, seq_ok, require_ok, forM_ok] at verified ⊢
  obtain ⟨_, _, _, each, distinct⟩ := verified
  rw [AList.entries_insert_of_notMem (AList.lookup_eq_none.mp new)]
  refine ⟨(), room, (), ?_, ?_⟩
  · rw [List.forall_mem_cons]
    exact ⟨evidence, each⟩
  · rw [List.map_cons, List.nodup_cons]
    exact ⟨unused, distinct⟩

/-- The marker that a submission has started. -/
def startedEvent (sha256 : Payload Digest → Digest) (request : SubmitOrderRequest)
    (now : Instant) : SubmissionEvent Digest where
  eventSequence := 1
  accountId := request.accountId
  intentSha256 := sha256 (.intent request)
  eventType := .submissionStarted
  brokerOrderId := none
  orderSha256 := none
  orderPayload := none
  occurredAt := now

/-- The ledger once a new submission has begun. -/
def submissionBegun (sha256 : Payload Digest → Digest) (ledger : BrokerLedger Digest)
    (request : SubmitOrderRequest) (now : Instant) : BrokerLedger Digest :=
  let row : IntentRow Digest := ⟨request.accountId, sha256 (.intent request), request⟩
  BrokerLedger.insertEvent { ledger with intents := ledger.intents.insert request.idempotencyKey row }
    request.idempotencyKey (startedEvent sha256 request now)

section Begun

variable {sha256 : Payload Digest → Digest} {ledger : BrokerLedger Digest}
  {request : SubmitOrderRequest} {now : Instant}

omit [DecidableEq Digest] in
theorem events_submissionBegun (newAttempt : ledger.events request.idempotencyKey = []) :
    (submissionBegun sha256 ledger request now).events request.idempotencyKey =
      [startedEvent sha256 request now] := by
  unfold submissionBegun
  rw [BrokerLedger.events_insertEvent]
  change ledger.events request.idempotencyKey ++ _ = _
  rw [newAttempt, List.nil_append]

omit [DecidableEq Digest] in
theorem frame_submissionBegun {other : Identifier} (different : other ≠ request.idempotencyKey) :
    (submissionBegun sha256 ledger request now).events other = ledger.events other ∧
      (submissionBegun sha256 ledger request now).intents.lookup other =
        ledger.intents.lookup other :=
  ⟨BrokerLedger.events_insertEvent_ne _ _ different, AList.lookup_insert_ne different⟩

theorem beginSubmission_new (newIntent : ledger.intents.lookup request.idempotencyKey = none)
    (newAttempt : ledger.events request.idempotencyKey = []) :
    beginSubmission sha256 ledger request now =
      .ok (.uncertain, submissionBegun sha256 ledger request now) := by
  unfold beginSubmission recordIntent
  rw [newIntent]
  refine bind_ok.mpr ⟨_, rfl, bind_ok.mpr ⟨none, ?_, rfl⟩⟩
  have unattempted : ∀ intents, ({ ledger with intents := intents } : BrokerLedger Digest).events
      request.idempotencyKey = [] := fun _ => newAttempt
  unfold submissionEvents
  rw [unattempted]

theorem submissionState_frame {other : Identifier} (different : other ≠ request.idempotencyKey) :
    submissionState sha256 (submissionBegun sha256 ledger request now) other =
      submissionState sha256 ledger other := by
  have events : (submissionBegun sha256 ledger request now).events other = ledger.events other :=
    (frame_submissionBegun different).1
  have intents : (submissionBegun sha256 ledger request now).intents.lookup other =
      ledger.intents.lookup other := (frame_submissionBegun different).2
  unfold submissionState submissionEvents
  rw [events, intents]

theorem submissionState_submissionBegun
    (newAttempt : ledger.events request.idempotencyKey = []) :
    submissionState sha256 (submissionBegun sha256 ledger request now) request.idempotencyKey =
      .ok (some .uncertain) := by
  unfold submissionState submissionEvents
  rw [events_submissionBegun newAttempt]
  have stored : (submissionBegun sha256 ledger request now).intents.lookup
      request.idempotencyKey =
        some ⟨request.accountId, sha256 (.intent request), request⟩ := AList.lookup_insert _
  simp [startedEvent, stored, Except.map]

end Begun

end Tables

/-- The event that an order adds to its lease's transcript. -/
def plannedEvent (basis : Primitives Digest) (lease : PaperAuthorityLease Digest)
    (candidate : CandidateAssessment Digest) (intent : IntentBindings Digest)
    (usage : LoadedPaperLeaseUsage Digest) (evaluation : AuthorityAwareRiskEvaluation Digest)
    (request : SubmitOrderRequest) (consumptionKey : Identifier) (plannedAt : Instant) :
    EventBody Digest :=
  (expectedCommitments basis lease request consumptionKey plannedAt usage evaluation
    (basis.paperSha256 (.eligibility (eligibilityBody basis lease candidate.assessmentSha256
      (basis.paperSha256 (.intentBindings intent)) usage evaluation
      (basis.sha256 (.request request)) consumptionKey request.idempotencyKey plannedAt)))).2

section Plans

variable {basis : Primitives Digest} {verifyCandidate : CandidateVerifier Digest}
  {lease : PaperAuthorityLease Digest} {candidate : CandidateAssessment Digest}
  {intent : IntentBindings Digest} {usage : LoadedPaperLeaseUsage Digest}
  {evaluation : AuthorityAwareRiskEvaluation Digest} {request : SubmitOrderRequest}
  {consumptionKey : Identifier} {trustedCandidate trustedIntent : Digest}
  {plannedAt : Instant} {plan : ConsumptionPlan Digest}

/-- What a plan commits to, as its verifier has checked it. -/
structure Committed (basis : Primitives Digest) (plan : ConsumptionPlan Digest) : Prop where
  positive : 0 < plan.terms.orderNotional
  counted : plan.terms.resultingConsumedOrderCount = plan.terms.priorConsumedOrderCount + 1
  intentKey : plan.expectedBrokerIntent.idempotencyKey = plan.terms.idempotencyKey
  intentAccount : plan.expectedBrokerIntent.accountId = plan.terms.accountId
  eligibility : plan.eligibility = plan.terms
  started : plan.expectedSubmissionStarted = plan.startedCommitment
  consumption : plan.expectedConsumptionEvent = plan.consumptionCommitment
  intentHash : basis.sha256 (.intent plan.expectedBrokerIntent) = plan.expectedBrokerIntentSha256
  eventHash : basis.paperSha256 (.event plan.expectedConsumptionEvent) =
    plan.expectedConsumptionEventSha256

theorem committed_of_verifyPlan {done : Unit} (verified : verifyPlan basis plan = .ok done) :
    Committed basis plan := by
  simp only [verifyPlan, seq_ok, require_ok, exists_and_left, exists_const] at verified
  obtain ⟨positive, _, ⟨_, _, counted, _⟩, ⟨key, account, _⟩,
    ⟨eligibility, started, consumption, _, intentHash, _, eventHash⟩, _⟩ := verified
  exact ⟨positive, counted, key, account, eligibility, started, consumption, intentHash, eventHash⟩

/-- What a plan that was built says, and what was checked when it was. -/
structure PlannedFrom (basis : Primitives Digest) (lease : PaperAuthorityLease Digest)
    (candidate : CandidateAssessment Digest) (intent : IntentBindings Digest)
    (usage : LoadedPaperLeaseUsage Digest) (evaluation : AuthorityAwareRiskEvaluation Digest)
    (request : SubmitOrderRequest) (consumptionKey : Identifier) (plannedAt : Instant)
    (plan : ConsumptionPlan Digest) : Prop where
  usageVerified : verifyLoadedUsage basis usage lease = .ok ()
  evaluationVerified : verifyEvaluation basis evaluation = .ok ()
  planVerified : verifyPlan basis plan = .ok ()
  terms : plan.terms = eligibilityBody basis lease candidate.assessmentSha256
    (basis.paperSha256 (.intentBindings intent)) usage evaluation
    (basis.sha256 (.request request)) consumptionKey request.idempotencyKey plannedAt
  sequence : plan.expectedEventSequence = usage.eventCount + 1
  prior : plan.expectedPriorEventSha256 = usage.latestEventSha256
  brokerIntent : plan.expectedBrokerIntent = request
  event : plan.expectedConsumptionEvent = plannedEvent basis lease candidate intent usage evaluation
    request consumptionKey plannedAt
  evaluationLease : evaluation.leaseId = lease.leaseId
  evaluationAccount : evaluation.accountId = lease.accountId
  evaluationRuntime : evaluation.runtimeEpochSha256 = usage.currentRuntimeEpochSha256
  evaluationControl : evaluation.controlEventCount = usage.currentControl.eventCount ∧
    evaluation.controlEventSha256 = usage.currentControl.latestEventSha256
  evaluationRequest : evaluation.requestSha256 = basis.sha256 (.request request)
  assessed : evaluation.assessedAt ≤ plannedAt
  fresh : plannedAt < evaluation.riskExpiresAt
  unexpired : plannedAt < lease.expiresAt
  newConsumption : consumptionKey ∉ usage.consumedConsumptionKeys
  newIdempotency : request.idempotencyKey ∉ usage.consumedIdempotencyKeys
  newRequest : basis.sha256 (.request request) ∉ usage.consumedRequestSha256s
  small : evaluation.orderNotional ≤ lease.maxOrderNotional
  ordersFit : usage.usage.consumedOrderCount + 1 ≤ lease.maxOrders
  notionalFits : usage.usage.consumedNotional + evaluation.orderNotional ≤ lease.capitalCeiling

theorem planned_of_buildPlan
    (built : buildPlan basis verifyCandidate lease candidate intent usage evaluation request
      consumptionKey trustedCandidate trustedIntent plannedAt = .ok plan) :
    PlannedFrom basis lease candidate intent usage evaluation request consumptionKey plannedAt
      plan := by
  simp only [buildPlan, seq_ok, require_ok, mapError_ok, exists_and_left, exists_const] at built
  obtain ⟨_, _, _, usageVerified, _, evaluationVerified, matching, current, _, ⟨newConsumption, newIdempotency, newRequest⟩,
    ⟨small, ordersFit, notionalFits⟩, _, planVerified, ⟨⟩⟩ := built
  obtain ⟨_, _, _, _, evaluationLease, _, evaluationAccount, _, _, evaluationRuntime, _,
    controlCount, controlHash, evaluationRequest⟩ := matching
  obtain ⟨_, _, _, assessed, fresh, _, unexpired, _⟩ := current
  exact ⟨usageVerified, evaluationVerified, planVerified, rfl, rfl, rfl, rfl, rfl,
    evaluationLease, evaluationAccount, evaluationRuntime, ⟨controlCount, controlHash⟩, evaluationRequest, assessed,
    fresh, unexpired, newConsumption, newIdempotency, newRequest, small, ordersFit, notionalFits⟩

end Plans

/-- The consumption event of a plan, with its hash. -/
def ConsumptionPlan.event (plan : ConsumptionPlan Digest) : AuthorityEvent Digest :=
  { plan.expectedConsumptionEvent with eventSha256 := plan.expectedConsumptionEventSha256 }

/-- The consumption of a plan. -/
def ConsumptionPlan.consumption (plan : ConsumptionPlan Digest) : Consumption Digest where
  consumptionKey := plan.terms.consumptionKey
  idempotencyKey := plan.terms.idempotencyKey
  eligibilitySha256 := plan.eligibilitySha256
  requestSha256 := plan.terms.requestSha256
  riskEvaluationSha256 := plan.terms.riskEvaluationSha256
  brokerSubmissionStartedSha256 := plan.expectedSubmissionStartedSha256
  submissionState := .uncertain
  orderNotional := plan.terms.orderNotional
  resultingConsumedOrderCount := plan.terms.resultingConsumedOrderCount
  resultingConsumedNotional := plan.terms.resultingConsumedNotional

section Reopened

variable {basis : Primitives Digest} {lease : PaperAuthorityLease Digest}
  {candidate : CandidateAssessment Digest} {intent : IntentBindings Digest}
  {usage : LoadedPaperLeaseUsage Digest} {evaluation : AuthorityAwareRiskEvaluation Digest}
  {request : SubmitOrderRequest} {consumptionKey : Identifier} {plannedAt : Instant}
  {plan : ConsumptionPlan Digest} {runtime : Digest} {anchor : ControlAnchor Digest}
  {observedAt now : Instant}

omit [DecidableEq Digest] in
theorem Committed.detail (committed : Committed basis plan) :
    plan.event.detail = .consumptionCommitted plan.consumption := by
  change plan.expectedConsumptionEvent.detail = _
  rw [committed.consumption]
  rfl

/-- The event of a plan continues the events that the plan was built on. -/
theorem chained_event
    (planned : PlannedFrom basis lease candidate intent usage evaluation request consumptionKey
      plannedAt plan)
    {events : List (AuthorityEvent Digest)} {spent : SpendingState Digest}
    (loaded : LoadedFrom events runtime anchor observedAt spent usage)
    (after : ∀ event ∈ events, event.occurredAt ≤ plannedAt) :
    ∃ chain, chainStep basis lease ⟨events.length + 1,
      events.getLast?.map AuthorityEvent.eventSha256,
      events.getLast?.map fun event => event.occurredAt⟩ plan.event = .ok chain := by
  have committed := committed_of_verifyPlan planned.planVerified
  have sequence : plan.expectedEventSequence = events.length + 1 := by
    rw [planned.sequence, loaded.eventCount]
  have body : plan.event.toEventBody = plan.consumptionCommitment := committed.consumption
  simp only [chainStep, seq_ok, require_ok]
  refine ⟨_, (), ?_, (), committed.eventHash, (), ?_, (), ?_, rfl⟩
  · rw [body, loaded.latest, ← planned.prior]
    exact ⟨rfl, sequence, rfl, rfl⟩
  · rw [body]
    intro earlier latest
    obtain ⟨event, last, rfl⟩ := Option.map_eq_some_iff.mp (Option.mem_def.mp latest)
    change event.occurredAt ≤ plan.terms.plannedAt
    rw [planned.terms]
    exact after event (List.mem_of_getLast? last)
  · rw [body]
    change plan.terms.leaseId = _ ∧ plan.terms.leaseSha256 = _ ∧ plan.terms.accountId = _ ∧
      plan.terms.mode = _
    rw [planned.terms]
    exact ⟨rfl, rfl, rfl, rfl⟩

/-- The lease covers the consumption of a plan. -/
theorem counted_consumption
    (planned : PlannedFrom basis lease candidate intent usage evaluation request consumptionKey
      plannedAt plan)
    {events : List (AuthorityEvent Digest)} {spent : SpendingState Digest}
    (loaded : LoadedFrom events runtime anchor observedAt spent usage)
    (counts : Spent lease events spent) :
    ∃ next, verifiedConsumption lease spent plan.consumption = .ok next ∧
      next.consumedCount = usage.usage.consumedOrderCount + 1 ∧
      next.consumedNotional = usage.usage.consumedNotional + evaluation.orderNotional := by
  have committed := committed_of_verifyPlan planned.planVerified
  have terms := planned.terms
  refine ⟨_, verifiedConsumption_ok.mpr ⟨rfl, ⟨?_, ?_, ?_⟩, committed.positive,
    ⟨?_, ?_, ?_, ?_, ?_⟩, rfl⟩, ?_, ?_⟩
  · rw [counts.consumptionKeys, ← loaded.consumptionKeys]
    change plan.terms.consumptionKey ∉ _
    rw [terms]
    exact planned.newConsumption
  · rw [counts.idempotencyKeys, ← loaded.idempotencyKeys]
    change plan.terms.idempotencyKey ∉ _
    rw [terms]
    exact planned.newIdempotency
  · rw [counts.requestHashes, ← loaded.requestHashes]
    change plan.terms.requestSha256 ∉ _
    rw [terms]
    exact planned.newRequest
  · change plan.terms.resultingConsumedOrderCount = _
    rw [terms, ← loaded.orders]
    rfl
  · change closeTo plan.terms.resultingConsumedNotional (_ + plan.terms.orderNotional)
    rw [terms, ← loaded.notional]
    change |(usage.usage.consumedNotional + evaluation.orderNotional) -
      (usage.usage.consumedNotional + evaluation.orderNotional)| ≤ _
    rw [sub_self, abs_zero]
    positivity
  · change plan.terms.orderNotional ≤ _
    rw [terms]
    exact planned.small
  · rw [← loaded.orders]
    exact planned.ordersFit
  · change _ + plan.terms.orderNotional ≤ _
    rw [terms, ← loaded.notional]
    exact planned.notionalFits
  · rw [loaded.orders]
  · change _ + plan.terms.orderNotional = _
    rw [terms, loaded.notional]
    rfl

/-- Usage comes from events, at least one of them. -/
theorem exists_cons_of_epochUsage {epoch : RetainedAuthorityEpoch Digest}
    {loaded : LoadedPaperLeaseUsage Digest}
    (loads : epochUsage basis lease epoch runtime anchor now = .ok loaded) :
    ∃ first rest, epoch.events = first :: rest ∧
      loadOpenUsage basis lease (first :: rest) (first :: rest).length
        ((first :: rest).getLast (List.cons_ne_nil _ _)).eventSha256 epoch.bindings runtime anchor
        now = .ok loaded := by
  unfold epochUsage at loads
  split at loads
  · cases loads
  · rename_i latest last
    obtain ⟨first, rest, shape⟩ :=
      List.exists_cons_of_ne_nil (List.ne_nil_of_mem (List.mem_of_getLast? last))
    refine ⟨first, rest, shape, ?_⟩
    rw [shape, List.getLast?_eq_some_getLast (List.cons_ne_nil _ _)] at last
    rw [shape, ← Option.some.inj last] at loads
    exact loads

theorem capacityLeft_of_epochUsage {epoch : RetainedAuthorityEpoch Digest}
    {loaded : LoadedPaperLeaseUsage Digest}
    (loads : epochUsage basis lease epoch runtime anchor now = .ok loaded) :
    loaded.usage.consumedOrderCount < lease.maxOrders ∧
      loaded.usage.consumedNotional < lease.capitalCeiling := by
  obtain ⟨first, rest, _, loads⟩ := exists_cons_of_epochUsage loads
  obtain ⟨_, spent, opened, from_⟩ := opened_of_loadOpenUsage loads
  rw [from_.orders, from_.notional]
  exact ⟨opened.ordersLeft, opened.notionalLeft⟩

/-- After the consumption of a plan that leaves something of the lease, usage is loaded
again, with what the plan said would be consumed. -/
theorem reopened_usage {epoch : RetainedAuthorityEpoch Digest}
    (loads : epochUsage basis lease epoch runtime anchor observedAt = .ok usage)
    (planned : PlannedFrom basis lease candidate intent usage evaluation request consumptionKey
      plannedAt plan)
    (after : ∀ event ∈ epoch.events, event.occurredAt ≤ plannedAt)
    (recorded : plannedAt ≤ now) (unexpired : now < lease.expiresAt)
    (ordersLeft : usage.usage.consumedOrderCount + 1 < lease.maxOrders)
    (notionalLeft :
      usage.usage.consumedNotional + evaluation.orderNotional < lease.capitalCeiling) :
    ∃ loaded, epochUsage basis lease { epoch with events := epoch.events ++ [plan.event] } runtime
        anchor now = .ok loaded ∧
      loaded.eventCount = plan.expectedEventSequence ∧
      loaded.latestEventSha256 = plan.expectedConsumptionEventSha256 ∧
      loaded.usage.consumedOrderCount = plan.terms.resultingConsumedOrderCount ∧
      loaded.usage.consumedNotional = plan.terms.resultingConsumedNotional := by
  obtain ⟨first, rest, shape, loads⟩ := exists_cons_of_epochUsage loads
  obtain ⟨control, spent, opened, from_⟩ := opened_of_loadOpenUsage loads
  rw [shape] at after
  obtain ⟨next, counted, orders, notional⟩ := counted_consumption planned from_ opened.counts
  have body : plan.event.occurredAt = plannedAt := by
    change plan.expectedConsumptionEvent.occurredAt = plannedAt
    rw [(committed_of_verifyPlan planned.planVerified).consumption]
    change plan.terms.plannedAt = plannedAt
    rw [planned.terms]
    rfl
  have extended := opened.extend (chained_event planned from_ after)
    (committed_of_verifyPlan planned.planVerified).detail (body ▸ planned.unexpired) counted
    ((after first List.mem_cons_self).trans recorded) unexpired (orders ▸ ordersLeft)
    (notional ▸ notionalLeft)
  obtain ⟨loaded, again, reloaded⟩ := extended.loads
  have last : (first :: (rest ++ [plan.event])).getLast? = some plan.event := by
    rw [← List.cons_append, List.getLast?_concat]
  refine ⟨loaded, ?_, ?_, ?_, ?_, ?_⟩
  · unfold epochUsage
    dsimp only
    rw [shape, List.cons_append, last]
    have same := List.getLast?_eq_some_getLast (List.cons_ne_nil first (rest ++ [plan.event]))
    rw [last] at same
    rw [← Option.some.inj same] at again
    exact again
  · rw [reloaded.eventCount, planned.sequence, from_.eventCount]
    simp
  · have latest := reloaded.latest
    rw [last] at latest
    exact (Option.some.inj latest).symm
  · rw [reloaded.orders, orders, planned.terms]
    rfl
  · rw [reloaded.notional, notional, planned.terms]
    rfl

end Reopened

/-- What a commit of a plan leaves in the tables. -/
def committedTables (basis : Primitives Digest) (tables : PaperTables Digest)
    (call : PreCall Digest) (epoch : RetainedAuthorityEpoch Digest) : PaperTables Digest where
  authority := tables.authority ++ [authorityRow basis call.lease call.plan epoch.bindings
    (call.trustedGlobalRowCount + 1) (some call.trustedLatestGlobalRowSha256)]
  risks := tables.risks.insert call.plan.terms.idempotencyKey
    (riskRow basis call.lease call.evaluation call.plan)
  ledger := submissionBegun basis.sha256 tables.ledger call.request call.plan.terms.plannedAt

/-- An order leaves something of its lease, is new to every table, and there is room for
its rows. -/
structure Committable (basis : Primitives Digest) (tables : PaperTables Digest)
    (lease : PaperAuthorityLease Digest) (candidate : CandidateAssessment Digest)
    (intent : IntentBindings Digest) (usage : LoadedPaperLeaseUsage Digest)
    (evaluation : AuthorityAwareRiskEvaluation Digest) (request : SubmitOrderRequest)
    (consumptionKey : Identifier) (plannedAt : Instant) : Prop where
  ordersLeft : usage.usage.consumedOrderCount + 1 < lease.maxOrders
  notionalLeft : usage.usage.consumedNotional + evaluation.orderNotional < lease.capitalCeiling
  newEvent : ∀ row ∈ tables.authority, row.eventSha256 ≠ basis.paperSha256 (.event
    (plannedEvent basis lease candidate intent usage evaluation request consumptionKey plannedAt))
  newRisk : tables.risks.lookup request.idempotencyKey = none
  newEvaluation :
    evaluation.evaluationSha256 ∉ tables.risks.entries.map fun entry => entry.2.evaluationSha256
  newIntent : tables.ledger.intents.lookup request.idempotencyKey = none
  newAttempt : tables.ledger.events request.idempotencyKey = []
  rowsLeft : tables.authority.length < MAX_RETAINED_ROWS
  risksLeft : tables.risks.entries.length < MAX_RETAINED_ROWS

section Commit

variable {basis : Primitives Digest} {tables : PaperTables Digest} {call : PreCall Digest}
  {epoch : RetainedAuthorityEpoch Digest} {candidate : CandidateAssessment Digest}
  {intent : IntentBindings Digest} {consumptionKey : Identifier} {plannedAt observedAt : Instant}

/-- The rows of a commit verify. -/
theorem verifiedAuthorityRows_committed
    {found : Table Identifier (RetainedAuthorityEpoch Digest)}
    (planned : PlannedFrom basis call.lease candidate intent call.usage call.evaluation
      call.request consumptionKey plannedAt call.plan)
    (verified : verifiedAuthorityRows basis tables call.lease.accountId = .ok found)
    (stored : found.lookup call.lease.leaseId = some epoch) (own : epoch.lease = call.lease)
    (counted : call.usage.eventCount = epoch.events.length)
    (head : tables.authority.length = call.trustedGlobalRowCount ∧
      tables.authority.getLast?.map RetainedRow.rowSha256 =
        some call.trustedLatestGlobalRowSha256)
    (room : tables.authority.length < MAX_RETAINED_ROWS) :
    ∃ next, verifiedAuthorityRows basis (committedTables basis tables call epoch)
        call.lease.accountId = .ok next ∧
      next.lookup call.lease.leaseId =
        some { epoch with events := epoch.events ++ [call.plan.event] } := by
  have committed := committed_of_verifyPlan planned.planVerified
  simp only [verifiedAuthorityRows, seq_ok, require_ok, mapError_ok] at verified ⊢
  obtain ⟨_, _, verified⟩ := verified
  have fields : ∀ {α : Type} (read : EventBody Digest → α),
      read call.plan.expectedConsumptionEvent = read call.plan.consumptionCommitment :=
    fun read => congrArg read committed.consumption
  have leaseId : call.plan.terms.leaseId = call.lease.leaseId := by rw [planned.terms]; rfl
  have leaseHash : call.plan.terms.leaseSha256 = call.lease.sha256 basis := by
    rw [planned.terms]; rfl
  have account : call.plan.terms.accountId = call.lease.accountId := by rw [planned.terms]; rfl
  have mode : call.plan.terms.mode = call.lease.mode := by rw [planned.terms]; rfl
  have numbered : call.plan.expectedConsumptionEvent.eventSequence = epoch.events.length + 1 := by
    rw [fields fun event => event.eventSequence, ← counted, ← planned.sequence]
    rfl
  obtain ⟨next, extended, held⟩ := epochs_extend
    (authorityRow basis call.lease call.plan epoch.bindings (call.trustedGlobalRowCount + 1)
      (some call.trustedLatestGlobalRowSha256))
    verified stored own.symm rfl rfl ⟨by rw [head.1]; rfl, head.2.symm, rfl⟩
    ⟨rfl, rfl, rfl, rfl, (fields fun event => event.leaseId).trans leaseId,
      (fields fun event => event.leaseSha256).trans leaseHash,
      (fields fun event => event.accountId).trans account,
      (fields fun event => event.mode).trans mode, rfl, rfl, rfl⟩ numbered
  refine ⟨next, ⟨(), ?_, extended⟩, held⟩
  change (tables.authority ++ [_]).length ≤ _
  rw [List.length_append]
  exact room

/-- The evidence of a commit verifies. -/
theorem verifiedRiskRow_committed
    (planned : PlannedFrom basis call.lease candidate intent call.usage call.evaluation
      call.request consumptionKey plannedAt call.plan) :
    verifiedRiskRow basis call.plan.terms.idempotencyKey
      (riskRow basis call.lease call.evaluation call.plan) = .ok () := by
  simp only [verifiedRiskRow, seq_ok, require_ok, mapError_ok]
  refine ⟨(), planned.evaluationVerified, (), planned.planVerified, ?_⟩
  refine ⟨planned.evaluationAccount.symm, planned.evaluationLease.symm, rfl, ?_, ?_, ?_, rfl, ?_,
    rfl, rfl, ?_, ?_⟩
  · exact congrArg Eligibility.accountId planned.terms
  · exact congrArg Eligibility.leaseId planned.terms
  · exact congrArg Eligibility.riskEvaluationSha256 planned.terms
  · exact fun different => different.1 rfl
  · change call.evaluation.assessedAt ≤ call.plan.terms.plannedAt
    rw [planned.terms]
    exact planned.assessed
  · change call.plan.terms.plannedAt < call.evaluation.riskExpiresAt
    rw [planned.terms]
    exact planned.fresh

/-- The intent and the marker that a commit writes are those of its plan. -/
theorem matches_committed
    (planned : PlannedFrom basis call.lease candidate intent call.usage call.evaluation
      call.request consumptionKey plannedAt call.plan)
    (newAttempt : tables.ledger.events call.request.idempotencyKey = []) :
    submissionStartedMatches (committedTables basis tables call epoch).ledger call.plan = true ∧
      intentMatches (committedTables basis tables call epoch).ledger call.plan = true := by
  have committed := committed_of_verifyPlan planned.planVerified
  have key : call.plan.terms.idempotencyKey = call.request.idempotencyKey := by
    rw [planned.terms]; rfl
  have account : call.plan.terms.accountId = call.request.accountId := by
    rw [← committed.intentAccount, planned.brokerIntent]
  have hash : call.plan.expectedBrokerIntentSha256 = basis.sha256 (.intent call.request) := by
    rw [← committed.intentHash, planned.brokerIntent]
  constructor
  · have begun : (committedTables basis tables call epoch).ledger.events
        call.request.idempotencyKey = [startedEvent basis.sha256 call.request
          call.plan.terms.plannedAt] := events_submissionBegun newAttempt
    unfold submissionStartedMatches
    rw [key, begun, committed.started]
    simp [startedEvent, PlanBody.startedCommitment, account, hash]
  · unfold intentMatches
    rw [key, planned.brokerIntent, hash]
    exact decide_eq_true (AList.lookup_insert _)

/-- A link of another consumption is as it was. -/
theorem verifyCommitLink_frame {consumed : Consumption Digest × AuthorityEvent Digest}
    (verified : verifiedRiskRows basis tables.risks = .ok ())
    (key : call.plan.terms.idempotencyKey = call.request.idempotencyKey)
    (other : consumed.1.idempotencyKey ≠ call.request.idempotencyKey)
    (linked : verifyCommitLink basis tables consumed = .ok ()) :
    verifyCommitLink basis (committedTables basis tables call epoch) consumed = .ok () := by
  have events : (committedTables basis tables call epoch).ledger.events
      consumed.1.idempotencyKey = tables.ledger.events consumed.1.idempotencyKey :=
    (frame_submissionBegun other).1
  have intents : (submissionBegun basis.sha256 tables.ledger call.request
      call.plan.terms.plannedAt).intents.lookup consumed.1.idempotencyKey =
        tables.ledger.intents.lookup consumed.1.idempotencyKey := (frame_submissionBegun other).2
  unfold verifyCommitLink at linked ⊢
  have lookup : (committedTables basis tables call epoch).risks.lookup consumed.1.idempotencyKey =
      tables.risks.lookup consumed.1.idempotencyKey := AList.lookup_insert_ne (key ▸ other)
  rw [lookup]
  cases found : tables.risks.lookup consumed.1.idempotencyKey with
  | none =>
    rw [found] at linked
    exact linked
  | some row =>
    rw [found] at linked
    have evidence : row.atomicBundlePayload.terms.idempotencyKey = consumed.1.idempotencyKey := by
      simp only [verifiedRiskRows, seq_ok, forM_ok] at verified
      obtain ⟨_, _, _, each, _⟩ := verified
      have row := each ⟨_, row⟩ (AList.mem_lookup_iff.mp found)
      simp only [verifiedRiskRow, seq_ok, require_ok] at row
      obtain ⟨_, _, _, _, _, _, same, _⟩ := row
      exact same
    simp only [seq_ok, require_ok, mapError_ok] at linked ⊢
    obtain ⟨_, bound, state, read, some_, started, intent⟩ := linked
    refine ⟨(), bound, state, ?_, some_, ?_, ?_⟩
    · exact (submissionState_frame other).trans read
    · unfold submissionStartedMatches at started ⊢
      rw [evidence] at started ⊢
      rw [events]
      exact started
    · unfold intentMatches at intent ⊢
      rw [evidence] at intent ⊢
      rw [decide_eq_true_iff] at intent ⊢
      exact intents.trans intent

/-- The links of a commit verify. -/
theorem verifiedCommitLinks_committed
    (planned : PlannedFrom basis call.lease candidate intent call.usage call.evaluation
      call.request consumptionKey plannedAt call.plan)
    (verified : verifiedRiskRows basis tables.risks = .ok ())
    (linked : verifiedCommitLinks basis tables = .ok ())
    (newRisk : tables.risks.lookup call.request.idempotencyKey = none)
    (newAttempt : tables.ledger.events call.request.idempotencyKey = []) :
    verifiedCommitLinks basis (committedTables basis tables call epoch) = .ok () := by
  have committed := committed_of_verifyPlan planned.planVerified
  have key : call.plan.terms.idempotencyKey = call.request.idempotencyKey := by
    rw [planned.terms]; rfl
  have kind : (authorityRow basis call.lease call.plan epoch.bindings
      (call.trustedGlobalRowCount + 1) (some call.trustedLatestGlobalRowSha256)).eventType =
        .consumptionCommitted := congrArg EventDetail.eventType committed.detail
  have grown : consumptionEvents (committedTables basis tables call epoch).authority =
      consumptionEvents tables.authority ++ [(call.plan.consumption, call.plan.event)] := by
    change List.filterMap _ (tables.authority ++ [_]) = _
    rw [List.filterMap_append]
    congr 1
    rw [List.filterMap_cons, List.filterMap_nil, if_pos kind]
    have consumes : (authorityRow basis call.lease call.plan epoch.bindings
        (call.trustedGlobalRowCount + 1) (some call.trustedLatestGlobalRowSha256)).eventPayload.detail =
          .consumptionCommitted call.plan.consumption := committed.detail
    rw [consumes]
    rfl
  simp only [verifiedCommitLinks, seq_ok, require_ok, forM_ok] at linked ⊢
  obtain ⟨_, ⟨typed, distinct⟩, _, listed, links⟩ := linked
  have other : ∀ consumed ∈ consumptionEvents tables.authority,
      consumed.1.idempotencyKey ≠ call.request.idempotencyKey := by
    intro consumed member same
    have link := links consumed member
    unfold verifyCommitLink at link
    rw [same, newRisk] at link
    cases link
  rw [grown]
  refine ⟨(), ⟨?_, ?_⟩, (), ?_, ?_⟩
  · refine List.forall_mem_append.mpr ⟨typed, List.forall_mem_singleton.mpr fun _ => ⟨?_, rfl⟩⟩
    change call.plan.event.detail.consumption?.isSome = true
    rw [committed.detail]
    rfl
  · rw [List.map_append]
    refine nodup_append_singleton distinct ?_
    intro member
    obtain ⟨consumed, earlier, same⟩ := List.mem_map.mp member
    exact other consumed earlier (same.trans key)
  · intro stored member
    rw [List.map_append, List.mem_append]
    rcases (AList.mem_insert _).mp (AList.mem_keys.mpr member) with rfl | earlier
    · exact .inr (List.mem_singleton_self _)
    · exact .inl (listed stored (AList.mem_keys.mp earlier))
  · rw [List.forall_mem_append, List.forall_mem_singleton]
    refine ⟨fun consumed member => ?_, ?_⟩
    · exact verifyCommitLink_frame verified key (other consumed member) (links consumed member)
    · have started : submissionStartedMatches (committedTables basis tables call epoch).ledger
          call.plan = true := (matches_committed planned newAttempt).1
      have intent : intentMatches (committedTables basis tables call epoch).ledger call.plan =
          true := (matches_committed planned newAttempt).2
      have stored : (committedTables basis tables call epoch).risks.lookup
          call.plan.consumption.idempotencyKey =
            some (riskRow basis call.lease call.evaluation call.plan) := AList.lookup_insert _
      unfold verifyCommitLink
      rw [stored]
      simp only [seq_ok, require_ok, mapError_ok]
      refine ⟨(), ⟨rfl, rfl, ?_, ?_, ?_⟩, some .uncertain, ?_, rfl, started, intent⟩
      · change call.lease.leaseId = call.plan.expectedConsumptionEvent.leaseId
        rw [committed.consumption]
        exact (congrArg Eligibility.leaseId planned.terms).symm
      · change call.lease.accountId = call.plan.expectedConsumptionEvent.accountId
        rw [committed.consumption]
        exact (congrArg Eligibility.accountId planned.terms).symm
      · exact (congrArg Eligibility.riskEvaluationSha256 planned.terms).symm
      · change submissionState basis.sha256 _ call.plan.terms.idempotencyKey = _
        rw [key]
        exact submissionState_submissionBegun newAttempt

theorem events_of_submissionState_none {sha256 : Payload Digest → Digest}
    {ledger : BrokerLedger Digest} {key : Identifier}
    (read : submissionState sha256 ledger key = .ok none) : ledger.events key = [] := by
  obtain ⟨found, events, nothing⟩ := map_ok.mp read
  obtain ⟨_, empty⟩ | ⟨_, rfl, _⟩ | ⟨_, _, rfl, _⟩ := submissionEvents_cases events
  · exact empty
  · cases nothing
  · cases nothing

/-- A plan that is no replay of a retained row is new to every table that is asked. -/
theorem exactReplay_cases {risk : RiskRow Digest} {plan : ConsumptionPlan Digest}
    {lease : PaperAuthorityLease Digest} {replay : Option (RetainedRow Digest)}
    (replayed : exactReplay basis tables risk lease epoch plan = .ok replay) :
    (∃ retained ∈ tables.authority,
      retained = authorityRow basis lease plan epoch.bindings retained.globalSequence
        retained.priorGlobalRowSha256) ∨
      replay = none ∧
      (∀ row ∈ tables.authority, row.eventSha256 ≠ plan.expectedConsumptionEventSha256) ∧
      tables.risks.lookup plan.terms.idempotencyKey = none ∧
      tables.ledger.events plan.terms.idempotencyKey = [] ∧
      intentMatches tables.ledger plan = false := by
  simp only [exactReplay, seq_ok, mapError_ok] at replayed
  obtain ⟨state, read, replayed⟩ := replayed
  split at replayed
  · rename_i row found
    refine .inl ?_
    split at found
    · rename_i retained single
      split at found
      · rename_i same
        have member : retained ∈ tables.authority.filter _ := single ▸ List.mem_singleton_self _
        exact ⟨retained, List.mem_of_mem_filter member, same.1⟩
      · cases found
    · cases found
  · simp only [seq_ok, require_ok] at replayed
    obtain ⟨_, ⟨unmatched, risk, rfl, intent⟩, ⟨⟩⟩ := replayed
    refine .inr ⟨rfl, ?_, risk, events_of_submissionState_none read, intent⟩
    intro row listed same
    exact List.filter_eq_nil_iff.mp unmatched row listed (decide_eq_true same)

theorem exactReplay_new {risk : RiskRow Digest} {plan : ConsumptionPlan Digest}
    {lease : PaperAuthorityLease Digest}
    (newEvent : ∀ row ∈ tables.authority, row.eventSha256 ≠ plan.expectedConsumptionEventSha256)
    (newRisk : tables.risks.lookup plan.terms.idempotencyKey = none)
    (newAttempt : tables.ledger.events plan.terms.idempotencyKey = [])
    (newIntent : intentMatches tables.ledger plan = false) :
    exactReplay basis tables risk lease epoch plan = .ok none := by
  have unmatched : tables.authority.filter
      (fun row => row.eventSha256 = plan.expectedConsumptionEventSha256) = [] :=
    List.filter_eq_nil_iff.mpr fun row listed same => newEvent row listed (of_decide_eq_true same)
  have read : submissionState basis.sha256 tables.ledger plan.terms.idempotencyKey = .ok none := by
    unfold submissionState submissionEvents
    rw [newAttempt]
    rfl
  simp only [exactReplay, seq_ok, mapError_ok]
  refine ⟨none, read, ?_⟩
  rw [unmatched]
  simp only [seq_ok, require_ok]
  exact ⟨(), ⟨trivial, newRisk, trivial, newIntent⟩, rfl⟩

/-- What is known when a plan was built on the retained history of its lease. -/
structure BuiltOn (basis : Primitives Digest) (tables : PaperTables Digest)
    (call : PreCall Digest) (epoch : RetainedAuthorityEpoch Digest)
    (candidate : CandidateAssessment Digest) (intent : IntentBindings Digest)
    (consumptionKey : Identifier) (plannedAt observedAt : Instant) : Prop where
  held : transactionState basis tables call.lease call.trustedGlobalRowCount
    call.trustedLatestGlobalRowSha256 = .ok epoch
  own : epoch.lease = call.lease
  current : loadRuntimeControl basis call.processEpoch tables.ledger call.lease.accountId =
    .ok call.runtime
  loads : epochUsage basis call.lease epoch call.runtime.runtimeEpochSha256 call.runtime.control
    observedAt = .ok call.usage
  planned : PlannedFrom basis call.lease candidate intent call.usage call.evaluation call.request
    consumptionKey plannedAt call.plan

theorem BuiltOn.loadedFrom
    (built : BuiltOn basis tables call epoch candidate intent consumptionKey plannedAt observedAt) :
    ∃ spent, LoadedFrom epoch.events call.runtime.runtimeEpochSha256 call.runtime.control observedAt
      spent call.usage := by
  obtain ⟨first, rest, shape, loads⟩ := exists_cons_of_epochUsage built.loads
  obtain ⟨_, spent, _, from_⟩ := opened_of_loadOpenUsage loads
  exact ⟨spent, shape ▸ from_⟩

theorem transactionState_ok {lease : PaperAuthorityLease Digest} {count : Nat} {head : Digest}
    (held : transactionState basis tables lease count head = .ok epoch) :
    ∃ found, verifiedAuthorityRows basis tables lease.accountId = .ok found ∧
      found.lookup lease.leaseId = some epoch ∧
      (tables.authority.length = count ∧
        tables.authority.getLast?.map RetainedRow.rowSha256 = some head) ∧
      verifiedRiskRows basis tables.risks = .ok () ∧
      verifiedCommitLinks basis tables = .ok () := by
  simp only [transactionState, seq_ok] at held
  obtain ⟨found, rows, held⟩ := held
  split at held
  · cases held
  · rename_i epoch stored
    simp only [seq_ok, require_ok] at held
    obtain ⟨_, head, _, risks, _, links, ⟨⟩⟩ := held
    exact ⟨found, rows, stored, head, risks, links⟩

/-- The inputs of a call for a plan that was built on the current history verify. -/
theorem BuiltOn.inputs
    (built : BuiltOn basis tables call epoch candidate intent consumptionKey plannedAt observedAt) :
    verifyInputs basis call = .ok () := by
  have planned := built.planned
  obtain ⟨spent, from_⟩ := built.loadedFrom
  have runtime : verifyRuntimeControl basis call.processEpoch call.runtime call.lease.accountId =
      .ok () := by
    have current := built.current
    simp only [loadRuntimeControl, seq_ok] at current
    obtain ⟨status, _, current⟩ := current
    split at current
    · cases current
    · simp only [seq_ok] at current
      obtain ⟨_, _, control, _, loaded⟩ := current
      unfold verifyRuntimeControl
      rw [require_ok, ← Except.ok.inj loaded]
      exact ⟨rfl, rfl, rfl, rfl⟩
  simp only [verifyInputs, seq_ok, require_ok, mapError_ok]
  refine ⟨(), planned.usageVerified, (), planned.evaluationVerified, (), runtime, (),
    planned.planVerified, congrArg Eligibility.leaseId planned.terms,
    congrArg Eligibility.leaseSha256 planned.terms, congrArg Eligibility.accountId planned.terms,
    congrArg Eligibility.mode planned.terms, congrArg Eligibility.usageEvidenceSha256 planned.terms,
    congrArg Eligibility.transcriptSha256 planned.terms,
    congrArg Eligibility.riskEvaluationSha256 planned.terms, ?_, planned.brokerIntent, ?_,
    from_.control.symm, ?_, ?_⟩
  · rw [planned.evaluationRequest, planned.terms]
    rfl
  · exact fun different => different.1 from_.runtime.symm
  · rw [planned.evaluationControl.1, from_.control]
  · rw [planned.evaluationControl.2, from_.control]

/-- A retained event has a lower sequence number than the one that a plan adds. -/
theorem BuiltOn.not_retained
    (built : BuiltOn basis tables call epoch candidate intent consumptionKey plannedAt observedAt)
    {row : RetainedRow Digest} (listed : row ∈ tables.authority) (sequence : Nat)
    (prior : Option Digest) :
    row ≠ authorityRow basis call.lease call.plan epoch.bindings sequence prior := by
  rintro rfl
  obtain ⟨found, rows, stored, _⟩ := transactionState_ok built.held
  obtain ⟨spent, from_⟩ := built.loadedFrom
  simp only [verifiedAuthorityRows, epochs, seq_ok, mapError_ok] at rows
  obtain ⟨_, _, scan, folded, _, _, ⟨⟩⟩ := rows
  have member : call.plan.event ∈ epoch.events := by
    rw [(scanned_of_foldlM folded).events _ epoch stored]
    exact List.mem_map.mpr ⟨_, List.mem_filter.mpr ⟨listed, decide_eq_true rfl⟩, rfl⟩
  have below := (scanReached_of_foldlM folded).numbered _ epoch stored _ member
  have numbered : call.plan.event.eventSequence = epoch.events.length + 1 := by
    change call.plan.expectedConsumptionEvent.eventSequence = _
    rw [(committed_of_verifyPlan built.planned.planVerified).consumption, ← from_.eventCount,
      ← built.planned.sequence]
    rfl
  omega

/-- The plan of a committable order is committed. -/
theorem BuiltOn.commits
    (built : BuiltOn basis tables call epoch candidate intent consumptionKey plannedAt observedAt)
    (intact : call.fault = none)
    (after : ∀ row ∈ tables.authority, row.eventPayload.occurredAt ≤ plannedAt)
    (recorded : plannedAt ≤ call.now) (fresh : call.now < call.evaluation.riskExpiresAt)
    (unexpired : call.now < call.lease.expiresAt)
    (committable : Committable basis tables call.lease candidate intent call.usage call.evaluation
      call.request consumptionKey plannedAt) :
    ∃ result, recordPreCall basis tables call =
      .ok (result, committedTables basis tables call epoch) := by
  have planned := built.planned
  have committed := committed_of_verifyPlan planned.planVerified
  obtain ⟨found, rows, stored, head, risks, links⟩ := transactionState_ok built.held
  obtain ⟨spent, from_⟩ := built.loadedFrom
  have key : call.plan.terms.idempotencyKey = call.request.idempotencyKey :=
    congrArg Eligibility.idempotencyKey planned.terms
  have time : call.plan.terms.plannedAt = plannedAt := congrArg Eligibility.plannedAt planned.terms
  have free : ∀ step, statement call.fault step = .ok () := by
    intro step
    unfold statement
    rw [require_ok, intact]
    simp
  have events : epoch.events = eventsUnder tables.authority call.lease.leaseId := by
    simp only [verifiedAuthorityRows, seq_ok, mapError_ok] at rows
    obtain ⟨_, _, rows⟩ := rows
    exact (exists_row_of_epoch rows stored).1
  have later : ∀ event ∈ epoch.events, event.occurredAt ≤ plannedAt := by
    rw [events]
    intro event member
    obtain ⟨row, listed, rfl⟩ := List.mem_map.mp member
    exact after row (List.mem_of_mem_filter listed)
  obtain ⟨next, rowsAfter, storedAfter⟩ := verifiedAuthorityRows_committed planned rows stored
    built.own from_.eventCount head committable.rowsLeft
  obtain ⟨loaded, usage, sequence, latest, orders, notional⟩ := reopened_usage built.loads planned
    later recorded unexpired committable.ordersLeft committable.notionalLeft
  have replayed : exactReplay basis tables (riskRow basis call.lease call.evaluation call.plan)
      call.lease epoch call.plan = .ok none := by
    refine exactReplay_new ?_ (key ▸ committable.newRisk) (key ▸ committable.newAttempt) ?_
    · rw [← committed.eventHash, planned.event]
      exact committable.newEvent
    · unfold intentMatches
      rw [key, committable.newIntent]
      rfl
  have reading : verifyResultingCommit basis tables (committedTables basis tables call epoch) call
      (authorityRow basis call.lease call.plan epoch.bindings (call.trustedGlobalRowCount + 1)
        (some call.trustedLatestGlobalRowSha256))
      (riskRow basis call.lease call.evaluation call.plan) = .ok () := by
    simp only [verifyResultingCommit, seq_ok]
    refine ⟨next, rowsAfter, (), ?_, ?_⟩
    · exact verifiedRiskRows_insert risks (key ▸ committable.newRisk) committable.risksLeft
        (verifiedRiskRow_committed planned) committable.newEvaluation
    · rw [storedAfter]
      simp only [seq_ok, mapError_ok, require_ok]
      refine ⟨loaded, usage, some .uncertain,
        submissionState_submissionBegun committable.newAttempt, (),
        ⟨rfl, rfl, sequence, latest, orders, notional, rfl,
          (matches_committed planned committable.newAttempt).1⟩, ?_⟩
      exact verifiedCommitLinks_committed planned risks links committable.newRisk
        committable.newAttempt
  have actual : actualUsage basis call.lease epoch call.usage = .ok call.usage := by
    unfold actualUsage
    rw [from_.runtime, from_.control, from_.observedAt]
    exact seq_ok.mpr ⟨call.usage, mapError_ok.mpr built.loads,
      seq_ok.mpr ⟨(), require_ok.mpr rfl, rfl⟩⟩
  have begun : beginSubmission basis.sha256 tables.ledger call.request call.plan.terms.plannedAt =
      .ok (.uncertain, (committedTables basis tables call epoch).ledger) :=
    beginSubmission_new committable.newIntent committable.newAttempt
  have trusted : 1 ≤ call.trustedGlobalRowCount := by
    rw [← head.1]
    refine Nat.one_le_iff_ne_zero.mpr fun empty => ?_
    rw [List.length_eq_zero_iff.mp empty] at head
    cases head.2
  refine ⟨preCallResult basis call.lease call.plan (authorityRow basis call.lease call.plan
    epoch.bindings (call.trustedGlobalRowCount + 1) (some call.trustedLatestGlobalRowSha256)), ?_⟩
  simp only [recordPreCall, seq_ok, require_ok]
  refine ⟨(), built.inputs, (), trusted, epoch, built.held, none, replayed, ?_⟩
  simp only [commitNew, seq_ok, require_ok, mapError_ok]
  exact ⟨call.runtime, built.current, (), rfl, call.usage, actual, (), planned.prior.symm, (),
    ⟨time ▸ recorded, fresh, unexpired⟩, (), free _, (), free _, (),
    ⟨key ▸ committable.newRisk, committable.newEvaluation⟩, (), free _, _, begun, (), reading, (),
    free _, rfl⟩

/-- Only the plan of a committable order is committed. -/
theorem BuiltOn.committable
    (built : BuiltOn basis tables call epoch candidate intent consumptionKey plannedAt observedAt)
    {result : PreCallResult Digest} {after : PaperTables Digest}
    (recorded : recordPreCall basis tables call = .ok (result, after)) :
    Committable basis tables call.lease candidate intent call.usage call.evaluation call.request
      consumptionKey plannedAt ∧ after = committedTables basis tables call epoch := by
  have planned := built.planned
  have committed := committed_of_verifyPlan planned.planVerified
  simp only [recordPreCall, seq_ok] at recorded
  obtain ⟨_, _, _, _, held, transaction, replay, replayed, finished⟩ := recorded
  cases Except.ok.inj (transaction.symm.trans built.held)
  obtain ⟨retained, listed, same⟩ | ⟨rfl, newEvent, newRisk, newAttempt, otherIntent⟩ :=
    exactReplay_cases replayed
  · exact absurd same (built.not_retained listed _ _)
  · change commitNew basis tables call epoch (riskRow basis call.lease call.evaluation call.plan) =
      .ok (result, after) at finished
    simp only [commitNew, seq_ok, require_ok, mapError_ok] at finished
    obtain ⟨_, _, _, _, _, _, _, _, _, _, _, _, _, _, _, ⟨_, newEvaluation⟩, _, _, begun, starts, _,
      reading, _, _, finished⟩ := finished
    have key : call.plan.terms.idempotencyKey = call.request.idempotencyKey :=
      congrArg Eligibility.idempotencyKey planned.terms
    rw [key] at newRisk newAttempt
    have newIntent : tables.ledger.intents.lookup call.request.idempotencyKey = none := by
      refine Option.eq_none_iff_forall_ne_some.mpr fun stored found => ?_
      obtain ⟨recorded, records, _⟩ := bind_ok.mp starts
      unfold recordIntent at records
      rw [found] at records
      dsimp only at records
      split at records
      · cases records
      · rename_i same
        unfold intentMatches at otherIntent
        rw [key, found, planned.brokerIntent, ← committed.intentHash, planned.brokerIntent,
          not_not.mp same] at otherIntent
        exact of_decide_eq_false otherIntent rfl
    have same := Except.ok.inj (starts.symm.trans (beginSubmission_new newIntent newAttempt))
    subst same
    cases finished
    refine ⟨?_, rfl⟩
    simp only [verifyResultingCommit, seq_ok] at reading
    obtain ⟨next, rows, _, risks, reading⟩ := reading
    split at reading
    · cases reading
    · simp only [seq_ok, require_ok, mapError_ok] at reading
      obtain ⟨loaded, usage, _, _, _, ⟨_, _, _, _, orders, notional, _⟩, _⟩ := reading
      obtain ⟨ordersLeft, notionalLeft⟩ := capacityLeft_of_epochUsage usage
      rw [orders, planned.terms] at ordersLeft
      rw [notional, planned.terms] at notionalLeft
      refine ⟨ordersLeft, notionalLeft, ?_, newRisk, newEvaluation, newIntent, newAttempt, ?_, ?_⟩
      · rw [← planned.event, committed.eventHash]
        exact newEvent
      · simp only [verifiedAuthorityRows, seq_ok, require_ok] at rows
        obtain ⟨_, room, _⟩ := rows
        rw [List.length_append] at room
        exact room
      · simp only [verifiedRiskRows, seq_ok, require_ok] at risks
        obtain ⟨_, room, _⟩ := risks
        rw [key, AList.entries_insert_of_notMem (AList.lookup_eq_none.mp newRisk)] at room
        exact room

end Commit

/-- A plan that was built on the retained history of its lease, at an instant that precedes
no retained event, and that is recorded on the unchanged history before it is stale, is
committed exactly when its order leaves something of the lease, is new to every table and
there is room for its rows. -/
theorem builtPlan_committed_iff (basis : Primitives Digest)
    (verifyCandidate : CandidateVerifier Digest) (tables : PaperTables Digest)
    (call : PreCall Digest) (epoch : RetainedAuthorityEpoch Digest)
    (candidate : CandidateAssessment Digest) (intent : IntentBindings Digest)
    (consumptionKey : Identifier) (trustedCandidate trustedIntent : Digest)
    (plannedAt observedAt : Instant)
    (held : transactionState basis tables call.lease call.trustedGlobalRowCount
      call.trustedLatestGlobalRowSha256 = .ok epoch)
    (own : epoch.lease = call.lease)
    (current : loadRuntimeControl basis call.processEpoch tables.ledger call.lease.accountId =
      .ok call.runtime)
    (loads : epochUsage basis call.lease epoch call.runtime.runtimeEpochSha256
      call.runtime.control observedAt = .ok call.usage)
    (built : buildPlan basis verifyCandidate call.lease candidate intent call.usage
      call.evaluation call.request consumptionKey trustedCandidate trustedIntent plannedAt =
        .ok call.plan)
    (intact : call.fault = none)
    (after : ∀ row ∈ tables.authority, row.eventPayload.occurredAt ≤ plannedAt)
    (recorded : plannedAt ≤ call.now) (fresh : call.now < call.evaluation.riskExpiresAt)
    (unexpired : call.now < call.lease.expiresAt) :
    ((∃ result, recordPreCall basis tables call =
        .ok (result, committedTables basis tables call epoch)) ↔
      Committable basis tables call.lease candidate intent call.usage call.evaluation call.request
        consumptionKey plannedAt) ∧
    ∀ result committed, recordPreCall basis tables call = .ok (result, committed) →
      committed = committedTables basis tables call epoch := by
  have on : BuiltOn basis tables call epoch candidate intent consumptionKey plannedAt observedAt :=
    ⟨held, own, current, loads, planned_of_buildPlan built⟩
  refine ⟨⟨?_, ?_⟩, ?_⟩
  · rintro ⟨result, commits⟩
    exact (on.committable commits).1
  · exact on.commits intact after recorded fresh unexpired
  · intro result committed commits
    exact (on.committable commits).2

/-- The plan for 1000 of a lease of 1500 is committed. -/
theorem thousandPlan_committed :
    ∃ result, recordPreCall textPrimitives sampleTables (sampleCall 1000 thousandPlan) =
      .ok (result, committedTables textPrimitives sampleTables (sampleCall 1000 thousandPlan)
        sampleEpoch) :=
  (builtPlan_committed_iff textPrimitives (fun _ _ _ => .ok ()) sampleTables
    (sampleCall 1000 thousandPlan) sampleEpoch ⟨5, "", "candidate"⟩ sampleIntent
    ⟨"consumption-1", by decide⟩ "candidate" (paperDigest (.intentBindings sampleIntent)) 40 20
    (held_eq _ _) (by decide +kernel) (held_eq _ _) (held_eq _ _) (held_eq _ _) rfl
    (by decide +kernel) (by decide) (by decide) (by decide)).1.mpr
    { ordersLeft := by decide +kernel
      notionalLeft := by decide +kernel
      newEvent := by decide +kernel
      newRisk := rfl
      newEvaluation := by decide +kernel
      newIntent := rfl
      newAttempt := rfl
      rowsLeft := by decide +kernel
      risksLeft := by decide +kernel }

/-- A plan for all that the lease allows. -/
def wholePlan : ConsumptionPlan String := held (samplePlan 1500) (by decide +kernel)

/-- The plan that uses up the lease is built on the history that it is recorded on, and its
commit is refused when it is read back. -/
theorem wholePlan_refused :
    samplePlan 1500 = .ok wholePlan ∧
      (recordPreCall textPrimitives sampleTables (sampleCall 1500 wholePlan)).isOk = false := by
  refine ⟨held_eq _ _, ?_⟩
  decide +kernel

end TradingEngine.Broker
