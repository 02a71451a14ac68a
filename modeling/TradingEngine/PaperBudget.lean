import TradingEngine.PaperPreCall
import TradingEngine.SubmitOnce

/-!
# Paper leases are never overspent

Whatever calls are made, in whatever order and with whatever arguments, the
consumptions retained under a lease stay within it. A commit is read back through the
verifier of the transcript and the links to the other tables, so one commit that
succeeds says all there is to say about its own lease; about the other leases it
changes nothing.
-/

namespace TradingEngine.Broker

open KeyedTables Runs

variable {Digest : Type} [DecidableEq Digest]

/-- What happens to the tables: a call, another writer's row under the next global
sequence, or halts. No other writer retains a consumption. -/
inductive PaperAct (Digest : Type) where
  | preCall (call : PreCall Digest)
  | retain (row : RetainedRow Digest)
  | halt (events : List (HaltEvent Digest))

def paperStep (basis : Primitives Digest) (tables : PaperTables Digest) :
    PaperAct Digest → PaperTables Digest
  | .preCall call => (preCall basis tables call).2
  | .retain row =>
    if row.eventPayload.detail.eventType = .consumptionCommitted then tables
    else { tables with authority :=
      tables.authority ++ [{ row with globalSequence := tables.authority.length + 1 }] }
  | .halt events =>
    { tables with ledger :=
      { tables.ledger with controlEvents := tables.ledger.controlEvents ++ events } }

/-- The events retained under a lease. -/
def eventsUnder (rows : List (RetainedRow Digest)) (leaseId : Identifier) :
    List (AuthorityEvent Digest) :=
  (rows.filter fun row => row.leaseId = leaseId).map fun row => row.eventPayload

/-- The consumptions of one lease stay within it. -/
structure WithinLease (lease : PaperAuthorityLease Digest)
    (events : List (AuthorityEvent Digest)) : Prop where
  orders : (consumptions events).length ≤ lease.maxOrders
  total : ((consumptions events).map Consumption.orderNotional).sum ≤ lease.capitalCeiling
  each : ∀ consumption ∈ consumptions events, consumption.orderNotional ≤ lease.maxOrderNotional
  consumptionKeys : ((consumptions events).map Consumption.consumptionKey).Nodup
  idempotencyKeys : ((consumptions events).map Consumption.idempotencyKey).Nodup
  requestHashes : ((consumptions events).map Consumption.requestSha256).Nodup
  inTime : ∀ event ∈ events, event.detail.eventType = .consumptionCommitted →
    event.occurredAt < lease.expiresAt
  unrevoked : events.Pairwise fun earlier later =>
    later.detail.eventType = .consumptionCommitted →
      earlier.detail.eventType ≠ .revocationRecorded

/-- A consumption has its one risk row, its one intent and its one submission marker.
The tables of risk rows and intents hold at most one row under a key. -/
structure Recorded (tables : PaperTables Digest) (event : AuthorityEvent Digest)
    (consumption : Consumption Digest) : Prop where
  risk : ∃ row, tables.risks.lookup consumption.idempotencyKey = some row ∧
    row.atomicBundlePayload.expectedConsumptionEvent = event.toEventBody
  intent : ∃ row, tables.ledger.intents.lookup consumption.idempotencyKey = some row
  started : ((tables.ledger.events consumption.idempotencyKey).filter fun attempt =>
    attempt.eventType = .submissionStarted).length = 1

/-- Every retained consumption is within the lease that it was retained with, and is
recorded in the other tables. -/
def NeverOverspent (tables : PaperTables Digest) : Prop :=
  ∀ row ∈ tables.authority, ∀ consumption ∈ row.eventPayload.detail.consumption?,
    WithinLease row.leasePayload (eventsUnder tables.authority row.leaseId) ∧
      Recorded tables row.eventPayload consumption

section Folds

/-- A fold that ends with one more step succeeds when the shorter one and the step do. -/
theorem foldlM_concat_ok {ε σ α : Type} {step : σ → α → Except ε σ} {elements : List α}
    {last : α} {state final : σ} :
    (elements ++ [last]).foldlM step state = .ok final ↔
      ∃ reached, elements.foldlM step state = .ok reached ∧ step reached last = .ok final := by
  rw [List.foldlM_append, seq_ok]
  refine exists_congr fun reached => and_congr_right fun _ => ?_
  rw [List.foldlM_cons, seq_ok]
  constructor
  · rintro ⟨next, stepped, ⟨⟩⟩
    exact stepped
  · intro stepped
    exact ⟨final, stepped, rfl⟩

/-- A computation for each element succeeds when each one does. -/
theorem forM_ok {ε α : Type} {check : α → Except ε Unit} {elements : List α} {done : Unit} :
    elements.forM check = .ok done ↔ ∀ element ∈ elements, check element = .ok () := by
  induction elements with
  | nil => exact iff_of_true rfl fun _ listed => nomatch listed
  | cons element rest ih =>
    change (check element >>= fun _ => rest.forM check) = .ok done ↔ _
    rw [seq_ok, List.forall_mem_cons, ← ih]
    constructor
    · rintro ⟨_, first, others⟩
      exact ⟨first, others⟩
    · rintro ⟨first, others⟩
      exact ⟨(), first, others⟩

theorem nodup_append_singleton {α : Type} {values : List α} {value : α} (distinct : values.Nodup)
    (new : value ∉ values) : (values ++ [value]).Nodup :=
  distinct.append (List.nodup_singleton value) (List.disjoint_singleton.mpr new)

end Folds

section Transcript

variable {basis : Primitives Digest}

omit [DecidableEq Digest] in
theorem consumptions_append (events : List (AuthorityEvent Digest))
    (event : AuthorityEvent Digest) :
    consumptions (events ++ [event]) =
      consumptions events ++ event.detail.consumption?.toList := by
  unfold consumptions
  rw [List.filterMap_append]
  cases found : event.detail.consumption? with
  | none => simp [found]
  | some consumption => simp [found]

/-- What the counters of a verified transcript stand for. -/
structure Spent (lease : PaperAuthorityLease Digest) (events : List (AuthorityEvent Digest))
    (state : SpendingState Digest) : Prop where
  count : state.consumedCount = (consumptions events).length
  notional : state.consumedNotional = ((consumptions events).map Consumption.orderNotional).sum
  consumptionKeys : state.consumptionKeys = (consumptions events).map Consumption.consumptionKey
  idempotencyKeys : state.idempotencyKeys = (consumptions events).map Consumption.idempotencyKey
  requestHashes : state.requestHashes = (consumptions events).map Consumption.requestSha256
  within : WithinLease lease events
  nonneg : 0 ≤ state.consumedNotional
  unrevoked : state.revokedControl = none →
    ∀ event ∈ events, event.detail.eventType ≠ .revocationRecorded

omit [DecidableEq Digest] in
/-- An activation spends nothing. -/
theorem spent_activation (lease : PaperAuthorityLease Digest) {first : AuthorityEvent Digest}
    (activates : first.detail.eventType = .activationRecorded) : Spent lease [first] .initial := by
  have none : consumptions [first] = [] := by
    cases kind : first.detail with
    | activationRecorded => simp [consumptions, kind, EventDetail.consumption?]
    | consumptionCommitted => rw [kind] at activates; cases activates
    | revocationRecorded => rw [kind] at activates; cases activates
  exact
    { count := by rw [none]; rfl
      notional := by rw [none]; rfl
      consumptionKeys := by rw [none]; rfl
      idempotencyKeys := by rw [none]; rfl
      requestHashes := by rw [none]; rfl
      within :=
        { orders := by rw [none]; exact Nat.zero_le _
          total := by rw [none]; exact (lease.notionalPositive.le).trans lease.withinCeiling
          each := by rw [none]; exact fun _ listed => nomatch listed
          consumptionKeys := by rw [none]; exact .nil
          idempotencyKeys := by rw [none]; exact .nil
          requestHashes := by rw [none]; exact .nil
          inTime := by
            rw [List.forall_mem_singleton, activates]
            nofun
          unrevoked := List.pairwise_singleton _ _ }
      nonneg := le_rfl
      unrevoked := by
        rw [List.forall_mem_singleton, activates]
        nofun }

theorem verifiedConsumption_ok {lease : PaperAuthorityLease Digest}
    {state next : SpendingState Digest} {consumption : Consumption Digest} :
    verifiedConsumption lease state consumption = .ok next ↔
      consumption.submissionState = .uncertain ∧
      (consumption.consumptionKey ∉ state.consumptionKeys ∧
        consumption.idempotencyKey ∉ state.idempotencyKeys ∧
        consumption.requestSha256 ∉ state.requestHashes) ∧
      0 < consumption.orderNotional ∧
      (consumption.resultingConsumedOrderCount = state.consumedCount + 1 ∧
        closeTo consumption.resultingConsumedNotional
          (state.consumedNotional + consumption.orderNotional) ∧
        consumption.orderNotional ≤ lease.maxOrderNotional ∧
        state.consumedCount + 1 ≤ lease.maxOrders ∧
        state.consumedNotional + consumption.orderNotional ≤ lease.capitalCeiling) ∧
      { state with
        consumedCount := state.consumedCount + 1
        consumedNotional := state.consumedNotional + consumption.orderNotional
        consumptionKeys := state.consumptionKeys ++ [consumption.consumptionKey]
        idempotencyKeys := state.idempotencyKeys ++ [consumption.idempotencyKey]
        requestHashes := state.requestHashes ++ [consumption.requestSha256] } = next := by
  simp only [verifiedConsumption, seq_ok, require_ok, exists_and_left, exists_const, pure,
    Except.pure, Except.ok.injEq]

omit [DecidableEq Digest] in
theorem eventType_of_consumption {detail : EventDetail Digest} {consumption : Consumption Digest}
    (consumed : detail.consumption? = some consumption) :
    detail.eventType = .consumptionCommitted := by
  cases detail with
  | consumptionCommitted => rfl
  | activationRecorded => cases consumed
  | revocationRecorded => cases consumed

omit [DecidableEq Digest] in
theorem consumptions_append_of_ne {events : List (AuthorityEvent Digest)}
    {event : AuthorityEvent Digest} (other : event.detail.eventType ≠ .consumptionCommitted) :
    consumptions (events ++ [event]) = consumptions events := by
  rw [consumptions_append]
  cases detail : event.detail with
  | revocationRecorded => exact List.append_nil _
  | activationRecorded => exact List.append_nil _
  | consumptionCommitted => exact absurd (by rw [detail]; rfl) other

omit [DecidableEq Digest] in
/-- An event that is no consumption may follow at any time. -/
theorem WithinLease.append {lease : PaperAuthorityLease Digest}
    {events : List (AuthorityEvent Digest)} {event : AuthorityEvent Digest}
    (within : WithinLease lease events)
    (other : event.detail.eventType ≠ .consumptionCommitted) :
    WithinLease lease (events ++ [event]) where
  orders := by rw [consumptions_append_of_ne other]; exact within.orders
  total := by rw [consumptions_append_of_ne other]; exact within.total
  each := by rw [consumptions_append_of_ne other]; exact within.each
  consumptionKeys := by rw [consumptions_append_of_ne other]; exact within.consumptionKeys
  idempotencyKeys := by rw [consumptions_append_of_ne other]; exact within.idempotencyKeys
  requestHashes := by rw [consumptions_append_of_ne other]; exact within.requestHashes
  inTime := by
    rw [List.forall_mem_append, List.forall_mem_singleton]
    exact ⟨within.inTime, fun consumption => absurd consumption other⟩
  unrevoked := by
    refine List.pairwise_append.mpr ⟨within.unrevoked, List.pairwise_singleton _ _, ?_⟩
    intro earlier _ later single consumption
    rw [List.mem_singleton.mp single] at consumption
    exact absurd consumption other

/-- What counting an event asked for: it comes before any revocation and in time, and is
a consumption that the lease still covers or the revocation. -/
theorem usageStep_ok {lease : PaperAuthorityLease Digest} {control : ControlAnchor Digest}
    {state next : SpendingState Digest} {event : AuthorityEvent Digest}
    (stepped : usageStep basis lease control state event = .ok next) :
    state.revokedControl = none ∧ event.occurredAt < lease.expiresAt ∧
      ((∃ consumption, event.detail = .consumptionCommitted consumption ∧
          verifiedConsumption lease state consumption = .ok next) ∨
        event.detail.eventType = .revocationRecorded ∧
          ∃ revoked, next = { state with revokedControl := some revoked }) := by
  simp only [usageStep, seq_ok, require_ok, exists_and_left, exists_const] at stepped
  obtain ⟨open_, first, inTime, counted⟩ := stepped
  refine ⟨open_, inTime, ?_⟩
  cases kind : event.detail with
  | activationRecorded => exact absurd (by rw [kind]; rfl) first
  | consumptionCommitted consumption =>
    rw [kind] at counted
    exact .inl ⟨consumption, rfl, counted⟩
  | revocationRecorded =>
    rw [kind] at counted
    simp only [seq_ok] at counted
    obtain ⟨revoked, _, ⟨⟩⟩ := counted
    exact .inr ⟨rfl, revoked, rfl⟩

omit [DecidableEq Digest] in
theorem Spent.inTime_append {lease : PaperAuthorityLease Digest}
    {events : List (AuthorityEvent Digest)} {state : SpendingState Digest}
    {event : AuthorityEvent Digest} (spent : Spent lease events state)
    (inTime : event.occurredAt < lease.expiresAt) :
    ∀ each ∈ events ++ [event], each.detail.eventType = .consumptionCommitted →
      each.occurredAt < lease.expiresAt := by
  rw [List.forall_mem_append, List.forall_mem_singleton]
  exact ⟨spent.within.inTime, fun _ => inTime⟩

omit [DecidableEq Digest] in
theorem Spent.unrevoked_append {lease : PaperAuthorityLease Digest}
    {events : List (AuthorityEvent Digest)} {state : SpendingState Digest}
    {event : AuthorityEvent Digest} (spent : Spent lease events state)
    (unrevoked : state.revokedControl = none) :
    (events ++ [event]).Pairwise fun earlier later =>
      later.detail.eventType = .consumptionCommitted →
        earlier.detail.eventType ≠ .revocationRecorded := by
  refine List.pairwise_append.mpr ⟨spent.within.unrevoked, List.pairwise_singleton _ _, ?_⟩
  intro earlier listed _ _ _
  exact spent.unrevoked unrevoked earlier listed

/-- Counting one more event keeps the counters true. -/
theorem Spent.step {lease : PaperAuthorityLease Digest} {control : ControlAnchor Digest}
    {events : List (AuthorityEvent Digest)} {state next : SpendingState Digest}
    {event : AuthorityEvent Digest} (spent : Spent lease events state)
    (stepped : usageStep basis lease control state event = .ok next) :
    Spent lease (events ++ [event]) next := by
  obtain ⟨unrevoked, inTime, ⟨consumption, kind, counted⟩ | ⟨kind, revoked, rfl⟩⟩ :=
    usageStep_ok stepped
  · obtain ⟨_, ⟨newKey, newIdempotency, newHash⟩, positive, ⟨_, _, small, few, little⟩, rfl⟩ :=
      verifiedConsumption_ok.mp counted
    have grown : consumptions (events ++ [event]) = consumptions events ++ [consumption] := by
      rw [consumptions_append, kind]
      rfl
    exact
      { count := by rw [grown, List.length_append, spent.count]; rfl
        notional := by rw [grown, List.map_append, List.sum_append, spent.notional]; simp
        consumptionKeys := by rw [grown, List.map_append, spent.consumptionKeys]; rfl
        idempotencyKeys := by rw [grown, List.map_append, spent.idempotencyKeys]; rfl
        requestHashes := by rw [grown, List.map_append, spent.requestHashes]; rfl
        within :=
          { orders := by
              rw [grown, List.length_append, ← spent.count]
              exact few
            total := by
              rw [grown, List.map_append, List.sum_append, ← spent.notional]
              simpa using little
            each := by
              rw [grown, List.forall_mem_append]
              exact ⟨spent.within.each, by simpa using small⟩
            consumptionKeys := by
              rw [grown, List.map_append]
              exact nodup_append_singleton spent.within.consumptionKeys (spent.consumptionKeys ▸ newKey)
            idempotencyKeys := by
              rw [grown, List.map_append]
              exact nodup_append_singleton spent.within.idempotencyKeys (spent.idempotencyKeys ▸ newIdempotency)
            requestHashes := by
              rw [grown, List.map_append]
              exact nodup_append_singleton spent.within.requestHashes (spent.requestHashes ▸ newHash)
            inTime := spent.inTime_append inTime
            unrevoked := spent.unrevoked_append unrevoked }
        nonneg := add_nonneg spent.nonneg positive.le
        unrevoked := by
          intro _
          rw [List.forall_mem_append]
          refine ⟨spent.unrevoked unrevoked, ?_⟩
          rw [List.forall_mem_singleton, kind]
          nofun }
  · have other : event.detail.eventType ≠ .consumptionCommitted := by
      rw [kind]
      nofun
    have same : consumptions (events ++ [event]) = consumptions events :=
      consumptions_append_of_ne other
    exact
      { count := by rw [same, ← spent.count]
        notional := by rw [same, ← spent.notional]
        consumptionKeys := by rw [same, ← spent.consumptionKeys]
        idempotencyKeys := by rw [same, ← spent.idempotencyKeys]
        requestHashes := by rw [same, ← spent.requestHashes]
        within := spent.within.append other
        nonneg := spent.nonneg
        unrevoked := nofun }

theorem Spent.fold {lease : PaperAuthorityLease Digest} {control : ControlAnchor Digest}
    {events later : List (AuthorityEvent Digest)} {state final : SpendingState Digest}
    (spent : Spent lease events state)
    (counted : later.foldlM (usageStep basis lease control) state = .ok final) :
    Spent lease (events ++ later) final := by
  induction later generalizing events state with
  | nil =>
    cases counted
    rwa [List.append_nil]
  | cons event rest ih =>
    obtain ⟨next, stepped, others⟩ := foldlM_cons_ok.mp counted
    rw [List.append_cons]
    exact ih (spent.step stepped) others

theorem eventType_of_activation {bindings : ActivationBindings Digest}
    {first : AuthorityEvent Digest} {control : ControlAnchor Digest}
    (activated : activation bindings first = .ok control) :
    first.detail.eventType = .activationRecorded := by
  unfold activation at activated
  split at activated
  · rename_i kind
    rw [kind]
    rfl
  · cases activated
  · cases activated

theorem spent_of_verifyTranscript {lease : PaperAuthorityLease Digest}
    {events : List (AuthorityEvent Digest)} {bindings : ActivationBindings Digest}
    {currentRuntime : Digest} {currentControl : ControlAnchor Digest} {now : Instant}
    {result : TranscriptBody Digest × Digest}
    (verified : verifyTranscript basis lease events bindings currentRuntime currentControl now =
      .ok result) :
    ∃ state, Spent lease events state ∧ result.1.consumedOrderCount = state.consumedCount ∧
      result.1.consumedNotional = state.consumedNotional := by
  cases events with
  | nil => cases verified
  | cons first rest =>
    simp only [verifyTranscript, verifiedTranscriptEvents, seq_ok] at verified
    obtain ⟨control, ⟨_, _, _, activated, _⟩, state, counted, _, _, ⟨⟩⟩ := verified
    refine ⟨state, ?_, rfl, rfl⟩
    exact (spent_activation lease (eventType_of_activation activated)).fold counted

theorem withinLease_of_loadOpenUsage {lease : PaperAuthorityLease Digest}
    {events : List (AuthorityEvent Digest)} {count : Nat} {latest : Digest}
    {bindings : ActivationBindings Digest} {currentRuntime : Digest}
    {currentControl : ControlAnchor Digest} {now : Instant}
    {loaded : LoadedPaperLeaseUsage Digest}
    (loads : loadOpenUsage basis lease events count latest bindings currentRuntime currentControl
      now = .ok loaded) : WithinLease lease events := by
  simp only [loadOpenUsage, seq_ok, mapError_ok] at loads
  obtain ⟨_, _, _, _, _, _, result, verified, _⟩ := loads
  obtain ⟨state, spent, _⟩ := spent_of_verifyTranscript verified
  exact spent.within

end Transcript

section Epochs

variable {basis : Primitives Digest} {accountId : Identifier}

/-- What a scan knows of the rows that it has passed. -/
structure Scanned (rows : List (RetainedRow Digest)) (scan : EpochScan Digest) : Prop where
  named : ∀ row ∈ rows, row.leaseId = row.leasePayload.leaseId ∧
    row.eventType = row.eventPayload.detail.eventType
  known : ∀ row ∈ rows, ∃ epoch, scan.epochs.lookup row.leaseId = some epoch ∧
    epoch.lease = row.leasePayload
  events : ∀ leaseId epoch, scan.epochs.lookup leaseId = some epoch →
    epoch.events = eventsUnder rows leaseId

omit [DecidableEq Digest] in
theorem eventsUnder_append (rows : List (RetainedRow Digest)) (row : RetainedRow Digest)
    (leaseId : Identifier) :
    eventsUnder (rows ++ [row]) leaseId =
      eventsUnder rows leaseId ++ if row.leaseId = leaseId then [row.eventPayload] else [] := by
  unfold eventsUnder
  rw [List.filter_append, List.map_append]
  by_cases same : row.leaseId = leaseId
  · simp [same]
  · simp [same]

omit [DecidableEq Digest] in
theorem Scanned.eventsUnder_eq_nil {rows : List (RetainedRow Digest)} {scan : EpochScan Digest}
    (scanned : Scanned rows scan) {leaseId : Identifier}
    (unknown : scan.epochs.lookup leaseId = none) : eventsUnder rows leaseId = [] := by
  unfold eventsUnder
  rw [List.map_eq_nil_iff, List.filter_eq_nil_iff]
  intro row listed same
  obtain ⟨epoch, found, _⟩ := scanned.known row listed
  rw [of_decide_eq_true same, unknown] at found
  cases found

/-- Passing one more row keeps what the scan knows. -/
theorem Scanned.step {rows : List (RetainedRow Digest)} {scan next : EpochScan Digest}
    {row : RetainedRow Digest} (scanned : Scanned rows scan)
    (stepped : retainStep basis accountId scan row = .ok next) : Scanned (rows ++ [row]) next := by
  simp only [retainStep, seq_ok, require_ok, exists_and_left, exists_const] at stepped
  obtain ⟨_, _, _, ⟨_, _, named, _, _, _, _, _, _, typed, _⟩, _, ⟨sameLease, _⟩, ⟨⟩⟩ := stepped
  have found : ∀ leaseId, leaseId ≠ row.leasePayload.leaseId →
      ∀ epoch : RetainedAuthorityEpoch Digest, AList.lookup leaseId 
        (scan.epochs.insert row.leasePayload.leaseId epoch) = scan.epochs.lookup leaseId :=
    fun leaseId other epoch => AList.lookup_insert_ne other
  constructor
  · rw [List.forall_mem_append, List.forall_mem_singleton]
    exact ⟨scanned.named, named, typed.symm⟩
  · rw [List.forall_mem_append, List.forall_mem_singleton]
    refine ⟨fun earlier listed => ?_, _, by rw [named]; exact AList.lookup_insert scan.epochs,
      ?_⟩
    on_goal 2 => exact sameLease
    obtain ⟨epoch, stored, lease⟩ := scanned.known earlier listed
    by_cases same : earlier.leaseId = row.leasePayload.leaseId
    · refine ⟨_, by rw [same]; exact AList.lookup_insert scan.epochs, ?_⟩
      rw [same] at stored
      simpa only [stored, Option.getD_some] using lease
    · exact ⟨epoch, by rw [found _ same]; exact stored, lease⟩
  · intro leaseId epoch stored
    rw [eventsUnder_append, named]
    by_cases same : leaseId = row.leasePayload.leaseId
    · subst same
      rw [AList.lookup_insert, Option.some.injEq] at stored
      rw [← stored, if_pos rfl]
      change _ ++ [row.eventPayload] = _ ++ [row.eventPayload]
      cases earlier : scan.epochs.lookup row.leasePayload.leaseId with
      | none => rw [scanned.eventsUnder_eq_nil earlier]; rfl
      | some epoch => rw [← scanned.events _ epoch earlier]; rfl
    · rw [found _ same] at stored
      rw [if_neg (Ne.symm same), List.append_nil]
      exact scanned.events leaseId epoch stored

/-- A scan that succeeds knows all rows. -/
theorem scanned_of_foldlM {rows : List (RetainedRow Digest)} {scan : EpochScan Digest}
    (folded : rows.foldlM (retainStep basis accountId) .initial = .ok scan) :
    Scanned rows scan := by
  induction rows using List.reverseRecOn generalizing scan with
  | nil =>
    cases folded
    refine ⟨?_, ?_, ?_⟩
    · exact fun _ listed => nomatch listed
    · exact fun _ listed => nomatch listed
    · rintro _ _ ⟨⟩
  | append_singleton rows row ih =>
    obtain ⟨reached, earlier, stepped⟩ := foldlM_concat_ok.mp folded
    exact (ih earlier).step stepped

theorem scanned_of_verifiedAuthorityRows {tables : PaperTables Digest}
    {found : Table Identifier (RetainedAuthorityEpoch Digest)}
    (verified : verifiedAuthorityRows basis tables accountId = .ok found) :
    ∃ scan, Scanned tables.authority scan ∧ scan.epochs = found := by
  simp only [verifiedAuthorityRows, epochs, seq_ok, mapError_ok] at verified
  obtain ⟨_, _, scan, folded, _, _, ⟨⟩⟩ := verified
  exact ⟨scan, scanned_of_foldlM folded, rfl⟩

end Epochs

section Links

variable {basis : Primitives Digest}

/-- A stored submission has been started once. -/
theorem started_once {sha256 : Payload Digest → Digest} {ledger : BrokerLedger Digest}
    {key : Identifier} {state : SubmissionState}
    (stored : submissionState sha256 ledger key = .ok (some state)) :
    (∃ row, ledger.intents.lookup key = some row) ∧
      ((ledger.events key).filter fun attempt =>
        attempt.eventType = .submissionStarted).length = 1 := by
  obtain ⟨found, read, latest⟩ := map_ok.mp stored
  unfold submissionEvents at read
  split at read
  · cases read
    cases latest
  · rename_i started rest attempts
    rw [attempts]
    split at read
    · cases read
    · rename_i shape
      push Not at shape
      obtain ⟨few, _, startedType, _⟩ := shape
      split at read
      · cases read
      · rename_i row intent
        refine ⟨⟨row, intent⟩, ?_⟩
        dsimp only at read
        split at read
        · cases read
        · split at read
          · simp [startedType]
          · rename_i acknowledged others
            split at read
            · cases read
            · rename_i shape
              push Not at shape
              cases List.eq_nil_of_length_eq_zero (Nat.lt_one_iff.mp (Nat.lt_of_succ_le few))
              simp [startedType, shape.2.2.2.1]

/-- Verified links record every retained consumption. -/
theorem recorded_of_verifiedCommitLinks {tables : PaperTables Digest} {done : Unit}
    (verified : verifiedCommitLinks basis tables = .ok done) {row : RetainedRow Digest}
    (listed : row ∈ tables.authority) (typed : row.eventType = row.eventPayload.detail.eventType)
    {consumption : Consumption Digest}
    (consumed : row.eventPayload.detail.consumption? = some consumption) :
    Recorded tables row.eventPayload consumption := by
  simp only [verifiedCommitLinks, seq_ok, require_ok, exists_and_left, exists_const, forM_ok]
    at verified
  obtain ⟨_, _, links⟩ := verified
  have member : (consumption, row.eventPayload) ∈ consumptionEvents tables.authority := by
    refine List.mem_filterMap.mpr ⟨row, listed, ?_⟩
    have kind : row.eventType = .consumptionCommitted := by
      rw [typed]
      exact eventType_of_consumption consumed
    rw [if_pos kind, consumed]
    rfl
  have link := links _ member
  unfold verifyCommitLink at link
  split at link
  · cases link
  · rename_i risk found
    simp only [seq_ok, require_ok, exists_and_left, exists_const, mapError_ok] at link
    obtain ⟨⟨same, _⟩, state, read, started, _⟩ := link
    obtain ⟨state, rfl⟩ := Option.isSome_iff_exists.mp started
    obtain ⟨intent, once⟩ := started_once read
    exact ⟨⟨risk, found, same.symm⟩, intent, once⟩

end Links

section Calls

variable {basis : Primitives Digest} {tables committed : PaperTables Digest}
  {call : PreCall Digest}

theorem verifyResultingCommit_ok {row : RetainedRow Digest} {risk : RiskRow Digest} {done : Unit}
    (verified : verifyResultingCommit basis tables committed call row risk = .ok done) :
    ∃ epochs epoch loaded,
      verifiedAuthorityRows basis committed call.lease.accountId = .ok epochs ∧
      epochs.lookup call.lease.leaseId = some epoch ∧
      epochUsage basis call.lease epoch call.runtime.runtimeEpochSha256 call.runtime.control
        call.now = .ok loaded ∧
      verifiedCommitLinks basis committed = .ok () := by
  simp only [verifyResultingCommit, seq_ok] at verified
  obtain ⟨epochs, retained, _, _, verified⟩ := verified
  split at verified
  · cases verified
  · rename_i epoch found
    simp only [seq_ok, mapError_ok] at verified
    obtain ⟨loaded, usage, _, _, _, _, links⟩ := verified
    exact ⟨epochs, epoch, loaded, retained, found, usage, links⟩

/-- What a call that succeeds has done: nothing, or it has retained a row of its lease, and
what is then retained verifies. -/
theorem recordPreCall_cases {result : PreCallResult Digest}
    (recorded : recordPreCall basis tables call = .ok (result, committed)) :
    committed = tables ∨
      ∃ plan bindings sequence prior risk,
        committed.authority =
          tables.authority ++ [authorityRow basis call.lease plan bindings sequence prior] ∧
        verifyResultingCommit basis tables committed call
          (authorityRow basis call.lease plan bindings sequence prior) risk = .ok () := by
  simp only [recordPreCall, seq_ok] at recorded
  obtain ⟨_, _, _, _, epoch, _, replayRow, _, finished⟩ := recorded
  cases replayRow with
  | some row =>
    simp only [seq_ok] at finished
    obtain ⟨_, _, ⟨⟩⟩ := finished
    exact .inl rfl
  | none =>
    simp only [commitNew, seq_ok] at finished
    obtain ⟨_, _, _, _, _, _, _, _, _, _, _, _, _, _, _, _, _, _, _, _, _, verified, _, _, ⟨⟩⟩ :=
      finished
    exact .inr ⟨_, _, _, _, _, rfl, verified⟩

theorem withinLease_of_commit {row : RetainedRow Digest} {risk : RiskRow Digest} {done : Unit}
    (verified : verifyResultingCommit basis tables committed call row risk = .ok done) :
    WithinLease call.lease (eventsUnder committed.authority call.lease.leaseId) := by
  obtain ⟨epochs, epoch, loaded, retained, found, usage, _⟩ := verifyResultingCommit_ok verified
  obtain ⟨scan, scanned, rfl⟩ := scanned_of_verifiedAuthorityRows retained
  unfold epochUsage at usage
  split at usage
  · cases usage
  · rw [← scanned.events _ _ found]
    exact withinLease_of_loadOpenUsage usage

/-- A call keeps every lease from being overspent. -/
theorem NeverOverspent.preCall (spent : NeverOverspent tables) (call : PreCall Digest) :
    NeverOverspent (preCall basis tables call).2 := by
  unfold Broker.preCall
  split
  · rename_i result committed recorded
    rcases recordPreCall_cases recorded with rfl | ⟨plan, bindings, sequence, prior, risk, grown, verified⟩
    · exact spent
    · have within := withinLease_of_commit verified
      obtain ⟨epochs, epoch, _, retained, _, _, links⟩ := verifyResultingCommit_ok verified
      obtain ⟨scan, scanned, rfl⟩ := scanned_of_verifiedAuthorityRows retained
      have listed : authorityRow basis call.lease plan bindings sequence prior ∈
          committed.authority := by
        rw [grown]
        exact List.mem_append_right _ (List.mem_singleton_self _)
      intro row member consumption consumed
      refine ⟨?_, recorded_of_verifiedCommitLinks links member (scanned.named row member).2 consumed⟩
      by_cases same : row.leaseId = call.lease.leaseId
      · have lease : row.leasePayload = call.lease := by
          obtain ⟨epoch, stored, held⟩ := scanned.known row member
          obtain ⟨other, found, ours⟩ := scanned.known _ listed
          rw [same] at stored
          cases stored.symm.trans found
          exact held.symm.trans ours
        rw [lease, same]
        exact within
      · have earlier : row ∈ tables.authority := by
          rw [grown, List.mem_append, List.mem_singleton] at member
          refine member.resolve_right ?_
          rintro rfl
          exact same rfl
        have unchanged : eventsUnder committed.authority row.leaseId =
            eventsUnder tables.authority row.leaseId := by
          have other : (authorityRow basis call.lease plan bindings sequence prior).leaseId ≠
              row.leaseId := Ne.symm same
          rw [grown, eventsUnder_append, if_neg other, List.append_nil]
        rw [unchanged]
        exact (spent row earlier consumption consumed).1
  · exact spent

omit [DecidableEq Digest] in
/-- Another writer's row consumes nothing. -/
theorem NeverOverspent.retain (spent : NeverOverspent tables) {row : RetainedRow Digest}
    (other : row.eventPayload.detail.eventType ≠ .consumptionCommitted) :
    NeverOverspent { tables with authority := tables.authority ++ [row] } := by
  intro earlier member consumption consumed
  have listed : earlier ∈ tables.authority := by
    rw [List.mem_append, List.mem_singleton] at member
    refine member.resolve_right ?_
    rintro rfl
    exact other (eventType_of_consumption consumed)
  obtain ⟨within, ⟨risk, intent, started⟩⟩ := spent earlier listed consumption consumed
  refine ⟨?_, risk, intent, started⟩
  rw [eventsUnder_append]
  split
  · exact within.append other
  · rwa [List.append_nil]

/-- Every act keeps every lease from being overspent. -/
theorem NeverOverspent.step (spent : NeverOverspent tables) (act : PaperAct Digest) :
    NeverOverspent (paperStep basis tables act) := by
  cases act with
  | preCall call => exact spent.preCall call
  | retain row =>
    dsimp only [paperStep]
    split
    · exact spent
    · rename_i other
      exact spent.retain other
  | halt events =>
    intro row listed consumption consumed
    obtain ⟨within, ⟨risk, intent, started⟩⟩ := spent row listed consumption consumed
    exact ⟨within, risk, intent, started⟩

end Calls

/-- From tables without a consumption, whatever is called and whatever happens between the
calls, every lease stays unspent beyond its limits and every consumption is recorded; a
call that fails changes no table. -/
theorem paperLease_neverOverspent (basis : Primitives Digest) (initial : PaperTables Digest)
    (unspent : ∀ row ∈ initial.authority, row.eventPayload.detail.consumption? = none)
    (acts : List (PaperAct Digest)) :
    ∀ reached ∈ states (paperStep basis) initial acts, NeverOverspent reached ∧
      ∀ call text, (preCall basis reached call).1 = .error text →
        (preCall basis reached call).2 = reached := by
  have spent : ∀ reached ∈ states (paperStep basis) initial acts, NeverOverspent reached := by
    refine states_invariant NeverOverspent (fun _ act spent => spent.step act) ?_ acts
    intro row listed consumption consumed
    rw [unspent row listed] at consumed
    cases consumed
  refine fun reached member => ⟨spent reached member, ?_⟩
  intro call text failed
  unfold preCall at failed ⊢
  split at failed
  · cases failed
  · rfl

section Example

/-- The value of a computation that succeeds. -/
def held {α : Type} (computed : Except String α) (succeeds : computed.isOk = true) : α :=
  match computed, succeeds with
  | .ok value, _ => value

theorem held_eq {α : Type} (computed : Except String α) (succeeds : computed.isOk = true) :
    computed = .ok (held computed succeeds) := by
  cases computed with
  | ok value => rfl
  | error text => cases succeeds

/-- A digest for small runs: records that such a run tells apart have different ones. -/
def paperDigest : PaperPayload String → String
  | .lease lease => "lease " ++ lease.leaseId.text
  | .event body => "event " ++ body.leaseId.text ++ " " ++ body.eventSequence.repr
  | .transcript body => "transcript " ++ body.eventCount.repr
  | .usage usage => "usage " ++ usage.consumedOrderCount.repr
  | .usageEvidence body _ => "evidence " ++ body.eventCount.repr
  | .runtime body => "runtime " ++ body.runtimeEpochSha256
  | .evaluation body => "evaluation " ++ body.requestSha256
  | .intentBindings bindings => "bindings " ++ bindings.terms.requestSha256
  | .eligibility eligibility => "eligibility " ++ eligibility.idempotencyKey.text
  | .started started => "started " ++ started.idempotencyKey.text
  | .bundle body => "bundle " ++ body.terms.idempotencyKey.text
  | .retainedRow body => "row " ++ body.globalSequence.repr
  | .riskRow idempotencyKey _ => "risk " ++ idempotencyKey.text
  | .preCall body => "call " ++ body.idempotencyKey.text

def textPrimitives : Primitives String where
  sha256 := textDigest
  paperSha256 := paperDigest
  isspace character := character.isWhitespace
  isprintable _ := true

/-- Two orders of up to 1500, and 1500 in all. -/
def sampleLease : PaperAuthorityLease String where
  leaseId := ⟨"lease-1", by decide⟩
  mode := .agentOnly
  policyId := ⟨"policy", by decide⟩
  policyRegistrationSha256 := "registration"
  accountId := paperAccount
  dataSnapshotSha256 := "snapshot"
  decisionWindowId := ⟨"window", by decide⟩
  capitalCeiling := 1500
  maxOrderNotional := 1500
  maxOrders := 2
  approvedAt := 0
  notBefore := 0
  expiresAt := 1000
  retained := ""
  notionalPositive := by decide
  withinCeiling := le_rfl
  someOrders := by decide
  ordered := by decide
  brief := by decide

def sampleHaltBody : HaltBody String where
  haltKey := ⟨"halt-1", by decide⟩
  accountId := paperAccount
  eventSequence := 1
  reason := "armed"
  occurredAt := 0
  priorEventSha256 := none

def sampleHalt : HaltEvent String where
  haltKey := ⟨"halt-1", by decide⟩
  accountId := paperAccount
  eventSequence := 1
  reason := "armed"
  occurredAt := 0
  priorEventSha256 := none
  eventSha256 := textDigest (.halt sampleHaltBody)

def sampleActivationBody : EventBody String where
  eventSequence := 1
  leaseId := sampleLease.leaseId
  leaseSha256 := sampleLease.sha256 textPrimitives
  accountId := paperAccount
  mode := .agentOnly
  occurredAt := 10
  priorEventSha256 := none
  detail := .activationRecorded "candidate" "startup" 1 sampleHalt.eventSha256 "process"

def sampleRowBody : RetainedRowBody String where
  globalSequence := 1
  accountId := paperAccount
  mode := .agentOnly
  leaseId := sampleLease.leaseId
  leaseSha256 := sampleLease.sha256 textPrimitives
  leasePayload := sampleLease
  eventSequence := 1
  eventType := .activationRecorded
  eventPayload :=
    { sampleActivationBody with eventSha256 := paperDigest (.event sampleActivationBody) }
  eventSha256 := paperDigest (.event sampleActivationBody)
  trustedActivationEventSha256 := paperDigest (.event sampleActivationBody)
  candidateAssessmentSha256 := "candidate"
  startupAssessmentSha256 := "startup"
  activationRuntimeEpochSha256 := "process"
  priorGlobalRowSha256 := none

/-- The lease has been activated, and nothing else has happened. -/
def sampleTables : PaperTables String where
  authority := [{ sampleRowBody with rowSha256 := paperDigest (.retainedRow sampleRowBody) }]
  risks := ∅
  ledger := { BrokerLedger.empty with controlEvents := [sampleHalt] }

def sampleRuntime : RuntimeControlBindings String :=
  held (loadRuntimeControl textPrimitives "process" sampleTables.ledger paperAccount)
    (by decide +kernel)

def sampleEpoch : RetainedAuthorityEpoch String :=
  held (transactionState textPrimitives sampleTables sampleLease 1 "row 1") (by decide +kernel)

def sampleUsage : LoadedPaperLeaseUsage String :=
  held (epochUsage textPrimitives sampleLease sampleEpoch sampleRuntime.runtimeEpochSha256
    sampleRuntime.control 20) (by decide +kernel)

def sampleEvaluationBody (orderNotional : ℚ) : EvaluationBody String where
  leaseId := sampleLease.leaseId
  leaseSha256 := sampleLease.sha256 textPrimitives
  accountId := paperAccount
  candidateAssessmentSha256 := "candidate"
  usageEvidenceSha256 := sampleUsage.evidenceSha256
  transcriptSha256 := sampleUsage.transcriptSha256
  runtimeEpochSha256 := "process"
  controlEventCount := 1
  controlEventSha256 := sampleHalt.eventSha256
  requestSha256 := textDigest (.request twoShares)
  assessedAt := 30
  riskEvaluatedAt := 30
  riskExpiresAt := 500
  leaseExpiresAt := 1000
  status := .riskPass
  riskGateNames := GATE_NAMES
  riskGates := GATE_NAMES.map fun name => ⟨name, .pass, "pass"⟩
  riskFailedGates := []
  orderNotional
  retained := ""

def sampleEvaluation (orderNotional : ℚ) : AuthorityAwareRiskEvaluation String :=
  { sampleEvaluationBody orderNotional with
    evaluationSha256 := paperDigest (.evaluation (sampleEvaluationBody orderNotional)) }

def sampleIntent : IntentBindings String :=
  .agentOnly
    { policyId := sampleLease.policyId
      policyRegistrationSha256 := "registration", dataSnapshotSha256 := "snapshot"
      decisionWindowId := sampleLease.decisionWindowId
      requestSha256 := textDigest (.request twoShares)
      symbol := twoShares.symbol, side := .buy, signalDate := 0 }
    2000 900 ""

/-- Plan two shares at a notional value. -/
def samplePlan (orderNotional : ℚ) : Except String (ConsumptionPlan String) :=
  buildPlan textPrimitives (fun _ _ _ => .ok ()) sampleLease ⟨5, "", "candidate"⟩ sampleIntent
    sampleUsage (sampleEvaluation orderNotional) twoShares ⟨"consumption-1", by decide⟩ "candidate"
    (paperDigest (.intentBindings sampleIntent)) 40

/-- Record a plan on the tables that it was built on. -/
def sampleCall (orderNotional : ℚ) (plan : ConsumptionPlan String) : PreCall String where
  lease := sampleLease
  usage := sampleUsage
  evaluation := sampleEvaluation orderNotional
  runtime := sampleRuntime
  request := twoShares
  plan := plan
  trustedGlobalRowCount := 1
  trustedLatestGlobalRowSha256 := "row 1"
  now := 50
  processEpoch := "process"
  fault := none

/-- A plan for 1000 of the lease. -/
def thousandPlan : ConsumptionPlan String := held (samplePlan 1000) (by decide +kernel)

/-- A plan that is recorded and replayed: one consumption is retained, within its lease. -/
theorem thousandPlan_neverOverspent :
    let reached := [PaperAct.preCall (sampleCall 1000 thousandPlan),
      .preCall (sampleCall 1000 thousandPlan)].foldl (paperStep textPrimitives) sampleTables
    (eventsUnder reached.authority sampleLease.leaseId).length = 2 ∧ NeverOverspent reached :=
  ⟨by decide +kernel, (paperLease_neverOverspent textPrimitives sampleTables (by decide +kernel)
    _ _ (last_mem_states _ _ _)).1⟩

end Example

end TradingEngine.Broker
