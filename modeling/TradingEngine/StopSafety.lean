import TradingEngine.EmergencyStop

/-!
# Emergency stops under retries

Nothing that a stop wrote is ever taken back: halts, stop events and cancellation
records only grow. A venue cancellation is asked under the halt, for an order of the
stored plan and behind a record of that cancellation; a retry that finds the record
does not ask again. A completion is written only over acknowledged cancellations and
a venue that was just seen empty.
-/

namespace TradingEngine.Broker

open KeyedTables Runs Procedures System

variable {Digest : Type} [DecidableEq Digest] {sha256 : Payload Digest → Digest}

variable (sha256) in
/-- Halts, stop events and cancellation records are kept and added to. -/
structure Grows (before after : StopLedger Digest) : Prop where
  chains : ChainsHold sha256 after.controlEvents
  halts : before.controlEvents <+: after.controlEvents
  stops : ∀ haltKey, stopRows before.stops haltKey <+: stopRows after.stops haltKey
  events : ∀ key, before.events key <+: after.events key

theorem Grows.refl {ledger : StopLedger Digest} (chains : ChainsHold sha256 ledger.controlEvents) :
    Grows sha256 ledger ledger :=
  ⟨chains, List.prefix_rfl, fun _ => List.prefix_rfl, fun _ => List.prefix_rfl⟩

omit [DecidableEq Digest] in
theorem stopRows_insert (log : StopLog (StopBody Digest) Digest) (haltKey other : Identifier)
    (row : StopEvent (StopBody Digest) Digest) :
    stopRows log other <+: stopRows (log.insert haltKey (stopRows log haltKey ++ [row])) other := by
  by_cases same : other = haltKey
  · subst same
    simp [stopRows]
  · simp [stopRows, AList.lookup_insert_ne same]

theorem StopLedger.events_insertEvent (ledger : StopLedger Digest) (key other : Digest)
    (event : CancellationEvent Digest) :
    (ledger.insertEvent key event).events other =
      if other = key then ledger.events key ++ [event] else ledger.events other := by
  by_cases same : other = key
  · subst same
    simp [insertEvent, events]
  · simp [insertEvent, events, same, AList.lookup_insert_ne]

theorem Grows.insertEvent {ledger : StopLedger Digest}
    (chains : ChainsHold sha256 ledger.controlEvents) (key : Digest)
    (event : CancellationEvent Digest) : Grows sha256 ledger (ledger.insertEvent key event) := by
  refine ⟨chains, List.prefix_rfl, fun _ => List.prefix_rfl, ?_⟩
  intro other
  rw [StopLedger.events_insertEvent]
  split
  · rename_i same
    exact same ▸ List.prefix_append _ _
  · exact List.prefix_rfl

/-- A verified state is read from the events of its key. -/
theorem cancellationEvents_cases {ledger : StopLedger Digest} {key : Digest}
    {found : Option (CancellationState × CancellationEvent Digest)}
    (read : cancellationEvents ledger key = .ok found) :
    (found = none ∧ ledger.events key = []) ∨
    ∃ state event, found = some (state, event) ∧ event ∈ ledger.events key ∧
      ∀ other ∈ ledger.events key, other.accountId = event.accountId := by
  unfold cancellationEvents at read
  split at read
  · rename_i stored
    cases read
    exact .inl ⟨rfl, stored⟩
  · rename_i started rest stored
    split at read
    · cases read
    · rename_i shape
      push Not at shape
      split at read
      · cases read
        exact .inr ⟨.uncertain, started, rfl, by simp [stored], by simp [stored]⟩
      · rename_i acknowledged others
        have single : others = [] := by
          have short := shape.1
          simp only [List.length_cons] at short
          exact List.eq_nil_of_length_eq_zero (by omega)
        split at read
        · cases read
        · rename_i agrees
          push Not at agrees
          cases read
          refine .inr ⟨.acknowledged, acknowledged, rfl, by simp [stored], ?_⟩
          rw [stored, single]
          simp [agrees.2.1]

/-- What beginning a cancellation does: it finds an acknowledged one of the account, or
it records the first event of its key. -/
theorem beginCancellation_cases {ledger after : StopLedger Digest} {key : Digest}
    {accountId brokerOrderId : Identifier} {now : Instant} {state : CancellationState}
    (begun : beginCancellation ledger key accountId brokerOrderId now = .ok (state, after)) :
    (after = ledger ∧ ∃ event ∈ ledger.events key, event.accountId = accountId) ∨
    (ledger.events key = [] ∧ after = ledger.insertEvent key
      { eventSequence := 1, accountId, brokerOrderId, eventType := .cancellationStarted
        orderSha256 := none, orderPayload := none, occurredAt := now }) := by
  obtain ⟨found, read, begun⟩ := bind_ok.mp begun
  obtain ⟨rfl, unstarted⟩ | ⟨stage, event, rfl, listed, _⟩ := cancellationEvents_cases read
  · cases begun
    exact .inr ⟨unstarted, rfl⟩
  · dsimp only at begun
    split at begun
    · cases begun
    · rename_i agrees
      push Not at agrees
      cases stage with
      | uncertain => cases begun
      | acknowledged =>
        cases begun
        exact .inl ⟨rfl, event, listed, agrees.1⟩

/-- What acknowledging a cancellation does: nothing, or one more event of its key. -/
theorem acknowledgeCancellation_cases {ledger after : StopLedger Digest} {key : Digest}
    {accountId brokerOrderId : Identifier} {order : BrokerOrder} {now : Instant}
    (acknowledged : acknowledgeCancellation sha256 ledger key accountId brokerOrderId order now =
      .ok after) :
    after = ledger ∨ ∃ event, after = ledger.insertEvent key event := by
  unfold acknowledgeCancellation at acknowledged
  split at acknowledged
  · cases acknowledged
  obtain ⟨found, _, acknowledged⟩ := bind_ok.mp acknowledged
  split at acknowledged
  · cases acknowledged
  split at acknowledged
  · cases acknowledged
  dsimp only at acknowledged
  split at acknowledged
  · split at acknowledged
    · cases acknowledged
    · cases acknowledged
      exact .inl rfl
  · cases acknowledged
    exact .inr ⟨_, rfl⟩

theorem recordStopEvent_cases {ledger after : StopLedger Digest}
    {call : StopCall (StopBody Digest)}
    (recorded : recordStopEvent sha256 ledger call = .ok after) :
    (after = ledger ∧ ∃ row, row ∈ stopRows ledger.stops call.haltKey ∧
        row.eventType = call.eventType) ∨
      after = { ledger with
        stops := ledger.stops.insert call.haltKey
          (stopRows ledger.stops call.haltKey ++ [call.row (stopDigest sha256)]) } := by
  obtain ⟨⟨digest, stops⟩, written, rfl⟩ := map_ok.mp recorded
  obtain ⟨_, _, _, _, ⟨rfl, row, listed, type, _⟩ | ⟨_, rfl⟩⟩ :=
    recordEmergencyStopEvent_cases written
  · exact .inl ⟨rfl, row, listed, type⟩
  · exact .inr rfl

variable {operation : StopOperation Digest}

/-- Every transaction of a stop only adds to the ledger. -/
theorem applyStop_grows {ledger after : StopLedger Digest}
    (chains : ChainsHold sha256 ledger.controlEvents)
    (applied : applyStop sha256 operation ledger = .ok after) : Grows sha256 ledger after := by
  have stopped : ∀ call, recordStopEvent sha256 ledger call = .ok after →
      Grows sha256 ledger after := by
    intro call recorded
    obtain ⟨rfl, _⟩ | rfl := recordStopEvent_cases recorded
    · exact .refl chains
    · exact ⟨chains, List.prefix_rfl, fun other => stopRows_insert _ _ _ _,
        fun _ => List.prefix_rfl⟩
  cases operation with
  | halt haltKey accountId reason now =>
    obtain ⟨events, recorded, rfl⟩ := map_ok.mp applied
    exact ⟨recordHalt_chains chains recorded, recordHalt_extends chains recorded,
      fun _ => List.prefix_rfl, fun _ => List.prefix_rfl⟩
  | read =>
    cases applied
    exact .refl chains
  | recordStart body now => exact stopped _ applied
  | recordCompletion body now => exact stopped _ applied
  | beginCancellation key accountId brokerOrderId now =>
    obtain ⟨⟨state, begun⟩, written, rfl⟩ := map_ok.mp applied
    obtain ⟨rfl, _⟩ | ⟨_, rfl⟩ := beginCancellation_cases written
    · exact .refl chains
    · exact .insertEvent chains _ _
  | acknowledgeCancellation key accountId brokerOrderId order now =>
    obtain rfl | ⟨event, rfl⟩ := acknowledgeCancellation_cases applied
    · exact .refl chains
    · exact .insertEvent chains _ _

/-- The halt key holds a start, and this is it. -/
def Planned (ledger : StopLedger Digest) (haltKey : Identifier) (start : StopStarted Digest) : Prop :=
  ∃ row rest, stopRows ledger.stops haltKey = row :: rest ∧ row.eventPayload = .started start

/-- An account was halted under a key. -/
def HaltedUnder (ledger : StopLedger Digest) (haltKey accountId : Identifier) : Prop :=
  ∃ halt ∈ ledger.controlEvents, halt.haltKey = haltKey ∧ halt.accountId = accountId

/-- A cancellation of the account is on record under a key. -/
def Begun (ledger : StopLedger Digest) (key : Digest) (accountId : Identifier) : Prop :=
  ∃ event ∈ ledger.events key, event.accountId = accountId

/-- What must be on record before the venue is asked to cancel an order. -/
def Cancelling (ledger : StopLedger Digest) (haltKey accountId brokerOrderId : Identifier) : Prop :=
  HaltedUnder ledger haltKey accountId ∧ ∃ start, Planned ledger haltKey start ∧
    start.accountId = accountId ∧ ∃ planned ∈ start.orders,
      planned.order.brokerOrderId = brokerOrderId ∧ Begun ledger planned.cancellationKey accountId

/-- The orders that the venue was asked to cancel under a halt key. -/
def cancelledIds (haltKey : Identifier) (asked : List StopQuestion) : List Identifier :=
  asked.filterMap fun
    | .cancelOrder key _ brokerOrderId => if key = haltKey then some brokerOrderId else none
    | .capture _ => none

theorem mem_cancelledIds {haltKey brokerOrderId : Identifier} {asked : List StopQuestion} :
    brokerOrderId ∈ cancelledIds haltKey asked ↔
      ∃ accountId, .cancelOrder haltKey accountId brokerOrderId ∈ asked := by
  unfold cancelledIds
  rw [List.mem_filterMap]
  constructor
  · rintro ⟨question, listed, named⟩
    cases question with
    | capture accountId => cases named
    | cancelOrder key accountId orderId =>
      dsimp only at named
      split at named
      · rename_i same
        cases named
        exact ⟨accountId, same ▸ listed⟩
      · cases named
  · rintro ⟨accountId, listed⟩
    exact ⟨_, listed, if_pos rfl⟩

variable (sha256) in
/-- Whatever was asked is on record, and no order was asked twice under one halt key. -/
structure StopSound (seen : Seen (StopLedger Digest) StopQuestion StopAnswer) : Prop where
  chains : ChainsHold sha256 seen.store.controlEvents
  recorded : ∀ haltKey accountId brokerOrderId,
    .cancelOrder haltKey accountId brokerOrderId ∈ seen.asked →
      Cancelling seen.store haltKey accountId brokerOrderId
  once : ∀ haltKey, (cancelledIds haltKey seen.asked).Nodup

namespace Grows

variable {ledger after : StopLedger Digest} {haltKey accountId brokerOrderId : Identifier}
  {key : Digest} {start : StopStarted Digest}

theorem planned (grows : Grows sha256 ledger after) (planned : Planned ledger haltKey start) :
    Planned after haltKey start := by
  obtain ⟨row, rest, rows, payload⟩ := planned
  obtain ⟨more, longer⟩ := grows.stops haltKey
  exact ⟨row, rest ++ more, by rw [← longer, rows, List.cons_append], payload⟩

theorem haltedUnder (grows : Grows sha256 ledger after)
    (halted : HaltedUnder ledger haltKey accountId) : HaltedUnder after haltKey accountId := by
  obtain ⟨halt, listed, same⟩ := halted
  exact ⟨halt, grows.halts.subset listed, same⟩

theorem begun (grows : Grows sha256 ledger after) (begun : Begun ledger key accountId) :
    Begun after key accountId := by
  obtain ⟨event, listed, same⟩ := begun
  exact ⟨event, (grows.events key).subset listed, same⟩

theorem cancelling (grows : Grows sha256 ledger after)
    (cancelling : Cancelling ledger haltKey accountId brokerOrderId) :
    Cancelling after haltKey accountId brokerOrderId := by
  obtain ⟨halted, start, planned, account, entry, listed, same, begun⟩ := cancelling
  exact ⟨grows.haltedUnder halted, start, grows.planned planned, account, entry, listed, same,
    grows.begun begun⟩

end Grows

omit [DecidableEq Digest] in
theorem Planned.unique {ledger : StopLedger Digest} {haltKey : Identifier}
    {first second : StopStarted Digest} (one : Planned ledger haltKey first)
    (other : Planned ledger haltKey second) : first = second := by
  obtain ⟨row, rest, rows, payload⟩ := one
  obtain ⟨row', rest', rows', payload'⟩ := other
  obtain ⟨rfl, _⟩ := List.cons.inj (rows.symm.trans rows')
  rw [payload] at payload'
  cases payload'
  rfl

variable (sha256) in
/-- A completion is recorded over a plan whose every cancellation is acknowledged,
right after the venue was seen without open orders. -/
def CompletesSafely : StopOperation Digest → Seen (StopLedger Digest) StopQuestion StopAnswer → Prop
  | .recordCompletion body _, seen =>
    ∃ start, Planned seen.store body.haltKey start ∧ start.accountId = body.accountId ∧
      (∀ planned ∈ start.orders, ∃ order, sameOrder order planned.order = true ∧
        acknowledgedCancellationOrder sha256 seen.store planned.cancellationKey =
          .ok (some order)) ∧
      ∃ answer snapshot, seen.answered.getLast? = some answer ∧
        answer.captured body.accountId = .ok snapshot ∧ snapshot.openOrders = []
  | .halt .., _ | .read, _ | .recordStart .., _ | .beginCancellation .., _
  | .acknowledgeCancellation .., _ => True

variable (sha256) in
/-- A stop that is left alone stays sound and completes safely. -/
abbrev Course (procedure : StopProcedure Digest)
    (seen : Seen (StopLedger Digest) StopQuestion StopAnswer) : Prop :=
  (stopSystem sha256).Follows (StopSound sha256) (CompletesSafely sha256) procedure seen

variable {seen : Seen (StopLedger Digest) StopQuestion StopAnswer}

theorem StopSound.grow {after : StopLedger Digest} (sound : StopSound sha256 seen)
    (grows : Grows sha256 seen.store after) : StopSound sha256 { seen with store := after } where
  chains := grows.chains
  recorded haltKey accountId brokerOrderId listed :=
    grows.cancelling (sound.recorded haltKey accountId brokerOrderId listed)
  once := sound.once

theorem course_proceed {α : Type} {result : Except BrokerError α} {next : α → StopProcedure Digest}
    (continues : ∀ value, result = .ok value → Course sha256 (next value) seen) :
    Course sha256 (proceed result next) seen := by
  cases result with
  | ok value => exact continues value rfl
  | error raised => trivial

theorem course_ensure {condition : Bool} {raised : BrokerError} {next : StopProcedure Digest}
    (continues : condition = true → Course sha256 next seen) :
    Course sha256 (ensure condition raised next) seen := by
  unfold ensure
  split
  · rename_i holds
    exact continues holds
  · trivial

theorem course_transact
    {next : StopLedger Digest → StopProcedure Digest} (sound : StopSound sha256 seen)
    (permitted : CompletesSafely sha256 operation seen)
    (continues : ∀ after, applyStop sha256 operation seen.store = .ok after →
      Grows sha256 seen.store after → StopSound sha256 { seen with store := after } →
      Course sha256 (next seen.store) { seen with store := after }) :
    Course sha256 (.transact operation next) seen := by
  refine ⟨permitted, fun after applied => ?_⟩
  have grows := applyStop_grows sound.chains applied
  exact ⟨sound.grow grows, continues after applied grows (sound.grow grows)⟩

theorem course_read {next : StopLedger Digest → StopProcedure Digest}
    (sound : StopSound sha256 seen) (continues : Course sha256 (next seen.store) seen) :
    Course sha256 (.transact .read next) seen := by
  refine course_transact sound trivial ?_
  intro after applied _ _
  cases applied
  exact continues

/-- The venue is read: nothing else is asked. -/
theorem course_capture {accountId : Identifier} {next : StopAnswer → StopProcedure Digest}
    (sound : StopSound sha256 seen)
    (continues : ∀ answer later, StopSound sha256 later → later.store = seen.store →
      later.answered.getLast? = some answer → Course sha256 (next answer) later) :
    Course sha256 (.ask (.capture accountId) next) seen := by
  have read : ∀ answered, StopSound sha256
      ⟨seen.store, seen.asked ++ [.capture accountId], answered⟩ := by
    intro answered
    refine ⟨sound.chains, ?_, ?_⟩
    · intro haltKey account brokerOrderId listed
      refine sound.recorded haltKey account brokerOrderId ?_
      simpa using listed
    · intro haltKey
      have same : cancelledIds haltKey (seen.asked ++ [.capture accountId]) =
          cancelledIds haltKey seen.asked := by
        simp [cancelledIds]
      exact same ▸ sound.once haltKey
  exact ⟨read _, fun answer => ⟨read _, continues answer _ (read _) rfl (by simp)⟩⟩

/-- The states of an account list every cancellation of the account. -/
theorem cancellationStates_listed {ledger : StopLedger Digest} {accountId : Identifier}
    {states : List (Digest × CancellationState)}
    (read : cancellationStatesForAccount ledger accountId = .ok states) {key : Digest}
    (begun : Begun ledger key accountId) : ∃ state, (key, state) ∈ states := by
  obtain ⟨event, listed, account⟩ := begun
  have stored : ∃ rows, ledger.cancellations.lookup key = some rows ∧ event ∈ rows := by
    unfold StopLedger.events at listed
    cases found : ledger.cancellations.lookup key with
    | none => simp [found] at listed
    | some rows => exact ⟨rows, rfl, by simpa [found] using listed⟩
  obtain ⟨rows, found, inside⟩ := stored
  have selected : key ∈ (ledger.cancellations.entries.filter fun entry =>
      entry.2.any fun row => decide (row.accountId = accountId)).map (·.1) := by
    refine List.mem_map.mpr ⟨⟨key, rows⟩, List.mem_filter.mpr ⟨mem_of_lookup found, ?_⟩, rfl⟩
    exact List.any_eq_true.mpr ⟨event, inside, decide_eq_true account⟩
  obtain ⟨value, member, computed⟩ := mapM_value read key selected
  obtain ⟨found, _, computed⟩ := bind_ok.mp computed
  cases found with
  | none => cases computed
  | some found =>
    dsimp only at computed
    split at computed
    · cases computed
    · cases computed
      exact ⟨found.1, member⟩

/-- Once no cancellation of the account is uncertain, one that is not acknowledged was
never begun. -/
theorem notBegun_of_states {ledger : StopLedger Digest} {accountId : Identifier}
    {states : List (Digest × CancellationState)}
    (read : cancellationStatesForAccount ledger accountId = .ok states)
    (certain : (states.all fun entry => entry.2 ≠ .uncertain) = true) {key : Digest}
    (open' : states.lookup key ≠ some .acknowledged) : ¬ Begun ledger key accountId := by
  intro begun
  obtain ⟨state, listed⟩ := cancellationStates_listed read begun
  cases found : states.lookup key with
  | none =>
    have missing := List.lookup_eq_none_iff.mp found _ listed
    simp at missing
  | some state =>
    obtain ⟨front, back, split, _⟩ := List.lookup_eq_some_iff.mp found
    have member : (key, state) ∈ states := by simp [split]
    have settled := List.all_eq_true.mp certain _ member
    cases state with
    | uncertain => simp at settled
    | acknowledged => exact open' found

theorem not_asked {haltKey : Identifier} {start : StopStarted Digest}
    {entry : PlannedOrder Digest} (sound : StopSound sha256 seen)
    (planned : Planned seen.store haltKey start)
    (distinct : (start.orders.map (·.order.brokerOrderId)).Nodup) (listed : entry ∈ start.orders)
    (fresh : ¬ Begun seen.store entry.cancellationKey start.accountId) :
    entry.order.brokerOrderId ∉ cancelledIds haltKey seen.asked := by
  intro asked
  obtain ⟨accountId, before⟩ := mem_cancelledIds.mp asked
  obtain ⟨_, other, otherPlanned, rfl, found, inside, same, begun⟩ := sound.recorded _ _ _ before
  obtain rfl := planned.unique otherPlanned
  obtain rfl := List.inj_on_of_nodup_map distinct inside listed same
  exact fresh begun

/-- The venue is asked to cancel an order that is on record and was not asked for. -/
theorem course_cancel {haltKey accountId brokerOrderId : Identifier}
    {next : StopAnswer → StopProcedure Digest} (sound : StopSound sha256 seen)
    (cancelling : Cancelling seen.store haltKey accountId brokerOrderId)
    (fresh : brokerOrderId ∉ cancelledIds haltKey seen.asked)
    (continues : ∀ answer later, StopSound sha256 later → later.store = seen.store →
      Course sha256 (next answer) later) :
    Course sha256 (.ask (.cancelOrder haltKey accountId brokerOrderId) next) seen := by
  have asked : ∀ answered, StopSound sha256
      ⟨seen.store, seen.asked ++ [.cancelOrder haltKey accountId brokerOrderId], answered⟩ := by
    intro answered
    refine ⟨sound.chains, ?_, ?_⟩
    · intro key account order listed
      rcases List.mem_append.mp listed with before | now
      · exact sound.recorded key account order before
      · obtain ⟨rfl, rfl, rfl⟩ : key = haltKey ∧ account = accountId ∧ order = brokerOrderId := by
          simpa using now
        exact cancelling
    · intro key
      have added : cancelledIds key
          (seen.asked ++ [.cancelOrder haltKey accountId brokerOrderId]) =
          cancelledIds key seen.asked ++ if haltKey = key then [brokerOrderId] else [] := by
        unfold cancelledIds
        rw [List.filterMap_append]
        split <;> simp_all
      rw [added]
      split
      · rename_i same
        subst same
        refine List.Nodup.append (sound.once haltKey) (by simp) ?_
        intro order before now
        obtain rfl := List.mem_singleton.mp now
        exact fresh before
      · rw [List.append_nil]
        exact sound.once key
  exact ⟨asked _, fun answer => ⟨asked _, continues answer _ (asked _) rfl⟩⟩

theorem begun_elsewhere {ledger : StopLedger Digest} {key other : Digest}
    {event : CancellationEvent Digest} {accountId : Identifier} (different : other ≠ key)
    (begun : Begun (ledger.insertEvent key event) other accountId) : Begun ledger other accountId := by
  unfold Begun at begun ⊢
  rwa [StopLedger.events_insertEvent, if_neg different] at begun

/-- The loop over the planned orders: what is left of the plan was acknowledged before
the call or never begun. -/
theorem cancelPlannedOrders_course {request : StopRequest}
    {states : List (Digest × CancellationState)} {current : List BrokerOrder}
    {start : StopStarted Digest} {next : List BrokerOrder → StopProcedure Digest}
    (account : start.accountId = request.accountId)
    (distinct : (start.orders.map (·.order.brokerOrderId)).Nodup)
    (continues : ∀ cancelled later, StopSound sha256 later →
      Planned later.store request.haltKey start → Course sha256 (next cancelled) later)
    (remaining : List (PlannedOrder Digest)) (cancelled : List BrokerOrder)
    (within : ∀ entry ∈ remaining, entry ∈ start.orders)
    (keys : (remaining.map (·.cancellationKey)).Nodup)
    {seen : Seen (StopLedger Digest) StopQuestion StopAnswer} (sound : StopSound sha256 seen)
    (halted : HaltedUnder seen.store request.haltKey request.accountId)
    (planned : Planned seen.store request.haltKey start)
    (fresh : ∀ entry ∈ remaining, states.lookup entry.cancellationKey ≠ some .acknowledged →
      ¬ Begun seen.store entry.cancellationKey request.accountId) :
    Course sha256 (cancelPlannedOrders sha256 request states current remaining cancelled next)
      seen := by
  induction remaining generalizing cancelled seen with
  | nil => exact continues cancelled seen sound planned
  | cons entry rest ih =>
    obtain ⟨alone, restKeys⟩ := List.nodup_cons.mp keys
    have inRest : ∀ other ∈ rest, other ∈ start.orders := fun other listed =>
      within other (List.mem_cons_of_mem _ listed)
    have elsewhere : ∀ other ∈ rest, other.cancellationKey ≠ entry.cancellationKey := by
      intro other listed same
      exact alone (List.mem_map.mpr ⟨other, listed, same⟩)
    unfold cancelPlannedOrders
    split
    · -- acknowledged by an earlier call: verified and passed over
      refine course_read sound (course_proceed fun found read => ?_)
      cases found with
      | none => trivial
      | some acknowledgement =>
        refine course_ensure fun _ => ?_
        exact ih _ inRest restKeys sound halted planned
          fun other listed => fresh other (List.mem_cons_of_mem _ listed)
    · rename_i unacknowledged
      have unbegun := fresh entry List.mem_cons_self unacknowledged
      refine course_ensure fun _ => course_transact sound trivial ?_
      intro after applied grows soundAfter
      obtain ⟨⟨state, begun⟩, written, rfl⟩ := map_ok.mp applied
      obtain ⟨_, before⟩ | ⟨_, rfl⟩ := beginCancellation_cases written
      · exact absurd before unbegun
      have cancelling : Cancelling (seen.store.insertEvent entry.cancellationKey
          { eventSequence := 1, accountId := request.accountId
            brokerOrderId := entry.order.brokerOrderId, eventType := .cancellationStarted
            orderSha256 := none, orderPayload := none, occurredAt := request.now })
          request.haltKey request.accountId entry.order.brokerOrderId := by
        refine ⟨grows.haltedUnder halted, start, grows.planned planned, account, entry,
          within entry List.mem_cons_self, rfl, ?_⟩
        unfold Begun
        rw [StopLedger.events_insertEvent, if_pos rfl]
        exact ⟨_, List.mem_append_right _ (List.mem_singleton.mpr rfl), rfl⟩
      have unasked : entry.order.brokerOrderId ∉ cancelledIds request.haltKey seen.asked :=
        not_asked sound planned distinct (within entry List.mem_cons_self) (account ▸ unbegun)
      refine course_cancel soundAfter cancelling unasked ?_
      intro answer heard soundHeard store
      refine course_proceed fun acknowledgement valid => course_transact soundHeard trivial ?_
      intro acknowledged applied growsMore soundLater
      rw [store] at applied growsMore
      refine ih _ inRest restKeys soundLater
        (growsMore.haltedUnder (grows.haltedUnder halted))
        (growsMore.planned (grows.planned planned)) ?_
      intro other listed open' begun
      refine fresh other (List.mem_cons_of_mem _ listed) open' ?_
      obtain rfl | ⟨event, rfl⟩ := acknowledgeCancellation_cases applied
      · exact begun_elsewhere (elsewhere other listed) begun
      · exact begun_elsewhere (elsewhere other listed)
          (begun_elsewhere (elsewhere other listed) begun)

/-- The halt is durable once its transaction committed. -/
theorem halt_recorded {haltKey accountId : Identifier} {reason : String} {now : Instant}
    {ledger after : StopLedger Digest} (chains : ChainsHold sha256 ledger.controlEvents)
    (applied : applyStop sha256 (.halt haltKey accountId reason now) ledger = .ok after) :
    HaltedUnder after haltKey accountId := by
  obtain ⟨events, recorded, rfl⟩ := map_ok.mp applied
  obtain ⟨rfl, existing, listed, key, account, _⟩ | ⟨event, rfl, key, account, _⟩ :=
    recordHalt_cases chains recorded
  · exact ⟨existing, listed, key, account⟩
  · exact ⟨event, List.mem_append_right _ (List.mem_singleton.mpr rfl), key, account⟩

/-- The call goes on with the events that are stored under its halt key. -/
theorem startEvents_course {request : StopRequest} {haltEvent : Digest}
    {next : List (StopBody Digest) → StopProcedure Digest} (sound : StopSound sha256 seen)
    (continues : ∀ row rows later, StopSound sha256 later → Grows sha256 seen.store later.store →
      stopRows later.store.stops request.haltKey = row :: rows →
      Course sha256 (next ((row :: rows).map (·.eventPayload))) later) :
    Course sha256 (startEvents sha256 request haltEvent seen.store next) seen := by
  refine course_proceed fun events read => ?_
  obtain ⟨_, _, payloads⟩ := emergencyStopEvents_cases read
  split
  · rename_i stored
    cases rows : stopRows seen.store.stops request.haltKey with
    | nil => simp [payloads, rows] at stored
    | cons row rest =>
      rw [payloads, rows]
      exact continues row rest seen sound (.refl sound.chains) rows
  · rename_i none'
    have empty : stopRows seen.store.stops request.haltKey = [] := by
      rw [not_not.mp none'] at payloads
      exact List.map_eq_nil_iff.mp payloads.symm
    refine course_proceed fun operations _ => course_ensure fun _ => ?_
    refine course_proceed fun existing _ => course_ensure fun _ => ?_
    refine course_capture sound fun answer later soundLater store _ => ?_
    refine course_proceed fun initial _ => course_transact soundLater trivial ?_
    intro after applied grows soundAfter
    rw [store] at applied grows
    obtain ⟨_, row, listed, _⟩ | rfl := recordStopEvent_cases applied
    · have impossible : row ∈ ([] : List (StopEvent (StopBody Digest) Digest)) := empty ▸ listed
      cases impossible
    · have rows : stopRows (seen.store.stops.insert request.haltKey
          (stopRows seen.store.stops request.haltKey ++ [StopCall.row (stopDigest sha256)
            ⟨request.haltKey, request.accountId, .emergencyStopStarted,
              .started (startPayload sha256 request haltEvent initial), request.now⟩]))
          request.haltKey = [StopCall.row (stopDigest sha256)
            ⟨request.haltKey, request.accountId, .emergencyStopStarted,
              .started (startPayload sha256 request haltEvent initial), request.now⟩] := by
        rw [empty, stopRows, AList.lookup_insert]
        rfl
      exact continues _ [] ⟨_, later.asked, later.answered⟩ soundAfter grows rows

theorem validateStart_cases {event : StopBody Digest} {haltKey accountId : Identifier}
    {start : StopStarted Digest} (valid : validateStart sha256 event haltKey accountId = .ok start) :
    event = .started start ∧ start.accountId = accountId ∧
      (start.orders.map (·.cancellationKey)).Nodup ∧
      (start.orders.map (·.order.brokerOrderId)).Nodup := by
  unfold validateStart at valid
  split at valid
  · cases valid
  · split at valid
    · cases valid
    · rename_i agrees
      push Not at agrees
      split at valid
      · rename_i planned
        cases valid
        simp only [validatePlanned, Bool.and_eq_true, decide_eq_true_eq] at planned
        exact ⟨rfl, agrees.2.2.2.1, planned.1.2, planned.2⟩
      · cases valid

theorem verifiedAcknowledgements_all {ledger : StopLedger Digest}
    {states : List (Digest × CancellationState)} {planned : List (PlannedOrder Digest)}
    {retained : List BrokerOrder}
    (verified : verifiedAcknowledgements sha256 ledger states planned = .ok retained) :
    ∀ entry ∈ planned, ∃ order, sameOrder order entry.order = true ∧
      acknowledgedCancellationOrder sha256 ledger entry.cancellationKey = .ok (some order) := by
  intro entry listed
  obtain ⟨value, _, computed⟩ := mapM_value verified entry listed
  split at computed
  · cases computed
  obtain ⟨found, read, computed⟩ := bind_ok.mp computed
  cases found with
  | none => cases computed
  | some order =>
    dsimp only at computed
    split at computed
    · rename_i same
      exact ⟨order, same, read⟩
    · cases computed

/-- From a plan that was cancelled to its completion. -/
theorem completion_course {request : StopRequest} {start : StopStarted Digest}
    {cancelled : List BrokerOrder} (account : start.accountId = request.accountId)
    (sound : StopSound sha256 seen) (planned : Planned seen.store request.haltKey start) :
    Course sha256
      (.ask (.capture request.accountId) fun answer =>
      proceed (answer.captured request.accountId) fun closing =>
      ensure closing.openOrders.isEmpty
        (.stateError "open orders remain after emergency cancellation") <|
      .transact .read fun ledger =>
      proceed (cancellationStatesForAccount ledger request.accountId) fun finalStates =>
      ensure (finalStates.all fun entry => entry.2 ≠ .uncertain)
        (.cancellationUncertain "account has uncertain cancellation evidence") <|
      proceed (verifiedAcknowledgements sha256 ledger finalStates start.orders) fun retained =>
      ensure (sortedIds (retained.map (·.brokerOrderId)) =
          sortedIds (cancelled.map (·.brokerOrderId)))
        (.stateError "emergency-stop cancellation evidence is incomplete") <|
      .transact (.recordCompletion (completionPayload sha256 request start cancelled) request.now)
        fun _ => .done (.ok (completionPayload sha256 request start cancelled,
          sha256 (.stopCompleted (completionPayload sha256 request start cancelled))))) seen := by
  refine course_capture sound fun answer later soundLater store last => ?_
  refine course_proceed fun closing captured => course_ensure fun cleared => ?_
  refine course_read soundLater (course_proceed fun finalStates _ => course_ensure fun _ => ?_)
  refine course_proceed fun retained verified => course_ensure fun _ => ?_
  have safe : CompletesSafely sha256
      (.recordCompletion (completionPayload sha256 request start cancelled) request.now) later := by
    refine ⟨start, store ▸ planned, account, verifiedAcknowledgements_all verified, answer,
      closing, last, captured, List.isEmpty_iff.mp cleared⟩
  exact course_transact soundLater safe fun _ _ _ _ => trivial

/-- A call that is left alone follows its course from any sound state. -/
theorem cancelAllAndHalt_course (request : StopRequest)
    (seen : Seen (StopLedger Digest) StopQuestion StopAnswer) (sound : StopSound sha256 seen) :
    Course sha256 (cancelAllAndHalt sha256 request) seen := by
  refine course_transact sound trivial fun after applied _ soundHalted => ?_
  have halted := halt_recorded sound.chains applied
  refine course_read soundHalted (course_proceed fun control _ => course_ensure fun _ => ?_)
  refine course_proceed fun haltEvent _ => startEvents_course soundHalted ?_
  intro row rows started soundStarted grows stored
  refine course_proceed fun start valid => ?_
  obtain ⟨payload, account, keys, distinct⟩ := validateStart_cases valid
  have planned : Planned started.store request.haltKey start := ⟨row, rows, stored, payload⟩
  refine course_ensure fun _ => course_proceed fun completed _ => ?_
  refine course_read soundStarted (course_proceed fun states read => ?_)
  refine course_ensure fun certain => ?_
  cases completed with
  | some result =>
    refine course_proceed fun retained _ => course_capture soundStarted ?_
    intro answer later _ _ _
    exact course_proceed fun closing _ => course_ensure fun _ => trivial
  | none =>
    refine course_capture soundStarted fun answer later soundLater store _ => ?_
    refine course_proceed fun current _ => course_ensure fun _ => ?_
    refine cancelPlannedOrders_course account distinct
      (fun cancelled last soundLast plannedLast => completion_course account soundLast plannedLast)
      start.orders [] (fun _ listed => listed) keys soundLater
      (store ▸ grows.haltedUnder halted) (store ▸ planned) ?_
    intro entry _ unacknowledged
    rw [store]
    exact notBegun_of_states read certain unacknowledged

/-- A completion stands under the halt key. -/
def Completed (ledger : StopLedger Digest) (haltKey : Identifier) : Prop :=
  ∃ row ∈ stopRows ledger.stops haltKey, row.eventType = .emergencyStopCompleted

/-- Only the transaction that records a completion makes one stand. -/
theorem completed_by {ledger after : StopLedger Digest}
    {haltKey : Identifier} (applied : applyStop sha256 operation ledger = .ok after)
    (before : ¬ Completed ledger haltKey) (completed : Completed after haltKey) :
    ∃ body now, operation = .recordCompletion body now ∧ body.haltKey = haltKey := by
  have kept : after.stops = ledger.stops → False := by
    intro same
    rw [Completed, same] at completed
    exact before completed
  have recorded : ∀ call, recordStopEvent sha256 ledger call = .ok after →
      call.haltKey = haltKey ∧ call.eventType = .emergencyStopCompleted := by
    intro call recorded
    obtain ⟨rfl, _⟩ | rfl := recordStopEvent_cases recorded
    · exact (before completed).elim
    · obtain ⟨row, listed, type⟩ := completed
      by_cases here : haltKey = call.haltKey
      · subst here
        have grown : row ∈ stopRows ledger.stops call.haltKey ++
            [call.row (stopDigest sha256)] := by
          simpa [stopRows] using listed
        rcases List.mem_append.mp grown with old | new
        · exact (before ⟨row, old, type⟩).elim
        · obtain rfl := List.mem_singleton.mp new
          exact ⟨rfl, type⟩
      · have old : row ∈ stopRows ledger.stops haltKey := by
          simpa [stopRows, AList.lookup_insert_ne here] using listed
        exact (before ⟨row, old, type⟩).elim
  cases operation with
  | halt key accountId reason now =>
    obtain ⟨events, _, rfl⟩ := map_ok.mp applied
    exact (kept rfl).elim
  | read =>
    cases applied
    exact (kept rfl).elim
  | recordStart body now => cases (recorded _ applied).2
  | recordCompletion body now => exact ⟨body, now, rfl, (recorded _ applied).1⟩
  | beginCancellation key accountId brokerOrderId now =>
    obtain ⟨⟨state, begun⟩, written, rfl⟩ := map_ok.mp applied
    obtain ⟨rfl, _⟩ | ⟨_, rfl⟩ := beginCancellation_cases written <;> exact (kept rfl).elim
  | acknowledgeCancellation key accountId brokerOrderId order now =>
    obtain rfl | ⟨event, rfl⟩ := acknowledgeCancellation_cases applied <;> exact (kept rfl).elim

theorem stopSound_empty :
    StopSound sha256 (⟨.empty, [], []⟩ : Seen (StopLedger Digest) StopQuestion StopAnswer) := by
  refine ⟨chainsHold_nil, ?_, fun haltKey => List.nodup_nil⟩
  intro haltKey accountId brokerOrderId listed
  cases listed

variable (sha256) in
/-- Retries one after another, lost anywhere, under any answers of the venue: a cancel is
asked under a durable halt, for a planned order and once; and a completion is recorded
over acknowledged cancellations, right after the venue showed no open order. -/
theorem stops_safely (moves : List (Move StopAnswer StopRequest))
    (alone : Admissible (stopSystem sha256).step Alone (.idle .empty) moves) :
    ∀ reached ∈ states (stopSystem sha256).step (.idle .empty) moves,
      (∀ haltKey accountId brokerOrderId,
        .cancelOrder haltKey accountId brokerOrderId ∈ reached.seen.asked →
          Cancelling reached.store haltKey accountId brokerOrderId) ∧
      (∀ haltKey, (cancelledIds haltKey reached.seen.asked).Nodup) ∧
      ∀ move haltKey, ¬ Completed reached.store haltKey →
        Completed ((stopSystem sha256).step reached move).store haltKey →
        ∃ start, Planned reached.store haltKey start ∧
          (∀ planned ∈ start.orders, ∃ order, sameOrder order planned.order = true ∧
            acknowledgedCancellationOrder sha256 reached.store planned.cancellationKey =
              .ok (some order)) ∧
          ∃ answer snapshot, reached.seen.answered.getLast? = some answer ∧
            answer.captured start.accountId = .ok snapshot ∧ snapshot.openOrders = [] := by
  intro reached member
  have sequential := sequential_states cancelAllAndHalt_course stopSound_empty alone reached member
  refine ⟨sequential.holds.recorded, sequential.holds.once, ?_⟩
  intro move haltKey before completed
  obtain same | ⟨operation, pending, applied⟩ := step_store (stopSystem sha256) reached move
  · exact (before (same ▸ completed)).elim
  · obtain ⟨body, now, rfl, rfl⟩ := completed_by applied before completed
    obtain ⟨start, planned, account, acknowledged, answer, snapshot, last, captured, cleared⟩ :=
      sequential.permitted pending
    exact ⟨start, planned, acknowledged, answer, snapshot, last, account ▸ captured, cleared⟩

/-- What small runs tell apart among the payloads of a stop. -/
def stopText : Payload String → String
  | .halt body => "halt " ++ body.haltKey.text
  | .cancellation haltKey _ brokerOrderId _ => "cancel " ++ haltKey.text ++ " " ++ brokerOrderId.text
  | .order order => "order " ++ order.brokerOrderId.text
  | .stopStarted body => "started " ++ body.haltKey.text
  | _ => "other"

/-- An open order of the stopped account, as long as its status is pending. -/
def stoppedOrder (status : BrokerOrderStatus) (reason : Option String)
    (valid : validOrderState status reason 0 2 = true) : BrokerOrder where
  brokerOrderId := ⟨"order-1", order1_valid⟩
  idempotencyKey := ⟨"intent-1", intent1_valid⟩
  accountId := stoppedAccount
  symbol := ⟨"SPY", spy_valid⟩
  side := .buy
  quantity := 2
  signalDate := 0
  status := status
  rejectionReason := reason
  positive := two_positive
  filledNonneg := zero_nonneg
  filledWithin := two_nonneg
  stateValid := valid
  regularHours := rfl

def stoppedReading (openOrders : List BrokerOrder) : AccountReading where
  account :=
    { accountId := stoppedAccount, venue := ⟨"simulator", simulator_valid⟩, environment := .simulator
      active := true, currency := "USD", cash := 100, buyingPower := 100, initialCash := 100
      marginEnabled := false, currencyCode := usd_valid, cashNonneg := hundred_nonneg
      buyingPowerNonneg := hundred_nonneg, initialPositive := hundred_positive }
  positions := []
  openOrders := openOrders
  batches := [⟨[], none, false, by decide, by decide⟩]

def stillOpen : StopAnswer :=
  .readings (stoppedReading [stoppedOrder .pending none pending_valid])
    (stoppedReading [stoppedOrder .pending none pending_valid])

def nothingOpen : StopAnswer := .readings (stoppedReading []) (stoppedReading [])

/-- The first call is lost after the acknowledgement; the second completes the stop. -/
def lostStop : List (Move StopAnswer StopRequest) :=
  [.enter ⟨stoppedAccount, stopKey, "operator", 10⟩, .advance 0, .advance 0, .advance 0,
    .answer 0 stillOpen, .advance 0, .advance 0, .advance 0, .answer 0 stillOpen, .advance 0,
    .advance 0, .answer 0 (.cancelled (stoppedOrder .cancelled (some "operator") (by decide))),
    .advance 0, .crash 0,
    .enter ⟨stoppedAccount, stopKey, "operator", 20⟩, .advance 1, .advance 1, .advance 1,
    .advance 1, .answer 1 nothingOpen, .advance 1, .advance 1, .answer 1 nothingOpen, .advance 1,
    .advance 1]

theorem lostStop_completes :
    let final := lostStop.foldl (stopSystem stopText).step (.idle .empty)
    (stopRows final.store.stops stopKey).length = 2 ∧
      (cancelledIds stopKey final.seen.asked).length = 1 ∧
      (cancelledIds stopKey final.seen.asked).Nodup :=
  ⟨by decide +kernel, by decide +kernel,
    (stops_safely stopText lostStop (by decide +kernel) _ (last_mem_states _ _ _)).2.1 stopKey⟩

end TradingEngine.Broker
