import TradingEngine.BrokerPayloads
import TradingEngine.Runs

/-!
# One-way operational control

Halts are appended to one chain for each account: sequence numbers without gaps,
times that never fall, and each event's digest carried by the next. A reader checks
the whole chain before it believes any of it. Nothing clears a halt, and an account
without events is halted.

A reason is one that `_reason` accepted; that check comes before anything is read.
-/

namespace TradingEngine.Broker

open Runs

variable {Digest : Type} [DecidableEq Digest]

/-- A row of `broker_risk_control_events`. -/
structure HaltEvent (Digest : Type) where
  haltKey : Identifier
  accountId : Identifier
  eventSequence : Nat
  eventType : String := "halt"
  reason : String
  occurredAt : Instant
  priorEventSha256 : Option Digest
  eventSha256 : Digest

def HaltEvent.body (event : HaltEvent Digest) : HaltBody Digest where
  haltKey := event.haltKey
  accountId := event.accountId
  eventSequence := event.eventSequence
  reason := event.reason
  occurredAt := event.occurredAt
  priorEventSha256 := event.priorEventSha256

/-- The rows of an account by event sequence. -/
def accountEvents (events : List (HaltEvent Digest)) (accountId : Identifier) :
    List (HaltEvent Digest) :=
  (events.filter fun event => event.accountId = accountId).mergeSort
    fun first second => first.eventSequence ≤ second.eventSequence

section Control

variable (sha256 : Payload Digest → Digest)

/-- What `_verified_events` asks of one row, given the sequence number that is due, the
digest that the row must carry and the time that it must not precede. -/
def linked (accountId : Identifier) (expectedSequence : Nat) (prior : Option Digest)
    (priorOccurredAt : Option Instant) (row : HaltEvent Digest) : Bool :=
  row.accountId = accountId && row.eventSequence = expectedSequence && row.eventType = "halt" &&
    (priorOccurredAt.all fun earlier => decide (earlier ≤ row.occurredAt)) &&
    row.priorEventSha256 = prior && sha256 (.halt row.body) = row.eventSha256

def chained (accountId : Identifier) :
    Nat → Option Digest → Option Instant → List (HaltEvent Digest) → Bool
  | _, _, _, [] => true
  | expectedSequence, prior, priorOccurredAt, row :: rest =>
    linked sha256 accountId expectedSequence prior priorOccurredAt row &&
      chained accountId (expectedSequence + 1) (some row.eventSha256) (some row.occurredAt) rest

def verifiedEvents (events : List (HaltEvent Digest)) (accountId : Identifier) :
    Except BrokerError (List (HaltEvent Digest)) :=
  let rows := accountEvents events accountId
  if chained sha256 accountId 1 none none rows then .ok rows
  else .error (.stateError "stored risk-control event is invalid")

/-- Verified state; missing or empty state is always halted. -/
def controlStatus (events : List (HaltEvent Digest)) (accountId : Identifier) :
    Except BrokerError (RiskControlStatus Digest) :=
  (verifiedEvents sha256 events accountId).map fun rows =>
    match rows.getLast? with
    | none =>
      { accountId, halted := true, reason := "default_halted_no_control_event",
        eventCount := 0, latestEventSha256 := none }
    | some latest =>
      { accountId, halted := true, reason := latest.reason,
        eventCount := rows.length, latestEventSha256 := some latest.eventSha256 }

/-- The transaction of `record_halt`: an exact replay of a key adds nothing. -/
def recordHalt (events : List (HaltEvent Digest)) (haltKey accountId : Identifier)
    (reason : String) (now : Instant) : Except BrokerError (List (HaltEvent Digest)) :=
  (verifiedEvents sha256 events accountId).bind fun rows =>
  match events.find? fun event => event.haltKey = haltKey with
  | some existing =>
    if existing.accountId ≠ accountId ∨ existing.eventType ≠ "halt" ∨ existing.reason ≠ reason then
      .error (.stateError "stored risk-control halt conflicts with key")
    else .ok events
  | none =>
    if rows.getLast?.any fun latest => decide (now < latest.occurredAt) then
      .error (.valueError "risk-control timestamp precedes the latest event")
    else
      let body : HaltBody Digest :=
        { haltKey, accountId, eventSequence := rows.length + 1, reason, occurredAt := now
          priorEventSha256 := rows.getLast?.map HaltEvent.eventSha256 }
      .ok (events ++ [
        { haltKey, accountId, eventSequence := rows.length + 1, reason, occurredAt := now
          priorEventSha256 := rows.getLast?.map HaltEvent.eventSha256
          eventSha256 := sha256 (.halt body) }])

/-- The verified hash of one exact halt event. -/
def haltEventSha256 (events : List (HaltEvent Digest)) (haltKey accountId : Identifier) :
    Except BrokerError Digest :=
  (verifiedEvents sha256 events accountId).bind fun rows =>
  match rows.filter fun row => row.haltKey = haltKey with
  | [row] => .ok row.eventSha256
  | _ => .error (.stateError "risk-control halt event is unavailable")

variable {sha256}

variable {accountId : Identifier} {prior : Option Digest} {priorAt : Option Instant}

theorem chained_concat {sequence : Nat} {rows : List (HaltEvent Digest)} {row : HaltEvent Digest} :
    chained sha256 accountId sequence prior priorAt (rows ++ [row]) = true ↔
      chained sha256 accountId sequence prior priorAt rows = true ∧
      linked sha256 accountId (sequence + rows.length)
        ((rows.getLast?.map HaltEvent.eventSha256).or prior)
        ((rows.getLast?.map HaltEvent.occurredAt).or priorAt) row = true := by
  induction rows generalizing sequence prior priorAt with
  | nil => simp [chained]
  | cons head rest ih =>
    have count : sequence + 1 + rest.length = sequence + (head :: rest).length := by
      rw [List.length_cons]
      omega
    simp only [List.cons_append, chained, Bool.and_eq_true, ih, count, and_assoc,
      getLast?_cons_or _ head rest prior, getLast?_cons_or _ head rest priorAt]

/-- A chain lists its rows in sequence, starting with the number that is due. -/
theorem chained_sequences {sequence : Nat} {rows : List (HaltEvent Digest)}
    (holds : chained sha256 accountId sequence prior priorAt rows = true) :
    (∀ row ∈ rows, sequence ≤ row.eventSequence) ∧
      rows.Pairwise fun first second => first.eventSequence < second.eventSequence := by
  induction rows generalizing sequence prior priorAt with
  | nil => simp
  | cons head rest ih =>
    simp only [chained, linked, Bool.and_eq_true, decide_eq_true_eq] at holds
    obtain ⟨⟨⟨⟨⟨⟨_, due⟩, _⟩, _⟩, _⟩, _⟩, later⟩ := holds
    obtain ⟨above, ordered⟩ := ih later
    constructor
    · intro row listed
      rcases List.mem_cons.mp listed with rfl | member
      · exact due.ge
      · exact (Nat.le_succ _).trans (above row member)
    · refine List.pairwise_cons.mpr ⟨fun row member => ?_, ordered⟩
      have next := above row member
      omega

theorem chained_halts {sequence : Nat} {rows : List (HaltEvent Digest)}
    (holds : chained sha256 accountId sequence prior priorAt rows = true) :
    ∀ row ∈ rows, row.eventType = "halt" := by
  induction rows generalizing sequence prior priorAt with
  | nil => simp
  | cons head rest ih =>
    simp only [chained, linked, Bool.and_eq_true, decide_eq_true_eq] at holds
    obtain ⟨⟨⟨⟨⟨⟨_, _⟩, halt⟩, _⟩, _⟩, _⟩, later⟩ := holds
    intro row listed
    rcases List.mem_cons.mp listed with rfl | member
    · exact halt
    · exact ih later row member

variable (sha256) in
/-- Every account's halts form a chain, in the order in which they were recorded. -/
def ChainsHold (events : List (HaltEvent Digest)) : Prop :=
  ∀ accountId, chained sha256 accountId 1 none none
    (events.filter fun event => event.accountId = accountId) = true

theorem chainsHold_nil : ChainsHold sha256 [] := by
  intro accountId
  rfl

namespace ChainsHold

variable {events : List (HaltEvent Digest)}

/-- The rows of an account come in the order in which they were recorded. -/
theorem accountEvents (chains : ChainsHold sha256 events) (accountId : Identifier) :
    accountEvents events accountId = events.filter fun event => event.accountId = accountId := by
  refine List.mergeSort_of_pairwise ((chained_sequences (chains accountId)).2.imp ?_)
  intro first second ordered
  exact decide_eq_true ordered.le

theorem verifiedEvents (chains : ChainsHold sha256 events) (accountId : Identifier) :
    verifiedEvents sha256 events accountId =
      .ok (events.filter fun event => event.accountId = accountId) := by
  rw [Broker.verifiedEvents, chains.accountEvents, if_pos (chains accountId)]

end ChainsHold

theorem ChainsHold.distinct {events : List (HaltEvent Digest)} (chains : ChainsHold sha256 events)
    {first second : HaltEvent Digest} (firstListed : first ∈ events)
    (secondListed : second ∈ events) (account : first.accountId = second.accountId)
    (sequence : first.eventSequence = second.eventSequence) : first = second := by
  have ordered := (chained_sequences (chains second.accountId)).2
  have nodup : ((events.filter fun event => event.accountId = second.accountId).map
      HaltEvent.eventSequence).Nodup :=
    List.pairwise_map.mpr (ordered.imp fun less => less.ne)
  exact List.inj_on_of_nodup_map nodup (List.mem_filter.mpr ⟨firstListed, by simpa using account⟩)
    (List.mem_filter.mpr ⟨secondListed, by simp⟩) sequence

variable {haltKey : Identifier}

/-- A halt adds nothing, or one event whose key is new. -/
theorem recordHalt_cases {events after : List (HaltEvent Digest)}
    {reason : String} {now : Instant} (chains : ChainsHold sha256 events)
    (recorded : recordHalt sha256 events haltKey accountId reason now = .ok after) :
    (after = events ∧ ∃ existing ∈ events, existing.haltKey = haltKey ∧
        existing.accountId = accountId ∧ existing.reason = reason) ∨
      ∃ event, after = events ++ [event] ∧ event.haltKey = haltKey ∧ event.accountId = accountId ∧
        event.reason = reason ∧ (∀ earlier ∈ events, earlier.haltKey ≠ haltKey) ∧
        linked sha256 accountId (1 + (events.filter fun row => row.accountId = accountId).length)
          (((events.filter fun row => row.accountId = accountId).getLast?.map
            HaltEvent.eventSha256).or none)
          (((events.filter fun row => row.accountId = accountId).getLast?.map
            HaltEvent.occurredAt).or none) event = true := by
  unfold recordHalt at recorded
  rw [chains.verifiedEvents, Except.bind] at recorded
  dsimp only at recorded
  split at recorded
  · rename_i existing found
    split at recorded
    · cases recorded
    · rename_i agrees
      cases recorded
      have same := List.find?_some found
      simp only [decide_eq_true_eq] at same
      push Not at agrees
      exact .inl ⟨rfl, existing, List.mem_of_find?_eq_some found, same, agrees.1, agrees.2.2⟩
  · rename_i fresh
    split at recorded
    · cases recorded
    · rename_i inOrder
      cases recorded
      refine .inr ⟨_, rfl, rfl, rfl, rfl, by simpa using fresh, ?_⟩
      simp only [linked, HaltEvent.body, Option.or_none, add_comm 1, Bool.and_eq_true,
        decide_eq_true_eq, Option.all_map, and_true, true_and]
      cases last : (events.filter fun row => row.accountId = accountId).getLast? with
      | none => rfl
      | some latest =>
        rw [last] at inOrder
        simpa using inOrder

theorem recordHalt_chains {events after : List (HaltEvent Digest)} {reason : String} {now : Instant}
    (chains : ChainsHold sha256 events)
    (recorded : recordHalt sha256 events haltKey accountId reason now = .ok after) :
    ChainsHold sha256 after := by
  obtain ⟨rfl, _⟩ | ⟨event, rfl, _, same, _, _, link⟩ := recordHalt_cases chains recorded
  · exact chains
  · intro other
    by_cases here : accountId = other
    · subst here
      rw [List.filter_append, List.filter_cons_of_pos (by simpa using same), List.filter_nil]
      exact chained_concat.mpr ⟨chains accountId, link⟩
    · rw [List.filter_append, List.filter_cons_of_neg (by simpa [same] using here),
        List.filter_nil, List.append_nil]
      exact chains other

theorem recordHalt_extends {events after : List (HaltEvent Digest)} {reason : String}
    {now : Instant}
    (chains : ChainsHold sha256 events)
    (recorded : recordHalt sha256 events haltKey accountId reason now = .ok after) :
    events <+: after := by
  obtain ⟨rfl, _⟩ | ⟨event, rfl, _⟩ := recordHalt_cases chains recorded
  · exact List.prefix_rfl
  · exact List.prefix_append _ _

end Control

end TradingEngine.Broker
