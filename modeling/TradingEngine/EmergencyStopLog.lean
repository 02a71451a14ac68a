import TradingEngine.BrokerPayloads
import TradingEngine.KeyedTables
import TradingEngine.Runs

/-!
# The emergency-stop log

Under each halt key the log holds a start and perhaps its completion. The reader
checks every row against its payload and the rows against each other; the writer
reads first and then appends. What the writer does not look at is whether a
completion comes after its start and from the same account, so it can append a row
that no reader accepts. Any payload may be written that names its halt key, its
account and its time; the rest of it plays no part.
-/

namespace TradingEngine.Broker

open KeyedTables Runs

variable {Body Digest : Type} [DecidableEq Digest]

inductive StopEventType where
  | emergencyStopStarted | emergencyStopCompleted
  deriving DecidableEq

/-- One more than the position in `EMERGENCY_STOP_EVENT_TYPES`. -/
def StopEventType.sequence : StopEventType → Nat
  | emergencyStopStarted => 1
  | emergencyStopCompleted => 2

/-- What a payload holds under the names that are checked, if it holds it. -/
structure StopFields (Body : Type) where
  haltKey : Body → Option Identifier
  accountId : Body → Option Identifier
  occurredAt : Body → Option Instant

/-- A row of `broker_emergency_stop_events`. -/
structure StopEvent (Body Digest : Type) where
  eventSequence : Nat
  accountId : Identifier
  eventType : StopEventType
  eventSha256 : Digest
  eventPayload : Body
  occurredAt : Instant

/-- The rows under each halt key, by event sequence. -/
abbrev StopLog (Body Digest : Type) := Table Identifier (List (StopEvent Body Digest))

def stopRows (log : StopLog Body Digest) (haltKey : Identifier) : List (StopEvent Body Digest) :=
  (log.lookup haltKey).getD []

/-- One call of `record_emergency_stop_event`. -/
structure StopCall (Body : Type) where
  haltKey : Identifier
  accountId : Identifier
  eventType : StopEventType
  payload : Body
  now : Instant

inductive StopState where
  | started | completed
  deriving DecidableEq

section Log

variable (fields : StopFields Body) (sha256 : Body → Digest)

/-- What the reader asks of one row, after the account and the time of the row before. -/
def stopRowValid (haltKey : Identifier) (sequence : Nat) (accountId : Option Identifier)
    (priorOccurredAt : Option Instant) (row : StopEvent Body Digest) : Bool :=
  row.eventSequence = sequence && row.eventType.sequence = sequence &&
    (accountId.all fun account => decide (row.accountId = account)) &&
    fields.haltKey row.eventPayload = some haltKey &&
    fields.accountId row.eventPayload = some row.accountId &&
    fields.occurredAt row.eventPayload = some row.occurredAt &&
    (priorOccurredAt.all fun earlier => decide (earlier ≤ row.occurredAt)) &&
    sha256 row.eventPayload = row.eventSha256

def readStopRows (haltKey : Identifier) : Nat → Option Identifier → Option Instant →
    List (StopEvent Body Digest) → Except BrokerError (List Body)
  | _, _, _, [] => .ok []
  | sequence, accountId, priorOccurredAt, row :: rest =>
    if stopRowValid fields sha256 haltKey sequence accountId priorOccurredAt row then
      (readStopRows haltKey (sequence + 1) (some row.accountId) (some row.occurredAt) rest).map
        (row.eventPayload :: ·)
    else .error (.stateError "stored emergency-stop event is invalid")

/-- One verified start event and an optional completion event. -/
def emergencyStopEvents (log : StopLog Body Digest) (haltKey : Identifier) :
    Except BrokerError (List Body) :=
  let rows := stopRows log haltKey
  if 2 < rows.length then
    .error (.stateError "stored emergency-stop event sequence is invalid")
  else readStopRows fields sha256 haltKey 1 none none rows

/-- Every verified emergency-stop lifecycle of one account. -/
def emergencyStopStatesForAccount (log : StopLog Body Digest) (accountId : Identifier) :
    Except BrokerError (List (Identifier × StopState)) :=
  let keys := (log.entries.filter fun entry =>
    entry.2.any fun row => decide (row.accountId = accountId)).map (·.1)
  (keys.mergeSort fun a b => a.text ≤ b.text).mapM fun haltKey =>
    (emergencyStopEvents fields sha256 log haltKey).bind fun events =>
    if events = [] ∨ ∃ event ∈ events, fields.accountId event ≠ some accountId then
      .error (.stateError "stored emergency-stop account state is invalid")
    else .ok (haltKey, if events.length = 2 then .completed else .started)

variable {fields sha256}

variable {haltKey : Identifier} {accountId : Option Identifier} {priorOccurredAt : Option Instant}
variable {payloads : List Body}

theorem readStopRows_payloads {sequence : Nat}
    {rows : List (StopEvent Body Digest)}
    (read : readStopRows fields sha256 haltKey sequence accountId priorOccurredAt rows =
      .ok payloads) :
    payloads = rows.map (·.eventPayload) := by
  induction rows generalizing sequence accountId priorOccurredAt payloads with
  | nil =>
    cases read
    rfl
  | cons row rest ih =>
    unfold readStopRows at read
    split at read
    · obtain ⟨later, behind, rfl⟩ := map_ok.mp read
      rw [ih behind, List.map_cons]
    · cases read

/-- One more row is believed when it fits behind the last. -/
theorem readStopRows_concat {sequence : Nat}
    {rows : List (StopEvent Body Digest)} {row : StopEvent Body Digest}
    (read : readStopRows fields sha256 haltKey sequence accountId priorOccurredAt rows =
      .ok payloads)
    (valid : stopRowValid fields sha256 haltKey (sequence + rows.length)
      ((rows.getLast?.map (·.accountId)).or accountId)
      ((rows.getLast?.map (·.occurredAt)).or priorOccurredAt) row = true) :
    readStopRows fields sha256 haltKey sequence accountId priorOccurredAt (rows ++ [row]) =
      .ok (payloads ++ [row.eventPayload]) := by
  induction rows generalizing sequence accountId priorOccurredAt payloads with
  | nil =>
    cases read
    have first : stopRowValid fields sha256 haltKey sequence accountId priorOccurredAt row = true := by
      simpa using valid
    rw [List.nil_append, readStopRows, if_pos first]
    rfl
  | cons head rest ih =>
    unfold readStopRows at read
    split at read
    · rename_i first
      obtain ⟨later, behind, rfl⟩ := map_ok.mp read
      have next := ih behind (by
        have count : sequence + 1 + rest.length = sequence + (head :: rest).length := by
          rw [List.length_cons]
          omega
        rw [getLast?_cons_or _ head rest accountId, getLast?_cons_or _ head rest priorOccurredAt,
          count]
        exact valid)
      rw [List.cons_append, readStopRows, if_pos first, next]
      rfl
    · cases read

/-- Believed rows are numbered from the sequence that is due. -/
theorem readStopRows_sequence {sequence : Nat}
    {rows : List (StopEvent Body Digest)}
    (read : readStopRows fields sha256 haltKey sequence accountId priorOccurredAt rows =
      .ok payloads) :
    ∀ row ∈ rows, sequence ≤ row.eventSequence ∧ row.eventSequence < sequence + rows.length ∧
      row.eventType.sequence = row.eventSequence := by
  induction rows generalizing sequence accountId priorOccurredAt payloads with
  | nil => simp
  | cons head rest ih =>
    unfold readStopRows at read
    split at read
    · rename_i first
      obtain ⟨later, behind, rfl⟩ := map_ok.mp read
      simp only [stopRowValid, Bool.and_eq_true, decide_eq_true_eq] at first
      obtain ⟨⟨⟨⟨⟨⟨⟨number, type⟩, _⟩, _⟩, _⟩, _⟩, _⟩, _⟩ := first
      intro row listed
      rw [List.length_cons]
      rcases List.mem_cons.mp listed with rfl | member
      · exact ⟨number.ge, by omega, type.trans number.symm⟩
      · obtain ⟨above, below, same⟩ := ih behind row member
        exact ⟨by omega, by omega, same⟩
    · cases read

variable {log : StopLog Body Digest}

theorem emergencyStopEvents_cases
    (read : emergencyStopEvents fields sha256 log haltKey = .ok payloads) :
    (stopRows log haltKey).length ≤ 2 ∧
      readStopRows fields sha256 haltKey 1 none none (stopRows log haltKey) = .ok payloads ∧
      payloads = (stopRows log haltKey).map (·.eventPayload) := by
  unfold emergencyStopEvents at read
  dsimp only at read
  split at read
  · cases read
  · rename_i short
    exact ⟨not_lt.mp short, read, readStopRows_payloads read⟩

variable [DecidableEq Body]

variable (fields sha256) in
/-- Append one exact emergency-stop lifecycle event, accepting exact replay. -/
def recordEmergencyStopEvent (log : StopLog Body Digest) (call : StopCall Body) :
    Except BrokerError (Digest × StopLog Body Digest) :=
  if fields.haltKey call.payload ≠ some call.haltKey ∨
      fields.accountId call.payload ≠ some call.accountId then
    .error (.valueError "emergency-stop event payload is invalid")
  else if fields.occurredAt call.payload ≠ some call.now then
    .error (.valueError "emergency-stop event timestamp is invalid")
  else
    (emergencyStopEvents fields sha256 log call.haltKey).bind fun events =>
    let sequence := call.eventType.sequence
    let digest := sha256 call.payload
    let rows := stopRows log call.haltKey
    match rows.find? fun row => row.eventSequence = sequence with
    | some existing =>
      if existing.accountId ≠ call.accountId ∨ existing.eventType ≠ call.eventType ∨
          existing.eventSha256 ≠ digest ∨ existing.eventPayload ≠ call.payload then
        .error (.stateError "stored emergency-stop event conflicts with request")
      else .ok (digest, log)
    | none =>
      if events.length ≠ sequence - 1 then
        .error (.stateError "emergency-stop event sequence is invalid")
      else
        let active : Except BrokerError (List (Identifier × StopState)) :=
          if call.eventType = .emergencyStopStarted then
            (emergencyStopStatesForAccount fields sha256 log call.accountId).map fun states =>
              states.filter fun entry => entry.2 = .started ∧ entry.1 ≠ call.haltKey
          else .ok []
        active.bind fun active =>
        if active ≠ [] then
          .error (.stateError "another emergency-stop operation is already in progress")
        else
          .ok (digest, log.insert call.haltKey (rows ++ [
            { eventSequence := sequence, accountId := call.accountId, eventType := call.eventType
              eventSha256 := digest, eventPayload := call.payload, occurredAt := call.now }]))

/-- The row that an accepted call appends. -/
def StopCall.row (sha256 : Body → Digest) (call : StopCall Body) : StopEvent Body Digest where
  eventSequence := call.eventType.sequence
  accountId := call.accountId
  eventType := call.eventType
  eventSha256 := sha256 call.payload
  eventPayload := call.payload
  occurredAt := call.now

/-- An accepted call repeats a row of its key, or appends the row that is due there. -/
theorem recordEmergencyStopEvent_cases {after : StopLog Body Digest} {call : StopCall Body}
    {digest : Digest} (accepted : recordEmergencyStopEvent fields sha256 log call =
      .ok (digest, after)) :
    fields.haltKey call.payload = some call.haltKey ∧
    fields.accountId call.payload = some call.accountId ∧
    fields.occurredAt call.payload = some call.now ∧
    (∃ payloads, emergencyStopEvents fields sha256 log call.haltKey = .ok payloads) ∧
    ((after = log ∧ ∃ row ∈ stopRows log call.haltKey, row.eventType = call.eventType ∧
        row.eventPayload = call.payload) ∨
      (stopRows log call.haltKey).length + 1 = call.eventType.sequence ∧
        after = log.insert call.haltKey (stopRows log call.haltKey ++ [call.row sha256])) := by
  unfold recordEmergencyStopEvent at accepted
  split at accepted
  · cases accepted
  rename_i identity
  push Not at identity
  split at accepted
  · cases accepted
  rename_i time
  obtain ⟨payloads, read, accepted⟩ := bind_ok.mp accepted
  obtain ⟨_, _, same⟩ := emergencyStopEvents_cases read
  refine ⟨identity.1, identity.2, not_not.mp time, ⟨payloads, read⟩, ?_⟩
  dsimp only at accepted
  split at accepted
  · rename_i existing found
    split at accepted
    · cases accepted
    · rename_i agrees
      push Not at agrees
      cases accepted
      exact .inl ⟨rfl, existing, List.mem_of_find?_eq_some found, agrees.2.1, agrees.2.2.2⟩
  · split at accepted
    · cases accepted
    · rename_i due
      obtain ⟨active, _, accepted⟩ := bind_ok.mp accepted
      split at accepted
      · cases accepted
      · cases accepted
        refine .inr ⟨?_, rfl⟩
        rw [not_not, same, List.length_map] at due
        cases type : call.eventType <;> rw [type] at due <;> simp [StopEventType.sequence] at due ⊢
          <;> simpa using due

/-- The log, and the calls that were accepted so far. -/
structure StopHistory (Body Digest : Type) where
  log : StopLog Body Digest
  accepted : List (StopCall Body)

variable (fields sha256) in
def StopHistory.step (history : StopHistory Body Digest) (call : StopCall Body) :
    StopHistory Body Digest :=
  match recordEmergencyStopEvent fields sha256 history.log call with
  | .ok (_, after) => ⟨after, history.accepted ++ [call]⟩
  | .error _ => history

/-- The events accepted under a key, each once, in the order of their first acceptance. -/
def StopHistory.events (history : StopHistory Body Digest) (haltKey : Identifier) :
    List (StopEventType × Body) :=
  ((history.accepted.filter fun call => call.haltKey = haltKey).map fun call =>
    (call.eventType, call.payload)).eraseDups

/-- A completion is not before what its key holds, and for the same account. -/
def CompletesInOrder (history : StopHistory Body Digest) (call : StopCall Body) : Prop :=
  call.eventType = .emergencyStopCompleted → ∀ row ∈ stopRows history.log call.haltKey,
    row.occurredAt ≤ call.now ∧ row.accountId = call.accountId

instance (history : StopHistory Body Digest) (call : StopCall Body) :
    Decidable (CompletesInOrder history call) :=
  inferInstanceAs (Decidable (_ → _))

variable (fields sha256) in
/-- Every key is readable, and holds what was accepted under it. -/
def StopHistory.Readable (history : StopHistory Body Digest) : Prop :=
  ∀ haltKey, emergencyStopEvents fields sha256 history.log haltKey =
      .ok ((stopRows history.log haltKey).map (·.eventPayload)) ∧
    history.events haltKey =
      (stopRows history.log haltKey).map fun row => (row.eventType, row.eventPayload)

theorem StopHistory.readable_empty :
    (⟨∅, []⟩ : StopHistory Body Digest).Readable fields sha256 := by
  intro haltKey
  exact ⟨rfl, rfl⟩

omit [DecidableEq Digest] in
/-- The events under a key after one more acceptance. -/
theorem StopHistory.events_accepted (history : StopHistory Body Digest) (call : StopCall Body)
    (log : StopLog Body Digest) (haltKey : Identifier) :
    (⟨log, history.accepted ++ [call]⟩ : StopHistory Body Digest).events haltKey =
      if call.haltKey = haltKey ∧ (call.eventType, call.payload) ∉ history.events haltKey then
        history.events haltKey ++ [(call.eventType, call.payload)]
      else history.events haltKey := by
  unfold StopHistory.events
  dsimp only
  rw [List.filter_append]
  by_cases here : call.haltKey = haltKey
  · rw [List.filter_cons_of_pos (by simpa using here), List.filter_nil, List.map_append,
      List.map_singleton, eraseDups_concat]
    by_cases seen : (call.eventType, call.payload) ∈
        (history.accepted.filter fun call => call.haltKey = haltKey).map fun call =>
          (call.eventType, call.payload)
    · rw [if_pos seen, if_neg fun both => both.2 (List.mem_eraseDups.mpr seen)]
    · rw [if_neg seen, if_pos ⟨here, fun listed => seen (List.mem_eraseDups.mp listed)⟩]
  · rw [List.filter_cons_of_neg (by simpa using here), List.filter_nil, List.append_nil,
      if_neg fun both => here both.1]

variable (sha256) in
omit [DecidableEq Body] in
/-- A row that is due, and in order when it completes, is believed. -/
theorem row_valid {call : StopCall Body}
    (haltKey : fields.haltKey call.payload = some call.haltKey)
    (accountId : fields.accountId call.payload = some call.accountId)
    (occurredAt : fields.occurredAt call.payload = some call.now)
    (due : (stopRows log call.haltKey).length + 1 = call.eventType.sequence)
    (inOrder : ∀ row ∈ stopRows log call.haltKey, call.eventType = .emergencyStopCompleted →
      row.occurredAt ≤ call.now ∧ row.accountId = call.accountId) :
    stopRowValid fields sha256 call.haltKey (1 + (stopRows log call.haltKey).length)
      (((stopRows log call.haltKey).getLast?.map (·.accountId)).or none)
      (((stopRows log call.haltKey).getLast?.map (·.occurredAt)).or none) (call.row sha256) =
        true := by
  simp only [stopRowValid, StopCall.row, Option.or_none, add_comm 1, due, haltKey, accountId,
    occurredAt, Bool.and_eq_true, decide_eq_true_eq, and_true, true_and, Option.all_map]
  cases last : (stopRows log call.haltKey).getLast? with
  | none => exact ⟨rfl, rfl⟩
  | some row =>
    have listed := List.mem_of_getLast? last
    have completes : call.eventType = .emergencyStopCompleted := by
      have some' := List.length_pos_of_mem listed
      cases type : call.eventType with
      | emergencyStopCompleted => rfl
      | emergencyStopStarted =>
        rw [type, StopEventType.sequence] at due
        omega
    obtain ⟨after, same⟩ := inOrder row listed completes
    simp [after, same]

/-- An accepted call in order leaves every key readable. -/
theorem StopHistory.readable_step {history : StopHistory Body Digest} {call : StopCall Body}
    (readable : history.Readable fields sha256) (inOrder : CompletesInOrder history call) :
    (history.step fields sha256 call).Readable fields sha256 := by
  unfold StopHistory.step
  split
  · rename_i digest after accepted
    obtain ⟨key, account, time, ⟨payloads, read⟩, ⟨rfl, row, listed, type, same⟩ | ⟨due, rfl⟩⟩ :=
      recordEmergencyStopEvent_cases accepted
    · intro haltKey
      refine ⟨(readable haltKey).1, ?_⟩
      rw [events_accepted, if_neg, (readable haltKey).2]
      rintro ⟨rfl, unseen⟩
      rw [(readable _).2] at unseen
      exact unseen (List.mem_map.mpr ⟨row, listed, by rw [type, same]⟩)
    · intro haltKey
      by_cases here : call.haltKey = haltKey
      · subst here
        obtain ⟨short, rows, payloads⟩ := emergencyStopEvents_cases read
        have rowsAfter : stopRows (history.log.insert call.haltKey
            (stopRows history.log call.haltKey ++ [call.row sha256])) call.haltKey =
            stopRows history.log call.haltKey ++ [call.row sha256] := by
          simp [stopRows]
        have numbers := readStopRows_sequence rows
        have fresh : (call.eventType, call.payload) ∉ history.events call.haltKey := by
          rw [(readable _).2]
          intro seen
          obtain ⟨row, listed, same⟩ := List.mem_map.mp seen
          obtain ⟨_, below, number⟩ := numbers row listed
          rw [(Prod.mk.inj same).1] at number
          omega
        have valid := row_valid sha256 key account time due fun row listed completes =>
          inOrder completes row listed
        constructor
        · unfold emergencyStopEvents
          rw [rowsAfter]
          have two : ¬ 2 < (stopRows history.log call.haltKey ++ [call.row sha256]).length := by
            rw [List.length_append, List.length_singleton, due]
            cases call.eventType <;> simp [StopEventType.sequence]
          rw [if_neg two, readStopRows_concat rows valid, payloads, List.map_append]
          rfl
        · rw [events_accepted, if_pos ⟨rfl, fresh⟩, (readable _).2, rowsAfter, List.map_append]
          rfl
      · have rowsAfter : stopRows (history.log.insert call.haltKey
            (stopRows history.log call.haltKey ++ [call.row sha256])) haltKey =
            stopRows history.log haltKey := by
          simp [stopRows, AList.lookup_insert_ne (Ne.symm here)]
        rw [events_accepted, if_neg fun both => here both.1, rowsAfter]
        refine ⟨?_, (readable haltKey).2⟩
        have read := (readable haltKey).1
        unfold emergencyStopEvents at read ⊢
        rwa [rowsAfter]
  · exact readable

end Log

/-- A payload that holds nothing but what is checked. -/
structure StopNote where
  haltKey : Identifier
  accountId : Identifier
  occurredAt : Instant
  deriving DecidableEq

def noteFields : StopFields StopNote where
  haltKey note := some note.haltKey
  accountId note := some note.accountId
  occurredAt note := some note.occurredAt

def stopKey : Identifier := ⟨"emergency-halt-1", by decide⟩
def stoppedAccount : Identifier := ⟨"paper-account", paperAccount_valid⟩

/-- A call that records an event of the halt at an instant. -/
def noteAt (eventType : StopEventType) (now : Instant) : StopCall StopNote where
  haltKey := stopKey
  accountId := stoppedAccount
  eventType := eventType
  payload := ⟨stopKey, stoppedAccount, now⟩
  now := now

/-- The start of a stop and its completion ten instants later. -/
def startedThenCompleted : List (StopCall StopNote) :=
  [noteAt .emergencyStopStarted 10, noteAt .emergencyStopCompleted 20]

end TradingEngine.Broker
