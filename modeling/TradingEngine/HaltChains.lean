import TradingEngine.RiskControl

/-!
# Histories of halts

Calls of `record_halt` as they arrive: any texts for the keys and the reason, any
clock, some accepted, some repeated and some refused. A call validates its texts,
reads the chain of its account, appends at most one event in a transaction and
reports the status that it reads back. What the writer establishes is what the reader
asks, so the chains stay readable, and an accepted key is counted once.
-/

namespace TradingEngine.Broker

open Runs

variable {Digest : Type} [DecidableEq Digest]

/-- The arguments of one call. A datetime that is not in UTC has no instant. -/
structure HaltRequest where
  haltKey : String
  accountId : String
  reason : String
  now : Option Instant

def MAX_REASON_CHARS : Nat := 512

def requireIdentifier (value label : String) : Except BrokerError Identifier :=
  if valid : validIdentifier value = true then .ok ⟨value, valid⟩
  else .error (.valueError (label ++ " is invalid"))

section Calls

-- Which characters are white space, and which are printable.
variable (isspace isprintable : Char → Bool) (sha256 : Payload Digest → Digest)

/-- A reason is not empty, has no white space at either end, is not too long and can be
printed. -/
def validReason (reason : String) : Bool :=
  reason ≠ "" && !(reason.toList.head?.any isspace) && !(reason.toList.getLast?.any isspace) &&
    decide (reason.length ≤ MAX_REASON_CHARS) && reason.toList.all isprintable

/-- The reader with its check of every stored reason. -/
def checkedEvents (events : List (HaltEvent Digest)) (accountId : Identifier) :
    Except BrokerError (List (HaltEvent Digest)) :=
  if (accountEvents events accountId).all fun row => validReason isspace isprintable row.reason then
    verifiedEvents sha256 events accountId
  else .error (.stateError "stored risk-control event is invalid")

def checkedStatus (events : List (HaltEvent Digest)) (accountId : Identifier) :
    Except BrokerError (RiskControlStatus Digest) :=
  (checkedEvents isspace isprintable sha256 events accountId).bind fun _ =>
    controlStatus sha256 events accountId

/-- What one call commits: its account and the events afterwards. -/
def haltTransaction (events : List (HaltEvent Digest)) (request : HaltRequest) :
    Except BrokerError (Identifier × List (HaltEvent Digest)) :=
  (requireIdentifier request.haltKey "halt key").bind fun haltKey =>
  (requireIdentifier request.accountId "account identifier").bind fun accountId =>
  if validReason isspace isprintable request.reason then
    match request.now with
    | none => .error (.valueError "risk-control timestamp must be UTC")
    | some now =>
      (checkedEvents isspace isprintable sha256 events accountId).bind fun _ =>
      (recordHalt sha256 events haltKey accountId request.reason now).map fun after =>
        (accountId, after)
  else .error (.valueError "risk-control reason is invalid")

/-- What one call reports, and the events that it leaves. -/
def recordHaltCall (events : List (HaltEvent Digest)) (request : HaltRequest) :
    Except BrokerError (RiskControlStatus Digest) × List (HaltEvent Digest) :=
  match haltTransaction isspace isprintable sha256 events request with
  | .error raised => (.error raised, events)
  | .ok (accountId, after) => (checkedStatus isspace isprintable sha256 after accountId, after)

/-- The events, and the requests that were accepted so far. -/
structure HaltHistory (Digest : Type) where
  events : List (HaltEvent Digest)
  accepted : List HaltRequest

def HaltHistory.step (history : HaltHistory Digest) (request : HaltRequest) : HaltHistory Digest :=
  let (outcome, after) := recordHaltCall isspace isprintable sha256 history.events request
  ⟨after, if outcome.isOk then history.accepted ++ [request] else history.accepted⟩

end Calls

/-- The distinct accepted keys of some accounts, in the order of their acceptance. -/
def HaltHistory.acceptedKeys (history : HaltHistory Digest) (among : String → Bool) : List String :=
  ((history.accepted.filter fun request => among request.accountId).map
    HaltRequest.haltKey).eraseDups

variable {isspace isprintable : Char → Bool} {sha256 : Payload Digest → Digest}

theorem requireIdentifier_ok {value label : String} {identifier : Identifier}
    (accepted : requireIdentifier value label = .ok identifier) : identifier.text = value := by
  unfold requireIdentifier at accepted
  split at accepted
  · cases accepted
    rfl
  · cases accepted

theorem requireIdentifier_text (identifier : Identifier) (label : String) :
    requireIdentifier identifier.text label = .ok identifier := by
  unfold requireIdentifier
  rw [dif_pos identifier.valid]

/-- A call that commits has valid texts and a clock, and records a halt. -/
theorem haltTransaction_cases {events after : List (HaltEvent Digest)} {request : HaltRequest}
    {accountId : Identifier}
    (committed : haltTransaction isspace isprintable sha256 events request = .ok (accountId, after)) :
    ∃ haltKey now, haltKey.text = request.haltKey ∧ accountId.text = request.accountId ∧
      validReason isspace isprintable request.reason = true ∧
      recordHalt sha256 events haltKey accountId request.reason now = .ok after := by
  obtain ⟨haltKey, key, committed⟩ := bind_ok.mp committed
  obtain ⟨account, named, committed⟩ := bind_ok.mp committed
  split at committed
  · rename_i reason
    split at committed
    · cases committed
    · rename_i now _
      obtain ⟨rows, _, committed⟩ := bind_ok.mp committed
      obtain ⟨events, recorded, same⟩ := map_ok.mp committed
      cases same
      exact ⟨haltKey, now, requireIdentifier_ok key, requireIdentifier_ok named, reason, recorded⟩
  · cases committed

variable (isspace isprintable sha256) in
/-- The chains are in order and hold the accepted halts, each key once. -/
structure HaltHistory.Sound (history : HaltHistory Digest) : Prop where
  chains : ChainsHold sha256 history.events
  reasons : ∀ event ∈ history.events, validReason isspace isprintable event.reason = true
  keys : ∀ among : String → Bool,
    (history.events.filter fun event => among event.accountId.text).map
      (fun event => event.haltKey.text) = history.acceptedKeys among
  held : ∀ request ∈ history.accepted, ∃ event ∈ history.events,
    event.haltKey.text = request.haltKey ∧ event.accountId.text = request.accountId ∧
      event.reason = request.reason

namespace HaltHistory.Sound

variable {history : HaltHistory Digest}

theorem checkedEvents (sound : history.Sound isspace isprintable sha256) (accountId : Identifier) :
    checkedEvents isspace isprintable sha256 history.events accountId =
      .ok (history.events.filter fun event => event.accountId = accountId) := by
  have reasons : ((accountEvents history.events accountId).all fun row =>
      validReason isspace isprintable row.reason) = true := by
    refine List.all_eq_true.mpr fun row listed => ?_
    rw [sound.chains.accountEvents] at listed
    exact sound.reasons row (List.mem_filter.mp listed).1
  rw [Broker.checkedEvents, if_pos reasons, sound.chains.verifiedEvents]

theorem checkedStatus (sound : history.Sound isspace isprintable sha256) (accountId : Identifier) :
    ∃ status, checkedStatus isspace isprintable sha256 history.events accountId = .ok status ∧
      status.halted = true ∧ status.eventCount =
        (history.events.filter fun event => event.accountId = accountId).length := by
  unfold Broker.checkedStatus controlStatus
  rw [sound.checkedEvents, sound.chains.verifiedEvents]
  refine ⟨_, rfl, ?_⟩
  dsimp only
  split
  · rename_i none'
    rw [List.getLast?_eq_none_iff.mp none']
    exact ⟨rfl, rfl⟩
  · exact ⟨rfl, rfl⟩

theorem distinct (sound : history.Sound isspace isprintable sha256) :
    (history.events.map fun event => event.haltKey.text).Nodup := by
  have all := sound.keys fun _ => true
  rw [List.filter_true] at all
  rw [all]
  exact nodup_eraseDups _

end HaltHistory.Sound

omit [DecidableEq Digest] in
/-- The keys after one more acceptance. -/
theorem HaltHistory.acceptedKeys_concat (history : HaltHistory Digest) (request : HaltRequest)
    (after : List (HaltEvent Digest)) (among : String → Bool) :
    (⟨after, history.accepted ++ [request]⟩ : HaltHistory Digest).acceptedKeys among =
      if among request.accountId = true ∧ request.haltKey ∉ history.acceptedKeys among then
        history.acceptedKeys among ++ [request.haltKey]
      else history.acceptedKeys among := by
  unfold acceptedKeys
  rw [List.filter_append]
  by_cases here : among request.accountId = true
  · have last : [request].filter (fun request => among request.accountId) = [request] := by
      simp [here]
    rw [last, List.map_append, List.map_singleton, eraseDups_concat]
    simp only [here, true_and, List.mem_eraseDups]
    split <;> simp_all
  · have last : [request].filter (fun request => among request.accountId) = [] := by
      simp [here]
    rw [last, List.append_nil, if_neg fun both => here both.1]

/-- What a call commits keeps a history in order. -/
theorem HaltHistory.Sound.commit {history : HaltHistory Digest} {request : HaltRequest}
    {accountId : Identifier} {after : List (HaltEvent Digest)}
    (sound : history.Sound isspace isprintable sha256)
    (committed : haltTransaction isspace isprintable sha256 history.events request =
      .ok (accountId, after)) :
    (⟨after, history.accepted ++ [request]⟩ : HaltHistory Digest).Sound isspace isprintable
      sha256 := by
  obtain ⟨haltKey, now, key, account, reason, recorded⟩ := haltTransaction_cases committed
  have chains := recordHalt_chains sound.chains recorded
  have kept := recordHalt_extends sound.chains recorded
  have held : (∃ event ∈ after, event.haltKey.text = request.haltKey ∧
      event.accountId.text = request.accountId ∧ event.reason = request.reason) →
      ∀ earlier ∈ history.accepted ++ [request], ∃ event ∈ after,
        event.haltKey.text = earlier.haltKey ∧ event.accountId.text = earlier.accountId ∧
          event.reason = earlier.reason := by
    intro now' earlier listed
    rcases List.mem_append.mp listed with old | new
    · obtain ⟨event, stored, same⟩ := sound.held earlier old
      exact ⟨event, kept.subset stored, same⟩
    · obtain rfl := List.mem_singleton.mp new
      exact now'
  obtain ⟨rfl, existing, listed, sameKey, sameAccount, sameReason⟩ |
    ⟨event, rfl, sameKey, sameAccount, sameReason, fresh, _⟩ := recordHalt_cases sound.chains recorded
  · refine ⟨chains, sound.reasons, ?_, held ⟨existing, listed, ?_⟩⟩
    · intro among
      rw [acceptedKeys_concat, if_neg, sound.keys]
      rintro ⟨inside, unseen⟩
      rw [← sound.keys] at unseen
      refine unseen (List.mem_map.mpr ⟨existing, List.mem_filter.mpr ⟨listed, ?_⟩, ?_⟩)
      · rwa [sameAccount, account]
      · rw [sameKey, key]
    · exact ⟨sameKey ▸ key, sameAccount ▸ account, sameReason⟩
  · refine ⟨chains, ?_, ?_, held ⟨event, by simp, sameKey ▸ key, sameAccount ▸ account, sameReason⟩⟩
    · intro stored listed
      rcases List.mem_append.mp listed with old | new
      · exact sound.reasons stored old
      · obtain rfl := List.mem_singleton.mp new
        exact sameReason ▸ reason
    · intro among
      have unseen : request.haltKey ∉ history.acceptedKeys among := by
        rw [← sound.keys]
        intro listed
        obtain ⟨earlier, stored, same⟩ := List.mem_map.mp listed
        refine fresh earlier (List.mem_filter.mp stored).1 ?_
        cases haltKey
        cases known : earlier.haltKey
        simp_all
      rw [acceptedKeys_concat, List.filter_append, List.map_append, sound.keys]
      by_cases inside : among request.accountId = true
      · rw [if_pos ⟨inside, unseen⟩, List.filter_cons_of_pos (by rwa [sameAccount, account]),
          List.filter_nil, List.map_singleton, sameKey, key]
      · rw [if_neg fun both => inside both.1,
          List.filter_cons_of_neg (by rwa [sameAccount, account]), List.filter_nil, List.map_nil,
          List.append_nil]

/-- Every call keeps a history in order. -/
theorem HaltHistory.Sound.step {history : HaltHistory Digest}
    (sound : history.Sound isspace isprintable sha256) (request : HaltRequest) :
    (history.step isspace isprintable sha256 request).Sound isspace isprintable sha256 := by
  unfold HaltHistory.step recordHaltCall
  cases committed : haltTransaction isspace isprintable sha256 history.events request with
  | error raised => exact sound
  | ok result =>
    obtain ⟨accountId, after⟩ := result
    have later := sound.commit committed
    obtain ⟨status, read, _⟩ := later.checkedStatus accountId
    simpa only [read, Except.isOk, Except.toBool, if_true] using later

/-- A key that was accepted may be repeated at any time, and adds nothing. -/
theorem HaltHistory.Sound.repeated {history : HaltHistory Digest}
    (sound : history.Sound isspace isprintable sha256) {request : HaltRequest}
    (accepted : request ∈ history.accepted) (now : Instant) :
    ∃ status, recordHaltCall isspace isprintable sha256 history.events
      { request with now := some now } = (.ok status, history.events) := by
  obtain ⟨event, listed, key, account, reason⟩ := sound.held request accepted
  have found : (history.events.find? fun row => row.haltKey = event.haltKey) = some event := by
    refine (List.find?_eq_some_iff_append).mpr ⟨by simp, ?_⟩
    obtain ⟨front, back, split⟩ := List.append_of_mem listed
    refine ⟨front, back, split, ?_⟩
    intro earlier before
    have distinct := sound.distinct
    rw [split, List.map_append, List.map_cons] at distinct
    have apart := (List.nodup_append.mp distinct).2.2 _ (List.mem_map_of_mem before) _
      List.mem_cons_self
    simpa using fun same : earlier.haltKey = event.haltKey => apart (congrArg Identifier.text same)
  have typed : event.eventType = "halt" := by
    refine chained_halts (sound.chains event.accountId) event ?_
    exact List.mem_filter.mpr ⟨listed, by simp⟩
  have committed : haltTransaction isspace isprintable sha256 history.events
      { request with now := some now } = .ok (event.accountId, history.events) := by
    unfold haltTransaction recordHalt
    rw [← key, ← account, requireIdentifier_text, requireIdentifier_text, ← reason]
    simp only [Except.bind, sound.reasons event listed, if_true, sound.checkedEvents,
      sound.chains.verifiedEvents, found, typed, ne_eq, not_true_eq_false, or_self, if_false,
      Except.map]
  obtain ⟨status, read, _⟩ := sound.checkedStatus event.accountId
  exact ⟨status, by simp only [recordHaltCall, committed, read]⟩

theorem HaltHistory.sound_empty :
    (⟨[], []⟩ : HaltHistory Digest).Sound isspace isprintable sha256 := by
  refine ⟨chainsHold_nil, ?_, fun _ => rfl, ?_⟩
  · intro event listed
    cases listed
  · intro request listed
    cases listed

variable (isspace isprintable sha256) in
/-- After every call each chain verifies and holds the distinct accepted keys of its
account, the account is halted, and a key that was accepted adds nothing again. -/
theorem halts_chain (requests : List HaltRequest) :
    ∀ reached ∈ states (HaltHistory.step isspace isprintable sha256) ⟨[], []⟩ requests,
      (reached.events.map fun event => event.haltKey.text) =
          (reached.accepted.map HaltRequest.haltKey).eraseDups ∧
      (∀ accountId, ∃ rows status,
        checkedEvents isspace isprintable sha256 reached.events accountId = .ok rows ∧
        (rows.map fun event => event.haltKey.text) =
          reached.acceptedKeys (fun account => account = accountId.text) ∧
        checkedStatus isspace isprintable sha256 reached.events accountId = .ok status ∧
        status.eventCount = rows.length ∧ status.halted = true) ∧
      ∀ request ∈ reached.accepted, ∀ now : Instant, ∃ status,
        recordHaltCall isspace isprintable sha256 reached.events { request with now := some now } =
          (.ok status, reached.events) := by
  intro reached member
  have sound : reached.Sound isspace isprintable sha256 :=
    states_invariant (fun history => history.Sound isspace isprintable sha256)
      (fun _ request holds => holds.step request) HaltHistory.sound_empty requests reached member
  refine ⟨?_, ?_, fun request listed now => sound.repeated listed now⟩
  · have all := sound.keys fun _ => true
    unfold HaltHistory.acceptedKeys at all
    rwa [List.filter_true, List.filter_true] at all
  · intro accountId
    obtain ⟨status, read, halted, count⟩ := sound.checkedStatus accountId
    refine ⟨_, status, sound.checkedEvents accountId, ?_, read, count, halted⟩
    have same : (reached.events.filter fun event => event.accountId = accountId) =
        reached.events.filter fun event => event.accountId.text = accountId.text := by
      refine List.filter_congr fun event _ => decide_eq_decide.mpr ⟨congrArg _, fun texts => ?_⟩
      cases known : event.accountId
      cases accountId
      simp_all
    rw [same]
    exact sound.keys fun account => account = accountId.text

section Samples

/-- What small runs tell apart among the payloads of halts. -/
def haltText : Payload String → String
  | .halt body => body.accountId.text ++ " " ++ body.haltKey.text
  | _ => "other"

def isVisible (char : Char) : Bool := !char.isWhitespace

/-- One halt of each of two accounts, a repetition and a key of another account. -/
def fourRequests : List HaltRequest :=
  [⟨"halt-1", "paper-account", "operator", some 10⟩, ⟨"halt-2", "league-account", "drill", some 20⟩,
    ⟨"halt-1", "paper-account", "operator", some 30⟩, ⟨"halt-2", "paper-account", "drill", some 40⟩]

/-- The repetition is accepted again, and the last call is refused. -/
theorem fourRequests_chain :
    (fourRequests.foldl (HaltHistory.step Char.isWhitespace isVisible haltText)
      ⟨[], []⟩).accepted.map HaltRequest.haltKey = ["halt-1", "halt-2", "halt-1"] ∧
    ∀ reached ∈ states (HaltHistory.step Char.isWhitespace isVisible haltText) ⟨[], []⟩ fourRequests,
      (reached.events.map fun event => event.haltKey.text) =
        (reached.accepted.map HaltRequest.haltKey).eraseDups := by
  constructor
  · decide +kernel
  · intro reached visited
    exact (halts_chain Char.isWhitespace isVisible haltText fourRequests reached visited).1

end Samples

end TradingEngine.Broker
