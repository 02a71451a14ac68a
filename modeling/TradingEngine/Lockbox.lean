import TradingEngine.Runs

/-!
# The lockbox ledger

Before an experiment's cohort may be dispatched, its whole registered trial set is
committed as a marker over the sessions that it consumes. A marker is written once;
events are appended to it, and an evaluation is tagged by what the ledger holds.

A digest or an event kind that a caller supplies is absent when its text is not one
of the admitted values. A stored payload is modelled by the record that it encodes.
Instants are microseconds and sessions are day numbers, in the order of their texts.
-/

namespace TradingEngine.Lockbox

open Runs

abbrev Instant := Nat
abbrev Session := Nat

inductive LockboxError where
  | integrity (reason : String)
  | constraint

inductive Role where
  | initiating | paired | crossModel
  deriving DecidableEq

inductive EventKind where
  | dispatchStarted | dispatchFailed | dispatched | partialRun | crashed | completed | viewed
  | armArtifactFrozen | developmentInspected
  deriving DecidableEq

/-- The kinds that only a dispatch of the initiating arm may record. -/
def EventKind.ofDispatch : EventKind → Bool
  | .dispatchStarted | .dispatchFailed | .dispatched => true
  | _ => false

variable {Digest : Type} [LinearOrder Digest]

/-- An arm as the caller describes it. -/
structure ConfirmatoryArm (Digest : Type) where
  trialId : String
  executionId : String
  registrationSha256 : Option Digest
  role : Option Role

/-- An arm of a committed trial set. -/
structure Arm (Digest : Type) where
  trialId : String
  executionId : String
  registrationSha256 : Digest
  role : Role
  deriving DecidableEq

structure MarkerPayload (Digest : Type) where
  experimentId : String
  cohortId : String
  sessions : List Session
  arms : List (Arm Digest)
  initiatingExecutionId : String
  trialSetSha256 : Digest
  committedAt : Instant
  deriving DecidableEq

/-- What is hashed in canonical form. -/
inductive Canonical (Digest : Type) where
  | trialSet (arms : List (Arm Digest)) (sessions : List Session)
  | marker (payload : MarkerPayload Digest)
  | initiatingExecutionOnce (markerSha256 : Digest)

/-- A row of `w4_lockbox_markers`. -/
structure MarkerRow (Digest : Type) where
  markerSha256 : Digest
  payload : MarkerPayload Digest
  deriving DecidableEq

/-- A row of `w4_lockbox_sessions`. -/
structure SessionRow (Digest : Type) where
  markerSha256 : Digest
  session : Session

/-- A row of `w4_lockbox_events`. -/
structure EventRow (Digest : Type) where
  markerSha256 : Digest
  eventIndex : Nat
  executionId : String
  eventKind : EventKind
  occurredAt : Instant
  sourceSha256 : Digest

/-- The tables, each in the order in which its rows were inserted. -/
structure Ledger (Digest : Type) where
  markers : List (MarkerRow Digest)
  sessions : List (SessionRow Digest)
  events : List (EventRow Digest)

def Ledger.empty : Ledger Digest := ⟨[], [], []⟩

/-- The marker of an experiment's cohort. -/
def Ledger.marker (ledger : Ledger Digest) (experimentId cohortId : String) :
    Option (MarkerRow Digest) :=
  ledger.markers.find? fun row =>
    row.payload.experimentId = experimentId ∧ row.payload.cohortId = cohortId

/-- The events of one marker, in the order of their index. -/
def Ledger.eventsOf (ledger : Ledger Digest) (markerSha256 : Digest) : List (EventRow Digest) :=
  ledger.events.filter fun event => event.markerSha256 = markerSha256

def hash (value : Option Digest) (field : String) : Except LockboxError Digest :=
  match value with
  | some digest => .ok digest
  | none => .error (.integrity ("invalid_" ++ field))

/-- Sessions are given in their order, each once. -/
def sessionValues (sessions : List Session) : Except LockboxError (List Session) :=
  if sessions = [] ∨ ¬ sessions.Pairwise (· < ·) then
    .error (.integrity "invalid_lockbox_sessions")
  else .ok sessions

def armPayload (arm : ConfirmatoryArm Digest) : Except LockboxError (Arm Digest) :=
  match arm.role with
  | none => .error (.integrity "invalid_lockbox_arm")
  | some role =>
    if arm.trialId = "" ∨ arm.executionId = "" then .error (.integrity "invalid_lockbox_arm")
    else (hash arm.registrationSha256 "registration_sha256").map fun registrationSha256 =>
      ⟨arm.trialId, arm.executionId, registrationSha256, role⟩

/-- Payloads are ordered by trial and then by execution. -/
def armPayloads (arms : List (ConfirmatoryArm Digest)) : Except LockboxError (List (Arm Digest)) :=
  (arms.mapM armPayload).map fun payloads =>
    payloads.insertionSort fun first second =>
      toLex (first.trialId, first.executionId) ≤ toLex (second.trialId, second.executionId)

inductive RegisteredAt where
  | unreadable | unzoned
  | instant (value : Instant)

/-- What the trial registry holds of a trial; a field is absent when it is missing or of
another type. -/
structure Registration (Digest : Type) where
  registrationSha256 : Option Digest
  status : Option String
  authority : Option String
  sessions : Option (List Session)
  trialSetSha256 : Option Digest
  registeredAt : RegisteredAt

/-- The arguments of one commit. -/
structure BeginArgs (Digest : Type) where
  experimentId : String
  cohortId : String
  sessions : List Session
  confirmatoryArms : List (ConfirmatoryArm Digest)
  initiatingExecutionId : String
  expectedTrialSetSha256 : Option Digest
  committedAt : Instant
  registrationAsOf : String → Instant → Option (Registration Digest)

/-- The registry confirms an arm as of the commit. -/
def requireRegistered (args : BeginArgs Digest) (sessions : List Session) (actualTrialSet : Digest)
    (arm : Arm Digest) : Except LockboxError Unit :=
  match args.registrationAsOf arm.trialId args.committedAt with
  | none => .error (.integrity "trial_not_registered_as_of_marker")
  | some registered =>
    if registered.registrationSha256 ≠ some arm.registrationSha256 then
      .error (.integrity "registered_trial_digest_mismatch")
    else if registered.status ≠ some "registered" ∨
        registered.authority ≠ some "historical_research_only" ∨
        registered.sessions ≠ some sessions ∨
        registered.trialSetSha256 ≠ some actualTrialSet then
      .error (.integrity "registered_trial_set_mismatch")
    else match registered.registeredAt with
      | .unreadable => .error (.integrity "invalid_trial_registered_at")
      | .unzoned => .error (.integrity "trial_not_registered_as_of_marker")
      | .instant registeredAt =>
        if args.committedAt < registeredAt then
          .error (.integrity "trial_not_registered_as_of_marker")
        else .ok ()

section Ledger

variable (canonicalSha256 : Canonical Digest → Digest)

def trialSetSha256 (arms : List (ConfirmatoryArm Digest)) (sessions : List Session) :
    Except LockboxError Digest :=
  (armPayloads arms).bind fun payloads =>
  if payloads = [] ∨ ¬ (payloads.map Arm.executionId).Nodup then
    .error (.integrity "invalid_lockbox_arm_set")
  else (sessionValues sessions).map fun sessionValues =>
    canonicalSha256 (.trialSet payloads sessionValues)

/-- The payload that a commit would write, when everything it names is in order. -/
def checkedPayload (args : BeginArgs Digest) : Except LockboxError (MarkerPayload Digest) :=
  (sessionValues args.sessions).bind fun sessions =>
  (armPayloads args.confirmatoryArms).bind fun armPayloads =>
  (trialSetSha256 canonicalSha256 args.confirmatoryArms args.sessions).bind fun actualTrialSet =>
  (hash args.expectedTrialSetSha256 "trial_set_sha256").bind fun expected =>
  if expected ≠ actualTrialSet then .error (.integrity "trial_set_digest_mismatch")
  else
    let initiating := armPayloads.filter fun arm => arm.executionId = args.initiatingExecutionId
    if initiating.map Arm.role ≠ [.initiating] then .error (.integrity "initiating_arm_missing")
    else (armPayloads.forM (requireRegistered args sessions actualTrialSet)).map fun _ =>
      { experimentId := args.experimentId, cohortId := args.cohortId, sessions
        arms := armPayloads, initiatingExecutionId := args.initiatingExecutionId
        trialSetSha256 := actualTrialSet, committedAt := args.committedAt }

/-- The insertion of a marker with its sessions. A digest that is already stored
breaks the primary key and rolls the transaction back. -/
def insertMarker (ledger : Ledger Digest) (row : MarkerRow Digest) :
    Except LockboxError (Ledger Digest) :=
  if ledger.markers.any fun stored => stored.markerSha256 = row.markerSha256 then
    .error .constraint
  else .ok
    { ledger with
      markers := ledger.markers ++ [row]
      sessions := ledger.sessions ++ row.payload.sessions.map (SessionRow.mk row.markerSha256) }

/-- Commit the complete registered trial set before any dispatch, or find it already
committed. The commit times of one experiment grow. -/
def beginLockboxConsumption (ledger : Ledger Digest) (args : BeginArgs Digest) :
    Except LockboxError (Digest × Ledger Digest) :=
  (checkedPayload canonicalSha256 args).bind fun payload =>
  let markerSha256 := canonicalSha256 (.marker payload)
  match ledger.marker args.experimentId args.cohortId with
  | some existing =>
    if existing = ⟨markerSha256, payload⟩ then .ok (markerSha256, ledger)
    else .error (.integrity "lockbox_first_marker_conflict")
  | none =>
    if ledger.markers.any fun row =>
        row.payload.experimentId = args.experimentId ∧
          payload.committedAt ≤ row.payload.committedAt then
      .error (.integrity "non_monotone_lockbox_marker")
    else (insertMarker ledger ⟨markerSha256, payload⟩).map fun ledger => (markerSha256, ledger)

/-- The arguments of one event. -/
structure EventArgs (Digest : Type) where
  markerSha256 : Option Digest
  executionId : String
  eventKind : Option EventKind
  occurredAt : Instant
  sourceSha256 : Option Digest

/-- A dispatch starts once, and once more after its first start has failed; it fails
or succeeds only while a start is open, and nothing follows its success. -/
def requireDispatch (payload : MarkerPayload Digest) (markerSha256 : Digest)
    (events : List (EventRow Digest)) (executionId : String) (eventKind : EventKind)
    (sourceSha256 : Digest) : Except LockboxError Unit :=
  let expected := canonicalSha256 (.initiatingExecutionOnce markerSha256)
  if executionId ≠ payload.initiatingExecutionId ∨ sourceSha256 ≠ expected then
    .error (.integrity "invalid_lockbox_dispatch")
  else
    let kinds := (events.map EventRow.eventKind).filter EventKind.ofDispatch
    let starts := kinds.count .dispatchStarted
    let failures := kinds.count .dispatchFailed
    if .dispatched ∈ kinds then .error (.integrity "lockbox_already_dispatched")
    else if eventKind = .dispatchStarted ∧ ¬ (starts = 0 ∨ starts = 1 ∧ failures = 1) then
      .error (.integrity "lockbox_dispatch_retry_unavailable")
    else if eventKind = .dispatchFailed ∧ starts ≠ failures + 1 then
      .error (.integrity "lockbox_dispatch_not_started")
    else if eventKind = .dispatched ∧ starts ≠ failures + 1 then
      .error (.integrity "lockbox_dispatch_not_started")
    else .ok ()

/-- The checks of an event against its marker and the marker's earlier events. -/
def requireEvent (row : MarkerRow Digest) (events : List (EventRow Digest)) (executionId : String)
    (eventKind : EventKind) (occurredAt : Instant) (sourceSha256 : Digest) :
    Except LockboxError Unit :=
  let arms := row.payload.arms
  if eventKind ≠ .developmentInspected ∧ ¬ arms.any (fun arm => arm.executionId = executionId) then
    .error (.integrity "event_execution_not_registered")
  else
    (if eventKind.ofDispatch then
      requireDispatch canonicalSha256 row.payload row.markerSha256 events executionId eventKind
        sourceSha256
    else .ok ()).bind fun _ =>
    if eventKind = .armArtifactFrozen ∧ arms.any (fun arm =>
        arm.executionId = executionId ∧ arm.registrationSha256 ≠ sourceSha256) then
      .error (.integrity "unregistered_arm_artifact")
    else if occurredAt < row.payload.committedAt then
      .error (.integrity "event_before_lockbox_marker")
    else if events.any fun event =>
        event.executionId = executionId ∧ occurredAt < event.occurredAt then
      .error (.integrity "non_monotone_lockbox_event")
    else .ok ()

/-- Append an event to a marker, or find the same event already stored. -/
def appendLockboxEvent (ledger : Ledger Digest) (args : EventArgs Digest) :
    Except LockboxError (Nat × Ledger Digest) :=
  match args.eventKind with
  | none => .error (.integrity "invalid_lockbox_event")
  | some eventKind =>
  if args.executionId = "" then .error (.integrity "invalid_lockbox_event")
  else
  (hash args.markerSha256 "marker_sha256").bind fun markerSha256 =>
  (hash args.sourceSha256 "source_sha256").bind fun sourceSha256 =>
  match ledger.markers.find? fun row => row.markerSha256 = markerSha256 with
  | none => .error (.integrity "lockbox_marker_missing")
  | some row =>
    let events := ledger.eventsOf markerSha256
    (requireEvent canonicalSha256 row events args.executionId eventKind args.occurredAt
      sourceSha256).bind fun _ =>
    match events.find? fun event =>
        event.executionId = args.executionId ∧ event.eventKind = eventKind ∧
          event.occurredAt = args.occurredAt ∧ event.sourceSha256 = sourceSha256 with
    | some existing => .ok (existing.eventIndex, ledger)
    | none =>
      let eventIndex := (events.map EventRow.eventIndex).foldl max 0 + 1
      .ok (eventIndex,
        { ledger with
          events := ledger.events ++
            [⟨markerSha256, eventIndex, args.executionId, eventKind, args.occurredAt,
              sourceSha256⟩] })

/-- Every marker is stored once under its digest and its cohort, and the sessions are
those of the markers. -/
structure WellFormed (ledger : Ledger Digest) : Prop where
  digests : (ledger.markers.map MarkerRow.markerSha256).Nodup
  cohorts : (ledger.markers.map fun row =>
    (row.payload.experimentId, row.payload.cohortId)).Nodup
  sessions : ledger.sessions = ledger.markers.flatMap fun row =>
    row.payload.sessions.map (SessionRow.mk row.markerSha256)

omit [LinearOrder Digest] in
theorem WellFormed.empty : WellFormed (Ledger.empty : Ledger Digest) :=
  ⟨List.nodup_nil, List.nodup_nil, rfl⟩

omit [LinearOrder Digest] in
theorem WellFormed.same_digest {ledger : Ledger Digest} (wellFormed : WellFormed ledger)
    {row other : MarkerRow Digest} (stored : row ∈ ledger.markers) (also : other ∈ ledger.markers)
    (same : row.markerSha256 = other.markerSha256) : row = other :=
  List.inj_on_of_nodup_map wellFormed.digests stored also same

omit [LinearOrder Digest] in
omit [LinearOrder Digest] in
theorem Ledger.marker_some {ledger : Ledger Digest} {experimentId cohortId : String}
    {row : MarkerRow Digest} (found : ledger.marker experimentId cohortId = some row) :
    row ∈ ledger.markers ∧ row.payload.experimentId = experimentId ∧
      row.payload.cohortId = cohortId :=
  ⟨List.mem_of_find?_eq_some found, by simpa using List.find?_some found⟩

omit [LinearOrder Digest] in
theorem Ledger.marker_none {ledger : Ledger Digest} {experimentId cohortId : String}
    (missing : ledger.marker experimentId cohortId = none) {row : MarkerRow Digest}
    (stored : row ∈ ledger.markers) :
    (row.payload.experimentId, row.payload.cohortId) ≠ (experimentId, cohortId) := by
  have other := List.find?_eq_none.mp missing row stored
  simpa using other

variable {args : BeginArgs Digest}

/-- What a payload takes over from the arguments of its commit. -/
theorem checkedPayload_ok {payload : MarkerPayload Digest}
    (checked : checkedPayload canonicalSha256 args = .ok payload) :
    payload.experimentId = args.experimentId ∧ payload.cohortId = args.cohortId ∧
      payload.committedAt = args.committedAt := by
  obtain ⟨sessions, -, checked⟩ := bind_ok.mp checked
  obtain ⟨arms, -, checked⟩ := bind_ok.mp checked
  obtain ⟨trialSet, -, checked⟩ := bind_ok.mp checked
  obtain ⟨expected, -, checked⟩ := bind_ok.mp checked
  split at checked
  · cases checked
  · dsimp only at checked
    split at checked
    · cases checked
    · obtain ⟨_, -, rfl⟩ := map_ok.mp checked
      exact ⟨rfl, rfl, rfl⟩

/-- A commit finds its marker or stores it under a new digest and a new cohort. -/
theorem beginLockboxConsumption_ok {ledger next : Ledger Digest}
    {markerSha256 : Digest}
    (begun : beginLockboxConsumption canonicalSha256 ledger args = .ok (markerSha256, next)) :
    ∃ payload, checkedPayload canonicalSha256 args = .ok payload ∧
      markerSha256 = canonicalSha256 (.marker payload) ∧
      (ledger.marker args.experimentId args.cohortId = some ⟨markerSha256, payload⟩ ∧
          next = ledger ∨
        ledger.marker args.experimentId args.cohortId = none ∧
          (∀ row ∈ ledger.markers, row.markerSha256 ≠ markerSha256) ∧
          next = { ledger with
            markers := ledger.markers ++ [⟨markerSha256, payload⟩]
            sessions := ledger.sessions ++
              payload.sessions.map (SessionRow.mk markerSha256) }) := by
  obtain ⟨payload, checked, begun⟩ := bind_ok.mp begun
  refine ⟨payload, checked, ?_⟩
  cases found : ledger.marker args.experimentId args.cohortId with
  | some existing =>
    simp only [found] at begun
    split at begun
    · rename_i same
      cases begun
      exact ⟨rfl, .inl ⟨by rw [same], rfl⟩⟩
    · cases begun
  | none =>
    simp only [found] at begun
    split at begun
    · cases begun
    · obtain ⟨inserted, insertion, same⟩ := map_ok.mp begun
      cases same
      simp only [insertMarker] at insertion
      split at insertion
      · cases insertion
      · rename_i fresh
        cases insertion
        refine ⟨rfl, .inr ⟨rfl, ?_, rfl⟩⟩
        intro row stored same
        exact fresh (List.any_eq_true.mpr ⟨row, stored, by simpa using same⟩)

/-- A commit keeps the tables in order. -/
theorem WellFormed.begin {ledger next : Ledger Digest} (wellFormed : WellFormed ledger)
    {markerSha256 : Digest}
    (begun : beginLockboxConsumption canonicalSha256 ledger args = .ok (markerSha256, next)) :
    WellFormed next := by
  obtain ⟨payload, checked, -, ⟨-, rfl⟩ | ⟨missing, fresh, rfl⟩⟩ :=
    beginLockboxConsumption_ok canonicalSha256 begun
  · exact wellFormed
  · obtain ⟨experiment, cohort, -⟩ := checkedPayload_ok canonicalSha256 checked
    constructor
    · rw [List.map_append, List.nodup_append]
      refine ⟨wellFormed.digests, List.nodup_singleton _, ?_⟩
      intro digest listed other added same
      obtain ⟨row, stored, rfl⟩ := List.mem_map.mp listed
      exact fresh row stored (same.trans (List.mem_singleton.mp added))
    · rw [List.map_append, List.nodup_append]
      refine ⟨wellFormed.cohorts, List.nodup_singleton _, ?_⟩
      intro named listed other added same
      obtain ⟨row, stored, rfl⟩ := List.mem_map.mp listed
      refine Ledger.marker_none missing stored (same.trans ?_)
      rw [List.mem_singleton.mp added]
      exact Prod.ext experiment cohort
    · simp [wellFormed.sessions]

/-- What an event's checks establish: its marker, and the row that was found or added. -/
theorem appendLockboxEvent_ok {ledger next : Ledger Digest} {args : EventArgs Digest} {index : Nat}
    (appended : appendLockboxEvent canonicalSha256 ledger args = .ok (index, next)) :
    ∃ eventKind markerSha256 sourceSha256, args.eventKind = some eventKind ∧
      args.markerSha256 = some markerSha256 ∧ args.sourceSha256 = some sourceSha256 ∧
      ∃ row ∈ ledger.markers, row.markerSha256 = markerSha256 ∧
        requireEvent canonicalSha256 row (ledger.eventsOf markerSha256) args.executionId eventKind
          args.occurredAt sourceSha256 = .ok () ∧
        ((∃ existing ∈ ledger.eventsOf markerSha256, existing.eventKind = eventKind ∧
            existing.occurredAt = args.occurredAt) ∧ next = ledger ∨
          next = { ledger with
            events := ledger.events ++ [⟨markerSha256, index, args.executionId, eventKind,
              args.occurredAt, sourceSha256⟩] }) := by
  simp only [appendLockboxEvent] at appended
  split at appended
  · cases appended
  rename_i eventKind known
  split at appended
  · cases appended
  obtain ⟨markerSha256, marker, appended⟩ := bind_ok.mp appended
  obtain ⟨sourceSha256, source, appended⟩ := bind_ok.mp appended
  have hash_ok {value : Option Digest} {field : String} {digest : Digest}
      (hashed : hash value field = .ok digest) : value = some digest := by
    cases value <;> cases hashed
    rfl
  refine ⟨eventKind, markerSha256, sourceSha256, known, hash_ok marker, hash_ok source, ?_⟩
  split at appended
  · cases appended
  rename_i row found
  obtain ⟨_, checked, appended⟩ := bind_ok.mp appended
  refine ⟨row, List.mem_of_find?_eq_some found, by simpa using List.find?_some found, checked, ?_⟩
  split at appended
  · rename_i existing repeated
    cases appended
    have same := List.find?_some repeated
    simp only [decide_eq_true_eq] at same
    exact .inl ⟨⟨existing, List.mem_of_find?_eq_some repeated, same.2.1, same.2.2.1⟩, rfl⟩
  · cases appended
    exact .inr rfl

theorem appendLockboxEvent_markers {ledger next : Ledger Digest} {args : EventArgs Digest}
    {index : Nat}
    (appended : appendLockboxEvent canonicalSha256 ledger args = .ok (index, next)) :
    next.markers = ledger.markers ∧ next.sessions = ledger.sessions := by
  obtain ⟨_, _, _, -, -, -, _, -, -, -, ⟨-, rfl⟩ | rfl⟩ :=
    appendLockboxEvent_ok canonicalSha256 appended
  · exact ⟨rfl, rfl⟩
  · exact ⟨rfl, rfl⟩

/-- An event keeps the tables in order. -/
theorem WellFormed.append {ledger next : Ledger Digest} (wellFormed : WellFormed ledger)
    {args : EventArgs Digest} {index : Nat}
    (appended : appendLockboxEvent canonicalSha256 ledger args = .ok (index, next)) :
    WellFormed next := by
  obtain ⟨markers, sessions⟩ := appendLockboxEvent_markers canonicalSha256 appended
  exact ⟨markers ▸ wellFormed.digests, markers ▸ wellFormed.cohorts,
    sessions ▸ markers ▸ wellFormed.sessions⟩

end Ledger

section Samples

/-- A digest function for examples: a marker is known by its commit time. -/
def sampleSha256 : Canonical Nat → Nat
  | .trialSet _ _ => 1
  | .marker payload => payload.committedAt
  | .initiatingExecutionOnce markerSha256 => markerSha256 + 1

def sampleBegin (experimentId : String) (committedAt : Instant) : BeginArgs Nat where
  experimentId
  cohortId := "w4"
  sessions := [100, 101]
  confirmatoryArms := [⟨"trial", "run", some 7, some .initiating⟩]
  initiatingExecutionId := "run"
  expectedTrialSetSha256 := some 1
  committedAt
  registrationAsOf := fun _ _ =>
    some ⟨some 7, some "registered", some "historical_research_only", some [100, 101], some 1,
      .instant 0⟩

end Samples

end TradingEngine.Lockbox
