import TradingEngine.Lockbox

/-!
# Evaluation tags

An evaluation is confirmatory when it names a committed arm and exactly the sessions
of its marker, when that marker owns every one of them, and when the marker's events
leave nothing open. A session belongs to the marker that was committed first among
those that name it, by commit time and then by digest.

Ownership is read from the ledger again at every evaluation, so a marker stored later
with an earlier commit time takes a session over. No other experiment's commit is
refused for it: both markers are then tagged confirmatory over the same session. When
no marker is stored ahead of an evaluated one with which it shares a session, the
first owner of a session stays its owner.
-/

namespace TradingEngine.Lockbox

open Runs

variable {Digest : Type} [LinearOrder Digest]

/-- The place of a marker among all markers. -/
def MarkerRow.place (row : MarkerRow Digest) : Instant ×ₗ Digest :=
  toLex (row.payload.committedAt, row.markerSha256)

/-- A session with a marker that names it, as the query joins them. -/
structure OwnerRow (Digest : Type) where
  marker : MarkerRow Digest
  session : Session

def OwnerRow.place (row : OwnerRow Digest) : (Instant ×ₗ Digest) ×ₗ Session :=
  toLex (row.marker.place, row.session)

/-- All named sessions in the order of their markers. -/
def ownerRows (ledger : Ledger Digest) : List (OwnerRow Digest) :=
  (ledger.sessions.flatMap fun row =>
    (ledger.markers.filter fun marker => marker.markerSha256 = row.markerSha256).map fun marker =>
      ⟨marker, row.session⟩).insertionSort fun first second => first.place ≤ second.place

/-- The first marker that names a session owns it. -/
def sessionOwner (ledger : Ledger Digest) (session : Session) : Option Digest :=
  ((ownerRows ledger).find? fun row => row.session = session).map fun row =>
    row.marker.markerSha256

inductive Tag where
  | confirmatory | postLockboxExploratory

/-- The marker is absent where none was found. -/
structure EvaluationClassification (Digest : Type) where
  tag : Tag
  reason : String
  markerSha256 : Option Digest

/-- The arguments of one evaluation. -/
structure EvaluationArgs (Digest : Type) where
  experimentId : String
  cohortId : String
  trialId : String
  executionId : String
  registrationSha256 : Option Digest
  sessions : List Session
  evaluatedAt : Instant

/-- The last freeze of every arm that was frozen. -/
def freezes (arms : List (Arm Digest)) (events : List (EventRow Digest)) :
    List (String × Instant) :=
  arms.filterMap fun arm =>
    ((events.filter fun event =>
      event.eventKind = .armArtifactFrozen ∧ event.executionId = arm.executionId).getLast?).map
        fun event => (arm.executionId, event.occurredAt)

/-- An inspection came before every arm was frozen. -/
def inspectedEarly (arms : List (Arm Digest)) (events : List (EventRow Digest)) : Bool :=
  let frozen := freezes arms events
  let inspections := (events.filter fun event => event.eventKind = .developmentInspected).map
    EventRow.occurredAt
  inspections ≠ [] ∧
    ((¬ arms.all fun arm => frozen.any fun freeze => freeze.1 = arm.executionId) ∨
      inspections.any fun inspection => frozen.any fun freeze => inspection < freeze.2)

/-- An interruption of the execution that no later completion with its receipt closes. -/
def interruptionOpen (executionId : String) (events : List (EventRow Digest)) : Bool :=
  events.any fun interrupted =>
    interrupted.executionId = executionId ∧
      (interrupted.eventKind = .partialRun ∨ interrupted.eventKind = .crashed) ∧
      ¬ events.any fun event =>
        event.executionId = executionId ∧ event.eventKind = .completed ∧
          interrupted.occurredAt ≤ event.occurredAt ∧ event.sourceSha256 = interrupted.sourceSha256

/-- The receipts with which the execution completed. -/
def completions (executionId : String) (events : List (EventRow Digest)) : List Digest :=
  ((events.filter fun event =>
    event.executionId = executionId ∧ event.eventKind = .completed).map
      EventRow.sourceSha256).dedup

/-- The tag of an arm of a marker that owns its sessions. -/
def classify (row : MarkerRow Digest) (identity : String × String × Digest)
    (events : List (EventRow Digest)) : EvaluationClassification Digest :=
  let exploratory (reason : String) : EvaluationClassification Digest :=
    ⟨.postLockboxExploratory, reason, some row.markerSha256⟩
  if ¬ row.payload.arms.any fun arm =>
      (arm.trialId, arm.executionId, arm.registrationSha256) = identity then
    exploratory "identity_not_in_first_trial_set"
  else if inspectedEarly row.payload.arms events then
    exploratory "cross_model_inspection_before_both_frozen"
  else if interruptionOpen identity.2.1 events then
    exploratory "interrupted_receipt_not_reconciled"
  else if 1 < (completions identity.2.1 events).length then
    exploratory "conflicting_completed_receipts"
  else ⟨.confirmatory, "registered_first_trial_set", some row.markerSha256⟩

/-- The marker owns every session that it names. -/
def Ledger.Owns (ledger : Ledger Digest) (row : MarkerRow Digest) : Prop :=
  ∀ session ∈ row.payload.sessions, sessionOwner ledger session = some row.markerSha256

instance (ledger : Ledger Digest) (row : MarkerRow Digest) : Decidable (ledger.Owns row) :=
  inferInstanceAs (Decidable (∀ session ∈ row.payload.sessions, _))

/-- The tag of one evaluation. -/
def evaluationTag (ledger : Ledger Digest) (args : EvaluationArgs Digest) :
    Except LockboxError (EvaluationClassification Digest) :=
  (sessionValues args.sessions).bind fun requested =>
  match ledger.marker args.experimentId args.cohortId with
  | none => .ok ⟨.postLockboxExploratory, "lockbox_marker_missing", none⟩
  | some row =>
    if args.evaluatedAt < row.payload.committedAt then
      .error (.integrity "evaluation_before_lockbox_marker")
    else if requested ≠ row.payload.sessions then
      .ok ⟨.postLockboxExploratory, "sessions_not_exact_first_marker", some row.markerSha256⟩
    else if ¬ ledger.Owns row then
      .ok ⟨.postLockboxExploratory, "sessions_consumed_by_prior_marker", some row.markerSha256⟩
    else (hash args.registrationSha256 "registration_sha256").map fun registrationSha256 =>
      classify row (args.trialId, args.executionId, registrationSha256)
        ((ledger.eventsOf row.markerSha256).filter fun event =>
          event.occurredAt ≤ args.evaluatedAt)

/-- A session and a marker are joined when the marker is stored and names the session. -/
theorem mem_ownerRows {ledger : Ledger Digest} (wellFormed : WellFormed ledger)
    {row : OwnerRow Digest} :
    row ∈ ownerRows ledger ↔ row.marker ∈ ledger.markers ∧
      row.session ∈ row.marker.payload.sessions := by
  simp only [ownerRows, List.mem_insertionSort, List.mem_flatMap, List.mem_map, List.mem_filter,
    decide_eq_true_eq, wellFormed.sessions]
  constructor
  · rintro ⟨_, ⟨named, stored, session, listed, rfl⟩, marker, ⟨joined, same⟩, rfl⟩
    rw [wellFormed.same_digest joined stored same]
    exact ⟨stored, listed⟩
  · rintro ⟨stored, listed⟩
    exact ⟨⟨row.marker.markerSha256, row.session⟩, ⟨row.marker, stored, row.session, listed, rfl⟩,
      row.marker, ⟨stored, rfl⟩, rfl⟩

/-- The owner of a session is placed before every other marker that names it. -/
theorem sessionOwner_least {ledger : Ledger Digest} (wellFormed : WellFormed ledger)
    {session : Session} {row : MarkerRow Digest} (stored : row ∈ ledger.markers)
    (owner : sessionOwner ledger session = some row.markerSha256) {other : MarkerRow Digest}
    (also : other ∈ ledger.markers) (named : session ∈ other.payload.sessions) :
    row.place ≤ other.place := by
  obtain ⟨first, found, same⟩ := Option.map_eq_some_iff.mp owner
  obtain ⟨kept, -⟩ := (mem_ownerRows wellFormed).mp (List.mem_of_find?_eq_some found)
  obtain rfl : first.marker = row := wellFormed.same_digest kept stored same
  have here : first.session = session := by simpa using List.find?_some found
  obtain ⟨-, before, after, split, passed⟩ := List.find?_eq_some_iff_append.mp found
  have listed : ⟨other, session⟩ ∈ ownerRows ledger := (mem_ownerRows wellFormed).mpr ⟨also, named⟩
  have sorted : (ownerRows ledger).Pairwise fun one next => one.place ≤ next.place :=
    List.pairwise_insertionSort _ _
  rw [split] at listed sorted
  -- what stands before the owner names another session
  rcases List.mem_append.mp listed with early | late
  · have elsewhere := passed _ early
    simp at elsewhere
  · have ordered : first.place ≤ (OwnerRow.mk other session).place := by
      rcases List.mem_cons.mp late with rfl | later
      · exact le_rfl
      · exact (List.pairwise_cons.mp (List.pairwise_append.mp sorted).2.1).1 _ later
    rcases Prod.Lex.le_iff.mp ordered with less | ⟨equal, -⟩
    · exact less.le
    · exact equal.le

section Calls

variable (canonicalSha256 : Canonical Digest → Digest)

inductive Call (Digest : Type) where
  | begin (args : BeginArgs Digest)
  | append (args : EventArgs Digest)
  | evaluate (args : EvaluationArgs Digest)

/-- The ledger with the markers that were evaluated over exactly their sessions and
the confirmatory tags that were returned. -/
structure History (Digest : Type) where
  ledger : Ledger Digest
  evaluated : List Digest
  tags : List (Digest × List Session)

def History.initial : History Digest := ⟨Ledger.empty, [], []⟩

/-- The marker that an evaluation names together with exactly its sessions. -/
def evaluatedMarker (ledger : Ledger Digest) (args : EvaluationArgs Digest) : List Digest :=
  match ledger.marker args.experimentId args.cohortId with
  | some row => if args.sessions = row.payload.sessions then [row.markerSha256] else []
  | none => []

/-- The confirmatory tag that an evaluation returns. -/
def confirmatoryTag (ledger : Ledger Digest) (args : EvaluationArgs Digest) :
    List (Digest × List Session) :=
  match evaluationTag ledger args with
  | .ok ⟨.confirmatory, _, some markerSha256⟩ => [(markerSha256, args.sessions)]
  | _ => []

/-- One call; a call that raises changes nothing. -/
def History.step (history : History Digest) : Call Digest → History Digest
  | .begin args =>
    match beginLockboxConsumption canonicalSha256 history.ledger args with
    | .ok (_, ledger) => { history with ledger }
    | .error _ => history
  | .append args =>
    match appendLockboxEvent canonicalSha256 history.ledger args with
    | .ok (_, ledger) => { history with ledger }
    | .error _ => history
  | .evaluate args =>
    { history with
      evaluated := history.evaluated ++ evaluatedMarker history.ledger args
      tags := history.tags ++ confirmatoryTag history.ledger args }

/-- Whether a commit would be placed ahead of an evaluated marker with which it shares
a session. -/
def Overtakes (history : History Digest) (payload : MarkerPayload Digest) : Prop :=
  ∃ row ∈ history.ledger.markers, row.markerSha256 ∈ history.evaluated ∧
    (∃ session ∈ payload.sessions, session ∈ row.payload.sessions) ∧
    (MarkerRow.mk (canonicalSha256 (.marker payload)) payload).place < row.place

instance (history : History Digest) (payload : MarkerPayload Digest) :
    Decidable (Overtakes canonicalSha256 history payload) :=
  inferInstanceAs (Decidable (∃ row ∈ history.ledger.markers, _ ∧ _ ∧ _))

/-- The payload of the marker that a commit would add. -/
def newPayload (ledger : Ledger Digest) (args : BeginArgs Digest) :
    Option (MarkerPayload Digest) :=
  match ledger.marker args.experimentId args.cohortId with
  | some _ => none
  | none => (checkedPayload canonicalSha256 args).toOption

/-- A commit of a new marker does not overtake an evaluated one. -/
def InCommitOrder (history : History Digest) : Call Digest → Prop
  | .begin args => ∀ payload ∈ newPayload canonicalSha256 history.ledger args,
      ¬ Overtakes canonicalSha256 history payload
  | _ => True

instance (history : History Digest) :
    ∀ call, Decidable (InCommitOrder canonicalSha256 history call)
  | .begin args => inferInstanceAs
      (Decidable (∀ payload ∈ newPayload canonicalSha256 history.ledger args, ¬ Overtakes _ _ _))
  | .append _ => isTrue trivial
  | .evaluate _ => isTrue trivial

/-- The confirmatory tags of a history agree on who consumed a session. -/
def History.OneOwner (history : History Digest) : Prop :=
  ∀ first ∈ history.tags, ∀ second ∈ history.tags,
    ∀ session ∈ first.2, session ∈ second.2 → first.1 = second.1

/-- The marker of a tag was evaluated and stands before all that share its sessions. -/
structure Settled (history : History Digest) (tag : Digest × List Session) : Prop where
  marker : ∃ row ∈ history.ledger.markers, row.markerSha256 = tag.1 ∧
    row.payload.sessions = tag.2 ∧ ∀ other ∈ history.ledger.markers,
      ∀ session ∈ tag.2, session ∈ other.payload.sessions → row.place ≤ other.place
  evaluated : tag.1 ∈ history.evaluated

/-- What holds after every call of an ordered run. -/
structure Sound (history : History Digest) : Prop where
  wellFormed : WellFormed history.ledger
  settled : ∀ tag ∈ history.tags, Settled history tag

theorem Sound.initial : Sound (History.initial : History Digest) :=
  ⟨WellFormed.empty, by simp [History.initial]⟩

variable {tag : Digest × List Session}

/-- An evaluation is confirmatory only for a stored marker that owns its sessions and
whose sessions were all named. -/
theorem mem_confirmatoryTag {ledger : Ledger Digest} {args : EvaluationArgs Digest}
    (tagged : tag ∈ confirmatoryTag ledger args) :
    ∃ row ∈ ledger.markers, row.markerSha256 = tag.1 ∧ row.payload.sessions = tag.2 ∧
      ledger.Owns row ∧ tag.1 ∈ evaluatedMarker ledger args := by
  simp only [confirmatoryTag] at tagged
  split at tagged
  · rename_i reason markerSha256 answer
    obtain rfl := List.mem_singleton.mp tagged
    obtain ⟨requested, valid, answer⟩ := bind_ok.mp answer
    have unchanged : requested = args.sessions := by
      simp only [sessionValues] at valid
      split at valid
      · cases valid
      · cases valid
        rfl
    subst unchanged
    split at answer
    · cases answer
    rename_i row found
    split at answer
    · cases answer
    split at answer
    · cases answer
    rename_i exact
    split at answer
    · cases answer
    rename_i owned
    obtain ⟨registration, -, answer⟩ := map_ok.mp answer
    have same : row.markerSha256 = markerSha256 := by
      simp only [classify] at answer
      repeat' split at answer
      all_goals simp_all
    refine ⟨row, (Ledger.marker_some found).1, same, (not_not.mp exact).symm, not_not.mp owned, ?_⟩
    simp [evaluatedMarker, found, not_not.mp exact, same]
  · cases tagged

theorem Settled.evaluate {history : History Digest}
    (settled : Settled history tag) (args : EvaluationArgs Digest) :
    Settled (history.step canonicalSha256 (.evaluate args)) tag :=
  ⟨settled.marker, List.mem_append_left _ settled.evaluated⟩

/-- A new marker that overtakes no evaluated one does not unsettle a tag. -/
theorem Settled.grow {history : History Digest}
    (settled : Settled history tag) {payload : MarkerPayload Digest} {ledger : Ledger Digest}
    (grown : ledger.markers =
      history.ledger.markers ++ [⟨canonicalSha256 (.marker payload), payload⟩])
    (ordered : ¬ Overtakes canonicalSha256 history payload) :
    Settled { history with ledger } tag := by
  obtain ⟨row, stored, named, sessions, first⟩ := settled.marker
  refine ⟨⟨row, by simp [grown, stored], named, sessions, ?_⟩, settled.evaluated⟩
  intro other also session listed shared
  rw [grown] at also
  rcases List.mem_append.mp also with earlier | added
  · exact first other earlier session listed shared
  · obtain rfl := List.mem_singleton.mp added
    by_contra ahead
    exact ordered ⟨row, stored, named ▸ settled.evaluated,
      ⟨session, shared, sessions ▸ listed⟩, not_le.mp ahead⟩

/-- Every call in commit order keeps every tag settled. -/
theorem Sound.step {history : History Digest} (sound : Sound history) (call : Call Digest)
    (ordered : InCommitOrder canonicalSha256 history call) :
    Sound (history.step canonicalSha256 call) := by
  cases call with
  | begin args =>
    cases begun : beginLockboxConsumption canonicalSha256 history.ledger args with
    | error _ => simpa only [History.step, begun] using sound
    | ok result =>
      obtain ⟨markerSha256, ledger⟩ := result
      simp only [History.step, begun]
      refine ⟨sound.wellFormed.begin canonicalSha256 begun, ?_⟩
      intro tag tagged
      obtain ⟨payload, checked, rfl, ⟨-, rfl⟩ | ⟨missing, -, grown⟩⟩ :=
        beginLockboxConsumption_ok canonicalSha256 begun
      · exact sound.settled tag tagged
      · have added : newPayload canonicalSha256 history.ledger args = some payload := by
          simp [newPayload, missing, checked, Except.toOption]
        exact (sound.settled tag tagged).grow canonicalSha256 (by rw [grown])
          (ordered payload added)
  | append args =>
    cases appended : appendLockboxEvent canonicalSha256 history.ledger args with
    | error _ => simpa only [History.step, appended] using sound
    | ok result =>
      obtain ⟨index, ledger⟩ := result
      simp only [History.step, appended]
      refine ⟨sound.wellFormed.append canonicalSha256 appended, ?_⟩
      intro tag tagged
      obtain ⟨kept, -⟩ := appendLockboxEvent_markers canonicalSha256 appended
      obtain ⟨marker, evaluated⟩ := sound.settled tag tagged
      exact ⟨by simpa only [kept] using marker, evaluated⟩
  | evaluate args =>
    refine ⟨sound.wellFormed, ?_⟩
    intro tag tagged
    rcases List.mem_append.mp tagged with earlier | returned
    · exact (sound.settled tag earlier).evaluate canonicalSha256 args
    · obtain ⟨row, stored, named, sessions, owned, evaluated⟩ := mem_confirmatoryTag returned
      refine ⟨⟨row, stored, named, sessions, ?_⟩, List.mem_append_right _ evaluated⟩
      intro other also session listed shared
      exact sessionOwner_least sound.wellFormed stored (owned session (sessions ▸ listed)) also
        shared

/-- Settled tags over a common session are of one marker. -/
theorem Sound.oneOwner {history : History Digest} (sound : Sound history) :
    history.OneOwner := by
  intro first tagged second also session listed shared
  obtain ⟨⟨row, stored, named, sessions, leads⟩, -⟩ := sound.settled first tagged
  obtain ⟨⟨other, kept, called, days, precedes⟩, -⟩ := sound.settled second also
  have forth : row.place ≤ other.place := leads other kept session listed (days ▸ shared)
  have back : other.place ≤ row.place := precedes row stored session shared (sessions ▸ listed)
  have same : row.place = other.place := le_antisymm forth back
  rw [← named, ← called]
  exact congrArg (fun place => (ofLex place).2) same

/-- In every run whose commits are in order, a session is confirmatory for one marker
only: any two confirmatory tags that were ever returned over a common session name the
same marker. -/
theorem confirmatory_oneMarker (calls : List (Call Digest))
    (ordered : Admissible (History.step canonicalSha256) (InCommitOrder canonicalSha256)
      History.initial calls) :
    ∀ history ∈ states (History.step canonicalSha256) History.initial calls,
      history.OneOwner := by
  have sound : ∀ history ∈ states (History.step canonicalSha256) History.initial calls,
      Sound history := by
    apply invariant_of_steps _ Sound.initial ordered
    intro history call sound inOrder
    exact sound.step canonicalSha256 call inOrder
  intro history reached
  exact (sound history reached).oneOwner

end Calls

section Samples

def sampleEvaluation (experimentId : String) : EvaluationArgs Nat :=
  ⟨experimentId, "w4", "trial", "run", some 7, [100, 101], 50⟩

/-- Two experiments that commit in order over the same sessions. -/
def orderedExperiments : List (Call Nat) :=
  [.begin (sampleBegin "first" 10), .evaluate (sampleEvaluation "first"),
    .begin (sampleBegin "second" 20), .evaluate (sampleEvaluation "second")]

theorem confirmatory_oneMarker_sample :
    (orderedExperiments.foldl (History.step sampleSha256) History.initial).tags =
        [(10, [100, 101])] ∧
      ∀ history ∈ states (History.step sampleSha256) History.initial orderedExperiments,
        history.OneOwner :=
  ⟨by decide +kernel, confirmatory_oneMarker sampleSha256 _ (by decide +kernel)⟩

/-- A second experiment commits with an earlier time after the first was evaluated, and
both are confirmatory over the same sessions. -/
theorem confirmatory_twoMarkers :
    ¬ ∀ history ∈ states (History.step sampleSha256) History.initial
        [.begin (sampleBegin "first" 10), .evaluate (sampleEvaluation "first"),
          .begin (sampleBegin "second" 5), .evaluate (sampleEvaluation "second")],
      history.OneOwner := by
  intro always
  have tags : ([.begin (sampleBegin "first" 10), .evaluate (sampleEvaluation "first"),
      .begin (sampleBegin "second" 5), .evaluate (sampleEvaluation "second")].foldl
        (History.step sampleSha256) History.initial).tags =
      [(10, [100, 101]), (5, [100, 101])] := by decide +kernel
  have agree := always _ (last_mem_states _ _ _)
  simp only [History.OneOwner, tags] at agree
  exact absurd (agree (10, [100, 101]) (by simp) (5, [100, 101]) (by simp) 100 (by simp) (by simp))
    (by decide)

end Samples

end TradingEngine.Lockbox
