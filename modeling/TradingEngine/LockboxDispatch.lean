import TradingEngine.Lockbox

/-!
# Dispatching a lockbox

A dispatch commits its marker, records its start, calls the provider and records how
the call ended. Each of these is a step of its own, between which other dispatches
and other users of the ledger may act; a dispatch that crashes takes no further step.

Clock readings grow from one to the next, so no dispatch event is ever found already
stored. The dispatch events of a marker and the calls of the provider then follow one
of two courses, each of which may end anywhere: one call that succeeds, or one call
that fails and is recorded as failed, followed by one more.
-/

namespace TradingEngine.Lockbox

open Runs

variable {Digest : Type} [LinearOrder Digest]

/-- How the provider callback ends. -/
inductive Outcome where
  | returned | raised

/-- Where one dispatch stands. -/
inductive Phase (Digest : Type) where
  | idle
  | begun (markerSha256 : Digest) (initiatingExecutionId : String)
  | starting (markerSha256 : Digest) (initiatingExecutionId : String) (startedAt : Instant)
  | started (markerSha256 : Digest) (initiatingExecutionId : String)
  | calling (markerSha256 : Digest) (initiatingExecutionId : String)
  | ended (markerSha256 : Digest) (initiatingExecutionId : String) (outcome : Outcome)
  | recording (markerSha256 : Digest) (initiatingExecutionId : String) (outcome : Outcome)
      (occurredAt : Instant)
  | finished

/-- What a dispatch does that others can observe. -/
inductive Report where
  | recorded (dispatch : Nat) (eventKind : EventKind)
  | invoked (dispatch : Nat)
  deriving DecidableEq

/-- The ledger with the dispatches of one experiment's cohort. -/
structure System (Digest : Type) where
  ledger : Ledger Digest
  phases : Nat → Phase Digest
  clock : Instant
  reports : List Report

inductive Action (Digest : Type) where
  /-- a dispatch commits its marker or finds it committed -/
  | dispatch (dispatch : Nat) (begin : BeginArgs Digest)
  /-- a dispatch takes its next step; the reading and the outcome are used where the
  step reads the clock or waits for the provider -/
  | proceed (dispatch : Nat) (now : Instant) (outcome : Outcome)
  /-- another commit -/
  | begin (args : BeginArgs Digest)
  /-- another event -/
  | append (args : EventArgs Digest)

def Outcome.eventKind : Outcome → EventKind
  | .returned => .dispatched
  | .raised => .dispatchFailed

section Steps

variable (canonicalSha256 : Canonical Digest → Digest) (experimentId cohortId : String)

def System.initial : System Digest := ⟨Ledger.empty, fun _ => .idle, 0, []⟩

def System.enter (system : System Digest) (dispatch : Nat) (phase : Phase Digest) :
    System Digest :=
  { system with phases := Function.update system.phases dispatch phase }

/-- A dispatch event as a dispatch appends it. -/
def dispatchEvent (markerSha256 : Digest) (initiatingExecutionId : String)
    (eventKind : EventKind) (occurredAt : Instant) : EventArgs Digest :=
  ⟨some markerSha256, initiatingExecutionId, some eventKind, occurredAt,
    some (canonicalSha256 (.initiatingExecutionOnce markerSha256))⟩

/-- The append of a dispatch event; an append that raises ends the dispatch. -/
def System.record (system : System Digest) (dispatch : Nat) (markerSha256 : Digest)
    (initiatingExecutionId : String) (eventKind : EventKind) (occurredAt : Instant)
    (next : Phase Digest) : System Digest :=
  match appendLockboxEvent canonicalSha256 system.ledger
      (dispatchEvent canonicalSha256 markerSha256 initiatingExecutionId eventKind occurredAt) with
  | .error _ => system.enter dispatch .finished
  | .ok (_, ledger) =>
    { system.enter dispatch next with
      ledger, reports := system.reports ++ [.recorded dispatch eventKind] }

/-- The commit at the start of a dispatch. -/
def System.commit (system : System Digest) (dispatch : Nat) (args : BeginArgs Digest) :
    System Digest :=
  match beginLockboxConsumption canonicalSha256 system.ledger args with
  | .error _ => system.enter dispatch .finished
  | .ok (markerSha256, ledger) =>
    match ledger.marker args.experimentId args.cohortId with
    | none => { system.enter dispatch .finished with ledger }
    | some row =>
      { system.enter dispatch (.begun markerSha256 row.payload.initiatingExecutionId) with ledger }

/-- One step of the system. -/
def System.step (system : System Digest) : Action Digest → System Digest
  | .dispatch dispatch args =>
    match system.phases dispatch with
    | .idle => system.commit canonicalSha256 dispatch { args with experimentId, cohortId }
    | _ => system
  | .proceed dispatch now outcome =>
    match system.phases dispatch with
    | .idle | .finished => system
    | .begun markerSha256 execution =>
      { system.enter dispatch (.starting markerSha256 execution now) with clock := now }
    | .starting markerSha256 execution startedAt =>
      system.record canonicalSha256 dispatch markerSha256 execution .dispatchStarted startedAt
        (.started markerSha256 execution)
    | .started markerSha256 execution =>
      { system.enter dispatch (.calling markerSha256 execution) with
        reports := system.reports ++ [.invoked dispatch] }
    | .calling markerSha256 execution =>
      system.enter dispatch (.ended markerSha256 execution outcome)
    | .ended markerSha256 execution outcome =>
      { system.enter dispatch (.recording markerSha256 execution outcome now) with clock := now }
    | .recording markerSha256 execution outcome occurredAt =>
      system.record canonicalSha256 dispatch markerSha256 execution outcome.eventKind occurredAt
        .finished
  | .begin args =>
    match beginLockboxConsumption canonicalSha256 system.ledger args with
    | .error _ => system
    | .ok (_, ledger) => { system with ledger }
  | .append args =>
    match appendLockboxEvent canonicalSha256 system.ledger args with
    | .error _ => system
    | .ok (_, ledger) => { system with ledger }

/-- Whether the next step of a phase reads the clock. -/
def Phase.readsClock : Phase Digest → Bool
  | .begun _ _ | .ended _ _ _ => true
  | _ => false

/-- Clock readings grow, and only dispatches record how a dispatch went. -/
def Allowed (system : System Digest) : Action Digest → Prop
  | .proceed dispatch now _ => (system.phases dispatch).readsClock → system.clock < now
  | .append args => ∀ kind ∈ args.eventKind, kind.ofDispatch →
      ∀ row ∈ system.ledger.marker experimentId cohortId, args.markerSha256 ≠ some row.markerSha256
  | _ => True

/-- The marker that a dispatch has committed or found. -/
def Phase.marker : Phase Digest → Option Digest
  | .idle | .finished => none
  | .begun marker _ | .starting marker _ _ | .started marker _ | .calling marker _
  | .ended marker _ _ | .recording marker _ _ _ => some marker

/-- A clock reading that no event holds yet. -/
def Phase.reading : Phase Digest → Option Instant
  | .starting _ _ reading | .recording _ _ _ reading => some reading
  | _ => none

/-- The start of the dispatch is recorded and its end is not. -/
def Phase.active : Phase Digest → Bool
  | .started _ _ | .calling _ _ | .ended _ _ _ | .recording _ _ _ _ => true
  | _ => false

/-- The start of the dispatch is recorded and the provider is not called yet. -/
def Phase.isStarted : Phase Digest → Bool
  | .started _ _ => true
  | _ => false

/-- The dispatch events of a marker, in their order. -/
def dispatchKinds (events : List (EventRow Digest)) : List EventKind :=
  (events.map EventRow.eventKind).filter EventKind.ofDispatch

def Report.eventKind? : Report → Option EventKind
  | .recorded _ eventKind => some eventKind
  | .invoked _ => none

def Report.isInvocation : Report → Bool
  | .invoked _ => true
  | .recorded _ _ => false

def failedAttempt (dispatch : Nat) : List Report :=
  [.recorded dispatch .dispatchStarted, .invoked dispatch, .recorded dispatch .dispatchFailed]

/-- What can have been reported, with the dispatches that are still under way: some
failed attempts, and then at most one attempt that is not known to have failed. -/
inductive Course : List Report → (Nat → Phase Digest) → Prop where
  | settled {phases} (failed : List Nat) (few : failed.length ≤ 2)
      (quiet : ∀ other, ¬ (phases other).active) :
      Course (failed.flatMap failedAttempt) phases
  | started {phases} (failed : List Nat) (dispatch : Nat) (few : failed.length ≤ 1)
      (only : ∀ other, (phases other).active → other = dispatch ∧ (phases other).isStarted) :
      Course (failed.flatMap failedAttempt ++ [.recorded dispatch .dispatchStarted]) phases
  | invoked {phases} (failed : List Nat) (dispatch : Nat) (few : failed.length ≤ 1)
      (only : ∀ other, (phases other).active → other = dispatch ∧ ¬ (phases other).isStarted) :
      Course (failed.flatMap failedAttempt ++
        [.recorded dispatch .dispatchStarted, .invoked dispatch]) phases
  | dispatched {phases} (failed : List Nat) (dispatch : Nat) (few : failed.length ≤ 1)
      (quiet : ∀ other, ¬ (phases other).active) :
      Course (failed.flatMap failedAttempt ++ [.recorded dispatch .dispatchStarted,
        .invoked dispatch, .recorded dispatch .dispatched]) phases

/-- What holds after every step. -/
structure Orderly (system : System Digest) : Prop where
  wellFormed : WellFormed system.ledger
  anchored : ∀ event ∈ system.ledger.events, ∃ row ∈ system.ledger.markers,
    row.markerSha256 = event.markerSha256
  unmarked : system.ledger.marker experimentId cohortId = none → system.reports = []
  marked : ∀ dispatch, ∀ marker ∈ (system.phases dispatch).marker,
    ∃ row, system.ledger.marker experimentId cohortId = some row ∧ row.markerSha256 = marker
  recorded : ∀ row ∈ system.ledger.marker experimentId cohortId,
    dispatchKinds (system.ledger.eventsOf row.markerSha256) =
      system.reports.filterMap Report.eventKind?
  read : ∀ dispatch, ∀ reading ∈ (system.phases dispatch).reading, reading ≤ system.clock
  past : ∀ row ∈ system.ledger.marker experimentId cohortId,
    ∀ event ∈ system.ledger.eventsOf row.markerSha256, event.eventKind.ofDispatch →
      event.occurredAt ≤ system.clock ∧
        ∀ dispatch, event.occurredAt ∉ (system.phases dispatch).reading
  distinct : ∀ dispatch other, ∀ reading ∈ (system.phases dispatch).reading,
    reading ∈ (system.phases other).reading → dispatch = other
  course : Course system.reports system.phases

section Courses

variable {phases : Nat → Phase Digest}

omit [LinearOrder Digest] in
/-- A phase that is not under way leaves the course as it is. -/
theorem Course.mono {reports : List Report} {next : Nat → Phase Digest}
    (course : Course reports phases)
    (fewer : ∀ other, (next other).active → next other = phases other) : Course reports next := by
  cases course with
  | settled failed few quiet =>
    refine .settled failed few ?_
    intro other active
    exact quiet other (fewer other active ▸ active)
  | started failed dispatch few only =>
    refine .started failed dispatch few ?_
    intro other active
    have same := fewer other active
    rw [same] at active ⊢
    exact only other active
  | invoked failed dispatch few only =>
    refine .invoked failed dispatch few ?_
    intro other active
    have same := fewer other active
    rw [same] at active ⊢
    exact only other active
  | dispatched failed dispatch few quiet =>
    refine .dispatched failed dispatch few ?_
    intro other active
    exact quiet other (fewer other active ▸ active)

theorem recorded_failed (failed : List Nat) :
    (failed.flatMap failedAttempt).filterMap Report.eventKind? =
      failed.flatMap fun _ => [.dispatchStarted, .dispatchFailed] := by
  induction failed with
  | nil => rfl
  | cons dispatch rest ih =>
    simp [failedAttempt, Report.eventKind?, List.filterMap_cons, ih]

theorem count_failed (failed : List Nat) :
    (failed.flatMap fun _ => [EventKind.dispatchStarted, .dispatchFailed]).count .dispatchStarted =
        failed.length ∧
      (failed.flatMap fun _ => [EventKind.dispatchStarted, .dispatchFailed]).count
        .dispatchFailed = failed.length := by
  induction failed with
  | nil => exact ⟨rfl, rfl⟩
  | cons dispatch rest ih =>
    simp only [List.flatMap_cons, List.count_append, ih, List.length_cons]
    exact ⟨Nat.add_comm _ _, Nat.add_comm _ _⟩

/-- An attempt that is still open leaves no start free. -/
theorem open_refused (failed : List Nat) {last : List Report}
    (opened : last.filterMap Report.eventKind? = [.dispatchStarted]) {kinds : List EventKind}
    (same : kinds = (failed.flatMap failedAttempt ++ last).filterMap Report.eventKind?) :
    ¬ (kinds.count .dispatchStarted = 0 ∨
      kinds.count .dispatchStarted = 1 ∧ kinds.count .dispatchFailed = 1) := by
  have starts : kinds.count .dispatchStarted = failed.length + 1 := by
    rw [same, List.filterMap_append, recorded_failed, List.count_append, opened,
      (count_failed failed).1]
    rfl
  have failures : kinds.count .dispatchFailed = failed.length := by
    rw [same, List.filterMap_append, recorded_failed, List.count_append, opened,
      (count_failed failed).2]
    rfl
  omega

omit [LinearOrder Digest] in
/-- A start that the ledger admits opens a first attempt, or a second one after a failure. -/
theorem Course.start {reports : List Report}
    (course : Course reports phases) {kinds : List EventKind}
    (same : kinds = reports.filterMap Report.eventKind?)
    (undispatched : .dispatched ∉ kinds)
    (admitted : kinds.count .dispatchStarted = 0 ∨
      kinds.count .dispatchStarted = 1 ∧ kinds.count .dispatchFailed = 1)
    (dispatch : Nat) (marker : Digest) (execution : String) :
    Course (reports ++ [.recorded dispatch .dispatchStarted])
      (Function.update phases dispatch (.started marker execution)) := by
  subst same
  cases course with
  | settled failed few quiet =>
    rw [recorded_failed, (count_failed failed).1, (count_failed failed).2] at admitted
    refine .started failed dispatch (by omega) ?_
    intro other active
    by_cases here : other = dispatch
    · subst here
      simp [Phase.isStarted]
    · rw [Function.update_of_ne here] at active
      exact absurd active (quiet other)
  | started failed _ few only => exact absurd admitted (open_refused failed rfl rfl)
  | invoked failed _ few only => exact absurd admitted (open_refused failed rfl rfl)
  | dispatched failed _ few quiet =>
    refine absurd ?_ undispatched
    rw [List.filterMap_append]
    exact List.mem_append_right _ (by simp [Report.eventKind?])

omit [LinearOrder Digest] in
/-- The dispatch that is about to call the provider is the one whose start came last. -/
theorem Course.call {reports : List Report}
    (course : Course reports phases) {dispatch : Nat} {marker : Digest} {execution : String}
    (here : phases dispatch = .started marker execution) :
    Course (reports ++ [.invoked dispatch])
      (Function.update phases dispatch (.calling marker execution)) := by
  have active : (phases dispatch).active := by rw [here]; rfl
  cases course with
  | settled failed few quiet => exact absurd active (quiet dispatch)
  | started failed opened few only =>
    obtain ⟨rfl, -⟩ := only dispatch active
    rw [List.append_assoc]
    refine .invoked failed dispatch few ?_
    intro other underWay
    by_cases same : other = dispatch
    · subst same
      simp [Phase.isStarted]
    · rw [Function.update_of_ne same] at underWay
      exact absurd (only other underWay).1 same
  | invoked failed opened few only =>
    refine absurd ?_ (only dispatch active).2
    rw [here]
    rfl
  | dispatched failed opened few quiet => exact absurd active (quiet dispatch)

omit [LinearOrder Digest] in
theorem Course.opened {reports : List Report}
    (course : Course reports phases) {dispatch : Nat} (active : (phases dispatch).active)
    (called : ¬ (phases dispatch).isStarted) :
    ∃ failed : List Nat, failed.length ≤ 1 ∧
      reports = failed.flatMap failedAttempt ++
        [.recorded dispatch .dispatchStarted, .invoked dispatch] ∧
      ∀ other, (phases other).active → other = dispatch := by
  cases course with
  | settled failed few quiet => exact absurd active (quiet dispatch)
  | started failed opened few only => exact absurd (only dispatch active).2 called
  | invoked failed opened few only =>
    obtain ⟨rfl, -⟩ := only dispatch active
    exact ⟨failed, few, rfl, fun other underWay => (only other underWay).1⟩
  | dispatched failed opened few quiet => exact absurd active (quiet dispatch)

omit [LinearOrder Digest] in
/-- A dispatch between its provider call and the record of how it ended. -/
theorem Course.move {reports : List Report}
    (course : Course reports phases) {dispatch : Nat} (active : (phases dispatch).active)
    (called : ¬ (phases dispatch).isStarted) {next : Phase Digest} (still : ¬ next.isStarted) :
    Course reports (Function.update phases dispatch next) := by
  obtain ⟨failed, few, rfl, only⟩ := course.opened active called
  refine .invoked failed dispatch few ?_
  intro other underWay
  by_cases same : other = dispatch
  · subst same
    simpa using still
  · rw [Function.update_of_ne same] at underWay
    exact absurd (only other underWay) same

omit [LinearOrder Digest] in
/-- How the provider call ended is recorded. -/
theorem Course.close {reports : List Report}
    (course : Course reports phases) {dispatch : Nat} (active : (phases dispatch).active)
    (called : ¬ (phases dispatch).isStarted) (outcome : Outcome) :
    Course (reports ++ [.recorded dispatch outcome.eventKind])
      (Function.update phases dispatch .finished) := by
  obtain ⟨failed, few, rfl, only⟩ := course.opened active called
  have quiet : ∀ other, ¬ (Function.update phases dispatch .finished other).active := by
    intro other underWay
    by_cases same : other = dispatch
    · subst same
      simp [Phase.active] at underWay
    · rw [Function.update_of_ne same] at underWay
      exact absurd (only other underWay) same
  rw [List.append_assoc]
  cases outcome with
  | returned => exact .dispatched failed dispatch few quiet
  | raised =>
    have counted : (failed ++ [dispatch]).length ≤ 2 := by simpa using few
    simpa [failedAttempt, Outcome.eventKind] using
      Course.settled (failed ++ [dispatch]) counted quiet

end Courses

/-- A dispatch event that the ledger admits does not follow a success, and a start
follows at most one start, which has failed. -/
theorem requireEvent_dispatch {row : MarkerRow Digest} {events : List (EventRow Digest)}
    {execution : String} {eventKind : EventKind} {occurredAt : Instant} {source : Digest}
    (checked : requireEvent canonicalSha256 row events execution eventKind occurredAt source =
      .ok ()) (ofDispatch : eventKind.ofDispatch) :
    .dispatched ∉ dispatchKinds events ∧
      (eventKind = .dispatchStarted → (dispatchKinds events).count .dispatchStarted = 0 ∨
        (dispatchKinds events).count .dispatchStarted = 1 ∧
          (dispatchKinds events).count .dispatchFailed = 1) := by
  simp only [requireEvent, ofDispatch, if_true] at checked
  split at checked
  · cases checked
  obtain ⟨_, dispatch, -⟩ := bind_ok.mp checked
  simp only [requireDispatch] at dispatch
  split at dispatch
  · cases dispatch
  split at dispatch
  · cases dispatch
  rename_i undispatched
  split at dispatch
  · cases dispatch
  rename_i available
  refine ⟨undispatched, ?_⟩
  intro start
  by_contra refused
  exact available ⟨start, refused⟩

theorem Orderly.initial : Orderly experimentId cohortId (System.initial : System Digest) where
  wellFormed := WellFormed.empty
  anchored := by simp [System.initial, Ledger.empty]
  unmarked := fun _ => rfl
  marked := by simp [System.initial, Phase.marker]
  recorded := by simp [System.initial, Ledger.empty, Ledger.marker]
  read := by simp [System.initial, Phase.reading]
  past := by simp [System.initial, Ledger.empty, Ledger.marker]
  distinct := by simp [System.initial, Phase.reading]
  course := .settled [] (Nat.zero_le 2) (by simp [System.initial, Phase.active])

variable {system : System Digest} {reports : List Report}

/-- A step of a dispatch that leaves the ledger as it is. -/
theorem Orderly.enter (orderly : Orderly experimentId cohortId system)
    (dispatch : Nat) {phase : Phase Digest} {now : Instant}
    (onward : system.clock ≤ now)
    (marked : ∀ marker ∈ phase.marker,
      ∃ row, system.ledger.marker experimentId cohortId = some row ∧ row.markerSha256 = marker)
    (read : ∀ reading ∈ phase.reading, reading = now ∧ system.clock < now)
    (unmarked : system.ledger.marker experimentId cohortId = none → reports = [])
    (recorded : reports.filterMap Report.eventKind? = system.reports.filterMap Report.eventKind?)
    (course : Course reports (Function.update system.phases dispatch phase)) :
    Orderly experimentId cohortId
      { system.enter dispatch phase with clock := now, reports } where
  wellFormed := orderly.wellFormed
  anchored := orderly.anchored
  unmarked := unmarked
  marked := by
    intro other marker named
    by_cases same : other = dispatch
    · subst same
      exact marked marker (by simpa [System.enter] using named)
    · exact orderly.marked other marker (by simpa [System.enter, same] using named)
  recorded := by
    intro row found
    exact (orderly.recorded row found).trans recorded.symm
  read := by
    intro other reading held
    by_cases same : other = dispatch
    · subst same
      exact (read reading (by simpa [System.enter] using held)).1.le
    · exact (orderly.read other reading (by simpa [System.enter, same] using held)).trans onward
  past := by
    intro row found event listed ofDispatch
    obtain ⟨early, unread⟩ := orderly.past row found event listed ofDispatch
    refine ⟨early.trans onward, ?_⟩
    intro other held
    by_cases same : other = dispatch
    · subst same
      obtain ⟨equal, later⟩ := read _ (by simpa [System.enter] using held)
      exact absurd (equal ▸ early) (not_le.mpr later)
    · exact unread other (by simpa [System.enter, same] using held)
  distinct := by
    -- a new reading is later than all that are still held
    have fresh : ∀ other, other ≠ dispatch → ∀ reading ∈ phase.reading,
        reading ∉ (system.phases other).reading := by
      intro other _ reading held also
      obtain ⟨equal, later⟩ := read reading held
      exact absurd (equal ▸ orderly.read other reading also) (not_le.mpr later)
    intro first second reading held also
    by_cases here : first = dispatch
    · subst here
      by_cases there : second = first
      · exact there.symm
      · simp only [System.enter, Function.update_self, Function.update_of_ne there] at held also
        exact absurd also (fresh second there reading held)
    · by_cases there : second = dispatch
      · subst there
        simp only [System.enter, Function.update_self, Function.update_of_ne here] at held also
        exact absurd held (fresh first here reading also)
      · simp only [System.enter, Function.update_of_ne here, Function.update_of_ne there]
          at held also
        exact orderly.distinct first second reading held also
  course := course

/-- A dispatch that raises before it reaches the ledger's events is over. -/
theorem Orderly.finish (orderly : Orderly experimentId cohortId system)
    (dispatch : Nat) : Orderly experimentId cohortId (system.enter dispatch .finished) := by
  refine orderly.enter experimentId cohortId dispatch le_rfl (by simp [Phase.marker])
    (by simp [Phase.reading]) orderly.unmarked rfl (orderly.course.mono ?_)
  intro other active
  by_cases same : other = dispatch
  · subst same
    simp [Phase.active] at active
  · rw [Function.update_of_ne same]

/-- A new marker leaves the events as they are and names none of them. -/
theorem Orderly.begin (orderly : Orderly experimentId cohortId system)
    {args : BeginArgs Digest} {markerSha256 : Digest} {ledger : Ledger Digest}
    (begun : beginLockboxConsumption canonicalSha256 system.ledger args =
      .ok (markerSha256, ledger)) : Orderly experimentId cohortId { system with ledger } := by
  have wellFormed : WellFormed ledger := orderly.wellFormed.begin canonicalSha256 begun
  obtain ⟨payload, -, -, ⟨-, rfl⟩ | ⟨-, fresh, grown⟩⟩ :=
    beginLockboxConsumption_ok canonicalSha256 begun
  · exact orderly
  have events : ledger.events = system.ledger.events := by rw [grown]
  have markers : ledger.markers = system.ledger.markers ++ [⟨markerSha256, payload⟩] := by
    rw [grown]
  have kept : ∀ row, system.ledger.marker experimentId cohortId = some row →
      ledger.marker experimentId cohortId = some row := by
    intro row found
    simp only [Ledger.marker] at found ⊢
    rw [markers, List.find?_append, found]
    rfl
  -- a marker that was not found before is the new one
  have added : ∀ row ∈ ledger.marker experimentId cohortId,
      system.ledger.marker experimentId cohortId = some row ∨
        system.ledger.marker experimentId cohortId = none ∧
          ∀ event ∈ system.ledger.events, event.markerSha256 ≠ row.markerSha256 := by
    intro row found
    cases earlier : system.ledger.marker experimentId cohortId with
    | some stored => exact .inl ((kept stored earlier).symm.trans found)
    | none =>
      refine .inr ⟨rfl, ?_⟩
      simp only [Ledger.marker] at found earlier
      rw [markers, List.find?_append, earlier, Option.none_or] at found
      obtain rfl := List.mem_singleton.mp (List.mem_of_find?_eq_some found)
      intro event listed same
      obtain ⟨anchor, stored, named⟩ := orderly.anchored event listed
      exact fresh anchor stored (named.trans same)
  have ofRow : ∀ row ∈ ledger.marker experimentId cohortId,
      system.ledger.marker experimentId cohortId = none →
      ledger.eventsOf row.markerSha256 = [] := by
    intro row found missing
    rcases added row found with stored | ⟨-, unnamed⟩
    · rw [missing] at stored
      cases stored
    · rw [Ledger.eventsOf, events, List.filter_eq_nil_iff]
      intro event listed
      simpa using unnamed event listed
  refine ⟨wellFormed, ?_, ?_, ?_, ?_, orderly.read, ?_, orderly.distinct, orderly.course⟩
  · intro event listed
    obtain ⟨row, stored, named⟩ := orderly.anchored event (events ▸ listed)
    exact ⟨row, by simp [markers, stored], named⟩
  · intro missing
    apply orderly.unmarked
    cases earlier : system.ledger.marker experimentId cohortId with
    | none => rfl
    | some row =>
      have found := kept row earlier
      rw [missing] at found
      cases found
  · intro dispatch marker named
    obtain ⟨row, found, same⟩ := orderly.marked dispatch marker named
    exact ⟨row, kept row found, same⟩
  · intro row found
    rcases added row found with stored | ⟨missing, -⟩
    · simpa [Ledger.eventsOf, events] using orderly.recorded row stored
    · rw [ofRow row found missing, orderly.unmarked missing]
      rfl
  · intro row found event listed ofDispatch
    rcases added row found with stored | ⟨missing, -⟩
    · exact orderly.past row stored event (by simpa [Ledger.eventsOf, events] using listed)
        ofDispatch
    · rw [ofRow row found missing] at listed
      cases listed

omit [LinearOrder Digest] in
theorem eventsOf_append [DecidableEq Digest] (ledger : Ledger Digest) (event : EventRow Digest)
    (marker : Digest) :
    (ledger.events ++ [event]).filter (fun stored => stored.markerSha256 = marker) =
      ledger.events.filter (fun stored => stored.markerSha256 = marker) ++
        if event.markerSha256 = marker then [event] else [] := by
  rw [List.filter_append, List.filter_singleton]
  simp

/-- An event of another kind, or of another marker, is no part of the course. -/
theorem Orderly.append (orderly : Orderly experimentId cohortId system)
    {args : EventArgs Digest} {index : Nat} {ledger : Ledger Digest}
    (appended : appendLockboxEvent canonicalSha256 system.ledger args = .ok (index, ledger))
    (other : ∀ kind ∈ args.eventKind, kind.ofDispatch →
      ∀ row ∈ system.ledger.marker experimentId cohortId,
        args.markerSha256 ≠ some row.markerSha256) :
    Orderly experimentId cohortId { system with ledger } := by
  have wellFormed : WellFormed ledger := orderly.wellFormed.append canonicalSha256 appended
  obtain ⟨kind, marker, source, known, named, -, anchor, stored, same, -, ⟨-, rfl⟩ | grown⟩ :=
    appendLockboxEvent_ok canonicalSha256 appended
  · exact orderly
  subst grown
  have apart : ∀ row ∈ system.ledger.marker experimentId cohortId, kind.ofDispatch →
      marker ≠ row.markerSha256 := by
    intro row found ofDispatch equal
    exact other kind known ofDispatch row found (named.trans (congrArg some equal))
  refine ⟨wellFormed, ?_, orderly.unmarked, orderly.marked, ?_, orderly.read, ?_,
    orderly.distinct, orderly.course⟩
  · intro event listed
    rcases List.mem_append.mp listed with earlier | added
    · exact orderly.anchored event earlier
    · rw [List.mem_singleton.mp added]
      exact ⟨anchor, stored, same⟩
  · intro row found
    rw [Ledger.eventsOf, eventsOf_append, ← orderly.recorded row found]
    split
    · rename_i here
      have unlisted : kind.ofDispatch = false := by
        by_contra listed
        exact apart row found (by simpa using listed) here
      simp [dispatchKinds, Ledger.eventsOf, unlisted]
    · simp [Ledger.eventsOf]
  · intro row found event listed ofDispatch
    rw [Ledger.eventsOf, eventsOf_append] at listed
    rcases List.mem_append.mp listed with earlier | added
    · exact orderly.past row found event earlier ofDispatch
    · split at added
      · rename_i here
        obtain rfl := List.mem_singleton.mp added
        exact absurd here (apart row found ofDispatch)
      · cases added

/-- A dispatch records an event: the event is new, because its reading is. -/
theorem Orderly.record (orderly : Orderly experimentId cohortId system)
    {dispatch : Nat} {marker : Digest} {reading : Instant} (execution : String)
    {eventKind : EventKind} (next : Phase Digest)
    (named : marker ∈ (system.phases dispatch).marker)
    (held : reading ∈ (system.phases dispatch).reading)
    (ofDispatch : eventKind.ofDispatch)
    (onward : ∀ other ∈ next.marker, other = marker)
    (released : next.reading = none)
    (course : ∀ kinds, kinds = system.reports.filterMap Report.eventKind? →
      .dispatched ∉ kinds →
      (eventKind = .dispatchStarted → kinds.count .dispatchStarted = 0 ∨
        kinds.count .dispatchStarted = 1 ∧ kinds.count .dispatchFailed = 1) →
      Course (system.reports ++ [.recorded dispatch eventKind])
        (Function.update system.phases dispatch next)) :
    Orderly experimentId cohortId
      (system.record canonicalSha256 dispatch marker execution eventKind reading next) := by
  simp only [System.record]
  split
  · exact orderly.finish experimentId cohortId dispatch
  rename_i index ledger appended
  have wellFormed : WellFormed ledger := orderly.wellFormed.append canonicalSha256 appended
  obtain ⟨row, found, here⟩ := orderly.marked dispatch marker named
  subst here
  obtain ⟨kind, stored, source, known, same, -, anchor, anchored, called, checked, written⟩ :=
    appendLockboxEvent_ok canonicalSha256 appended
  obtain rfl : eventKind = kind := Option.some.inj known
  obtain rfl : row.markerSha256 = stored := Option.some.inj same
  -- no dispatch event of the marker has the reading that is still held
  rcases written with ⟨⟨existing, listed, sameKind, sameTime⟩, -⟩ | rfl
  · have unread := (orderly.past row found existing listed (sameKind ▸ ofDispatch)).2 dispatch
    rw [sameTime] at unread
    exact absurd held unread
  obtain ⟨undispatched, available⟩ := requireEvent_dispatch canonicalSha256 checked ofDispatch
  have events : ∀ other ∈ system.ledger.marker experimentId cohortId, other = row := by
    intro other also
    exact Option.some.inj (also.symm.trans found)
  refine ⟨wellFormed, ?_, ?_, ?_, ?_, ?_, ?_, ?_, ?_⟩
  · intro event listed
    rcases List.mem_append.mp listed with earlier | added
    · exact orderly.anchored event earlier
    · rw [List.mem_singleton.mp added]
      exact ⟨anchor, anchored, called⟩
  · intro missing
    cases found.symm.trans missing
  · intro other name listed
    by_cases itself : other = dispatch
    · subst itself
      exact ⟨row, found, (onward name (by simpa [System.enter] using listed)).symm⟩
    · exact orderly.marked other name (by simpa [System.enter, itself] using listed)
  · intro other also
    obtain rfl := events other also
    rw [Ledger.eventsOf, eventsOf_append, if_pos rfl, List.filterMap_append,
      ← orderly.recorded other found]
    simp [dispatchKinds, Ledger.eventsOf, ofDispatch, Report.eventKind?]
  · intro other time kept
    by_cases itself : other = dispatch
    · subst itself
      simp [System.enter, released] at kept
    · exact orderly.read other time (by simpa [System.enter, itself] using kept)
  · intro other also event listed dispatches
    obtain rfl := events other also
    rw [Ledger.eventsOf, eventsOf_append, if_pos rfl] at listed
    rcases List.mem_append.mp listed with earlier | added
    · obtain ⟨early, unread⟩ := orderly.past other found event earlier dispatches
      refine ⟨early, ?_⟩
      intro process kept
      by_cases itself : process = dispatch
      · subst itself
        simp [System.enter, released] at kept
      · exact unread process (by simpa [System.enter, itself] using kept)
    · obtain rfl := List.mem_singleton.mp added
      refine ⟨orderly.read dispatch reading held, ?_⟩
      intro process kept
      by_cases itself : process = dispatch
      · subst itself
        simp [System.enter, released] at kept
      · exact itself (orderly.distinct process dispatch reading
          (by simpa [System.enter, itself, dispatchEvent] using kept) held)
  · intro first second time kept also
    by_cases one : first = dispatch
    · subst one
      simp [System.enter, released] at kept
    · by_cases two : second = dispatch
      · subst two
        simp [System.enter, released] at also
      · exact orderly.distinct first second time (by simpa [System.enter, one] using kept)
          (by simpa [System.enter, two] using also)
  · exact course _ (orderly.recorded row found) undispatched available

/-- A dispatch that commits or finds its marker goes on with it. -/
theorem Orderly.commit (orderly : Orderly experimentId cohortId system)
    {dispatch : Nat} (args : BeginArgs Digest)
    (named : args.experimentId = experimentId ∧ args.cohortId = cohortId) :
    Orderly experimentId cohortId (system.commit canonicalSha256 dispatch args) := by
  simp only [System.commit]
  split
  · exact orderly.finish experimentId cohortId dispatch
  rename_i marker ledger begun
  have committed := orderly.begin canonicalSha256 experimentId cohortId begun
  rw [named.1, named.2]
  split
  · exact committed.finish experimentId cohortId dispatch
  rename_i row found
  refine committed.enter experimentId cohortId dispatch le_rfl ?_ (by simp [Phase.reading])
    committed.unmarked rfl (committed.course.mono ?_)
  · intro other listed
    obtain rfl : marker = other := by simpa [Phase.marker] using listed
    refine ⟨row, found, ?_⟩
    obtain ⟨stored, experiment, cohort⟩ := Ledger.marker_some found
    obtain ⟨payload, checked, -, ⟨earlier, rfl⟩ | ⟨missing, -, rfl⟩⟩ :=
      beginLockboxConsumption_ok canonicalSha256 begun
    · rw [named.1, named.2] at earlier
      rw [Option.some.inj (found.symm.trans earlier)]
    · rcases List.mem_append.mp stored with before | added
      · rw [named.1, named.2] at missing
        exact absurd (Prod.ext experiment cohort) (Ledger.marker_none missing before)
      · rw [List.mem_singleton.mp added]
  · intro other active
    by_cases same : other = dispatch
    · subst same
      simp [Phase.active] at active
    · rw [Function.update_of_ne same]

/-- Every step keeps a course. -/
theorem Orderly.step (orderly : Orderly experimentId cohortId system)
    (action : Action Digest) (allowed : Allowed experimentId cohortId system action) :
    Orderly experimentId cohortId
      (system.step canonicalSha256 experimentId cohortId action) := by
  cases action with
  | dispatch dispatch args =>
    simp only [System.step]
    split
    · exact orderly.commit canonicalSha256 experimentId cohortId _ ⟨rfl, rfl⟩
    · exact orderly
  | begin args =>
    simp only [System.step]
    split
    · exact orderly
    · rename_i begun
      exact orderly.begin canonicalSha256 experimentId cohortId begun
  | append args =>
    simp only [System.step]
    split
    · exact orderly
    · rename_i appended
      exact orderly.append canonicalSha256 experimentId cohortId appended allowed
  | proceed dispatch now outcome =>
    have marked := orderly.marked dispatch
    cases here : system.phases dispatch with
    | idle | finished => simpa only [System.step, here] using orderly
    | begun marker execution =>
      have later : system.clock < now := allowed (by rw [here]; rfl)
      simp only [System.step, here]
      refine orderly.enter experimentId cohortId dispatch later.le ?_ ?_ orderly.unmarked rfl
        (orderly.course.mono ?_)
      · simpa [here, Phase.marker] using marked
      · simp [Phase.reading, later]
      · intro other active
        by_cases same : other = dispatch
        · subst same
          simp [Phase.active] at active
        · rw [Function.update_of_ne same]
    | starting marker execution startedAt =>
      simp only [System.step, here]
      refine orderly.record canonicalSha256 experimentId cohortId execution _
        (by rw [here]; rfl) (by rw [here]; rfl) rfl (by simp [Phase.marker]) rfl ?_
      intro kinds same undispatched available
      exact orderly.course.start same undispatched (available rfl) dispatch marker execution
    | started marker execution =>
      simp only [System.step, here]
      refine orderly.enter experimentId cohortId dispatch le_rfl ?_ (by simp [Phase.reading]) ?_ ?_
        (orderly.course.call here)
      · simpa [here, Phase.marker] using marked
      · intro missing
        obtain ⟨row, found, -⟩ := marked marker (by rw [here]; rfl)
        cases found.symm.trans missing
      · simp [Report.eventKind?]
    | calling marker execution =>
      simp only [System.step, here]
      refine orderly.enter experimentId cohortId dispatch le_rfl ?_ (by simp [Phase.reading])
        orderly.unmarked rfl (orderly.course.move ?_ ?_ (by simp [Phase.isStarted]))
      · simpa [here, Phase.marker] using marked
      · rw [here]; rfl
      · rw [here]; simp [Phase.isStarted]
    | ended marker execution outcome =>
      have later : system.clock < now := allowed (by rw [here]; rfl)
      simp only [System.step, here]
      refine orderly.enter experimentId cohortId dispatch later.le ?_ ?_ orderly.unmarked rfl
        (orderly.course.move ?_ ?_ (by simp [Phase.isStarted]))
      · simpa [here, Phase.marker] using marked
      · simp [Phase.reading, later]
      · rw [here]; rfl
      · rw [here]; simp [Phase.isStarted]
    | recording marker execution outcome occurredAt =>
      simp only [System.step, here]
      refine orderly.record canonicalSha256 experimentId cohortId execution _
        (by rw [here]; rfl) (by rw [here]; rfl) (by cases outcome <;> rfl)
        (by simp [Phase.marker]) rfl ?_
      intro kinds same undispatched available
      exact orderly.course.close (by rw [here]; rfl) (by rw [here]; simp [Phase.isStarted]) outcome

/-- What stands before a call of the provider: no success, and the failure of every
call that stands there too. -/
def Followed (reports : List Report) : Prop :=
  ∀ earlier dispatch later, reports = earlier ++ .invoked dispatch :: later →
    (∀ other, .recorded other .dispatched ∉ earlier) ∧
      ∀ other, .invoked other ∈ earlier → .recorded other .dispatchFailed ∈ earlier

theorem Followed.attempt (dispatch : Nat) (closed : List Report)
    (quiet : ∀ other, .invoked other ∉ closed) :
    Followed (.recorded dispatch .dispatchStarted :: .invoked dispatch :: closed) := by
  intro earlier other later split
  rcases earlier with _ | ⟨first, _ | ⟨second, rest⟩⟩
  · simp at split
  · simp only [List.cons_append, List.nil_append, List.cons.injEq] at split
    obtain ⟨rfl, -, -⟩ := split
    simp
  · simp only [List.cons_append, List.cons.injEq] at split
    refine absurd ?_ (quiet other)
    rw [split.2.2]
    simp

/-- A failed attempt may stand before what is followed. -/
theorem Followed.retry (dispatch : Nat) (followed : Followed reports) :
    Followed (failedAttempt dispatch ++ reports) := by
  intro earlier other later split
  rcases earlier with _ | ⟨first, _ | ⟨second, _ | ⟨third, rest⟩⟩⟩
  · simp [failedAttempt] at split
  · simp only [failedAttempt, List.cons_append, List.nil_append, List.cons.injEq] at split
    obtain ⟨rfl, -, -⟩ := split
    simp
  · simp [failedAttempt] at split
  · simp only [failedAttempt, List.cons_append, List.nil_append, List.cons.injEq] at split
    obtain ⟨rfl, rfl, rfl, split⟩ := split
    obtain ⟨undispatched, failed⟩ := followed rest other later split
    constructor
    · intro process
      simpa using undispatched process
    · intro process invoked
      simp only [List.mem_cons, reduceCtorEq, false_or, Report.invoked.injEq] at invoked
      rcases invoked with rfl | further
      · simp
      · simp [failed process further]

theorem Followed.failed (failed : List Nat)
    (followed : Followed reports) : Followed (failed.flatMap failedAttempt ++ reports) := by
  induction failed with
  | nil => exact followed
  | cons dispatch rest ih =>
    rw [List.flatMap_cons, List.append_assoc]
    exact ih.retry dispatch

theorem invocations_failed (failed : List Nat) :
    ((failed.flatMap failedAttempt).filter Report.isInvocation).length = failed.length := by
  induction failed with
  | nil => rfl
  | cons dispatch rest ih =>
    simp [failedAttempt, Report.isInvocation, List.filter_cons, ih]

/-- The provider is called at most twice, again only after the recorded failure of every
earlier call, and never after a recorded success; what is reported as recorded is what
the ledger holds of the marker. -/
structure Disciplined (system : System Digest) : Prop where
  twice : (system.reports.filter Report.isInvocation).length ≤ 2
  retried : ∀ earlier dispatch later, system.reports = earlier ++ .invoked dispatch :: later →
    ∀ other, .invoked other ∈ earlier → .recorded other .dispatchFailed ∈ earlier
  undispatched : ∀ earlier dispatch later,
    system.reports = earlier ++ .invoked dispatch :: later →
    ∀ other, .recorded other .dispatched ∉ earlier
  recorded : ∀ row ∈ system.ledger.marker experimentId cohortId,
    dispatchKinds (system.ledger.eventsOf row.markerSha256) =
      system.reports.filterMap Report.eventKind?

omit [LinearOrder Digest] in
theorem Course.followed {phases : Nat → Phase Digest}
    (course : Course reports phases) :
    Followed reports ∧ (reports.filter Report.isInvocation).length ≤ 2 := by
  cases course with
  | settled failed few quiet =>
    refine ⟨?_, (invocations_failed failed).trans_le few⟩
    have nothing : Followed [] := by
      intro earlier other later split
      simp at split
    simpa using nothing.failed failed
  | started failed dispatch few only =>
    constructor
    · refine Followed.failed failed ?_
      intro earlier other later split
      rcases earlier with _ | ⟨first, rest⟩ <;> simp at split
    · rw [List.filter_append, List.length_append, invocations_failed]
      exact Nat.add_le_add few (Nat.zero_le 1)
  | invoked failed dispatch few only =>
    refine ⟨(Followed.attempt dispatch [] (by simp)).failed failed, ?_⟩
    rw [List.filter_append, List.length_append, invocations_failed]
    exact Nat.add_le_add few le_rfl
  | dispatched failed dispatch few quiet =>
    refine ⟨(Followed.attempt dispatch [.recorded dispatch .dispatched] (by simp)).failed failed, ?_⟩
    rw [List.filter_append, List.length_append, invocations_failed]
    exact Nat.add_le_add few le_rfl

/-- However the dispatches of one experiment's cohort are called, crash and follow or
overlap one another, the provider is called in a disciplined way. -/
theorem dispatchLockbox_disciplined (actions : List (Action Digest))
    (allowed : Admissible (System.step canonicalSha256 experimentId cohortId)
      (Allowed experimentId cohortId) System.initial actions) :
    ∀ system ∈ states (System.step canonicalSha256 experimentId cohortId) System.initial actions,
      Disciplined experimentId cohortId system := by
  have orderly : ∀ system ∈
      states (System.step canonicalSha256 experimentId cohortId) System.initial actions,
      Orderly experimentId cohortId system := by
    apply invariant_of_steps _ (Orderly.initial experimentId cohortId) allowed
    intro system action orderly permitted
    exact orderly.step canonicalSha256 experimentId cohortId action permitted
  intro system reached
  obtain ⟨followed, twice⟩ := (orderly system reached).course.followed
  exact
    { twice
      retried := fun earlier dispatch later split => (followed earlier dispatch later split).2
      undispatched := fun earlier dispatch later split => (followed earlier dispatch later split).1
      recorded := (orderly system reached).recorded }

end Steps

instance (experimentId cohortId : String) (system : System Digest) :
    ∀ action, Decidable (Allowed experimentId cohortId system action)
  | .proceed dispatch now _ =>
    inferInstanceAs (Decidable ((system.phases dispatch).readsClock → system.clock < now))
  | .append args => inferInstanceAs (Decidable (∀ kind ∈ args.eventKind, kind.ofDispatch →
      ∀ row ∈ system.ledger.marker experimentId cohortId, args.markerSha256 ≠ _))
  | .dispatch _ _ => isTrue trivial
  | .begin _ => isTrue trivial

/-- One dispatch whose provider call raises, and one that succeeds. -/
def sampleDispatches : List (Action Nat) :=
  let attempt (dispatch : Nat) (now : Instant) (outcome : Outcome) : List (Action Nat) :=
    .dispatch dispatch (sampleBegin "first" 10) ::
      [now, now, now, now, now + 1, now + 1].map fun now => .proceed dispatch now outcome
  attempt 0 20 .raised ++ attempt 1 30 .returned

theorem dispatchLockbox_disciplined_sample :
    (sampleDispatches.foldl (System.step sampleSha256 "first" "w4") System.initial).reports =
        failedAttempt 0 ++
          [.recorded 1 .dispatchStarted, .invoked 1, .recorded 1 .dispatched] ∧
      ∀ system ∈ states (System.step sampleSha256 "first" "w4") System.initial sampleDispatches,
        Disciplined "first" "w4" system :=
  ⟨by decide +kernel,
    dispatchLockbox_disciplined sampleSha256 "first" "w4" sampleDispatches (by decide +kernel)⟩

end TradingEngine.Lockbox
