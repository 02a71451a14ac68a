import TradingEngine.CompletedJobs

/-!
# Recovery from a killed runner

A killed call leaves what its last file operation left. Every file is created, replaced
or removed in one step, and temporary files carry names that no reader looks for. The
receipt of an attempt and its marker are two files, however. A call that is killed
after it has created the receipt and before it has unlinked the marker leaves both, and
the next call with the key takes the marker for an attempt without a receipt: it tries
to create the receipt again and raises, and so does every call after it. All other kills
leave attempts that the next call can finalise.
-/

namespace TradingEngine.Jobs

open Runs

variable {Parameters Digest : Type} [DecidableEq Digest]
  {hashJson : JobBody Parameters Digest → Digest}

/-- Where a call is killed outside its attempts: when it has dealt with some of the
markers, between the receipt and the marker of the next one, or while it forgets old
receipts, of which it then keeps some. -/
inductive Kill (Digest : Type) where
  | resolving (dealt : Nat)
  | receiptWritten (dealt : Nat)
  | pruning (keep : Receipt Digest → Bool)

/-- A call of a history. Where it is killed during an attempt stands in the view of the
attempt. -/
structure Turn (Parameters Digest : Type) where
  call : JobCall Parameters Digest
  kill : Option (Kill Digest)

instance (key : InvocationKey Digest) (files : JobFiles Digest) : Decidable (Scoped key files) :=
  decidable_of_iff _ scoped_iff.symm

section Kills

variable (hashJson)

/-- What a call leaves when it has dealt with some of the markers. -/
def resolvedUpTo (call : JobCall Parameters Digest) (files : JobFiles Digest) (dealt : Nat) :
    JobFiles Digest :=
  match call.admitted, invocationKeys hashJson call with
  | .ok _, .ok key =>
    if Scoped key files then (resolveStale call key (files.markers.take dealt) files).1 else files
  | _, _ => files

/-- No receipt that a call meets or writes ended before this. -/
def earliest (call : JobCall Parameters Digest) (files : JobFiles Digest) : Instant :=
  (files.receipts.map Receipt.endedAt ++ [call.resolvedAt, call.endedAt] ++
    (List.range call.spec.maxAttempts).map fun index => (call.views index).endedAt).foldl min
      call.prunedAt

/-- What a killed call leaves. The receipt of a marker is created before the marker is
unlinked. -/
def killedCall (call : JobCall Parameters Digest) (files : JobFiles Digest) :
    Kill Digest → JobFiles Digest
  | .resolving dealt => resolvedUpTo hashJson call files dealt
  | .receiptWritten dealt =>
    ⟨(resolvedUpTo hashJson call files (dealt + 1)).receipts,
      (resolvedUpTo hashJson call files dealt).markers⟩
  | .pruning keep =>
    let unpruned := (executeJob hashJson { call with prunedAt := earliest call files } files).2
    { unpruned with
      receipts := unpruned.receipts.filter fun receipt =>
        call.recent receipt.endedAt || keep receipt }

/-- One call of a history. -/
def takeTurn (files : JobFiles Digest) (turn : Turn Parameters Digest) : JobFiles Digest :=
  match turn.kill with
  | none => (executeJob hashJson turn.call files).2
  | some kill => killedCall hashJson turn.call files kill

end Kills

/-- The monotonic clock of a call. -/
def JobCall.clock (call : JobCall Parameters Digest) : CallClock where
  startedMonotonic := call.startedMonotonic
  deadlineAt := call.startedMonotonic + min call.spec.overallSeconds call.spec.deadlineSeconds

/-- A completion probe that says that work is left. -/
def ChildRun.leavesWork : ChildRun → Bool
  | .launchError _ _ => false
  | .exited exit => exit.code = 1 && exit.termination.isNone && exit.forwardedSignal.isNone

/-- An attempt that gets as far as its marker. -/
def Launches (call : JobCall Parameters Digest) (view : AttemptView) : Prop :=
  view.enteredAt < call.clock.deadlineAt ∧ view.lockedAt < call.clock.deadlineAt ∧
    view.refused.isNone ∧ view.preflight.isNone ∧
    (call.spec.probes → view.probeAt < call.clock.deadlineAt ∧ view.probe.leavesWork)

instance (call : JobCall Parameters Digest) (view : AttemptView) :
    Decidable (Launches call view) :=
  inferInstanceAs (Decidable (_ ∧ _ ∧ _ ∧ _ ∧ _))

/-- A call whose attempts are not killed between their receipt and their marker. -/
def AttemptsOutsideGap (call : JobCall Parameters Digest) : Prop :=
  ∀ index < call.spec.maxAttempts, Launches call (call.views index) →
    (call.views index).loss ≠ some .receiptWritten

instance (call : JobCall Parameters Digest) : Decidable (AttemptsOutsideGap call) :=
  inferInstanceAs (Decidable (∀ index < call.spec.maxAttempts, _))

/-- The call is not killed between the receipt and the marker of an attempt of its key. -/
def Kill.OutsideGap (key : Option (InvocationKey Digest)) (files : JobFiles Digest) :
    Kill Digest → Prop
  | .receiptWritten dealt => ∀ stale ∈ files.markers[dealt]?, stale.idempotencyKey ∉ key
  | .resolving _ | .pruning _ => True

instance (key : Option (InvocationKey Digest)) (files : JobFiles Digest) :
    ∀ kill : Kill Digest, Decidable (kill.OutsideGap key files)
  | .receiptWritten dealt => inferInstanceAs (Decidable (∀ stale ∈ files.markers[dealt]?, _))
  | .resolving _ | .pruning _ => inferInstanceAs (Decidable True)

variable (hashJson) in
/-- A call that is not killed between the receipt of an attempt and its marker. -/
def OutsideGap (files : JobFiles Digest) (turn : Turn Parameters Digest) : Prop :=
  AttemptsOutsideGap turn.call ∧
    ∀ kill ∈ turn.kill, kill.OutsideGap (invocationKeys hashJson turn.call).toOption files

instance (files : JobFiles Digest) (turn : Turn Parameters Digest) :
    Decidable (OutsideGap hashJson files turn) :=
  inferInstanceAs (Decidable (_ ∧ _))

/-- Every marker stands for an attempt of its own that has no receipt, and tells which
child to look for once there may be one. -/
structure Recoverable (files : JobFiles Digest) : Prop where
  unfinished : ∀ marker ∈ files.markers, ∀ receipt ∈ files.receipts,
    receipt.toBaseReceipt ≠ marker.toBaseReceipt
  distinct : (files.markers.map Marker.toBaseReceipt).Nodup
  identified : ∀ marker ∈ files.markers, marker.child = none → marker.launchState = .preparing

/-- An attempt without receipt and marker. -/
structure Unused (base : BaseReceipt Digest) (files : JobFiles Digest) : Prop where
  receipts : ∀ receipt ∈ files.receipts, receipt.toBaseReceipt ≠ base
  markers : ∀ marker ∈ files.markers, marker.toBaseReceipt ≠ base

section Files

variable {files : JobFiles Digest} {receipt : Receipt Digest} {marker : Marker Digest}
  {base : BaseReceipt Digest}

omit [DecidableEq Digest] in
theorem Recoverable.filter (recoverable : Recoverable files) (keep : Receipt Digest → Bool) :
    Recoverable { files with receipts := files.receipts.filter keep } where
  unfinished marker listed receipt kept :=
    recoverable.unfinished marker listed receipt (List.mem_filter.mp kept).1
  distinct := recoverable.distinct
  identified := recoverable.identified

omit [DecidableEq Digest] in
theorem Recoverable.addReceipt (recoverable : Recoverable files)
    (unmarked : ∀ marker ∈ files.markers, marker.toBaseReceipt ≠ receipt.toBaseReceipt) :
    Recoverable { files with receipts := files.receipts ++ [receipt] } where
  unfinished marker listed other stored := by
    rcases List.mem_append.mp stored with earlier | new
    · exact recoverable.unfinished marker listed other earlier
    · rw [List.mem_singleton.mp new]
      exact (unmarked marker listed).symm
  distinct := recoverable.distinct
  identified := recoverable.identified

omit [DecidableEq Digest] in
/-- The marker of an unused attempt may be added. -/
theorem Recoverable.addMarker (recoverable : Recoverable files)
    (unused : Unused marker.toBaseReceipt files)
    (identified : marker.child = none → marker.launchState = .preparing) :
    Recoverable { files with markers := files.markers ++ [marker] } where
  unfinished other listed receipt stored := by
    rcases List.mem_append.mp listed with earlier | new
    · exact recoverable.unfinished other earlier receipt stored
    · rw [List.mem_singleton.mp new]
      exact unused.receipts receipt stored
  distinct := by
    rw [List.map_append, List.nodup_append]
    refine ⟨recoverable.distinct, by simp, ?_⟩
    intro first earlier second new
    obtain ⟨other, listed, rfl⟩ := List.mem_map.mp earlier
    rw [List.map_singleton, List.mem_singleton] at new
    rw [new]
    exact unused.markers other listed
  identified other listed := by
    rcases List.mem_append.mp listed with earlier | new
    · exact recoverable.identified other earlier
    · rw [List.mem_singleton.mp new]
      exact identified

theorem createMarker_fresh (unused : Unused marker.toBaseReceipt files) :
    createMarker files marker = .ok { files with markers := files.markers ++ [marker] } := by
  apply if_neg
  intro inside
  obtain ⟨other, listed, same⟩ := List.mem_map.mp inside
  exact unused.markers other listed same

theorem atomicJson_unused
    (unused : ∀ other ∈ files.receipts, other.toBaseReceipt ≠ receipt.toBaseReceipt) :
    atomicJson files receipt = .ok { files with receipts := files.receipts ++ [receipt] } := by
  apply atomicJson_fresh
  intro inside
  obtain ⟨other, listed, same⟩ := List.mem_map.mp inside
  exact unused other listed same

theorem Recoverable.writeFinal (recoverable : Recoverable files) :
    Recoverable (unlinkMarker { files with receipts := files.receipts ++ [receipt] }
      receipt.toBaseReceipt) where
  unfinished marker listed other stored := by
    obtain ⟨present, apart⟩ := List.mem_filter.mp listed
    rcases List.mem_append.mp stored with earlier | new
    · exact recoverable.unfinished marker present other earlier
    · rw [List.mem_singleton.mp new]
      exact (of_decide_eq_true apart).symm
  distinct := recoverable.distinct.sublist (List.filter_sublist.map _)
  identified marker listed := recoverable.identified marker (List.mem_filter.mp listed).1

end Files

/-- An end of an attempt that does not raise, and after which another attempt is only
taken when one is left. -/
def AttemptEnd.Orderly (spec : JobSpec Digest) (retryIndex : Nat) : AttemptEnd Digest → Prop
  | .finished _ | .lost => True
  | .concluded _ retry => retry = true → retryIndex + 1 < spec.maxAttempts
  | .raised _ => False

/-- What an attempt leaves: files to recover from, in which no other attempt is used. -/
structure AttemptLeft (spec : JobSpec Digest) (retryIndex : Nat) (base : BaseReceipt Digest)
    (before : JobFiles Digest) (course : AttemptCourse Digest) : Prop where
  recoverable : Recoverable course.files
  others : ∀ other, other ≠ base → Unused other before → Unused other course.files
  orderly : course.ending.Orderly spec retryIndex

section Attempts

variable {call : JobCall Parameters Digest} {retryIndex : Nat} {base : BaseReceipt Digest}
  {before files : JobFiles Digest} {view : AttemptView} {children : List ChildKind}

/-- An attempt is settled without a receipt that is left beside its marker. -/
theorem settleAttempt_left {receipt : Receipt Digest} {loss : Option Loss}
    {ending : AttemptEnd Digest} (recoverable : Recoverable files)
    (fresh : ∀ other ∈ files.receipts, other.toBaseReceipt ≠ base)
    (others : ∀ other, other ≠ base → Unused other before → Unused other files)
    (own : receipt.toBaseReceipt = base)
    (outside : loss = some .receiptWritten → ∀ marker ∈ files.markers, marker.toBaseReceipt ≠ base)
    (orderly : ending.Orderly call.spec retryIndex) :
    AttemptLeft call.spec retryIndex base before
      (settleAttempt files receipt loss children ending) := by
  have grown : ∀ other, other ≠ base → Unused other before →
      ∀ stored ∈ files.receipts ++ [receipt], stored.toBaseReceipt ≠ other := by
    intro other apart unused stored listed
    rcases List.mem_append.mp listed with earlier | new
    · exact (others other apart unused).receipts stored earlier
    · rw [List.mem_singleton.mp new, own]
      exact apart.symm
  subst own
  unfold settleAttempt
  rw [atomicJson_unused fresh]
  dsimp only
  split
  · rename_i written
    refine ⟨recoverable.addReceipt (outside written), fun other apart unused => ?_, trivial⟩
    exact ⟨grown other apart unused, (others other apart unused).markers⟩
  · refine ⟨recoverable.writeFinal, fun other apart unused => ⟨grown other apart unused, ?_⟩, ?_⟩
    · intro marker listed
      exact (others other apart unused).markers marker (List.mem_filter.mp listed).1
    · dsimp only
      split
      · trivial
      · exact orderly

/-- An attempt that launches its task and is not killed between its receipt and its
marker. -/
theorem launchTask_left (recoverable : Recoverable before) (unused : Unused base before)
    (outside : view.loss ≠ some .receiptWritten) :
    AttemptLeft call.spec retryIndex base before
      (launchTask call.spec call.clock retryIndex base view before children) := by
  have created : ∀ state child, createMarker before
      { base with launchState := state, child := child } =
        .ok { before with markers := before.markers ++
          [{ base with launchState := state, child := child }] } :=
    fun state child => createMarker_fresh unused
  have marked : ∀ state child, (child = none → state = .preparing) →
      Recoverable { before with markers := before.markers ++
        [({ base with launchState := state, child := child } : Marker Digest)] } :=
    fun state child identified => recoverable.addMarker unused identified
  have others : ∀ state child other, other ≠ base → Unused other before →
      Unused other { before with markers := before.markers ++
        [({ base with launchState := state, child := child } : Marker Digest)] } := by
    intro state child other apart unused
    refine ⟨unused.receipts, fun marker listed => ?_⟩
    rcases List.mem_append.mp listed with earlier | new
    · exact unused.markers marker earlier
    · rw [List.mem_singleton.mp new]
      exact apart.symm
  have settled : ∀ receipt ending kinds, receipt.toBaseReceipt = base →
      ending.Orderly call.spec retryIndex → AttemptLeft call.spec retryIndex base before
        (settleAttempt { before with markers := before.markers ++
          [({ base with launchState := .preparing, child := none } : Marker Digest)] }
          receipt view.loss kinds ending) := fun receipt ending kinds own orderly =>
    settleAttempt_left (marked _ _ fun _ => rfl) unused.receipts (others _ _) own
      (fun written => absurd written outside) orderly
  unfold launchTask
  simp only [created, Except.toOption, Option.getD_some]
  split
  · exact ⟨marked _ _ fun _ => rfl, others _ _, trivial⟩
  · exact ⟨marked _ _ nofun, others _ _, trivial⟩
  · exact ⟨marked _ _ nofun, others _ _, trivial⟩
  · split
    · exact settled _ _ _ rfl trivial
    · split
      · refine settled _ _ _ rfl fun retries => (of_decide_eq_true retries).2.1
      · refine settled _ _ _ rfl fun retries => (of_decide_eq_true retries).2.1

/-- One turn of the retry loop that is not killed between a receipt and its marker. -/
theorem attemptOnce_left (recoverable : Recoverable before) (unused : Unused base before)
    (outside : Launches call view → view.loss ≠ some .receiptWritten) :
    AttemptLeft call.spec retryIndex base before
      (attemptOnce call.spec call.clock retryIndex base view before) := by
  -- an attempt without a marker may be killed anywhere
  have settled : ∀ receipt ending kinds, receipt.toBaseReceipt = base →
      ending.Orderly call.spec retryIndex → AttemptLeft call.spec retryIndex base before
        (settleAttempt before receipt view.loss kinds ending) := fun receipt ending kinds own =>
    settleAttempt_left recoverable unused.receipts (fun _ _ unused => unused) own
      fun _ => unused.markers
  have concluded : ∀ status reason kinds, AttemptLeft call.spec retryIndex base before
      (concludeAttempt call.spec call.clock retryIndex base view before kinds status reason) :=
    fun status reason kinds => settled _ _ _ rfl fun retries => (of_decide_eq_true retries).2.1
  unfold attemptOnce
  split
  · exact ⟨recoverable, fun _ _ unused => unused, trivial⟩
  split
  · exact settled _ _ _ rfl trivial
  rename_i entered
  split
  · exact concluded _ _ _
  rename_i locked
  split
  · exact concluded _ _ _
  · exact concluded _ _ _
  · rename_i refused preflight
    have launches : (call.spec.probes → view.probeAt < call.clock.deadlineAt ∧
        view.probe.leavesWork) → view.loss ≠ some .receiptWritten := fun probed =>
      outside ⟨not_le.mp entered, not_le.mp locked, by simp [refused], by simp [preflight], probed⟩
    unfold probeThenLaunch
    split
    · rename_i probes
      split
      · exact settled _ _ _ rfl trivial
      rename_i inTime
      split
      · exact settled _ _ _ rfl trivial
      rename_i exit exited
      dsimp only
      split
      · exact settled _ _ _ rfl trivial
      split
      · exact settled _ _ _ rfl trivial
      split
      · exact settled _ _ _ rfl trivial
      · rename_i left
        refine launchTask_left recoverable unused (launches fun _ => ⟨not_le.mp inTime, ?_⟩)
        rw [exited]
        simp only [not_or, ne_eq, not_not] at left
        simp [ChildRun.leavesWork, left]
    · rename_i probeless
      exact launchTask_left recoverable unused (launches fun probes => absurd probes probeless)

end Attempts

section Calls

variable {call : JobCall Parameters Digest} {key : InvocationKey Digest} {files : JobFiles Digest}

/-- What a call leaves behind, if it does not raise. -/
structure CallLeft (result : CallOutcome Digest × JobFiles Digest) : Prop where
  recoverable : Recoverable result.2
  unraised : ∀ reason, result.1.ending ≠ .raised reason

omit [DecidableEq Digest] in
theorem finish_left {receipt : Receipt Digest} {children : List ChildKind}
    (recoverable : Recoverable files) : CallLeft (finish call receipt children files) :=
  ⟨recoverable.filter _, fun _ => nofun⟩

/-- The retry loop takes unused attempts, and so it never raises. -/
theorem retryLoop_left {next : Nat} (outside : AttemptsOutsideGap call) (remaining retryIndex : Nat)
    (bounded : retryIndex + remaining = call.spec.maxAttempts) (positive : 0 < remaining)
    (children : List ChildKind) (files : JobFiles Digest) (recoverable : Recoverable files)
    (unused : ∀ index, retryIndex ≤ index → Unused ⟨key, call.scheduledFor, next + index⟩ files) :
    CallLeft (retryLoop call call.clock key next remaining retryIndex children files) := by
  induction remaining generalizing retryIndex children files with
  | zero => exact absurd positive (lt_irrefl 0)
  | succ remaining ih =>
    have left : AttemptLeft call.spec retryIndex ⟨key, call.scheduledFor, next + retryIndex⟩ files
        (attemptOnce call.spec call.clock retryIndex
          ⟨key, call.scheduledFor, next + retryIndex⟩ (call.views retryIndex) files) :=
      attemptOnce_left recoverable (unused retryIndex le_rfl) (outside retryIndex (by omega))
    have orderly := left.orderly
    unfold retryLoop
    dsimp only
    split
    · rename_i reason raised
      rw [raised] at orderly
      exact orderly.elim
    · exact ⟨left.recoverable, fun _ => nofun⟩
    · exact finish_left left.recoverable
    · exact finish_left left.recoverable
    · rename_i receipt concluded
      rw [concluded] at orderly
      have more : retryIndex + 1 < call.spec.maxAttempts := orderly rfl
      refine ih (retryIndex + 1) (by omega) (by omega) _ _ left.recoverable ?_
      intro index later
      refine left.others _ ?_ (unused index (by omega))
      intro same
      have number : next + index = next + retryIndex := congrArg BaseReceipt.attempt same
      omega

variable (call key) in
/-- However far it gets, resolving leaves files to recover from. -/
theorem resolveStale_recoverable (stale : List (Marker Digest)) (files : JobFiles Digest)
    (recoverable : Recoverable files) : Recoverable (resolveStale call key stale files).1 := by
  induction stale generalizing files with
  | nil => exact recoverable
  | cons head rest ih =>
    unfold resolveStale
    split
    · exact ih files recoverable
    split
    · exact recoverable
    split
    · exact recoverable
    dsimp only
    split
    · exact recoverable
    · rename_i written stored
      obtain ⟨created, creating, rfl⟩ := map_ok.mp stored
      obtain rfl := atomicJson_ok creating
      exact ih _ recoverable.writeFinal

variable (call key) in
/-- Resolving uses no attempts but those of the markers. -/
theorem resolveStale_unused {base : BaseReceipt Digest} (stale : List (Marker Digest))
    (apart : ∀ marker ∈ stale, marker.toBaseReceipt ≠ base) (files : JobFiles Digest)
    (unused : Unused base files) : Unused base (resolveStale call key stale files).1 := by
  induction stale generalizing files with
  | nil => exact unused
  | cons head rest ih =>
    obtain ⟨first, others⟩ := List.forall_mem_cons.mp apart
    unfold resolveStale
    split
    · exact ih others files unused
    split
    · exact unused
    split
    · exact unused
    dsimp only
    split
    · exact unused
    · rename_i written stored
      obtain ⟨created, creating, rfl⟩ := map_ok.mp stored
      obtain rfl := atomicJson_ok creating
      refine ih others _ ⟨?_, ?_⟩
      · intro receipt listed
        rcases List.mem_append.mp listed with earlier | new
        · exact unused.receipts receipt earlier
        · rw [List.mem_singleton.mp new]
          exact first
      · intro marker listed
        exact unused.markers marker (List.mem_filter.mp listed).1

/-- The receipts of one attempt. -/
def receiptsOf (files : JobFiles Digest) (base : BaseReceipt Digest) : List (Receipt Digest) :=
  files.receipts.filter fun receipt => receipt.toBaseReceipt = base

/-- The next attempts of a key are unused. -/
theorem nextAttempt_onward (slot : Instant) (index : Nat) :
    Unused ⟨key, slot, nextAttempt files key + index⟩ files := by
  have above : ∀ base : BaseReceipt Digest, base ∈ files.receipts.map Receipt.toBaseReceipt ++
      files.markers.map Marker.toBaseReceipt → base.idempotencyKey = key →
      base.attempt < nextAttempt files key := by
    intro base listed own
    have used : base.attempt ∈ attemptsOf files key :=
      List.mem_map_of_mem (List.mem_filter.mpr ⟨listed, decide_eq_true own⟩)
    have bounded := (le_foldl_max (attemptsOf files key) 0).2 _ used
    unfold nextAttempt
    omega
  refine ⟨fun receipt listed same => ?_, fun marker listed same => ?_⟩
  · have below := above receipt.toBaseReceipt
      (List.mem_append_left _ (List.mem_map_of_mem listed)) (by rw [same])
    rw [same] at below
    exact absurd below (by simp)
  · have below := above marker.toBaseReceipt
      (List.mem_append_right _ (List.mem_map_of_mem listed)) (by rw [same])
    rw [same] at below
    exact absurd below (by simp)

theorem publishAndFinish_left {receipt : Receipt Digest} (recoverable : Recoverable files)
    (unused : Unused receipt.toBaseReceipt files) :
    CallLeft (publishAndFinish call receipt files) := by
  unfold publishAndFinish
  rw [atomicJson_unused unused.receipts]
  exact finish_left (recoverable.addReceipt unused.markers)

/-- A call that is not killed between a receipt and its marker leaves files to recover
from. -/
theorem runKeyed_recoverable (outside : AttemptsOutsideGap call) (recoverable : Recoverable files) :
    Recoverable (runKeyed call key files).2 := by
  have next (index : Nat) :
      Unused ⟨key, call.scheduledFor, nextAttempt files key + index⟩ files :=
    nextAttempt_onward call.scheduledFor index
  unfold runKeyed
  dsimp only
  split
  · exact (publishAndFinish_left recoverable (next 0)).recoverable
  · split
    · rename_i resolved raised resolves
      have left := resolveStale_recoverable call key files.markers files recoverable
      rw [resolves] at left
      exact left
    · rename_i resolved resolves
      have left := resolveStale_recoverable call key files.markers files recoverable
      have unused (index : Nat) := resolveStale_unused call key files.markers
        (next index).markers files (next index)
      rw [resolves] at left unused
      split
      · exact (publishAndFinish_left left (unused 0)).recoverable
      · have positive : 0 < call.spec.maxAttempts := by
          have covers := call.spec.backoffCovers
          omega
        exact (retryLoop_left outside _ 0 (Nat.zero_add _) positive _ _ left
          fun index _ => unused index).recoverable

theorem resolveStale_foreign {foreign : Marker Digest} (other : foreign.idempotencyKey ≠ key)
    (stale : List (Marker Digest)) (files : JobFiles Digest) :
    resolveStale call key (stale ++ [foreign]) files = resolveStale call key stale files := by
  induction stale generalizing files with
  | nil => exact if_pos other
  | cons head rest ih =>
    rw [List.cons_append]
    unfold resolveStale
    simp only [ih]

variable (hashJson) in
theorem executeJob_recoverable (outside : AttemptsOutsideGap call)
    (recoverable : Recoverable files) : Recoverable (executeJob hashJson call files).2 := by
  obtain ⟨reason, traceless⟩ | ⟨key, _, _, runs⟩ := executeJob_cases hashJson call files
  · rw [traceless]
    exact recoverable
  · rw [runs]
    exact runKeyed_recoverable outside recoverable

variable (hashJson call) in
theorem resolvedUpTo_recoverable (recoverable : Recoverable files) (dealt : Nat) :
    Recoverable (resolvedUpTo hashJson call files dealt) := by
  unfold resolvedUpTo
  split
  · split
    · exact resolveStale_recoverable call _ _ files recoverable
    · exact recoverable
  · exact recoverable

/-- Outside the gap nothing happens between a receipt and a marker. -/
theorem resolvedUpTo_outside {dealt : Nat}
    (outside : (Kill.receiptWritten dealt : Kill Digest).OutsideGap
      (invocationKeys hashJson call).toOption files) :
    resolvedUpTo hashJson call files (dealt + 1) = resolvedUpTo hashJson call files dealt := by
  unfold resolvedUpTo
  split
  · rename_i key _ keyed
    cases found : files.markers[dealt]? with
    | none => rw [List.take_add_one, found, Option.toList_none, List.append_nil]
    | some foreign =>
      have other : foreign.idempotencyKey ≠ key := by
        rintro rfl
        exact outside foreign found (by rw [keyed]; rfl)
      rw [List.take_add_one, found, Option.toList_some, resolveStale_foreign other]
  · rfl

/-- A turn that is not killed between a receipt and its marker leaves files to recover
from. -/
theorem takeTurn_recoverable {turn : Turn Parameters Digest} (recoverable : Recoverable files)
    (outside : OutsideGap hashJson files turn) : Recoverable (takeTurn hashJson files turn) := by
  obtain ⟨attempts, kills⟩ := outside
  unfold takeTurn
  cases killed : turn.kill with
  | none => exact executeJob_recoverable hashJson attempts recoverable
  | some kill =>
    cases kill with
    | resolving dealt => exact resolvedUpTo_recoverable hashJson turn.call recoverable dealt
    | receiptWritten dealt =>
      have same := resolvedUpTo_outside (kills _ killed)
      have left := resolvedUpTo_recoverable hashJson turn.call recoverable dealt
      simp only [killedCall, same]
      exact left
    | pruning keep =>
      have unpruned : Recoverable (executeJob hashJson
          { turn.call with prunedAt := earliest turn.call files } files).2 :=
        executeJob_recoverable hashJson attempts recoverable
      exact unpruned.filter _

/-- What resolving does for the markers of a key whose children are dead: every one is
gone and has exactly one receipt, as an interrupted attempt. -/
structure Resolves (key : InvocationKey Digest) (stale : List (Marker Digest))
    (files resolved : JobFiles Digest) : Prop where
  gone : ∀ marker ∈ resolved.markers, marker ∈ files.markers ∧
    (marker ∈ stale → marker.idempotencyKey ≠ key)
  finalised : ∀ marker ∈ stale, marker.idempotencyKey = key → ∃ receipt,
    receipt.workStatus = .interrupted ∧ receiptsOf resolved marker.toBaseReceipt = [receipt]
  untouched : ∀ base, (∀ marker ∈ stale, marker.toBaseReceipt ≠ base) →
    receiptsOf resolved base = receiptsOf files base

variable (call) in
theorem resolveStale_own {stale : Marker Digest} (rest : List (Marker Digest))
    (own : stale.idempotencyKey = key)
    (unfinished : ∀ receipt ∈ files.receipts, receipt.toBaseReceipt ≠ stale.toBaseReceipt)
    (identified : stale.child = none → stale.launchState = .preparing)
    (dead : stale.child.any call.alive = false) :
    ∃ receipt : Receipt Digest, receipt.toBaseReceipt = stale.toBaseReceipt ∧
      receipt.workStatus = .interrupted ∧ resolveStale call key (stale :: rest) files =
        resolveStale call key rest (unlinkMarker { files with
          receipts := files.receipts ++ [receipt] } receipt.toBaseReceipt) := by
  have verifiable : ¬ (stale.child = none ∧ stale.launchState ≠ .preparing) :=
    fun both => both.2 (identified both.1)
  obtain ⟨reason, resolved⟩ : ∃ reason, resolveStale call key (stale :: rest) files =
      resolveStale call key rest (unlinkMarker { files with
        receipts := files.receipts ++ [finishReceipt stale.toBaseReceipt call.resolvedAt .interrupted
          reason .resume none none none none] } stale.toBaseReceipt) := by
    rw [resolveStale, if_neg (not_not.mpr own), if_neg verifiable, if_neg (by simp [dead])]
    dsimp only [writeFinal]
    rw [atomicJson_unused unfinished]
    exact ⟨_, rfl⟩
  exact ⟨_, rfl, rfl, resolved⟩

/-- Resolving does not raise on markers to recover from. -/
theorem resolveStale_resolves (stale : List (Marker Digest)) (files : JobFiles Digest)
    (unfinished : ∀ marker ∈ stale, ∀ receipt ∈ files.receipts,
      receipt.toBaseReceipt ≠ marker.toBaseReceipt)
    (distinct : (stale.map Marker.toBaseReceipt).Nodup)
    (identified : ∀ marker ∈ stale, marker.child = none → marker.launchState = .preparing)
    (dead : ∀ marker ∈ stale, marker.idempotencyKey = key → marker.child.any call.alive = false) :
    ∃ resolved, resolveStale call key stale files = (resolved, none) ∧
      Resolves key stale files resolved := by
  induction stale generalizing files with
  | nil =>
    refine ⟨files, rfl, ?_, nofun, fun _ _ => rfl⟩
    intro marker listed
    exact ⟨listed, fun inside => (List.not_mem_nil inside).elim⟩
  | cons head rest ih =>
    obtain ⟨headUnfinished, restUnfinished⟩ := List.forall_mem_cons.mp unfinished
    obtain ⟨headApart, restDistinct⟩ := List.nodup_cons.mp distinct
    obtain ⟨headIdentified, restIdentified⟩ := List.forall_mem_cons.mp identified
    obtain ⟨headDead, restDead⟩ := List.forall_mem_cons.mp dead
    have apart : ∀ marker ∈ rest, marker.toBaseReceipt ≠ head.toBaseReceipt := by
      intro marker listed same
      exact headApart (same ▸ List.mem_map_of_mem listed)
    by_cases own : head.idempotencyKey = key
    · obtain ⟨receipt, same, interrupted, resolving⟩ :=
        resolveStale_own call rest own headUnfinished headIdentified (headDead own)
      have grown (base : BaseReceipt Digest) : receiptsOf (unlinkMarker { files with
          receipts := files.receipts ++ [receipt] } receipt.toBaseReceipt) base =
          receiptsOf files base ++ if receipt.toBaseReceipt = base then [receipt] else [] := by
        simp only [receiptsOf, unlinkMarker, List.filter_append, List.filter_cons, List.filter_nil,
          decide_eq_true_eq]
      have fresh : ∀ marker ∈ rest, ∀ stored ∈ files.receipts ++ [receipt],
          stored.toBaseReceipt ≠ marker.toBaseReceipt := by
        intro marker listed stored member
        rcases List.mem_append.mp member with earlier | new
        · exact restUnfinished marker listed stored earlier
        · rw [List.mem_singleton.mp new, same]
          exact (apart marker listed).symm
      obtain ⟨resolved, resolves, gone, finalised, untouched⟩ :=
        ih (unlinkMarker { files with receipts := files.receipts ++ [receipt] }
          receipt.toBaseReceipt) fresh restDistinct restIdentified restDead
      refine ⟨resolved, resolving.trans resolves, ?_, ?_, ?_⟩
      · intro marker listed
        obtain ⟨left, foreign⟩ := gone marker listed
        obtain ⟨present, other⟩ := List.mem_filter.mp left
        refine ⟨present, fun inside => ?_⟩
        rcases List.mem_cons.mp inside with rfl | later
        · exact absurd same.symm (of_decide_eq_true other)
        · exact foreign later
      · intro marker inside ours
        rcases List.mem_cons.mp inside with rfl | later
        · have none' : receiptsOf files marker.toBaseReceipt = [] :=
            List.filter_eq_nil_iff.mpr fun stored listed => by
              simpa using headUnfinished stored listed
          refine ⟨receipt, interrupted, ?_⟩
          rw [untouched _ apart, grown, if_pos same, none', List.nil_append]
        · exact finalised marker later ours
      · intro base other
        obtain ⟨first, others⟩ := List.forall_mem_cons.mp other
        rw [untouched base others, grown, if_neg (same ▸ first), List.append_nil]
    · obtain ⟨resolved, resolves, gone, finalised, untouched⟩ :=
        ih files restUnfinished restDistinct restIdentified restDead
      refine ⟨resolved, (if_pos own).trans resolves, ?_, ?_, ?_⟩
      · intro marker listed
        obtain ⟨present, foreign⟩ := gone marker listed
        refine ⟨present, fun inside => ?_⟩
        rcases List.mem_cons.mp inside with rfl | later
        · exact own
        · exact foreign later
      · intro marker inside ours
        rcases List.mem_cons.mp inside with rfl | later
        · exact absurd ours own
        · exact finalised marker later ours
      · intro base other
        exact untouched base (List.forall_mem_cons.mp other).2

end Calls

section Histories

variable {call : JobCall Parameters Digest} {key : InvocationKey Digest} {files : JobFiles Digest}

/-- A key that has completed. -/
def HasCompleted (key : InvocationKey Digest) (files : JobFiles Digest) : Prop :=
  ∃ receipt ∈ files.receipts, receipt.idempotencyKey = key ∧ receipt.workStatus.completes = true

instance (key : InvocationKey Digest) (files : JobFiles Digest) :
    Decidable (HasCompleted key files) :=
  inferInstanceAs (Decidable (∃ receipt ∈ files.receipts, _))

variable (hashJson) in
/-- A call recovers: it finalises every attempt of its key that was left behind as one
interrupted attempt, and then answers that the key has completed or starts the next
attempt. -/
def Recovers (call : JobCall Parameters Digest) (key : InvocationKey Digest)
    (files : JobFiles Digest) : Prop :=
  ∃ resolved, resolveStale call key files.markers files = (resolved, none) ∧
    Resolves key files.markers files resolved ∧
    (HasCompleted key resolved → ∃ final, final.workStatus = .noop ∧
      (executeJob hashJson call files).1 = ⟨.returned 0 final, []⟩) ∧
    (¬ HasCompleted key resolved → executeJob hashJson call files =
        retryLoop call call.clock key (nextAttempt files key) call.spec.maxAttempts 0 [] resolved ∧
      ∀ reason, (executeJob hashJson call files).1.ending ≠ .raised reason)

/-- From files to recover from a call in its scope recovers, once the children that were
left behind are dead. -/
theorem Recoverable.recovers (recoverable : Recoverable files) (admitted : call.admitted = .ok ())
    (keyed : invocationKeys hashJson call = .ok key) (inScope : Scoped key files)
    (dead : ∀ marker ∈ files.markers, marker.idempotencyKey = key →
      marker.child.any call.alive = false)
    (outside : AttemptsOutsideGap call) : Recovers hashJson call key files := by
  have next (index : Nat) : Unused ⟨key, call.scheduledFor, nextAttempt files key + index⟩ files :=
    nextAttempt_onward call.scheduledFor index
  obtain ⟨resolved, resolves, finalised⟩ : ∃ resolved,
      resolveStale call key files.markers files = (resolved, none) ∧
        Resolves key files.markers files resolved :=
    resolveStale_resolves files.markers files recoverable.unfinished recoverable.distinct
      recoverable.identified dead
  have left := resolveStale_recoverable call key files.markers files recoverable
  have unused (index : Nat) := resolveStale_unused call key files.markers (next index).markers files
    (next index)
  rw [resolves] at left unused
  have completed : HasCompleted key resolved ↔ (resolved.receipts.any fun row =>
      row.idempotencyKey = key && row.workStatus.completes) = true := by
    simp [HasCompleted]
  have runs : executeJob hashJson call files = if HasCompleted key resolved then
      publishAndFinish call (finishReceipt ⟨key, call.scheduledFor, nextAttempt files key⟩
        call.endedAt .noop "completed-idempotency-key") resolved
      else retryLoop call call.clock key (nextAttempt files key) call.spec.maxAttempts 0 []
        resolved := by
    unfold executeJob
    rw [admitted, keyed]
    dsimp only
    unfold runKeyed
    dsimp only
    rw [if_neg (Bool.eq_false_iff.mp (scoped_iff.mp inScope)), resolves]
    exact if_congr completed.symm rfl rfl
  refine ⟨resolved, resolves, finalised, ?_, ?_⟩
  · intro done
    rw [runs, if_pos done, publishAndFinish, atomicJson_unused (unused 0).receipts]
    exact ⟨_, rfl, rfl⟩
  · intro undone
    have positive : 0 < call.spec.maxAttempts := by
      have covers := call.spec.backoffCovers
      omega
    rw [runs, if_neg undone]
    exact ⟨rfl, (retryLoop_left outside _ 0 (Nat.zero_add _) positive _ _ left
      fun index _ => unused index).unraised⟩

variable (hashJson) in
/-- In every history of calls that may be killed anywhere but between the receipt of an
attempt and its marker, the next call of a key in its scope recovers, once the children
that were left behind are dead. -/
theorem killedCalls_recover (turns : List (Turn Parameters Digest))
    (outside : Admissible (takeTurn hashJson) (OutsideGap hashJson) ⟨[], []⟩ turns) :
    ∀ reached ∈ states (takeTurn hashJson) ⟨[], []⟩ turns,
      ∀ (call : JobCall Parameters Digest) (key : InvocationKey Digest),
        call.admitted = .ok () → invocationKeys hashJson call = .ok key → Scoped key reached →
        (∀ marker ∈ reached.markers, marker.idempotencyKey = key →
          marker.child.any call.alive = false) →
        AttemptsOutsideGap call → Recovers hashJson call key reached := by
  intro reached member call key admitted keyed inScope dead attempts
  have initially : Recoverable (⟨[], []⟩ : JobFiles Digest) := ⟨nofun, List.nodup_nil, nofun⟩
  have recoverable : Recoverable reached := by
    refine invariant_of_steps ?_ initially outside reached member
    intro files turn holds allowed
    exact takeTurn_recoverable holds allowed
  exact recoverable.recovers admitted keyed inScope dead attempts

end Histories

/-- A call whose only attempt is killed. -/
def killedWith (loss : Loss) : JobCall String String :=
  { callWith "a" with views := fun index => { (callWith "a").views index with loss := some loss } }

/-- The child had been released when the runner was killed; the next runner was killed
when it had resolved the attempt. -/
theorem releasedChild_recovers : Recovers scopeText (callWith "a") ⟨"operator-key", "nightly:0:a"⟩
    ([⟨killedWith (.released ⟨100, "boot:1"⟩), none⟩, ⟨callWith "a", some (.resolving 1)⟩].foldl
      (takeTurn scopeText) ⟨[], []⟩) :=
  killedCalls_recover scopeText
    [⟨killedWith (.released ⟨100, "boot:1"⟩), none⟩, ⟨callWith "a", some (.resolving 1)⟩]
    (by decide +kernel) _ (last_mem_states _ _ _) (callWith "a") ⟨"operator-key", "nightly:0:a"⟩ rfl
    (by decide +kernel) (by decide +kernel) (by decide +kernel) (by decide +kernel)

/-- When the runner was killed between the receipt of a successful attempt and its marker,
no call recovers. -/
theorem betweenReceiptAndMarker_blocks :
    ¬ ∀ (turns : List (Turn String String)), ∀ reached ∈ states (takeTurn scopeText) ⟨[], []⟩ turns,
      ∀ (call : JobCall String String) (key : InvocationKey String),
        call.admitted = .ok () → invocationKeys scopeText call = .ok key → Scoped key reached →
        (∀ marker ∈ reached.markers, marker.idempotencyKey = key →
          marker.child.any call.alive = false) →
        Recovers scopeText call key reached := by
  intro claimed
  obtain ⟨resolved, resolves, -⟩ := claimed [⟨killedWith .receiptWritten, none⟩] _
    (last_mem_states _ _ _) (callWith "a") ⟨"operator-key", "nightly:0:a"⟩ rfl (by decide +kernel)
    (by decide +kernel) (by decide +kernel)
  have raises : (resolveStale (callWith "a") ⟨"operator-key", "nightly:0:a"⟩
      (takeTurn scopeText ⟨[], []⟩ ⟨killedWith .receiptWritten, none⟩).markers
      (takeTurn scopeText ⟨[], []⟩ ⟨killedWith .receiptWritten, none⟩)).2 =
        some "job receipt already exists: 1.json" := by
    decide +kernel
  simp only [List.foldl_cons, List.foldl_nil] at resolves
  rw [resolves] at raises
  cases raises

end TradingEngine.Jobs
