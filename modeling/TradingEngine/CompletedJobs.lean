import TradingEngine.JobRuns

/-!
# Completed keys

Once a call has ended with success, its key is completed: as long as nobody uses its
operator key with another scope, every later call with the key answers with a noop and
starts nothing. A call with another scope is refused, but its refusal is a receipt
under the same operator key, and the next call with the completed key trips over it.
-/

namespace TradingEngine.Jobs

open Runs

variable {Parameters Digest : Type} [DecidableEq Digest]
  {hashJson : JobBody Parameters Digest → Digest}

/-- Receipts stay; whatever is new carries the key, and new receipts ended at one of the
times. -/
structure Adds (key : InvocationKey Digest) (times : Instant → Prop)
    (before after : JobFiles Digest) : Prop where
  kept : ∀ receipt ∈ before.receipts, receipt ∈ after.receipts
  receipts : ∀ receipt ∈ after.receipts, receipt ∈ before.receipts ∨
    receipt.idempotencyKey = key ∧ times receipt.endedAt
  markers : ∀ marker ∈ after.markers, marker ∈ before.markers ∨ marker.idempotencyKey = key

/-- No attempt of the key is under way or left behind. -/
def Unmarked (key : InvocationKey Digest) (files : JobFiles Digest) : Prop :=
  ∀ marker ∈ files.markers, marker.idempotencyKey ≠ key

namespace Adds

variable {key : InvocationKey Digest} {times : Instant → Prop} {before middle after : JobFiles Digest}

omit [DecidableEq Digest] in
theorem refl : Adds key times before before :=
  ⟨fun _ listed => listed, fun _ listed => .inl listed, fun _ listed => .inl listed⟩

omit [DecidableEq Digest] in
theorem trans (first : Adds key times before middle) (second : Adds key times middle after) :
    Adds key times before after := by
  refine ⟨fun receipt listed => second.kept _ (first.kept _ listed), ?_, ?_⟩
  · intro receipt listed
    rcases second.receipts receipt listed with earlier | new
    · exact first.receipts receipt earlier
    · exact .inr new
  · intro marker listed
    rcases second.markers marker listed with earlier | new
    · exact first.markers marker earlier
    · exact .inr new

end Adds

section Files

variable {key : InvocationKey Digest} {times : Instant → Prop} {files after : JobFiles Digest}
  {receipt : Receipt Digest}

theorem atomicJson_ok (written : atomicJson files receipt = .ok after) :
    after = { files with receipts := files.receipts ++ [receipt] } := by
  unfold atomicJson at written
  split at written
  · cases written
  · cases written
    rfl

theorem atomicJson_fresh
    (fresh : receipt.toBaseReceipt ∉ files.receipts.map Receipt.toBaseReceipt) :
    atomicJson files receipt = .ok { files with receipts := files.receipts ++ [receipt] } :=
  if_neg fresh

theorem atomicJson_adds (written : atomicJson files receipt = .ok after)
    (own : receipt.idempotencyKey = key) (timed : times receipt.endedAt) :
    Adds key times files after ∧ receipt ∈ after.receipts := by
  obtain rfl := atomicJson_ok written
  refine ⟨⟨fun _ listed => List.mem_append_left _ listed, ?_, fun _ listed => .inl listed⟩,
    List.mem_append_right _ (List.mem_singleton.mpr rfl)⟩
  intro other listed
  rcases List.mem_append.mp listed with earlier | new
  · exact .inl earlier
  · obtain rfl := List.mem_singleton.mp new
    exact .inr ⟨own, timed⟩

theorem unlinkMarker_adds (base : BaseReceipt Digest) :
    Adds key times files (unlinkMarker files base) :=
  ⟨fun _ listed => listed, fun _ listed => .inl listed,
    fun _ listed => .inl (List.mem_filter.mp listed).1⟩

theorem createMarker_ok {marker : Marker Digest} (created : createMarker files marker = .ok after) :
    after = { files with markers := files.markers ++ [marker] } := by
  unfold createMarker at created
  split at created
  · cases created
  · cases created
    rfl

theorem createMarker_adds {marker : Marker Digest} (created : createMarker files marker = .ok after)
    (own : marker.idempotencyKey = key) : Adds key times files after := by
  obtain rfl := createMarker_ok created
  refine ⟨fun _ listed => listed, fun _ listed => .inl listed, ?_⟩
  intro other listed
  rcases List.mem_append.mp listed with earlier | new
  · exact .inl earlier
  · obtain rfl := List.mem_singleton.mp new
    exact .inr own

end Files

/-- What an attempt of a key leaves: when the call goes on or returns, its receipt is
there and no marker of the key remains. -/
structure Attempted (base : BaseReceipt Digest) (times : Instant → Prop) (before : JobFiles Digest)
    (course : AttemptCourse Digest) : Prop where
  adds : Adds base.idempotencyKey times before course.files
  settled : ∀ receipt, course.ending = .finished receipt ∨
      (∃ retry, course.ending = .concluded receipt retry) →
    receipt ∈ course.files.receipts ∧ receipt.idempotencyKey = base.idempotencyKey ∧
      Unmarked base.idempotencyKey course.files

section Attempts

variable {base : BaseReceipt Digest} {times : Instant → Prop} {before files : JobFiles Digest}
  {receipt : Receipt Digest} {loss : Option Loss} {children : List ChildKind}
  {ending : AttemptEnd Digest}

/-- Publishing an attempt leaves its receipt and takes its marker away. -/
theorem settleAttempt_attempted (adds : Adds base.idempotencyKey times before files)
    (own : receipt.toBaseReceipt = base) (timed : times receipt.endedAt)
    (only : ∀ marker ∈ files.markers, marker.idempotencyKey = base.idempotencyKey →
      marker.toBaseReceipt = base)
    (ends : ending = .finished receipt ∨ ∃ retry, ending = .concluded receipt retry) :
    Attempted base times before (settleAttempt files receipt loss children ending) := by
  unfold settleAttempt
  split
  · refine ⟨adds, ?_⟩
    rintro other (finished | ⟨retry, concluded⟩)
    · cases finished
    · cases concluded
  · rename_i written stored
    have key : receipt.idempotencyKey = base.idempotencyKey := by rw [own]
    obtain ⟨added, listed⟩ := atomicJson_adds stored key timed
    split
    · refine ⟨adds.trans added, ?_⟩
      rintro other (finished | ⟨retry, concluded⟩)
      · cases finished
      · cases concluded
    · refine ⟨(adds.trans added).trans (unlinkMarker_adds _), ?_⟩
      intro other returned
      have same : other = receipt := by
        dsimp only at returned
        split at returned
        · rcases returned with finished | ⟨retry, concluded⟩
          · cases finished
          · cases concluded
        · rcases ends with rfl | ⟨retry, rfl⟩
          · rcases returned with finished | ⟨retry, concluded⟩
            · cases finished
              rfl
            · cases concluded
          · rcases returned with finished | ⟨retry', concluded⟩
            · cases finished
            · cases concluded
              rfl
      subst same
      refine ⟨listed, key, ?_⟩
      intro marker present ours
      obtain ⟨member, other⟩ := List.mem_filter.mp present
      obtain rfl := atomicJson_ok stored
      rw [decide_eq_true_eq, own] at other
      exact other (only marker member ours)

variable {spec : JobSpec Digest} {clock : CallClock} {retryIndex : Nat} {view : AttemptView}

theorem finishAttempt_attempted (adds : Adds base.idempotencyKey times before files)
    (own : receipt.toBaseReceipt = base) (timed : times receipt.endedAt)
    (only : ∀ marker ∈ files.markers, marker.idempotencyKey = base.idempotencyKey →
      marker.toBaseReceipt = base) :
    Attempted base times before (finishAttempt files receipt view children) :=
  settleAttempt_attempted adds own timed only (.inl rfl)

theorem concludeAttempt_attempted (adds : Adds base.idempotencyKey times before files)
    (timed : times view.endedAt)
    (only : ∀ marker ∈ files.markers, marker.idempotencyKey = base.idempotencyKey →
      marker.toBaseReceipt = base) (status : WorkStatus) (reason : String)
    (processExit : Option Int) (child : Option Child) (termination : Option Termination)
    (forwardedSignal : Option Nat) :
    Attempted base times before (concludeAttempt spec clock retryIndex base view files children
      status reason processExit child termination forwardedSignal) :=
  settleAttempt_attempted adds rfl timed only (.inr ⟨_, rfl⟩)

omit [DecidableEq Digest] in
theorem attempted_of_unsettled (adds : Adds base.idempotencyKey times before files)
    (unsettled : ending = .lost ∨ ∃ reason, ending = .raised reason) :
    Attempted base times before ⟨ending, files, children⟩ := by
  refine ⟨adds, ?_⟩
  rintro other (finished | ⟨retry, concluded⟩)
  · rcases unsettled with rfl | ⟨reason, rfl⟩ <;> cases finished
  · rcases unsettled with rfl | ⟨reason, rfl⟩ <;> cases concluded

theorem launchTask_attempted (unmarked : Unmarked base.idempotencyKey before)
    (timed : times view.endedAt) :
    Attempted base times before (launchTask spec clock retryIndex base view before children) := by
  have marking : ∀ {state child prepared},
      createMarker before { base with launchState := state, child := child } = .ok prepared →
      Adds base.idempotencyKey times before prepared := fun created => createMarker_adds created rfl
  unfold launchTask
  dsimp only
  split
  · exact attempted_of_unsettled .refl (.inr ⟨_, rfl⟩)
  · rename_i prepared created
    have adds := marking created
    have only : ∀ marker ∈ prepared.markers, marker.idempotencyKey = base.idempotencyKey →
        marker.toBaseReceipt = base := by
      intro marker listed ours
      obtain rfl := createMarker_ok created
      rcases List.mem_append.mp listed with earlier | new
      · exact (unmarked marker earlier ours).elim
      · obtain rfl := List.mem_singleton.mp new
        rfl
    have replaced : ∀ state child, Adds base.idempotencyKey times before
        ((createMarker before
          { base with launchState := state, child := child }).toOption.getD prepared) := by
      intro state child
      cases published : createMarker before { base with launchState := state, child := child } with
      | error raised => exact adds
      | ok marked => exact marking published
    split
    · exact attempted_of_unsettled adds (.inl rfl)
    · exact attempted_of_unsettled (replaced _ _) (.inl rfl)
    · exact attempted_of_unsettled (replaced _ _) (.inl rfl)
    · split
      · exact finishAttempt_attempted adds rfl timed only
      · split
        · exact concludeAttempt_attempted adds timed only _ _ _ _ _ _
        · exact concludeAttempt_attempted adds timed only _ _ _ _ _ _

/-- One turn of the retry loop, when nothing of the key is under way. -/
theorem attemptOnce_attempted (unmarked : Unmarked base.idempotencyKey before)
    (timed : times view.endedAt) :
    Attempted base times before (attemptOnce spec clock retryIndex base view before) := by
  have only : ∀ marker ∈ before.markers, marker.idempotencyKey = base.idempotencyKey →
      marker.toBaseReceipt = base := fun marker listed ours => (unmarked marker listed ours).elim
  have finishes : ∀ receipt children, receipt.toBaseReceipt = base → times receipt.endedAt →
      Attempted base times before (finishAttempt before receipt view children) :=
    fun _ _ own timed => finishAttempt_attempted .refl own timed only
  unfold attemptOnce probeThenLaunch
  split
  · exact attempted_of_unsettled .refl (.inl rfl)
  split
  · exact finishes _ _ rfl timed
  split
  · exact concludeAttempt_attempted .refl timed only _ _ _ _ _ _
  split
  · exact concludeAttempt_attempted .refl timed only _ _ _ _ _ _
  · exact concludeAttempt_attempted .refl timed only _ _ _ _ _ _
  split
  · split
    · exact finishes _ _ rfl timed
    split
    · exact finishes _ _ rfl timed
    dsimp only
    split
    · exact finishes _ _ rfl timed
    split
    · exact finishes _ _ rfl timed
    split
    · exact finishes _ _ rfl timed
    · exact launchTask_attempted unmarked timed
  · exact launchTask_attempted unmarked timed

end Attempts

/-- Whether a time is within retention when the call prunes. -/
def JobCall.recent (call : JobCall Parameters Digest) (time : Instant) : Prop :=
  call.prunedAt - call.spec.retentionDays * 86400 ≤ time

instance (call : JobCall Parameters Digest) (time : Instant) : Decidable (call.recent time) :=
  inferInstanceAs (Decidable (_ ≤ _))

/-- Everything that a call reads and writes is within retention when it prunes. -/
structure WithinRetention (files : JobFiles Digest) (call : JobCall Parameters Digest) : Prop where
  stored : ∀ receipt ∈ files.receipts, call.recent receipt.endedAt
  attempts : ∀ index < call.spec.maxAttempts, call.recent (call.views index).endedAt
  resolved : call.recent call.resolvedAt
  ended : call.recent call.endedAt

instance (files : JobFiles Digest) (call : JobCall Parameters Digest) :
    Decidable (WithinRetention files call) :=
  decidable_of_iff ((∀ receipt ∈ files.receipts, call.recent receipt.endedAt) ∧
      (∀ index < call.spec.maxAttempts, call.recent (call.views index).endedAt) ∧
      call.recent call.resolvedAt ∧ call.recent call.endedAt)
    ⟨fun ⟨stored, attempts, resolved, ended⟩ => ⟨stored, attempts, resolved, ended⟩,
      fun ⟨stored, attempts, resolved, ended⟩ => ⟨stored, attempts, resolved, ended⟩⟩

section Calls

variable {call : JobCall Parameters Digest} {key : InvocationKey Digest}
  {files resolved : JobFiles Digest}

omit [DecidableEq Digest] in
theorem pruneReceipts_recent (recent : ∀ receipt ∈ files.receipts, call.recent receipt.endedAt) :
    pruneReceipts files call.spec.retentionDays call.prunedAt = files := by
  have kept : (files.receipts.filter fun receipt =>
      call.prunedAt - call.spec.retentionDays * 86400 ≤ receipt.endedAt) = files.receipts :=
    List.filter_eq_self.mpr fun receipt listed => decide_eq_true (recent receipt listed)
  rw [pruneReceipts, kept]

omit [DecidableEq Digest] in
theorem Adds.recent {after : JobFiles Digest} (adds : Adds key call.recent files after)
    (stored : ∀ receipt ∈ files.receipts, call.recent receipt.endedAt) :
    ∀ receipt ∈ after.receipts, call.recent receipt.endedAt := by
  intro receipt listed
  rcases adds.receipts receipt listed with earlier | ⟨_, timed⟩
  · exact stored receipt earlier
  · exact timed

/-- Resolving what was left behind takes the markers of the key away. -/
theorem resolveStale_adds (timed : call.recent call.resolvedAt) (stale : List (Marker Digest))
    {files after : JobFiles Digest} {raised : Option String}
    (resolved : resolveStale call key stale files = (after, raised)) :
    Adds key call.recent files after ∧ (raised = none → ∀ marker ∈ after.markers,
      marker ∈ files.markers ∧ (marker ∈ stale → marker.idempotencyKey ≠ key)) := by
  induction stale generalizing files with
  | nil =>
    cases resolved
    exact ⟨.refl, fun _ marker listed => ⟨listed, fun inside => (List.not_mem_nil inside).elim⟩⟩
  | cons head rest ih =>
    unfold resolveStale at resolved
    split at resolved
    · rename_i other
      obtain ⟨adds, gone⟩ := ih resolved
      refine ⟨adds, fun fine marker listed => ?_⟩
      obtain ⟨stored, resolvedToo⟩ := gone fine marker listed
      refine ⟨stored, fun inside => ?_⟩
      rcases List.mem_cons.mp inside with rfl | later
      · exact other
      · exact resolvedToo later
    · rename_i own
      split at resolved
      · cases resolved
        exact ⟨.refl, nofun⟩
      split at resolved
      · cases resolved
        exact ⟨.refl, nofun⟩
      dsimp only at resolved
      split at resolved
      · cases resolved
        exact ⟨.refl, nofun⟩
      · rename_i written stored
        obtain ⟨created, creating, rfl⟩ := map_ok.mp stored
        obtain ⟨added, _⟩ := atomicJson_adds creating (not_not.mp own) timed
        obtain ⟨adds, gone⟩ := ih resolved
        refine ⟨(added.trans (unlinkMarker_adds _)).trans adds, fun fine marker listed => ?_⟩
        obtain ⟨left, resolvedToo⟩ := gone fine marker listed
        obtain ⟨inside, apart⟩ := List.mem_filter.mp left
        obtain rfl := atomicJson_ok creating
        refine ⟨inside, fun member => ?_⟩
        rcases List.mem_cons.mp member with rfl | later
        · simp [finishReceipt] at apart
        · exact resolvedToo later

theorem resolveStale_unmarked (stale : List (Marker Digest))
    (unmarked : ∀ marker ∈ stale, marker.idempotencyKey ≠ key) (files : JobFiles Digest) :
    resolveStale call key stale files = (files, none) := by
  induction stale with
  | nil => rfl
  | cons head rest ih =>
    rw [resolveStale, if_pos (unmarked head List.mem_cons_self)]
    exact ih fun marker listed => unmarked marker (List.mem_cons_of_mem _ listed)

/-- What a call with a key leaves: it only adds, and when it returns a receipt that
completes, the receipt is there and no marker of the key remains. -/
structure Called (call : JobCall Parameters Digest) (key : InvocationKey Digest)
    (before : JobFiles Digest) (result : CallOutcome Digest × JobFiles Digest) : Prop where
  adds : Adds key call.recent before result.2
  completed : ∀ exitCode final, result.1.ending = .returned exitCode final →
    final.workStatus.completes = true →
    final ∈ result.2.receipts ∧ final.idempotencyKey = key ∧ Unmarked key result.2

omit [DecidableEq Digest] in
theorem called_of_unreturned {before : JobFiles Digest} {ending : CallEnd Digest}
    {children : List ChildKind} (adds : Adds key call.recent before files)
    (unreturned : ending = .lost ∨ ∃ reason, ending = .raised reason) :
    Called call key before (⟨ending, children⟩, files) := by
  refine ⟨adds, ?_⟩
  rintro exitCode final returned
  rcases unreturned with rfl | ⟨reason, rfl⟩ <;> cases returned

omit [DecidableEq Digest] in
theorem finish_called {before : JobFiles Digest} {receipt : Receipt Digest}
    {children : List ChildKind} (stored : ∀ receipt ∈ before.receipts, call.recent receipt.endedAt)
    (adds : Adds key call.recent before files) (listed : receipt ∈ files.receipts)
    (own : receipt.idempotencyKey = key)
    (unmarked : receipt.workStatus.completes = true → Unmarked key files) :
    Called call key before (finish call receipt children files) := by
  unfold finish
  rw [pruneReceipts_recent (adds.recent stored)]
  refine ⟨adds, ?_⟩
  intro exitCode final returned completes
  cases returned
  exact ⟨listed, own, unmarked completes⟩

theorem retryLoop_called {clock : CallClock} {next : Nat} {before : JobFiles Digest}
    (stored : ∀ receipt ∈ before.receipts, call.recent receipt.endedAt)
    (timed : ∀ index < call.spec.maxAttempts, call.recent (call.views index).endedAt)
    (remaining retryIndex : Nat) (bounded : retryIndex + remaining = call.spec.maxAttempts)
    (children : List ChildKind) (files : JobFiles Digest)
    (adds : Adds key call.recent before files) (unmarked : Unmarked key files) :
    Called call key before (retryLoop call clock key next remaining retryIndex children files) := by
  induction remaining generalizing retryIndex children files with
  | zero => exact called_of_unreturned adds (.inr ⟨_, rfl⟩)
  | succ remaining ih =>
    unfold retryLoop
    have attempted : Attempted ⟨key, call.scheduledFor, next + retryIndex⟩ call.recent files
        (attemptOnce call.spec clock retryIndex ⟨key, call.scheduledFor, next + retryIndex⟩
          (call.views retryIndex) files) :=
      attemptOnce_attempted unmarked (timed retryIndex (by omega))
    have grown := adds.trans attempted.adds
    dsimp only
    split
    · exact called_of_unreturned grown (.inr ⟨_, rfl⟩)
    · exact called_of_unreturned grown (.inl rfl)
    · rename_i receipt finished
      obtain ⟨listed, own, gone⟩ := attempted.settled receipt (.inl finished)
      exact finish_called stored grown listed own fun _ => gone
    · rename_i receipt concluded
      obtain ⟨listed, own, gone⟩ := attempted.settled receipt (.inr ⟨_, concluded⟩)
      exact finish_called stored grown listed own fun _ => gone
    · rename_i receipt concluded
      obtain ⟨_, _, gone⟩ := attempted.settled receipt (.inr ⟨_, concluded⟩)
      exact ih (retryIndex + 1) (by omega) _ _ grown gone

/-- Everything under the operator's key carries this very key. -/
structure Scoped (key : InvocationKey Digest) (files : JobFiles Digest) : Prop where
  receipts : ∀ receipt ∈ files.receipts,
    receipt.idempotencyKey.operatorKey = key.operatorKey → receipt.idempotencyKey = key
  markers : ∀ marker ∈ files.markers,
    marker.idempotencyKey.operatorKey = key.operatorKey → marker.idempotencyKey = key

/-- The check for another scope finds nothing exactly when there is none. -/
theorem scoped_iff : Scoped key files ↔
    ((files.receipts.map Receipt.toBaseReceipt ++ files.markers.map Marker.toBaseReceipt).any
      fun row => row.idempotencyKey.operatorKey = key.operatorKey &&
        row.idempotencyKey.scopeSha256 ≠ key.scopeSha256) = false := by
  have same : ∀ row : BaseReceipt Digest,
      (row.idempotencyKey.operatorKey = key.operatorKey → row.idempotencyKey = key) ↔
        ¬ (row.idempotencyKey.operatorKey = key.operatorKey ∧
          row.idempotencyKey.scopeSha256 ≠ key.scopeSha256) := by
    intro row
    cases row with | mk rowKey slot attempt =>
    cases rowKey
    cases key
    simp only [InvocationKey.mk.injEq, ne_eq, not_and, not_not]
    exact ⟨fun agrees same => (agrees same).2, fun agrees same => ⟨same, agrees same⟩⟩
  rw [List.any_eq_false]
  constructor
  · intro inScope row listed
    have fine : row.idempotencyKey.operatorKey = key.operatorKey → row.idempotencyKey = key := by
      rcases List.mem_append.mp listed with stored | running
      · obtain ⟨receipt, member, rfl⟩ := List.mem_map.mp stored
        exact inScope.receipts receipt member
      · obtain ⟨marker, member, rfl⟩ := List.mem_map.mp running
        exact inScope.markers marker member
    simpa using (same row).mp fine
  · intro none'
    constructor
    · intro receipt listed
      have found := none' receipt.toBaseReceipt
        (List.mem_append_left _ (List.mem_map_of_mem listed))
      exact (same _).mpr (by simpa using found)
    · intro marker listed
      have found := none' marker.toBaseReceipt
        (List.mem_append_right _ (List.mem_map_of_mem listed))
      exact (same _).mpr (by simpa using found)

variable (key) in
/-- A call only adds, and a call that returns a receipt that completes met its own scope
only. -/
theorem runKeyed_called (within : WithinRetention files call) :
    Called call key files (runKeyed call key files) ∧
      ∀ exitCode final, (runKeyed call key files).1.ending = .returned exitCode final →
        final.workStatus.completes = true → Scoped key files := by
  have publishing : ∀ receipt before, Adds key call.recent files before →
      receipt.idempotencyKey = key → call.recent receipt.endedAt →
      (receipt.workStatus.completes = true → Unmarked key before) →
      Called call key files (publishAndFinish call receipt before) := by
    intro receipt before adds own timed unmarked
    unfold publishAndFinish
    split
    · exact called_of_unreturned adds (.inr ⟨_, rfl⟩)
    · rename_i written stored
      obtain ⟨added, listed⟩ := atomicJson_adds stored own timed
      refine finish_called within.stored (adds.trans added) listed own fun completes => ?_
      obtain rfl := atomicJson_ok stored
      exact unmarked completes
  unfold runKeyed
  dsimp only
  split
  · refine ⟨publishing _ _ .refl rfl within.ended nofun, ?_⟩
    intro exitCode final returned completes
    unfold publishAndFinish at returned
    split at returned
    · cases returned
    · cases returned
      cases completes
  · rename_i inScope
    have inScope := scoped_iff.mpr (Bool.eq_false_iff.mpr inScope)
    refine ⟨?_, fun _ _ _ _ => inScope⟩
    split
    · rename_i resolved raised resolves
      exact called_of_unreturned (resolveStale_adds within.resolved _ resolves).1 (.inr ⟨_, rfl⟩)
    · rename_i resolved resolves
      obtain ⟨adds, gone⟩ := resolveStale_adds within.resolved _ resolves
      have unmarked : Unmarked key resolved := fun marker listed =>
        (gone rfl marker listed).2 (gone rfl marker listed).1
      split
      · exact publishing _ _ adds rfl within.ended fun _ => unmarked
      · exact retryLoop_called within.stored within.attempts _ 0 (Nat.zero_add _) _ _ adds unmarked

theorem nextAttempt_unused (slot : Instant) (receipt : Receipt Digest)
    (listed : receipt ∈ files.receipts) :
    receipt.toBaseReceipt ≠ ⟨key, slot, nextAttempt files key⟩ := by
  intro same
  have used : nextAttempt files key ∈ attemptsOf files key := by
    refine List.mem_map.mpr ⟨receipt.toBaseReceipt, List.mem_filter.mpr ⟨?_, ?_⟩, by rw [same]⟩
    · exact List.mem_append_left _ (List.mem_map_of_mem listed)
    · rw [same]
      exact decide_eq_true rfl
  have bounded := (le_foldl_max (attemptsOf files key) 0).2 _ used
  exact absurd bounded (by unfold nextAttempt; omega)

/-- A key that has completed, and that nothing else was recorded under. -/
structure Completed (key : InvocationKey Digest) (files : JobFiles Digest) : Prop where
  receipt : ∃ receipt ∈ files.receipts,
    receipt.idempotencyKey = key ∧ receipt.workStatus.completes = true
  inScope : Scoped key files
  unmarked : Unmarked key files

variable (call) in
/-- A call with a completed key answers with a noop and starts nothing. -/
theorem Completed.noop (completed : Completed key files) :
    ∃ final, final.workStatus = .noop ∧
      (runKeyed call key files).1 = ⟨.returned 0 final, []⟩ := by
  obtain ⟨receipt, listed, own, completes⟩ := completed.receipt
  have prior : (files.receipts.any fun row =>
      row.idempotencyKey = key && row.workStatus.completes) = true :=
    List.any_eq_true.mpr ⟨receipt, listed, by simp [own, completes]⟩
  have fresh : (⟨key, call.scheduledFor, nextAttempt files key⟩ : BaseReceipt Digest) ∉
      files.receipts.map Receipt.toBaseReceipt := by
    intro inside
    obtain ⟨used, member, same⟩ := List.mem_map.mp inside
    exact nextAttempt_unused _ used member same
  unfold runKeyed
  dsimp only
  rw [if_neg (Bool.eq_false_iff.mp (scoped_iff.mp completed.inScope)),
    resolveStale_unmarked _ completed.unmarked]
  dsimp only
  rw [if_pos prior, publishAndFinish, atomicJson_fresh fresh]
  exact ⟨_, rfl, rfl⟩

end Calls

/-- The files of the job, and the keys of the calls that ended with success. -/
structure JobHistory (Digest : Type) where
  files : JobFiles Digest
  ended : List (InvocationKey Digest)

/-- The key that ends with success, if the call does. -/
def CallOutcome.succeeded (outcome : CallOutcome Digest) : Option (InvocationKey Digest) :=
  match outcome.ending with
  | .returned _ final => if final.workStatus = .success then some final.idempotencyKey else none
  | .raised _ | .lost => none

variable (hashJson) in
def JobHistory.step (history : JobHistory Digest) (call : JobCall Parameters Digest) :
    JobHistory Digest :=
  let (outcome, files) := executeJob hashJson call history.files
  ⟨files, history.ended ++ outcome.succeeded.toList⟩

variable (hashJson) in
/-- The operator key of a call is not that of a call that ended with success in another
scope. -/
def KeepsScope (history : JobHistory Digest) (call : JobCall Parameters Digest) : Prop :=
  ∀ key ∈ (invocationKeys hashJson call).toOption, ∀ done ∈ history.ended,
    key.operatorKey = done.operatorKey → key.scopeSha256 = done.scopeSha256

instance (history : JobHistory Digest) (call : JobCall Parameters Digest) :
    Decidable (KeepsScope hashJson history call) :=
  inferInstanceAs (Decidable (∀ key ∈ (invocationKeys hashJson call).toOption,
    ∀ done ∈ history.ended, key.operatorKey = done.operatorKey →
      key.scopeSha256 = done.scopeSha256))

variable {history : JobHistory Digest} {call : JobCall Parameters Digest}

omit [DecidableEq Digest] in
/-- A key that has completed stays so under a call that keeps its scope. -/
theorem Completed.kept {key other : InvocationKey Digest} {files after : JobFiles Digest}
    {times : Instant → Prop} (completed : Completed key files) (adds : Adds other times files after)
    (keeps : other.operatorKey = key.operatorKey → other = key)
    (unmarked : other = key → Unmarked key after) : Completed key after := by
  obtain ⟨receipt, listed, own, completes⟩ := completed.receipt
  refine ⟨⟨receipt, adds.kept receipt listed, own, completes⟩, ⟨?_, ?_⟩, ?_⟩
  · intro stored member same
    rcases adds.receipts stored member with earlier | ⟨new, _⟩
    · exact completed.inScope.receipts stored earlier same
    · rw [new] at same ⊢
      exact keeps same
  · intro marker member same
    rcases adds.markers marker member with earlier | new
    · exact completed.inScope.markers marker earlier same
    · rw [new] at same ⊢
      exact keeps same
  · intro marker member same
    rcases adds.markers marker member with earlier | new
    · exact completed.unmarked marker earlier same
    · exact unmarked (new.symm.trans same) marker member same

/-- Every key that ended with success has completed. -/
def JobHistory.Settled (history : JobHistory Digest) : Prop :=
  ∀ key ∈ history.ended, Completed key history.files

omit [DecidableEq Digest] in
theorem succeeded_cases {outcome : CallOutcome Digest} {key : InvocationKey Digest}
    (succeeded : key ∈ outcome.succeeded) : ∃ exitCode final,
      outcome.ending = .returned exitCode final ∧ final.workStatus = .success ∧
        final.idempotencyKey = key := by
  unfold CallOutcome.succeeded at succeeded
  split at succeeded
  · rename_i exitCode final returned
    split at succeeded
    · rename_i success
      cases succeeded
      exact ⟨exitCode, final, returned, success, rfl⟩
    · cases succeeded
  · cases succeeded
  · cases succeeded

variable (hashJson) in
theorem executeJob_cases (call : JobCall Parameters Digest) (files : JobFiles Digest) :
    (∃ reason, executeJob hashJson call files = (⟨.raised reason, []⟩, files)) ∨
      ∃ key, call.admitted = .ok () ∧ invocationKeys hashJson call = .ok key ∧
        executeJob hashJson call files = runKeyed call key files := by
  unfold executeJob
  cases admitted : call.admitted with
  | error raised => exact .inl ⟨raised, rfl⟩
  | ok _ =>
    cases keyed : invocationKeys hashJson call with
    | error raised => exact .inl ⟨raised, rfl⟩
    | ok key => exact .inr ⟨key, rfl, rfl, rfl⟩

/-- A call that keeps scope and meets no old receipt keeps the completed keys. -/
theorem JobHistory.Settled.step (settled : history.Settled)
    (within : WithinRetention history.files call) (keeps : KeepsScope hashJson history call) :
    (history.step hashJson call).Settled := by
  unfold JobHistory.step
  obtain ⟨reason, traceless⟩ | ⟨key, _, keyed, runs⟩ := executeJob_cases hashJson call history.files
  · rw [traceless]
    simpa [CallOutcome.succeeded, JobHistory.Settled] using settled
  · obtain ⟨called, inScope⟩ := runKeyed_called key within
    have same : ∀ done ∈ history.ended, key.operatorKey = done.operatorKey → key = done := by
      intro done listed operator
      have scope := keeps key (by rw [keyed]; rfl) done listed operator
      cases key
      cases done
      simp_all
    rw [runs]
    intro done listed
    rcases List.mem_append.mp listed with earlier | new
    · refine (settled done earlier).kept called.adds (same done earlier) ?_
      rintro rfl
      obtain ⟨final, noop, ends⟩ := (settled key earlier).noop call
      exact (called.completed 0 final (by rw [ends]) (by rw [noop]; rfl)).2.2
    · have succeeded : done ∈ (runKeyed call key history.files).1.succeeded := by
        simpa using new
      obtain ⟨exitCode, final, returned, success, rfl⟩ := succeeded_cases succeeded
      have completes : final.workStatus.completes = true := by
        rw [success]
        rfl
      obtain ⟨stored, own, unmarked⟩ := called.completed exitCode final returned completes
      have before := inScope exitCode final returned completes
      rw [own]
      refine ⟨⟨final, stored, own, completes⟩, ⟨?_, ?_⟩, unmarked⟩
      · intro receipt member operator
        rcases called.adds.receipts receipt member with old | ⟨added, _⟩
        · exact before.receipts receipt old operator
        · exact added
      · intro marker member operator
        rcases called.adds.markers marker member with old | added
        · exact before.markers marker old operator
        · exact added

variable (hashJson) in
/-- In every history whose calls keep the scope of the keys that ended with success, a
call that the runner admits and whose key ended with success answers with a noop and
starts no child. -/
theorem completed_stays (calls : List (JobCall Parameters Digest))
    (keeps : Admissible (JobHistory.step hashJson)
      (fun history call => WithinRetention history.files call ∧ KeepsScope hashJson history call)
      (⟨⟨[], []⟩, []⟩ : JobHistory Digest) calls) :
    ∀ reached ∈ states (JobHistory.step hashJson) ⟨⟨[], []⟩, []⟩ calls,
      ∀ (call : JobCall Parameters Digest) (key : InvocationKey Digest),
        call.admitted = .ok () → invocationKeys hashJson call = .ok key → key ∈ reached.ended →
        ∃ final, final.workStatus = .noop ∧
          (executeJob hashJson call reached.files).1 = ⟨.returned 0 final, []⟩ := by
  intro reached member call key admitted keyed ended
  have initially : (⟨⟨[], []⟩, []⟩ : JobHistory Digest).Settled := by
    intro key listed
    cases listed
  have settled : reached.Settled :=
    invariant_of_steps (fun _ _ holds fine => holds.step fine.1 fine.2) initially keeps reached
      member
  have runs : executeJob hashJson call reached.files = runKeyed call key reached.files := by
    unfold executeJob
    rw [admitted, keyed]
  rw [runs]
  exact (settled key ended).noop call

/-- The status of a call that returned. -/
def CallOutcome.workStatus (outcome : CallOutcome Digest) : Option WorkStatus :=
  match outcome.ending with
  | .returned _ final => some final.workStatus
  | .raised _ | .lost => none

/-- A digest for small histories. -/
def scopeText : JobBody String String → String
  | .parameters clean => clean
  | .scope jobId _ _ scheduledFor parameterSha256 =>
    jobId ++ ":" ++ toString scheduledFor ++ ":" ++ parameterSha256

def registeredJob : JobSpec String where
  jobId := "nightly"
  version := 1
  specSha256 := "spec"
  idempotencyTemplate slot := "nightly:1:" ++ toString slot
  overallSeconds := 60
  deadlineSeconds := 60
  maxAttempts := 1
  exitCodes := []
  backoffSeconds := []
  retentionDays := 30
  probes := false
  backoffCovers := rfl

/-- A call under one operator key whose task would exit with 0. -/
def callWith (parameters : String) : JobCall String String where
  spec := registeredJob
  scheduledFor := 0
  parameters := parameters
  idempotencyKey := some "operator-key"
  admitted := .ok ()
  alive _ := false
  startedMonotonic := 0
  views _ :=
    { enteredAt := 0, preflight := none, refused := none, lockedAt := 0, probeAt := 0
      probe := .launchError "child-popen-failed" none, probedAt := 0, launchAt := 0
      task := .exited ⟨0, ⟨100, "boot:1"⟩, none, none⟩, concludedAt := 1, endedAt := 0
      loss := none }
  resolvedAt := 0
  endedAt := 0
  prunedAt := 0

theorem repeatedCall_noop :
    let reached := [callWith "a"].foldl (JobHistory.step scopeText) ⟨⟨[], []⟩, []⟩
    reached.ended.length = 1 ∧ ∃ final, final.workStatus = .noop ∧
      (executeJob scopeText (callWith "a") reached.files).1 = ⟨.returned 0 final, []⟩ :=
  ⟨by decide +kernel, completed_stays scopeText [callWith "a"] (by decide +kernel) _
    (last_mem_states _ _ _) (callWith "a") ⟨"operator-key", "nightly:0:a"⟩ rfl
    (by decide +kernel) (by decide +kernel)⟩

/-- After a call with another scope was refused, the completed key is refused too. -/
theorem refusedScope_blocks :
    let reached := [callWith "a", callWith "b"].foldl (JobHistory.step scopeText) ⟨⟨[], []⟩, []⟩
    reached.ended = [⟨"operator-key", "nightly:0:a"⟩] ∧
      invocationKeys scopeText (callWith "a") = .ok ⟨"operator-key", "nightly:0:a"⟩ ∧
      (executeJob scopeText (callWith "a") reached.files).1.workStatus = some .terminalFailure := by
  decide +kernel

end TradingEngine.Jobs
