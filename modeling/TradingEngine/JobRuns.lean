import TradingEngine.Runs

/-!
# Runs of a registered job

One call runs a job at most once for each idempotency key, as far as its receipts can
tell. It reads every receipt of the job, refuses an operator key that was used with
another scope, resolves attempts that an earlier call left behind, and answers with a
noop when the key has completed. Otherwise it starts attempts until one settles.

The receipts of one job are kept in the order in which they were written; a path is
named by the slot, the key and the attempt. What the world does during a call (clocks,
locks, probes, children, and the point where the runner is killed) is part of the
call. Checks that come before any receipt is read end the call without a trace. A call
that is killed while it resolves or answers leaves what a shorter or no call leaves.
-/

namespace TradingEngine.Jobs

/-- Wall-clock time in seconds. -/
abbrev Instant := Int

inductive WorkStatus where
  | success | noop | degraded | superseded | retryableFailure | terminalFailure | interrupted
  deriving DecidableEq

namespace WorkStatus

/-- `STATUS_EXIT`. -/
def exitCode : WorkStatus → Nat
  | success | noop => 0
  | degraded | superseded => 75
  | retryableFailure | terminalFailure => 1
  | interrupted => 130

/-- Statuses after which a key counts as completed. -/
def completes : WorkStatus → Bool
  | success | noop => true
  | degraded | superseded | retryableFailure | terminalFailure | interrupted => false

end WorkStatus

inductive RetryDisposition where
  | none | retry | exhausted | resume

inductive LaunchState where
  | preparing | identityPublished | released
  deriving DecidableEq

inductive Termination where
  | TERM | KILL

/-- A process with the identity that tells it from later ones of its number. -/
structure Child where
  pid : Nat
  identity : String
  deriving DecidableEq

/-- A registered job, as far as a run depends on it. Every attempt but the first has a
delay before it. -/
structure JobSpec (Digest : Type) where
  jobId : String
  version : Nat
  specSha256 : Digest
  /-- The registered template, filled in for a slot. -/
  idempotencyTemplate : Instant → String
  overallSeconds : ℚ
  deadlineSeconds : ℚ
  maxAttempts : Nat
  exitCodes : List Int
  backoffSeconds : List ℚ
  retentionDays : Nat
  /-- Whether the completion probe is a command. -/
  probes : Bool
  backoffCovers : backoffSeconds.length + 1 = maxAttempts

/-- Bodies that are hashed. -/
inductive JobBody (Parameters Digest : Type) where
  | parameters (clean : Parameters)
  | scope (jobId : String) (specVersion : Nat) (specSha256 : Digest) (scheduledFor : Instant)
      (parameterSha256 : Digest)

/-- A canonical key: an operator's key and the digest of the scope that it is used for. -/
structure InvocationKey (Digest : Type) where
  operatorKey : String
  scopeSha256 : Digest
  deriving DecidableEq

/-- What a receipt says before its attempt is decided. The operator's key and the scope
stand in it once more by themselves. -/
structure BaseReceipt (Digest : Type) where
  idempotencyKey : InvocationKey Digest
  scheduledFor : Instant
  attempt : Nat
  deriving DecidableEq

structure Receipt (Digest : Type) extends BaseReceipt Digest where
  endedAt : Instant
  workStatus : WorkStatus
  reason : String
  processExit : Option Int
  child : Option Child
  termination : Option Termination
  forwardedSignal : Option Nat
  retryDisposition : RetryDisposition

/-- A running marker. -/
structure Marker (Digest : Type) extends BaseReceipt Digest where
  launchState : LaunchState
  child : Option Child

/-- The directory of one job. -/
structure JobFiles (Digest : Type) where
  receipts : List (Receipt Digest)
  markers : List (Marker Digest)

def finishReceipt {Digest : Type} (base : BaseReceipt Digest) (endedAt : Instant)
    (workStatus : WorkStatus) (reason : String) (retryDisposition : RetryDisposition := .none)
    (processExit : Option Int := none) (child : Option Child := none)
    (termination : Option Termination := none) (forwardedSignal : Option Nat := none) :
    Receipt Digest :=
  { base with
    endedAt, workStatus, reason, processExit, child, termination, forwardedSignal
    retryDisposition }

section Files

variable {Digest : Type} [DecidableEq Digest]

/-- Create a receipt; none is ever replaced. -/
def atomicJson (files : JobFiles Digest) (receipt : Receipt Digest) :
    Except String (JobFiles Digest) :=
  if receipt.toBaseReceipt ∈ files.receipts.map Receipt.toBaseReceipt then
    .error ("job receipt already exists: " ++ toString receipt.attempt ++ ".json")
  else .ok { files with receipts := files.receipts ++ [receipt] }

/-- Create a marker; none is ever replaced by another attempt. -/
def createMarker (files : JobFiles Digest) (marker : Marker Digest) :
    Except String (JobFiles Digest) :=
  if marker.toBaseReceipt ∈ files.markers.map Marker.toBaseReceipt then
    .error ("job receipt already exists: " ++ toString marker.attempt ++ ".running.json")
  else .ok { files with markers := files.markers ++ [marker] }

def unlinkMarker (files : JobFiles Digest) (base : BaseReceipt Digest) : JobFiles Digest :=
  { files with markers := files.markers.filter fun marker => marker.toBaseReceipt ≠ base }

/-- Create the receipt of an attempt and unlink its marker, if it has one. -/
def writeFinal (files : JobFiles Digest) (receipt : Receipt Digest) :
    Except String (JobFiles Digest) :=
  (atomicJson files receipt).map fun files => unlinkMarker files receipt.toBaseReceipt

/-- Forget receipts that ended before the retention. -/
def pruneReceipts (files : JobFiles Digest) (retentionDays : Nat) (now : Instant) :
    JobFiles Digest :=
  { files with
    receipts := files.receipts.filter fun receipt => now - retentionDays * 86400 ≤ receipt.endedAt }

end Files

/-- How a child ended. -/
structure ChildExit where
  code : Int
  child : Child
  termination : Option Termination
  forwardedSignal : Option Nat

inductive ChildRun where
  | launchError (reason : String) (child : Option Child)
  | exited (exit : ChildExit)

structure LockRefusal where
  name : String
  timeoutStatus : WorkStatus
  incomplete : timeoutStatus.completes = false

/-- Where the runner is killed during an attempt. -/
inductive Loss where
  | beforeMarker | preparing | identityPublished (child : Child) | released (child : Child)
  | receiptWritten | published
  deriving DecidableEq

/-- What one attempt sees of the world: readings of the monotonic clock where the
deadline is compared, refusals, the probe, the child and the time at its end. -/
structure AttemptView where
  enteredAt : ℚ
  preflight : Option String
  refused : Option LockRefusal
  lockedAt : ℚ
  probeAt : ℚ
  probe : ChildRun
  probedAt : ℚ
  launchAt : ℚ
  task : ChildRun
  concludedAt : ℚ
  endedAt : Instant
  loss : Option Loss

inductive ChildKind where
  | probe | task

/-- How an attempt ends: the call returns with its receipt, or the attempt is concluded
and perhaps another follows, or the call raises or is lost. -/
inductive AttemptEnd (Digest : Type) where
  | finished (receipt : Receipt Digest)
  | concluded (receipt : Receipt Digest) (retry : Bool)
  | raised (reason : String)
  | lost

/-- The end of an attempt, the files that it leaves and the children that it started. -/
structure AttemptCourse (Digest : Type) where
  ending : AttemptEnd Digest
  files : JobFiles Digest
  children : List ChildKind

def statusForExit (exit : ChildExit) (retryCodes : List Int) : WorkStatus × String :=
  match exit.forwardedSignal, exit.termination with
  | some signal, _ => (.interrupted, "wrapper-forwarded-signal-" ++ toString signal)
  | none, some .TERM => (.retryableFailure, "attempt-timeout-term")
  | none, some .KILL => (.retryableFailure, "attempt-timeout-kill")
  | none, none =>
    if exit.code = 0 then (.success, "process-exit-0")
    else if exit.code = 75 then (.degraded, "process-exit-75")
    else if exit.code = -15 then (.interrupted, "process-terminated")
    else if exit.code ∈ retryCodes then
      (.retryableFailure, "retryable-exit-" ++ toString exit.code)
    else (.terminalFailure, "terminal-exit-" ++ toString exit.code)

/-- The clock of a call. -/
structure CallClock where
  startedMonotonic : ℚ
  deadlineAt : ℚ

section Attempts

variable {Digest : Type} [DecidableEq Digest]

/-- Publish the receipt of an attempt, unless the runner is killed around it. -/
def settleAttempt (files : JobFiles Digest) (receipt : Receipt Digest) (loss : Option Loss)
    (children : List ChildKind) (ending : AttemptEnd Digest) : AttemptCourse Digest :=
  match atomicJson files receipt with
  | .error raised => ⟨.raised raised, files, children⟩
  | .ok written =>
    if loss = some .receiptWritten then ⟨.lost, written, children⟩
    else
      ⟨if loss = some .published then .lost else ending,
        unlinkMarker written receipt.toBaseReceipt, children⟩

/-- Return with the receipt of this attempt. -/
def finishAttempt (files : JobFiles Digest) (receipt : Receipt Digest) (view : AttemptView)
    (children : List ChildKind) : AttemptCourse Digest :=
  settleAttempt files receipt view.loss children (.finished receipt)

/-- Conclude an attempt: another follows after a retryable failure, as long as attempts
and time are left. -/
def concludeAttempt (spec : JobSpec Digest) (clock : CallClock) (retryIndex : Nat)
    (base : BaseReceipt Digest) (view : AttemptView) (files : JobFiles Digest)
    (children : List ChildKind) (status : WorkStatus) (reason : String)
    (processExit : Option Int := none) (child : Option Child := none)
    (termination : Option Termination := none) (forwardedSignal : Option Nat := none) :
    AttemptCourse Digest :=
  let delay := if retryIndex + 1 < spec.maxAttempts then spec.backoffSeconds.getD retryIndex 0 else 0
  let elapsed := view.concludedAt - clock.startedMonotonic
  let retry := decide (status = .retryableFailure ∧ retryIndex + 1 < spec.maxAttempts ∧
    elapsed + delay < spec.deadlineSeconds ∧ elapsed + delay < spec.overallSeconds)
  let disposition : RetryDisposition :=
    if retry then .retry else if status = .retryableFailure then .exhausted else .none
  let receipt := finishReceipt base view.endedAt status reason disposition processExit child
    termination forwardedSignal
  settleAttempt files receipt view.loss children (.concluded receipt retry)

/-- Launch the task behind a marker of its own. -/
def launchTask (spec : JobSpec Digest) (clock : CallClock) (retryIndex : Nat)
    (base : BaseReceipt Digest) (view : AttemptView) (files : JobFiles Digest)
    (children : List ChildKind) : AttemptCourse Digest :=
  let marked (state : LaunchState) (child : Option Child) : Except String (JobFiles Digest) :=
    createMarker files { base with launchState := state, child }
  match marked .preparing none with
  | .error raised => ⟨.raised raised, files, children⟩
  | .ok prepared =>
    match view.loss with
    | some .preparing => ⟨.lost, prepared, children⟩
    | some (.identityPublished child) =>
      ⟨.lost, ((marked .identityPublished (some child)).toOption).getD prepared,
        children ++ [.task]⟩
    | some (.released child) =>
      ⟨.lost, ((marked .released (some child)).toOption).getD prepared, children ++ [.task]⟩
    | _ =>
      if clock.deadlineAt ≤ view.launchAt then
        finishAttempt prepared
          (finishReceipt base view.endedAt .retryableFailure "overall-deadline-exhausted"
            .exhausted) view children
      else
        match view.task with
        | .launchError reason child =>
          concludeAttempt spec clock retryIndex base view prepared (children ++ [.task])
            .terminalFailure reason none child
        | .exited exit =>
          let (status, reason) := statusForExit exit spec.exitCodes
          concludeAttempt spec clock retryIndex base view prepared (children ++ [.task]) status
            reason (some exit.code) (some exit.child) exit.termination exit.forwardedSignal

/-- Ask the completion probe, and launch the task when it says that work is left. -/
def probeThenLaunch (spec : JobSpec Digest) (clock : CallClock) (retryIndex : Nat)
    (base : BaseReceipt Digest) (view : AttemptView) (files : JobFiles Digest) :
    AttemptCourse Digest :=
  if spec.probes then
    if clock.deadlineAt ≤ view.probeAt then
      finishAttempt files
        (finishReceipt base view.endedAt .retryableFailure "overall-deadline-exhausted" .exhausted)
        view []
    else
      match view.probe with
      | .launchError reason child =>
        finishAttempt files
          (finishReceipt base view.endedAt .terminalFailure ("completion-probe-" ++ reason) .none
            none child) view [.probe]
      | .exited exit =>
        let closed (status : WorkStatus) (reason : String) (disposition : RetryDisposition) :=
          finishReceipt base view.endedAt status reason disposition (some exit.code)
            (some exit.child) exit.termination exit.forwardedSignal
        if exit.termination.isSome ∧ clock.deadlineAt ≤ view.probedAt then
          finishAttempt files
            (closed .retryableFailure "overall-deadline-exhausted" .exhausted) view [.probe]
        else if exit.code = 0 ∧ exit.termination = none ∧ exit.forwardedSignal = none then
          finishAttempt files (closed .noop "task-completion-probe" .none) view [.probe]
        else if exit.code ≠ 1 ∨ exit.termination ≠ none ∨ exit.forwardedSignal ≠ none then
          finishAttempt files (closed .terminalFailure "completion-probe-failed" .none) view
            [.probe]
        else launchTask spec clock retryIndex base view files [.probe]
  else launchTask spec clock retryIndex base view files []

/-- One turn of the retry loop. -/
def attemptOnce (spec : JobSpec Digest) (clock : CallClock) (retryIndex : Nat)
    (base : BaseReceipt Digest) (view : AttemptView) (files : JobFiles Digest) :
    AttemptCourse Digest :=
  if view.loss = some .beforeMarker then ⟨.lost, files, []⟩
  else if clock.deadlineAt ≤ view.enteredAt then
    finishAttempt files
      (finishReceipt base view.endedAt .retryableFailure "overall-deadline-exhausted" .exhausted)
      view []
  else if clock.deadlineAt ≤ view.lockedAt then
    concludeAttempt spec clock retryIndex base view files [] .retryableFailure
      "overall-deadline-exhausted"
  else
    match view.refused, view.preflight with
    | some lock, _ =>
      concludeAttempt spec clock retryIndex base view files [] lock.timeoutStatus
        ("lock-timeout:" ++ lock.name)
    | none, some refusal =>
      concludeAttempt spec clock retryIndex base view files [] .retryableFailure
        ("resource-refusal:" ++ refusal)
    | none, none => probeThenLaunch spec clock retryIndex base view files

end Attempts

/-- A call of `execute_job` with what it sees of the world. -/
structure JobCall (Parameters Digest : Type) where
  spec : JobSpec Digest
  scheduledFor : Instant
  parameters : Parameters
  idempotencyKey : Option String
  /-- Whether the runner admits the call: the job, its parameters, the executor and a
  clean source tree. -/
  admitted : Except String Unit
  alive : Child → Bool
  startedMonotonic : ℚ
  views : Nat → AttemptView
  resolvedAt : Instant
  endedAt : Instant
  prunedAt : Instant

/-- How a call ends, and the children that it started. -/
inductive CallEnd (Digest : Type) where
  | returned (exitCode : Nat) (final : Receipt Digest)
  | raised (reason : String)
  | lost

structure CallOutcome (Digest : Type) where
  ending : CallEnd Digest
  children : List ChildKind

section Calls

variable {Parameters Digest : Type} [DecidableEq Digest]
  (hashJson : JobBody Parameters Digest → Digest)

/-- The canonical key of a call. An empty key counts as none. -/
def invocationKeys (call : JobCall Parameters Digest) : Except String (InvocationKey Digest) :=
  let operatorKey := match call.idempotencyKey with
    | none | some "" => call.spec.idempotencyTemplate call.scheduledFor
    | some explicit => explicit
  if operatorKey = "" ∨ 400 < operatorKey.length ∨ '\x00' ∈ operatorKey.toList ∨
      '\n' ∈ operatorKey.toList then
    .error "invalid idempotency key"
  else
    .ok ⟨operatorKey, hashJson (.scope call.spec.jobId call.spec.version call.spec.specSha256
      call.scheduledFor (hashJson (.parameters call.parameters)))⟩

/-- The attempts that a key has used. -/
def attemptsOf (files : JobFiles Digest) (key : InvocationKey Digest) : List Nat :=
  ((files.receipts.map Receipt.toBaseReceipt ++ files.markers.map Marker.toBaseReceipt).filter
    fun base => base.idempotencyKey = key).map BaseReceipt.attempt

def nextAttempt (files : JobFiles Digest) (key : InvocationKey Digest) : Nat :=
  (attemptsOf files key).foldl max 0 + 1

/-- Resolve the attempts of the key that an earlier call left behind. An attempt whose
child may still run is left alone, and the call raises. -/
def resolveStale (call : JobCall Parameters Digest) (key : InvocationKey Digest) :
    List (Marker Digest) → JobFiles Digest → JobFiles Digest × Option String
  | [], files => (files, none)
  | stale :: rest, files =>
    if stale.idempotencyKey ≠ key then resolveStale call key rest files
    else if stale.child = none ∧ stale.launchState ≠ .preparing then
      (files, some "running attempt lacks a verifiable child identity")
    else if stale.child.any call.alive then
      (files, some "prior child for idempotency key is still running")
    else
      let reason := match stale.launchState with
        | .preparing | .identityPublished => "prelaunch-interrupted"
        | .released => "stale-interrupted-attempt"
      match writeFinal files (finishReceipt stale.toBaseReceipt call.resolvedAt .interrupted reason
        .resume none none none none) with
      | .error raised => (files, some raised)
      | .ok files => resolveStale call key rest files

/-- The end of a call with its receipt: old receipts are forgotten. -/
def finish (call : JobCall Parameters Digest) (receipt : Receipt Digest)
    (children : List ChildKind) (files : JobFiles Digest) :
    CallOutcome Digest × JobFiles Digest :=
  (⟨.returned receipt.workStatus.exitCode receipt, children⟩,
    pruneReceipts files call.spec.retentionDays call.prunedAt)

/-- Publish the only receipt of a call, and end with it. -/
def publishAndFinish (call : JobCall Parameters Digest) (receipt : Receipt Digest)
    (files : JobFiles Digest) : CallOutcome Digest × JobFiles Digest :=
  match atomicJson files receipt with
  | .error raised => (⟨.raised raised, []⟩, files)
  | .ok written => finish call receipt [] written

/-- The retry loop, from an attempt on. -/
def retryLoop (call : JobCall Parameters Digest) (clock : CallClock) (key : InvocationKey Digest)
    (nextAttempt : Nat) :
    Nat → Nat → List ChildKind → JobFiles Digest → CallOutcome Digest × JobFiles Digest
  | 0, _, children, files => (⟨.raised "KeyError", children⟩, files)
  | remaining + 1, retryIndex, children, files =>
    let base : BaseReceipt Digest := ⟨key, call.scheduledFor, nextAttempt + retryIndex⟩
    let course := attemptOnce call.spec clock retryIndex base (call.views retryIndex) files
    let started := children ++ course.children
    match course.ending with
    | .raised reason => (⟨.raised reason, started⟩, course.files)
    | .lost => (⟨.lost, started⟩, course.files)
    | .finished receipt | .concluded receipt false => finish call receipt started course.files
    | .concluded _ true =>
      retryLoop call clock key nextAttempt remaining (retryIndex + 1) started course.files

/-- What a call does once its key is known and locked. -/
def runKeyed (call : JobCall Parameters Digest) (key : InvocationKey Digest)
    (files : JobFiles Digest) : CallOutcome Digest × JobFiles Digest :=
  let bases := files.receipts.map Receipt.toBaseReceipt ++ files.markers.map Marker.toBaseReceipt
  let attempt := nextAttempt files key
  let base : BaseReceipt Digest := ⟨key, call.scheduledFor, attempt⟩
  if bases.any fun row => row.idempotencyKey.operatorKey = key.operatorKey &&
      row.idempotencyKey.scopeSha256 ≠ key.scopeSha256 then
    publishAndFinish call
      (finishReceipt base call.endedAt .terminalFailure "idempotency-scope-mismatch") files
  else
    match resolveStale call key files.markers files with
    | (resolved, some raised) => (⟨.raised raised, []⟩, resolved)
    | (resolved, none) =>
      if resolved.receipts.any fun row =>
          row.idempotencyKey = key && row.workStatus.completes then
        publishAndFinish call
          (finishReceipt base call.endedAt .noop "completed-idempotency-key") resolved
      else
        let clock : CallClock :=
          { startedMonotonic := call.startedMonotonic
            deadlineAt := call.startedMonotonic +
              min call.spec.overallSeconds call.spec.deadlineSeconds }
        retryLoop call clock key attempt call.spec.maxAttempts 0 [] resolved

/-- Execute one admitted one-off. -/
def executeJob (call : JobCall Parameters Digest) (files : JobFiles Digest) :
    CallOutcome Digest × JobFiles Digest :=
  match call.admitted, invocationKeys hashJson call with
  | .error raised, _ => (⟨.raised raised, []⟩, files)
  | .ok _, .error raised => (⟨.raised raised, []⟩, files)
  | .ok _, .ok key => runKeyed call key files

end Calls

end TradingEngine.Jobs
