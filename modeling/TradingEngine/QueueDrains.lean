import TradingEngine.ParallelPool

/-!
# Drains of the job queue

Work is enqueued as a row of `jobs`, unless equivalent work is already there, and a drain
runs the rows that are pending. There is one drain at a time. It first returns the rows
that a dead drain left running, then selects what is pending, once, and deals with the
selected rows in their order. While the children of a pool or a child that borrows the
writer run, the drain has let go of the writer, and rows may be enqueued; otherwise
nobody else writes. Every change of a state is a write of its own, and the drain may die
between any two of them.

Parameters are JSON texts. They are compared in a canonical form, and by their text where
there is none.
-/

namespace TradingEngine.Queue

open KeyedTables

/-- A row of `jobs`. -/
structure JobRow where
  kind : String
  params : String
  state : JobState
  memMb : Option Int
  timeoutS : Option Int
  priority : Int
  createdAt : Int
  deriving DecidableEq

/-- How parameters are read: their canonical form, if they are strict JSON, and whether
they are an object. -/
structure ParamsCodec where
  canonical : String → Option String
  isObject : String → Bool

/-- Compare parameters by canonical JSON. -/
def sameParams (codec : ParamsCodec) (left right : String) : Bool :=
  match codec.canonical left, codec.canonical right with
  | some first, some second => first = second
  | _, _ => left = right

section Enqueue

/-- A call of `cmd_enqueue`. -/
structure EnqueueCall where
  kind : String
  params : String
  priority : Int
  memMb : Option Int
  timeoutS : Option Int
  dryRun : Bool
  once : Bool
  now : Int

variable (codec : ParamsCodec)

def nextId (jobs : Table Nat JobRow) : Nat := jobs.keys.foldl max 0 + 1

/-- The rows of a kind that stand for equivalent work. -/
def matching (jobs : Table Nat JobRow) (call : EnqueueCall) : List (Σ _ : Nat, JobRow) :=
  jobs.entries.filter fun row => row.2.kind = call.kind &&
    row.2.state ∈ [.pending, .running, .done] && sameParams codec row.2.params call.params

/-- One-shot work that is done takes equivalent pending rows away. -/
def supersedeDuplicates (jobs : Table Nat JobRow) (call : EnqueueCall) : Table Nat JobRow :=
  mapRows (fun _ row => if row.kind = call.kind ∧ row.state = .pending ∧
    sameParams codec row.params call.params then { row with state := .superseded } else row) jobs

/-- A newer row takes the older ones of its kind away. -/
def supersedeStale (jobs : Table Nat JobRow) (call : EnqueueCall) : Table Nat JobRow :=
  mapRows (fun _ row => if row.kind = call.kind ∧ row.params ≠ call.params ∧
    row.state ∈ [JobState.queued, .pending] then { row with state := .superseded } else row) jobs

/-- Insert one pending job, with the exit code of the call. -/
def cmdEnqueue (jobs : Table Nat JobRow) (call : EnqueueCall) : Nat × Table Nat JobRow :=
  match jobType call.kind with
  | none => (1, jobs)
  | some type =>
    if codec.canonical call.params = none ∨ codec.isObject call.params = false then (1, jobs)
    else if call.once ∧ (matching codec jobs call).any (fun row => row.2.state = .done) then
      (0, if call.dryRun then jobs else supersedeDuplicates codec jobs call)
    else if (matching codec jobs call).any fun row => row.2.state ∈ [.pending, .running] then
      (0, jobs)
    else if call.dryRun then (0, jobs)
    else
      let kept := if type.supersedes then supersedeStale jobs call else jobs
      (0, kept.insert (nextId kept)
        { kind := call.kind, params := call.params, state := .pending
          memMb := some (call.memMb.getD type.memMb), timeoutS := call.timeoutS
          priority := call.priority, createdAt := call.now })

end Enqueue

section Drains

structure DrainOptions where
  jobs : Nat
  runKind : Option String
  runParams : List String
  kinds : Option (List String)
  skipParallelSafe : Bool

/-- What a drain does once its writes are made. -/
inductive Phase where
  | sweeping
  | choosing
  | pooling (rows : List QueueRow)
  | releasing (row : QueueRow)
  | working (row : QueueRow)
  | closing
  deriving DecidableEq

/-- A drain under way: the selected rows that it has not come to, and the writes that it is
about to make. -/
structure Drain where
  options : DrainOptions
  selected : List QueueRow
  writes : List (Nat × JobState)
  phase : Phase

/-- The resources and the clock at the head of the loop. -/
structure HeadView where
  elapsed : ℚ
  budgetS : ℚ
  load5 : ℚ
  freeGb : ℚ
  storeGb : ℚ
  rootFreeGb : ℚ

def storeHardGb : ℚ := 80

def rootFreeMinGb : ℚ := 10

def setState (jobs : Table Nat JobRow) (id : Nat) (state : JobState) : Table Nat JobRow :=
  mapRows (fun other row => if other = id then { row with state } else row) jobs

/-- The ids of the rows that a dead drain left running. -/
def runningIds (jobs : Table Nat JobRow) : List Nat :=
  (jobs.entries.filter fun row => row.2.state = .running).map Sigma.fst

def startDrain (jobs : Table Nat JobRow) (options : DrainOptions) : Drain :=
  ⟨options, [], (runningIds jobs).map fun id => (id, .pending), .sweeping⟩

/-- The pending rows in the order of the queue. -/
def pendingRows (jobs : Table Nat JobRow) : List QueueRow :=
  ((jobs.entries.filter fun row => row.2.state = .pending).insertionSort fun first second =>
    toLex (first.2.priority, first.2.createdAt) ≤
      toLex (second.2.priority, second.2.createdAt)).map fun row =>
        ⟨row.1, row.2.kind, row.2.params, row.2.memMb, row.2.timeoutS, row.2.priority⟩

variable (codec : ParamsCodec)

/-- The pending rows that a drain is to deal with. -/
def selectRows (jobs : Table Nat JobRow) (options : DrainOptions) : List QueueRow :=
  let targeted := match options.runKind with
    | none => pendingRows jobs
    | some kind => (pendingRows jobs).filter fun row => row.kind = kind &&
        options.runParams.any fun item => sameParams codec row.params item
  let ofKinds := match options.kinds with
    | none => targeted
    | some kinds => targeted.filter fun row => row.kind ∈ kinds
  if options.skipParallelSafe then ofKinds.filter fun row => !isParallelSafe row.kind else ofKinds

def drainWidth (options : DrainOptions) : Nat := max 1 (min options.jobs 8)

/-- A row that would exceed the whole budget. -/
def oversized (row : QueueRow) : Bool := engineRamBudgetMb < row.declared

/-- The disk watchdog refuses a row. -/
def diskRefuses (view : HeadView) (row : QueueRow) : Bool :=
  (jobType row.kind).any JobType.archive && (storeHardGb < view.storeGb ||
    view.rootFreeGb < rootFreeMinGb)

/-- A pool takes the parallel rows up to the next one that is not. -/
def assemblePool (drain : Drain) : Drain :=
  let run := drain.selected.takeWhile fun row => isParallelSafe row.kind
  let later := drain.selected.dropWhile fun row => isParallelSafe row.kind
  let refused := ((run.find? oversized).map fun row => (row.id, JobState.failed)).toList
  let kept := run.filter fun row => row.id ∉ refused.map Prod.fst
  if kept = [] then { drain with selected := later, writes := refused }
  else
    { drain with
      selected := later
      writes := refused ++ kept.map fun row => (row.id, .running)
      phase := .pooling kept }

/-- One row that does not run in a pool. -/
def dispatch (view : HeadView) (drain : Drain) (row : QueueRow) (rest : List QueueRow) : Drain :=
  let failed : Drain := { drain with selected := rest, writes := [(row.id, .failed)] }
  if oversized row then failed
  else if diskRefuses view row then { drain with selected := rest }
  else
    match jobType row.kind with
    | none => failed
    | some type =>
      if row.params ≠ "" ∧ codec.canonical row.params = none then failed
      else
        { drain with
          selected := rest
          writes := [(row.id, .running)]
          phase := if type.releasesWriter then .releasing row else .working row }

/-- The head of the loop. -/
def chooseNext (view : HeadView) (drain : Drain) : Drain :=
  match drain.selected with
  | [] => { drain with phase := .closing }
  | row :: rest =>
    if view.budgetS < view.elapsed ∨ guardTripped view.load5 view.freeGb then
      { drain with phase := .closing }
    else if 1 < drainWidth drain.options ∧ isParallelSafe row.kind then assemblePool drain
    else dispatch codec view drain row rest

/-- The table of jobs and the drain under way. -/
structure QueueWorld where
  jobs : Table Nat JobRow
  drain : Option Drain

def QueueWorld.empty : QueueWorld := ⟨∅, none⟩

/-- What may happen next: a call, or a step of the drain. -/
inductive QueueAction where
  | enqueue (call : EnqueueCall)
  | start (options : DrainOptions)
  | write
  | select
  | choose (view : HeadView)
  | poolEnded (results : Nat → Option ChildResult) (stopped : Option StopReason)
  | childEnded (result : ChildResult)
  | workEnded (succeeds : Bool)
  | close
  | die

/-- The drain has let go of the writer. -/
def Drain.released (drain : Drain) : Bool :=
  match drain.writes, drain.phase with
  | [], .pooling _ | [], .releasing _ => true
  | _, _ => false

/-- A step of the drain, which may write. What it is not ready for has no effect. -/
def drainStep (jobs : Table Nat JobRow) (drain : Drain) :
    QueueAction → Table Nat JobRow × Option Drain
  | .write =>
    match drain.writes with
    | [] => (jobs, some drain)
    | (id, state) :: rest => (setState jobs id state, some { drain with writes := rest })
  | .select =>
    if drain.writes = [] ∧ drain.phase = .sweeping then
      (jobs, some { drain with selected := selectRows codec jobs drain.options, phase := .choosing })
    else (jobs, some drain)
  | .choose view =>
    if drain.writes = [] ∧ drain.phase = .choosing then (jobs, some (chooseNext codec view drain))
    else (jobs, some drain)
  | .poolEnded results stopped =>
    match drain.writes, drain.phase with
    | [], .pooling rows =>
      (jobs, some { drain with
        writes := rows.map fun row => (row.id, recordedState (results row.id))
        phase := if stopped.isSome then .closing else .choosing })
    | _, _ => (jobs, some drain)
  | .childEnded result =>
    match drain.writes, drain.phase with
    | [], .releasing row =>
      (jobs, some { drain with
        writes := [(row.id, recordedState (some result))], phase := .choosing })
    | _, _ => (jobs, some drain)
  | .workEnded succeeds =>
    match drain.writes, drain.phase with
    | [], .working row =>
      (jobs, some { drain with
        writes := [(row.id, if succeeds then .done else .failed)], phase := .choosing })
    | _, _ => (jobs, some drain)
  | .close => if drain.writes = [] ∧ drain.phase = .closing then (jobs, none) else (jobs, some drain)
  | .die => (jobs, none)
  | .enqueue _ | .start _ => (jobs, some drain)

/-- What happens to the queue. A call that finds the writer taken changes nothing, and so
does a drain that finds another one. -/
def takeAction (world : QueueWorld) (action : QueueAction) : QueueWorld :=
  match action, world.drain with
  | .enqueue call, none => { world with jobs := (cmdEnqueue codec world.jobs call).2 }
  | .enqueue call, some drain =>
    if drain.released then { world with jobs := (cmdEnqueue codec world.jobs call).2 } else world
  | .start options, none => { world with drain := some (startDrain world.jobs options) }
  | _, none => world
  | action, some drain =>
    let (jobs, drain) := drainStep codec world.jobs drain action
    ⟨jobs, drain⟩

end Drains

end TradingEngine.Queue
