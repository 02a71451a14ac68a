import TradingEngine.JobQueue

/-!
# The rolling pool

Rows that only read are run by children of the drain, several at a time. In every pass
the pool takes note of children that have ended or outlived their ceiling, and then
launches rows in the order of the queue, as long as there is room, memory and time and
the resource guard is clear. A tripped guard holds launches while a child runs. When
nothing runs it is given time to settle, counted from when it was first seen tripped or
last saw a child running.

What a pass sees of the world is part of it: the clock at its beginning, the children
that have ended, and clock and resources at every check before a launch. How long the
pool sleeps between passes changes nothing that it decides.
-/

namespace TradingEngine.Queue

open KeyedTables

/-- How a child of the pool ended. -/
inductive ChildResult where
  | exited (code : Int)
  | timeout

inductive StopReason where
  | budget | resources

/-- A child that runs a row until its deadline. -/
structure PoolChild where
  row : QueueRow
  deadline : ℚ

/-- A check that found the guard tripped: when, and how many children were running. -/
structure TrippedCheck where
  now : ℚ
  running : Nat
  deriving DecidableEq

/-- The state of the pool between passes. The rows that were started stand in the order
of their launch. The checks that found the guard tripped are those since it was last
clear; the late check is the one that found the drain out of time. -/
structure PoolState where
  active : List PoolChild
  waiting : List QueueRow
  started : List QueueRow
  results : Table Nat ChildResult
  activeMemMb : Int
  lastLaunch : Option ℚ
  stopReason : Option StopReason
  guardSince : Option ℚ
  guardChecks : List TrippedCheck
  lateCheck : Option ℚ

/-- A check before a launch. -/
structure LaunchCheck where
  now : ℚ
  load5 : ℚ
  freeGb : ℚ

/-- What a pass sees. -/
structure PassView where
  now : ℚ
  exited : Nat → Option Int
  checks : Nat → LaunchCheck

def resourceSettleS : ℚ := 15 * 60

def batchStaggerS : ℚ := 4

/-- One child is taken note of or kept. -/
def harvestChild (view : PassView) (state : PoolState) (child : PoolChild) : PoolState :=
  match view.exited child.row.id with
  | some code =>
    { state with
      results := state.results.insert child.row.id (.exited code)
      activeMemMb := state.activeMemMb - child.row.declared }
  | none =>
    if child.deadline ≤ view.now then
      { state with
        results := state.results.insert child.row.id .timeout
        activeMemMb := state.activeMemMb - child.row.declared }
    else { state with active := state.active ++ [child] }

def harvest (view : PassView) (state : PoolState) : PoolState :=
  state.active.foldl (harvestChild view) { state with active := [] }

/-- A tripped guard holds launches. It ends the pool when it has not settled with nothing
running. -/
def holdLaunches (check : LaunchCheck) (state : PoolState) : PoolState :=
  let checks := state.guardChecks ++ [⟨check.now, state.active.length⟩]
  let since := state.guardSince.getD check.now
  if state.active ≠ [] then
    { state with guardSince := some check.now, guardChecks := checks }
  else if resourceSettleS ≤ check.now - since then
    { state with guardSince := some since, guardChecks := checks, stopReason := some .resources }
  else { state with guardSince := some since, guardChecks := checks }

/-- Launch a row. -/
def startChild (state : PoolState) (row : QueueRow) (now : ℚ) : PoolState :=
  { state with
    active := state.active ++ [⟨row, now + row.limit⟩]
    waiting := state.waiting.tail
    started := state.started ++ [row]
    activeMemMb := state.activeMemMb + row.declared
    lastLaunch := some now }

/-- Launch rows as long as there is room, time, memory and a clear guard, and no launch
comes too soon after another. -/
def launchRows (width : Nat) (drainDeadline : ℚ) (view : PassView) :
    Nat → List QueueRow → PoolState → PoolState
  | _, [], state => state
  | index, row :: rest, state =>
    let check := view.checks index
    if width ≤ state.active.length then state
    else if drainDeadline ≤ check.now then
      { state with stopReason := some .budget, lateCheck := some check.now }
    else if guardTripped check.load5 check.freeGb then holdLaunches check state
    else
      let clear := { state with guardSince := none, guardChecks := [] }
      if engineRamBudgetMb < clear.activeMemMb + row.declared then clear
      else if ∃ last ∈ clear.lastLaunch, check.now < last + batchStaggerS then clear
      else launchRows width drainDeadline view (index + 1) rest (startChild clear row check.now)

/-- The pool goes on while a child runs, or a row waits and nothing has stopped it. -/
def PoolState.goesOn (state : PoolState) : Prop :=
  state.active ≠ [] ∨ state.waiting ≠ [] ∧ state.stopReason = none

instance (state : PoolState) : Decidable state.goesOn := inferInstanceAs (Decidable (_ ∨ _ ∧ _))

/-- One pass. -/
def poolPass (width : Nat) (drainDeadline : ℚ) (state : PoolState) (view : PassView) : PoolState :=
  let harvested := harvest view state
  if harvested.stopReason = none then
    launchRows width drainDeadline view 0 harvested.waiting harvested
  else harvested

def poolStart (pool : List QueueRow) : PoolState where
  active := []
  waiting := pool
  started := []
  results := ∅
  activeMemMb := 0
  lastLaunch := none
  stopReason := none
  guardSince := none
  guardChecks := []
  lateCheck := none

/-- The pool after some passes. It stays as it is once it has ended. -/
def poolAfter (pool : List QueueRow) (width : Nat) (drainDeadline : ℚ) (views : Nat → PassView) :
    Nat → PoolState
  | 0 => poolStart pool
  | passes + 1 =>
    let state := poolAfter pool width drainDeadline views passes
    if state.goesOn then poolPass width drainDeadline state (views passes) else state

/-- The state that is recorded for a row by what became of its child. A row that was not
launched is pending again. -/
def recordedState : Option ChildResult → JobState
  | none => .pending
  | some (.exited 0) => .done
  | some (.exited _) | some .timeout => .failed

/-- The state that the drain records for a row of the pool. -/
def PoolState.outcome (state : PoolState) (row : QueueRow) : JobState :=
  recordedState (state.results.lookup row.id)

end TradingEngine.Queue
