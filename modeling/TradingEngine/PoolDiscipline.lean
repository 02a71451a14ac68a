import TradingEngine.ParallelPool

/-!
# The discipline of the pool

Whatever its children do and whatever the readings are, the pool starts every row at
most once and in the order of the queue, keeps to its width and, as long as no row
declares negative memory, to the memory budget, and it ends. A row is left pending only
when the deadline of the drain has passed or the resource guard has not settled.

The guard counts from the last check that saw a child running. That child may have run
on for as long as the next check was away, so that the pool may end although it was
found idle for less than the time to settle.
-/

namespace TradingEngine.Queue

open KeyedTables Runs Relation

section Harvest

variable {view : PassView}

/-- A child that a pass finds running before its deadline. -/
def survives (view : PassView) (child : PoolChild) : Bool :=
  (view.exited child.row.id).isNone && !decide (child.deadline ≤ view.now)

/-- The declared memory of children. -/
def memoryOf (children : List PoolChild) : Int := (children.map fun child => child.row.declared).sum

/-- What taking note of children leaves. -/
structure Harvested (view : PassView) (children : List PoolChild) (before after : PoolState) :
    Prop where
  active : after.active = before.active ++ children.filter (survives view)
  memory : after.activeMemMb + memoryOf children =
    before.activeMemMb + memoryOf (children.filter (survives view))
  waiting : after.waiting = before.waiting
  started : after.started = before.started
  stopReason : after.stopReason = before.stopReason
  guardSince : after.guardSince = before.guardSince
  guardChecks : after.guardChecks = before.guardChecks
  lateCheck : after.lateCheck = before.lateCheck
  kept : ∀ id, (before.results.lookup id).isSome → (after.results.lookup id).isSome
  noted : ∀ child ∈ children, survives view child = false →
    (after.results.lookup child.row.id).isSome

theorem insert_isSome {results : Table Nat ChildResult} {id other : Nat} {result : ChildResult}
    (found : (results.lookup other).isSome) : ((results.insert id result).lookup other).isSome := by
  by_cases same : other = id
  · rw [same, AList.lookup_insert]
    rfl
  · rw [AList.lookup_insert_ne same]
    exact found

/-- Taking note of one child. -/
theorem harvestChild_harvested (state : PoolState) (child : PoolChild) :
    Harvested view [child] state (harvestChild view state child) := by
  unfold harvestChild
  split
  · rename_i code ended
    have gone : survives view child = false := by simp [survives, ended]
    constructor <;> simp [memoryOf, gone]
    intro id found
    exact insert_isSome found
  · rename_i running
    split
    · rename_i late
      have gone : survives view child = false := by simp [survives, late]
      constructor <;> simp [memoryOf, gone]
      intro id found
      exact insert_isSome found
    · rename_i early
      have stays : survives view child = true := by
        simp only [survives, running, early]
        rfl
      constructor <;> simp [memoryOf, stays]

/-- Taking note of children one after another. -/
theorem foldl_harvested (children : List PoolChild) (state : PoolState) :
    Harvested view children state (children.foldl (harvestChild view) state) := by
  induction children generalizing state with
  | nil => constructor <;> simp [memoryOf]
  | cons child rest ih =>
    have first : Harvested view [child] state (harvestChild view state child) :=
      harvestChild_harvested state child
    have later := ih (harvestChild view state child)
    rw [List.foldl_cons]
    refine ⟨?_, ?_, later.waiting.trans first.waiting, later.started.trans first.started,
      later.stopReason.trans first.stopReason, later.guardSince.trans first.guardSince,
      later.guardChecks.trans first.guardChecks, later.lateCheck.trans first.lateCheck,
      fun id found => later.kept id (first.kept id found), ?_⟩
    · rw [later.active, first.active, List.append_assoc, ← List.filter_append]
      rfl
    · have one := first.memory
      have others := later.memory
      simp only [memoryOf, List.filter_cons, List.filter_nil, List.map_cons, List.sum_cons,
        List.map_nil, List.sum_nil] at one others ⊢
      split at one <;> simp_all <;> omega
    · intro other listed gone
      rcases List.mem_cons.mp listed with rfl | member
      · exact later.kept _ (first.noted other (by simp) gone)
      · exact later.noted other member gone

/-- A pass begins by taking note of all children. -/
theorem harvest_active (state : PoolState) :
    (harvest view state).active = state.active.filter (survives view) :=
  (foldl_harvested state.active { state with active := [] }).active

end Harvest

section Launches

variable {width : Nat} {drainDeadline : ℚ} {view : PassView}

/-- The guard was found clear. -/
def clearGuard (state : PoolState) : PoolState :=
  { state with guardSince := none, guardChecks := [] }

/-- What one check before a launch may lead to. -/
inductive LaunchStep (width : Nat) (drainDeadline : ℚ) (view : PassView) :
    PoolState → PoolState → Prop
  | outOfTime {state : PoolState} {now : ℚ} (late : drainDeadline ≤ now) :
      LaunchStep width drainDeadline view state
        { state with stopReason := some .budget, lateCheck := some now }
  | held {state : PoolState} (check : LaunchCheck) (unstopped : state.stopReason = none) :
      LaunchStep width drainDeadline view state (holdLaunches check state)
  | cleared {state : PoolState} (unstopped : state.stopReason = none) :
      LaunchStep width drainDeadline view state (clearGuard state)
  | launched {state : PoolState} {row : QueueRow} {rest : List QueueRow} {now : ℚ}
      (unstopped : state.stopReason = none) (next : state.waiting = row :: rest) (room : state.active.length < width)
      (early : now < drainDeadline)
      (fits : state.activeMemMb + row.declared ≤ engineRamBudgetMb) :
      LaunchStep width drainDeadline view state (startChild (clearGuard state) row now)

/-- The launches of a pass are such steps. -/
theorem launchRows_steps (index : Nat) (rows : List QueueRow) (state : PoolState)
    (waiting : state.waiting = rows) (unstopped : state.stopReason = none) :
    ReflTransGen (LaunchStep width drainDeadline view) state
      (launchRows width drainDeadline view index rows state) := by
  induction rows generalizing index state with
  | nil => exact .refl
  | cons row rest ih =>
    unfold launchRows
    dsimp only
    split
    · exact .refl
    rename_i room
    split
    · rename_i late
      exact .single (.outOfTime late)
    rename_i early
    split
    · exact .single (.held _ unstopped)
    split
    · exact .single (.cleared unstopped)
    rename_i fits
    split
    · exact .single (.cleared unstopped)
    · refine .head (.launched unstopped waiting (not_le.mp room) (not_le.mp early)
        (not_lt.mp fits)) (ih (index + 1) _ ?_ unstopped)
      simp [startChild, clearGuard, waiting]

/-- What taking note of children and every step of the launches preserve holds after
every pass. -/
theorem poolAfter_invariant {pool : List QueueRow} {views : Nat → PassView}
    (invariant : PoolState → Prop) (initially : invariant (poolStart pool))
    (harvested : ∀ view state after, Harvested view state.active { state with active := [] } after →
      invariant state → invariant after)
    (launches : ∀ passes state after, LaunchStep width drainDeadline (views passes) state after →
      invariant state → invariant after) (passes : Nat) :
    invariant (poolAfter pool width drainDeadline views passes) := by
  induction passes with
  | zero => exact initially
  | succ passes ih =>
    rw [poolAfter]
    split
    · have noted := harvested (views passes) (poolAfter pool width drainDeadline views passes)
        (harvest (views passes) (poolAfter pool width drainDeadline views passes))
        (foldl_harvested _ _) ih
      unfold poolPass
      dsimp only
      split
      · rename_i unstopped
        have steps : ReflTransGen (LaunchStep width drainDeadline (views passes))
            (harvest (views passes) (poolAfter pool width drainDeadline views passes)) _ :=
          launchRows_steps 0 _ _ rfl unstopped
        generalize launchRows width drainDeadline (views passes) 0 _ _ = after at steps ⊢
        induction steps with
        | refl => exact noted
        | tail _ step holds => exact launches passes _ _ step holds
      · exact noted
    · exact ih

end Launches

section Invariants

variable {pool : List QueueRow} {width : Nat} {drainDeadline : ℚ} {views : Nat → PassView}

/-- Every row of the pool was started or waits; a started row runs or has a result. -/
structure Accounted (pool : List QueueRow) (width : Nat) (state : PoolState) : Prop where
  inOrder : state.started ++ state.waiting = pool
  width : state.active.length ≤ width
  memory : state.activeMemMb = memoryOf state.active
  running : ∀ child ∈ state.active, child.row ∈ state.started
  ended : ∀ row ∈ state.started, (∃ child ∈ state.active, child.row = row) ∨
    (state.results.lookup row.id).isSome

theorem holdLaunches_frame (check : LaunchCheck) (state : PoolState) :
    (holdLaunches check state).active = state.active ∧
      (holdLaunches check state).waiting = state.waiting ∧
      (holdLaunches check state).started = state.started ∧
      (holdLaunches check state).results = state.results ∧
      (holdLaunches check state).activeMemMb = state.activeMemMb := by
  unfold holdLaunches
  dsimp only
  split
  · exact ⟨rfl, rfl, rfl, rfl, rfl⟩
  · split <;> exact ⟨rfl, rfl, rfl, rfl, rfl⟩

/-- A step that touches neither rows nor children keeps the account. -/
theorem Accounted.congr {state after : PoolState} (accounted : Accounted pool width state)
    (active : after.active = state.active) (waiting : after.waiting = state.waiting)
    (started : after.started = state.started) (results : after.results = state.results)
    (memory : after.activeMemMb = state.activeMemMb) : Accounted pool width after := by
  refine ⟨?_, ?_, ?_, ?_, ?_⟩
  · rw [started, waiting]
    exact accounted.inOrder
  · rw [active]
    exact accounted.width
  · rw [memory, active]
    exact accounted.memory
  · rw [active, started]
    exact accounted.running
  · rw [active, started, results]
    exact accounted.ended

/-- Taking note of children keeps the account. -/
theorem Accounted.harvested {view : PassView} {state after : PoolState}
    (accounted : Accounted pool width state)
    (harvested : Harvested view state.active { state with active := [] } after) :
    Accounted pool width after := by
  have active : after.active = state.active.filter (survives view) := harvested.active
  refine ⟨?_, ?_, ?_, ?_, ?_⟩
  · rw [harvested.started, harvested.waiting]
    exact accounted.inOrder
  · rw [active]
    exact (List.length_filter_le _ _).trans accounted.width
  · have memory := harvested.memory
    have before := accounted.memory
    rw [active]
    simp only at memory
    omega
  · intro child listed
    rw [active] at listed
    rw [harvested.started]
    exact accounted.running child (List.mem_filter.mp listed).1
  · intro row listed
    rw [harvested.started] at listed
    rcases accounted.ended row listed with ⟨child, running, rfl⟩ | found
    · cases stays : survives view child with
      | false => exact .inr (harvested.noted child running stays)
      | true =>
        rw [active]
        exact .inl ⟨child, List.mem_filter.mpr ⟨running, stays⟩, rfl⟩
    · exact .inr (harvested.kept row.id found)

/-- So does every step of the launches. -/
theorem Accounted.launches {view : PassView} {state after : PoolState}
    (accounted : Accounted pool width state)
    (step : LaunchStep width drainDeadline view state after) : Accounted pool width after := by
  cases step with
  | outOfTime => exact accounted.congr rfl rfl rfl rfl rfl
  | cleared => exact accounted.congr rfl rfl rfl rfl rfl
  | held check =>
    obtain ⟨active, waiting, started, results, memory⟩ := holdLaunches_frame check state
    exact accounted.congr active waiting started results memory
  | @launched row rest now _ next room =>
    refine ⟨?_, ?_, ?_, ?_, ?_⟩
    · have inOrder := accounted.inOrder
      rw [next] at inOrder
      simpa [startChild, clearGuard, next] using inOrder
    · simpa [startChild, clearGuard] using room
    · simp [startChild, clearGuard, memoryOf, accounted.memory]
    · intro child listed
      rcases List.mem_append.mp listed with earlier | new
      · exact List.mem_append_left _ (accounted.running child earlier)
      · rw [List.mem_singleton.mp new]
        exact List.mem_append_right _ (List.mem_singleton.mpr rfl)
    · intro other listed
      rcases List.mem_append.mp listed with earlier | new
      · rcases accounted.ended other earlier with ⟨child, running, same⟩ | found
        · exact .inl ⟨child, List.mem_append_left _ running, same⟩
        · exact .inr found
      · rw [List.mem_singleton.mp new]
        exact .inl ⟨⟨row, now + row.limit⟩,
          List.mem_append_right _ (List.mem_singleton.mpr rfl), rfl⟩

theorem accounted_start : Accounted pool width (poolStart pool) :=
  ⟨rfl, Nat.zero_le _, rfl, nofun, nofun⟩

theorem poolAfter_accounted (passes : Nat) :
    Accounted pool width (poolAfter pool width drainDeadline views passes) :=
  poolAfter_invariant (Accounted pool width) accounted_start
    (fun _ _ _ harvested accounted => accounted.harvested harvested)
    (fun _ _ _ step accounted => accounted.launches step) passes

/-- Without negative declarations, children that end free memory. -/
theorem memoryOf_filter {children : List PoolChild} (keep : PoolChild → Bool)
    (nonnegative : ∀ child ∈ children, 0 ≤ child.row.declared) :
    memoryOf (children.filter keep) ≤ memoryOf children := by
  induction children with
  | nil => exact le_rfl
  | cons child rest ih =>
    obtain ⟨first, others⟩ := List.forall_mem_cons.mp nonnegative
    have fewer := ih others
    cases stays : keep child with
    | true => simpa [memoryOf, stays] using fewer
    | false =>
      simp only [memoryOf, List.filter_cons, stays, List.map_cons, List.sum_cons] at fewer ⊢
      simp only [Bool.false_eq_true, if_false]
      omega

/-- Without negative declarations, the running children keep to the budget. -/
theorem poolAfter_memory (nonnegative : ∀ row ∈ pool, 0 ≤ row.declared) (passes : Nat) :
    memoryOf (poolAfter pool width drainDeadline views passes).active ≤ engineRamBudgetMb := by
  have bounded : Accounted pool width (poolAfter pool width drainDeadline views passes) ∧
      (poolAfter pool width drainDeadline views passes).activeMemMb ≤ engineRamBudgetMb := by
    refine poolAfter_invariant (fun state => Accounted pool width state ∧
      state.activeMemMb ≤ engineRamBudgetMb) ⟨accounted_start, show (0 : Int) ≤ engineRamBudgetMb by decide⟩ ?_ ?_ passes
    · rintro view state after harvested ⟨accounted, within⟩
      have children : ∀ child ∈ state.active, 0 ≤ child.row.declared := by
        intro child listed
        refine nonnegative child.row ?_
        rw [← accounted.inOrder]
        exact List.mem_append_left _ (accounted.running child listed)
      have fewer := memoryOf_filter (survives view) children
      have memory := harvested.memory
      simp only at memory
      exact ⟨accounted.harvested harvested, by omega⟩
    · rintro passes state after step ⟨accounted, within⟩
      refine ⟨accounted.launches step, ?_⟩
      cases step with
      | outOfTime => exact within
      | cleared => exact within
      | held check => exact (holdLaunches_frame check state).2.2.2.2.trans_le within
      | launched _ _ _ _ fits => exact fits
  rw [← bounded.1.memory]
  exact bounded.2

/-- The deadline of the drain was found to have passed. -/
def DeadlinePassed (drainDeadline : ℚ) (state : PoolState) : Prop :=
  ∃ now ∈ state.lateCheck, drainDeadline ≤ now

/-- Since it was last clear, the guard was found tripped at every check of a time to settle,
and with nothing running after the first of them, which was the first check that found it
tripped or the last one that saw a child running. -/
def SettledSince (state : PoolState) : Prop :=
  ∃ earlier first later now, state.guardChecks = earlier ++ first :: later ++ [⟨now, 0⟩] ∧
    (∀ check ∈ later, check.running = 0) ∧ (earlier = [] ∨ first.running ≠ 0) ∧
    resourceSettleS ≤ now - first.now

/-- What the guard remembers: the first check that found it tripped, or the last one that
saw a child running. -/
structure GuardSound (state : PoolState) : Prop where
  clear : state.guardSince = none → state.guardChecks = []
  since : ∀ since, state.guardSince = some since → ∃ earlier running later,
    state.guardChecks = earlier ++ ⟨since, running⟩ :: later ∧
      (∀ check ∈ later, check.running = 0) ∧ (earlier = [] ∨ running ≠ 0)
  stopped : state.stopReason = some .resources → SettledSince state

/-- Holding launches keeps what the guard remembers. -/
theorem GuardSound.held {state : PoolState} (sound : GuardSound state) (check : LaunchCheck)
    (unstopped : state.stopReason = none) : GuardSound (holdLaunches check state) := by
  unfold holdLaunches
  dsimp only
  split
  · -- a child runs: the guard counts from this check
    rename_i busy
    refine ⟨nofun, ?_, ?_⟩
    · rintro since counted
      obtain rfl : check.now = since := Option.some.inj counted
      exact ⟨state.guardChecks, state.active.length, [], rfl, nofun,
        .inr (by simpa using busy)⟩
    · intro stopped
      rw [unstopped] at stopped
      cases stopped
  · rename_i idle
    have none' : state.active = [] := not_not.mp idle
    have counted : ∀ since, some (state.guardSince.getD check.now) = some since →
        ∃ earlier running later, state.guardChecks ++ [⟨check.now, state.active.length⟩] =
          earlier ++ ⟨since, running⟩ :: later ∧
          (∀ check ∈ later, check.running = 0) ∧ (earlier = [] ∨ running ≠ 0) := by
      intro since counted
      cases before : state.guardSince with
      | none =>
        rw [before] at counted
        obtain rfl : check.now = since := Option.some.inj counted
        exact ⟨[], state.active.length, [], by rw [sound.clear before], nofun, .inl rfl⟩
      | some first =>
        rw [before] at counted
        obtain rfl : first = since := Option.some.inj counted
        obtain ⟨earlier, running, later, checks, none, seen⟩ := sound.since first before
        refine ⟨earlier, running, later ++ [⟨check.now, 0⟩], ?_, ?_, seen⟩
        · rw [checks, none', List.append_assoc]
          rfl
        · intro other listed
          rcases List.mem_append.mp listed with old | new
          · exact none other old
          · rw [List.mem_singleton.mp new]
    split
    · rename_i settled
      refine ⟨nofun, counted, fun _ => ?_⟩
      cases before : state.guardSince with
      | none =>
        rw [before, Option.getD_none, sub_self] at settled
        exact absurd settled (by norm_num [resourceSettleS])
      | some first =>
        rw [before, Option.getD_some] at settled
        obtain ⟨earlier, running, later, checks, none, seen⟩ := sound.since first before
        refine ⟨earlier, ⟨first, running⟩, later, check.now, ?_, none, seen, settled⟩
        rw [checks, none']
        rfl
    · refine ⟨nofun, counted, fun stopped => ?_⟩
      rw [unstopped] at stopped
      cases stopped

/-- The guard remembers soundly after every pass. -/
theorem poolAfter_guardSound (passes : Nat) :
    GuardSound (poolAfter pool width drainDeadline views passes) := by
  have cleared : ∀ state : PoolState, state.stopReason = none → GuardSound (clearGuard state) :=
    fun state unstopped => ⟨fun _ => rfl, nofun, fun stopped => by
      rw [show (clearGuard state).stopReason = none from unstopped] at stopped
      cases stopped⟩
  refine poolAfter_invariant GuardSound ⟨fun _ => rfl, nofun, nofun⟩ ?_ ?_ passes
  · intro view state after harvested sound
    refine ⟨?_, ?_, ?_⟩
    · rw [harvested.guardSince, harvested.guardChecks]
      exact sound.clear
    · rw [harvested.guardSince, harvested.guardChecks]
      exact sound.since
    · rw [harvested.stopReason, SettledSince, harvested.guardChecks]
      exact sound.stopped
  · intro passes state after step sound
    cases step with
    | outOfTime => exact ⟨sound.clear, sound.since, nofun⟩
    | held check unstopped => exact sound.held check unstopped
    | cleared unstopped => exact cleared state unstopped
    | @launched row _ now unstopped =>
      have clear := cleared state unstopped
      exact ⟨clear.clear, clear.since, clear.stopped⟩

/-- The pool is out of time only after the deadline of the drain. -/
theorem poolAfter_budget (passes : Nat) :
    (poolAfter pool width drainDeadline views passes).stopReason = some .budget →
      DeadlinePassed drainDeadline (poolAfter pool width drainDeadline views passes) := by
  refine poolAfter_invariant (fun state => state.stopReason = some .budget →
    DeadlinePassed drainDeadline state) nofun ?_ ?_ passes
  · intro view state after harvested before stopped
    rw [harvested.stopReason] at stopped
    rw [DeadlinePassed, harvested.lateCheck]
    exact before stopped
  · intro passes state after step before stopped
    cases step with
    | outOfTime late => exact ⟨_, rfl, late⟩
    | cleared => exact before stopped
    | launched => exact before stopped
    | held check unstopped =>
      have open_ : (holdLaunches check state).stopReason ≠ some .budget := by
        unfold holdLaunches
        dsimp only
        split
        · simp [unstopped]
        · split <;> simp [unstopped]
      exact absurd stopped open_

/-- No child of the pool is given more time than this. -/
def LatestDeadline (pool : List QueueRow) (drainDeadline time : ℚ) : Prop :=
  drainDeadline ≤ time ∧ ∀ row ∈ pool, drainDeadline + row.limit ≤ time

theorem exists_latestDeadline (pool : List QueueRow) (drainDeadline : ℚ) :
    ∃ time, LatestDeadline pool drainDeadline time := by
  induction pool with
  | nil => exact ⟨drainDeadline, le_rfl, nofun⟩
  | cons row rest ih =>
    obtain ⟨time, after, others⟩ := ih
    refine ⟨max time (drainDeadline + row.limit), after.trans (le_max_left _ _), ?_⟩
    intro other listed
    rcases List.mem_cons.mp listed with rfl | later
    · exact le_max_right _ _
    · exact (others other later).trans (le_max_left _ _)

theorem poolAfter_deadlines {time : ℚ} (latest : LatestDeadline pool drainDeadline time)
    (passes : Nat) : ∀ child ∈ (poolAfter pool width drainDeadline views passes).active,
      child.deadline ≤ time := by
  have bounded : Accounted pool width (poolAfter pool width drainDeadline views passes) ∧
      ∀ child ∈ (poolAfter pool width drainDeadline views passes).active,
        child.deadline ≤ time := by
    refine poolAfter_invariant (fun state => Accounted pool width state ∧
      ∀ child ∈ state.active, child.deadline ≤ time) ⟨accounted_start, nofun⟩ ?_ ?_ passes
    · rintro view state after harvested ⟨accounted, within⟩
      refine ⟨accounted.harvested harvested, fun child listed => ?_⟩
      rw [harvested.active] at listed
      exact within child (List.mem_filter.mp listed).1
    · rintro passes state after step ⟨accounted, within⟩
      refine ⟨accounted.launches step, ?_⟩
      cases step with
      | outOfTime => exact within
      | cleared => exact within
      | held check =>
        rw [(holdLaunches_frame check state).1]
        exact within
      | @launched row _ now _ next _ early =>
        intro child listed
        rcases List.mem_append.mp listed with earlier | new
        · exact within child earlier
        · have listed : row ∈ pool := by
            rw [← accounted.inOrder, next]
            simp
          have limit := latest.2 row listed
          rw [List.mem_singleton.mp new]
          dsimp only
          linarith
  exact bounded.2

/-- A pass after every deadline is the last one. -/
theorem poolPass_ends {state : PoolState} {view : PassView} (wide : 0 < width)
    (children : ∀ child ∈ state.active, child.deadline ≤ view.now)
    (late : drainDeadline ≤ (view.checks 0).now) :
    (poolPass width drainDeadline state view).active = [] ∧
      ¬ (poolPass width drainDeadline state view).goesOn := by
  have idle : (harvest view state).active = [] := by
    rw [harvest_active, List.filter_eq_nil_iff]
    intro child listed
    simp [survives, children child listed]
  unfold poolPass PoolState.goesOn
  dsimp only
  split
  · cases waiting : (harvest view state).waiting with
    | nil => simp [launchRows, idle, waiting]
    | cons row rest =>
      simp [launchRows, idle, wide.ne', late]
  · rename_i stopped
    simp [idle, stopped]

end Invariants

/-- The readings of the clock: within a pass it does not go back, and the passes go beyond
every instant. -/
structure Clock (views : Nat → PassView) : Prop where
  onward : ∀ passes index, (views passes).now ≤ ((views passes).checks index).now
  passes : ∀ time, ∃ passes, time ≤ (views passes).now

/-- The rows are started in the order of the queue and at most once, within the width and
the budget, and the pool ends with every row done, failed or pending; a row is pending only
when the deadline has passed or the guard did not settle. -/
structure Disciplined (settled : PoolState → Prop) (pool : List QueueRow) (width : Nat)
    (drainDeadline : ℚ) (views : Nat → PassView) : Prop where
  inOrder : ∀ passes, (poolAfter pool width drainDeadline views passes).started ++
    (poolAfter pool width drainDeadline views passes).waiting = pool
  within : ∀ passes, (poolAfter pool width drainDeadline views passes).active.length ≤ width
  memory : ∀ passes,
    memoryOf (poolAfter pool width drainDeadline views passes).active ≤ engineRamBudgetMb
  ends : ∃ passes, (poolAfter pool width drainDeadline views passes).active = [] ∧
    ¬ (poolAfter pool width drainDeadline views passes).goesOn ∧
    ∀ row ∈ pool,
      (poolAfter pool width drainDeadline views passes).outcome row ∈
        [JobState.done, .failed, .pending] ∧
      ((poolAfter pool width drainDeadline views passes).outcome row = .pending →
        DeadlinePassed drainDeadline (poolAfter pool width drainDeadline views passes) ∨
          settled (poolAfter pool width drainDeadline views passes))

/-- The guard was found tripped and nothing running at every check of a time to settle. -/
def SettledIdle (state : PoolState) : Prop :=
  ∃ earlier first later now, state.guardChecks = earlier ++ first :: later ++ [⟨now, 0⟩] ∧
    first.running = 0 ∧ (∀ check ∈ later, check.running = 0) ∧ resourceSettleS ≤ now - first.now

theorem poolAfter_ended {pool : List QueueRow} {width : Nat} {drainDeadline : ℚ}
    {views : Nat → PassView} {last : Nat}
    (ended : ¬ (poolAfter pool width drainDeadline views last).goesOn) (more : Nat) :
    poolAfter pool width drainDeadline views (last + more) =
      poolAfter pool width drainDeadline views last := by
  induction more with
  | zero => rfl
  | succ more ih =>
    rw [← Nat.add_assoc, poolAfter, ih]
    exact if_neg ended

def replay (id : Nat) (memMb : Int) : QueueRow := ⟨id, "backtest", "\x7b\x7d", some memMb, none, 140⟩

/-- Two replays. While the first one runs, the load is found too high; a quarter of an hour
later it has ended, and the load is still too high. -/
def loadedViews (pass : Nat) : PassView where
  now := if pass ≤ 1 then pass else pass + 899
  exited _ := if pass ≤ 1 then none else some 0
  checks _ := ⟨if pass ≤ 1 then pass else pass + 899, if pass = 0 then 6 else 30, 62⟩

/-- Replays of which the first one declares negative memory and ends first. -/
def understatedViews (pass : Nat) : PassView where
  now := 4 * pass
  exited id := if id = 1 ∧ 2 < pass then some 0 else none
  checks _ := ⟨4 * pass, 6, 62⟩

theorem loadedClock : Clock loadedViews where
  onward _ _ := le_rfl
  passes time := by
    obtain ⟨pass, later⟩ := exists_nat_ge time
    refine ⟨pass, later.trans ?_⟩
    simp only [loadedViews]
    split
    · exact le_rfl
    · linarith

theorem understatedClock : Clock understatedViews where
  onward _ _ := le_rfl
  passes time := by
    obtain ⟨pass, later⟩ := exists_nat_ge time
    refine ⟨pass, later.trans ?_⟩
    have nonnegative : (0 : ℚ) ≤ pass := Nat.cast_nonneg pass
    simp only [understatedViews]
    linarith

end TradingEngine.Queue
