import TradingEngine.QueueDrains

/-!
# No duplicated and no lost work

Equivalent work is open at most once: an enqueue looks for pending and running rows, and
only a drain opens a row again, one that a dead drain left running. A drain, however,
selects its rows once, and takes them up although they may have been superseded in the
meantime. As long as every row is still pending when the drain comes to it, open work is
unique, rows take only the ways that they may, and no row stays running that no drain
runs.
-/

namespace TradingEngine.Queue

open KeyedTables Runs

section Rows

/-- A row that is pending or running. -/
def JobRow.isOpen (row : JobRow) : Prop := row.state = .pending ∨ row.state = .running

instance (row : JobRow) : Decidable row.isOpen := inferInstanceAs (Decidable (_ ∨ _))

/-- Equivalent work is open at most once. -/
def UniqueWork (codec : ParamsCodec) (jobs : Table Nat JobRow) : Prop :=
  ∀ id other row twin, jobs.lookup id = some row → jobs.lookup other = some twin →
    row.isOpen → twin.isOpen → row.kind = twin.kind → sameParams codec row.params twin.params →
    id = other

/-- What is open was open before, with the same work. -/
def OpenKept (before after : Table Nat JobRow) : Prop :=
  ∀ id row, after.lookup id = some row → row.isOpen → ∃ old, before.lookup id = some old ∧
    old.isOpen ∧ old.kind = row.kind ∧ old.params = row.params

/-- Rows stay, and leave pending and running only where they may. -/
def Moves (before after : Table Nat JobRow) : Prop :=
  ∀ id row, before.lookup id = some row → ∃ next, after.lookup id = some next ∧
    next.kind = row.kind ∧ next.params = row.params ∧
    (row.state = .pending → next.state ∈ [JobState.pending, .running, .superseded, .failed]) ∧
    (row.state = .running → next.state ∈ [JobState.running, .pending, .done, .failed])

variable {codec : ParamsCodec} {before after jobs : Table Nat JobRow}

theorem sameParams_comm (left right : String) :
    sameParams codec left right = sameParams codec right left := by
  unfold sameParams
  cases codec.canonical left <;> cases codec.canonical right <;> simp [eq_comm]

theorem UniqueWork.kept (unique : UniqueWork codec before) (kept : OpenKept before after) :
    UniqueWork codec after := by
  intro id other row twin found also open_ alsoOpen kind params
  obtain ⟨old, was, wasOpen, sameKind, same⟩ := kept id row found open_
  obtain ⟨oldTwin, wasToo, wasOpenToo, sameKindToo, sameToo⟩ := kept other twin also alsoOpen
  refine unique id other old oldTwin was wasToo wasOpen wasOpenToo ?_ ?_
  · rw [sameKind, sameKindToo, kind]
  · rw [same, sameToo]
    exact params

theorem Moves.refl : Moves jobs jobs := by
  intro id row found
  refine ⟨row, found, rfl, rfl, ?_, ?_⟩ <;> intro state <;> simp [state]

end Rows

section Enqueue

variable {codec : ParamsCodec} {jobs : Table Nat JobRow} {call : EnqueueCall}

/-- Some rows that wait are superseded. -/
structure Superseding (before after : Table Nat JobRow) : Prop where
  from_ : ∀ id row, before.lookup id = some row → after.lookup id = some row ∨
    (row.state = .queued ∨ row.state = .pending) ∧
      after.lookup id = some { row with state := .superseded }
  back : ∀ id row, after.lookup id = some row → before.lookup id = some row ∨
    row.state = .superseded

theorem superseding_mapRows {change : JobRow → JobRow}
    (changes : ∀ row, change row = row ∨ (row.state = .queued ∨ row.state = .pending) ∧
      change row = { row with state := .superseded }) :
    Superseding jobs (mapRows (fun _ => change) jobs) := by
  constructor
  · intro id row found
    rw [lookup_mapRows, found, Option.map_some, Option.some.injEq, Option.some.injEq]
    exact changes row
  · intro id row found
    rw [lookup_mapRows, Option.map_eq_some_iff] at found
    obtain ⟨old, was, rfl⟩ := found
    rcases changes old with same | ⟨-, superseded⟩
    · rw [same]
      exact .inl was
    · rw [superseded]
      exact .inr rfl

theorem supersedeDuplicates_superseding :
    Superseding jobs (supersedeDuplicates codec jobs call) := by
  apply superseding_mapRows
  intro row
  by_cases taken : row.kind = call.kind ∧ row.state = .pending ∧
      sameParams codec row.params call.params
  · exact .inr ⟨.inr taken.2.1, if_pos taken⟩
  · exact .inl (if_neg taken)

theorem supersedeStale_superseding : Superseding jobs (supersedeStale jobs call) := by
  apply superseding_mapRows
  intro row
  by_cases taken : row.kind = call.kind ∧ row.params ≠ call.params ∧
      row.state ∈ [JobState.queued, .pending]
  · exact .inr ⟨by simpa using taken.2.2, if_pos taken⟩
  · exact .inl (if_neg taken)

theorem Superseding.refl : Superseding jobs jobs :=
  ⟨fun _ _ found => .inl found, fun _ _ found => .inl found⟩

/-- What an enqueue does: nothing, or it takes duplicates of done work away, or it adds a
row for which there is no open one, and takes older ones away. -/
theorem cmdEnqueue_cases (codec : ParamsCodec) (jobs : Table Nat JobRow) (call : EnqueueCall) :
    (cmdEnqueue codec jobs call).2 = jobs ∨
      call.dryRun = false ∧
        ((cmdEnqueue codec jobs call).2 = supersedeDuplicates codec jobs call ∨
          (∀ row ∈ matching codec jobs call, ¬ row.2.isOpen) ∧
            ∃ kept row, Superseding jobs kept ∧ row.kind = call.kind ∧ row.params = call.params ∧
              row.state = .pending ∧
              (cmdEnqueue codec jobs call).2 = kept.insert (nextId kept) row) := by
  unfold cmdEnqueue
  split
  · exact .inl rfl
  rename_i type _
  split
  · exact .inl rfl
  split
  · split
    · exact .inl rfl
    · rename_i wet
      exact .inr ⟨Bool.eq_false_iff.mpr wet, .inl rfl⟩
  split
  · exact .inl rfl
  rename_i closed
  split
  · exact .inl rfl
  rename_i wet
  refine .inr ⟨Bool.eq_false_iff.mpr wet, .inr ⟨?_, ?_⟩⟩
  · intro row listed open_
    refine closed (List.any_eq_true.mpr ⟨row, listed, decide_eq_true ?_⟩)
    simpa [JobRow.isOpen] using open_
  · refine ⟨_, _, ?_, rfl, rfl, rfl, rfl⟩
    split
    · exact supersedeStale_superseding
    · exact .refl

theorem lookup_nextId (jobs : Table Nat JobRow) : jobs.lookup (nextId jobs) = none := by
  rw [AList.lookup_eq_none]
  intro listed
  have bounded := (le_foldl_max jobs.keys 0).2 _ listed
  unfold nextId at bounded
  omega

theorem Superseding.openKept {after : Table Nat JobRow} (superseding : Superseding jobs after) :
    OpenKept jobs after := by
  intro id row found open_
  rcases superseding.back id row found with was | superseded
  · exact ⟨row, was, open_, rfl, rfl⟩
  · rcases open_ with pending | running <;> simp_all

theorem Superseding.moves {after : Table Nat JobRow} (superseding : Superseding jobs after) :
    Moves jobs after := by
  intro id row found
  rcases superseding.from_ id row found with same | ⟨waited, superseded⟩
  · refine ⟨row, same, rfl, rfl, ?_, ?_⟩ <;> intro state <;> simp [state]
  · refine ⟨_, superseded, rfl, rfl, fun _ => by simp, fun running => ?_⟩
    rcases waited with queued | pending <;> simp_all

/-- An enqueue keeps open work unique. -/
theorem cmdEnqueue_unique (unique : UniqueWork codec jobs) (call : EnqueueCall) :
    UniqueWork codec (cmdEnqueue codec jobs call).2 := by
  rcases cmdEnqueue_cases codec jobs call with
    same | ⟨-, duplicates | ⟨closed, kept, added, superseding, kind, params, pending, inserted⟩⟩
  · rw [same]
    exact unique
  · rw [duplicates]
    exact unique.kept supersedeDuplicates_superseding.openKept
  · have apart : ∀ id row, (kept.insert (nextId kept) added).lookup id = some row → row.isOpen →
        id ≠ nextId kept → kept.lookup id = some row ∧
          ¬ (row.kind = call.kind ∧ sameParams codec row.params call.params) := by
      intro id row found open_ other
      rw [AList.lookup_insert_ne other] at found
      refine ⟨found, ?_⟩
      rintro ⟨sameKind, same⟩
      rcases superseding.back id row found with was | superseded
      · refine closed ⟨id, row⟩ (List.mem_filter.mpr ⟨mem_of_lookup was, ?_⟩) open_
        rcases open_ with state | state <;> simp [sameKind, same, state]
      · rcases open_ with state | state <;> simp_all
    have new : ∀ row, (kept.insert (nextId kept) added).lookup (nextId kept) = some row →
        row = added := by
      intro row found
      rw [AList.lookup_insert] at found
      exact (Option.some.inj found).symm
    rw [inserted]
    intro id other row twin found also open_ alsoOpen sameKind same
    by_cases first : id = nextId kept
    · by_cases second : other = nextId kept
      · rw [first, second]
      · subst first
        rw [new row found, kind] at sameKind
        rw [new row found, params, sameParams_comm] at same
        exact absurd ⟨sameKind.symm, same⟩ (apart other twin also alsoOpen second).2
    · by_cases second : other = nextId kept
      · subst second
        rw [new twin also, kind] at sameKind
        rw [new twin also, params] at same
        exact absurd ⟨sameKind, same⟩ (apart id row found open_ first).2
      · exact unique.kept superseding.openKept id other row twin (apart id row found open_ first).1
          (apart other twin also alsoOpen second).1 open_ alsoOpen sameKind same

/-- An enqueue moves no row but to supersede it. -/
theorem cmdEnqueue_moves (codec : ParamsCodec) (jobs : Table Nat JobRow) (call : EnqueueCall) :
    Moves jobs (cmdEnqueue codec jobs call).2 := by
  rcases cmdEnqueue_cases codec jobs call with
    same | ⟨-, duplicates | ⟨-, kept, added, superseding, -, -, -, inserted⟩⟩
  · rw [same]
    exact .refl
  · rw [duplicates]
    exact supersedeDuplicates_superseding.moves
  · rw [inserted]
    intro id row found
    obtain ⟨next, stays, rest⟩ := superseding.moves id row found
    refine ⟨next, ?_, rest⟩
    have other : id ≠ nextId kept := by
      rintro rfl
      rw [lookup_nextId] at stays
      cases stays
    rw [AList.lookup_insert_ne other]
    exact stays

/-- An enqueue leaves running rows alone and makes none. -/
theorem cmdEnqueue_running (codec : ParamsCodec) (jobs : Table Nat JobRow) (call : EnqueueCall)
    (id : Nat) (row : JobRow) (running : row.state = .running) :
    (cmdEnqueue codec jobs call).2.lookup id = some row ↔ jobs.lookup id = some row := by
  have superseded : ∀ after, Superseding jobs after →
      (after.lookup id = some row ↔ jobs.lookup id = some row) := by
    intro after superseding
    constructor
    · intro found
      rcases superseding.back id row found with was | gone
      · exact was
      · simp_all
    · intro found
      rcases superseding.from_ id row found with stays | ⟨waited, -⟩
      · exact stays
      · rcases waited with state | state <;> simp_all
  rcases cmdEnqueue_cases codec jobs call with
    same | ⟨-, duplicates | ⟨-, kept, added, superseding, -, -, pending, inserted⟩⟩
  · rw [same]
  · rw [duplicates]
    exact superseded _ supersedeDuplicates_superseding
  · rw [inserted, ← superseded kept superseding]
    by_cases new : id = nextId kept
    · rw [new, AList.lookup_insert, lookup_nextId]
      constructor
      · intro found
        rw [← Option.some.inj found, pending] at running
        cases running
      · intro impossible
        cases impossible
    · rw [AList.lookup_insert_ne new]

end Enqueue

section Drains

variable {codec : ParamsCodec} {jobs : Table Nat JobRow} {drain : Drain}

/-- The rows that a drain runs. -/
def Drain.tasks (drain : Drain) : List Nat :=
  match drain.phase with
  | .pooling rows => rows.map QueueRow.id
  | .releasing row | .working row => [row.id]
  | .sweeping | .choosing | .closing => []

/-- A drain writes open rows, each one once: rows that it runs become running, all others
leave running, or they are refused. What runs is a task of the drain or about to be
written. -/
structure DrainSound (jobs : Table Nat JobRow) (drain : Drain) : Prop where
  distinct : (drain.writes.map Prod.fst).Nodup
  writable : ∀ write ∈ drain.writes, ∃ row, jobs.lookup write.1 = some row ∧ row.isOpen ∧
    write.2 ∈ [JobState.pending, .running, .done, .failed] ∧
    (write.2 = .done → row.state = .running)
  starts : ∀ write ∈ drain.writes, write.1 ∈ drain.tasks ↔ write.2 = .running
  tasks : ∀ id ∈ drain.tasks, (∃ row, jobs.lookup id = some row ∧ row.state = .running) ∨
    id ∈ drain.writes.map Prod.fst
  running : ∀ id row, jobs.lookup id = some row → row.state = .running →
    id ∈ drain.tasks ∨ id ∈ drain.writes.map Prod.fst
  selected : (drain.selected.map QueueRow.id).Nodup
  tasksDistinct : drain.tasks.Nodup

theorem lookup_setState (id other : Nat) (state : JobState) :
    (setState jobs id state).lookup other =
      (jobs.lookup other).map fun row => if other = id then { row with state } else row :=
  lookup_mapRows _ _ _

variable {id : Nat}

theorem lookup_setState_ne {other : Nat} (apart : other ≠ id) (state : JobState) :
    (setState jobs id state).lookup other = jobs.lookup other := by
  rw [lookup_setState]
  simp [apart]

theorem lookup_setState_self {row : JobRow} (found : jobs.lookup id = some row)
    (state : JobState) : (setState jobs id state).lookup id = some { row with state } := by
  rw [lookup_setState, found, Option.map_some, if_pos rfl]

theorem setState_openKept {row : JobRow} (found : jobs.lookup id = some row)
    (open_ : row.isOpen) (state : JobState) : OpenKept jobs (setState jobs id state) := by
  intro other next after nextOpen
  by_cases same : other = id
  · subst same
    rw [lookup_setState_self found] at after
    obtain rfl := Option.some.inj after
    exact ⟨row, found, open_, rfl, rfl⟩
  · rw [lookup_setState_ne same] at after
    exact ⟨next, after, nextOpen, rfl, rfl⟩

/-- A write on an open row takes one of the ways that rows may take. -/
theorem setState_moves {row : JobRow} {state : JobState}
    (found : jobs.lookup id = some row)
    (allowed : state ∈ [JobState.pending, .running, .done, .failed])
    (done : state = .done → row.state = .running) : Moves jobs (setState jobs id state) := by
  intro other before was
  by_cases same : other = id
  · subst same
    obtain rfl := Option.some.inj (was.symm.trans found)
    refine ⟨_, lookup_setState_self found state, rfl, rfl, fun pending => ?_, fun running => ?_⟩
    · cases state <;> simp_all
    · cases state <;> simp_all
  · rw [lookup_setState_ne same]
    exact Moves.refl other before was

/-- A drain begins by returning what runs. -/
theorem startDrain_sound (jobs : Table Nat JobRow) (options : DrainOptions) :
    DrainSound jobs (startDrain jobs options) := by
  have ids : (startDrain jobs options).writes.map Prod.fst = runningIds jobs := by
    simp [startDrain, Function.comp_def]
  have listed : ∀ id, id ∈ runningIds jobs ↔
      ∃ row, jobs.lookup id = some row ∧ row.state = .running := by
    intro id
    simp only [runningIds, List.mem_map, List.mem_filter, decide_eq_true_eq]
    constructor
    · rintro ⟨row, ⟨stored, running⟩, rfl⟩
      exact ⟨row.2, lookup_of_mem stored, running⟩
    · rintro ⟨row, found, running⟩
      exact ⟨⟨id, row⟩, ⟨mem_of_lookup found, running⟩, rfl⟩
  refine ⟨?_, ?_, ?_, nofun, ?_, List.nodup_nil, List.nodup_nil⟩
  · rw [ids]
    exact (List.filter_sublist.map _).nodup jobs.nodupKeys
  · intro write member
    obtain ⟨id, running, rfl⟩ := List.mem_map.mp member
    obtain ⟨row, found, state⟩ := (listed id).mp running
    exact ⟨row, found, .inr state, by simp, nofun⟩
  · intro write member
    obtain ⟨id, -, rfl⟩ := List.mem_map.mp member
    simp [startDrain, Drain.tasks]
  · intro id row found running
    rw [ids]
    exact .inr ((listed id).mpr ⟨row, found, running⟩)

/-- Every write leaves the drain sound. -/
theorem DrainSound.write (sound : DrainSound jobs drain) {state : JobState}
    {rest : List (Nat × JobState)} (next : drain.writes = (id, state) :: rest) :
    DrainSound (setState jobs id state) { drain with writes := rest } := by
  obtain ⟨row, found, open_, -, -⟩ := sound.writable (id, state) (by simp [next])
  have distinct := sound.distinct
  rw [next, List.map_cons, List.nodup_cons] at distinct
  have apart : ∀ write ∈ rest, write.1 ≠ id := by
    intro write listed same
    exact distinct.1 (List.mem_map.mpr ⟨write, listed, same⟩)
  have starts := sound.starts (id, state) (by simp [next])
  refine ⟨distinct.2, ?_, ?_, ?_, ?_, sound.selected, sound.tasksDistinct⟩
  · intro write listed
    rw [lookup_setState_ne (apart write listed)]
    exact sound.writable write (by simp [next, listed])
  · intro write listed
    exact sound.starts write (by simp [next, listed])
  · intro task listed
    by_cases same : task = id
    · subst same
      exact .inl ⟨_, lookup_setState_self found state, starts.mp listed⟩
    · rw [lookup_setState_ne same]
      have before := sound.tasks task listed
      rw [next, List.map_cons, List.mem_cons] at before
      exact before.imp_right fun member => member.resolve_left same
  · intro other after was running
    by_cases same : other = id
    · subst same
      rw [lookup_setState_self found] at was
      obtain rfl := Option.some.inj was
      exact .inl (starts.mpr running)
    · rw [lookup_setState_ne same] at was
      have before := sound.running other after was running
      rw [next, List.map_cons, List.mem_cons] at before
      exact before.imp_right fun member => member.resolve_left same

theorem pendingRows_distinct (jobs : Table Nat JobRow) :
    ((pendingRows jobs).map QueueRow.id).Nodup := by
  rw [pendingRows, List.map_map]
  refine (((List.perm_insertionSort _ _).map Sigma.fst).nodup_iff).mpr ?_
  exact (List.filter_sublist.map _).nodup jobs.nodupKeys

theorem selectRows_distinct (codec : ParamsCodec) (jobs : Table Nat JobRow)
    (options : DrainOptions) : ((selectRows codec jobs options).map QueueRow.id).Nodup := by
  refine List.Nodup.sublist (List.Sublist.map _ ?_) (pendingRows_distinct jobs)
  have kept : ∀ (rows : List QueueRow) (keep : QueueRow → Bool), (rows.filter keep).Sublist rows :=
    fun _ _ => List.filter_sublist
  unfold selectRows
  dsimp only
  split <;> split <;> split
  · exact kept _ _
  · exact (kept _ _).trans (kept _ _)
  · exact (kept _ _).trans (kept _ _)
  · exact ((kept _ _).trans (kept _ _)).trans (kept _ _)
  · exact .refl _
  · exact kept _ _
  · exact kept _ _
  · exact (kept _ _).trans (kept _ _)

/-- The selected rows that the head of the loop starts or refuses. -/
def reached (view : HeadView) (drain : Drain) : List QueueRow :=
  match drain.selected with
  | [] => []
  | row :: _ =>
    if view.budgetS < view.elapsed ∨ guardTripped view.load5 view.freeGb then []
    else if 1 < drainWidth drain.options ∧ isParallelSafe row.kind then
      drain.selected.takeWhile fun row => isParallelSafe row.kind
    else if oversized row = false ∧ diskRefuses view row then []
    else [row]

/-- A drain without writes that does not run anything. -/
structure Resting (drain : Drain) : Prop where
  writes : drain.writes = []
  tasks : drain.tasks = []

theorem DrainSound.none_running (sound : DrainSound jobs drain) (resting : Resting drain)
    {row : JobRow} (found : jobs.lookup id = some row) : row.state ≠ .running := by
  intro running
  have known := sound.running id row found running
  rw [resting.tasks, resting.writes] at known
  simp at known

theorem sound_of_pending {next : Drain}
    (unrun : ∀ id row, jobs.lookup id = some row → row.state ≠ .running)
    (distinct : (next.writes.map Prod.fst).Nodup)
    (pending : ∀ write ∈ next.writes, ∃ row, jobs.lookup write.1 = some row ∧
      row.state = .pending)
    (ways : ∀ write ∈ next.writes, write.2 = .running ∨ write.2 = .failed)
    (starts : ∀ write ∈ next.writes, write.1 ∈ next.tasks ↔ write.2 = .running)
    (tasks : ∀ id ∈ next.tasks, id ∈ next.writes.map Prod.fst)
    (selected : (next.selected.map QueueRow.id).Nodup) (tasksDistinct : next.tasks.Nodup) :
    DrainSound jobs next := by
  refine ⟨distinct, ?_, starts, fun id listed => .inr (tasks id listed), ?_, selected,
    tasksDistinct⟩
  · intro write listed
    obtain ⟨row, found, state⟩ := pending write listed
    refine ⟨row, found, .inl state, ?_, ?_⟩
    · rcases ways write listed with way | way <;> simp [way]
    · rcases ways write listed with way | way <;> simp [way]
  · intro id row found running
    exact absurd running (unrun id row found)

theorem sound_of_resting {next : Drain}
    (unrun : ∀ id row, jobs.lookup id = some row → row.state ≠ .running) (resting : Resting next)
    (selected : (next.selected.map QueueRow.id).Nodup) : DrainSound jobs next := by
  refine sound_of_pending unrun ?_ ?_ ?_ ?_ ?_ selected ?_
  · simp [resting.writes]
  · simp [resting.writes]
  · simp [resting.writes]
  · simp [resting.writes]
  · simp [resting.tasks]
  · simp [resting.tasks]

/-- What a pool takes: its rows become running, and one that would exceed the whole budget
is refused. -/
theorem assemblePool_sound (sound : DrainSound jobs drain) (resting : Resting drain)
    (pending : ∀ row ∈ drain.selected.takeWhile fun row => isParallelSafe row.kind,
      ∃ stored, jobs.lookup row.id = some stored ∧ stored.state = .pending) :
    DrainSound jobs (assemblePool drain) := by
  have unrun : ∀ id row, jobs.lookup id = some row → row.state ≠ .running :=
    fun id row found => sound.none_running resting found
  have split := List.takeWhile_append_dropWhile (p := fun row : QueueRow => isParallelSafe row.kind)
    (l := drain.selected)
  have selected := sound.selected
  rw [← split, List.map_append, List.nodup_append] at selected
  obtain ⟨runDistinct, laterDistinct, -⟩ := selected
  unfold assemblePool
  dsimp only
  generalize (drain.selected.takeWhile fun row => isParallelSafe row.kind) = run at *
  generalize (drain.selected.dropWhile fun row => isParallelSafe row.kind) = later at *
  obtain ⟨refused, refuses, listed, single⟩ : ∃ refused,
      ((run.find? oversized).map fun row => (row.id, JobState.failed)).toList = refused ∧
      (∀ write ∈ refused, write.2 = .failed ∧ ∃ row ∈ run, row.id = write.1) ∧
      (refused.map Prod.fst).Nodup := by
    refine ⟨_, rfl, ?_, ?_⟩
    · intro write member
      simp only [Option.mem_toList, Option.map_eq_some_iff] at member
      obtain ⟨row, found, rfl⟩ := member
      exact ⟨rfl, row, List.mem_of_find?_eq_some found, rfl⟩
    · cases run.find? oversized <;> simp
  rw [refuses]
  split
  · have idle : ({ drain with selected := later, writes := refused } : Drain).tasks = [] :=
      resting.tasks
    refine sound_of_pending unrun single ?_ ?_ ?_ ?_ laterDistinct ?_
    · intro write member
      obtain ⟨-, row, inside, same⟩ := listed write member
      rw [← same]
      exact pending row inside
    · exact fun write member => .inr (listed write member).1
    · intro write member
      rw [idle, (listed write member).1]
      simp
    · rw [idle]
      exact nofun
    · rw [idle]
      exact List.nodup_nil
  · have keptIds : ∀ id, id ∈ (run.filter fun row => row.id ∉ refused.map Prod.fst).map QueueRow.id →
        id ∉ refused.map Prod.fst ∧ ∃ row ∈ run, row.id = id := by
      intro id member
      obtain ⟨row, kept, rfl⟩ := List.mem_map.mp member
      obtain ⟨inside, apart⟩ := List.mem_filter.mp kept
      exact ⟨of_decide_eq_true apart, row, inside, rfl⟩
    have keptDistinct : ((run.filter fun row => row.id ∉ refused.map Prod.fst).map
        QueueRow.id).Nodup := (List.filter_sublist.map _).nodup runDistinct
    generalize (run.filter fun row => row.id ∉ refused.map Prod.fst) = kept at *
    have ids : (refused ++ kept.map fun row => (row.id, JobState.running)).map Prod.fst =
        refused.map Prod.fst ++ kept.map QueueRow.id := by
      simp [Function.comp_def]
    refine sound_of_pending unrun ?_ ?_ ?_ ?_ ?_ laterDistinct keptDistinct
    · dsimp only
      rw [ids, List.nodup_append]
      refine ⟨single, keptDistinct, ?_⟩
      rintro first inside second also rfl
      exact (keptIds _ also).1 inside
    · intro write member
      rcases List.mem_append.mp member with refusal | start
      · obtain ⟨-, row, inside, same⟩ := listed write refusal
        rw [← same]
        exact pending row inside
      · obtain ⟨row, inside, rfl⟩ := List.mem_map.mp start
        obtain ⟨-, other, also, same⟩ := keptIds row.id (List.mem_map_of_mem inside)
        rw [← same]
        exact pending other also
    · intro write member
      rcases List.mem_append.mp member with refusal | start
      · exact .inr (listed write refusal).1
      · obtain ⟨row, -, rfl⟩ := List.mem_map.mp start
        exact .inl rfl
    · intro write member
      rcases List.mem_append.mp member with refusal | start
      · rw [(listed write refusal).1]
        constructor
        · intro task
          exact absurd (List.mem_map_of_mem refusal) (keptIds write.1 task).1
        · intro impossible
          cases impossible
      · obtain ⟨row, inside, rfl⟩ := List.mem_map.mp start
        exact ⟨fun _ => rfl, fun _ => List.mem_map_of_mem inside⟩
    · intro id task
      dsimp only
      rw [ids]
      exact List.mem_append_right _ task

/-- One row that is refused, or started. -/
theorem dispatch_sound (codec : ParamsCodec) {view : HeadView} {row : QueueRow}
    {rest : List QueueRow} (sound : DrainSound jobs drain) (resting : Resting drain)
    (next : drain.selected = row :: rest)
    (pending : ¬ (oversized row = false ∧ diskRefuses view row) →
      ∃ stored, jobs.lookup row.id = some stored ∧ stored.state = .pending) :
    DrainSound jobs (dispatch codec view drain row rest) := by
  have unrun : ∀ id row, jobs.lookup id = some row → row.state ≠ .running :=
    fun id row found => sound.none_running resting found
  have laterDistinct : (rest.map QueueRow.id).Nodup := by
    have selected := sound.selected
    rw [next, List.map_cons] at selected
    exact selected.of_cons
  have left (selected : List QueueRow) (writes : List (Nat × JobState)) :
      ({ drain with selected, writes } : Drain).tasks = [] := resting.tasks
  have failed (reaches : ¬ (oversized row = false ∧ diskRefuses view row)) :
      DrainSound jobs { drain with selected := rest, writes := [(row.id, .failed)] } := by
    refine sound_of_pending unrun (by simp) ?_ (by simp) ?_ ?_ laterDistinct ?_
    · simpa using pending reaches
    · rw [left]
      simp
    · rw [left]
      exact nofun
    · rw [left]
      exact List.nodup_nil
  unfold dispatch
  dsimp only
  split
  · rename_i exceeds
    exact failed (by simp [exceeds])
  rename_i fits
  split
  · exact sound_of_resting unrun ⟨resting.writes, resting.tasks⟩ laterDistinct
  rename_i accepted
  have reaches : ¬ (oversized row = false ∧ diskRefuses view row) := fun ⟨_, refuses⟩ =>
    accepted refuses
  split
  · exact failed reaches
  rename_i type _
  split
  · exact failed reaches
  · have task : (⟨drain.options, rest, [(row.id, .running)],
        if type.releasesWriter then .releasing row else .working row⟩ : Drain).tasks = [row.id] := by
      unfold Drain.tasks
      cases type.releasesWriter <;> rfl
    refine sound_of_pending unrun (by simp) ?_ (by simp) ?_ ?_ laterDistinct ?_
    · simpa using pending reaches
    · rw [task]
      simp
    · rw [task]
      simp
    · rw [task]
      exact List.nodup_singleton _

/-- The head of the loop, where every row that it starts or refuses is pending. -/
theorem chooseNext_sound (codec : ParamsCodec) {view : HeadView} (sound : DrainSound jobs drain)
    (resting : Resting drain) (pending : ∀ row ∈ reached view drain,
      ∃ stored, jobs.lookup row.id = some stored ∧ stored.state = .pending) :
    DrainSound jobs (chooseNext codec view drain) := by
  have closes : DrainSound jobs { drain with phase := .closing } :=
    sound_of_resting (fun id row found => sound.none_running resting found) ⟨resting.writes, rfl⟩
      sound.selected
  unfold reached at pending
  unfold chooseNext
  split
  · exact closes
  rename_i row rest next
  rw [next] at pending
  dsimp only at pending
  split
  · exact closes
  rename_i goesOn
  rw [if_neg goesOn] at pending
  split
  · rename_i pooled
    rw [if_pos pooled, ← next] at pending
    exact assemblePool_sound sound resting pending
  · rename_i alone
    rw [if_neg alone] at pending
    refine dispatch_sound codec sound resting next fun reaches => ?_
    rw [if_neg reaches] at pending
    exact pending row (List.mem_singleton.mpr rfl)

/-- What is recorded for the rows that a drain has run. -/
theorem recorded_sound (rows : List QueueRow) (outcome : QueueRow → JobState) {phase : Phase}
    (sound : DrainSound jobs drain) (written : drain.writes = [])
    (ran : drain.tasks = rows.map QueueRow.id)
    (ends : ∀ row, outcome row ∈ [JobState.pending, .done, .failed])
    (rests : phase = .choosing ∨ phase = .closing) :
    DrainSound jobs { drain with writes := rows.map fun row => (row.id, outcome row), phase } := by
  have ids : (rows.map fun row => (row.id, outcome row)).map Prod.fst = rows.map QueueRow.id := by
    simp [Function.comp_def]
  have idle : ({ drain with writes := rows.map fun row => (row.id, outcome row), phase } :
      Drain).tasks = [] := by
    rcases rests with rfl | rfl <;> rfl
  have running : ∀ id ∈ rows.map QueueRow.id, ∃ row, jobs.lookup id = some row ∧
      row.state = .running := by
    intro id task
    rw [← ran] at task
    refine (sound.tasks id task).resolve_right ?_
    rw [written]
    exact List.not_mem_nil
  refine ⟨?_, ?_, ?_, ?_, ?_, sound.selected, ?_⟩
  · dsimp only
    rw [ids, ← ran]
    exact sound.tasksDistinct
  · intro write listed
    obtain ⟨row, inside, rfl⟩ := List.mem_map.mp listed
    obtain ⟨stored, found, state⟩ := running row.id (List.mem_map_of_mem inside)
    refine ⟨stored, found, .inr state, ?_, fun _ => state⟩
    have end_ := ends row
    simp only [List.mem_cons, List.not_mem_nil, or_false] at end_ ⊢
    tauto
  · intro write listed
    obtain ⟨row, -, rfl⟩ := List.mem_map.mp listed
    rw [idle]
    have end_ := ends row
    constructor
    · exact nofun
    · intro runs
      dsimp only at runs
      rw [runs] at end_
      simp at end_
  · rw [idle]
    exact nofun
  · intro id row found state
    dsimp only
    rw [ids, ← ran]
    have known := sound.running id row found state
    rw [written] at known
    exact .inr (known.resolve_right List.not_mem_nil)
  · rw [idle]
    exact List.nodup_nil

/-- What a step of a drain leaves. -/
structure Stepped (codec : ParamsCodec) (before : Table Nat JobRow)
    (result : Table Nat JobRow × Option Drain) : Prop where
  unique : UniqueWork codec result.1
  moves : Moves before result.1
  drain : ∀ next ∈ result.2, DrainSound result.1 next

/-- A step that writes nothing. -/
theorem stepped_of_unwritten {next : Option Drain} (unique : UniqueWork codec jobs)
    (sound : ∀ drain ∈ next, DrainSound jobs drain) : Stepped codec jobs (jobs, next) :=
  ⟨unique, .refl, sound⟩

theorem recordedState_ends (result : Option ChildResult) :
    recordedState result ∈ [JobState.pending, .done, .failed] := by
  unfold recordedState
  split <;> simp

/-- Every step of a drain keeps it sound, as long as what it comes to is still pending. -/
theorem drainStep_stepped (sound : DrainSound jobs drain) (unique : UniqueWork codec jobs)
    (action : QueueAction)
    (pending : ∀ view, action = .choose view → drain.writes = [] → drain.phase = .choosing →
      ∀ row ∈ reached view drain, ∃ stored, jobs.lookup row.id = some stored ∧
        stored.state = .pending) :
    Stepped codec jobs (drainStep codec jobs drain action) := by
  have stays : Stepped codec jobs (jobs, some drain) :=
    stepped_of_unwritten unique fun _ same => by
      obtain rfl := Option.some.inj same
      exact sound
  have becomes : ∀ next, DrainSound jobs next → Stepped codec jobs (jobs, some next) := by
    intro next nextSound
    refine stepped_of_unwritten unique fun _ same => ?_
    obtain rfl := Option.some.inj same
    exact nextSound
  cases action with
  | enqueue => exact stays
  | start => exact stays
  | die => exact stepped_of_unwritten unique nofun
  | close =>
    simp only [drainStep]
    split
    · exact stepped_of_unwritten unique nofun
    · exact stays
  | write =>
    simp only [drainStep]
    split
    · exact stays
    · rename_i id state rest next
      obtain ⟨row, found, open_, allowed, done⟩ := sound.writable (id, state) (by simp [next])
      refine ⟨unique.kept (setState_openKept found open_ state), setState_moves found allowed done,
        ?_⟩
      intro _ same
      obtain rfl := Option.some.inj same
      exact sound.write next
  | select =>
    simp only [drainStep]
    split
    · rename_i swept
      have resting : Resting drain := ⟨swept.1, by rw [Drain.tasks, swept.2]⟩
      refine becomes _ (sound_of_resting (fun id row found => sound.none_running resting found)
        ⟨swept.1, rfl⟩ (selectRows_distinct codec jobs drain.options))
    · exact stays
  | choose view =>
    simp only [drainStep]
    split
    · rename_i atHead
      have resting : Resting drain := ⟨atHead.1, by rw [Drain.tasks, atHead.2]⟩
      exact becomes _ (chooseNext_sound codec sound resting (pending view rfl atHead.1 atHead.2))
    · exact stays
  | poolEnded results stopped =>
    simp only [drainStep]
    split
    · rename_i rows written pooling
      refine becomes _ (recorded_sound rows _ sound written (by rw [Drain.tasks, pooling])
        (fun row => recordedState_ends (results row.id)) ?_)
      cases stopped
      · exact .inl rfl
      · exact .inr rfl
    · exact stays
  | childEnded result =>
    simp only [drainStep]
    split
    · rename_i row written releasing
      exact becomes _ (recorded_sound [row] (fun _ => recordedState (some result)) sound written
        (by rw [Drain.tasks, releasing]; rfl) (fun _ => recordedState_ends (some result)) (.inl rfl))
    · exact stays
  | workEnded succeeds =>
    simp only [drainStep]
    split
    · rename_i row written working
      refine becomes _ (recorded_sound [row] (fun _ => if succeeds then .done else .failed) sound
        written (by rw [Drain.tasks, working]; rfl) (fun _ => ?_) (.inl rfl))
      cases succeeds <;> simp
    · exact stays

/-- While a drain has let go of the writer, a row may be enqueued. -/
theorem enqueue_sound (sound : DrainSound jobs drain) (released : drain.released = true)
    (call : EnqueueCall) : DrainSound (cmdEnqueue codec jobs call).2 drain := by
  have written : drain.writes = [] := by
    unfold Drain.released at released
    split at released
    · assumption
    · assumption
    · cases released
  refine ⟨sound.distinct, ?_, sound.starts, ?_, ?_, sound.selected, sound.tasksDistinct⟩
  · rw [written]
    exact nofun
  · intro id task
    rcases sound.tasks id task with ⟨row, found, state⟩ | listed
    · exact .inl ⟨row, (cmdEnqueue_running codec jobs call id row state).mpr found, state⟩
    · exact .inr listed
  · intro id row found state
    exact sound.running id row ((cmdEnqueue_running codec jobs call id row state).mp found) state

end Drains

section Histories

variable {codec : ParamsCodec} {world : QueueWorld}

/-- Every row that a drain comes to, to start or refuse it, is still pending. -/
def StillPending (world : QueueWorld) (action : QueueAction) : Prop :=
  match action, world.drain with
  | .choose view, some drain => drain.writes = [] → drain.phase = .choosing →
      ∀ row ∈ reached view drain, (world.jobs.lookup row.id).any fun stored =>
        stored.state = .pending
  | _, _ => True

instance (world : QueueWorld) : ∀ action, Decidable (StillPending world action)
  | .choose view =>
    match h : world.drain with
    | some drain => decidable_of_iff (drain.writes = [] → drain.phase = .choosing →
        ∀ row ∈ reached view drain, (world.jobs.lookup row.id).any fun stored =>
          stored.state = .pending) (by simp [StillPending, h])
    | none => isTrue (by simp [StillPending, h])
  | .enqueue _ | .start _ | .write | .select | .poolEnded _ _ | .childEnded _ | .workEnded _
  | .close | .die => inferInstanceAs (Decidable True)

/-- A running row is a task of the drain under way, or the drain is about to return it to
pending or to record how it ended. -/
def Supervised (world : QueueWorld) : Prop :=
  ∀ drain ∈ world.drain, ∀ id row, world.jobs.lookup id = some row → row.state = .running →
    id ∈ drain.tasks ∨ ∃ state ∈ [JobState.pending, .done, .failed], (id, state) ∈ drain.writes

/-- Open work is unique, and the drain under way is sound. -/
structure QueueSound (codec : ParamsCodec) (world : QueueWorld) : Prop where
  unique : UniqueWork codec world.jobs
  drain : ∀ drain ∈ world.drain, DrainSound world.jobs drain

theorem QueueSound.supervised (sound : QueueSound codec world) : Supervised world := by
  intro drain current id row found state
  have drainSound := sound.drain drain current
  refine or_iff_not_imp_left.mpr fun untasked => ?_
  obtain ⟨write, listed, rfl⟩ := List.mem_map.mp
    ((drainSound.running id row found state).resolve_left untasked)
  refine ⟨write.2, ?_, listed⟩
  obtain ⟨-, -, -, allowed, -⟩ := drainSound.writable write listed
  have unstarted := (drainSound.starts write listed).not.mp untasked
  simp only [List.mem_cons, List.not_mem_nil, or_false] at allowed ⊢
  tauto

/-- What happens to the queue keeps it sound and moves rows only where they may. -/
theorem takeAction_sound (sound : QueueSound codec world) (action : QueueAction)
    (pending : StillPending world action) :
    QueueSound codec (takeAction codec world action) ∧
      Moves world.jobs (takeAction codec world action).jobs := by
  obtain ⟨jobs, drain⟩ := world
  have stays : QueueSound codec ⟨jobs, drain⟩ ∧ Moves jobs jobs := ⟨sound, .refl⟩
  cases drain with
  | none =>
    cases action with
    | enqueue call =>
      exact ⟨⟨cmdEnqueue_unique sound.unique call, nofun⟩, cmdEnqueue_moves codec jobs call⟩
    | start options =>
      refine ⟨⟨sound.unique, fun drain same => ?_⟩, .refl⟩
      obtain rfl := Option.some.inj same
      exact startDrain_sound jobs options
    | write => exact stays
    | select => exact stays
    | choose => exact stays
    | poolEnded => exact stays
    | childEnded => exact stays
    | workEnded => exact stays
    | close => exact stays
    | die => exact stays
  | some drain =>
    have drainSound : DrainSound jobs drain := sound.drain drain rfl
    have steps : Stepped codec jobs (drainStep codec jobs drain action) := by
      refine drainStep_stepped drainSound sound.unique action ?_
      rintro view rfl written atHead row listed
      have found := pending written atHead row listed
      simpa [Option.any_eq_true] using found
    cases action with
    | enqueue call =>
      simp only [takeAction]
      split
      · rename_i released
        refine ⟨⟨cmdEnqueue_unique sound.unique call, fun other same => ?_⟩,
          cmdEnqueue_moves codec jobs call⟩
        obtain rfl := Option.some.inj same
        exact enqueue_sound drainSound released call
      · exact stays
    | start => exact ⟨⟨steps.unique, steps.drain⟩, steps.moves⟩
    | write => exact ⟨⟨steps.unique, steps.drain⟩, steps.moves⟩
    | select => exact ⟨⟨steps.unique, steps.drain⟩, steps.moves⟩
    | choose => exact ⟨⟨steps.unique, steps.drain⟩, steps.moves⟩
    | poolEnded => exact ⟨⟨steps.unique, steps.drain⟩, steps.moves⟩
    | childEnded => exact ⟨⟨steps.unique, steps.drain⟩, steps.moves⟩
    | workEnded => exact ⟨⟨steps.unique, steps.drain⟩, steps.moves⟩
    | close => exact ⟨⟨steps.unique, steps.drain⟩, steps.moves⟩
    | die => exact ⟨⟨steps.unique, steps.drain⟩, steps.moves⟩

theorem cmdEnqueue_dry {jobs : Table Nat JobRow} {call : EnqueueCall} (dry : call.dryRun = true) :
    (cmdEnqueue codec jobs call).2 = jobs := by
  rcases cmdEnqueue_cases codec jobs call with same | ⟨wet, -⟩
  · exact same
  · rw [dry] at wet
    cases wet

/-- Open work is unique wherever a history comes, running rows are supervised, rows leave
pending only for running, superseded or failed, and running only for pending, done or
failed, and dry runs change nothing. -/
def QueueDisciplined (codec : ParamsCodec) (actions : List QueueAction) : Prop :=
  (∀ world ∈ states (takeAction codec) .empty actions,
    UniqueWork codec world.jobs ∧ Supervised world ∧ ∀ call : EnqueueCall, call.dryRun = true →
      takeAction codec world (.enqueue call) = world) ∧
  Admissible (takeAction codec)
    (fun world action => Moves world.jobs (takeAction codec world action).jobs) .empty actions

/-- In every history of enqueues, drains and deaths of drains, in which every row is still
pending when a drain comes to it, the queue is disciplined. -/
theorem queueWork_disciplined (codec : ParamsCodec) (actions : List QueueAction)
    (pending : Admissible (takeAction codec) StillPending .empty actions) :
    QueueDisciplined codec actions := by
  have initially : QueueSound codec .empty := by
    refine ⟨?_, nofun⟩
    intro id other row twin found
    cases found
  have sound : ∀ world ∈ states (takeAction codec) .empty actions, QueueSound codec world := by
    apply invariant_of_steps _ initially pending
    intro world action holds allowed
    exact (takeAction_sound holds action allowed).1
  refine ⟨fun world reached => ⟨(sound world reached).unique, (sound world reached).supervised, ?_⟩,
    ?_⟩
  · intro call dry
    obtain ⟨jobs, drain⟩ := world
    cases drain with
    | none => simp only [takeAction, cmdEnqueue_dry dry]
    | some drain =>
      simp only [takeAction, cmdEnqueue_dry dry]
      split <;> rfl
  · refine admissible_of_invariant (QueueSound codec) ?_ ?_ initially pending
    · intro world action holds allowed
      exact (takeAction_sound holds action allowed).1
    · intro world action holds allowed
      exact (takeAction_sound holds action allowed).2

/-- Parameters whose text is canonical. -/
def compactCodec : ParamsCodec := ⟨some, fun _ => true⟩

def enqueueOf (kind params : String) (priority : Int) : QueueAction :=
  .enqueue ⟨kind, params, priority, none, none, false, false, 0⟩

def calmHead : QueueAction := .choose ⟨0, 14400, 6, 40, 30, 200⟩

/-- A drain that runs the signals job and then the first pull of intraday bars. -/
def drainToIntraday (meanwhile : List QueueAction) : List QueueAction :=
  [enqueueOf "signals" "\x7b\x7d" 50, enqueueOf "intraday" "\x7b\"top\":500\x7d" 100,
    .start ⟨1, none, [], none, false⟩, .select, calmHead, .write] ++ meanwhile ++
    [.childEnded (.exited 0), .write, calmHead, .write]

theorem undisturbedDrain_disciplined :
    QueueDisciplined compactCodec (drainToIntraday [enqueueOf "signals" "\x7b\x7d" 50]) :=
  queueWork_disciplined compactCodec (drainToIntraday [enqueueOf "signals" "\x7b\x7d" 50])
    (by decide +kernel)

/-- While the signals job runs, another pull supersedes the first one and is superseded by
an equivalent of it. The drain then runs the first one, and its equivalent is pending. -/
theorem supersededRow_runs : ¬ ∀ codec actions, QueueDisciplined codec actions := by
  intro disciplined
  have unique := ((disciplined compactCodec (drainToIntraday
    [enqueueOf "intraday" "\x7b\x7d" 100, enqueueOf "intraday" "\x7b\"top\":500\x7d" 100])).1 _
      (last_mem_states _ _ _)).1
  have first : (((drainToIntraday [enqueueOf "intraday" "\x7b\x7d" 100,
      enqueueOf "intraday" "\x7b\"top\":500\x7d" 100]).foldl (takeAction compactCodec)
        .empty).jobs.lookup 2) = some ⟨"intraday", "\x7b\"top\":500\x7d", .running, some 4000, none,
          100, 0⟩ := by
    decide +kernel
  have second : (((drainToIntraday [enqueueOf "intraday" "\x7b\x7d" 100,
      enqueueOf "intraday" "\x7b\"top\":500\x7d" 100]).foldl (takeAction compactCodec)
        .empty).jobs.lookup 4) = some ⟨"intraday", "\x7b\"top\":500\x7d", .pending, some 4000, none,
          100, 0⟩ := by
    decide +kernel
  have same := unique 2 4 _ _ first second (by decide) (by decide) rfl (by decide)
  cases same

end Histories

end TradingEngine.Queue
