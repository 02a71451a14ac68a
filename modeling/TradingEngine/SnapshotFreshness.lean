import TradingEngine.PriceTables
import TradingEngine.PublishedSnapshots

/-!
# Snapshots that are newer than the store

A commit is appended to the write-ahead file and reaches the database file at a checkpoint,
which changes its modification time. A publication copies both. A snapshot is taken to be
newer than the store when it was made after the last modification of the database file, so
what the database file holds is in it; a commit in the write-ahead file need not be.

Publications may raise or be killed at every step. The clock does not go back.
-/

namespace TradingEngine.Snapshots

open KeyedTables FaultingPrograms FaultingPrograms.Program Runs

variable {Content : Type}

section Certificates

variable (certificate : Instant → Content → Prop)

/-- The file of a snapshot with information has certified data. -/
def CertifiedAt (disk : Disk Content) (name : SnapshotName) : Prop :=
  ∀ info, snapshotInfo disk name = some info →
    ∃ content size, fileOf disk (.snapshot name) = some (.data content size) ∧
      certificate info.asOf content

def Certified (disk : Disk Content) : Prop := ∀ name, CertifiedAt certificate disk name

variable {certificate} {disk : Disk Content} {destination : SnapshotName} {call : Call Content}

theorem CertifiedAt.congr {other : Disk Content} {name : SnapshotName}
    (certified : CertifiedAt certificate disk name)
    (file : other.lookup (.snapshot name) = disk.lookup (.snapshot name))
    (manifest : other.lookup (.manifest name) = disk.lookup (.manifest name)) :
    CertifiedAt certificate other name := by
  intro info found
  rw [snapshotInfo_congr (fileOf_congr file) (fileOf_congr manifest)] at found
  rw [fileOf_congr file]
  exact certified info found

theorem certifiedAt_of_missing {name : SnapshotName}
    (missing : disk.lookup (.snapshot name) = none ∨ disk.lookup (.manifest name) = none) :
    CertifiedAt certificate disk name := by
  intro info found
  unfold snapshotInfo readManifest fileOf at found
  rcases missing with none | none
  · simp [none] at found
  · rw [none] at found
    split at found <;> simp_all

theorem CertifiedAt.erase {name : SnapshotName} (certified : CertifiedAt certificate disk name)
    (erased : Name) : CertifiedAt certificate (disk.erase erased) name := by
  by_cases file : Name.snapshot name = erased
  · apply certifiedAt_of_missing
    left
    rw [file, AList.lookup_erase]
  by_cases manifest : Name.manifest name = erased
  · apply certifiedAt_of_missing
    right
    rw [manifest, AList.lookup_erase]
  exact certified.congr (AList.lookup_erase_ne file) (AList.lookup_erase_ne manifest)

/-- What holds throughout a publication: other snapshots are certified, and the files of the
destination are missing or the publication's own. -/
structure Publishes (certificate : Instant → Content → Prop) (call : Call Content)
    (destination : SnapshotName) (state : Publication Content) : Prop where
  others : ∀ name ≠ destination, CertifiedAt certificate state.disk name
  file : state.disk.lookup (.snapshot destination) = none ∨
    state.disk.lookup (.snapshot destination) = some (.file (.data call.copy call.size))
  manifest : state.disk.lookup (.manifest destination) = none ∨
    state.disk.lookup (.manifest destination) =
      some (.file (.json (call.manifest destination) call.manifestSize))

variable {state : Publication Content}

/-- The snapshots are certified whenever a publication stops. -/
theorem Publishes.certified (publishes : Publishes certificate call destination state)
    (own : certificate call.asOf call.copy) : Certified certificate state.disk := by
  intro name
  by_cases same : name = destination
  · subst same
    rcases publishes.file with none | file
    · exact certifiedAt_of_missing (.inl none)
    rcases publishes.manifest with none | manifest
    · exact certifiedAt_of_missing (.inr none)
    intro info found
    refine ⟨call.copy, call.size, by simp [fileOf, file], ?_⟩
    simp only [snapshotInfo, readManifest, fileOf, file, manifest, Call.manifest, if_true,
      Option.bind_some, Option.some.injEq] at found
    subst found
    exact own
  · exact publishes.others name same

/-- Neither the name of a snapshot nor of a manifest. -/
def Name.Apart (name : Name) : Prop := ∀ other, name ≠ .snapshot other ∧ name ≠ .manifest other

theorem Publishes.insert_apart (publishes : Publishes certificate call destination state)
    {name : Name} (apart : name.Apart) (entry : Entry Content) :
    Publishes certificate call destination { state with disk := state.disk.insert name entry } := by
  have kept (other : SnapshotName) :
      (state.disk.insert name entry).lookup (.snapshot other) =
        state.disk.lookup (.snapshot other) ∧
      (state.disk.insert name entry).lookup (.manifest other) =
        state.disk.lookup (.manifest other) :=
    ⟨AList.lookup_insert_ne (apart other).1.symm, AList.lookup_insert_ne (apart other).2.symm⟩
  refine ⟨?_, ?_, ?_⟩
  · intro other different
    exact (publishes.others other different).congr (kept other).1 (kept other).2
  · dsimp only
    rw [(kept destination).1]
    exact publishes.file
  · dsimp only
    rw [(kept destination).2]
    exact publishes.manifest

theorem Publishes.erase (publishes : Publishes certificate call destination state) (name : Name) :
    Publishes certificate call destination { state with disk := state.disk.erase name } := by
  refine ⟨?_, ?_, ?_⟩
  · intro other different
    exact (publishes.others other different).erase name
  · dsimp only
    by_cases same : Name.snapshot destination = name
    · left
      rw [same, AList.lookup_erase]
    · rw [AList.lookup_erase_ne same]
      exact publishes.file
  · dsimp only
    by_cases same : Name.manifest destination = name
    · left
      rw [same, AList.lookup_erase]
    · rw [AList.lookup_erase_ne same]
      exact publishes.manifest

theorem Publishes.insert_file (publishes : Publishes certificate call destination state) :
    Publishes certificate call destination { state with
      disk := state.disk.insert (.snapshot destination) (.file (.data call.copy call.size)) } := by
  refine ⟨?_, .inr (AList.lookup_insert _), ?_⟩
  · intro other different
    exact (publishes.others other different).congr
      (AList.lookup_insert_ne fun same => different (Name.snapshot.inj same))
      (AList.lookup_insert_ne (by nofun))
  · dsimp only
    rw [AList.lookup_insert_ne (by nofun)]
    exact publishes.manifest

theorem Publishes.insert_manifest (publishes : Publishes certificate call destination state) :
    Publishes certificate call destination { state with
      disk := state.disk.insert (.manifest destination)
        (.file (.json (call.manifest destination) call.manifestSize)) } := by
  refine ⟨?_, ?_, .inr (AList.lookup_insert _)⟩
  · intro other different
    exact (publishes.others other different).congr (AList.lookup_insert_ne (by nofun))
      (AList.lookup_insert_ne fun same => different (Name.manifest.inj same))
  · dsimp only
    rw [AList.lookup_insert_ne (by nofun)]
    exact publishes.file

variable {faults : Step → Fault}

theorem write_publishes (certificate : Instant → Content → Prop) {label : Step} {name : Name}
    {file : File Content} (apart : name.Apart) :
    Satisfies faults (Publishes certificate call destination) (write label name file)
      (fun _ state => Publishes certificate call destination state ∧
        state.disk.lookup name = some (.file file))
      (Publishes certificate call destination) (Publishes certificate call destination) := by
  apply satisfies_perform
  · intro state publishes _ _
    exact ⟨publishes.insert_apart apart _, AList.lookup_insert _⟩
  · intro state publishes _
    exact publishes
  · intro state publishes _ _
    exact publishes.insert_apart apart _
  · intro state publishes
    exact publishes
  · intro state publishes _
    exact publishes.insert_apart apart _

theorem unlink_publishes {label : Step} {name : Name} :
    Satisfies faults (Publishes certificate call destination) (unlink label name)
      (fun _ => Publishes certificate call destination)
      (Publishes certificate call destination) (Publishes certificate call destination) :=
  satisfies_perform_of_kept fun _ publishes => publishes.erase _

theorem quiet_publishes {label : Step} {fails : Bool} :
    Satisfies faults (Publishes certificate call destination) (quiet label fails)
      (fun _ => Publishes certificate call destination)
      (Publishes certificate call destination) (Publishes certificate call destination) :=
  satisfies_perform_of_kept fun _ publishes => publishes

/-- A rename of a file that is there, over a name that may have it. -/
theorem replace_publishes {label : Step} {source target : Name} {entry : Entry Content}
    (inserts : ∀ state, Publishes certificate call destination state →
      Publishes certificate call destination
        { state with disk := state.disk.insert target entry }) :
    Satisfies faults
      (fun state => Publishes certificate call destination state ∧
        state.disk.lookup source = some entry) (replace label source target)
      (fun _ => Publishes certificate call destination)
      (Publishes certificate call destination) (Publishes certificate call destination) := by
  have moved (state : Publication Content)
      (publishes : Publishes certificate call destination state) :
      Publishes certificate call destination
        { state with disk := (state.disk.insert target entry).erase source } :=
    (inserts state publishes).erase source
  apply satisfies_perform
  · rintro state ⟨publishes, there⟩ _ _
    simp only [there]
    exact moved state publishes
  · rintro state ⟨publishes, -⟩ _
    exact publishes
  · rintro state ⟨publishes, there⟩ _ _
    simp only [there]
    exact moved state publishes
  · rintro state ⟨publishes, -⟩
    exact publishes
  · rintro state ⟨publishes, there⟩ _
    simp only [there]
    exact moved state publishes

theorem temporary_apart (kind : TemporaryKind) : (call.temporary kind).Apart :=
  fun _ => ⟨by nofun, by nofun⟩

theorem latest_apart : Name.latest.Apart := fun _ => ⟨by nofun, by nofun⟩

theorem prepareFiles_publishes :
    Satisfies faults (Publishes certificate call destination) (call.prepareFiles destination)
      (fun _ => Publishes certificate call destination)
      (Publishes certificate call destination) (Publishes certificate call destination) := by
  have copied : Satisfies faults (Publishes certificate call destination) call.copySource
      (fun _ state => Publishes certificate call destination state ∧
        state.disk.lookup (call.temporary .copy) = some (.file (.data call.copy call.size)))
      (Publishes certificate call destination) (Publishes certificate call destination) := by
    have still {label : Step} {fails : Bool} : Satisfies faults
        (fun state => Publishes certificate call destination state ∧
          state.disk.lookup (call.temporary .copy) = some (.file (.data call.copy call.size)))
        (quiet label fails)
        (fun _ state => Publishes certificate call destination state ∧
          state.disk.lookup (call.temporary .copy) = some (.file (.data call.copy call.size)))
        (Publishes certificate call destination) (Publishes certificate call destination) :=
      quiet_satisfies (fun _ kept => kept.1) fun _ kept => kept.1
    apply quiet_publishes.andThen
    apply ((write_publishes certificate (temporary_apart .copy)).weaken
      fun _ _ kept => kept.1).andThen
    apply (write_publishes certificate (temporary_apart .copy)).andThen
    exact still.andThen (still.andThen still)
  have filed : Satisfies faults (Publishes certificate call destination)
      (call.writeManifest destination) (fun _ => Publishes certificate call destination)
      (Publishes certificate call destination) (Publishes certificate call destination) := by
    apply ((write_publishes certificate (temporary_apart .manifest)).weaken
      fun _ _ kept => kept.1).andThen
    apply Satisfies.onRaise
    · apply (write_publishes certificate (temporary_apart .manifest)).andThen
      exact replace_publishes fun _ publishes => publishes.insert_manifest
    · exact unlink_publishes
  apply copied.andThen
  apply (replace_publishes fun _ publishes => publishes.insert_file).andThen
  exact filed.andThen quiet_publishes

theorem swapLatest_publishes :
    Satisfies faults (Publishes certificate call destination) (call.swapLatest destination)
      (fun _ => Publishes certificate call destination)
      (Publishes certificate call destination) (Publishes certificate call destination) := by
  have linked : Satisfies faults (Publishes certificate call destination)
      (symlink .symlinkLatest (call.temporary .latest) (.snapshot destination))
      (fun _ => Publishes certificate call destination)
      (Publishes certificate call destination) (Publishes certificate call destination) :=
    satisfies_perform_of_kept fun _ publishes =>
      publishes.insert_apart (temporary_apart .latest) _
  have renamed : Satisfies faults (Publishes certificate call destination)
      (replace .replaceLatest (call.temporary .latest) .latest)
      (fun _ => Publishes certificate call destination)
      (Publishes certificate call destination) (Publishes certificate call destination) := by
    apply satisfies_perform_of_kept
    intro state publishes
    split
    · exact publishes
    · exact (publishes.insert_apart latest_apart _).erase _
  apply Satisfies.ensure (linked.andThen (renamed.andThen quiet_publishes))
  · intro _
    exact unlink_publishes
  · exact unlink_publishes

theorem retainNewest_publishes :
    Satisfies faults (Publishes certificate call destination) retainNewest
      (fun _ => Publishes certificate call destination)
      (Publishes certificate call destination) (Publishes certificate call destination) := by
  have looks : Satisfies faults (Publishes certificate call destination)
      (read fun state : Publication Content =>
        (retentionPlan state.disk keepPreviousSnapshots).delete)
      (fun _ => Publishes certificate call destination)
      (Publishes certificate call destination) (Publishes certificate call destination) :=
    satisfies_read fun _ publishes => publishes
  apply quiet_publishes.andThen
  apply looks.bind
  intro deleted
  apply Satisfies.andThen
  · apply satisfies_forEach
    intro old _
    exact unlink_publishes.andThen unlink_publishes
  · exact quiet_publishes

theorem cleanUp_publishes :
    Satisfies faults (Publishes certificate call destination) (call.cleanUp destination)
      (fun _ => Publishes certificate call destination)
      (Publishes certificate call destination) (Publishes certificate call destination) := by
  have looks : Satisfies faults (Publishes certificate call destination)
      (read Publication.published) (fun _ => Publishes certificate call destination)
      (Publishes certificate call destination) (Publishes certificate call destination) :=
    satisfies_read fun _ publishes => publishes
  apply unlink_publishes.andThen
  apply looks.bind
  intro published
  cases published with
  | true => exact satisfies_return fun _ publishes => publishes
  | false => exact unlink_publishes.andThen unlink_publishes

theorem publishAs_publishes :
    Satisfies faults (Publishes certificate call destination) (call.publishAs destination)
      (fun _ => Publishes certificate call destination)
      (Publishes certificate call destination) (Publishes certificate call destination) := by
  have recorded : Satisfies faults (Publishes certificate call destination)
      (assign fun state => { state with published := true })
      (fun _ => Publishes certificate call destination)
      (Publishes certificate call destination) (Publishes certificate call destination) :=
    satisfies_assign fun _ publishes => ⟨publishes.others, publishes.file, publishes.manifest⟩
  unfold Call.publishAs
  refine Satisfies.ensure ?_ (fun _ => cleanUp_publishes) cleanUp_publishes
  apply prepareFiles_publishes.andThen
  apply swapLatest_publishes.andThen
  apply recorded.andThen
  apply retainNewest_publishes.andThen
  exact satisfies_return fun _ publishes => publishes

/-- Snapshots are certified after a call, however it ends, if its own copy is. -/
theorem step_certified {before : Disk Content} (certified : Certified certificate before)
    (own : certificate call.asOf call.copy) : Certified certificate (step before call) := by
  have kept (state : Publication Content) (same : state = ⟨before, false⟩) :
      Certified certificate state.disk := same ▸ certified
  have looks {α : Type} (look : Publication Content → α) :
      Satisfies call.faults (· = ⟨before, false⟩) (read look)
        (fun value state => value = look ⟨before, false⟩ ∧ state = ⟨before, false⟩)
        (fun state => Certified certificate state.disk)
        fun state => Certified certificate state.disk := by
    apply satisfies_read
    rintro _ rfl
    exact ⟨rfl, rfl⟩
  have publishing : Satisfies call.faults (· = ⟨before, false⟩) call.publishSnapshot
      (fun _ state => Certified certificate state.disk)
      (fun state => Certified certificate state.disk)
      fun state => Certified certificate state.disk := by
    apply (quiet_satisfies kept kept).andThen
    apply (looks _).bind
    rintro (_ | latest)
    · apply Satisfies.strengthen _ fun _ holds => holds.2
      apply (quiet_satisfies kept kept).andThen
      apply (looks _).bind
      intro name
      apply satisfies_of_start
      rintro _ ⟨rfl, rfl⟩
      have free := uniqueDestination_free before call.stamp
      have starts : Publishes certificate call (uniqueDestination before call.stamp)
          ⟨before, false⟩ := ⟨fun other _ => certified other, .inl free.1, .inl free.2⟩
      have ends (state : Publication Content)
          (publishes : Publishes certificate call (uniqueDestination before call.stamp) state) :
          Certified certificate state.disk := publishes.certified own
      apply publishAs_publishes.consequence _ (fun _ => ends) ends ends
      rintro _ rfl
      exact starts
    · exact satisfies_return fun state holds => kept state holds.2
  exact publishing.leaves rfl

end Certificates

/-- A commit is named by the turn at which it was made. -/
abbrev Commit := ℕ

/-- What a copy of the database has, and the turn at which it was taken. -/
structure DatabaseCopy where
  taken : ℕ
  commits : List Commit
  deriving DecidableEq

/-- The commits in the database file and in the write-ahead file, if there is one, and the
directory of the snapshots. The time of modification and the clock are in nanoseconds.
Copies are taken before they are published. -/
structure Database where
  main : List Commit
  wal : Option (List Commit)
  modified : Int
  clock : Int
  turn : ℕ
  copies : List (Instant × DatabaseCopy)
  snapshots : Disk DatabaseCopy

namespace Database

def fresh (now : Int) : Database := ⟨[], none, now, now, 0, [], ∅⟩

variable (database : Database)

def walCommits : List Commit := database.wal.getD []

def commits : List Commit := database.main ++ database.walCommits

/-- The publisher copies through the database when there is a write-ahead file, and the
database file alone when there is none. -/
def copySource : DatabaseCopy :=
  match database.wal with
  | some wal => ⟨database.turn, database.main ++ wal⟩
  | none => ⟨database.turn, database.main⟩

end Database

/-- What happens to a store. A crash may cut off a checkpoint that has written to the
database file already. -/
inductive Action where
  | commit
  | checkpoint
  | crash (checkpointing : Bool)
  | copy
  | publish (call : Call DatabaseCopy)

/-- A publication is of one of the copies that were taken. -/
def Action.Follows (copies : List (Instant × DatabaseCopy)) : Action → Prop
  | .publish call => (call.asOf, call.copy) ∈ copies
  | _ => True

instance (copies : List (Instant × DatabaseCopy)) :
    ∀ action : Action, Decidable (action.Follows copies)
  | .publish call => inferInstanceAs (Decidable ((call.asOf, call.copy) ∈ copies))
  | .commit => .isTrue trivial
  | .checkpoint => .isTrue trivial
  | .crash _ => .isTrue trivial
  | .copy => .isTrue trivial

structure Event where
  now : Int
  action : Action

namespace Database

/-- What one event makes of a store. -/
def apply (database : Database) (event : Event) : Database :=
  let next := { database with clock := event.now, turn := database.turn + 1 }
  match event.action with
  | .commit => { next with wal := some (database.walCommits ++ [database.turn]) }
  | .checkpoint =>
    { next with main := database.commits, wal := none, modified := event.now }
  | .crash true => { next with modified := event.now }
  | .crash false => next
  | .copy =>
    { next with copies := (event.now / 1000, database.copySource) :: database.copies }
  | .publish call => { next with snapshots := step database.snapshots call }

/-- The clock does not go back, and what is published was copied before. -/
def Allows (database : Database) (event : Event) : Prop :=
  database.clock ≤ event.now ∧ event.action.Follows database.copies

instance (database : Database) (event : Event) : Decidable (database.Allows event) :=
  inferInstanceAs (Decidable (_ ∧ _))

end Database

/-- The commits of a history that begins at a turn. -/
def commitsFrom : ℕ → List Event → List Commit
  | _, [] => []
  | turn, event :: rest =>
    match event.action with
    | .commit => turn :: commitsFrom (turn + 1) rest
    | _ => commitsFrom (turn + 1) rest

/-- A store holds every commit of its history. -/
theorem commits_foldl (events : List Event) (database : Database) :
    (events.foldl Database.apply database).commits =
      database.commits ++ commitsFrom database.turn events := by
  induction events generalizing database with
  | nil => simp [commitsFrom]
  | cons event rest ih =>
    rw [List.foldl_cons, ih]
    obtain ⟨now, action⟩ := event
    cases action with
    | commit => simp [Database.apply, Database.commits, Database.walCommits, commitsFrom]
    | checkpoint => simp [Database.apply, Database.commits, Database.walCommits, commitsFrom]
    | crash checkpointing => cases checkpointing <;> rfl
    | copy => rfl
    | publish call => rfl

/-- A time of modification, rounded to microseconds. -/
def fromTimestamp (nanoseconds : Int) : Instant :=
  PriceStore.roundHalfEven (nanoseconds / 1000 : ℚ)

/-- A whole microsecond is not after the rounded time of anything that came later. -/
theorem le_fromTimestamp {instant : Instant} {nanoseconds : Int}
    (before : instant * 1000 ≤ nanoseconds) : instant ≤ fromTimestamp nanoseconds := by
  have floor : instant ≤ ⌊(nanoseconds / 1000 : ℚ)⌋ := by
    rw [Int.le_floor, le_div_iff₀ (by norm_num)]
    exact_mod_cast before
  unfold fromTimestamp PriceStore.roundHalfEven
  split
  · exact floor
  · have above : instant ≤ ⌊(nanoseconds / 1000 : ℚ)⌋ + 1 := Int.le_add_one floor
    split
    · exact above
    · split
      · exact floor
      · exact above

/-- The latest snapshot, if it is newer than the last modification of the database file. -/
def newerThanDatabase (disk : Disk Content) (modified : Option Int) : Option SnapshotInfo :=
  (latestSnapshot disk).bind fun info =>
    match modified with
    | none => none
    | some modified => if info.asOf ≤ fromTimestamp modified then none else some info

/-- What a backup reads: a snapshot that is newer than the store, or else the store. -/
inductive BackupSource where
  | snapshot (path : SnapshotName)
  | database

def backupSource (disk : Disk Content) (modified : Option Int) : BackupSource :=
  match newerThanDatabase disk modified with
  | some latest => .snapshot latest.path
  | none => .database

/-- What a copy and its instant say of the store: the copy has the commits before it, and
if the database file has a later one, then it was modified after that instant. -/
structure Database.Certifies (database : Database) (asOf : Instant) (copy : DatabaseCopy) :
    Prop where
  past : copy.taken ≤ database.turn
  bounded : ∀ commit ∈ copy.commits, commit < copy.taken
  complete : ∀ commit ∈ database.commits, commit < copy.taken → commit ∈ copy.commits
  clock : asOf * 1000 ≤ database.clock
  modified : (∀ commit ∈ database.main, commit < copy.taken) ∨
    asOf ≤ fromTimestamp database.modified

/-- What holds of a store throughout its history. -/
structure Database.Sound (database : Database) : Prop where
  made : ∀ commit ∈ database.commits, commit < database.turn
  copies : ∀ pair ∈ database.copies, database.Certifies pair.1 pair.2
  snapshots : Certified database.Certifies database.snapshots

section Histories

variable {database next : Database} {asOf : Instant} {copy : DatabaseCopy} {event : Event}

/-- A store that has taken a turn holds no other commits but those of that turn, and a
database file that changed was modified just now. -/
structure Database.Turns (database next : Database) : Prop where
  turn : database.turn ≤ next.turn
  clock : database.clock ≤ next.clock
  commits : ∀ commit ∈ next.commits, commit ∈ database.commits ∨ database.turn ≤ commit
  main : next.main = database.main ∧ next.modified = database.modified ∨
    next.modified = next.clock

theorem Database.Certifies.turns (certifies : database.Certifies asOf copy)
    (turns : database.Turns next) : next.Certifies asOf copy := by
  have clock : asOf * 1000 ≤ next.clock := certifies.clock.trans turns.clock
  refine ⟨certifies.past.trans turns.turn, certifies.bounded, ?_, clock, ?_⟩
  · intro commit held early
    rcases turns.commits commit held with before | new
    · exact certifies.complete commit before early
    · exact absurd (early.trans_le certifies.past) (Nat.not_lt.mpr new)
  · rcases turns.main with ⟨main, modified⟩ | modified
    · rw [main, modified]
      exact certifies.modified
    · right
      rw [modified]
      exact le_fromTimestamp clock

theorem Database.turns_apply (allowed : database.Allows event) :
    database.Turns (database.apply event) := by
  obtain ⟨now, action⟩ := event
  have clock : database.clock ≤ now := allowed.1
  have turn : database.turn ≤ database.turn + 1 := Nat.le_succ _
  cases action with
  | commit =>
    refine ⟨turn, clock, ?_, .inl ⟨rfl, rfl⟩⟩
    intro commit held
    simp only [apply, commits, walCommits, Option.getD_some, List.mem_append,
      List.mem_singleton] at held ⊢
    rcases held with main | wal | rfl
    · exact .inl (.inl main)
    · exact .inl (.inr wal)
    · exact .inr le_rfl
  | checkpoint =>
    refine ⟨turn, clock, ?_, .inr rfl⟩
    intro commit held
    left
    simpa [apply, commits, walCommits] using held
  | crash checkpointing =>
    cases checkpointing with
    | true => exact ⟨turn, clock, fun _ held => .inl held, .inr rfl⟩
    | false => exact ⟨turn, clock, fun _ held => .inl held, .inl ⟨rfl, rfl⟩⟩
  | copy => exact ⟨turn, clock, fun _ held => .inl held, .inl ⟨rfl, rfl⟩⟩
  | publish call => exact ⟨turn, clock, fun _ held => .inl held, .inl ⟨rfl, rfl⟩⟩

theorem Database.copySource_eq (database : Database) :
    database.copySource = ⟨database.turn, database.commits⟩ := by
  unfold copySource commits walCommits
  cases database.wal <;> simp

theorem Certified.mono {certificate weaker : Instant → DatabaseCopy → Prop}
    {disk : Disk DatabaseCopy} (certified : Certified certificate disk)
    (weakens : ∀ asOf copy, certificate asOf copy → weaker asOf copy) :
    Certified weaker disk := by
  intro name info found
  obtain ⟨copy, size, file, holds⟩ := certified name info found
  exact ⟨copy, size, file, weakens _ _ holds⟩

theorem Database.Sound.apply (sound : database.Sound) (allowed : database.Allows event) :
    (database.apply event).Sound := by
  have turns := turns_apply allowed
  have kept (asOf : Instant) (copy : DatabaseCopy) (certifies : database.Certifies asOf copy) :
      (database.apply event).Certifies asOf copy := certifies.turns turns
  have old : ∀ pair ∈ database.copies, (database.apply event).Certifies pair.1 pair.2 :=
    fun pair listed => kept _ _ (sound.copies pair listed)
  have published : Certified (database.apply event).Certifies database.snapshots :=
    sound.snapshots.mono kept
  obtain ⟨now, action⟩ := event
  cases action with
  | commit =>
    refine ⟨?_, old, published⟩
    intro commit held
    simp only [Database.apply, commits, walCommits, Option.getD_some] at held ⊢
    rw [← List.append_assoc] at held
    rcases List.mem_append.mp held with before | new
    · exact (sound.made commit before).trans (Nat.lt_succ_self _)
    · rw [List.mem_singleton.mp new]
      exact Nat.lt_succ_self _
  | checkpoint =>
    refine ⟨?_, old, published⟩
    intro commit held
    apply Nat.lt_succ_of_lt
    apply sound.made
    simpa [Database.apply, commits, walCommits] using held
  | crash checkpointing =>
    cases checkpointing <;>
      exact ⟨fun commit held => Nat.lt_succ_of_lt (sound.made commit held), old, published⟩
  | copy =>
    refine ⟨fun commit held => Nat.lt_succ_of_lt (sound.made commit held), ?_, published⟩
    intro pair listed
    rcases List.mem_cons.mp listed with rfl | listed
    · dsimp only
      rw [copySource_eq]
      refine ⟨Nat.le_succ _, sound.made, fun _ held _ => held, ?_, .inl ?_⟩
      · exact Int.ediv_mul_le now (by norm_num)
      · exact fun commit held => sound.made commit (List.mem_append_left _ held)
    · exact old pair listed
  | publish call =>
    refine ⟨fun commit held => Nat.lt_succ_of_lt (sound.made commit held), old, ?_⟩
    exact step_certified published (old _ allowed.2)

theorem Database.sound_fresh (now : Int) : (fresh now).Sound := by
  refine ⟨by simp [fresh, commits, walCommits], by simp [fresh], ?_⟩
  intro name
  exact certifiedAt_of_missing (.inl (AList.lookup_empty _))

theorem Database.Sound.main_copied (sound : database.Sound) {info : SnapshotInfo}
    (newer : newerThanDatabase database.snapshots (some database.modified) = some info) :
    ∃ copy size, fileOf database.snapshots (.snapshot info.path) = some (.data copy size) ∧
      database.Certifies info.asOf copy ∧ ∀ commit ∈ database.main, commit < copy.taken := by
  obtain ⟨latest, found, newer⟩ := Option.bind_eq_some_iff.mp newer
  dsimp only at newer
  split at newer
  · cases newer
  · rename_i later
    cases newer
    obtain ⟨snapshot, -, found⟩ := Option.bind_eq_some_iff.mp found
    obtain ⟨copy, size, file, certifies⟩ := sound.snapshots snapshot info found
    rw [(snapshotInfo_some found).2]
    exact ⟨copy, size, file, certifies, certifies.modified.resolve_right later⟩

end Histories

/-- A publication of the copy that was taken at the second turn. -/
def nightly : Call DatabaseCopy where
  checkedAt := 30
  minAge := none
  stamp := "20260101T0"
  token := "5f"
  copy := ⟨2, [0]⟩
  size := 4096
  begun := ⟨0, []⟩
  invariantsMatch := true
  asOf := 30
  sha256 := "9c"
  sourceDataCommit := none
  rowCounts := [("prices", 7)]
  manifestSize := 300
  faults := undisturbed

/-- A commit, a checkpoint and a publication. -/
def quietNight : List Event :=
  [⟨10000, .commit⟩, ⟨20000, .checkpoint⟩, ⟨30000, .copy⟩, ⟨40000, .publish nightly⟩]

/-- A commit after it, and a crash that leaves the commit in the write-ahead file. -/
def crashedNight : List Event := quietNight ++ [⟨50000, .commit⟩, ⟨60000, .crash false⟩]

end TradingEngine.Snapshots
