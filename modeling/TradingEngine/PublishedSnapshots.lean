import TradingEngine.Runs
import TradingEngine.SnapshotFiles

/-!
# The published snapshot is not lost

Until the link is swapped, a publication writes temporary names and the names of its own
destination, which were free. When the link is swapped, the copy and its manifest are in
place. Retention deletes snapshots before the latest one, and keeps the newest of those
that are verified. A kill therefore leaves the snapshot that was published before or the
new one.

An exception is different when it comes after the swap and before the publication is
recorded: the handler then deletes the files that the link names.
-/

namespace TradingEngine.Snapshots

open KeyedTables FaultingPrograms FaultingPrograms.Program Runs

variable {Content : Type}

/-- The names that a publication of a destination writes before its swap. -/
def Name.touched (destination : SnapshotName) : Name → Bool
  | .temporary _ _ => true
  | .snapshot name => name = destination
  | .manifest name => name = destination
  | _ => false

@[simp] theorem touched_snapshot (destination : SnapshotName) :
    (Name.snapshot destination).touched destination = true := decide_eq_true rfl

@[simp] theorem touched_manifest (destination : SnapshotName) :
    (Name.manifest destination).touched destination = true := decide_eq_true rfl

/-- The files that are not the publication's own are as they were. -/
def Spared (before : Disk Content) (destination : SnapshotName) (disk : Disk Content) : Prop :=
  ∀ name : Name, name.touched destination = false → disk.lookup name = before.lookup name

variable {before disk : Disk Content} {destination : SnapshotName}

theorem Spared.insert (spared : Spared before destination disk) {name : Name}
    (touched : name.touched destination = true) (entry : Entry Content) :
    Spared before destination (disk.insert name entry) := by
  intro other untouched
  have apart : other ≠ name := by
    rintro rfl
    rw [touched] at untouched
    cases untouched
  rw [AList.lookup_insert_ne apart]
  exact spared other untouched

theorem Spared.erase (spared : Spared before destination disk) {name : Name}
    (touched : name.touched destination = true) : Spared before destination (disk.erase name) := by
  intro other untouched
  have apart : other ≠ name := by
    rintro rfl
    rw [touched] at untouched
    cases untouched
  rw [AList.lookup_erase_ne apart]
  exact spared other untouched

/-- A link that is spared names the same snapshot. -/
theorem latestTarget_congr (same : disk.lookup .latest = before.lookup .latest) :
    latestTarget disk = latestTarget before := by
  unfold latestTarget
  rw [same]

theorem fileOf_congr {name : Name} (same : disk.lookup name = before.lookup name) :
    fileOf disk name = fileOf before name := by
  unfold fileOf
  rw [same]

theorem snapshotInfo_congr {snapshot : SnapshotName}
    (file : fileOf disk (.snapshot snapshot) = fileOf before (.snapshot snapshot))
    (manifest : fileOf disk (.manifest snapshot) = fileOf before (.manifest snapshot)) :
    snapshotInfo disk snapshot = snapshotInfo before snapshot := by
  unfold snapshotInfo readManifest
  rw [file, manifest]

/-- A snapshot with information has a file, and is the one that the information names. -/
theorem snapshotInfo_some {snapshot : SnapshotName} {info : SnapshotInfo}
    (found : snapshotInfo disk snapshot = some info) :
    (disk.lookup (.snapshot snapshot)).isSome = true ∧ info.path = snapshot := by
  unfold snapshotInfo readManifest at found
  obtain ⟨manifest, read, found⟩ := Option.bind_eq_some_iff.mp found
  constructor
  · split at read
    · rename_i file _ stored _
      unfold fileOf at stored
      split at stored
      · rename_i entry there
        rw [there]
        rfl
      · cases stored
    · cases read
  · split at found
    · split at found
      · cases found
        rfl
      · cases found
    · cases found

/-- What the latest snapshot was, it is as long as the publication's own files are
others. -/
theorem Spared.latestSnapshot_eq (spared : Spared before destination disk)
    (free : Free before destination) {info : SnapshotInfo}
    (latest : latestSnapshot before = some info) :
    latestSnapshot disk = some info ∧
      fileOf disk (.snapshot info.path) = fileOf before (.snapshot info.path) := by
  unfold latestSnapshot at latest ⊢
  obtain ⟨snapshot, target, found⟩ := Option.bind_eq_some_iff.mp latest
  obtain ⟨present, named⟩ := snapshotInfo_some found
  have apart : snapshot ≠ destination := by
    rintro rfl
    rw [free.1] at present
    cases present
  have file : fileOf disk (.snapshot snapshot) = fileOf before (.snapshot snapshot) :=
    fileOf_congr (spared _ (decide_eq_false apart))
  have manifest : fileOf disk (.manifest snapshot) = fileOf before (.manifest snapshot) :=
    fileOf_congr (spared _ (decide_eq_false apart))
  rw [latestTarget_congr (spared .latest rfl), target, Option.bind_some,
    snapshotInfo_congr file manifest, named]
  exact ⟨found, file⟩

/-- The information of the snapshot that a call publishes. -/
def Call.info (call : Call Content) (destination : SnapshotName) : SnapshotInfo :=
  ⟨destination, call.asOf, call.sha256, call.rowCounts, call.sourceDataCommit⟩

variable (call : Call Content)

/-- The copy and the manifest of a call are in place. -/
structure Filed (destination : SnapshotName) (disk : Disk Content) : Prop where
  copy : disk.lookup (.snapshot destination) = some (.file (.data call.copy call.size))
  manifest : disk.lookup (.manifest destination) =
    some (.file (.json (call.manifest destination) call.manifestSize))

/-- The link names them. -/
structure Swapped (destination : SnapshotName) (disk : Disk Content) : Prop
    extends Filed call destination disk where
  latest : disk.lookup .latest = some (.link (.snapshot destination))

variable {call}

theorem Filed.of_lookup {other : Disk Content} (filed : Filed call destination disk)
    (file : other.lookup (.snapshot destination) = disk.lookup (.snapshot destination))
    (manifest : other.lookup (.manifest destination) = disk.lookup (.manifest destination)) :
    Filed call destination other :=
  ⟨file.trans filed.copy, manifest.trans filed.manifest⟩

theorem Swapped.latestSnapshot_eq (swapped : Swapped call destination disk) :
    latestSnapshot disk = some (call.info destination) := by
  unfold latestSnapshot latestTarget snapshotInfo readManifest fileOf
  simp only [swapped.latest, swapped.copy, swapped.manifest, Option.bind_some, Call.manifest,
    if_true, Call.info]

section Publications

variable (before destination)

/-- Nothing but the publication's own files is written, and it is not done. -/
def Unswapped (state : Publication Content) : Prop :=
  Spared before destination state.disk ∧ state.published = false

variable {before destination} {faults : Step → Fault}

theorem Unswapped.insert {state : Publication Content}
    (unswapped : Unswapped before destination state) {name : Name}
    (touched : name.touched destination = true) (entry : Entry Content) :
    Unswapped before destination { state with disk := state.disk.insert name entry } :=
  ⟨unswapped.1.insert touched entry, unswapped.2⟩

theorem Unswapped.erase {state : Publication Content}
    (unswapped : Unswapped before destination state) {name : Name}
    (touched : name.touched destination = true) :
    Unswapped before destination { state with disk := state.disk.erase name } :=
  ⟨unswapped.1.erase touched, unswapped.2⟩

theorem quiet_satisfies {label : Step} {fails : Bool}
    {pre raised killed : Publication Content → Prop} (raises : ∀ state, pre state → raised state)
    (kills : ∀ state, pre state → killed state) :
    Satisfies faults pre (quiet label fails) (fun _ => pre) raised killed :=
  (satisfies_perform_of_kept fun _ holds => holds).consequence (fun _ holds => holds)
    (fun _ _ holds => holds) raises kills

theorem unlink_unswapped {label : Step} {name : Name} (touched : name.touched destination = true) :
    Satisfies faults (Unswapped before destination) (unlink label name)
      (fun _ => Unswapped before destination) (Unswapped before destination)
      (Unswapped before destination) :=
  satisfies_perform_of_kept fun _ unswapped => unswapped.erase touched

/-- Nothing else is written yet, and something holds of the files. -/
def Holding (before : Disk Content) (destination : SnapshotName) (kept : Disk Content → Prop)
    (state : Publication Content) : Prop :=
  Unswapped before destination state ∧ kept state.disk

theorem write_holding (kept : Disk Content → Prop) {label : Step} {name : Name}
    {file : File Content} (touched : name.touched destination = true)
    (keeps : ∀ disk, kept disk → kept (disk.insert name (.file file))) :
    Satisfies faults (Holding before destination kept) (write label name file)
      (fun _ => Holding before destination fun disk =>
        kept disk ∧ disk.lookup name = some (.file file))
      (Unswapped before destination) (Unswapped before destination) := by
  apply satisfies_perform
  · rintro state ⟨unswapped, holds⟩ _ _
    exact ⟨unswapped.insert touched _, keeps _ holds, AList.lookup_insert _⟩
  · rintro state ⟨unswapped, -⟩ _
    exact unswapped
  · rintro state ⟨unswapped, -⟩ _ _
    exact unswapped.insert touched _
  · rintro state ⟨unswapped, -⟩
    exact unswapped
  · rintro state ⟨unswapped, -⟩ _
    exact unswapped.insert touched _

/-- A file that the publication renames has its new name. -/
theorem replace_holding (kept : Disk Content → Prop) {label : Step} {source target : Name}
    {entry : Entry Content} (apart : target ≠ source)
    (ofSource : source.touched destination = true) (ofTarget : target.touched destination = true)
    (keeps : ∀ disk, kept disk → kept ((disk.insert target entry).erase source)) :
    Satisfies faults
      (Holding before destination fun disk => kept disk ∧ disk.lookup source = some entry)
      (replace label source target)
      (fun _ => Holding before destination fun disk =>
        kept disk ∧ disk.lookup target = some entry)
      (Unswapped before destination) (Unswapped before destination) := by
  have moved (state : Publication Content) (unswapped : Unswapped before destination state) :
      Unswapped before destination
        { state with disk := (state.disk.insert target entry).erase source } :=
    (unswapped.insert ofTarget entry).erase ofSource
  apply satisfies_perform
  · rintro state ⟨unswapped, holds, there⟩ _ _
    simp only [there]
    refine ⟨moved state unswapped, keeps _ holds, ?_⟩
    dsimp only
    rw [AList.lookup_erase_ne apart]
    exact AList.lookup_insert _
  · rintro state ⟨unswapped, -⟩ _
    exact unswapped
  · rintro state ⟨unswapped, -, there⟩ _ _
    simp only [there]
    exact moved state unswapped
  · rintro state ⟨unswapped, -⟩
    exact unswapped
  · rintro state ⟨unswapped, -, there⟩ _
    simp only [there]
    exact moved state unswapped

theorem quiet_holding {kept : Disk Content → Prop} {label : Step} {fails : Bool} :
    Satisfies faults (Holding before destination kept) (quiet label fails)
      (fun _ => Holding before destination kept) (Unswapped before destination)
      (Unswapped before destination) :=
  quiet_satisfies (fun _ holding => holding.1) fun _ holding => holding.1

theorem copySource_satisfies (call : Call Content) :
    Satisfies faults (Unswapped before destination) call.copySource
      (fun _ => Holding before destination fun disk =>
        True ∧ disk.lookup (call.temporary .copy) = some (.file (.data call.copy call.size)))
      (Unswapped before destination) (Unswapped before destination) := by
  unfold Call.copySource
  have nothing (state : Publication Content) (unswapped : Unswapped before destination state) :
      Holding before destination (fun _ => True) state := ⟨unswapped, trivial⟩
  apply (quiet_satisfies (fun _ kept => kept) fun _ kept => kept).andThen
  apply Satisfies.andThen (satisfies_perform_of_kept fun _ unswapped => unswapped.insert rfl _)
  apply Satisfies.andThen
    ((write_holding (fun _ => True) rfl fun _ _ => trivial).strengthen nothing)
  exact quiet_holding.andThen (quiet_holding.andThen quiet_holding)

/-- The copy has its name and is kept there. -/
def Copied (call : Call Content) (destination : SnapshotName) (disk : Disk Content) : Prop :=
  disk.lookup (.snapshot destination) = some (.file (.data call.copy call.size))

theorem Copied.insert {call : Call Content} (copied : Copied call destination disk) {name : Name}
    (apart : name ≠ .snapshot destination) (entry : Entry Content) :
    Copied call destination (disk.insert name entry) :=
  (AList.lookup_insert_ne apart.symm).trans copied

theorem Copied.erase {call : Call Content} (copied : Copied call destination disk) {name : Name}
    (apart : name ≠ .snapshot destination) : Copied call destination (disk.erase name) :=
  (AList.lookup_erase_ne apart.symm).trans copied

theorem writeManifest_satisfies (call : Call Content) :
    Satisfies faults (Holding before destination (Copied call destination))
      (call.writeManifest destination)
      (fun _ => Holding before destination fun disk => Copied call destination disk ∧
        disk.lookup (.manifest destination) =
          some (.file (.json (call.manifest destination) call.manifestSize)))
      (Unswapped before destination) (Unswapped before destination) := by
  unfold Call.writeManifest
  have keeps (file : File Content) (disk : Disk Content)
      (copied : Copied call destination disk) :
      Copied call destination (disk.insert (call.temporary .manifest) (.file file)) :=
    copied.insert (by nofun) _
  have created : Satisfies faults (Holding before destination (Copied call destination))
      (write .createManifest (call.temporary .manifest) (.data call.begun 0))
      (fun _ => Holding before destination (Copied call destination))
      (Unswapped before destination) (Unswapped before destination) :=
    (write_holding _ rfl (keeps _)).weaken fun _ _ holding => ⟨holding.1, holding.2.1⟩
  apply created.andThen
  apply Satisfies.onRaise
  · apply (write_holding _ rfl (keeps _)).andThen
    apply replace_holding _ (by nofun) rfl (touched_manifest destination)
    intro disk copied
    exact (copied.insert (by nofun) _).erase (by nofun)
  · exact unlink_unswapped rfl

/-- The copy and the manifest are in place before the swap. -/
theorem prepareFiles_satisfies (call : Call Content) :
    Satisfies faults (Unswapped before destination) (call.prepareFiles destination)
      (fun _ => Holding before destination (Filed call destination))
      (Unswapped before destination) (Unswapped before destination) := by
  unfold Call.prepareFiles
  apply (copySource_satisfies call).andThen
  apply (replace_holding (fun _ => True) (by nofun) rfl (touched_snapshot destination)
    fun _ _ => trivial).andThen
  apply Satisfies.andThen ((writeManifest_satisfies call).strengthen fun _ holding =>
    ⟨holding.1, holding.2.2⟩)
  apply quiet_holding.weaken
  intro _ _ holding
  exact ⟨holding.1, ⟨holding.2.1, holding.2.2⟩⟩

/-- An exception comes after the link is swapped and before the publication is recorded. -/
def Call.Interrupted (call : Call Content) : Prop :=
  call.faults .symlinkLatest = .none_ ∧
    (call.faults .replaceLatest = .raises true ∨
      call.faults .replaceLatest = .none_ ∧
        ((∃ done, call.faults .syncLatest = .raises done) ∨
          call.faults .syncLatest = .none_ ∧
            ∃ done, call.faults .unlinkLatestTemporary = .raises done))

instance (call : Call Content) : Decidable call.Interrupted := inferInstanceAs (Decidable (_ ∧ _))

/-- The snapshot of before, or the new one. -/
def Safe (before : Disk Content) (call : Call Content) (destination : SnapshotName)
    (disk : Disk Content) : Prop :=
  Spared before destination disk ∨ Swapped call destination disk

variable {call : Call Content}

theorem Swapped.erase (swapped : Swapped call destination disk) {name : Name}
    (apart : name ≠ .latest ∧ name ≠ .snapshot destination ∧ name ≠ .manifest destination) :
    Swapped call destination (disk.erase name) where
  copy := (AList.lookup_erase_ne apart.2.1.symm).trans swapped.copy
  manifest := (AList.lookup_erase_ne apart.2.2.symm).trans swapped.manifest
  latest := (AList.lookup_erase_ne apart.1.symm).trans swapped.latest

/-- The link is swapped, its temporary name is gone, and the publication is not recorded. -/
structure Linked (call : Call Content) (destination : SnapshotName)
    (state : Publication Content) : Prop where
  swapped : Swapped call destination state.disk
  published : state.published = false
  renamed : state.disk.lookup (call.temporary .latest) = none

/-- The link under its temporary name. -/
def LinkMade (call : Call Content) (destination : SnapshotName) (disk : Disk Content) : Prop :=
  Filed call destination disk ∧
    disk.lookup (call.temporary .latest) = some (.link (.snapshot destination))

theorem LinkMade.swapped (made : LinkMade call destination disk) :
    Swapped call destination
      ((disk.insert .latest (.link (.snapshot destination))).erase (call.temporary .latest)) where
  copy := by
    rw [AList.lookup_erase_ne (by nofun), AList.lookup_insert_ne (by nofun)]
    exact made.1.copy
  manifest := by
    rw [AList.lookup_erase_ne (by nofun), AList.lookup_insert_ne (by nofun)]
    exact made.1.manifest
  latest := by
    rw [AList.lookup_erase_ne (by nofun)]
    exact AList.lookup_insert _

theorem symlinkLatest_satisfies :
    Satisfies call.faults (Holding before destination (Filed call destination))
      (symlink .symlinkLatest (call.temporary .latest) (.snapshot destination))
      (fun _ state => Holding before destination (LinkMade call destination) state ∧
        call.faults .symlinkLatest = .none_)
      (Unswapped before destination) fun state => Safe before call destination state.disk := by
  apply satisfies_perform
  · rintro state ⟨unswapped, filed⟩ _ fault
    refine ⟨⟨unswapped.insert rfl _, ?_, AList.lookup_insert _⟩, fault⟩
    exact filed.of_lookup (AList.lookup_insert_ne (by nofun)) (AList.lookup_insert_ne (by nofun))
  · rintro state ⟨unswapped, -⟩ _
    exact unswapped
  · rintro state ⟨unswapped, -⟩ _ _
    exact unswapped.insert rfl _
  · rintro state ⟨unswapped, -⟩
    exact .inl unswapped.1
  · rintro state ⟨unswapped, -⟩ _
    exact .inl (unswapped.1.insert rfl _)

theorem replaceLatest_satisfies (guarded : ¬ call.Interrupted) :
    Satisfies call.faults
      (fun state => Holding before destination (LinkMade call destination) state ∧
        call.faults .symlinkLatest = .none_)
      (replace .replaceLatest (call.temporary .latest) .latest)
      (fun _ state => Linked call destination state ∧ call.faults .symlinkLatest = .none_ ∧
        call.faults .replaceLatest = .none_)
      (Unswapped before destination) fun state => Safe before call destination state.disk := by
  apply satisfies_perform
  · rintro state ⟨⟨unswapped, made⟩, earlier⟩ _ fault
    simp only [made.2]
    exact ⟨⟨made.swapped, unswapped.2, AList.lookup_erase _ _⟩, earlier, fault⟩
  · rintro state ⟨⟨unswapped, -⟩, -⟩ _
    exact unswapped
  · rintro state ⟨-, earlier⟩ _ fault
    exact absurd ⟨earlier, .inl fault⟩ guarded
  · rintro state ⟨⟨unswapped, -⟩, -⟩
    exact .inl unswapped.1
  · rintro state ⟨⟨-, made⟩, -⟩ _
    simp only [made.2]
    exact .inr made.swapped

/-- Without an exception after it, the swap returns with the link swapped. -/
theorem swapLatest_satisfies (guarded : ¬ call.Interrupted) :
    Satisfies call.faults (Holding before destination (Filed call destination))
      (call.swapLatest destination)
      (fun _ state => Swapped call destination state.disk ∧ state.published = false)
      (Unswapped before destination) fun state => Safe before call destination state.disk := by
  unfold Call.swapLatest
  have synced : Satisfies call.faults
      (fun state => Linked call destination state ∧ call.faults .symlinkLatest = .none_ ∧
        call.faults .replaceLatest = .none_)
      (quiet .syncLatest false)
      (fun _ state => Linked call destination state ∧ call.faults .symlinkLatest = .none_ ∧
        call.faults .replaceLatest = .none_ ∧ call.faults .syncLatest = .none_)
      (Unswapped before destination) fun state => Safe before call destination state.disk := by
    apply satisfies_perform
    · rintro state ⟨linked, first, second⟩ _ fault
      exact ⟨linked, first, second, fault⟩
    · rintro state ⟨-, first, second⟩ (failed | raised)
      · cases failed
      · exact absurd ⟨first, .inr ⟨second, .inl raised⟩⟩ guarded
    · rintro state ⟨-, first, second⟩ _ fault
      exact absurd ⟨first, .inr ⟨second, .inl ⟨_, fault⟩⟩⟩ guarded
    · rintro state ⟨linked, -⟩
      exact .inr linked.swapped
    · rintro state ⟨linked, -⟩ _
      exact .inr linked.swapped
  apply Satisfies.ensure
    (symlinkLatest_satisfies.andThen ((replaceLatest_satisfies guarded).andThen synced))
  · intro _
    apply satisfies_perform
    · rintro state ⟨linked, -⟩ _ _
      exact ⟨linked.swapped.erase ⟨by nofun, by nofun, by nofun⟩, linked.published⟩
    · rintro state ⟨linked, first, second, third⟩ (failed | raised)
      · unfold isFolder at failed
        rw [linked.renamed] at failed
        cases failed
      · exact absurd ⟨first, .inr ⟨second, .inr ⟨third, raised⟩⟩⟩ guarded
    · rintro state ⟨-, first, second, third⟩ _ fault
      exact absurd ⟨first, .inr ⟨second, .inr ⟨third, _, fault⟩⟩⟩ guarded
    · rintro state ⟨linked, -⟩
      exact .inr linked.swapped
    · rintro state ⟨linked, -⟩ _
      exact .inr (linked.swapped.erase ⟨by nofun, by nofun, by nofun⟩)
  · apply (unlink_unswapped rfl).consequence (fun _ unswapped => unswapped)
      (fun _ _ unswapped => unswapped) (fun _ unswapped => unswapped)
    intro _ unswapped
    exact .inl unswapped.1

end Publications

section Retained

variable {latest newest : SnapshotName} {keepPrevious : ℕ}

/-- The newest of the verified snapshots before the latest one. -/
def newestPrevious (disk : Disk Content) (latest : SnapshotName) : Option SnapshotName :=
  (previous disk latest).getLast?

theorem getLast?_mem_drop {names : List SnapshotName} {name : SnapshotName} {start : ℕ}
    (last : names.getLast? = some name) (inside : start < names.length) :
    name ∈ names.drop start := by
  have same : (names.drop start).getLast? = some name := by
    rw [List.getLast?_drop, if_neg (not_le.mpr inside), last]
  exact List.mem_of_getLast? same

/-- Retention of at least one verified snapshot keeps the newest. -/
theorem newestPrevious_kept (positive : 0 < keepPrevious)
    (newestOf : newestPrevious disk latest = some newest) :
    newest ∈ keptPrevious disk keepPrevious latest := by
  have some_ : 0 < (previous disk latest).length :=
    List.length_pos_of_mem (List.mem_of_getLast? newestOf)
  unfold keptPrevious sliceFrom
  rw [if_neg positive.ne']
  split_ifs with negative
  · apply getLast?_mem_drop newestOf
    omega
  · apply getLast?_mem_drop newestOf
    omega

theorem retentionPlan_delete {old : SnapshotName}
    (deleted : old ∈ (retentionPlan disk keepPrevious).delete) :
    ∃ latest, latestTarget disk = some latest ∧
      old.publicationOrder < latest.publicationOrder ∧
        old ∉ keptPrevious disk keepPrevious latest := by
  unfold retentionPlan at deleted
  dsimp only at deleted
  split at deleted
  · cases deleted
  rename_i latest target
  split at deleted
  · cases deleted
  obtain ⟨older, kept⟩ := List.mem_filter.mp deleted
  obtain ⟨-, before⟩ := List.mem_filter.mp older
  exact ⟨latest, target, of_decide_eq_true before, of_decide_eq_true kept⟩

/-- The files that retention may not delete. -/
def Protected (disk : Disk Content) (name : Name) : Prop :=
  name = .latest ∨ ∃ latest, latestTarget disk = some latest ∧
    (name = .snapshot latest ∨ name = .manifest latest ∨
      ∃ newest, newestPrevious disk latest = some newest ∧
        (name = .snapshot newest ∨ name = .manifest newest))

theorem protected_apart {old : SnapshotName} {name : Name}
    (deleted : old ∈ (retentionPlan disk keepPreviousSnapshots).delete)
    (protected_ : Protected disk name) : name ≠ .snapshot old ∧ name ≠ .manifest old := by
  obtain ⟨latest, target, before, unkept⟩ := retentionPlan_delete deleted
  rcases protected_ with rfl | ⟨_, same, protected_⟩
  · exact ⟨by nofun, by nofun⟩
  rw [target] at same
  cases same
  have notLatest : latest ≠ old := by
    rintro rfl
    exact lt_irrefl _ before
  rcases protected_ with rfl | rfl | ⟨newest, newestOf, protected_⟩
  · exact ⟨fun equal => notLatest (Name.snapshot.inj equal), by nofun⟩
  · exact ⟨by nofun, fun equal => notLatest (Name.manifest.inj equal)⟩
  have notNewest : newest ≠ old := by
    rintro rfl
    exact unkept (newestPrevious_kept Nat.one_pos newestOf)
  rcases protected_ with rfl | rfl
  · exact ⟨fun equal => notNewest (Name.snapshot.inj equal), by nofun⟩
  · exact ⟨by nofun, fun equal => notNewest (Name.manifest.inj equal)⟩

/-- The protected files of a publication are as they were. -/
def Retaining (start state : Publication Content) : Prop :=
  state.published = start.published ∧
    ∀ name, Protected start.disk name → state.disk.lookup name = start.disk.lookup name

/-- Retention leaves what is protected, however it ends. -/
theorem retainNewest_satisfies {faults : Step → Fault} (start : Publication Content) :
    Satisfies faults (· = start) retainNewest (fun _ => Retaining start) (Retaining start)
      (Retaining start) := by
  have begun (state : Publication Content) (same : state = start) : Retaining start state :=
    same ▸ ⟨rfl, fun _ _ => rfl⟩
  unfold retainNewest
  apply (quiet_satisfies begun begun).andThen
  have planned : Satisfies faults (· = start)
      (read fun state : Publication Content =>
        (retentionPlan state.disk keepPreviousSnapshots).delete)
      (fun deleted state => deleted = (retentionPlan start.disk keepPreviousSnapshots).delete ∧
        Retaining start state) (Retaining start) (Retaining start) := by
    apply satisfies_read
    rintro state rfl
    exact ⟨rfl, begun state rfl⟩
  apply planned.bind
  intro deleted
  by_cases plan : deleted = (retentionPlan start.disk keepPreviousSnapshots).delete
  · subst plan
    apply Satisfies.strengthen _ fun _ holds => holds.2
    have unlinks {old : SnapshotName} {label : Step} {name : Name}
        (listed : old ∈ (retentionPlan start.disk keepPreviousSnapshots).delete)
        (file : name = .snapshot old ∨ name = .manifest old) :
        Satisfies faults (Retaining start) (unlink label name) (fun _ => Retaining start)
          (Retaining start) (Retaining start) := by
      apply satisfies_perform_of_kept
      intro state retaining
      refine ⟨retaining.1, fun other protected_ => ?_⟩
      obtain ⟨apart, alsoApart⟩ := protected_apart listed protected_
      rw [AList.lookup_erase_ne (by rcases file with rfl | rfl <;> assumption)]
      exact retaining.2 other protected_
    apply Satisfies.andThen
    · apply satisfies_forEach
      intro old listed
      exact (unlinks listed (.inl rfl)).andThen (unlinks listed (.inr rfl))
    · exact quiet_satisfies (fun _ kept => kept) fun _ kept => kept
  · intro state holds
    exact absurd holds.1 plan

end Retained

section Calls

variable {call : Call Content}

/-- The snapshot is published and recorded, or nothing but the publication's own files is
written. -/
def Settled (before : Disk Content) (call : Call Content) (destination : SnapshotName)
    (state : Publication Content) : Prop :=
  Unswapped before destination state ∨
    Swapped call destination state.disk ∧ state.published = true

theorem Settled.safe {state : Publication Content}
    (settled : Settled before call destination state) :
    Safe before call destination state.disk :=
  settled.imp And.left And.left

/-- Retention keeps the snapshot that was just published. -/
theorem retainNewest_published {faults : Step → Fault} :
    Satisfies faults
      (fun state => Swapped call destination state.disk ∧ state.published = true) retainNewest
      (fun _ state => Swapped call destination state.disk ∧ state.published = true)
      (fun state => Swapped call destination state.disk ∧ state.published = true)
      fun state => Swapped call destination state.disk ∧ state.published = true := by
  apply satisfies_of_start
  rintro start ⟨swapped, recorded⟩
  have target : latestTarget start.disk = some destination := by
    unfold latestTarget
    rw [swapped.latest]
  have kept (state : Publication Content) (retaining : Retaining start state) :
      Swapped call destination state.disk ∧ state.published = true := by
    refine ⟨⟨⟨?_, ?_⟩, ?_⟩, retaining.1.trans recorded⟩
    · exact (retaining.2 _ (.inr ⟨_, target, .inl rfl⟩)).trans swapped.copy
    · exact (retaining.2 _ (.inr ⟨_, target, .inr (.inl rfl)⟩)).trans swapped.manifest
    · exact (retaining.2 _ (.inl rfl)).trans swapped.latest
  exact (retainNewest_satisfies start).consequence (fun _ same => same) (fun _ => kept) kept kept

/-- The handler deletes the new files only where the link does not name them. -/
theorem cleanUp_satisfies {faults : Step → Fault} :
    Satisfies faults (Settled before call destination) (call.cleanUp destination)
      (fun _ state => Safe before call destination state.disk)
      (fun state => Safe before call destination state.disk)
      fun state => Safe before call destination state.disk := by
  unfold Call.cleanUp
  have unlinked : Satisfies faults (Settled before call destination)
      (unlink .unlinkTemporary (call.temporary .copy))
      (fun _ => Settled before call destination) (Settled before call destination)
      (Settled before call destination) := by
    apply satisfies_perform_of_kept
    rintro state (unswapped | ⟨swapped, recorded⟩)
    · exact .inl (unswapped.erase rfl)
    · exact .inr ⟨swapped.erase ⟨by nofun, by nofun, by nofun⟩, recorded⟩
  have safe (state : Publication Content) (settled : Settled before call destination state) :
      Safe before call destination state.disk := settled.safe
  apply (unlinked.consequence (fun _ settled => settled) (fun _ _ settled => settled)
    safe safe).andThen
  have looked : Satisfies faults (Settled before call destination) (read Publication.published)
      (fun published state => Settled before call destination state ∧
        state.published = published)
      (fun state => Safe before call destination state.disk)
      fun state => Safe before call destination state.disk :=
    satisfies_read fun _ settled => ⟨settled, rfl⟩
  apply looked.bind
  intro published
  cases published with
  | true => exact satisfies_return fun state holds => safe state holds.1
  | false =>
    have spared (state : Publication Content) (unswapped : Unswapped before destination state) :
        Safe before call destination state.disk := .inl unswapped.1
    have removed : Satisfies faults (Unswapped before destination)
        ((unlink .unlinkDestination (.snapshot destination)).andThen
          (unlink .unlinkManifest (.manifest destination)))
        (fun _ => Unswapped before destination) (Unswapped before destination)
        (Unswapped before destination) :=
      (unlink_unswapped (touched_snapshot destination)).andThen
        (unlink_unswapped (touched_manifest destination))
    apply removed.consequence _ (fun _ => spared) spared spared
    rintro state ⟨unswapped | ⟨-, recorded⟩, unpublished⟩
    · exact unswapped
    · rw [recorded] at unpublished
      cases unpublished

/-- Whether the files of a call get as far as its swap. -/
def Call.Prepared (call : Call Content) (disk : Disk Content) : Prop :=
  (call.prepareFiles (uniqueDestination disk call.stamp) call.faults ⟨disk, false⟩).1 =
    .returned ()

/-- A call that gets as far as its swap has no exception after it and before the publication
is recorded. -/
def Guarded (disk : Disk Content) (call : Call Content) : Prop :=
  call.Prepared disk → ¬ call.Interrupted

theorem publishAs_satisfies (guarded : Guarded before call) :
    Satisfies call.faults (· = ⟨before, false⟩)
      (call.publishAs (uniqueDestination before call.stamp))
      (fun _ state => Safe before call (uniqueDestination before call.stamp) state.disk)
      (fun state => Safe before call (uniqueDestination before call.stamp) state.disk)
      fun state => Safe before call (uniqueDestination before call.stamp) state.disk := by
  set destination := uniqueDestination before call.stamp with chosen
  have spared (state : Publication Content) (unswapped : Unswapped before destination state) :
      Safe before call destination state.disk := .inl unswapped.1
  have begun (state : Publication Content) (same : state = ⟨before, false⟩) :
      Unswapped before destination state := same ▸ ⟨fun _ _ => rfl, rfl⟩
  have prepared : Satisfies call.faults (· = ⟨before, false⟩) (call.prepareFiles destination)
      (fun _ state => Holding before destination (Filed call destination) state ∧
        ¬ call.Interrupted)
      (Unswapped before destination) fun state => Safe before call destination state.disk := by
    apply (((prepareFiles_satisfies call).strengthen begun).recall).consequence
      (fun _ same => same) _ (fun _ unswapped => unswapped) spared
    rintro _ state ⟨holding, returned⟩
    exact ⟨holding, guarded (congrArg Prod.fst returned)⟩
  have published : Satisfies call.faults
      (fun state => Swapped call destination state.disk ∧ state.published = false)
      ((assign fun state => { state with published := true }).andThen
        (retainNewest.andThen (return_ (Report.published (call.manifest destination)))))
      (fun _ => Settled before call destination) (Settled before call destination)
      fun state => Safe before call destination state.disk := by
    have recorded (state : Publication Content)
        (kept : Swapped call destination state.disk ∧ state.published = true) :
        Settled before call destination state := .inr kept
    have recording : Satisfies call.faults
        (fun state => Swapped call destination state.disk ∧ state.published = false)
        (assign fun state => { state with published := true })
        (fun _ state => Swapped call destination state.disk ∧ state.published = true)
        (Settled before call destination)
        fun state => Safe before call destination state.disk :=
      satisfies_assign fun _ holds => ⟨holds.1, rfl⟩
    apply recording.andThen
    apply Satisfies.andThen (retainNewest_published.consequence (fun _ kept => kept)
      (fun _ => recorded) recorded fun state kept => (recorded state kept).safe)
    exact satisfies_return fun _ settled => settled
  have swapped : Satisfies call.faults
      (fun state => Holding before destination (Filed call destination) state ∧
        ¬ call.Interrupted) (call.swapLatest destination)
      (fun _ state => Swapped call destination state.disk ∧ state.published = false)
      (Settled before call destination) fun state => Safe before call destination state.disk := by
    by_cases interrupted : call.Interrupted
    · intro state holds
      exact absurd interrupted holds.2
    · exact (swapLatest_satisfies interrupted).consequence (fun _ holds => holds.1)
        (fun _ _ linked => linked) (fun _ unswapped => .inl unswapped) fun _ safe => safe
  unfold Call.publishAs
  refine Satisfies.ensure ?_ (fun _ => cleanUp_satisfies) cleanUp_satisfies
  apply Satisfies.andThen (prepared.consequence (fun _ same => same) (fun _ _ holds => holds)
    (fun _ unswapped => .inl unswapped) fun _ safe => safe)
  exact swapped.andThen published

/-- A call leaves the snapshot of before or the new one. -/
theorem step_safe (guarded : Guarded before call) :
    Safe before call (uniqueDestination before call.stamp) (step before call) := by
  set destination := uniqueDestination before call.stamp with chosen
  have begun (state : Publication Content) (same : state = ⟨before, false⟩) :
      Safe before call destination state.disk := same ▸ .inl fun _ _ => rfl
  have steady {label : Step} {fails : Bool} : Satisfies call.faults (· = ⟨before, false⟩)
      (quiet label fails) (fun _ => (· = ⟨before, false⟩))
      (fun state => Safe before call destination state.disk)
      fun state => Safe before call destination state.disk := quiet_satisfies begun begun
  have read_ {α : Type} (look : Publication Content → α) :
      Satisfies call.faults (· = ⟨before, false⟩) (read look)
        (fun value state => value = look ⟨before, false⟩ ∧ state = ⟨before, false⟩)
        (fun state => Safe before call destination state.disk)
        fun state => Safe before call destination state.disk := by
    apply satisfies_read
    rintro _ rfl
    exact ⟨rfl, rfl⟩
  have publishing : Satisfies call.faults (· = ⟨before, false⟩) call.publishSnapshot
      (fun _ state => Safe before call destination state.disk)
      (fun state => Safe before call destination state.disk)
      fun state => Safe before call destination state.disk := by
    unfold Call.publishSnapshot
    apply steady.andThen
    apply (read_ _).bind
    rintro (_ | latest)
    · apply Satisfies.strengthen _ fun _ holds => holds.2
      apply steady.andThen
      apply (read_ _).bind
      intro name
      by_cases same : name = destination
      · rw [same]
        exact (publishAs_satisfies guarded).strengthen fun _ holds => holds.2
      · intro state holds
        exact absurd holds.1 same
    · exact satisfies_return fun state holds => begun state holds.2
  exact publishing.leaves rfl

/-- After a call the latest snapshot is the one of before, with its file, or the complete new
one. -/
def Preserved (before : Disk Content) (call : Call Content) (after : Disk Content) : Prop :=
  ∀ info, latestSnapshot before = some info →
    (latestSnapshot after = some info ∧
      fileOf after (.snapshot info.path) = fileOf before (.snapshot info.path)) ∨
    ∃ destination, latestSnapshot after = some (call.info destination) ∧
      Swapped call destination after

/-- The retention of a call deletes neither the file that `market-latest` names nor the newest
verified snapshot before it, nor their manifests. -/
def RetentionKeeps (call : Call Content) : Prop :=
  ∀ (start : Publication Content) (name : Name), Protected start.disk name →
    (retainNewest call.faults start).2.disk.lookup name = start.disk.lookup name

theorem retentionKeeps (call : Call Content) : RetentionKeeps call := by
  intro start name protected_
  exact ((retainNewest_satisfies start).leaves rfl).2 name protected_

theorem step_preserved (guarded : Guarded before call) :
    Preserved before call (step before call) := by
  intro info latest
  rcases step_safe guarded with spared | swapped
  · left
    exact spared.latestSnapshot_eq (uniqueDestination_free before call.stamp) latest
  · right
    exact ⟨_, swapped.latestSnapshot_eq, swapped⟩

end Calls

instance (disk : Disk Content) (call : Call Content) : Decidable (call.Prepared disk) :=
  inferInstanceAs (Decidable (_ = _))

instance (disk : Disk Content) (call : Call Content) : Decidable (Guarded disk call) :=
  inferInstanceAs (Decidable (_ → _))

/-- A call that copies four pages. -/
def daily (stamp : String) (faults : Step → Fault) : Call ℕ where
  checkedAt := 20
  minAge := none
  stamp := stamp
  token := "5f"
  copy := 4
  size := 4096
  begun := 0
  invariantsMatch := true
  asOf := 10
  sha256 := "9c"
  sourceDataCommit := none
  rowCounts := [("prices", 7)]
  manifestSize := 300
  faults := faults

def undisturbed (_ : Step) : Fault := .none_

/-- The sync of the directory raises after the link is swapped. -/
def unsynced : Step → Fault
  | .syncLatest => .raises false
  | _ => .none_

/-- The process is killed at that sync. -/
def killedAtSync : Step → Fault
  | .syncLatest => .kills false
  | _ => .none_

end TradingEngine.Snapshots
