import TradingEngine.FaultingPrograms
import TradingEngine.KeyedTables

/-!
# Snapshots of the engine database

A snapshot is a copy of the database with a manifest of the same stem, and
`market-latest` is a link to the latest one. Publication copies the database under a
temporary name, renames the copy, writes its manifest, swaps the link and then deletes
old snapshots. Its handler deletes the new files unless they were published before.

Every file operation is a step that may raise or be killed. Names are their parts: the
names of snapshots match the pattern of published names, and all temporary names begin
with a dot. Reads whose errors the reader turns into an answer are reads of the state.
-/

namespace TradingEngine.Snapshots

open KeyedTables FaultingPrograms FaultingPrograms.Program

abbrev Instant := Int
abbrev Digest := String

/-- The digits after the stamp of a name. -/
structure Suffix where
  zeros : ℕ
  number : ℕ
  deriving DecidableEq

/-- The name of a published snapshot, without `market-` and its ending. -/
structure SnapshotName where
  stamp : String
  suffix : Option Suffix
  deriving DecidableEq

inductive TemporaryKind where
  | copy | manifest | latest
  deriving DecidableEq

/-- A name in the directory of the snapshots. -/
inductive Name where
  | latest
  | snapshot (name : SnapshotName)
  | manifest (name : SnapshotName)
  | temporary (kind : TemporaryKind) (token : String)
  | other (text : String)
  deriving DecidableEq

/-- A manifest as it is read. A field without a valid value has none. -/
structure Manifest where
  schemaVersion : Option ℕ
  snapshot : Option SnapshotName
  asOf : Option Instant
  sha256 : Option Digest
  sourceDataCommit : Option (Option String)
  rowCounts : Option (List (String × ℕ))
  sizeBytes : Option ℕ
  deriving DecidableEq

variable {Content : Type}

/-- A regular file: data, or the text of a manifest. -/
inductive File (Content : Type) where
  | data (content : Content) (size : ℕ)
  | json (manifest : Manifest) (size : ℕ)
  deriving DecidableEq

def File.size : File Content → ℕ
  | .data _ size => size
  | .json _ size => size

/-- Where a link points: to a snapshot of the same directory, or elsewhere. -/
inductive Target where
  | snapshot (name : SnapshotName)
  | other (text : String)

inductive Entry (Content : Type) where
  | file (file : File Content)
  | link (target : Target)
  | folder

/-- The directory of the snapshots. One that does not exist is empty. -/
abbrev Disk (Content : Type) := Table Name (Entry Content)

structure SnapshotInfo where
  path : SnapshotName
  asOf : Instant
  sha256 : Digest
  rowCounts : List (String × ℕ)
  sourceDataCommit : Option String
  deriving DecidableEq

section Reading

variable (disk : Disk Content)

/-- A regular file, and no link to one. -/
def fileOf (name : Name) : Option (File Content) :=
  match disk.lookup name with
  | some (.file file) => some file
  | _ => none

/-- The manifest of a regular snapshot file, if it is well formed. -/
def readManifest (snapshot : SnapshotName) : Option Manifest :=
  match fileOf disk (.snapshot snapshot), fileOf disk (.manifest snapshot) with
  | some _, some (.json manifest _) =>
    if manifest.schemaVersion = some 1 then some manifest else none
  | _, _ => none

def snapshotInfo (snapshot : SnapshotName) : Option SnapshotInfo :=
  (readManifest disk snapshot).bind fun manifest =>
    match manifest.asOf, manifest.sha256, manifest.sourceDataCommit, manifest.rowCounts with
    | some asOf, some sha256, some commit, some rowCounts =>
      if manifest.snapshot = some snapshot then some ⟨snapshot, asOf, sha256, rowCounts, commit⟩
      else none
    | _, _, _, _ => none

/-- The snapshot that `market-latest` names. -/
def latestTarget : Option SnapshotName :=
  match disk.lookup .latest with
  | some (.link (.snapshot snapshot)) => some snapshot
  | _ => none

def latestSnapshot : Option SnapshotInfo := (latestTarget disk).bind (snapshotInfo disk)

end Reading

/-- Snapshots are ordered by their stamps, and by number within a stamp. -/
def SnapshotName.publicationOrder (name : SnapshotName) : String ×ₗ ℕ :=
  toLex (name.stamp, name.suffix.elim 0 Suffix.number)

section Retention

variable (disk : Disk Content)

/-- A manifest that validates and records the size of its file. -/
def verified (snapshot : SnapshotName) : Bool :=
  match readManifest disk snapshot, fileOf disk (.snapshot snapshot) with
  | some manifest, some file =>
    (snapshotInfo disk snapshot).isSome && decide (manifest.sizeBytes = some file.size)
  | _, _ => false

def Name.snapshot? : Name → Option SnapshotName
  | .snapshot name => some name
  | _ => none

/-- The regular files with names of snapshots, in the order of their publication. -/
def candidates : List SnapshotName :=
  ((disk.keys.filterMap Name.snapshot?).filter fun name =>
    (fileOf disk (.snapshot name)).isSome).insertionSort fun one two =>
      one.publicationOrder ≤ two.publicationOrder

/-- A slice from a start that may be negative. -/
def sliceFrom (start : Int) (names : List SnapshotName) : List SnapshotName :=
  if start < 0 then names.drop (names.length + start).toNat else names.drop start.toNat

structure RetentionPlan where
  latest : Option SnapshotName
  keep : List SnapshotName
  delete : List SnapshotName
  unverified : List SnapshotName

/-- The snapshots before the latest one. -/
def olderThan (latest : SnapshotName) : List SnapshotName :=
  (candidates disk).filter fun name => name.publicationOrder < latest.publicationOrder

/-- Those of them that are verified. -/
def previous (latest : SnapshotName) : List SnapshotName :=
  (olderThan disk latest).filter (verified disk)

def keptPrevious (keepPrevious : ℕ) (latest : SnapshotName) : List SnapshotName :=
  if keepPrevious = 0 then []
  else sliceFrom ((previous disk latest).length - keepPrevious) (previous disk latest)

/-- What to keep besides the snapshot that `market-latest` names. -/
def retentionPlan (keepPrevious : ℕ) : RetentionPlan :=
  let unverified := (candidates disk).filter fun name => !verified disk name
  match latestTarget disk with
  | none => ⟨none, candidates disk, [], unverified⟩
  | some latest =>
    if latest ∉ candidates disk then ⟨none, candidates disk, [], unverified⟩
    else
      let kept := keptPrevious disk keepPrevious latest
      let newer := (candidates disk).filter fun name =>
        latest.publicationOrder < name.publicationOrder
      { latest := latest
        keep := (latest :: kept ++ newer).dedup.insertionSort fun one two =>
          one.publicationOrder ≤ two.publicationOrder
        delete := (olderThan disk latest).filter fun name => name ∉ kept
        unverified }

/-- Retention keeps the latest snapshot and this many verified older ones. -/
def keepPreviousSnapshots : ℕ := 1

end Retention

/-- The file operations of a publication. None of the calls of a directory sync changes a
file, so it is one step, and so are the reads before the manifest is made. -/
inductive Step where
  | prepare | mkdir
  | enterWindow | createCopy | fillCopy | syncCopy | leaveWindow | checkCopy
  | replaceDestination
  | createManifest | fillManifest | replaceManifest | unlinkManifestTemporary
  | syncFiles
  | symlinkLatest | replaceLatest | syncLatest | unlinkLatestTemporary
  | planRetention | syncRetention
  | unlinkOld (name : SnapshotName)
  | unlinkOldManifest (name : SnapshotName)
  | unlinkTemporary | unlinkDestination | unlinkManifest

/-- A call of the publisher: its clocks, what it reads of the database and its faults. -/
structure Call (Content : Type) where
  checkedAt : Instant
  minAge : Option Int
  stamp : String
  token : String
  copy : Content
  size : ℕ
  begun : Content
  invariantsMatch : Bool
  asOf : Instant
  sha256 : Digest
  sourceDataCommit : Option String
  rowCounts : List (String × ℕ)
  manifestSize : ℕ
  faults : Step → Fault

/-- The files, and whether the publication is done. -/
structure Publication (Content : Type) where
  disk : Disk Content
  published : Bool

inductive Report where
  | skipped (latest : SnapshotInfo)
  | published (manifest : Manifest)

/-- The names that a call tries in turn. -/
def numbered (stamp : String) (number : ℕ) : SnapshotName :=
  ⟨stamp, if number = 0 then none else some ⟨0, number⟩⟩

theorem numbered_injective (stamp : String) : Function.Injective (numbered stamp) := by
  intro one two same
  unfold numbered at same
  simp only [SnapshotName.mk.injEq, true_and] at same
  split_ifs at same with first second second
  · rw [first, second]
  · injection same with numbers
    injection numbers

/-- A name that neither a snapshot nor a manifest has. -/
def Free (disk : Disk Content) (name : SnapshotName) : Prop :=
  disk.lookup (.snapshot name) = none ∧ disk.lookup (.manifest name) = none

instance (disk : Disk Content) (name : SnapshotName) : Decidable (Free disk name) :=
  decidable_of_iff
    ((disk.lookup (.snapshot name)).isNone ∧ (disk.lookup (.manifest name)).isNone)
    (by unfold Free; simp only [Option.isNone_iff_eq_none])

/-- The name of a snapshot, or of the snapshot of a manifest. -/
def Name.stem? : Name → Option SnapshotName
  | .snapshot name => some name
  | .manifest name => some name
  | _ => none

/-- A directory has fewer names than it takes to use up its files and one more. -/
theorem exists_free (disk : Disk Content) (stamp : String) :
    ∃ number ∈ List.range (disk.keys.length + 1), Free disk (numbered stamp number) := by
  by_contra none_
  push Not at none_
  have taken : (List.range (disk.keys.length + 1)).map (numbered stamp) ⊆
      disk.keys.filterMap Name.stem? := by
    intro name listed
    obtain ⟨number, inside, rfl⟩ := List.mem_map.mp listed
    apply List.mem_filterMap.mpr
    by_contra missing
    push Not at missing
    apply none_ number inside
    constructor
    · apply AList.lookup_eq_none.mpr
      intro stored
      exact missing _ (AList.mem_keys.mp stored) rfl
    · apply AList.lookup_eq_none.mpr
      intro stored
      exact missing _ (AList.mem_keys.mp stored) rfl
  have distinct := (List.nodup_range (n := disk.keys.length + 1)).map (numbered_injective stamp)
  have few := (distinct.subperm taken).length_le
  have most := List.length_filterMap_le Name.stem? disk.keys
  rw [List.length_map, List.length_range] at few
  omega

/-- The first name that is free. -/
def uniqueDestination (disk : Disk Content) (stamp : String) : SnapshotName :=
  numbered stamp (((List.range (disk.keys.length + 1)).find? fun number =>
    Free disk (numbered stamp number)).getD 0)

theorem uniqueDestination_free (disk : Disk Content) (stamp : String) :
    Free disk (uniqueDestination disk stamp) := by
  obtain ⟨number, listed, free⟩ := exists_free disk stamp
  unfold uniqueDestination
  cases found : (List.range (disk.keys.length + 1)).find? fun number =>
      Free disk (numbered stamp number) with
  | none =>
    have taken := List.find?_eq_none.mp found number listed
    exact absurd (decide_eq_true free) taken
  | some first =>
    have fits := List.find?_some found
    simpa only [decide_eq_true_eq, Option.getD_some] using fits

/-- What a program of the publication does. -/
abbrev Publishing (Content α : Type) := Program Step (Publication Content) α

section Operations

def isFolder (disk : Disk Content) (name : Name) : Bool :=
  match disk.lookup name with
  | some .folder => true
  | _ => false

/-- A file is created or written over. -/
def write (label : Step) (name : Name) (file : File Content) : Publishing Content Unit :=
  perform label (fun state => isFolder state.disk name) fun state =>
    { state with disk := state.disk.insert name (.file file) }

/-- A rename over what had the name before. -/
def replace (label : Step) (source target : Name) : Publishing Content Unit :=
  perform label (fun state => (state.disk.lookup source).isNone || isFolder state.disk target)
    fun state =>
      match state.disk.lookup source with
      | none => state
      | some entry => { state with disk := (state.disk.insert target entry).erase source }

/-- A link that must not exist yet. -/
def symlink (label : Step) (name : Name) (target : Target) : Publishing Content Unit :=
  perform label (fun state => (state.disk.lookup name).isSome) fun state =>
    { state with disk := state.disk.insert name (.link target) }

/-- A missing file is as good as an unlinked one. -/
def unlink (label : Step) (name : Name) : Publishing Content Unit :=
  perform label (fun state => isFolder state.disk name) fun state =>
    { state with disk := state.disk.erase name }

/-- A step that changes no file. -/
def quiet (label : Step) (fails : Bool) : Publishing Content Unit :=
  perform label (fun _ => fails) id

end Operations

namespace Call

variable (call : Call Content)

def temporary (kind : TemporaryKind) : Name := .temporary kind call.token

/-- The manifest of the copy. -/
def manifest (destination : SnapshotName) : Manifest where
  schemaVersion := some 1
  snapshot := some destination
  asOf := some call.asOf
  sha256 := some call.sha256
  sourceDataCommit := some call.sourceDataCommit
  rowCounts := some call.rowCounts
  sizeBytes := some call.size

/-- The copy is made inside the backup window and checked after it. -/
def copySource : Publishing Content Unit :=
  (quiet .enterWindow false).andThen <|
  (write .createCopy (call.temporary .copy) (.data call.begun 0)).andThen <|
  (write .fillCopy (call.temporary .copy) (.data call.copy call.size)).andThen <|
  (quiet .syncCopy false).andThen <|
  (quiet .leaveWindow false).andThen <|
  quiet .checkCopy (!call.invariantsMatch)

def writeManifest (destination : SnapshotName) : Publishing Content Unit :=
  (write .createManifest (call.temporary .manifest) (.data call.begun 0)).andThen <|
  ((write .fillManifest (call.temporary .manifest)
      (.json (call.manifest destination) call.manifestSize)).andThen <|
    replace .replaceManifest (call.temporary .manifest) (.manifest destination)).onRaise <|
  unlink .unlinkManifestTemporary (call.temporary .manifest)

def swapLatest (destination : SnapshotName) : Publishing Content Unit :=
  ((symlink .symlinkLatest (call.temporary .latest) (.snapshot destination)).andThen <|
    (replace .replaceLatest (call.temporary .latest) .latest).andThen <|
    quiet .syncLatest false).ensure <|
  unlink .unlinkLatestTemporary (call.temporary .latest)

end Call

/-- The snapshots outside of the plan are deleted with their manifests. -/
def retainNewest : Publishing Content Unit :=
  (quiet .planRetention false).andThen <|
  (read fun state => (retentionPlan state.disk keepPreviousSnapshots).delete).bind fun deleted =>
  (forEach (fun old => (unlink (.unlinkOld old) (.snapshot old)).andThen <|
    unlink (.unlinkOldManifest old) (.manifest old)) deleted).andThen <|
  quiet .syncRetention false

namespace Call

variable (call : Call Content)

/-- Everything before the link is swapped. -/
def prepareFiles (destination : SnapshotName) : Publishing Content Unit :=
  call.copySource.andThen <|
  (replace .replaceDestination (call.temporary .copy) (.snapshot destination)).andThen <|
  (call.writeManifest destination).andThen <|
  quiet .syncFiles false

/-- The handler deletes the new files unless they are published. -/
def cleanUp (destination : SnapshotName) : Publishing Content Unit :=
  (unlink .unlinkTemporary (call.temporary .copy)).andThen <|
  (read Publication.published).bind fun published =>
  if published then return_ ()
  else (unlink .unlinkDestination (.snapshot destination)).andThen <|
    unlink .unlinkManifest (.manifest destination)

def publishAs (destination : SnapshotName) : Publishing Content Report :=
  ((call.prepareFiles destination).andThen <|
    (call.swapLatest destination).andThen <|
    (assign fun state => { state with published := true }).andThen <|
    retainNewest.andThen <|
    return_ (.published (call.manifest destination))).ensure <|
  call.cleanUp destination

/-- Whether the latest snapshot is younger than the minimum age. -/
def skips (latest : SnapshotInfo) : Bool :=
  call.minAge.any fun age => call.checkedAt - age < latest.asOf

def publishSnapshot : Publishing Content Report :=
  (quiet .prepare (call.minAge.any (· < 0))).andThen <|
  (read fun state => (latestSnapshot state.disk).filter call.skips).bind fun
    | some latest => return_ (.skipped latest)
    | none =>
      (quiet .mkdir false).andThen <|
      (read fun state => uniqueDestination state.disk call.stamp).bind call.publishAs

/-- How a call ends and the files that it leaves. -/
def run (disk : Disk Content) : Outcome Report × Disk Content :=
  let ended := call.publishSnapshot call.faults ⟨disk, false⟩
  (ended.1, ended.2.disk)

end Call

/-- What a call makes of the files. -/
def step (disk : Disk Content) (call : Call Content) : Disk Content := (call.run disk).2

end TradingEngine.Snapshots
