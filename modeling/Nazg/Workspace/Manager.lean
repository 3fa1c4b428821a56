import Nazg.Lib.Query
import Nazg.Nexus.Snapshots
import Nazg.Workspace.Diff

/-!
# Snapshots of a workspace

A snapshot is a row for each scanned file and a copy of the file below `.nazg`, in the
tree it is taken of. A restore reads the rows, chooses paths by mode and options and copies
these back; what fails for one file is an error in the result and does not stop the rest.

Of the store here are the snapshots of the project and the rows of their files. A
statement that fails is one of the outcomes: a row that cannot be inserted is left out,
and rows that cannot be read are none.
-/

namespace Nazg.Workspace

open Lib Lib.Sqlite Nexus

/-- A row of `workspace_files`. -/
structure FileRow where
  snapshotId : Int
  filePath : Text
  fileType : Bytes
  fileHash : Text
  fileSize : Int

/-! ## Rows -/

def FileType.text : FileType → Bytes
  | .source => bytes "source"
  | .build => bytes "build"
  | .dependency => bytes "dep"
  | .config => bytes "config"
  | .unknown => bytes "unknown"

def FileType.ofText (s : Bytes) : FileType :=
  if s = bytes "source" then .source
  else if s = bytes "build" then .build
  else if s = bytes "dep" then .dependency
  else if s = bytes "config" then .config
  else .unknown

theorem FileType.ofText_text (t : FileType) : FileType.ofText t.text = t := by
  cases t <;> decide +kernel

/-- `add_workspace_file`. -/
def fileRow (snapshotId : Int) (f : WorkspaceFile) : FileRow :=
  ⟨snapshotId, .ofCStr f.path, f.type.text, .ofCStr f.hash, f.size⟩

def FileRow.file (r : FileRow) : WorkspaceFile :=
  ⟨r.filePath.bytes, .ofText r.fileType, r.fileHash.bytes, r.fileSize⟩

/-- `get_workspace_files`, ordered by path. -/
def getWorkspaceFiles (snapshotId : Int) (t : Table FileRow) : List WorkspaceFile :=
  ((t.data.filter fun r => r.snapshotId = snapshotId).map FileRow.file).mergeSort
    fun f g => f.path ≤ g.path

theorem zero_notMem_hexNumber (n : Nat) : (0 : UInt8) ∉ hexNumber n := by
  have hdigit : ∀ k : Fin 16, (Nat.digitChar k).toUInt8 ≠ 0 := by decide +kernel
  induction n using Nat.strongRecOn with
  | ind n ih =>
      rw [hexNumber, Nat.toDigits_eq_if (by decide)]
      split
      · next h => simpa using (hdigit ⟨n, h⟩).symm
      · rw [List.map_append, List.mem_append, not_or]
        refine ⟨ih (n / 16) (by omega), ?_⟩
        simpa using (hdigit ⟨n % 16, Nat.mod_lt _ (by decide)⟩).symm

theorem zero_notMem_computeFileHash (readable : Bool) (content : Bytes) :
    (0 : UInt8) ∉ computeFileHash readable content := by
  rw [computeFileHash]
  split
  · exact zero_notMem_hexNumber _
  · exact List.not_mem_nil

/-- A scanned file is read back as it was recorded. -/
theorem file_fileRow {opts : SnapshotOptions} {reading : Reading} {tree : FileTree} {id : Int}
    {f : WorkspaceFile} (hf : f ∈ scanWorkspace opts reading tree) : (fileRow id f).file = f := by
  obtain ⟨content, hcontent, -, -, heq⟩ := mem_scanWorkspace.1 hf
  have hpath : cstr f.path = f.path := by
    exact cstr_eq_self.2
      (tree.nulFree _ (OrdMap.mem_keys.2 ⟨_, FileTree.content_eq_some.1 hcontent⟩))
  have hhash : cstr f.hash = f.hash := by
    rw [heq]
    exact cstr_eq_self.2 (zero_notMem_computeFileHash _ _)
  rw [FileRow.file, fileRow, Text.ofCStr_bytes, Text.ofCStr_bytes, hpath, hhash,
    FileType.ofText_text]

/-- A project: its workspace, and what the store has of it. -/
structure Project where
  projectId : Int64
  root : Bytes
  tree : FileTree
  /-- The projects of the snapshots. -/
  snapshots : Table Int64
  files : Table FileRow
  wf : snapshots.Wf
  referenced : ∀ r ∈ files.data, r.snapshotId ≤ snapshots.lastId
  /-- Only scanned files are recorded. -/
  recorded : ∀ r ∈ files.data, skips {} r.file.path = false ∧ r.file.type = detectFileType r.file.path

structure Snapshot where
  projectId : Int64
  files : List WorkspaceFile

namespace Project

/-- `get_snapshot`, where the rows of the files may not be readable. -/
def getSnapshot (w : Project) (filesRead : Bool) (id : Int) : Option Snapshot :=
  (w.snapshots.get? id).map fun projectId =>
    ⟨projectId, if filesRead then getWorkspaceFiles id w.files else []⟩

/-! ## Taking a snapshot -/

/-- `snapshot_storage_dir`, relative to the root. -/
def storageDir (id : Int) : Bytes := bytes ".nazg/workspace/snapshots/" ++ decimal id

def storagePath (id : Int) (path : Bytes) : Bytes := storageDir id ++ slash :: path

structure CreateHost where
  reading : Reading
  recorded : Bool
  fileRecorded : Bytes → Bool
  disk : FileTree.Disk

/-- One turn of the copy loop: whether the file was copied. -/
def copyIn (disk : FileTree.Disk) (id : Int) (path : Bytes) (t : FileTree) : Bool × FileTree :=
  if t.get path = none then (false, t)
  else
    match t.makeDirs disk (ancestors (storagePath id path)) with
    | (false, t) => (false, t)
    | (true, t) =>
        match t.copyFile disk path (storagePath id path) with
        | (none, t) => (true, t)
        | (some _, t) => (false, t)

/-- The copy loop: whether every file was copied. -/
def copyAllIn (disk : FileTree.Disk) (id : Int) : List WorkspaceFile → FileTree → Bool × FileTree
  | [], t => (true, t)
  | f :: fs, t =>
      let one := copyIn disk id f.path t
      let rest := copyAllIn disk id fs one.2
      (one.1 && rest.1, rest.2)

/-- The rows of the files of a new snapshot. -/
def recordFiles (id : Int) (found : List WorkspaceFile) (t : Table FileRow) : Table FileRow :=
  found.foldl (fun t f => t.insertRow (fileRow id f)) t

theorem data_recordFiles (id : Int) (found : List WorkspaceFile) (t : Table FileRow) :
    (recordFiles id found t).data = t.data ++ found.map (fileRow id) := by
  rw [recordFiles]
  induction found generalizing t with
  | nil => simp
  | cons f found ih =>
      rw [List.foldl_cons, ih, Table.data_insertRow, List.map_cons, List.append_assoc]
      rfl

/-- The files that a snapshot records. -/
def found (opts : SnapshotOptions) (host : CreateHost) (w : Project) : List WorkspaceFile :=
  (scanWorkspace opts host.reading w.tree).filter fun f => host.fileRecorded f.path

theorem found_sublist {opts : SnapshotOptions} {host : CreateHost} {w : Project} :
    (found opts host w).Sublist (scanWorkspace opts host.reading w.tree) := List.filter_sublist

/-- The record of a snapshot and those of its files. -/
def record (opts : SnapshotOptions) (host : CreateHost) (w : Project) : Project :=
  { w with
    snapshots := w.snapshots.insertRow w.projectId
    files := recordFiles (w.snapshots.lastId + 1) (found opts host w) w.files
    wf := w.wf.insertRow _
    referenced := by
      intro r hr
      rw [data_recordFiles] at hr
      show r.snapshotId ≤ w.snapshots.lastId + 1
      rcases List.mem_append.1 hr with hr | hr
      · exact (w.referenced r hr).trans (by omega)
      · obtain ⟨f, -, rfl⟩ := List.mem_map.1 hr
        exact le_refl _
    recorded := by
      intro r hr
      rw [data_recordFiles] at hr
      rcases List.mem_append.1 hr with hr | hr
      · exact w.recorded r hr
      · obtain ⟨f, hf, rfl⟩ := List.mem_map.1 hr
        have hscan := found_sublist.subset hf
        obtain ⟨_, -, -, hskips, heq⟩ := mem_scanWorkspace.1 hscan
        rw [file_fileRow hscan]
        exact ⟨skips_default hskips, by rw [heq]; rfl⟩ }

structure Created where
  id : Int
  /-- The snapshot directory is there and every scanned file is copied into it. -/
  copiedAll : Bool
  deriving DecidableEq

/-- `create_snapshot` of the project: nothing if its record cannot be stored. -/
def createSnapshot (opts : SnapshotOptions) (host : CreateHost) (w : Project) :
    Option Created × Project :=
  if ¬ host.recorded then (none, w)
  else
    let scan := scanWorkspace opts host.reading w.tree
    let w := w.record opts host
    let id := w.snapshots.lastId
    match w.tree.makeDirs host.disk (ancestors (storageDir id) ++ [storageDir id]) with
    | (false, t) => (some ⟨id, false⟩, { w with tree := t })
    | (true, t) =>
        let copies := copyAllIn host.disk id scan t
        (some ⟨id, copies.1⟩, { w with tree := copies.2 })

/-- `diff_current`: from the workspace as it is to the snapshot. -/
def diffCurrent (w : Project) (filesRead : Bool) (reading : Reading) (projectId : Int64)
    (id : Int) : SnapshotDiff :=
  if projectId ≠ w.projectId then ⟨[], [], [], [], []⟩
  else
    match w.getSnapshot filesRead id with
    | none => ⟨[], [], [], [], []⟩
    | some snapshot => computeSnapshotDiff (scanWorkspace {} reading w.tree) snapshot.files

/-! ## Restoring -/

structure RestoreOptions where
  restoreType : Bytes := bytes "smart"
  dryRun : Bool := false
  includePaths : List Bytes := []
  excludePaths : List Bytes := []

structure RestoreResult where
  success : Bool
  filesRestored : Nat
  filesSkipped : Nat
  errors : List Bytes

structure RestoreHost where
  filesRead : Bool
  /-- The reading of the rows, and of the workspace, for the diff of a smart restore. -/
  diffRead : Bool
  reading : Reading
  disk : FileTree.Disk

/-- Whether a path is one of the given ones or below one of them. -/
def isExcluded (path : Bytes) (patterns : List Bytes) : Bool :=
  patterns.any fun pat => !pat.isEmpty && (path = pat || (pat ++ [slash]).isPrefixOf path)

def matchesPrefix (path : Bytes) (patterns : List Bytes) : Bool :=
  patterns.isEmpty || isExcluded path patterns

namespace RestoreOptions

def shouldInclude (opts : RestoreOptions) (path : Bytes) : Bool :=
  (opts.includePaths.isEmpty || matchesPrefix path opts.includePaths) &&
    !isExcluded path opts.excludePaths

/-- `std::tolower` in the C locale. -/
def toLower (c : UInt8) : UInt8 := if 65 ≤ c ∧ c ≤ 90 then c + 32 else c

/-- The mode that is asked for. -/
def asked (opts : RestoreOptions) : Bytes :=
  (if opts.restoreType.isEmpty then bytes "full" else opts.restoreType).map toLower

/-- The mode, or the error. -/
def mode (opts : RestoreOptions) : Except Bytes Bytes :=
  let mode :=
    if !opts.includePaths.isEmpty && opts.asked = bytes "full" then bytes "partial" else opts.asked
  if mode = bytes "partial" ∧ opts.includePaths.isEmpty then
    .error (bytes "Partial restore requires at least one --include/--only path")
  else if mode ≠ bytes "full" ∧ mode ≠ bytes "smart" ∧ mode ≠ bytes "partial" then
    .error (bytes "Unknown restore mode: " ++ mode)
  else .ok mode

/-- Whether a smart restore takes a change into account. -/
def considers (opts : RestoreOptions) (includeAll : Bool) (c : FileChange) : Bool :=
  includeAll && (c.changeType = .added || c.changeType = .modified) || c.changeType = .added ||
    !opts.includePaths.isEmpty && matchesPrefix c.path opts.includePaths

/-- The paths a smart restore would restore, of those the snapshot has. -/
def smartCandidates (opts : RestoreOptions) (d : SnapshotDiff) (files : List WorkspaceFile) :
    List Bytes :=
  let all := (d.buildChanges ++ d.depChanges ++ d.configChanges ++ d.otherChanges).filter
    (opts.considers true)
  let source := d.sourceChanges.filter (opts.considers false)
  ((all ++ source).filter fun c => (fileAt files c.path).isSome).map FileChange.path

end RestoreOptions

/-- One turn of the restore loop, for a file of the snapshot: the error, if there is one. -/
def restoreFile (disk : FileTree.Disk) (root : Bytes) (id : Int) (dryRun : Bool)
    (relative : Bytes) (t : FileTree) : Option Bytes × FileTree :=
  let source := storagePath id relative
  if t.get source = none then
    (some (bytes "Missing snapshot file: " ++ (root ++ slash :: source)), t)
  else if dryRun then (none, t)
  else
    match t.makeDirs disk (ancestors relative) with
    | (false, t) => (some (bytes "Failed to prepare directory for " ++ (root ++ slash :: relative)), t)
    | (true, t) =>
        match t.copyFile disk source relative with
        | (some message, t) =>
            (some (bytes "Failed to restore " ++ (relative ++ (bytes ": " ++ message))), t)
        | (none, t) => (none, t)

/-- The restore loop: what came of each path. -/
def restoreFiles (disk : FileTree.Disk) (root : Bytes) (id : Int) (dryRun : Bool) :
    List Bytes → FileTree → List (Bytes × Option Bytes) × FileTree
  | [], t => ([], t)
  | relative :: rest, t =>
      let one := restoreFile disk root id dryRun relative t
      let all := restoreFiles disk root id dryRun rest one.2
      ((relative, one.1) :: all.1, all.2)

/-- A restore that does not come to its files. -/
def RestoreResult.refused (error : Bytes) : RestoreResult := ⟨false, 0, 0, [error]⟩

/-- The paths a restore goes over before its filters. -/
def candidates (w : Project) (host : RestoreHost) (id : Int) (opts : RestoreOptions)
    (mode : Bytes) (files : List WorkspaceFile) : List Bytes :=
  if mode = bytes "smart" then
    opts.smartCandidates (w.diffCurrent host.diffRead host.reading w.projectId id) files
  else files.map WorkspaceFile.path

/-- The paths it restores, in order. -/
def restorePaths (opts : RestoreOptions) (candidates : List Bytes) : List Bytes :=
  (candidates.filter opts.shouldInclude).dedup.mergeSort fun a b => a ≤ b

/-- `restore`. -/
def restore (projectId : Int64) (id : Int) (opts : RestoreOptions) (host : RestoreHost)
    (w : Project) : RestoreResult × Project :=
  if projectId ≠ w.projectId then (.refused (bytes "Project not found"), w)
  else
    match w.getSnapshot host.filesRead id with
    | none => (.refused (bytes "Snapshot not found"), w)
    | some snapshot =>
        if snapshot.projectId ≠ projectId then
          (.refused (bytes "Snapshot does not belong to this project"), w)
        else if w.tree.get (storageDir id) = none then
          (.refused (bytes "Snapshot data not found at " ++ (w.root ++ slash :: storageDir id)), w)
        else
          match opts.mode with
          | .error e => (.refused e, w)
          | .ok mode =>
              let candidates := w.candidates host id opts mode snapshot.files
              let filteredOut := (candidates.filter fun p => !opts.shouldInclude p).length
              let run := restoreFiles host.disk w.root id opts.dryRun
                (restorePaths opts candidates) w.tree
              let errors := run.1.filterMap Prod.snd
              let restored := (run.1.filter fun turn => turn.2.isNone).length
              ({ success := errors.isEmpty
                 filesRestored := restored
                 filesSkipped := filteredOut + errors.length + (if opts.dryRun then restored else 0)
                 errors := errors },
                { w with tree := run.2 })

end Project

/-!
## Pruning

The workspace snapshots behind the newest ones are deleted, except, where that is asked
for, those that have a tag. The newest are taken from a listing, and what is not on the
listing is not looked at.
-/

structure PruneOptions where
  dryRun : Bool := false
  untaggedOnly : Bool := false

structure PruneResult where
  totalCandidates : Nat := 0
  deleted : Nat := 0
  skippedTagged : Nat := 0
  deletedIds : List Int := []
  skippedTaggedIds : List Int := []
  deriving DecidableEq

/-- Which statements go through. -/
structure PruneHost where
  listed : Bool
  tagsRead : Bool
  deletes : Int → Bool

/-- `list_snapshots`, of which only the ids are used here. A query that fails lists nothing. -/
def listSnapshots (o : RowOrder) (host : PruneHost) (projectId : Int64) (limit : Int)
    (s : WorkspaceTables) : List Int :=
  if host.listed then
    (listWorkspaceSnapshots o projectId limit s.tables).map fun row =>
      ((row.lookup "id").bind stoll).getD 0
  else []

/-- The keys of the tag map. -/
def taggedIds (host : PruneHost) (projectId : Int64) (s : WorkspaceTables) : List Int :=
  if host.tagsRead then (s.listWorkspaceTags projectId).map TagRow.snapshotId else []

/-- One turn of the loop. -/
def pruneTurn (host : PruneHost) (opts : PruneOptions) (tagged : List Int)
    (r : PruneResult × WorkspaceTables) (id : Int) : PruneResult × WorkspaceTables :=
  if id ∈ tagged ∧ opts.untaggedOnly then
    ({ r.1 with
        skippedTagged := r.1.skippedTagged + 1
        skippedTaggedIds := r.1.skippedTaggedIds ++ [id] }, r.2)
  else if opts.dryRun then ({ r.1 with deletedIds := r.1.deletedIds ++ [id] }, r.2)
  else if host.deletes id then
    ({ r.1 with deletedIds := r.1.deletedIds ++ [id] }, r.2.deleteWorkspaceSnapshot id)
  else r

/-- `prune_old_snapshots`. -/
def pruneOldSnapshots (o : RowOrder) (host : PruneHost) (projectId : Int64) (keepCount : Int32)
    (opts : PruneOptions) (s : WorkspaceTables) : PruneResult × WorkspaceTables :=
  if keepCount < 0 then ({}, s)
  else
    let snapshots := listSnapshots o host projectId 1000 s
    let keep := keepCount.toInt.toNat
    if snapshots.length ≤ keep then ({}, s)
    else
      let r := (snapshots.drop keep).foldl
        (pruneTurn host opts (taggedIds host projectId s))
        ({ totalCandidates := snapshots.length - keep }, s)
      ({ r.1 with deleted := r.1.deletedIds.length }, r.2)

end Nazg.Workspace
