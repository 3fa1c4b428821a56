import Nazg.Lib.Columns

/-!
# Snapshots

A project has brain snapshots and workspace snapshots, each stamped with the second in
which it was added. The latest ones are asked for by that stamp, and by nothing else.
-/

namespace Nazg.Nexus

open Lib Lib.Sqlite

inductive SnapshotTable where
  | projects
  | snapshots
  | workspaceSnapshots
  deriving DecidableEq

abbrev SnapshotTables := SnapshotTable → Table Row

/-- The columns of a table besides its id; of the projects only the ids matter. -/
def snapshotSchema : SnapshotTable → List (Column SnapshotTable)
  | .projects => []
  | .snapshots =>
      [{ name := "project_id", affinity := .integer, notNull := true, references := some .projects },
        { name := "tree_hash", notNull := true }, { name := "file_count", affinity := .integer },
        { name := "total_bytes", affinity := .integer },
        { name := "created_at", affinity := .integer, notNull := true }]
  | .workspaceSnapshots =>
      [{ name := "project_id", affinity := .integer, notNull := true, references := some .projects },
        { name := "brain_snapshot_id", affinity := .integer, references := some .snapshots },
        { name := "label" }, { name := "trigger_type", notNull := true },
        { name := "timestamp", affinity := .integer, notNull := true },
        { name := "build_dir_hash" }, { name := "deps_manifest_hash" }, { name := "env_snapshot" },
        { name := "system_info" },
        { name := "restore_count", affinity := .integer, default := .int 0 },
        { name := "is_clean_build", affinity := .integer, default := .int 0 },
        { name := "git_commit" }, { name := "git_branch" },
        { name := "created_at", affinity := .integer, notNull := true }, { name := "tags" }]

/-! ## Adding -/

inductive SnapshotCall where
  | addSnapshot (now projectId : Int64) (hash : Bytes) (fileCount : Int32) (totalBytes : Int64)
  | addWorkspaceSnapshot (now projectId brainSnapshotId : Int64)
      (label triggerType buildDirHash depsManifestHash envSnapshotJson systemInfoJson : Bytes)
      (isCleanBuild : Bool) (gitCommit gitBranch : Bytes)

namespace SnapshotCall

def table : SnapshotCall → SnapshotTable
  | addSnapshot .. => .snapshots
  | addWorkspaceSnapshot .. => .workspaceSnapshots

def now : SnapshotCall → Int64
  | addSnapshot now .. | addWorkspaceSnapshot now .. => now

def projectId : SnapshotCall → Int64
  | addSnapshot _ projectId .. | addWorkspaceSnapshot _ projectId .. => projectId

/-- What the call binds. An absent brain snapshot is a NULL in the statement. -/
def params : SnapshotCall → List (String × Bytes)
  | addSnapshot now projectId hash fileCount totalBytes =>
      [("project_id", decimal projectId.toInt), ("tree_hash", hash),
        ("file_count", decimal fileCount.toInt), ("total_bytes", decimal totalBytes.toInt),
        ("created_at", decimal now.toInt)]
  | addWorkspaceSnapshot now projectId brainSnapshotId label triggerType buildDirHash
      depsManifestHash envSnapshotJson systemInfoJson isCleanBuild gitCommit gitBranch =>
      ("project_id", decimal projectId.toInt) ::
      (if 0 < brainSnapshotId then [("brain_snapshot_id", decimal brainSnapshotId.toInt)] else []) ++
      [("label", label), ("trigger_type", triggerType), ("timestamp", decimal now.toInt),
        ("build_dir_hash", buildDirHash), ("deps_manifest_hash", depsManifestHash),
        ("env_snapshot", envSnapshotJson), ("system_info", systemInfoJson),
        ("is_clean_build", if isCleanBuild then bytes "1" else bytes "0"),
        ("git_commit", gitCommit), ("git_branch", gitBranch), ("created_at", decimal now.toInt)]

/-- `Store::add_snapshot` and `Store::add_workspace_snapshot`: the id, unless the statement
is refused. -/
def run (c : SnapshotCall) (tables : SnapshotTables) : Option (Int × SnapshotTables) :=
  insertInto snapshotSchema c.table c.params tables

/-- The row the call writes. -/
def row (c : SnapshotCall) : Row := newRow (snapshotSchema c.table) c.params

end SnapshotCall

/-- The calls one after the other: those that added something, each with the id it
returned, and the tables at the end. -/
def addSnapshots : List SnapshotCall → SnapshotTables → List (SnapshotCall × Int) × SnapshotTables
  | [], tables => ([], tables)
  | c :: cs, tables =>
      match c.run tables with
      | none => addSnapshots cs tables
      | some (id, tables) =>
          let r := addSnapshots cs tables
          ((c, id) :: r.1, r.2)

/-! ## Asking -/

structure Snapshot where
  id : Int
  projectId : Int
  treeHash : Bytes
  fileCount : Int
  totalBytes : Int
  createdAt : Int
  deriving DecidableEq

/-- The integer in an INTEGER column. -/
def stampColumn (name : String) (x : Int × Row) : Int :=
  match x.2 name with
  | .int i => i
  | _ => 0

/-- `WHERE project_id = ? ORDER BY ... DESC`. -/
def newestRows (o : RowOrder) (t : SnapshotTable) (stamp : String) (projectId : Int64)
    (tables : SnapshotTables) : List (Int × Row) :=
  o.orderBy (fun x => -stampColumn stamp x) ((tables t).rows.filter fun x =>
    x.2 "project_id" = (bindText (decimal projectId.toInt)).toInteger)

/-- `LIMIT ?`, where a negative number is none. -/
def limitRows (n : Int) (rows : List (Int × Row)) : List (Int × Row) :=
  if n < 0 then rows else rows.take n.toNat

def readSnapshot (x : Int × Row) : Snapshot where
  id := x.1
  projectId := (x.2 "project_id").getInt.getD 0
  treeHash := (x.2 "tree_hash").getText.getD []
  fileCount := ((x.2 "file_count").getInt.getD 0).bmod (2 ^ 32)
  totalBytes := (x.2 "total_bytes").getInt.getD 0
  createdAt := (x.2 "created_at").getInt.getD 0

/-- `Store::latest_snapshot`. -/
def latestSnapshot (o : RowOrder) (projectId : Int64) (tables : SnapshotTables) :
    Option Snapshot :=
  (limitRows 1 (newestRows o .snapshots "created_at" projectId tables)).head?.map readSnapshot

/-- The map of a workspace snapshot, of these columns besides its id. -/
def readColumns (columns : List (Column SnapshotTable)) (x : Int × Row) : List (String × Bytes) :=
  ("id", decimal x.1) :: columns.map fun c =>
    match c.affinity with
    | .integer => (c.name, decimal ((x.2 c.name).getInt.getD 0))
    | .text => (c.name, (x.2 c.name).getText.getD [])

/-- `Store::latest_workspace_snapshot`. -/
def latestWorkspaceSnapshot (o : RowOrder) (projectId : Int64) (tables : SnapshotTables) :
    Option (List (String × Bytes)) :=
  (limitRows 1 (newestRows o .workspaceSnapshots "timestamp" projectId tables)).head?.map
    (readColumns (snapshotSchema .workspaceSnapshots))

/-- The columns a listing leaves out. -/
def listedColumns : List (Column SnapshotTable) :=
  (snapshotSchema .workspaceSnapshots).filter fun c =>
    c.name ≠ "env_snapshot" ∧ c.name ≠ "system_info"

/-- `Store::list_workspace_snapshots`. -/
def listWorkspaceSnapshots (o : RowOrder) (projectId : Int64) (limit : Int)
    (tables : SnapshotTables) : List (List (String × Bytes)) :=
  (limitRows limit (newestRows o .workspaceSnapshots "timestamp" projectId tables)).map
    (readColumns listedColumns)

end Nazg.Nexus

/-!
## Tags of workspace snapshots

A tag is a name that a project gives to one of its workspace snapshots, and goes with the
snapshot when that is deleted. The rows of its files and of its restores go as well, but
nothing here reads them.
-/

namespace Nazg.Nexus

open Lib Lib.Sqlite

/-- A row of `workspace_tags`. -/
structure TagRow where
  projectId : Int64
  snapshotId : Int
  tagName : Bytes
  description : Bytes
  createdAt : Int64
  deriving DecidableEq

/-- The tables of the snapshots and their tags. SQLite hands out no id beyond 64 bits. -/
structure WorkspaceTables where
  tables : SnapshotTables
  tags : Table TagRow
  wf : (tables .workspaceSnapshots).Wf
  bounded : (tables .workspaceSnapshots).lastId < 2 ^ 63

namespace WorkspaceTables

/-- The workspace snapshots of a project, oldest first. -/
def rowsOf (projectId : Int64) (s : WorkspaceTables) : List (Int × Row) :=
  (s.tables .workspaceSnapshots).rows.filter fun x =>
    x.2 "project_id" = (bindText (decimal projectId.toInt)).toInteger

/-- `list_workspace_tags`, ordered by name. -/
def listWorkspaceTags (projectId : Int64) (s : WorkspaceTables) : List TagRow :=
  (s.tags.data.filter fun r => r.projectId = projectId).mergeSort fun r r' =>
    r.tagName ≤ r'.tagName

/-- `delete_workspace_snapshot`. -/
def deleteWorkspaceSnapshot (s : WorkspaceTables) (id : Int) : WorkspaceTables where
  tables := Function.update s.tables .workspaceSnapshots
    ((s.tables .workspaceSnapshots).deleteWhere fun i _ => i = id)
  tags := s.tags.deleteWhere fun _ r => r.snapshotId = id
  wf := by
    rw [Function.update_self]
    exact s.wf.deleteWhere _
  bounded := by
    rw [Function.update_self]
    exact s.bounded

theorem nodup_rowsOf (projectId : Int64) (s : WorkspaceTables) : (s.rowsOf projectId).Nodup := by
  have hnodup : (s.tables .workspaceSnapshots).rows.Nodup :=
    List.Nodup.of_map Prod.fst (s.wf.increasing.imp Int.ne_of_lt)
  exact hnodup.filter _

theorem eq_of_fst_eq {s : WorkspaceTables} {projectId : Int64} {x y : Int × Row}
    (hx : x ∈ s.rowsOf projectId) (hy : y ∈ s.rowsOf projectId) (h : x.1 = y.1) : x = y :=
  List.inj_on_of_nodup_map (s.wf.increasing.imp Int.ne_of_lt) (List.mem_of_mem_filter hx)
    (List.mem_of_mem_filter hy) h

theorem mem_listWorkspaceTags {s : WorkspaceTables} {projectId : Int64} {r : TagRow} :
    r ∈ s.listWorkspaceTags projectId ↔ r ∈ s.tags.data ∧ r.projectId = projectId := by
  rw [listWorkspaceTags, (List.mergeSort_perm _ _).mem_iff, List.mem_filter, decide_eq_true_eq]

@[simp] theorem rowsOf_delete (projectId : Int64) (s : WorkspaceTables) (id : Int) :
    (s.deleteWorkspaceSnapshot id).rowsOf projectId =
      (s.rowsOf projectId).filter fun x => x.1 ≠ id := by
  simp only [rowsOf, deleteWorkspaceSnapshot, Function.update_self, Table.deleteWhere,
    List.filter_filter]
  refine List.filter_congr ?_
  intro x _
  simp [Bool.and_comm]

@[simp] theorem tags_delete (s : WorkspaceTables) (id : Int) :
    (s.deleteWorkspaceSnapshot id).tags.data = s.tags.data.filter fun r => r.snapshotId ≠ id := by
  simp only [deleteWorkspaceSnapshot, Table.deleteWhere, Table.data, List.filter_map]
  congr 1
  refine List.filter_congr ?_
  intro x _
  simp

/-- An id is found again in the text that a listing has for it. -/
theorem stoll_id {s : WorkspaceTables} {projectId : Int64} {x : Int × Row}
    (hx : x ∈ s.rowsOf projectId) : stoll (decimal x.1) = some x.1 := by
  have hmem := Table.mem_ids (List.mem_of_mem_filter hx)
  have hpos := s.wf.pos _ hmem
  have hle := s.wf.le_lastId _ hmem
  have hbound := s.bounded
  exact parseInteger_decimal (by omega) (by omega)

end WorkspaceTables

end Nazg.Nexus
