import Nazg.Lib.Columns
import Nazg.Lib.OrdMap
import Nazg.Nexus.DockerStore

/-!
# Operations with optional references

Seven operations write a row with foreign keys of which some may be absent: the failures
of a workspace, the recovery actions and their history, the migrations of repositories
and the actions of the orchestrator. The caller passes 0 for none, and each operation
binds an absent reference as an empty string. (`add_workspace_snapshot`, which has a
statement of its own with NULL for that case, is in `Nexus.Snapshots`.)

The schema below is that of migrations 005, 006, 008 and 011. Of the tables that are only
referenced nothing but the ids matters.
-/

namespace Nazg.Nexus

open Lib Lib.Sqlite

inductive TableName where
  | projects
  | workspaceSnapshots
  | brainFailurePatterns
  | gitServers
  | servers
  | dockerStacks
  | workspaceFailures
  | brainRecoveryActions
  | brainRecoveryHistory
  | repoMigrations
  | dockerOrchestrationActions
  deriving DecidableEq

/-- The tables of the database. -/
abbrev Tables := TableName → Table Row

def textColumns (names : List String) : List (Column TableName) := names.map fun name => { name }

def integerColumns (names : List String) : List (Column TableName) :=
  names.map fun name => { name, affinity := .integer }

/-- An INTEGER column with a FOREIGN KEY. -/
def reference (name : String) (parent : TableName) : Column TableName :=
  { name, affinity := .integer, references := some parent }

/-- The columns of a table besides its id. -/
def schema : TableName → List (Column TableName)
  | .workspaceFailures =>
      [{ reference "project_id" .projects with notNull := true },
        { name := "failure_type", notNull := true }, { name := "error_signature", notNull := true },
        reference "before_snapshot_id" .workspaceSnapshots,
        reference "after_snapshot_id" .workspaceSnapshots,
        reference "resolution_snapshot_id" .workspaceSnapshots,
        { name := "resolved", affinity := .integer, default := .int 0 },
        { name := "severity", default := .text (.ofCStr (bytes "medium")) },
        { name := "timestamp", affinity := .integer, notNull := true }] ++
      textColumns ["error_message", "changed_files", "changed_deps", "resolution_type",
        "resolution_notes", "error_location", "command_executed", "changed_env", "changed_system",
        "tags_json"] ++
      integerColumns ["exit_code", "resolved_at", "resolution_success"]
  | .brainRecoveryActions =>
      [reference "pattern_id" .brainFailurePatterns, reference "failure_id" .workspaceFailures,
        { name := "action_type", notNull := true },
        { name := "attempted_count", affinity := .integer, default := .int 0 },
        { name := "success_count", affinity := .integer, default := .int 0 },
        { name := "failure_count", affinity := .integer, default := .int 0 },
        { name := "requires_user_confirmation", affinity := .integer, default := .int 1 },
        { name := "created_at", affinity := .integer, notNull := true }] ++
      textColumns ["action_params_json", "action_description"] ++
      integerColumns ["avg_execution_time_ms", "last_attempted"]
  | .brainRecoveryHistory =>
      [{ reference "project_id" .projects with notNull := true },
        { reference "failure_id" .workspaceFailures with notNull := true },
        reference "action_id" .brainRecoveryActions,
        { name := "started_at", affinity := .integer, notNull := true },
        { name := "user_approved", affinity := .integer, default := .int 0 }] ++
      textColumns ["output_log", "restored_files_json", "modified_configs_json",
        "execution_mode"] ++
      integerColumns ["completed_at", "success", "execution_time_ms", "verification_passed"]
  | .repoMigrations =>
      [reference "server_id" .gitServers, reference "project_id" .projects,
        { name := "repo_name", notNull := true },
        { name := "started_at", affinity := .integer, notNull := true },
        { name := "status", default := .text (.ofCStr (bytes "pending")) }] ++
      textColumns ["source_path", "error_message"] ++
      integerColumns ["completed_at", "branch_count", "tag_count", "size_bytes"]
  | .dockerOrchestrationActions =>
      [{ reference "server_id" .servers with notNull := true }, reference "stack_id" .dockerStacks,
        { name := "action_type", notNull := true }, { name := "target", notNull := true },
        { name := "triggered_by", default := .text (.ofCStr (bytes "manual")) },
        { name := "status", default := .text (.ofCStr (bytes "pending")) },
        { name := "started_at", affinity := .integer, notNull := true }] ++
      textColumns ["reason", "output", "error"] ++ integerColumns ["completed_at", "exit_code"]
  | _ => []

/-! ## The operations -/

/-- `std::to_string` of an id. -/
def idText (i : Int64) : Bytes := decimal i.toInt

/-- How an optional reference is bound: `id > 0 ? std::to_string(id) : ""`. -/
def optionalReference (id : Int64) : Bytes := if 0 < id then idText id else []

section

variable (now : Int) (tables : Tables)

/-- `Store::record_workspace_failure`. -/
def recordWorkspaceFailure (projectId : Int64)
    (failureType errorSignature errorMessage : Bytes) (beforeSnapshotId afterSnapshotId : Int64)
    (changedFilesJson changedDepsJson : Bytes) : Option (Int × Tables) :=
  insertInto schema .workspaceFailures
    [("project_id", idText projectId), ("failure_type", failureType),
      ("error_signature", errorSignature), ("error_message", errorMessage),
      ("before_snapshot_id", optionalReference beforeSnapshotId),
      ("after_snapshot_id", optionalReference afterSnapshotId),
      ("changed_files", changedFilesJson), ("changed_deps", changedDepsJson),
      ("timestamp", decimal now)] tables

/-- `Store::record_failure_with_context`. -/
def recordFailureWithContext (projectId : Int64)
    (failureType errorSignature errorMessage errorLocation commandExecuted : Bytes)
    (exitCode : Int) (beforeSnapshotId afterSnapshotId : Int64)
    (changedFilesJson changedDepsJson changedEnvJson changedSystemJson severity tagsJson : Bytes) :
    Option (Int × Tables) :=
  insertInto schema .workspaceFailures
    [("project_id", idText projectId), ("failure_type", failureType),
      ("error_signature", errorSignature), ("error_message", errorMessage),
      ("error_location", errorLocation), ("command_executed", commandExecuted),
      ("exit_code", decimal exitCode),
      ("before_snapshot_id", optionalReference beforeSnapshotId),
      ("after_snapshot_id", optionalReference afterSnapshotId),
      ("changed_files", changedFilesJson), ("changed_deps", changedDepsJson),
      ("changed_env", changedEnvJson), ("changed_system", changedSystemJson),
      ("severity", severity), ("tags_json", tagsJson), ("timestamp", decimal now)] tables

/-- `Store::update_failure_resolution`. -/
def updateFailureResolution (failureId : Int64) (resolutionType : Bytes)
    (resolutionSnapshotId : Int64) (notes : Bytes) (success : Bool) : Option Tables :=
  updateById schema .workspaceFailures failureId.toInt
    [("resolved", bytes "1"), ("resolved_at", decimal now), ("resolution_type", resolutionType),
      ("resolution_snapshot_id", optionalReference resolutionSnapshotId),
      ("resolution_notes", notes),
      ("resolution_success", if success then bytes "1" else bytes "0")] tables

/-- `Store::add_recovery_action`. -/
def addRecoveryAction (patternId failureId : Int64)
    (actionType actionParamsJson description : Bytes) (requiresConfirmation : Bool) :
    Option (Int × Tables) :=
  insertInto schema .brainRecoveryActions
    [("pattern_id", optionalReference patternId), ("failure_id", optionalReference failureId),
      ("action_type", actionType), ("action_params_json", actionParamsJson),
      ("action_description", description),
      ("requires_user_confirmation", if requiresConfirmation then bytes "1" else bytes "0"),
      ("created_at", decimal now)] tables

/-- `Store::begin_recovery_execution`. -/
def beginRecoveryExecution (projectId failureId actionId : Int64) (executionMode : Bytes) :
    Option (Int × Tables) :=
  insertInto schema .brainRecoveryHistory
    [("project_id", idText projectId), ("failure_id", idText failureId),
      ("action_id", optionalReference actionId), ("started_at", decimal now),
      ("execution_mode", executionMode)] tables

/-- The part of a record that `add_repo_migration` stores. -/
structure RepoMigrationRecord where
  serverId : Int64
  projectId : Int64
  repoName : Bytes
  sourcePath : Bytes
  startedAt : Int
  status : Bytes
  branchCount : Int
  tagCount : Int
  sizeBytes : Int
  errorMessage : Bytes

/-- `Store::add_repo_migration`. -/
def addRepoMigration (record : RepoMigrationRecord) : Option (Int × Tables) :=
  insertInto schema .repoMigrations
    [("server_id", idText record.serverId),
      ("project_id", if record.projectId ≠ 0 then idText record.projectId else []),
      ("repo_name", record.repoName), ("source_path", record.sourcePath),
      ("started_at", decimal (if record.startedAt ≠ 0 then record.startedAt else now)),
      ("status", if record.status = [] then bytes "pending" else record.status),
      ("branch_count", decimal record.branchCount), ("tag_count", decimal record.tagCount),
      ("size_bytes", decimal record.sizeBytes), ("error_message", record.errorMessage)] tables

/-- `Orchestrator::log_action`. -/
def logAction (serverId stackId : Int64) (actionType target reason triggeredBy : Bytes) :
    Option (Int × Tables) :=
  insertInto schema .dockerOrchestrationActions
    [("server_id", idText serverId), ("stack_id", optionalReference stackId),
      ("action_type", actionType), ("target", target), ("reason", reason),
      ("triggered_by", triggeredBy), ("status", bytes "pending"), ("started_at", decimal now)]
    tables

end

/-! ## One type of call -/

/-- A call of one of the seven. -/
inductive ReferenceCall where
  | recordWorkspaceFailure (projectId : Int64) (failureType errorSignature errorMessage : Bytes)
      (beforeSnapshotId afterSnapshotId : Int64) (changedFilesJson changedDepsJson : Bytes)
  | recordFailureWithContext (projectId : Int64)
      (failureType errorSignature errorMessage errorLocation commandExecuted : Bytes)
      (exitCode : Int) (beforeSnapshotId afterSnapshotId : Int64)
      (changedFilesJson changedDepsJson changedEnvJson changedSystemJson severity tagsJson : Bytes)
  | updateFailureResolution (failureId : Int64) (resolutionType : Bytes)
      (resolutionSnapshotId : Int64) (notes : Bytes) (success : Bool)
  | addRecoveryAction (patternId failureId : Int64)
      (actionType actionParamsJson description : Bytes) (requiresConfirmation : Bool)
  | beginRecoveryExecution (projectId failureId actionId : Int64) (executionMode : Bytes)
  | addRepoMigration (record : RepoMigrationRecord)
  | logAction (serverId stackId : Int64) (actionType target reason triggeredBy : Bytes)

namespace ReferenceCall

/-- The call, with the id of the row it writes; `none` when the statement fails. -/
def run (now : Int) (tables : Tables) : ReferenceCall → Option (Int × Tables)
  | recordWorkspaceFailure projectId failureType errorSignature errorMessage beforeSnapshotId
      afterSnapshotId changedFilesJson changedDepsJson =>
      Nexus.recordWorkspaceFailure now tables projectId failureType errorSignature errorMessage
        beforeSnapshotId afterSnapshotId changedFilesJson changedDepsJson
  | recordFailureWithContext projectId failureType errorSignature errorMessage errorLocation
      commandExecuted exitCode beforeSnapshotId afterSnapshotId changedFilesJson changedDepsJson
      changedEnvJson changedSystemJson severity tagsJson =>
      Nexus.recordFailureWithContext now tables projectId failureType errorSignature errorMessage
        errorLocation commandExecuted exitCode beforeSnapshotId afterSnapshotId changedFilesJson
        changedDepsJson changedEnvJson changedSystemJson severity tagsJson
  | updateFailureResolution failureId resolutionType resolutionSnapshotId notes success =>
      (Nexus.updateFailureResolution now tables failureId resolutionType resolutionSnapshotId notes
        success).map fun tables => (failureId.toInt, tables)
  | addRecoveryAction patternId failureId actionType actionParamsJson description
      requiresConfirmation =>
      Nexus.addRecoveryAction now tables patternId failureId actionType actionParamsJson
        description requiresConfirmation
  | beginRecoveryExecution projectId failureId actionId executionMode =>
      Nexus.beginRecoveryExecution now tables projectId failureId actionId executionMode
  | addRepoMigration record => Nexus.addRepoMigration now tables record
  | logAction serverId stackId actionType target reason triggeredBy =>
      Nexus.logAction now tables serverId stackId actionType target reason triggeredBy

/-- The table written. -/
def table : ReferenceCall → TableName
  | recordWorkspaceFailure .. | recordFailureWithContext .. | updateFailureResolution .. =>
      .workspaceFailures
  | addRecoveryAction .. => .brainRecoveryActions
  | beginRecoveryExecution .. => .brainRecoveryHistory
  | addRepoMigration _ => .repoMigrations
  | logAction .. => .dockerOrchestrationActions

/-- The references that must name a row: column, parent and id. -/
def mandatory : ReferenceCall → List (String × TableName × Int64)
  | recordWorkspaceFailure projectId .. | recordFailureWithContext projectId .. =>
      [("project_id", .projects, projectId)]
  | updateFailureResolution failureId .. => [("id", .workspaceFailures, failureId)]
  | addRecoveryAction .. => []
  | beginRecoveryExecution projectId failureId .. =>
      [("project_id", .projects, projectId), ("failure_id", .workspaceFailures, failureId)]
  | addRepoMigration record => [("server_id", .gitServers, record.serverId)]
  | logAction serverId .. => [("server_id", .servers, serverId)]

/-- The references that may be absent, which is 0. -/
def optional : ReferenceCall → List (String × TableName × Int64)
  | recordWorkspaceFailure _ _ _ _ before after ..
  | recordFailureWithContext _ _ _ _ _ _ _ before after .. =>
      [("before_snapshot_id", .workspaceSnapshots, before),
        ("after_snapshot_id", .workspaceSnapshots, after)]
  | updateFailureResolution _ _ resolutionSnapshotId .. =>
      [("resolution_snapshot_id", .workspaceSnapshots, resolutionSnapshotId)]
  | addRecoveryAction patternId failureId .. =>
      [("pattern_id", .brainFailurePatterns, patternId),
        ("failure_id", .workspaceFailures, failureId)]
  | beginRecoveryExecution _ _ actionId _ => [("action_id", .brainRecoveryActions, actionId)]
  | addRepoMigration record => [("project_id", .projects, record.projectId)]
  | logAction _ stackId .. => [("stack_id", .dockerStacks, stackId)]

/-- Every reference names an existing row, an optional one that is not absent. -/
def Valid (tables : Tables) (c : ReferenceCall) : Prop :=
  (∀ r ∈ c.mandatory, r.2.2.toInt ∈ (tables r.2.1).ids) ∧
    ∀ r ∈ c.optional, r.2.2 = 0 ∨ r.2.2.toInt ∈ (tables r.2.1).ids

end ReferenceCall

/-- How the queries of these tables report a reference: the id of the row as it is, of
any other column `row.get_int(column).value_or(0)`. -/
def reported (id : Int) (row : Row) (column : String) : Int :=
  if column = "id" then id else (row column).getInt.getD 0

/-- The call succeeds, and the row it wrote is read back with every reference as given. -/
def ReferenceCall.Stored (now : Int) (tables : Tables) (c : ReferenceCall) : Prop :=
  ∃ id after, c.run now tables = some (id, after) ∧ ∃ row, (after c.table).get? id = some row ∧
    ∀ r ∈ c.mandatory ++ c.optional, reported id row r.1 = r.2.2.toInt

/-!
## How recovery actions went

The statement that counts an attempt. Every right-hand side reads the columns as they were
before it, and a sum, a product or a quotient of NULL is NULL. `avg_execution_time_ms` has
no default, and nothing but this statement writes it.

The score of an action is a floating-point number, so it stands beside the rows; the
quotient of two counts as such a number is a parameter.
-/

/-! ## SQL arithmetic -/

/-- An operand: nothing for NULL, and for a text the number it spells. -/
def operand : Value → Option Int
  | .null => none
  | .int i => some i
  | .text t => some ((integerLiteral t.bytes).getD 0)

def result : Option Int → Value
  | none => .null
  | some i => .int i

/-- A flag, as it is bound. -/
def flagText (flag : Bool) : Bytes := if flag then bytes "1" else bytes "0"

/-- `column + ?` -/
def plus (column : Value) (param : Bytes) : Option Int := do
  some ((← operand column) + (← operand (bindText param)))

/-! ## Attempts -/

/-- The `SET` clauses of `update_recovery_action_stats` but for the score, over the old
columns. -/
def attemptRow (now : Int) (success : Bool) (executionTimeMs : Int64) (r : Row) : Row := fun name =>
  if name = "attempted_count" then result (plus (r "attempted_count") (bytes "1"))
  else if name = "success_count" then result (plus (r "success_count") (flagText success))
  else if name = "failure_count" then result (plus (r "failure_count") (flagText !success))
  else if name = "avg_execution_time_ms" then
    result do
      let avg ← operand (r "avg_execution_time_ms")
      let attempted ← operand (r "attempted_count")
      let time ← operand (bindText (decimal executionTimeMs.toInt))
      some ((avg * attempted + time).tdiv (attempted + 1))
  else if name = "last_attempted" then (bindText (decimal now)).toInteger
  else r name

/-- The tables, and the column `confidence_score` by the id of the action. -/
structure ActionDb (Score : Type) where
  tables : Tables
  confidence : Int → Option Score

section

variable {Score : Type}

/-- `confidence_score`, over the old columns. -/
def attemptScore (ratio : Int → Int → Score) (success : Bool) (r : Row) : Option Score := do
  some (ratio (← plus (r "success_count") (flagText success))
    (← plus (r "attempted_count") (bytes "1")))

/-- What the insert leaves, with `DEFAULT 0.0` for the score. -/
def ActionDb.inserted (zero : Score) (db : ActionDb Score) :
    Option (Int × Tables) → Int × ActionDb Score
  | none => (0, db)
  | some (id, tables) => (id, ⟨tables, Function.update db.confidence id (some zero)⟩)

/-- `add_recovery_action`. -/
def ActionDb.add (zero : Score) (now : Int) (patternId failureId : Int64)
    (actionType actionParamsJson description : Bytes) (requiresConfirmation : Bool)
    (db : ActionDb Score) : Int × ActionDb Score :=
  db.inserted zero (addRecoveryAction now db.tables patternId failureId actionType
    actionParamsJson description requiresConfirmation)

/-- `update_recovery_action_stats`. -/
def ActionDb.updateStats (ratio : Int → Int → Score) (now : Int) (actionId : Int)
    (success : Bool) (executionTimeMs : Int64) (db : ActionDb Score) : ActionDb Score where
  tables := Function.update db.tables .brainRecoveryActions
    ((db.tables .brainRecoveryActions).updateRow actionId
      (attemptRow now success executionTimeMs))
  confidence := fun id =>
    match (db.tables .brainRecoveryActions).get? id with
    | some r => if id = actionId then attemptScore ratio success r else db.confidence id
    | none => db.confidence id

/-- `row.get_int("avg_execution_time_ms").value_or(0)`, which is what the queries for
actions return and `parse_action` takes over. -/
def readAvg (r : Row) : Int := (r "avg_execution_time_ms").getInt.getD 0

end

end Nazg.Nexus
