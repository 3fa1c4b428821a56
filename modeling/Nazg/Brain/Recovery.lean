import Nazg.Brain.PatternMatcher
import Nazg.Workspace.Manager

/-!
# Recovering from a failure

What is suggested for a failure comes from the patterns it matches, from failures that are
similar to it and were resolved, and from its type; the most confident suggestions come
first. An action carries its arguments as strings by name, and they are read again when it
is executed.

Scores are as in `Brain.Similarity`. What a shell does with a command is a parameter too.
The records that an execution leaves in the store are not modelled.
-/

namespace Nazg.Brain

open Lib Lib.Sqlite Nexus Workspace

/-- The arithmetic that a confidence needs. -/
structure Scores extends Doubles where
  tenths : Nat → Score
  /-- `x * 0.8` -/
  discount : Score → Score
  /-- `std::min(0.5 + n * 0.1, 0.9)` -/
  ofOccurrences : Int → Score
  /-- A score that was written as text and read again. -/
  reread : Score → Score

/-! ## Actions -/

inductive ActionType where
  | restoreFiles
  | restoreSnapshot
  | modifyConfig
  | downgradeDependency
  | restoreEnvironment
  | cleanBuild
  | customCommand
  deriving DecidableEq

/-- `action_type_to_string`. -/
def ActionType.text : ActionType → Bytes
  | .restoreFiles => bytes "restore_files"
  | .restoreSnapshot => bytes "restore_snapshot"
  | .modifyConfig => bytes "modify_config"
  | .downgradeDependency => bytes "downgrade_dep"
  | .restoreEnvironment => bytes "restore_env"
  | .cleanBuild => bytes "clean_build"
  | .customCommand => bytes "custom_command"

/-- `string_to_action_type`. -/
def ActionType.ofText (s : Bytes) : ActionType :=
  if s = bytes "restore_files" then .restoreFiles
  else if s = bytes "restore_snapshot" then .restoreSnapshot
  else if s = bytes "modify_config" then .modifyConfig
  else if s = bytes "downgrade_dep" then .downgradeDependency
  else if s = bytes "restore_env" then .restoreEnvironment
  else if s = bytes "clean_build" then .cleanBuild
  else .customCommand

theorem ActionType.ofText_text (t : ActionType) : ActionType.ofText t.text = t := by
  cases t <;> decide +kernel

structure RecoveryAction (Score : Type) where
  id : Int := 0
  type : ActionType
  description : Bytes
  params : OrdMap Bytes Bytes := .empty
  confidenceScore : Score
  successCount : Int := 0
  failureCount : Int := 0
  avgExecutionTimeMs : Int := 0
  requiresConfirmation : Bool := true
  riskLevel : Bytes := bytes "medium"

/-- A parameter as it is written. -/
def paramText (kv : Bytes × Bytes) : Bytes :=
  bytes "\"" ++ kv.1 ++ bytes "\":\"" ++ kv.2 ++ bytes "\""

/-- `params_to_json`. -/
def paramsToJson (params : OrdMap Bytes Bytes) : Bytes :=
  if params.entries = [] then bytes "\x7b\x7d"
  else
    bytes "\x7b" ++ (bytes ",").intercalate (params.entries.map paramText) ++ bytes "\x7d"

/-- `json_to_params`. -/
def jsonToParams (json : Bytes) : OrdMap Bytes Bytes :=
  if json = [] ∨ json = bytes "\x7b\x7d" then .empty
  else
    let content := json.filter fun c => c ≠ 123 ∧ c ≠ 125
    let unquoted := fun s : Bytes => trim (s.filter fun c => c ≠ 34)
    (getFields 44 content).foldl (fun params pair =>
      match cut 58 pair with
      | some (key, value) => params.insert (unquoted key) (unquoted value)
      | none => params) .empty

/-- A description with its reason. -/
def describe (what reason : Bytes) : Bytes :=
  if reason = [] then what else what ++ bytes " (" ++ reason ++ bytes ")"

section

variable (d : Scores)

/-- `parse_action`. -/
def parseAction (row : RecoveryActionMap d.Score) : Option (RecoveryAction d.Score) :=
  match stoi row.successCount, stoi row.failureCount with
  | some successCount, some failureCount =>
      some
        { id := row.id
          type := .ofText row.actionType
          description := row.actionDescription
          params := jsonToParams row.actionParamsJson
          confidenceScore := d.reread row.confidenceScore
          successCount := successCount
          failureCount := failureCount
          avgExecutionTimeMs := row.avgExecutionTimeMs
          requiresConfirmation := row.requiresUserConfirmation }
  | _, _ => none

/-- The parameters of an action on a snapshot. -/
def snapshotParams (snapshotId : Int) : OrdMap Bytes Bytes :=
  OrdMap.empty.insert (bytes "snapshot_id") (decimal snapshotId)

def createRestoreFilesAction (snapshotId : Int) (reason : Bytes) : RecoveryAction d.Score where
  type := .restoreFiles
  description := describe (bytes "Restore files from snapshot #" ++ decimal snapshotId) reason
  params := snapshotParams snapshotId
  confidenceScore := d.zero
  requiresConfirmation := true
  riskLevel := bytes "low"

def createRestoreSnapshotAction (snapshotId : Int) (reason : Bytes) : RecoveryAction d.Score where
  type := .restoreSnapshot
  description := describe (bytes "Restore workspace from snapshot #" ++ decimal snapshotId) reason
  params := snapshotParams snapshotId
  confidenceScore := d.zero
  requiresConfirmation := true
  riskLevel := bytes "medium"

def createCleanBuildAction (reason : Bytes) : RecoveryAction d.Score where
  type := .cleanBuild
  description := describe (bytes "Clean build directory and rebuild") reason
  confidenceScore := d.zero
  requiresConfirmation := false
  riskLevel := bytes "low"

/-- `calculate_confidence`. -/
def calculateConfidence (action : RecoveryAction d.Score) (patternOccurrences : Int) : d.Score :=
  let totalAttempts := action.successCount + action.failureCount
  if 0 < totalAttempts then d.ratio action.successCount.toNat totalAttempts.toNat
  else d.ofOccurrences patternOccurrences

/-! ## Suggestions -/

/-- The store, with the actions in it. Its integers have 64 bits. -/
structure RecoveryDb extends BrainDb where
  actions : Table (RecoveryActionRow d.Score)
  actionsWf : actions.Wf
  integers : ∀ r ∈ failures.data, ∀ id, r.beforeSnapshotId = some id ∨
    r.resolutionSnapshotId = some id → id < 2 ^ 63

/-- Which queries succeed, and what order is left open: that of the rows of a result, and
that in which `std::sort` leaves suggestions of one confidence. -/
structure SuggestHost where
  order : RowOrder
  ties : RowOrder
  failureRead : Bool
  relatedRead : Int → Bool
  patternsRead : Bool
  similarRead : Bool
  actionsRead : Int → Bool
  patternRead : Int → Bool

variable (host : SuggestHost)

/-- `get_actions_for_pattern`, unless a count does not fit. -/
def getActionsForPattern (patternId : Int) (db : RecoveryDb d) :
    Option (List (RecoveryAction d.Score)) :=
  (if host.actionsRead patternId then
    getRecoveryActionsForPattern host.order patternId db.actions else []).mapM (parseAction d)

/-- `get_failure`, of a failure that a pattern or a similarity led to. -/
def getRelated (failureId : Int) (db : RecoveryDb d) : Option FailureMap :=
  if host.relatedRead failureId then getFailure failureId db.failures else none

/-- What resolved a failure before. -/
def restoreThatResolved (occurrences : Int) (f : FailureMap) : Option (RecoveryAction d.Score) :=
  if f.resolved ∧ f.resolutionType = bytes "restore" ∧ 0 < f.resolutionSnapshotId then
    let action := createRestoreSnapshotAction d f.resolutionSnapshotId
      (bytes "Restore from snapshot that fixed this issue before")
    some { action with confidenceScore := calculateConfidence d action occurrences }
  else none

/-- `generate_from_pattern`. -/
def generateFromPattern (patternId : Int) (db : RecoveryDb d) :
    Option (List (RecoveryAction d.Score)) :=
  match getActionsForPattern d host patternId db with
  | none => none
  | some (a :: as) => some (a :: as)
  | some [] =>
      let row := if host.patternRead patternId then getPattern patternId db.patterns else none
      match row.map parsePattern with
      | none => some []
      | some none => none
      | some (some pattern) =>
          some (pattern.failureIds.findSome? fun id =>
            (getRelated d host id db).bind
              (restoreThatResolved d pattern.occurrenceCount)).toList

/-- `generate_from_similar_failures`. -/
def generateFromSimilarFailures (projectId : Int64) (errorSignature errorMessage : Bytes)
    (db : RecoveryDb d) : List (RecoveryAction d.Score) :=
  let similar := PatternMatcher.findSimilarFailures d.toDoubles host.order host.similarRead
    projectId errorSignature errorMessage 5 db.toBrainDb
  similar.filterMap fun sim =>
    if sim.wasResolved ∧ sim.resolutionType = bytes "restore" then
      (getRelated d host sim.failureId db).bind fun failure =>
        if 0 < failure.resolutionSnapshotId then
          some { createRestoreSnapshotAction d failure.resolutionSnapshotId
              (bytes "Similar failure was fixed by restoring this snapshot") with
            confidenceScore := d.discount sim.similarityScore }
        else none
    else none

/-- The words of a linker. -/
def isLinkerError (message : Bytes) : Bool :=
  (find (bytes "undefined reference") message).isSome ||
    (find (bytes "unresolved external") message).isSome

/-- `generate_generic_suggestions`. -/
def generateGenericSuggestions (failure : FailureMap) : List (RecoveryAction d.Score) :=
  let build :=
    if failure.failureType = bytes "build" then
      { createCleanBuildAction d (bytes "Clean build often resolves build cache issues") with
        confidenceScore := d.tenths 4
        riskLevel := bytes "low" } ::
      (if isLinkerError failure.errorMessage ∧ 0 < failure.beforeSnapshotId then
        [{ createRestoreFilesAction d failure.beforeSnapshotId
            (bytes "Restore dependencies from last successful build") with
          confidenceScore := d.tenths 5 }]
      else [])
    else []
  let test :=
    if failure.failureType = bytes "test" ∧ 0 < failure.beforeSnapshotId then
      [{ createRestoreSnapshotAction d failure.beforeSnapshotId
          (bytes "Restore to last known passing state") with
        confidenceScore := d.tenths 6 }]
    else []
  build ++ test

/-- The suggestions of the patterns, unless something throws. -/
def generateFromPatterns (patterns : List Pattern) (db : RecoveryDb d) :
    Option (List (RecoveryAction d.Score)) :=
  (patterns.mapM fun p => generateFromPattern d host p.id db).map List.flatten

/-- `suggest_recovery`, unless something throws. -/
def suggestRecovery (engine : RegexEngine) (projectId : Int64) (failureId maxSuggestions : Int)
    (db : RecoveryDb d) : Option (List (RecoveryAction d.Score)) :=
  match if host.failureRead then getFailure failureId db.failures else none with
  | none => some []
  | some failure =>
      let matching := findMatchingPatterns engine host.order host.patternsRead projectId
        failure.errorSignature failure.failureType failure.errorMessage db.toBrainDb
      (matching.bind fun patterns => generateFromPatterns d host patterns db).map fun ofPatterns =>
        let suggestions := ofPatterns ++
          generateFromSimilarFailures d host projectId failure.errorSignature failure.errorMessage db
            ++ generateGenericSuggestions d failure
        let sorted := host.ties.orderBy
          (fun a : RecoveryAction d.Score => OrderDual.toDual a.confidenceScore) suggestions
        -- a negative limit is a huge `size_t`
        if maxSuggestions < 0 then sorted else sorted.take maxSuggestions.toNat

end

/-! ## Execution -/

structure RecoveryResult where
  success : Bool
  outputLog : Bytes
  actionsTaken : List Bytes
  errors : List Bytes

/-- What a shell reports of a command. -/
structure ShellResult where
  success : Bool
  exitCode : Int
  stdoutOutput : Bytes

/-- The workspace manager and the executor, if they are configured. -/
structure ExecuteHost where
  manager : Option Project.RestoreHost
  executor : Option (Bytes → FileTree → ShellResult × FileTree)

def RecoveryResult.failed (error : Bytes) : RecoveryResult := ⟨false, [], [], [error]⟩

section

variable {Score : Type} (host : ExecuteHost) (projectId : Int64)

/-- A restore of the snapshot that the action names, with a mode of its own. It throws if
the name is no number. -/
def executeRestore (restoreType : Bytes)
    (report : Int → Project.RestoreResult → List Bytes × Bytes) (action : RecoveryAction Score)
    (w : Project) : Option (RecoveryResult × Project) :=
  match host.manager with
  | none => some (.failed (bytes "No workspace manager configured"), w)
  | some manager =>
      match action.params.find? (bytes "snapshot_id") with
      | none => some (.failed (bytes "No snapshot_id in action params"), w)
      | some value =>
          (stoll value).map fun snapshotId =>
            let restored := w.restore projectId snapshotId { restoreType := restoreType } manager
            let texts := report snapshotId restored.1
            (⟨restored.1.success, texts.2, texts.1, restored.1.errors⟩, restored.2)

/-- `execute_restore_files`. -/
def executeRestoreFiles : RecoveryAction Score → Project → Option (RecoveryResult × Project) :=
  executeRestore host projectId (bytes "partial") fun snapshotId r =>
    ([bytes "Restored " ++ decimal r.filesRestored ++ bytes " files from snapshot #" ++
        decimal snapshotId],
      bytes "Partial restore: " ++ decimal r.filesRestored ++ bytes " files restored, " ++
        decimal r.filesSkipped ++ bytes " skipped")

/-- `execute_restore_snapshot`. -/
def executeRestoreSnapshot : RecoveryAction Score → Project → Option (RecoveryResult × Project) :=
  executeRestore host projectId (bytes "full") fun snapshotId r =>
    ([bytes "Full restore from snapshot #" ++ decimal snapshotId],
      bytes "Full restore: " ++ decimal r.filesRestored ++ bytes " files restored")

/-- A command in the shell; the tree is the executor's to change. -/
def executeShell (executor : Bytes → FileTree → ShellResult × FileTree)
    (command taken failure : Bytes) (w : Project) : RecoveryResult × Project :=
  let ran := executor command w.tree
  (⟨ran.1.success, ran.1.stdoutOutput, [taken],
      if ran.1.success then [] else [failure ++ decimal ran.1.exitCode]⟩,
    { w with tree := ran.2 })

/-- `execute_clean_build`. -/
def executeCleanBuild (w : Project) : RecoveryResult × Project :=
  match host.executor with
  | none => (.failed (bytes "No executor configured"), w)
  | some executor =>
      executeShell executor (bytes "rm -rf build && cmake -S . -B build && cmake --build build")
        (bytes "Ran clean build (rm -rf build && cmake configure && build)")
        (bytes "Clean build failed with exit code ") w

/-- `execute_custom_command`. -/
def executeCustomCommand (action : RecoveryAction Score) (w : Project) : RecoveryResult × Project :=
  match host.executor with
  | none => (.failed (bytes "No executor configured"), w)
  | some executor =>
      match action.params.find? (bytes "command") with
      | none | some [] => (.failed (bytes "No command specified in action params"), w)
      | some command =>
          executeShell executor command (bytes "Ran command: " ++ command)
            (bytes "Command failed with exit code ") w

/-- `execute_recovery`, unless something throws. -/
def executeRecovery (action : RecoveryAction Score) (dryRun : Bool) (w : Project) :
    Option (RecoveryResult × Project) :=
  if dryRun then
    some (⟨true, bytes "[DRY RUN] Would execute: " ++ action.description,
      [bytes "Dry run - no actual changes made"], []⟩, w)
  else
    match action.type with
    | .restoreFiles => executeRestoreFiles host projectId action w
    | .restoreSnapshot => executeRestoreSnapshot host projectId action w
    | .cleanBuild => some (executeCleanBuild host w)
    | .customCommand => some (executeCustomCommand host action w)
    | other => some (.failed (bytes "Unsupported action type: " ++ other.text), w)

end

end Nazg.Brain
