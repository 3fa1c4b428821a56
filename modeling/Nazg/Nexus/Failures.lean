import Nazg.Lib.Query

/-!
# Failures and their patterns

Of a failure the store keeps what it was and how it was resolved; of a pattern, the
signature of the failures it stands for and how often they occurred. A statement that
succeeds is modelled here. Whether it does is for the caller to say.
-/

namespace Nazg.Nexus

open Lib Lib.Sqlite

/-- A row of `workspace_failures`. -/
structure FailureRow where
  projectId : Int64
  failureType : Text
  errorSignature : Text
  errorMessage : Text
  beforeSnapshotId : Option Int
  resolved : Bool := false
  resolutionType : Option Text := none
  resolutionSnapshotId : Option Int := none
  timestamp : Int64

/-- A row of `brain_failure_patterns`. The count is written as 1 and only added to. -/
structure PatternRow where
  projectId : Int64
  patternSignature : Text
  patternName : Text
  failureType : Text
  errorRegex : Text
  triggerConditionsJson : Text
  occurrenceCount : Nat := 1
  firstSeen : Int64
  lastSeen : Int64
  failureIdsJson : Option Text := none
  resolutionStrategiesJson : Option Text := none

/-! ## Failures -/

/-- The map of a failure. -/
structure FailureMap where
  id : Int
  failureType : Bytes
  errorSignature : Bytes
  errorMessage : Bytes
  beforeSnapshotId : Int
  resolved : Bool
  resolutionType : Bytes
  resolutionSnapshotId : Int
  timestamp : Int

def readFailure (x : Int × FailureRow) : FailureMap where
  id := x.1
  failureType := x.2.failureType.bytes
  errorSignature := x.2.errorSignature.bytes
  errorMessage := x.2.errorMessage.bytes
  beforeSnapshotId := x.2.beforeSnapshotId.getD 0
  resolved := x.2.resolved
  resolutionType := (x.2.resolutionType.map Text.bytes).getD []
  resolutionSnapshotId := x.2.resolutionSnapshotId.getD 0
  timestamp := x.2.timestamp.toInt

/-- `Store::get_failure`. -/
def getFailure (failureId : Int) (t : Table FailureRow) : Option FailureMap :=
  (t.get? failureId).map fun row => readFailure (failureId, row)

/-- `Store::find_similar_failures`, the newest first. -/
def findSimilarFailures (o : RowOrder) (projectId : Int64) (errorSignature : Bytes) (limit : Nat)
    (t : Table FailureRow) : List FailureMap :=
  ((o.orderBy (fun x : Int × FailureRow => -x.2.timestamp.toInt) (t.rows.filter fun x =>
    x.2.projectId = projectId ∧ x.2.errorSignature = Text.ofCStr errorSignature)).take limit).map
      readFailure

/-! ## Patterns -/

/-- The map of a pattern; some queries leave columns out. -/
structure PatternMap where
  id : Int
  patternSignature : Bytes
  patternName : Bytes
  failureType : Bytes
  occurrenceCount : Bytes
  firstSeen : Int
  lastSeen : Int
  errorRegex : Option Bytes := none
  triggerConditionsJson : Option Bytes := none
  failureIdsJson : Option Bytes := none
  resolutionStrategiesJson : Option Bytes := none

/-- The columns that every query of patterns selects. -/
def listedPattern (x : Int × PatternRow) : PatternMap where
  id := x.1
  patternSignature := x.2.patternSignature.bytes
  patternName := x.2.patternName.bytes
  failureType := x.2.failureType.bytes
  occurrenceCount := decimal x.2.occurrenceCount
  firstSeen := x.2.firstSeen.toInt
  lastSeen := x.2.lastSeen.toInt

/-- All of them. -/
def wholePattern (x : Int × PatternRow) : PatternMap :=
  { listedPattern x with
    errorRegex := some x.2.errorRegex.bytes
    triggerConditionsJson := some x.2.triggerConditionsJson.bytes
    failureIdsJson := some ((x.2.failureIdsJson.map Text.bytes).getD [])
    resolutionStrategiesJson := some ((x.2.resolutionStrategiesJson.map Text.bytes).getD []) }

/-- `UNIQUE(project_id, pattern_signature)`. -/
def hasSignature (projectId : Int64) (signature : Bytes) (r : PatternRow) : Bool :=
  r.projectId = projectId && r.patternSignature = Text.ofCStr signature

/-- The table `brain_failure_patterns` with what its keys guarantee. -/
structure Patterns where
  table : Table PatternRow
  wf : table.Wf
  unique : table.data.Pairwise fun r s =>
    ¬ (r.projectId = s.projectId ∧ r.patternSignature = s.patternSignature)

/-- `Store::get_pattern_by_signature`. -/
def getPatternBySignature (projectId : Int64) (signature : Bytes) (ps : Patterns) :
    Option PatternMap :=
  (ps.table.first (hasSignature projectId signature)).map wholePattern

/-- `Store::get_pattern`. -/
def getPattern (patternId : Int) (ps : Patterns) : Option PatternMap :=
  (ps.table.get? patternId).map fun row => wholePattern (patternId, row)

/-- The rows that `list_patterns` selects, the most frequent first. -/
def listedRows (o : RowOrder) (projectId : Int64) (limit : Nat) (ps : Patterns) :
    List (Int × PatternRow) :=
  (o.orderBy (fun x : Int × PatternRow => -(x.2.occurrenceCount : Int))
    (ps.table.rows.filter fun x => x.2.projectId = projectId)).take limit

/-- `Store::list_patterns`. -/
def listPatterns (o : RowOrder) (projectId : Int64) (limit : Nat) (ps : Patterns) :
    List PatternMap :=
  (listedRows o projectId limit ps).map listedPattern

/-- `Store::record_pattern`: the id, unless the signature is taken. -/
def recordPattern (now projectId : Int64)
    (signature name failureType errorRegex triggerConditionsJson : Bytes) (ps : Patterns) :
    Int × Patterns :=
  if h : ∃ r ∈ ps.table.data, hasSignature projectId signature r = true then (0, ps)
  else
    (ps.table.lastId + 1,
      { table := ps.table.insertRow
          { projectId := projectId
            patternSignature := .ofCStr signature
            patternName := .ofCStr name
            failureType := .ofCStr failureType
            errorRegex := .ofCStr errorRegex
            triggerConditionsJson := .ofCStr triggerConditionsJson
            firstSeen := now
            lastSeen := now }
        wf := ps.wf.insertRow _
        unique := by
          rw [Table.data_insertRow, List.pairwise_append]
          refine ⟨ps.unique, List.pairwise_singleton _ _, fun r hr s hs hsame => h ⟨r, hr, ?_⟩⟩
          rw [List.mem_singleton.1 hs] at hsame
          simp [hasSignature, hsame.1, hsame.2] })

/-- `Store::update_pattern_statistics`. -/
def updatePatternStatistics (now : Int64) (patternId : Int) (occurrenceDelta : Nat)
    (ps : Patterns) : Patterns where
  table := ps.table.updateRow patternId fun r =>
    { r with occurrenceCount := r.occurrenceCount + occurrenceDelta, lastSeen := now }
  wf := ps.wf.updateRow _ _
  unique := by
    have hrows := List.pairwise_map.1 ps.unique
    refine List.pairwise_map.2 (List.pairwise_map.2 (hrows.imp fun hne hsame => hne ?_))
    revert hsame
    split <;> split <;> exact id

/-- `Store::link_failure_to_pattern`, which does not look at the failure. -/
def linkFailureToPattern (now : Int64) (_failureId patternId : Int) (ps : Patterns) : Patterns :=
  updatePatternStatistics now patternId 0 ps

/-! ## Recovery actions -/

/-- A row of `brain_recovery_actions`; its score is a floating-point number. -/
structure RecoveryActionRow (Score : Type) where
  patternId : Option Int
  actionType : Text
  actionParamsJson : Option Text
  actionDescription : Option Text
  successCount : Nat := 0
  failureCount : Nat := 0
  avgExecutionTimeMs : Option Int := none
  confidenceScore : Score
  requiresUserConfirmation : Bool := true

/-- The map of a recovery action. -/
structure RecoveryActionMap (Score : Type) where
  id : Int
  actionType : Bytes
  actionParamsJson : Bytes
  actionDescription : Bytes
  successCount : Bytes
  failureCount : Bytes
  avgExecutionTimeMs : Int
  confidenceScore : Score
  requiresUserConfirmation : Bool

def readRecoveryAction {Score : Type} (x : Int × RecoveryActionRow Score) :
    RecoveryActionMap Score where
  id := x.1
  actionType := x.2.actionType.bytes
  actionParamsJson := (x.2.actionParamsJson.map Text.bytes).getD []
  actionDescription := (x.2.actionDescription.map Text.bytes).getD []
  successCount := decimal x.2.successCount
  failureCount := decimal x.2.failureCount
  avgExecutionTimeMs := x.2.avgExecutionTimeMs.getD 0
  confidenceScore := x.2.confidenceScore
  requiresUserConfirmation := x.2.requiresUserConfirmation

/-- `Store::get_recovery_actions_for_pattern`, the most promising first. -/
def getRecoveryActionsForPattern {Score : Type} [LinearOrder Score] (o : RowOrder)
    (patternId : Int) (t : Table (RecoveryActionRow Score)) : List (RecoveryActionMap Score) :=
  (o.orderBy (fun x : Int × RecoveryActionRow Score => OrderDual.toDual x.2.confidenceScore)
    (t.rows.filter fun x => x.2.patternId = some patternId)).map readRecoveryAction

end Nazg.Nexus
