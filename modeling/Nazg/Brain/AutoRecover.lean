import Nazg.Brain.Recovery
import Nazg.Lib.Location
import Nazg.Task.Builder

/-!
# Recovering without being asked

`auto_recover` takes up to five suggestions, goes through them from the most confident one
and executes those that are confident enough and need no confirmation, until one succeeds.
Its executions are kept as a list here, each with the machine before it.

A machine is the project and everything else that a shell can see. A shell works from the
directory of the process, and says which files it deletes or writes. A restore goes to the
recorded paths below the root, and makes the directories on the way.
-/

namespace Nazg.Brain

open Lib Lib.Sqlite Nexus Workspace

/-- What came of a command line. -/
structure ShellRun (Outside : Type) where
  result : Builder.CommandResult
  tree : FileTree
  outside : Outside
  /-- What it deleted or wrote. -/
  touched : List Location

/-- The process: where it is, and what it is configured with. -/
structure AutoHost (Outside : Type) where
  cwd : Location
  manager : Option Project.RestoreHost
  shell : Option (Location → Bytes → FileTree → Outside → ShellRun Outside)

/-- The project, and the rest of the machine. -/
structure Machine (Outside : Type) where
  project : Project
  outside : Outside
  /-- `fs::relative` made the recorded paths. -/
  relative : ∀ r ∈ project.files.data, r.file.path.head? ≠ some slash

/-- The command that an action runs. -/
def RecoveryAction.command {Score : Type} (a : RecoveryAction Score) : Option Bytes :=
  match a.type with
  | .cleanBuild => some (bytes "rm -rf build && cmake -S . -B build && cmake --build build")
  | .customCommand => (a.params.find? (bytes "command")).filter (· ≠ [])
  | _ => none

/-! ## What an execution leaves as it is -/

section

variable {Score : Type} {host : ExecuteHost} {projectId : Int64} {w w' : Project}
  {r : RecoveryResult}

/-- The project is the same one, with the same records. -/
structure SameRecords (w w' : Project) : Prop where
  projectId : w'.projectId = w.projectId
  root : w'.root = w.root
  files : w'.files = w.files

theorem sameRecords_restore (id : Int) (opts : Project.RestoreOptions)
    (manager : Project.RestoreHost) : SameRecords w (w.restore projectId id opts manager).2 := by
  rw [Project.restore]
  split
  · exact ⟨rfl, rfl, rfl⟩
  · split
    · exact ⟨rfl, rfl, rfl⟩
    · split
      · exact ⟨rfl, rfl, rfl⟩
      · split
        · exact ⟨rfl, rfl, rfl⟩
        · split
          · exact ⟨rfl, rfl, rfl⟩
          · exact ⟨rfl, rfl, rfl⟩

theorem sameRecords_executeRestore {restoreType : Bytes}
    {report : Int → Project.RestoreResult → List Bytes × Bytes} {a : RecoveryAction Score}
    (h : executeRestore host projectId restoreType report a w = some (r, w')) :
    SameRecords w w' := by
  rw [executeRestore] at h
  split at h
  · cases h
    exact ⟨rfl, rfl, rfl⟩
  · split at h
    · cases h
      exact ⟨rfl, rfl, rfl⟩
    · obtain ⟨id, -, heq⟩ := Option.map_eq_some_iff.1 h
      cases heq
      exact sameRecords_restore id _ _

theorem sameRecords_executeRecovery {a : RecoveryAction Score}
    (h : executeRecovery host projectId a false w = some (r, w')) : SameRecords w w' := by
  rw [executeRecovery, if_neg Bool.false_ne_true] at h
  split at h
  · exact sameRecords_executeRestore h
  · exact sameRecords_executeRestore h
  · rw [executeCleanBuild] at h
    split at h
    · cases h
      exact ⟨rfl, rfl, rfl⟩
    · cases h
      exact ⟨rfl, rfl, rfl⟩
  · rw [executeCustomCommand] at h
    split at h
    · cases h
      exact ⟨rfl, rfl, rfl⟩
    · split at h
      · cases h
        exact ⟨rfl, rfl, rfl⟩
      · cases h
        exact ⟨rfl, rfl, rfl⟩
      · cases h
        exact ⟨rfl, rfl, rfl⟩
  · cases h
    exact ⟨rfl, rfl, rfl⟩

end

/-! ## One execution -/

section

variable {Score Outside : Type} (m : AutoHost Outside)

/-- The shell is started without a directory to go to. -/
def AutoHost.executeHost (outside : Outside) : ExecuteHost where
  manager := m.manager
  executor := m.shell.map fun shell command tree =>
    let ran := Builder.executeShell (fun line tree =>
      let run := shell m.cwd line tree outside
      (run.result, run.tree)) command [] tree
    (⟨ran.1.success, ran.1.exitCode, ran.1.stdoutOutput⟩, ran.2)

/-- The command line of an action, and what comes of it. -/
def AutoHost.run (a : RecoveryAction Score) (s : Machine Outside) : Option (ShellRun Outside) :=
  m.shell.bind fun shell => a.command.map fun command =>
    shell m.cwd (Builder.withWorkdir (command ++ bytes " 2>&1") []) s.project.tree s.outside

/-- `execute_recovery`, unless something throws. -/
def AutoHost.execute (a : RecoveryAction Score) (s : Machine Outside) :
    Option (RecoveryResult × Machine Outside) :=
  match h : executeRecovery (m.executeHost s.outside) s.project.projectId a false s.project with
  | none => none
  | some (r, w) =>
      some (r,
        { project := w
          outside := ((m.run a s).map ShellRun.outside).getD s.outside
          relative := by
            rw [(sameRecords_executeRecovery h).files]
            exact s.relative })

/-- The recorded paths of the snapshot that a restore is of. -/
def AutoHost.restored (a : RecoveryAction Score) (w : Project) : List Bytes :=
  match m.manager, (a.params.find? (bytes "snapshot_id")).bind stoll with
  | some manager, some id =>
      match w.getSnapshot manager.filesRead id with
      | some snapshot => snapshot.files.map WorkspaceFile.path
      | none => []
  | _, _ => []

/-- What an execution deletes or writes. -/
def AutoHost.touched (a : RecoveryAction Score) (s : Machine Outside) : List Location :=
  match a.type with
  | .restoreFiles | .restoreSnapshot =>
      (m.restored a s.project).flatMap fun path => (path :: ancestors path).map fun p =>
        m.cwd.resolve (Location.join s.project.root p)
  | _ => ((m.run a s).map ShellRun.touched).getD []

end

/-! ## The loop -/

structure Execution (Score Outside : Type) where
  action : RecoveryAction Score
  before : Machine Outside
  /-- Nothing, if it threw. -/
  outcome : Option (RecoveryResult × Machine Outside)

section

variable {d : Scores} {Outside : Type} (m : AutoHost Outside) (threshold : d.Score)

def Eligible (a : RecoveryAction d.Score) : Prop :=
  threshold ≤ a.confidenceScore ∧ a.requiresConfirmation = false

instance (a : RecoveryAction d.Score) : Decidable (Eligible threshold a) :=
  inferInstanceAs (Decidable (_ ∧ _))

/-- The loop of `auto_recover`. -/
def recoverWith : List (RecoveryAction d.Score) → Machine Outside →
    List (Execution d.Score Outside)
  | [], _ => []
  | a :: rest, s =>
      if Eligible threshold a then
        let outcome := m.execute a s
        ⟨a, s, outcome⟩ ::
          match outcome with
          | none => []
          | some (r, s) => if r.success then [] else recoverWith rest s
      else recoverWith rest s

/-- The error of a recovery without a success. -/
def withoutSuccess (r : RecoveryResult) : RecoveryResult :=
  { r with errors := r.errors ++ [bytes "No high-confidence auto-recovery actions available"] }

/-- What is returned after the loop; nothing, if it threw. -/
def reportOf (executions : List (Execution d.Score Outside)) : Option RecoveryResult :=
  match executions.getLast? with
  | none => some (withoutSuccess ⟨false, [], [], []⟩)
  | some last => last.outcome.map fun o => if o.1.success then o.1 else withoutSuccess o.1

structure AutoRecovery (Score Outside : Type) where
  executions : List (Execution Score Outside)
  result : Option RecoveryResult

/-- `auto_recover`. -/
def autoRecover (suggest : SuggestHost) (engine : RegexEngine) (failureId : Int)
    (db : RecoveryDb d) (s : Machine Outside) : AutoRecovery d.Score Outside :=
  match suggestRecovery d suggest engine s.project.projectId failureId 5 db with
  | none => ⟨[], none⟩
  | some [] => ⟨[], some (.failed (bytes "No recovery suggestions available"))⟩
  | some suggestions =>
      let executions := recoverWith m threshold suggestions s
      ⟨executions, reportOf executions⟩

end

end Nazg.Brain
