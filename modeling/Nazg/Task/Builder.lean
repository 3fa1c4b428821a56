import Nazg.Brain.Snapshotter
import Nazg.System.Process

/-!
# Carrying out a plan

A command is run by a shell in the working directory. What the shell does is a parameter:
the exit status and the output of a command line, and what it leaves of the tree.
-/

namespace Nazg.Builder

open Lib Brain Process

/-- What is reported of a command line. -/
structure CommandResult where
  exitCode : Int
  output : Bytes

abbrev Shell := Bytes → FileTree → CommandResult × FileTree

structure ExecutionResult where
  exitCode : Int := 0
  stdoutOutput : Bytes := []
  success : Bool := false
  errorMessage : Bytes := []

def withWorkdir (cmd dir : Bytes) : Bytes :=
  if dir = [] then cmd else bytes "cd " ++ shellQuote dir ++ bytes " && " ++ cmd

section

variable (shell : Shell)

/-- `Executor::execute_shell`. -/
def executeShell (command workingDir : Bytes) (tree : FileTree) : ExecutionResult × FileTree :=
  let cr := shell (withWorkdir (command ++ bytes " 2>&1") workingDir) tree
  ({ exitCode := cr.1.exitCode, stdoutOutput := cr.1.output, success := cr.1.exitCode = 0 }, cr.2)

/-- `Executor::execute`. -/
def execute (command : Bytes) (args : List Bytes) (workingDir : Bytes) (tree : FileTree) :
    ExecutionResult × FileTree :=
  executeShell shell (command ++ args.flatMap fun arg => 32 :: arg) workingDir tree

/-- `Builder::build`. -/
def build (plan : Plan) (tree : FileTree) : ExecutionResult × FileTree :=
  match plan.action with
  | .skip => ({ success := true, exitCode := 0 }, tree)
  | .unknown => ({ success := false, errorMessage := plan.reason }, tree)
  | .build | .test | .clean =>
      match plan.args with
      | [option, command] =>
          if plan.command = bytes "/bin/sh" ∧ option = bytes "-c" then
            executeShell shell command plan.workingDir tree
          else execute shell plan.command plan.args plan.workingDir tree
      | _ => execute shell plan.command plan.args plan.workingDir tree

end

end Nazg.Builder

/-!
## `nazg build`

One run of the smart build: the tree is hashed and compared with the hash that was stored
last, its own hash is stored, and then the plan is made and carried out.

What the detector finds is a parameter, and so are the shell and the outcomes of the
statements. The facts, events and command histories that a run leaves are not modelled.
-/

namespace Nazg.Brain

open Lib Nexus Builder

structure BuildHost extends SnapshotHost where
  info : ProjectInfo
  shell : Shell

/-- What a run decides, what comes of it and what it returns. -/
structure BuildRun where
  snapshot : SnapshotResult
  plan : Plan
  result : ExecutionResult
  status : Int

/-- What a run finds and leaves. -/
structure Workplace where
  tree : FileTree
  tables : SnapshotTables

/-- The status for a plan and what came of it. -/
def buildStatus (plan : Plan) (result : ExecutionResult) : Int :=
  if plan.action = .skip then 0
  else if plan.action = .build then if result.success then 0 else result.exitCode
  else 1

/-- `cmd_build`. -/
def cmdBuild (sha : Sha256) (projectId : Int64) (host : BuildHost) (w : Workplace) :
    BuildRun × Workplace :=
  let snapshot := compute sha host.toSnapshotHost projectId w.tree w.tables
  let tables := storeSnapshot host.toSnapshotHost projectId snapshot w.tables
  let plan := Planner.decide host.info snapshot
  let built := Builder.build host.shell plan w.tree
  (⟨snapshot, plan, built.1, buildStatus plan built.1⟩, ⟨built.2, tables⟩)

end Nazg.Brain
