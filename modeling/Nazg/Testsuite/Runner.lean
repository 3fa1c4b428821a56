import Nazg.Brain.Snapshotter
import Nazg.Lib.Decimal
import Nazg.System.Process

/-!
# Running tests

An adapter turns the options of a run into a program and its arguments, and the runner
writes them in one line, with a change of directory in front if the plan has one.
-/

namespace Nazg.Testsuite

open Lib Lib.Shell Process Brain

inductive Framework where
  | unknown
  | gtest
  | catch2
  | pytest
  | unittest
  | cargo
  | jest
  | vitest
  | goTest
  | ctest
  deriving DecidableEq

/-- The names of `string_to_framework`. -/
def frameworkNames : List (Bytes × Framework) :=
  [(bytes "gtest", .gtest), (bytes "catch2", .catch2), (bytes "pytest", .pytest),
    (bytes "unittest", .unittest), (bytes "cargo", .cargo), (bytes "jest", .jest),
    (bytes "vitest", .vitest), (bytes "go", .goTest), (bytes "ctest", .ctest)]

def stringToFramework (s : Bytes) : Framework := (frameworkNames.lookup s).getD .unknown

structure RunOptions where
  collectCoverage : Bool := false
  filter : Option Bytes := none
  failFast : Bool := false
  parallelJobs : Int := 1
  verbose : Bool := false

def GTestAdapter.buildCommand (opts : RunOptions) : List Bytes :=
  [bytes "ctest", bytes "--test-dir", bytes "build", bytes "--output-on-failure"] ++
    (opts.filter.elim [] fun filter => [bytes "-R", filter]) ++
    (if 1 < opts.parallelJobs then [bytes "-j", decimal opts.parallelJobs] else []) ++
    (if opts.verbose then [bytes "--verbose"] else [])

def PytestAdapter.buildCommand (opts : RunOptions) : List Bytes :=
  [bytes "pytest", bytes "-v", bytes "--tb=short"] ++
    (opts.filter.elim [] fun filter => [bytes "-k", filter]) ++
    (if 1 < opts.parallelJobs then [bytes "-n", decimal opts.parallelJobs] else []) ++
    (if opts.failFast then [bytes "-x"] else []) ++
    (if opts.collectCoverage then
      [bytes "--cov", bytes "--cov-report=term", bytes "--cov-report=json"] else [])

/-- `create_adapter`. -/
def createAdapter : Framework → Option (RunOptions → List Bytes)
  | .gtest | .ctest => some GTestAdapter.buildCommand
  | .pytest | .unittest => some PytestAdapter.buildCommand
  | .cargo | .jest | .vitest | .goTest | .catch2 | .unknown => none

namespace Runner

/-- The line for a program and its arguments. -/
def fullCommand (workingDir : Bytes) : List Bytes → Option Bytes
  | [] => none
  | program :: args => some ((if workingDir ≠ [] then
      bytes "cd " ++ shellQuote workingDir ++ bytes " && " else []) ++ program ++
        args.flatMap fun arg => bytes " " ++ shellQuote arg)

/-- What `execute` runs, if it comes to that. -/
def command (plan : Plan) (opts : RunOptions) : Option Bytes :=
  (createAdapter (stringToFramework plan.testFramework)).bind fun buildCommand =>
    fullCommand plan.workingDir (buildCommand opts)

end Runner

theorem parse_fullCommand {program : Bytes} (hprogram : IsProgram program) (workingDir : Bytes)
    (args : List Bytes) : (Runner.fullCommand workingDir (program :: args)).bind parse =
      some (intended workingDir (program :: args)) := by
  have hspace : bytes " " = [32] := rfl
  have hline := parse_program hprogram args
  rw [Runner.fullCommand, Option.bind_some, hspace, intended, List.append_assoc]
  simp only [List.singleton_append]
  by_cases hdir : workingDir = []
  · rw [if_neg (by simp [hdir]), if_neg (by simp [hdir]), List.nil_append, hline, List.nil_append]
  · rw [if_pos hdir, if_pos hdir, parse_cd, hline, Option.map_some]

/-- The first word of every command is the name of a program. -/
theorem isProgram_of_createAdapter {framework : Framework} {buildCommand : RunOptions → List Bytes}
    (h : createAdapter framework = some buildCommand) (opts : RunOptions) :
    ∃ program args, buildCommand opts = program :: args ∧ IsProgram program := by
  have hctest : IsProgram (bytes "ctest") := by decide
  have hpytest : IsProgram (bytes "pytest") := by decide
  cases framework with
  | gtest =>
      cases h
      exact ⟨_, _, rfl, hctest⟩
  | ctest =>
      cases h
      exact ⟨_, _, rfl, hctest⟩
  | pytest =>
      cases h
      exact ⟨_, _, rfl, hpytest⟩
  | unittest =>
      cases h
      exact ⟨_, _, rfl, hpytest⟩
  | unknown => cases h
  | catch2 => cases h
  | cargo => cases h
  | jest => cases h
  | vitest => cases h
  | goTest => cases h

end Nazg.Testsuite
