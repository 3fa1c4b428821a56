import Nazg.Proofs.TreeHash
import Nazg.Task.Builder

/-!
# The exit status of `nazg build`

A status of 0 is to say that the plan was to skip, or that its command was run and exited
with 0. The builder runs the command of a plan to build and of one to test; the status is
made for a plan to skip or to build, and is 1 for every other one.
-/

namespace Nazg.Brain

open Lib Builder

/-! ## Plans -/

/-- What the builder has the shell run, in the working directory. -/
def Plan.shellCommand (plan : Plan) : Bytes :=
  match plan.args with
  | [option, command] =>
      if plan.command = bytes "/bin/sh" ∧ option = bytes "-c" then command
      else plan.command ++ plan.args.flatMap fun arg => 32 :: arg
  | _ => plan.command ++ plan.args.flatMap fun arg => 32 :: arg

/-- The command line of a plan, if it has one. -/
def Plan.commandLine (plan : Plan) : Option Bytes :=
  if plan.action = .skip ∨ plan.action = .unknown then none
  else some (withWorkdir (plan.shellCommand ++ bytes " 2>&1") plan.workingDir)

theorem build_eq_executeShell {shell : Shell} {plan : Plan} {tree : FileTree}
    (hskip : plan.action ≠ .skip) (hunknown : plan.action ≠ .unknown) :
    Builder.build shell plan tree =
      executeShell shell plan.shellCommand plan.workingDir tree := by
  rw [Builder.build, Plan.shellCommand]
  cases haction : plan.action with
  | skip => exact absurd haction hskip
  | unknown => exact absurd haction hunknown
  | build | test | clean =>
      rcases hargs : plan.args with _ | ⟨option, _ | ⟨command, _ | ⟨more, rest⟩⟩⟩
      · rfl
      · rfl
      · dsimp only
        split
        · rfl
        · rfl
      · rfl

/-- The builder runs the command line and reports its exit status. -/
theorem build_of_commandLine (shell : Shell) (tree : FileTree) {plan : Plan} {line : Bytes}
    (h : plan.commandLine = some line) :
    (Builder.build shell plan tree).1.exitCode = (shell line tree).1.exitCode ∧
      ((Builder.build shell plan tree).1.success = true ↔ (shell line tree).1.exitCode = 0) := by
  rw [Plan.commandLine] at h
  split at h
  · cases h
  · next hruns =>
      rw [not_or] at hruns
      cases h
      rw [build_eq_executeShell hruns.1 hruns.2]
      exact ⟨rfl, decide_eq_true_iff⟩

/-- Only tests are run: the tree is as it was or nothing builds it, and there are tests that
the planner knows. -/
structure OnlyTests (info : ProjectInfo) (snapshot : SnapshotResult) : Prop where
  hasTests : info.hasTests = true
  known : (Planner.commandFor Planner.testCommands info.testFramework).isSome = true
  noBuild : Planner.unchanged snapshot = true ∨ info.buildSystem = bytes "unknown"

section

variable {info : ProjectInfo} {snapshot : SnapshotResult}

theorem action_generateTestPlan : (Planner.generateTestPlan info).action =
    if (Planner.commandFor Planner.testCommands info.testFramework).isSome = true then .test
    else .unknown := by
  rw [Planner.generateTestPlan]
  split
  · next h => simp [h]
  · next h => simp [h]

theorem action_generateBuildPlan : (Planner.generateBuildPlan info).action =
    if (Planner.commandFor Planner.buildCommands info.buildSystem).isSome = true then .build
    else .unknown := by
  rw [Planner.generateBuildPlan]
  split
  · next h => simp [h]
  · next h => simp [h]

/-- What the planner decides. -/
theorem action_decide : (Planner.decide info snapshot).action =
    if Planner.unchanged snapshot = true then
      if info.hasTests = true then (Planner.generateTestPlan info).action else .skip
    else if info.buildSystem ≠ bytes "unknown" then (Planner.generateBuildPlan info).action
    else if info.hasTests = true then (Planner.generateTestPlan info).action else .unknown := by
  rw [Planner.decide]
  split
  · split <;> rfl
  · split
    · rfl
    · split <;> rfl

theorem action_eq_test_iff :
    (Planner.decide info snapshot).action = .test ↔ OnlyTests info snapshot := by
  rw [action_decide, action_generateTestPlan, action_generateBuildPlan]
  constructor
  · intro h
    split at h
    · next hunchanged =>
        split at h
        · next htests =>
            split at h
            · next hknown => exact ⟨htests, hknown, .inl hunchanged⟩
            · cases h
        · cases h
    · split at h
      · split at h <;> cases h
      · next hunknown =>
          split at h
          · next htests =>
              split at h
              · next hknown => exact ⟨htests, hknown, .inr (not_not.1 hunknown)⟩
              · cases h
          · cases h
  · intro h
    rw [if_pos h.hasTests, if_pos h.hasTests, if_pos h.known]
    rcases h.noBuild with hunchanged | hunknown
    · rw [if_pos hunchanged]
    · rw [if_neg (not_not.2 hunknown), ite_self]

theorem action_ne_clean : (Planner.decide info snapshot).action ≠ .clean := by
  rw [action_decide, action_generateTestPlan, action_generateBuildPlan]
  split
  · split
    · split <;> nofun
    · nofun
  · split
    · split <;> nofun
    · split
      · split <;> nofun
      · nofun

end

/-! ## The status -/

/-- The command of the plan is run and exits with 0. -/
def Exits0 (shell : Shell) (plan : Plan) (tree : FileTree) : Prop :=
  ∃ line, plan.commandLine = some line ∧ (shell line tree).1.exitCode = 0

/-- The status is 0 exactly for a skip and for a command that exits with 0. -/
def StatusRight (host : BuildHost) (w : Workplace) (r : BuildRun) : Prop :=
  r.status = 0 ↔ r.plan.action = .skip ∨ Exits0 host.shell r.plan w.tree

section

variable {sha : Sha256} {projectId : Int64} {host : BuildHost} {w : Workplace}

/-- Tests that pass have the status 1. -/
theorem not_statusRight_of_onlyTests
    (htests : OnlyTests host.info (cmdBuild sha projectId host w).1.snapshot)
    (hpass : Exits0 host.shell (cmdBuild sha projectId host w).1.plan w.tree) :
    ¬ StatusRight host w (cmdBuild sha projectId host w).1 := by
  have haction : (cmdBuild sha projectId host w).1.plan.action = .test :=
    action_eq_test_iff.2 htests
  have hstatus : (cmdBuild sha projectId host w).1.status = 1 := by
    show buildStatus (cmdBuild sha projectId host w).1.plan _ = 1
    rw [buildStatus, haction]
    rfl
  intro h
  have hzero := h.2 (.inr hpass)
  rw [hstatus] at hzero
  exact absurd hzero (by decide)

end

/-- The status is right unless only tests are run, and pass. -/
theorem statusRight_iff (sha : Sha256) (projectId : Int64) (host : BuildHost) (w : Workplace) :
    StatusRight host w (cmdBuild sha projectId host w).1 ↔
      ¬ (OnlyTests host.info (cmdBuild sha projectId host w).1.snapshot ∧
        Exits0 host.shell (cmdBuild sha projectId host w).1.plan w.tree) := by
  constructor
  · exact fun h hboth => not_statusRight_of_onlyTests hboth.1 hboth.2 h
  · intro h
    generalize hrun : (cmdBuild sha projectId host w).1 = r at h
    have hplan : r.plan = Planner.decide host.info r.snapshot := by
      rw [← hrun]
      rfl
    have hstatus : r.status = buildStatus r.plan (Builder.build host.shell r.plan w.tree).1 := by
      rw [← hrun]
      rfl
    rw [StatusRight, hstatus, buildStatus]
    cases haction : r.plan.action with
    | skip => simp
    | build =>
        cases hline : r.plan.commandLine with
        | none => simp [Plan.commandLine, haction] at hline
        | some line =>
            have hbuilt := build_of_commandLine host.shell w.tree hline
            have hexits : Exits0 host.shell r.plan w.tree ↔
                (host.shell line w.tree).1.exitCode = 0 := by
              rw [Exits0, hline]
              simp
            rw [hexits, if_neg (by decide), if_pos rfl, hbuilt.1]
            by_cases hzero : (host.shell line w.tree).1.exitCode = 0
            · rw [if_pos (hbuilt.2.2 hzero)]
              exact ⟨fun _ => .inr hzero, fun _ => rfl⟩
            · rw [if_neg fun hsuccess => hzero (hbuilt.2.1 hsuccess)]
              exact ⟨fun heq => absurd heq hzero, fun hor => absurd (hor.resolve_left nofun) hzero⟩
    | test =>
        have htests : OnlyTests host.info r.snapshot :=
          action_eq_test_iff.1 (hplan ▸ haction)
        have hfails : ¬ Exits0 host.shell r.plan w.tree := fun hpass => h ⟨htests, hpass⟩
        simp [hfails]
    | clean => exact absurd (hplan ▸ haction) action_ne_clean
    | unknown =>
        have hnone : ¬ Exits0 host.shell r.plan w.tree := by
          rintro ⟨line, hline, -⟩
          simp [Plan.commandLine, haction] at hline
        simp [hnone]

/-! ## Passing tests -/

/-- A project of tests only, which pass. -/
def passingHost : BuildHost where
  now := 1700000000
  order := .byId
  read := true
  recorded := true
  reading := .whole
  allocated := true
  info :=
    { rootPath := bytes "/home/dev/app"
      buildSystem := bytes "unknown"
      testFramework := bytes "pytest"
      hasTests := true }
  shell _ tree := (⟨0, []⟩, tree)

def freshWorkplace : Workplace := ⟨treeOf [], fun _ => .empty⟩

theorem passing_tests_not_right : ¬ StatusRight passingHost freshWorkplace
    (cmdBuild knownSha 1 passingHost freshWorkplace).1 := by
  have htests : OnlyTests passingHost.info
      (cmdBuild knownSha 1 passingHost freshWorkplace).1.snapshot :=
    ⟨rfl, by decide +kernel, .inr rfl⟩
  have haction : (cmdBuild knownSha 1 passingHost freshWorkplace).1.plan.action = .test :=
    action_eq_test_iff.2 htests
  refine not_statusRight_of_onlyTests htests ⟨_, if_neg ?_, rfl⟩
  rw [haction]
  decide

end Nazg.Brain
