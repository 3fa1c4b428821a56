import Nazg.Lib.ShellExact
import Nazg.Task.Builder

/-!
# What the executor hands to a shell

`Executor::execute` quotes the directory and joins the command and its arguments as they are.
The shell makes of them what was given if and only if they are plain; a directory that begins
with a dash is an option of `cd`. The plans have plain arguments, except that for `cmake`,
whose shell program `Builder::build` takes out of its arguments.
-/

namespace Nazg.Builder

open Lib Lib.Shell Brain Process

/-- What `execute` writes behind the change of directory. -/
def commandText (command : Bytes) (args : List Bytes) : Bytes :=
  command ++ (args.flatMap fun arg => 32 :: arg) ++ bytes " 2>&1"

/-- The command string of `execute`. -/
def executeLine (command : Bytes) (args : List Bytes) (workingDir : Bytes) : Bytes :=
  withWorkdir (commandText command args) workingDir

/-- The program of a plan that is one for a shell. -/
def shellProgram (command : Bytes) : List Bytes → Option Bytes
  | [option, program] =>
      if command = bytes "/bin/sh" ∧ option = bytes "-c" then some program else none
  | _ => none

def planText (command : Bytes) (args : List Bytes) : Bytes :=
  match shellProgram command args with
  | some program => program ++ bytes " 2>&1"
  | none => commandText command args

/-- The command string of `build`. -/
def buildLine (plan : Plan) : Bytes :=
  withWorkdir (planText plan.command plan.args) plan.workingDir

/-- What comes of a command string. -/
def report (cr : CommandResult × FileTree) : ExecutionResult × FileTree :=
  ({ exitCode := cr.1.exitCode, stdoutOutput := cr.1.output, success := cr.1.exitCode = 0 }, cr.2)

theorem execute_eq (shell : Shell) (command : Bytes) (args : List Bytes) (workingDir : Bytes)
    (tree : FileTree) : execute shell command args workingDir tree =
      report (shell (executeLine command args workingDir) tree) :=
  rfl

theorem build_eq (shell : Shell) {plan : Plan} (hskip : plan.action ≠ .skip)
    (hunknown : plan.action ≠ .unknown) (tree : FileTree) :
    build shell plan tree = report (shell (buildLine plan) tree) := by
  have hline : build shell plan tree = match plan.args with
      | [option, command] =>
          if plan.command = bytes "/bin/sh" ∧ option = bytes "-c" then
            executeShell shell command plan.workingDir tree
          else execute shell plan.command plan.args plan.workingDir tree
      | _ => execute shell plan.command plan.args plan.workingDir tree := by
    rw [build]
    cases haction : plan.action with
    | skip => exact absurd haction hskip
    | unknown => exact absurd haction hunknown
    | build => rfl
    | test => rfl
    | clean => rfl
  rw [hline, buildLine, planText, shellProgram.eq_def]
  cases hargs : plan.args with
  | nil => rfl
  | cons option rest =>
      cases rest with
      | nil => rfl
      | cons program rest =>
          cases rest with
          | nil =>
              simp only
              split
              · rfl
              · rfl
          | cons arg rest => rfl

/-! ## Arguments that arrive -/

/-- The shell goes to the directory and runs the program with the arguments, and that is
all it does. -/
def Executes (command : Bytes) (args : List Bytes) (workingDir : Bytes) : Prop :=
  reading (executeLine command args workingDir) =
      some (intended workingDir (command :: args) ++ bothStreams) ∧
    (workingDir ≠ [] → cdTarget workingDir = some workingDir)

instance (command : Bytes) (args : List Bytes) (workingDir : Bytes) :
    Decidable (Executes command args workingDir) :=
  inferInstanceAs (Decidable (_ ∧ _))

theorem parse_withWorkdir (cmd dir : Bytes) : parse (withWorkdir cmd dir) =
    (parse cmd).map (intended dir [] ++ ·) := by
  rw [withWorkdir, intended]
  by_cases hdir : dir = []
  · rw [if_pos hdir, if_neg (not_not.2 hdir)]
    simp
  · rw [if_neg hdir, if_pos hdir, parse_cd]
    simp

theorem zero_notMem_withWorkdir {cmd dir : Bytes} (hcmd : (0 : UInt8) ∉ cmd)
    (hdir : (0 : UInt8) ∉ dir) : (0 : UInt8) ∉ withWorkdir cmd dir := by
  have hfixed : (0 : UInt8) ∉ bytes "cd " ∧ (0 : UInt8) ∉ bytes " && " := by decide
  rw [withWorkdir]
  split
  · exact hcmd
  · simp [hfixed, hcmd, zero_notMem_shellQuote hdir]

theorem cdTarget_iff (dir : Bytes) :
    (dir ≠ [] → cdTarget dir = some dir) ↔ dir.head? ≠ some 45 := by
  rw [cdTarget]
  cases dir with
  | nil => simp
  | cons c dir => simp

theorem intended_append (dir : Bytes) (argv : List Bytes) (items : List Item) :
    intended dir argv ++ items = intended dir [] ++ (argv.map .word ++ items) := by
  simp [intended]

theorem executes_iff {command : Bytes} {args : List Bytes} {workingDir : Bytes}
    (hcommand : ∀ a ∈ command :: args, (0 : UInt8) ∉ a) (hdir : (0 : UInt8) ∉ workingDir) :
    Executes command args workingDir ↔ (∀ a ∈ command :: args, Plain a) ∧
      isKeyword (bare command) = false ∧ workingDir.head? ≠ some 45 := by
  have htext : commandText command args = (Arg.asIs command).text ++
      (argsText (args.map .asIs) ++ bytes " 2>&1") := by
    simp [commandText, argsText, Arg.text, List.flatMap_map]
  have hzero : (0 : UInt8) ∉ commandText command args := by
    have hfixed : (0 : UInt8) ∉ bytes " 2>&1" := by decide
    have hprogram := hcommand command List.mem_cons_self
    have hargs : (0 : UInt8) ∉ args.flatMap fun arg => 32 :: arg := by
      intro hmem
      obtain ⟨arg, harg, hmem⟩ := List.mem_flatMap.1 hmem
      rcases List.mem_cons.1 hmem with hmem | hmem
      · cases hmem
      · exact hcommand arg (List.mem_cons_of_mem _ harg) hmem
    simp [commandText, hfixed, hprogram, hargs]
  have hline := @parse_line_iff (.asIs command) (args.map .asIs) _ ends_redirection _
    items_redirection (by decide)
  have hvalues : (Arg.asIs command :: args.map Arg.asIs).map (fun b => Item.word b.value) =
      (command :: args).map .word := by
    simp [Arg.value, Function.comp_def]
  have hfaithful : (∀ b ∈ Arg.asIs command :: args.map Arg.asIs, b.Faithful) ↔
      ∀ a ∈ command :: args, Plain a := by
    simp [Arg.Faithful]
  rw [hvalues, hfaithful, ← htext] at hline
  have hadd : ∀ items, (parse (commandText command args)).map (intended workingDir [] ++ ·) =
      some (intended workingDir [] ++ items) ↔ parse (commandText command args) = some items := by
    intro items
    cases parse (commandText command args) with
    | none => simp
    | some items' => simp
  rw [Executes, executeLine, reading_eq (zero_notMem_withWorkdir hzero hdir), parse_withWorkdir,
    intended_append, hadd, hline, cdTarget_iff, and_assoc]
  rfl

/-! ## Plans -/

/-- What a plan is to do where it is carried out: its program with its arguments, or what its
shell program says. -/
def planItems (command : Bytes) (args : List Bytes) : Option (List Item) :=
  match shellProgram command args with
  | some program => (reading program).map (· ++ bothStreams)
  | none => some ((command :: args).map .word ++ bothStreams)

/-- The shell goes to the directory of the plan and does this there. -/
def PlanExecutes (plan : Plan) : Prop :=
  (∃ items, planItems plan.command plan.args = some items ∧
    reading (buildLine plan) = some (intended plan.workingDir [] ++ items)) ∧
  (plan.workingDir ≠ [] → cdTarget plan.workingDir = some plan.workingDir)

/-- Every command of the planner says what it is to do. -/
theorem parse_planText {name command : Bytes} {args : List Bytes}
    (h : (name, command, args) ∈ Planner.buildCommands ++ Planner.testCommands) :
    (0 : UInt8) ∉ planText command args ∧
      ∃ items, planItems command args = some items ∧ parse (planText command args) = some items := by
  have hall : ∀ c ∈ Planner.buildCommands ++ Planner.testCommands,
      (0 : UInt8) ∉ planText c.2.1 c.2.2 ∧ (planItems c.2.1 c.2.2).isSome ∧
        parse (planText c.2.1 c.2.2) = planItems c.2.1 c.2.2 := by decide +kernel
  obtain ⟨hzero, hsome, hparse⟩ := hall _ h
  obtain ⟨items, hitems⟩ := Option.isSome_iff_exists.1 hsome
  exact ⟨hzero, items, hitems, hparse.trans hitems⟩

theorem planExecutes_iff {plan : Plan} {name : Bytes}
    (hplan : (name, plan.command, plan.args) ∈ Planner.buildCommands ++ Planner.testCommands)
    (hdir : (0 : UInt8) ∉ plan.workingDir) :
    PlanExecutes plan ↔ plan.workingDir.head? ≠ some 45 := by
  obtain ⟨hzero, items, hitems, hparse⟩ := parse_planText hplan
  rw [PlanExecutes, cdTarget_iff]
  refine and_iff_right ⟨items, hitems, ?_⟩
  rw [buildLine, reading_eq (zero_notMem_withWorkdir hzero hdir), parse_withWorkdir, hparse]
  rfl

theorem mem_of_commandFor {commands : List (Bytes × Bytes × List Bytes)} {name command : Bytes}
    {args : List Bytes} (h : Planner.commandFor commands name = some (command, args)) :
    (name, command, args) ∈ commands := by
  obtain ⟨c, hc, heq⟩ := Option.map_eq_some_iff.1 h
  have hname : c.1 = name := by simpa using List.find?_some hc
  have hmem := List.mem_of_find?_eq_some hc
  rwa [show c = (name, command, args) from Prod.ext hname heq] at hmem

theorem generated_planExecutes_iff {info : ProjectInfo} {plan : Plan}
    (hplan : plan = Planner.generateBuildPlan info ∨ plan = Planner.generateTestPlan info)
    (hunknown : plan.action ≠ .unknown) (hroot : (0 : UInt8) ∉ info.rootPath) :
    PlanExecutes plan ↔ info.rootPath.head? ≠ some 45 := by
  rcases hplan with rfl | rfl
  · rw [Planner.generateBuildPlan] at hunknown ⊢
    cases hcommand : Planner.commandFor Planner.buildCommands info.buildSystem with
    | none =>
        rw [hcommand] at hunknown
        exact absurd rfl hunknown
    | some c =>
        have hmem := mem_of_commandFor hcommand
        exact planExecutes_iff (List.mem_append_left _ hmem) hroot
  · rw [Planner.generateTestPlan] at hunknown ⊢
    cases hcommand : Planner.commandFor Planner.testCommands info.testFramework with
    | none =>
        rw [hcommand] at hunknown
        exact absurd rfl hunknown
    | some c =>
        have hmem := mem_of_commandFor hcommand
        exact planExecutes_iff (List.mem_append_right _ hmem) hroot

/-- The configure step of a build with `cmake` has its options. -/
theorem reading_cmake {info : ProjectInfo} (hsystem : info.buildSystem = bytes "cmake")
    (hroot : (0 : UInt8) ∉ info.rootPath) :
    reading (buildLine (Planner.generateBuildPlan info)) = some (intended info.rootPath
      [bytes "cmake", bytes "-B", bytes "build", bytes "-S", bytes "."] ++
        .op (bytes "&&") :: ([bytes "cmake", bytes "--build", bytes "build", bytes "-j4"].map .word ++
          bothStreams)) := by
  have hplan : Planner.generateBuildPlan info =
      { action := .build
        workingDir := info.rootPath
        command := bytes "/bin/sh"
        args := [bytes "-c", bytes "cmake -B build -S . && cmake --build build -j4"] } := by
    rw [Planner.generateBuildPlan, hsystem]
    rfl
  have hzero : (0 : UInt8) ∉
      bytes "cmake -B build -S . && cmake --build build -j4" ++ bytes " 2>&1" := by decide
  have hparse : parse (bytes "cmake -B build -S . && cmake --build build -j4" ++ bytes " 2>&1") =
      some ([bytes "cmake", bytes "-B", bytes "build", bytes "-S", bytes "."].map .word ++
        .op (bytes "&&") :: ([bytes "cmake", bytes "--build", bytes "build", bytes "-j4"].map .word ++
          bothStreams)) := by decide +kernel
  have hline : buildLine (Planner.generateBuildPlan info) = withWorkdir
      (bytes "cmake -B build -S . && cmake --build build -j4" ++ bytes " 2>&1") info.rootPath := by
    rw [hplan]
    rfl
  rw [hline, reading_eq (zero_notMem_withWorkdir hzero hroot), parse_withWorkdir, hparse,
    Option.map_some]
  exact congrArg some (intended_append _ _ _).symm

/-- `execute` does what it is given exactly if its command and arguments are plain and the
directory does not begin with a dash; and so the plans are carried out. -/
theorem executor_runs_iff {command : Bytes} {args : List Bytes} {workingDir : Bytes}
    {info : ProjectInfo} {plan : Plan} (hcommand : ∀ a ∈ command :: args, (0 : UInt8) ∉ a)
    (hdir : (0 : UInt8) ∉ workingDir) (hroot : (0 : UInt8) ∉ info.rootPath)
    (hplan : plan = Planner.generateBuildPlan info ∨ plan = Planner.generateTestPlan info)
    (hknown : plan.action ≠ .unknown) :
    (Executes command args workingDir ↔ (∀ a ∈ command :: args, Plain a) ∧
      isKeyword (bare command) = false ∧ workingDir.head? ≠ some 45) ∧
    (PlanExecutes plan ↔ info.rootPath.head? ≠ some 45) ∧
    (info.buildSystem = bytes "cmake" →
      reading (buildLine (Planner.generateBuildPlan info)) = some (intended info.rootPath
        [bytes "cmake", bytes "-B", bytes "build", bytes "-S", bytes "."] ++
          .op (bytes "&&") :: ([bytes "cmake", bytes "--build", bytes "build",
            bytes "-j4"].map .word ++ bothStreams))) :=
  ⟨executes_iff hcommand hdir, generated_planExecutes_iff hplan hknown hroot,
    fun hsystem => reading_cmake hsystem hroot⟩

theorem executor_runs_iff_make :
    (Executes (bytes "make") [bytes "-j4"] (bytes "/it's") ↔
      (∀ a ∈ [bytes "make", bytes "-j4"], Plain a) ∧ isKeyword (bare (bytes "make")) = false ∧
        (bytes "/it's").head? ≠ some 45) ∧
    (PlanExecutes (Planner.generateBuildPlan ⟨bytes "/p", bytes "cmake", bytes "ctest", true⟩) ↔
      (bytes "/p").head? ≠ some 45) :=
  have h := @executor_runs_iff _ _ _ ⟨bytes "/p", bytes "cmake", bytes "ctest", true⟩ _
    (by decide) (by decide) (by decide) (.inl rfl) (by decide)
  ⟨h.1, h.2.1⟩

/-- A shell program among the arguments comes apart. -/
theorem shell_program_not_executes : ¬ Executes (bytes "/bin/sh")
    [bytes "-c", bytes "cmake -B build -S . && cmake --build build -j4"] (bytes "/p") := by
  decide +kernel

end Nazg.Builder
