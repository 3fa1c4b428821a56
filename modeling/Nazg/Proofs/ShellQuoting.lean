import Nazg.Bot.Ssh
import Nazg.Testsuite.Runner

/-!
# A quoted value is one word

What `shell_quote` returns is read as the value wherever it stands, and so the lines of the
test runner and of the SSH transport say what they are meant to say, whatever directory,
argument, address, key, command or script is put into them.
-/

namespace Nazg.Process

open Lib Lib.Shell Nazg.Bot Testsuite

theorem zero_notMem_fullCommand {workingDir : Bytes} {argv : List Bytes} {cmd : Bytes}
    (hcmd : Runner.fullCommand workingDir argv = some cmd) (hdir : (0 : UInt8) ∉ workingDir)
    (hargs : ∀ a ∈ argv, (0 : UInt8) ∉ a) : (0 : UInt8) ∉ cmd := by
  cases argv with
  | nil => cases hcmd
  | cons program args =>
      cases hcmd
      have hcd : (0 : UInt8) ∉ bytes "cd " := by decide
      have hand : (0 : UInt8) ∉ bytes " && " := by decide
      have hspace : (0 : UInt8) ∉ bytes " " := by decide
      have hquoted := zero_notMem_shellQuote hdir
      have hprogram := hargs program List.mem_cons_self
      have hrest : (0 : UInt8) ∉ args.flatMap fun arg => bytes " " ++ shellQuote arg := by
        intro hmem
        obtain ⟨arg, harg, hmem⟩ := List.mem_flatMap.1 hmem
        rcases List.mem_append.1 hmem with hmem | hmem
        · exact hspace hmem
        · exact zero_notMem_shellQuote (hargs arg (List.mem_cons_of_mem _ harg)) hmem
      split
      · simp [hcd, hand, hquoted, hprogram, hrest]
      · simp [hprogram, hrest]

theorem reading_fullCommand {program workingDir : Bytes} {args : List Bytes}
    (hprogram : IsProgram program) (hdir : (0 : UInt8) ∉ workingDir)
    (hargs : ∀ a ∈ program :: args, (0 : UInt8) ∉ a) :
    (Runner.fullCommand workingDir (program :: args)).bind reading =
      some (intended workingDir (program :: args)) := by
  rw [← parse_fullCommand hprogram workingDir args]
  exact reading_eq (zero_notMem_fullCommand rfl hdir hargs)

theorem zero_notMem_decimal (n : Int) : (0 : UInt8) ∉ decimal n := by
  intro hmem
  exact absurd (lt_of_mem_decimal hmem) (by decide)

/-- Nothing ends an argument of an adapter early but what ends the filter. -/
theorem zero_notMem_buildCommand {framework : Framework}
    {buildCommand : RunOptions → List Bytes} (h : createAdapter framework = some buildCommand)
    {opts : RunOptions} (hfilter : ∀ f ∈ opts.filter, (0 : UInt8) ∉ f) :
    ∀ a ∈ buildCommand opts, (0 : UInt8) ∉ a := by
  have hparts : ∀ option, (0 : UInt8) ∉ option →
      ∀ a ∈ opts.filter.elim [] fun filter => [option, filter], (0 : UInt8) ∉ a := by
    intro option hoption a ha
    cases hopt : opts.filter with
    | none =>
        rw [hopt] at ha
        cases ha
    | some f =>
        rw [hopt] at ha
        rcases List.mem_cons.1 ha with rfl | ha
        · exact hoption
        · rw [List.mem_singleton.1 ha]
          exact hfilter f hopt
  have hif : ∀ (p : Prop) [Decidable p] (l : List Bytes), (∀ a ∈ l, (0 : UInt8) ∉ a) →
      ∀ a ∈ if p then l else [], (0 : UInt8) ∉ a := by
    intro p _ l hl a ha
    split at ha
    · exact hl a ha
    · cases ha
  have hjobs : ∀ option, (0 : UInt8) ∉ option →
      ∀ a ∈ [option, decimal opts.parallelJobs], (0 : UInt8) ∉ a := by
    intro option hoption a ha
    rcases List.mem_cons.1 ha with rfl | ha
    · exact hoption
    · rw [List.mem_singleton.1 ha]
      exact zero_notMem_decimal opts.parallelJobs
  have hgtest : ∀ a ∈ GTestAdapter.buildCommand opts, (0 : UInt8) ∉ a := by
    simp only [GTestAdapter.buildCommand, List.forall_mem_append]
    refine ⟨⟨⟨by decide, hparts _ (by decide)⟩, hif _ _ (hjobs _ (by decide))⟩, ?_⟩
    exact hif _ _ (by decide)
  have hpytest : ∀ a ∈ PytestAdapter.buildCommand opts, (0 : UInt8) ∉ a := by
    simp only [PytestAdapter.buildCommand, List.forall_mem_append]
    refine ⟨⟨⟨⟨by decide, hparts _ (by decide)⟩, hif _ _ (hjobs _ (by decide))⟩, ?_⟩, ?_⟩
    · exact hif _ _ (by decide)
    · exact hif _ _ (by decide)
  cases framework with
  | gtest =>
      cases h
      exact hgtest
  | ctest =>
      cases h
      exact hgtest
  | pytest =>
      cases h
      exact hpytest
  | unittest =>
      cases h
      exact hpytest
  | unknown => cases h
  | catch2 => cases h
  | cargo => cases h
  | jest => cases h
  | vitest => cases h
  | goTest => cases h

theorem zero_notMem_buildSshPrefix {host : HostConfig} (hkey : (0 : UInt8) ∉ host.sshKey)
    (haddress : (0 : UInt8) ∉ host.address) : (0 : UInt8) ∉ SSHTransport.buildSshPrefix host := by
  have hport := zero_notMem_decimal host.sshPort
  have hquotedKey := zero_notMem_shellQuote hkey
  have hquotedAddress := zero_notMem_shellQuote haddress
  have hfixed : (0 : UInt8) ∉ bytes "ssh" ∧ (0 : UInt8) ∉ bytes " -p " ∧
      (0 : UInt8) ∉ bytes " -i " ∧ (0 : UInt8) ∉ bytes " -o BatchMode=yes" ∧
      (0 : UInt8) ∉ bytes " -o StrictHostKeyChecking=accept-new" ∧
      (0 : UInt8) ∉ bytes " -o ConnectTimeout=10" ∧ (0 : UInt8) ∉ bytes " " := by decide
  rw [SSHTransport.buildSshPrefix]
  split
  · split
    · simp [hfixed, hport, hquotedKey, hquotedAddress]
    · simp [hfixed, hport, hquotedAddress]
  · split
    · simp [hfixed, hquotedKey, hquotedAddress]
    · simp [hfixed, hquotedAddress]

theorem reading_executeCommand {host : HostConfig} {command : Bytes}
    (hkey : (0 : UInt8) ∉ host.sshKey) (haddress : (0 : UInt8) ∉ host.address)
    (hcommand : (0 : UInt8) ∉ command) : reading (SSHTransport.executeCommand host command) =
      some ((bytes "ssh" :: SSHTransport.sshArgs host ++ [command]).map .word ++
        bothStreams) := by
  have hfixed : (0 : UInt8) ∉ bytes " " ∧ (0 : UInt8) ∉ bytes " 2>&1" := by decide
  rw [reading_eq, SSHTransport.parse_executeCommand]
  rw [SSHTransport.executeCommand]
  simp [hfixed, zero_notMem_buildSshPrefix hkey haddress, zero_notMem_shellQuote hcommand]

theorem reading_executeScript {host : HostConfig} {script : Bytes}
    (hkey : (0 : UInt8) ∉ host.sshKey) (haddress : (0 : UInt8) ∉ host.address)
    (hscript : (0 : UInt8) ∉ script) : reading (SSHTransport.executeScript host script) =
      some ([bytes "printf", bytes "%s", script].map .word ++ .op (bytes "|") ::
        ((bytes "ssh" :: SSHTransport.sshArgs host ++ [bytes "bash -s"]).map .word ++
          bothStreams)) := by
  have hfixed : (0 : UInt8) ∉ bytes "printf '%s' " ∧ (0 : UInt8) ∉ bytes " | " ∧
      (0 : UInt8) ∉ bytes " 'bash -s'" ∧ (0 : UInt8) ∉ bytes " 2>&1" := by decide
  rw [reading_eq, SSHTransport.parse_executeScript]
  rw [SSHTransport.executeScript]
  simp [hfixed, zero_notMem_buildSshPrefix hkey haddress, zero_notMem_shellQuote hscript]

/-- Wherever no quote is open a quoted value goes into the word as it is, and alone it is a
word of its own; the lines that are made of such values have no other words, operators or
expansions than they are meant to have. -/
theorem shellQuote_safe :
    (∀ s : Bytes, (0 : UInt8) ∉ s → literal (quoted s) = some s ∧
      (∀ cur rest, tokens cur .bare (shellQuote s ++ rest) =
        tokens (extend cur (quoted s)) .bare rest) ∧
      ∀ rest, Ends rest → tokens none .bare (shellQuote s ++ rest) =
        (tokens none .bare rest).map (.word (quoted s) :: ·)) ∧
    (∀ program workingDir args, IsProgram program → (0 : UInt8) ∉ workingDir →
      (∀ a ∈ program :: args, (0 : UInt8) ∉ a) →
        (Runner.fullCommand workingDir (program :: args)).bind reading =
          some (intended workingDir (program :: args))) ∧
    (∀ (plan : Brain.Plan) opts cmd, Runner.command plan opts = some cmd →
      (0 : UInt8) ∉ plan.workingDir → (∀ f ∈ opts.filter, (0 : UInt8) ∉ f) →
        ∃ buildCommand,
          createAdapter (stringToFramework plan.testFramework) = some buildCommand ∧
            reading cmd = some (intended plan.workingDir (buildCommand opts))) ∧
    (∀ host command, (0 : UInt8) ∉ host.sshKey → (0 : UInt8) ∉ host.address →
      (0 : UInt8) ∉ command → reading (SSHTransport.executeCommand host command) =
        some ((bytes "ssh" :: SSHTransport.sshArgs host ++ [command]).map .word ++
          bothStreams)) ∧
    ∀ host script, (0 : UInt8) ∉ host.sshKey → (0 : UInt8) ∉ host.address →
      (0 : UInt8) ∉ script → reading (SSHTransport.executeScript host script) =
        some ([bytes "printf", bytes "%s", script].map .word ++ .op (bytes "|") ::
          ((bytes "ssh" :: SSHTransport.sshArgs host ++ [bytes "bash -s"]).map .word ++
            bothStreams)) := by
  refine ⟨?_, ?_, ?_, ?_, ?_⟩
  · intro s _
    refine ⟨literal_quoted s, spells_shellQuote s, ?_⟩
    intro rest hrest
    rw [spells_shellQuote, extend, tokens_ends hrest]
    rfl
  · intro program workingDir args hprogram hdir hargs
    exact reading_fullCommand hprogram hdir hargs
  · intro plan opts cmd hcmd hdir hfilter
    obtain ⟨buildCommand, hadapter, hfull⟩ := Option.bind_eq_some_iff.1 hcmd
    refine ⟨buildCommand, hadapter, ?_⟩
    have hzero := zero_notMem_buildCommand hadapter hfilter
    obtain ⟨program, args, hargv, hprogram⟩ := isProgram_of_createAdapter hadapter opts
    rw [hargv] at hfull hzero ⊢
    have hreading := reading_fullCommand hprogram hdir hzero
    rwa [hfull, Option.bind_some] at hreading
  · intro host command hkey haddress hcommand
    exact reading_executeCommand hkey haddress hcommand
  · intro host script hkey haddress hscript
    exact reading_executeScript hkey haddress hscript

theorem shellQuote_safe_pytest :
    (Runner.fullCommand (bytes "it's") [bytes "pytest", bytes "-k", bytes "a; b"]).bind reading =
      some [.word (bytes "cd"), .word (bytes "it's"), .op (bytes "&&"), .word (bytes "pytest"),
        .word (bytes "-k"), .word (bytes "a; b")] :=
  shellQuote_safe.2.1 _ _ _ (by decide) (by decide) (by decide)

end Nazg.Process
