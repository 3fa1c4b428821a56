import Nazg.Bot.Transport
import Nazg.System.Process

/-!
# The command lines of the SSH transport

`SSHTransport` writes a line for a local shell. A command is one argument of `ssh`; a script
goes through a pipe into a remote `bash`.
-/

namespace Nazg.Bot.SSHTransport

open Lib Lib.Shell Process

def buildSshPrefix (host : HostConfig) : Bytes :=
  bytes "ssh" ++ (if host.sshPort ≠ 22 then bytes " -p " ++ decimal host.sshPort else []) ++
    (if host.sshKey ≠ [] then bytes " -i " ++ shellQuote host.sshKey else []) ++
    bytes " -o BatchMode=yes" ++ bytes " -o StrictHostKeyChecking=accept-new" ++
    bytes " -o ConnectTimeout=10" ++ bytes " " ++ shellQuote host.address

/-- What `execute_command` hands to `popen`. -/
def executeCommand (host : HostConfig) (command : Bytes) : Bytes :=
  buildSshPrefix host ++ bytes " " ++ shellQuote command ++ bytes " 2>&1"

/-- What `execute_script` hands to `popen`. -/
def executeScript (host : HostConfig) (script : Bytes) : Bytes :=
  bytes "printf '%s' " ++ shellQuote script ++ bytes " | " ++
    (buildSshPrefix host ++ bytes " 'bash -s'") ++ bytes " 2>&1"

/-! ## The words of a line -/

/-- What `ssh` is given in front of a command. -/
def sshArgs (host : HostConfig) : List Bytes :=
  (if host.sshPort ≠ 22 then [bytes "-p", decimal host.sshPort] else []) ++
    (if host.sshKey ≠ [] then [bytes "-i", host.sshKey] else []) ++
    [bytes "-o", bytes "BatchMode=yes", bytes "-o", bytes "StrictHostKeyChecking=accept-new",
      bytes "-o", bytes "ConnectTimeout=10", host.address]

/-- The same as they stand in the line. -/
def lineArgs (host : HostConfig) : List Arg :=
  (if host.sshPort ≠ 22 then [.asIs (bytes "-p"), .asIs (decimal host.sshPort)] else []) ++
    (if host.sshKey ≠ [] then [.asIs (bytes "-i"), quotedArg host.sshKey] else []) ++
    [.asIs (bytes "-o"), .asIs (bytes "BatchMode=yes"), .asIs (bytes "-o"),
      .asIs (bytes "StrictHostKeyChecking=accept-new"), .asIs (bytes "-o"),
      .asIs (bytes "ConnectTimeout=10"), quotedArg host.address]

theorem buildSshPrefix_eq (host : HostConfig) :
    buildSshPrefix host = bytes "ssh" ++ argsText (lineArgs host) := by
  have hp : bytes " -p " = 32 :: (bytes "-p" ++ [32]) := rfl
  have hi : bytes " -i " = 32 :: (bytes "-i" ++ [32]) := rfl
  have hbatch : bytes " -o BatchMode=yes" =
      32 :: (bytes "-o" ++ 32 :: bytes "BatchMode=yes") := rfl
  have hstrict : bytes " -o StrictHostKeyChecking=accept-new" =
      32 :: (bytes "-o" ++ 32 :: bytes "StrictHostKeyChecking=accept-new") := rfl
  have htimeout : bytes " -o ConnectTimeout=10" =
      32 :: (bytes "-o" ++ 32 :: bytes "ConnectTimeout=10") := rfl
  have hspace : bytes " " = [32] := rfl
  rw [buildSshPrefix, lineArgs, hp, hi, hbatch, hstrict, htimeout, hspace]
  by_cases hport : host.sshPort = 22
  · by_cases hkey : host.sshKey = []
    · simp [hport, hkey, argsText, Arg.text, quotedArg]
    · simp [hport, hkey, argsText, Arg.text, quotedArg]
  · by_cases hkey : host.sshKey = []
    · simp [hport, hkey, argsText, Arg.text, quotedArg]
    · simp [hport, hkey, argsText, Arg.text, quotedArg]

theorem map_value_lineArgs (host : HostConfig) : (lineArgs host).map Arg.value = sshArgs host := by
  by_cases hport : host.sshPort = 22
  · by_cases hkey : host.sshKey = []
    · simp [lineArgs, sshArgs, hport, hkey, Arg.value, quotedArg]
    · simp [lineArgs, sshArgs, hport, hkey, Arg.value, quotedArg]
  · by_cases hkey : host.sshKey = []
    · simp [lineArgs, sshArgs, hport, hkey, Arg.value, quotedArg]
    · simp [lineArgs, sshArgs, hport, hkey, Arg.value, quotedArg]

theorem plain_decimal (n : Int) : Plain (decimal n) := by
  have hdigit : ∀ c, isDigit c = true → isSafe c = true := forall_byte (by decide +kernel)
  have hnat : ∀ n c, c ∈ natDecimal n → isSafe c = true := by
    intro n c hc
    exact hdigit c (isDigit_of_mem_natDecimal hc)
  cases n with
  | ofNat n => exact plain_of_safe (natDecimal_ne_nil n) (hnat n)
  | negSucc n =>
      refine plain_of_safe (List.cons_ne_nil _ _) ?_
      intro c hc
      rcases List.mem_cons.1 hc with rfl | hc
      · rfl
      · exact hnat (n + 1) c hc

theorem faithful_lineArgs (host : HostConfig) : ∀ b ∈ lineArgs host, b.Faithful := by
  intro b hb
  have hopt : Plain (bytes "-p") ∧ Plain (bytes "-i") ∧ Plain (bytes "-o") := by decide
  have hvalue : Plain (bytes "BatchMode=yes") ∧ Plain (bytes "StrictHostKeyChecking=accept-new") ∧
      Plain (bytes "ConnectTimeout=10") := by decide
  rw [lineArgs, List.mem_append, List.mem_append] at hb
  rcases hb with (hb | hb) | hb
  · split at hb
    · rcases List.mem_cons.1 hb with rfl | hb
      · exact hopt.1
      · rw [List.mem_singleton.1 hb]
        exact plain_decimal host.sshPort
    · cases hb
  · split at hb
    · rcases List.mem_cons.1 hb with rfl | hb
      · exact hopt.2.1
      · rw [List.mem_singleton.1 hb]
        trivial
    · cases hb
  · simp only [List.mem_cons, List.not_mem_nil, or_false] at hb
    rcases hb with rfl | rfl | rfl | rfl | rfl | rfl | rfl
    · exact hopt.2.2
    · exact hvalue.1
    · exact hopt.2.2
    · exact hvalue.2.1
    · exact hopt.2.2
    · exact hvalue.2.2
    · trivial

/-- `ssh` with its options, one more argument and the redirection. -/
theorem parse_ssh (host : HostConfig) (value : Bytes) :
    parse (buildSshPrefix host ++ 32 :: (shellQuote value ++ bytes " 2>&1")) =
      some ((bytes "ssh" :: sshArgs host ++ [value]).map .word ++ bothStreams) := by
  have hssh : IsProgram (bytes "ssh") := by decide
  have hfaithful : ∀ b ∈ .asIs (bytes "ssh") :: (lineArgs host ++ [quotedArg value]),
      b.Faithful := by
    intro b hb
    rcases List.mem_cons.1 hb with rfl | hb
    · exact hssh.1
    · rcases List.mem_append.1 hb with hb | hb
      · exact faithful_lineArgs host b hb
      · rw [List.mem_singleton.1 hb]
        trivial
  have hline := parse_faithful hfaithful hssh.2 ends_redirection
  have htext : buildSshPrefix host ++ 32 :: (shellQuote value ++ bytes " 2>&1") =
      (Arg.asIs (bytes "ssh")).text ++
        (argsText (lineArgs host ++ [quotedArg value]) ++ bytes " 2>&1") := by
    rw [buildSshPrefix_eq]
    simp [argsText, Arg.text, quotedArg]
  rw [htext, hline, items_redirection, Option.map_some]
  have hvalues : (lineArgs host ++ [quotedArg value]).map (fun b => Item.word b.value) =
      (sshArgs host ++ [value]).map .word := by
    rw [← map_value_lineArgs]
    simp [Arg.value, quotedArg, Function.comp_def]
  rw [List.map_cons, hvalues]
  rfl

/-- One argument vector: the program, its options and the command. -/
theorem parse_executeCommand (host : HostConfig) (command : Bytes) :
    parse (executeCommand host command) =
      some ((bytes "ssh" :: sshArgs host ++ [command]).map .word ++ bothStreams) := by
  have htext : executeCommand host command =
      buildSshPrefix host ++ 32 :: (shellQuote command ++ bytes " 2>&1") := by
    have hspace : bytes " " = [32] := rfl
    simp [executeCommand, hspace]
  rw [htext, parse_ssh]

/-- Two of them with a pipe between. -/
theorem parse_executeScript (host : HostConfig) (script : Bytes) :
    parse (executeScript host script) =
      some ([bytes "printf", bytes "%s", script].map .word ++ .op (bytes "|") ::
        ((bytes "ssh" :: sshArgs host ++ [bytes "bash -s"]).map .word ++ bothStreams)) := by
  have hprintf : IsProgram (bytes "printf") := by decide
  have hfaithful : ∀ b ∈ [.asIs (bytes "printf"), quotedArg (bytes "%s"), quotedArg script],
      b.Faithful := by
    intro b hb
    simp only [List.mem_cons, List.not_mem_nil, or_false] at hb
    rcases hb with rfl | rfl | rfl
    · exact hprintf.1
    · trivial
    · trivial
  have hjoin := parse_join hfaithful hprintf.2 joins_pipe
    (buildSshPrefix host ++ 32 :: (shellQuote (bytes "bash -s") ++ bytes " 2>&1"))
  have htext : executeScript host script = (Arg.asIs (bytes "printf")).text ++
      (argsText [quotedArg (bytes "%s"), quotedArg script] ++ 32 :: (bytes "|" ++ 32 ::
        (buildSshPrefix host ++ 32 :: (shellQuote (bytes "bash -s") ++ bytes " 2>&1")))) := by
    have hfirst : bytes "printf '%s' " =
        bytes "printf" ++ 32 :: (shellQuote (bytes "%s") ++ [32]) := by decide
    have hpipe : bytes " | " = 32 :: (bytes "|" ++ [32]) := rfl
    have hbash : bytes " 'bash -s'" = 32 :: shellQuote (bytes "bash -s") := by decide
    rw [executeScript, hfirst, hpipe, hbash]
    simp [argsText, Arg.text, quotedArg]
  rw [htext, hjoin, parse_ssh, Option.map_some]
  rfl

end Nazg.Bot.SSHTransport
