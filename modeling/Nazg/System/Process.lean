import Nazg.Lib.ShellWords
import Nazg.Lib.Stdio

/-!
# Running a command line

`popen` gives a shell what stands before the first terminator. `shell_quote` is for the parts
of a line that come from elsewhere: wherever no quote is open, the shell reads its result as
the value it was given and as nothing else.
-/

namespace Nazg.Process

open Lib Lib.Shell

/-- In quotes, with each quote in double quotes of its own. -/
def shellQuote (value : Bytes) : Bytes :=
  39 :: (value.flatMap fun c => if c = 39 then [39, 34, 39, 34, 39] else [c]) ++ [39]

/-- What a command that is handed to `popen` says. -/
def reading (cmd : Bytes) : Option (List Item) := parse (cstr cmd)

theorem reading_eq {cmd : Bytes} (h : (0 : UInt8) ∉ cmd) : reading cmd = parse cmd := by
  rw [reading, cstr_eq_self.2 h]

/-! ## What a quoted value is read as -/

/-- The five characters a quote becomes leave the quoted state and come back to it. -/
theorem tokens_single_quote (w : Word) (s : Bytes) :
    tokens (some w) .single (39 :: 34 :: 39 :: 34 :: 39 :: s) =
      tokens (some (w ++ [⟨true, 39⟩])) .single s := by
  have hleave : step (some w) .single 39 = some ([], some w, .bare) := rfl
  have hopen : step (some w) .bare 34 = some ([], some w, .double) := by
    change some ([], some (w ++ []), Mode.double) = _
    rw [List.append_nil]
  have hquote : step (some w) .double 39 = some ([], some (w ++ [⟨true, 39⟩]), .double) := rfl
  have hclose : step (some (w ++ [⟨true, 39⟩])) .double 34 =
      some ([], some (w ++ [⟨true, 39⟩]), .bare) := rfl
  have hreturn : step (some (w ++ [⟨true, 39⟩])) .bare 39 =
      some ([], some (w ++ [⟨true, 39⟩]), .single) := by
    change some ([], some (w ++ [⟨true, 39⟩] ++ []), Mode.single) = _
    rw [List.append_nil]
  rw [tokens_of_step hleave, tokens_of_step hopen, tokens_of_step hquote, tokens_of_step hclose,
    tokens_of_step hreturn]

theorem tokens_single_escaped (value : Bytes) (w : Word) (s : Bytes) :
    tokens (some w) .single
        ((value.flatMap fun c => if c = 39 then [39, 34, 39, 34, 39] else [c]) ++ s) =
      tokens (some (w ++ quoted value)) .single s := by
  induction value generalizing w with
  | nil => simp [quoted]
  | cons c value ih =>
      rw [List.flatMap_cons, List.append_assoc]
      by_cases hc : c = 39
      · rw [if_pos hc, hc]
        simp only [List.cons_append, List.nil_append]
        rw [tokens_single_quote, ih]
        simp [quoted]
      · have hstep : step (some w) .single c = some ([], some (w ++ [⟨true, c⟩]), .single) := by
          rw [step, if_neg hc]
          rfl
        rw [if_neg hc, List.singleton_append, tokens_of_step hstep, ih]
        simp [quoted]

theorem spells_shellQuote (value : Bytes) : Spells (shellQuote value) value := by
  intro cur s
  have hopen : step cur .bare 39 = some ([], extend cur [], .single) := rfl
  have hclose : ∀ w, step (some w) .single 39 = some ([], some w, .bare) := fun _ => rfl
  rw [shellQuote, List.cons_append, List.cons_append, List.append_assoc, tokens_of_step hopen,
    extend, tokens_single_escaped, List.singleton_append, tokens_of_step (hclose _),
    List.append_nil]
  rfl

theorem countP_shellQuote (value : Bytes) :
    (shellQuote value).countP isBlank = value.countP isBlank := by
  have hinner : (value.flatMap fun c => if c = 39 then [39, 34, 39, 34, 39] else [c]).countP isBlank
      = value.countP isBlank := by
    induction value with
    | nil => rfl
    | cons c value ih =>
        rw [List.flatMap_cons, List.countP_append, ih, List.countP_cons, Nat.add_comm]
        by_cases hc : c = 39
        · rw [if_pos hc, hc]
          rfl
        · rw [if_neg hc, List.countP_singleton]
  have hquote : isBlank 39 = false := rfl
  rw [shellQuote, List.cons_append, List.countP_cons, List.countP_append, hinner]
  simp [hquote]

theorem zero_notMem_shellQuote {value : Bytes} (h : (0 : UInt8) ∉ value) :
    (0 : UInt8) ∉ shellQuote value := by
  rw [shellQuote]
  intro hmem
  simp only [List.cons_append, List.mem_cons, List.mem_append, List.mem_flatMap] at hmem
  rcases hmem with hmem | ⟨c, hc, hmem⟩ | hmem
  · cases hmem
  · split at hmem
    · simp at hmem
    · rw [List.mem_singleton.1 hmem] at h
      exact h hc
  · simp at hmem

/-- A quoted value as an argument. -/
def quotedArg (value : Bytes) : Arg :=
  .spelled (shellQuote value) value (spells_shellQuote value) (countP_shellQuote value)

/-! ## Lines that programs begin with -/

/-- The name of a program that stands for itself at the beginning of a line. -/
def IsProgram (p : Bytes) : Prop := Plain p ∧ isKeyword (bare p) = false

instance : DecidablePred IsProgram := fun _ => inferInstanceAs (Decidable (_ ∧ _))

/-- What a shell is to make of a directory, a program and its arguments. -/
def intended (workingDir : Bytes) (argv : List Bytes) : List Item :=
  (if workingDir ≠ [] then [.word (bytes "cd"), .word workingDir, .op (bytes "&&")] else []) ++
    argv.map .word

/-- Where `cd` goes: an operand with a dash in front is an option, or the directory before. -/
def cdTarget (operand : Bytes) : Option Bytes :=
  if operand.head? = some 45 then none else some operand

/-- Both streams in one. -/
def bothStreams : List Item := [.ioNumber (bytes "2"), .op (bytes ">&"), .word (bytes "1")]

theorem ends_redirection : Ends (bytes " 2>&1") := by
  intro c hc
  cases hc
  rfl

theorem items_redirection :
    (tokens none .bare (bytes " 2>&1")).bind (Shell.read false false) = some bothStreams := by
  decide

/-- A change of directory in front of a line. -/
theorem parse_cd (dir s : Bytes) : parse (bytes "cd " ++ shellQuote dir ++ bytes " && " ++ s) =
    (parse s).map ([.word (bytes "cd"), .word dir, .op (bytes "&&")] ++ ·) := by
  have hcd : IsProgram (bytes "cd") := by decide
  have hfaithful : ∀ b ∈ [Arg.asIs (bytes "cd"), quotedArg dir], b.Faithful := by
    intro b hb
    rcases List.mem_cons.1 hb with rfl | hb
    · exact hcd.1
    · rw [List.mem_singleton.1 hb]
      trivial
  have hjoin := parse_join hfaithful hcd.2 joins_and s
  have htext : bytes "cd " ++ shellQuote dir ++ bytes " && " ++ s = (Arg.asIs (bytes "cd")).text ++
      (argsText [quotedArg dir] ++ 32 :: (bytes "&&" ++ 32 :: s)) := by
    have hcd : bytes "cd " = bytes "cd" ++ [32] := rfl
    have hand : bytes " && " = 32 :: (bytes "&&" ++ [32]) := rfl
    rw [hcd, hand]
    simp [argsText, Arg.text, quotedArg]
  rw [htext, hjoin]
  rfl

/-- A program with quoted arguments. -/
theorem parse_program {p : Bytes} (hp : IsProgram p) (args : List Bytes) :
    parse (p ++ args.flatMap fun a => 32 :: shellQuote a) = some ((p :: args).map .word) := by
  have hfaithful : ∀ b ∈ .asIs p :: args.map quotedArg, b.Faithful := by
    intro b hb
    rcases List.mem_cons.1 hb with rfl | hb
    · exact hp.1
    · obtain ⟨a, -, rfl⟩ := List.mem_map.1 hb
      trivial
  have hline := parse_faithful hfaithful hp.2 (s := []) (by simp [Ends])
  have htext : (args.flatMap fun a => 32 :: shellQuote a) = argsText (args.map quotedArg) ++ [] := by
    simp [argsText, Arg.text, quotedArg, List.flatMap_map]
  rw [htext]
  refine hline.trans ?_
  have hvalues : (args.map quotedArg).map (fun b => Item.word b.value) = args.map .word := by
    simp [Arg.value, quotedArg, Function.comp_def]
  rw [List.map_cons, hvalues]
  simp [tokens, finish, flush, Shell.read, Arg.value]

/-! ## Commands with a timeout

`run_command_with_timeout` waits for the output of a child with `poll`, every time for the whole
timeout, and for the child itself once the output has ended. Time is counted in milliseconds from
the start, and the loop takes none but in `poll`. Whatever comes in at one time is read at that
time, in as many parts as it may take.
-/

/-- What happens outside while a command runs. The pipe may be closed before the child exits, and
it is open behind that for as long as others have it. -/
structure Schedule where
  /-- What is written at each time. -/
  output : Nat → Bytes
  /-- When the last end that is written to is closed. -/
  closed : Option Nat
  exit : Option (Nat × WaitStatus)
  quiet : ∀ c, closed = some c → ∀ t, c < t → output t = []

/-- How long `poll` waits: `poll_ms`, and a negative value is no limit. -/
def pollBudget (timeoutMs : Int64) : Option Nat :=
  let pollMs : Int32 := if 0 < timeoutMs then timeoutMs.toInt32 else 0
  if pollMs < 0 then none else some pollMs.toInt.toNat

inductive Ending where
  | endOfFile
  | timedOut (time : Nat)
  deriving DecidableEq

/-- The loop around `poll`, which was called at the time `start`; up to `time` there has been
nothing since. The end of the output is no input, so `errno` is looked at there, as it was left by
an earlier call (`eintr`). -/
def pollLoop (s : Schedule) (limit : Option Nat) (eintr : Bool) :
    Nat → Nat → Nat → Bytes → Option (Ending × Bytes)
  | 0, _, _, _ => none
  | fuel + 1, start, time, output =>
      if s.closed.any (· < time) then
        if eintr then pollLoop s limit eintr fuel start time output else some (.endOfFile, output)
      else if limit.any (start + · < time) then some (.timedOut (time - 1), output)
      else if s.output time ≠ [] then
        pollLoop s limit eintr fuel time (time + 1) (output ++ s.output time)
      else if s.closed = some time then
        if eintr then pollLoop s limit eintr fuel start time output else some (.endOfFile, output)
      else pollLoop s limit eintr fuel start (time + 1) output

structure TimedResult where
  exitCode : Int
  output : Bytes
  /-- Whether the signal reached a child that was still running. -/
  killed : Bool
  deriving DecidableEq

/-- The exit code of a child that is waited for. -/
def waitExitCode : WaitStatus → Int
  | .exited code => code.toNat
  | .signaled signal => 128 + signal.toNat

def dropNewline (output : Bytes) : Bytes :=
  if output.getLast? = some 10 then output.dropLast else output

def Schedule.runningAt (s : Schedule) (time : Nat) : Bool :=
  match s.exit with
  | none => true
  | some (e, _) => time < e

/-- What follows the loop: the child is killed, or waited for. -/
def Schedule.report (s : Schedule) : Ending × Bytes → Option TimedResult
  | (.timedOut time, output) => some ⟨124, output, s.runningAt time⟩
  | (.endOfFile, output) =>
      match s.exit with
      | none => none
      | some (_, status) => some ⟨waitExitCode status, dropNewline output, false⟩

/-- `run_command_with_timeout`, where the child could be started. -/
def runCommandWithTimeout (s : Schedule) (timeoutMs : Int64) (eintr : Bool) (fuel : Nat) :
    Option TimedResult :=
  (pollLoop s (pollBudget timeoutMs) eintr fuel 0 0 []).bind s.report

end Nazg.Process
