import Nazg.Lib.ShellProgram
import Nazg.Task.Builder

/-!
# Commands with several parts

`Executor::execute_shell` writes `cd dir && ` in front of a command and `2>&1` behind it, as text.
The first goes with the first list of the command, and the second with its last command: a list
behind a separator or behind `||` runs wherever the shell is when the directory cannot be entered,
the errors of the other commands are not collected, and behind a separator the redirection is a
command of its own whose status is the one that is reported.
-/

namespace Nazg.Builder

open Lib Lib.Shell Lib.ShellProgram Process

/-! ## What becomes of a command -/

/-- What `execute_shell` hands to a shell. -/
def handed (command dir : Bytes) : Bytes := withWorkdir (command ++ bytes " 2>&1") dir

/-- `run_command_with_timeout` collects the errors of the shell, `run_command_capture` does not. -/
def errorsOf (timeoutMs : Int64) : Sink := if 0 < timeoutMs then .result else .other

section

variable {σ : Type} (W : World σ) (errors : Sink) (s : σ)

/-- The status of a line and the commands that it runs; 2 is that of a syntax error. -/
def runLine (line : Bytes) : Nat × List (ShellProgram.Part σ) :=
  match program (cstr line) with
  | some p => ((runProgram W errors (start s) p).status, (runProgram W errors (start s) p).parts)
  | none => (2, [])

def shellOf (output : Bytes) : Builder.Shell := fun line tree =>
  (⟨(runLine W errors s line).1, output⟩, tree)

/-- The commands that are not the change of directory. -/
def ownParts (command dir : Bytes) : List (ShellProgram.Part σ) :=
  if dir = [] then (runLine W errors s (handed command dir)).2
  else (runLine W errors s (handed command dir)).2.drop 1

/-- The working directory. -/
def entered (dir : Bytes) : Option σ := if dir = [] then some s else W.chdir s dir

/-- The parts of the command run as they do in the working directory, and none elsewhere, their
errors are collected, and the status is that of the command. -/
structure Carried (command dir : Bytes) (p : Program) : Prop where
  inside : ∀ s', entered W s dir = some s' →
    (ownParts W errors s command dir).map ShellProgram.Part.ran =
      (runProgram W errors (start s') p).parts.map ShellProgram.Part.ran
  nowhere : entered W s dir = none → ownParts W errors s command dir = []
  captured : ∀ x ∈ ownParts W errors s command dir, x.captured = true
  status : ∀ s', entered W s dir = some s' → ∀ output tree,
    (executeShell (shellOf W errors s output) command dir tree).1.exitCode =
      (runProgram W errors (start s') p).status

end

/-- What is read of a command with the redirection behind it. -/
def redirected (command : Bytes) (r : Reading) : Reading :=
  if EndsInComment command then r else r.add errorsToOutput

/-- The change of directory and the redirection are those of the whole command. -/
structure Binds (errors : Sink) (command dir : Bytes) (r : Reading) : Prop where
  operand : dir.head? ≠ some 45
  single : dir ≠ [] →
    ∃ l, (redirected command r).program = [l] ∧ ∀ x ∈ l.before, x.2 = .and
  ends : r.command = .empty → r.program = [] ∨ EndsInComment command
  captured : ∀ x ∈ Program.commands (redirected command r).program, x.1.acts = true →
    x.1.captures errors x.2 = true

/-! ## The line -/

theorem readProgram_withWorkdir {s dir : Bytes} (hdir : dir ≠ []) :
    readProgram (withWorkdir s dir) = (readProgram s).map (Reading.behind (cdTo dir)) := by
  have hfaithful : ∀ b ∈ [Arg.asIs (bytes "cd"), quotedArg dir], b.Faithful := by
    have hcd : Plain (bytes "cd") := by decide
    simpa [Arg.Faithful, quotedArg] using hcd
  have hname : ¬ reservedWords.any (fun v => (Arg.asIs (bytes "cd")).toWord = bare v) := by decide
  have htext : withWorkdir s dir = (Arg.asIs (bytes "cd")).text ++
      (argsText [quotedArg dir] ++ 32 :: (bytes "&&" ++ 32 :: s)) := by
    have hcd : bytes "cd " = bytes "cd" ++ [32] := rfl
    have hand : bytes " && " = 32 :: (bytes "&&" ++ [32]) := rfl
    rw [withWorkdir, if_neg hdir, hcd, hand]
    simp [argsText, Arg.text, quotedArg]
  rw [htext, readProgram_and hfaithful hname]
  rfl

theorem handed_eq_cstr {command dir : Bytes} (hcommand : (0 : UInt8) ∉ command)
    (hdir : (0 : UInt8) ∉ dir) : cstr (handed command dir) = handed command dir := by
  have hfixed : (0 : UInt8) ∉ bytes "cd " ∧ (0 : UInt8) ∉ bytes " && " ∧
      (0 : UInt8) ∉ bytes " 2>&1" := by decide
  rw [cstr_eq_self, handed, withWorkdir]
  split
  · simp [hcommand, hfixed]
  · simp [hcommand, hfixed, zero_notMem_shellQuote hdir]

variable {σ : Type} {W : World σ} {errors : Sink} {s : σ}
variable {command dir : Bytes} {r : Reading} {p : Program}

/-- A text that can be handed on, and what it says. -/
structure Reads (command dir : Bytes) (r : Reading) (p : Program) : Prop where
  text : (0 : UInt8) ∉ command
  path : (0 : UInt8) ∉ dir
  reading : readProgram command = some r
  finish : r.finish = some p

theorem finish_redirected (h : r.finish = some p) (command : Bytes) :
    (redirected command r).finish = some (redirected command r).program := by
  rw [redirected]
  split
  · rw [h, (finish_eq_some h).1]
  · exact finish_add r errorsToOutput

theorem program_handed (h : Reads command dir r p) : program (cstr (handed command dir)) =
    if dir = [] then some (redirected command r).program
    else (redirected command r).program.behind (cdTo dir) := by
  have hread : readProgram (command ++ bytes " 2>&1") = some (redirected command r) :=
    readProgram_suffix h.reading
  rw [handed_eq_cstr h.text h.path, handed, program]
  split
  · next hdir =>
      rw [withWorkdir, if_pos hdir, hread]
      exact finish_redirected h.finish command
  · next hdir =>
      rw [readProgram_withWorkdir hdir, hread, Option.map_some, Option.bind_some, finish_behind,
        finish_redirected h.finish, Option.bind_some]

variable (W errors s) in
theorem runLine_of_program {line : Bytes} {q : Program} (h : program (cstr line) = some q) :
    runLine W errors s line =
      ((runProgram W errors (start s) q).status, (runProgram W errors (start s) q).parts) := by
  rw [runLine, h]

/-- What comes of a line: the status that is reported and the commands of its own. -/
structure Outcome (W : World σ) (errors : Sink) (s : σ) (command dir : Bytes) (status : Nat)
    (parts : List (ShellProgram.Part σ)) : Prop where
  status : (runLine W errors s (handed command dir)).1 = status
  parts : ownParts W errors s command dir = parts

/-- In a directory that is entered the line runs as it does without the change. -/
theorem outcome_entered (h : Reads command dir r p) (hoperand : dir.head? ≠ some 45) {s' : σ}
    (hs' : entered W s dir = some s') (hne : dir = [] ∨ (redirected command r).program ≠ []) :
    Outcome W errors s command dir
      (runProgram W errors (start s') (redirected command r).program).status
      (runProgram W errors (start s') (redirected command r).program).parts := by
  have hprogram := program_handed h
  by_cases hdir : dir = []
  · rw [entered, if_pos hdir] at hs'
    cases hs'
    rw [if_pos hdir] at hprogram
    have hline := runLine_of_program W errors s hprogram
    exact ⟨by rw [hline], by rw [ownParts, if_pos hdir, hline]⟩
  · rw [entered, if_neg hdir] at hs'
    rw [if_neg hdir] at hprogram
    obtain ⟨l, ls, hls⟩ := List.exists_cons_of_ne_nil (hne.resolve_left hdir)
    rw [hls] at hprogram ⊢
    have hline := runLine_of_program W errors s hprogram
    have hcd := W.cd s dir hoperand
    rw [hs'] at hcd
    have hrun : runSimple W errors false (start s) (cdTo dir) =
        (start s').behind [⟨s, (cdTo dir).words, [], (cdTo dir).captures errors false⟩] :=
      runSimple_eq rfl hcd
    have hall : runProgram W errors (start s) (l.behind (cdTo dir) :: ls) =
        (runProgram W errors (start s') (l :: ls)).behind
          [⟨s, (cdTo dir).words, [], (cdTo dir).captures errors false⟩] := by
      rw [runProgram_entered rfl (by rw [hrun]; rfl), hrun, runProgram_behind]
    refine ⟨?_, ?_⟩
    · rw [hline, hall]
      rfl
    · rw [ownParts, if_neg hdir, hline, hall]
      rfl

/-- Where `cd` fails a list without `||` does not run. -/
theorem outcome_stopped (h : Reads command dir r p) (hdir : dir ≠ []) {l : AndOr}
    (hl : (redirected command r).program = [l]) (hand : ∀ x ∈ l.before, x.2 = .and)
    {s' : σ} {n : Nat} {e : Bool}
    (hcd : W.exec s (cdTo dir).words (cdTo dir).files = (s', n, e)) (hn : n ≠ 0) :
    Outcome W errors s command dir n [] := by
  have hprogram := program_handed h
  rw [if_neg hdir, hl] at hprogram
  have hline := runLine_of_program W errors s hprogram
  have hrun : runSimple W errors false (start s) (cdTo dir) =
      ⟨s', n, e, [⟨s, (cdTo dir).words, [], (cdTo dir).captures errors false⟩]⟩ :=
    runSimple_eq rfl hcd
  have hall : runProgram W errors (start s) [l.behind (cdTo dir)] =
      runSimple W errors false (start s) (cdTo dir) :=
    runProgram_stopped rfl (by rw [hrun]; exact hn) hand
  refine ⟨?_, ?_⟩
  · rw [hline, hall, hrun]
  · rw [ownParts, if_neg hdir, hline, hall, hrun]
    rfl

theorem outcome_syntaxError (h : Reads command dir r p) (hdir : dir ≠ [])
    (hq : (redirected command r).program = []) : Outcome W errors s command dir 2 [] := by
  have hprogram := program_handed h
  rw [if_neg hdir, hq] at hprogram
  have hline : runLine W errors s (handed command dir) = (2, []) := by
    rw [runLine, hprogram]
    rfl
  exact ⟨by rw [hline], by rw [ownParts, if_neg hdir, hline]; rfl⟩

theorem exitCode_executeShell (output : Bytes) (tree : FileTree) :
    (executeShell (shellOf W errors s output) command dir tree).1.exitCode =
      (runLine W errors s (handed command dir)).1 :=
  rfl

/-! ## A command that is carried out as it is -/

/-- At a separator the redirection is lost in a comment, or there is no command. -/
theorem agree_redirected (W : World σ) (errors : Sink) (h : Reads command dir r p)
    (hends : r.command = .empty → r.program = [] ∨ EndsInComment command) (s' : σ) :
    (runProgram W errors (start s') p).Agree
      (runProgram W errors (start s') (redirected command r).program) := by
  obtain ⟨rfl, hclosed⟩ := finish_eq_some h.finish
  rw [redirected]
  split
  · exact .refl _
  · next hcomment =>
      by_cases hempty : r.command = .empty
      · have hnone : r.program = [] := (hends hempty).resolve_right hcomment
        rw [runProgram_errorsToOutput W errors (start s') hempty (hclosed hempty), hnone]
        exact ⟨rfl, rfl, rfl, rfl⟩
      · exact agree_errorsToOutput W errors (start s') hempty

theorem carried_of_binds (h : Reads command dir r p) (hbinds : Binds errors command dir r) :
    Carried W errors s command dir p := by
  have hne : dir = [] ∨ (redirected command r).program ≠ [] := by
    by_cases hdir : dir = []
    · exact .inl hdir
    · obtain ⟨l, hl, -⟩ := hbinds.single hdir
      exact .inr (by simp [hl])
  have hentered : ∀ s', entered W s dir = some s' → Outcome W errors s command dir _ _ :=
    fun s' hs' => outcome_entered h hbinds.operand hs' hne
  have hnowhere : entered W s dir = none → ownParts W errors s command dir = [] := by
    intro hnone
    have hdir : dir ≠ [] := by
      rintro rfl
      cases hnone
    rw [entered, if_neg hdir] at hnone
    obtain ⟨l, hl, hand⟩ := hbinds.single hdir
    have hcd := W.cd s dir hbinds.operand
    rw [hnone] at hcd
    obtain ⟨n, hn, hcd⟩ := hcd
    have hstopped : Outcome W errors s command dir n [] :=
      outcome_stopped h hdir hl hand hcd hn
    exact hstopped.parts
  refine ⟨?_, hnowhere, ?_, ?_⟩
  · intro s' hs'
    rw [(hentered s' hs').parts]
    exact (agree_redirected W errors h hbinds.ends s').parts.symm
  · cases hs' : entered W s dir with
    | none =>
        rw [hnowhere hs']
        simp
    | some s' =>
        rw [(hentered s' hs').parts]
        exact captured_runProgram hbinds.captured (by simp [start])
  · intro s' hs' output tree
    rw [exitCode_executeShell, (hentered s' hs').status,
      (agree_redirected W errors h hbinds.ends s').status]

/-! ## What else a command can meet -/

/-- The command is carried out wherever it is given. -/
def AlwaysCarried (errors : Sink) (command dir : Bytes) (p : Program) : Prop :=
  ∀ (σ : Type) (W : World σ) (s : σ), Carried W errors s command dir p

def bareTree : FileTree :=
  { nodes := .empty, closed := FileTree.closed_empty, nulFree := FileTree.nulFree_empty }

/-- A directory that can be entered, in which every command ends with this status. -/
theorem entered_twoPlaces (dir : Bytes) (k : Nat) :
    ∃ s', entered (twoPlaces dir k true) false dir = some s' ∧
      Steady (twoPlaces dir k true) s' k := by
  by_cases hdir : dir = []
  · exact ⟨false, if_pos hdir, twoPlaces_outside fun _ => .inl hdir⟩
  · refine ⟨true, ?_, twoPlaces_inside dir k true⟩
    rw [entered, if_neg hdir]
    exact if_pos ⟨rfl, rfl, hdir, rfl⟩

theorem mem_ownParts {x : ShellProgram.Part σ} (hx : x ∈ ownParts W errors s command dir) :
    x ∈ (runLine W errors s (handed command dir)).2 := by
  rw [ownParts] at hx
  split at hx
  · exact hx
  · exact List.mem_of_mem_drop hx

theorem state_ownParts {k : Nat} (hsteady : Steady W s k) :
    ∀ x ∈ ownParts W errors s command dir, x.state = s := by
  intro x hx
  have hline := mem_ownParts hx
  rw [runLine] at hline
  split at hline
  · exact state_runProgram hsteady rfl (by simp [start]) x hline
  · cases hline

/-- The redirection behind no command is one, or a comment. -/
theorem redirected_nil (h : Reads command dir r []) : (redirected command r).program = [] ∨
    (redirected command r).program = [⟨[], ⟨[], ⟨[], [errorsToOutput]⟩⟩⟩] := by
  obtain ⟨hprogram, hclosed⟩ := finish_eq_some h.finish
  have hempty : r.command = .empty := by
    by_contra hne
    rw [Reading.program, if_neg hne] at hprogram
    simp at hprogram
  rw [redirected]
  split
  · exact .inl hprogram.symm
  · rw [Reading.program, if_pos hempty] at hprogram
    rw [program_add, ← hprogram, hempty, (hclosed hempty).1, (hclosed hempty).2]
    exact .inr rfl

theorem redirected_ne_nil (h : Reads command dir r p) (hp : p ≠ []) :
    (redirected command r).program ≠ [] := by
  obtain ⟨rfl, -⟩ := finish_eq_some h.finish
  rw [redirected]
  split
  · exact hp
  · rw [program_add]
    simp

theorem acts_redirected (h : Reads command dir r p)
    (hacts : ∀ x ∈ Program.commands p, x.1.acts = true) (hp : p ≠ [])
    (hends : r.command = .empty → r.program = [] ∨ EndsInComment command) :
    ∀ x ∈ Program.commands (redirected command r).program, x.1.acts = true := by
  obtain ⟨rfl, -⟩ := finish_eq_some h.finish
  rw [redirected]
  split
  · exact hacts
  · next hcomment =>
      intro x hx
      have hne : r.command ≠ .empty := fun hempty => (hends hempty).elim hp hcomment
      obtain ⟨y, hy, hyx⟩ := commands_errorsToOutput hne hx
      exact hyx ▸ hacts y hy

section

variable (h : Reads command dir r p) (hacts : ∀ x ∈ Program.commands p, x.1.acts = true)
variable (hall : AlwaysCarried errors command dir p)
include h hacts hall

/-- A dash makes an option of the directory, and `cd` can leave the shell where it is. -/
theorem operand_of_carried : dir.head? ≠ some 45 := by
  intro hdash
  have hdir : dir ≠ [] := by
    rintro rfl
    cases hdash
  have hsteady : Steady (twoPlaces dir 1 true) false 1 := twoPlaces_outside fun _ => .inr hdash
  have hentered : entered (twoPlaces dir 1 true) false dir = some true := by
    rw [entered, if_neg hdir]
    exact if_pos ⟨rfl, rfl, hdir, rfl⟩
  have hcarried := hall Bool (twoPlaces dir 1 true) false
  by_cases hp : p = []
  · -- nothing but the change of directory, which fails
    subst hp
    have hstatus := hcarried.status true hentered [] bareTree
    rw [exitCode_executeShell] at hstatus
    rcases redirected_nil h with hq | hq
    · rw [(outcome_syntaxError h hdir hq).status] at hstatus
      cases hstatus
    · rw [(outcome_stopped h hdir hq (by simp) (hsteady _ _) one_ne_zero).status] at hstatus
      cases hstatus
  · -- its commands run outside
    have hinside := hcarried.inside true hentered
    rw [runProgram_steady (twoPlaces_inside dir 1 true) ⟨rfl, rfl⟩ hacts (.inl hp)] at hinside
    obtain ⟨l, ls, rfl⟩ := List.exists_cons_of_ne_nil hp
    have hsome : Program.reached 1 (l :: ls) ≠ [] :=
      List.append_ne_nil_of_left_ne_nil (reached_ne_nil 1 l.before l.last) _
    obtain ⟨x, hx⟩ := List.exists_mem_of_ne_nil _ hsome
    have hran : (partAt errors true x).ran ∈
        (ownParts (twoPlaces dir 1 true) errors false command dir).map ShellProgram.Part.ran := by
      rw [hinside]
      exact List.mem_map_of_mem (List.mem_append_right _ (List.mem_map_of_mem hx))
    obtain ⟨y, hy, hyx⟩ := List.mem_map.1 hran
    have houtside := state_ownParts hsteady y hy
    have hwhere : y.state = true := congrArg Prod.fst hyx
    rw [houtside] at hwhere
    cases hwhere

/-- Behind a separator the redirection succeeds, whatever the command did. -/
theorem ends_of_carried (hoperand : dir.head? ≠ some 45) :
    r.command = .empty → r.program = [] ∨ EndsInComment command := by
  intro hempty
  by_contra hnot
  obtain ⟨hp, hcomment⟩ := not_or.1 hnot
  obtain ⟨hprogram, hclosed⟩ := finish_eq_some h.finish
  obtain ⟨s', hs', hsteady⟩ := entered_twoPlaces dir 1
  have hq : (redirected command r).program = (r.add errorsToOutput).program := by
    rw [redirected, if_neg hcomment]
  have hne : (redirected command r).program ≠ [] := redirected_ne_nil h (hprogram ▸ hp)
  have hstatus := (hall Bool (twoPlaces dir 1 true) false).status s' hs' [] bareTree
  rw [exitCode_executeShell, (outcome_entered h hoperand hs' (.inr hne)).status, hq,
    runProgram_errorsToOutput _ _ _ hempty (hclosed hempty), ← hprogram,
    runProgram_steady hsteady ⟨rfl, rfl⟩ hacts (.inl (hprogram ▸ hp))] at hstatus
  cases hstatus

/-- When the directory cannot be entered a second list runs, and what is behind `||`. -/
theorem single_of_carried (hends : r.command = .empty → r.program = [] ∨ EndsInComment command)
    (hdir : dir ≠ []) :
    ∃ l, (redirected command r).program = [l] ∧ ∀ x ∈ l.before, x.2 = .and := by
  by_cases hp : p = []
  · subst hp
    rcases redirected_nil h with hq | hq
    · have hentered : entered (twoPlaces dir 0 true) false dir = some true := by
        rw [entered, if_neg hdir]
        exact if_pos ⟨rfl, rfl, hdir, rfl⟩
      have hstatus := (hall Bool (twoPlaces dir 0 true) false).status true hentered [] bareTree
      rw [exitCode_executeShell, (outcome_syntaxError h hdir hq).status] at hstatus
      cases hstatus
    · exact ⟨_, hq, by simp⟩
  · have hactsq := acts_redirected h hacts hp hends
    have hsteady : Steady (twoPlaces dir 1 false) false 1 := twoPlaces_outside fun h => by cases h
    have hclosed : entered (twoPlaces dir 1 false) false dir = none := by
      rw [entered, if_neg hdir]
      rfl
    have hnowhere := (hall Bool (twoPlaces dir 1 false) false).nowhere hclosed
    have hprogram := program_handed h
    rw [if_neg hdir] at hprogram
    rcases hq : (redirected command r).program with _ | ⟨l, ls⟩
    · exact absurd hq (redirected_ne_nil h hp)
    · rw [hq] at hprogram hactsq
      have hline := runLine_of_program (twoPlaces dir 1 false) errors false hprogram
      have hactsall : ∀ x ∈ Program.commands (l.behind (cdTo dir) :: ls), x.1.acts = true := by
        intro x hx
        rcases List.mem_cons.1 hx with rfl | hx
        · rfl
        · exact hactsq x hx
      rw [runProgram_steady hsteady ⟨rfl, rfl⟩ hactsall (.inl (by simp))] at hline
      have hbehind : reached 1 false l.before l.last = [] ∧ Program.reached 1 ls = [] := by
        rw [ownParts, if_neg hdir, hline] at hnowhere
        simpa [Machine.ranAt, start, Program.reached, reached, AndOr.behind, Pipeline.commands,
          Connector.goesOn] using hnowhere
      have hlast : ls = [] := by
        rcases ls with _ | ⟨l', ls'⟩
        · rfl
        · exact absurd (List.append_eq_nil_iff.1 hbehind.2).1 (reached_ne_nil 1 l'.before l'.last)
      refine ⟨l, by rw [hlast], ?_⟩
      intro x hx
      cases hor : x.2 with
      | and => rfl
      | or => exact absurd hbehind.1 (reached_or hx hor false l.last)

/-- Every command runs if all succeed or if all fail. -/
theorem captured_of_carried (hoperand : dir.head? ≠ some 45)
    (hends : r.command = .empty → r.program = [] ∨ EndsInComment command) :
    ∀ x ∈ Program.commands (redirected command r).program, x.1.acts = true →
      x.1.captures errors x.2 = true := by
  intro x hx hxacts
  by_cases hp : p = []
  · subst hp
    rcases redirected_nil h with hq | hq
    · rw [hq] at hx
      cases hx
    · rw [hq] at hx
      obtain rfl : x = (⟨[], [errorsToOutput]⟩, false) := by
        simpa [Program.commands, AndOr.commands, Pipeline.commands] using hx
      cases hxacts
  · have hne : (redirected command r).program ≠ [] := redirected_ne_nil h hp
    obtain ⟨k, hk⟩ := Program.mem_reached hx
    obtain ⟨s', hs', hsteady⟩ := entered_twoPlaces dir k
    have hcaptured := (hall Bool (twoPlaces dir k true) false).captured
    rw [(outcome_entered h hoperand hs' (.inr hne)).parts, runProgram_steady hsteady ⟨rfl, rfl⟩
      (acts_redirected h hacts hp hends) (.inl hne)] at hcaptured
    exact hcaptured (partAt errors s' x) (List.mem_append_right _ (List.mem_map_of_mem hk))

end

/-- A command is carried out wherever it is given if and only if the change of directory and the
redirection are those of all of it. -/
theorem executeShell_iff {command dir : Bytes} {timeoutMs : Int64} {r : Reading} {p : Program}
    (h : Reads command dir r p) (hacts : ∀ x ∈ Program.commands p, x.1.acts = true) :
    AlwaysCarried (errorsOf timeoutMs) command dir p ↔
      Binds (errorsOf timeoutMs) command dir r := by
  refine ⟨fun hall => ?_, fun hbinds σ W s => carried_of_binds h hbinds⟩
  have hoperand := operand_of_carried h hacts hall
  have hends := ends_of_carried h hacts hall hoperand
  exact ⟨hoperand, single_of_carried h hacts hall hends, hends,
    captured_of_carried h hacts hall hoperand hends⟩

/-- A program without arguments. -/
def makeOnly : Reading := ⟨[], [], [], ⟨[bare (bytes "make")], []⟩⟩

theorem executeShell_iff_make :
    AlwaysCarried (errorsOf 0) (bytes "make") (bytes "/p") makeOnly.program := by
  have hreads : Reads (bytes "make") (bytes "/p") makeOnly makeOnly.program :=
    ⟨by decide, by decide, by decide +kernel, by decide +kernel⟩
  have hacts : ∀ x ∈ Program.commands makeOnly.program, x.1.acts = true := by decide +kernel
  have hq : (redirected (bytes "make") makeOnly).program =
      [⟨[], ⟨[], ⟨[bare (bytes "make")], [errorsToOutput]⟩⟩⟩] := by decide +kernel
  refine (executeShell_iff hreads hacts).2 ⟨by decide, fun _ => ⟨_, hq, by simp⟩, ?_, ?_⟩
  · intro hempty
    cases hempty
  · rw [hq]
    decide +kernel

/-- `make` and its tests. -/
def makeAndTest : Reading :=
  ⟨[⟨[], ⟨[], ⟨[bare (bytes "make")], []⟩⟩⟩], [], [],
    ⟨[bare (bytes "make"), bare (bytes "test")], []⟩⟩

/-- Where the directory cannot be entered the tests run elsewhere. -/
theorem second_list_outside :
    Reads (bytes "make; make test") (bytes "/p") makeAndTest makeAndTest.program ∧
      ¬ AlwaysCarried (errorsOf 0) (bytes "make; make test") (bytes "/p") makeAndTest.program := by
  have hreads : Reads (bytes "make; make test") (bytes "/p") makeAndTest makeAndTest.program :=
    ⟨by decide, by decide, by decide +kernel, by decide +kernel⟩
  have hacts : ∀ x ∈ Program.commands makeAndTest.program, x.1.acts = true := by decide +kernel
  have htwo : (redirected (bytes "make; make test") makeAndTest).program.length = 2 := by
    decide +kernel
  have hends : makeAndTest.command ≠ .empty := by decide
  refine ⟨hreads, fun hall => ?_⟩
  obtain ⟨l, hl, -⟩ := single_of_carried hreads hacts hall (fun h => absurd h hends) (by decide)
  rw [hl] at htwo
  cases htwo

end Nazg.Builder
