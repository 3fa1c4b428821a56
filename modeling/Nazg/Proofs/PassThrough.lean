import Nazg.Git.Client
import Nazg.Lib.ShellExact

/-!
# What git is given

A command that is passed on is read as the user's arguments if and only if each of those
that are not quoted is plain: a text that a shell reads as one word that is itself.
-/

namespace Nazg.Git

open Lib Lib.Shell Process

/-- Each argument with the one before it. -/
def neighbours : Option Bytes → List Bytes → List (Option Bytes × Bytes)
  | _, [] => []
  | prev, arg :: rest => (prev, arg) :: neighbours (some arg) rest

/-- The arguments as they stand in the command. -/
def lineArg (asIs : AsIs) (p : Option Bytes × Bytes) : Arg :=
  if asIs p.1 p.2 then .asIs p.2 else quotedArg p.2

theorem map_snd_neighbours (prev : Option Bytes) (args : List Bytes) :
    (neighbours prev args).map Prod.snd = args := by
  induction args generalizing prev with
  | nil => rfl
  | cons arg args ih => rw [neighbours, List.map_cons, ih]

theorem value_lineArg (asIs : AsIs) (p : Option Bytes × Bytes) : (lineArg asIs p).value = p.2 := by
  rw [lineArg]
  split
  · rfl
  · rfl

theorem faithful_lineArg_iff (asIs : AsIs) (p : Option Bytes × Bytes) :
    (lineArg asIs p).Faithful ↔ (asIs p.1 p.2 = true → Plain p.2) := by
  rw [lineArg]
  split
  · next h => simp [h, Arg.Faithful]
  · next h => simp [h, Arg.Faithful, quotedArg]

theorem appendArgs_eq (asIs : AsIs) (prev : Option Bytes) (args : List Bytes) :
    appendArgs asIs prev args = argsText ((neighbours prev args).map (lineArg asIs)) := by
  have hspace : bytes " " = [32] := rfl
  induction args generalizing prev with
  | nil => rfl
  | cons arg args ih =>
      have htext : (lineArg asIs (prev, arg)).text =
          if asIs prev arg then arg else shellQuote arg := by
        rw [lineArg]
        split
        · rfl
        · rfl
      rw [appendArgs, ih, neighbours, List.map_cons, argsText, argsText, List.flatMap_cons, htext,
        hspace]
      rfl

theorem zero_notMem_appendArgs {asIs : AsIs} {prev : Option Bytes} {args : List Bytes}
    (h : ∀ a ∈ args, (0 : UInt8) ∉ a) : (0 : UInt8) ∉ appendArgs asIs prev args := by
  have hspace : (0 : UInt8) ∉ bytes " " := by decide
  induction args generalizing prev with
  | nil => exact List.not_mem_nil
  | cons arg args ih =>
      have harg := h arg List.mem_cons_self
      have hrest : (0 : UInt8) ∉ appendArgs asIs (some arg) args :=
        ih fun a ha => h a (List.mem_cons_of_mem _ ha)
      rw [appendArgs]
      split
      · simp [hspace, harg, hrest]
      · simp [hspace, zero_notMem_shellQuote harg, hrest]

/-- The command is `git`, the subcommand and the arguments, and nothing else. -/
def Subcommand.Faithful (sub : Subcommand) (args : List Bytes) : Prop :=
  (sub.command true args).bind reading = some ((bytes "git" :: sub.name :: args).map .word)

instance (sub : Subcommand) : DecidablePred sub.Faithful :=
  fun _ => inferInstanceAs (Decidable (_ = _))

/-- What goes through unharmed: an argument is quoted, or it is plain. -/
theorem Subcommand.faithful_iff {sub : Subcommand} {args : List Bytes}
    (hnul : ∀ a ∈ args, (0 : UInt8) ∉ a) (hhelp : sub.asksForHelp args = false) :
    sub.Faithful args ↔
      ∀ p ∈ neighbours none args, sub.asIs p.1 p.2 = true → Plain p.2 := by
  have hgit : IsProgram (bytes "git") := by decide
  have hname : Plain sub.name := by
    cases sub
    · decide
    · decide
    · decide
    · decide
  have hends : Ends [] := by
    intro c hc
    cases hc
  have htail : (tokens none .bare []).bind (Shell.read false false) = some [] := rfl
  have hline := @parse_line_iff (.asIs (bytes "git"))
    (.asIs sub.name :: (neighbours none args).map (lineArg sub.asIs)) _ hends _ htail
    (Nat.zero_le _)
  have htext : bytes "git" ++ bytes " " ++ sub.name ++ appendArgs sub.asIs none args =
      (Arg.asIs (bytes "git")).text ++
        (argsText (.asIs sub.name :: (neighbours none args).map (lineArg sub.asIs)) ++ []) := by
    have hspace : bytes " " = [32] := rfl
    rw [appendArgs_eq, hspace]
    simp [argsText, Arg.text]
  have hvalues : (Arg.asIs (bytes "git") ::
      .asIs sub.name :: (neighbours none args).map (lineArg sub.asIs)).map
        (fun b => Item.word b.value) = (bytes "git" :: sub.name :: args).map .word := by
    have hargs : ((neighbours none args).map (lineArg sub.asIs)).map (fun b => Item.word b.value) =
        args.map .word := by
      conv_rhs => rw [← map_snd_neighbours none args]
      rw [List.map_map, List.map_map]
      refine List.map_congr_left ?_
      intro p _
      exact congrArg Item.word (value_lineArg sub.asIs p)
    rw [List.map_cons, List.map_cons, hargs]
    rfl
  have hzero : (0 : UInt8) ∉
      bytes "git" ++ bytes " " ++ sub.name ++ appendArgs sub.asIs none args := by
    have hfixed : (0 : UInt8) ∉ bytes "git" ∧ (0 : UInt8) ∉ bytes " " := by decide
    have hsub : (0 : UInt8) ∉ sub.name := by
      cases sub
      · decide
      · decide
      · decide
      · decide
    simp [hfixed, hsub, zero_notMem_appendArgs hnul]
  rw [hvalues, List.append_nil (List.map _ _)] at hline
  rw [Faithful, command_eq hhelp, Option.bind_some, reading_eq hzero, htext, hline]
  constructor
  · intro h p hp
    refine (faithful_lineArg_iff sub.asIs p).1 (h.1 _ ?_)
    exact List.mem_cons_of_mem _ (List.mem_cons_of_mem _ (List.mem_map_of_mem hp))
  · intro h
    refine ⟨?_, hgit.2⟩
    intro b hb
    rcases List.mem_cons.1 hb with rfl | hb
    · exact hgit.1
    rcases List.mem_cons.1 hb with rfl | hb
    · exact hname
    obtain ⟨p, hp, rfl⟩ := List.mem_map.1 hb
    exact (faithful_lineArg_iff sub.asIs p).2 (h p hp)

theorem Subcommand.faithful_iff_commit :
    Faithful .commit [bytes "-am", bytes "it's $HOME; done"] ↔
      ∀ p ∈ neighbours none [bytes "-am", bytes "it's $HOME; done"],
        commitAsIs p.1 p.2 = true → Plain p.2 :=
  faithful_iff (by decide) (by decide)

/-- A branch name with a semicolon runs a second command. -/
theorem push_not_faithful :
    (Subcommand.push.command true [bytes "origin", bytes "x;reboot"]).bind reading =
      some [.word (bytes "git"), .word (bytes "push"), .word (bytes "origin"), .word (bytes "x"),
        .op (bytes ";"), .word (bytes "reboot")] ∧
    ¬ Subcommand.push.Faithful [bytes "origin", bytes "x;reboot"] := by
  decide +kernel

end Nazg.Git
