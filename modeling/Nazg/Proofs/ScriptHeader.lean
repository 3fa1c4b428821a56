import Nazg.Bot.GitDoctor

/-!
# The values in front of the git doctor's script

A value from the database stands between double quotes as it is. The line is the assignment of that
value, and nothing of it is run, exactly if double quotes keep it.
-/

namespace Nazg.Bot

open Lib
open Lib.Bash (kept readWord readAssignment readAssignments skipComment)

namespace GitDoctorBot

/-- The values as they are configured, in the order of the variables. -/
def configured (bot : GitDoctorBot) : List Bytes :=
  [bot.gitServerType, bot.repoBasePath, bot.configPath]

/-- Running the script sets each variable to its value, unless this is empty, and goes on with
the script itself. -/
def SetsConfigured (bot : GitDoctorBot) (rest : Bytes) : Prop :=
  ∃ values, runHeader (bot.getScriptContent (gitDoctorScript rest)) =
      some (values, 10 :: scriptBody rest) ∧
    List.Forall₂ (fun value set => value ≠ [] → set = value) bot.configured values

/-! ## One line -/

/-- The line of a value, and what follows it. -/
def assignmentLine (name value rest : Bytes) : Bytes :=
  name ++ 61 :: 34 :: (value ++ 34 :: 10 :: rest)

theorem readAssignment_line (name value rest : Bytes) :
    readAssignment name (assignmentLine name value rest) =
      (readWord .double (value ++ 34 :: 10 :: rest)).bind Bash.endOfLine := by
  have hname : name ++ [61] <+: assignmentLine name value rest :=
    ⟨34 :: (value ++ 34 :: 10 :: rest), by simp [assignmentLine]⟩
  have hdrop : (assignmentLine name value rest).drop (name.length + 1) =
      34 :: (value ++ 34 :: 10 :: rest) := by
    rw [assignmentLine, List.append_cons]
    exact List.drop_left' (by simp)
  have hquote : readWord .bare (34 :: (value ++ 34 :: 10 :: rest)) =
      readWord .double (value ++ 34 :: 10 :: rest) := by
    rw [Bash.readWord_cons (m := .bare) (by decide) rfl]
    simp
  rw [readAssignment, if_pos hname, hdrop, hquote]

theorem readAssignment_kept {value : Bytes} (h : kept value = true) (name rest : Bytes) :
    readAssignment name (assignmentLine name value rest) = some (value, rest) := by
  have hend : readWord .bare (10 :: rest) = some ([], 10 :: rest) := rfl
  rw [readAssignment_line, Bash.readWord_kept h, hend]
  simp [Bash.endOfLine]

/-- A text in which no quotes that were left open make up for what the shell took away: its first
character after the empty lines is one that is always kept. -/
def Continues (s : Bytes) : Prop :=
  ∃ blank d rest, (∀ c ∈ blank, c = 10) ∧ Bash.isDroppable d = false ∧ d ≠ 96 ∧
    s = blank ++ d :: rest

/-- A value that its line sets is kept by the quotes. -/
theorem kept_of_readAssignment {name value default word after rest : Bytes}
    (hrest : Continues rest) (hdefault : kept default = true)
    (h : readAssignment name (assignmentLine name value rest) = some (word, after))
    (hset : value ≠ [] → Git.orElse word default = value) : kept value = true := by
  by_cases hempty : value = []
  · rw [hempty]
    rfl
  have hvalue := hset hempty
  rw [Git.orElse] at hvalue
  by_cases hword : word = []
  · rw [if_pos hword] at hvalue
    rwa [← hvalue]
  rw [if_neg hword] at hvalue
  subst hvalue
  rw [readAssignment_line] at h
  obtain ⟨⟨word', after'⟩, hread, hend⟩ := Option.bind_eq_some_iff.1 h
  rw [Bash.endOfLine.eq_def] at hend
  split at hend
  · next heq =>
      cases heq
      cases hend
      obtain ⟨blank, d, rest, hblank, hd, hback, rfl⟩ := hrest
      exact Bash.kept_of_readWord hd (Bash.closes_line hd hback hblank rest) hread
  · cases hend

/-! ## All lines -/

/-- A variable with its value and its default. -/
structure Variable where
  name : Bytes
  value : Bytes
  default : Bytes

def headerText : List Variable → Bytes → Bytes
  | [], rest => rest
  | v :: vars, rest => assignmentLine v.name v.value (headerText vars rest)

theorem continues_headerText {vars : List Variable} {rest : Bytes} (hrest : Continues rest)
    (hnames : ∀ v ∈ vars, Continues v.name) : Continues (headerText vars rest) := by
  cases vars with
  | nil => exact hrest
  | cons v vars =>
      obtain ⟨blank, d, name, hblank, hd, hback, hname⟩ := hnames v List.mem_cons_self
      refine ⟨blank, d, name ++ 61 :: 34 :: (v.value ++ 34 :: 10 :: headerText vars rest),
        hblank, hd, hback, ?_⟩
      rw [headerText, assignmentLine, hname]
      simp

theorem readAssignments_iff {vars : List Variable} {rest : Bytes} (hrest : Continues rest)
    (hnames : ∀ v ∈ vars, Continues v.name) (hdefaults : ∀ v ∈ vars, kept v.default = true) :
    (∃ words, readAssignments (vars.map Variable.name) (headerText vars rest) =
        some (words, rest) ∧
      List.Forall₂ (fun value set => value ≠ [] → set = value) (vars.map Variable.value)
        (List.zipWith Git.orElse words (vars.map Variable.default))) ↔
      ∀ v ∈ vars, kept v.value = true := by
  induction vars with
  | nil => simp [readAssignments, headerText]
  | cons v vars ih =>
      obtain ⟨-, hnames⟩ := List.forall_mem_cons.1 hnames
      obtain ⟨hdefault, hdefaults⟩ := List.forall_mem_cons.1 hdefaults
      have hnext := continues_headerText hrest hnames
      rw [List.forall_mem_cons, ← ih hnames hdefaults]
      constructor
      · rintro ⟨words, hread, hset⟩
        obtain ⟨⟨word, after⟩, hword, hread⟩ := Option.bind_eq_some_iff.1 hread
        obtain ⟨⟨words', rest'⟩, hwords, hr⟩ := Option.map_eq_some_iff.1 hread
        cases hr
        obtain ⟨hfirst, hothers⟩ := List.forall₂_cons.1 hset
        have hkept := kept_of_readAssignment hnext hdefault hword hfirst
        rw [headerText, readAssignment_kept hkept] at hword
        cases hword
        exact ⟨hkept, words', hwords, hothers⟩
      · rintro ⟨hkept, words, hread, hset⟩
        refine ⟨v.value :: words, ?_, List.Forall₂.cons ?_ hset⟩
        · rw [List.map_cons, readAssignments, headerText, readAssignment_kept hkept,
            Option.bind_some, hread]
          rfl
        · intro hempty
          exact if_neg hempty

/-! ## The script -/

def headerVars (bot : GitDoctorBot) : List Variable :=
  [⟨bytes "GIT_TYPE", bot.gitServerType, bytes "cgit"⟩,
    ⟨bytes "REPO_PATH", bot.repoBasePath, bytes "/srv/git"⟩,
    ⟨bytes "CONFIG_PATH", bot.configPath, bytes "/etc/cgitrc"⟩]

theorem skipComment_getScriptContent (bot : GitDoctorBot) (rest : Bytes) :
    skipComment (bot.getScriptContent (gitDoctorScript rest)) =
      headerText bot.headerVars (10 :: scriptBody rest) := by
  have hbody : (gitDoctorScript rest).dropWhile (· ≠ 10) = 10 :: scriptBody rest := rfl
  have hfirst : ∀ s, skipComment (bytes "#!/usr/bin/env bash\n" ++ s) = s := fun _ => rfl
  rw [getScriptContent, hbody]
  simp only [List.append_assoc]
  rw [hfirst]
  rfl

theorem continues_body (rest : Bytes) : Continues (10 :: scriptBody rest) :=
  ⟨[10], 35, _, by simp, rfl, by decide, rfl⟩

/-- The script sets the variables to what is configured, and runs nothing of it, exactly if double
quotes keep each of the three values. -/
theorem setsConfigured_iff (gitServerType repoBasePath configPath : Text) (rest : Bytes) :
    SetsConfigured ⟨gitServerType.bytes, repoBasePath.bytes, configPath.bytes⟩ rest ↔
      kept gitServerType.bytes = true ∧ kept repoBasePath.bytes = true ∧
        kept configPath.bytes = true := by
  have hnames : ∀ v ∈ headerVars ⟨gitServerType.bytes, repoBasePath.bytes, configPath.bytes⟩,
      Continues v.name := by
    have hname : ∀ c s, Bash.isDroppable c = false → c ≠ 96 → Continues (c :: s) :=
      fun c s hc hback => ⟨[], c, s, by simp, hc, hback, rfl⟩
    simp only [headerVars, List.forall_mem_cons]
    exact ⟨hname _ _ rfl (by decide), hname _ _ rfl (by decide), hname _ _ rfl (by decide),
      by simp⟩
  have hall := readAssignments_iff (continues_body rest) hnames (by
    simp only [headerVars, List.forall_mem_cons]
    exact ⟨by decide, by decide, by decide, by simp⟩)
  simp only [headerVars, List.forall_mem_cons, List.not_mem_nil, false_implies, implies_true,
    and_true] at hall
  rw [← hall, SetsConfigured, runHeader, skipComment_getScriptContent]
  constructor
  · rintro ⟨values, hrun, hset⟩
    obtain ⟨⟨words, left⟩, hread, hr⟩ := Option.map_eq_some_iff.1 hrun
    cases hr
    exact ⟨words, hread, hset⟩
  · rintro ⟨words, hread, hset⟩
    exact ⟨withDefaults words, Option.map_eq_some_iff.2 ⟨_, hread, rfl⟩, hset⟩

/-- Quotes in a path are taken away, and what stands in it as a command is one. -/
theorem quoted_not_set :
    runHeader (getScriptContent ⟨bytes "cgit", bytes "/srv/\"main\"", bytes "/etc/cgitrc"⟩
        (gitDoctorScript [])) =
      some ([bytes "cgit", bytes "/srv/main", bytes "/etc/cgitrc"], 10 :: scriptBody []) ∧
    ¬ SetsConfigured ⟨bytes "cgit", bytes "/srv/\"main\"", bytes "/etc/cgitrc"⟩ [] ∧
    ¬ SetsConfigured ⟨bytes "cgit", bytes "$(reboot)", bytes "/etc/cgitrc"⟩ [] := by
  have hquoted : runHeader (getScriptContent
      ⟨bytes "cgit", bytes "/srv/\"main\"", bytes "/etc/cgitrc"⟩ (gitDoctorScript [])) =
      some ([bytes "cgit", bytes "/srv/main", bytes "/etc/cgitrc"], 10 :: scriptBody []) := rfl
  have hcommand : runHeader (getScriptContent
      ⟨bytes "cgit", bytes "$(reboot)", bytes "/etc/cgitrc"⟩ (gitDoctorScript [])) = none := rfl
  refine ⟨hquoted, ?_, ?_⟩
  · rintro ⟨values, hrun, hset⟩
    rw [hquoted] at hrun
    cases hrun
    obtain ⟨-, hset⟩ := List.forall₂_cons.1 hset
    exact absurd ((List.forall₂_cons.1 hset).1 (by decide)) (by decide)
  · rintro ⟨values, hrun, -⟩
    rw [hcommand] at hrun
    cases hrun

end GitDoctorBot

end Nazg.Bot
