import Nazg.Git.Bare
import Nazg.Lib.ShellExact

/-!
# A bare repository that is there is left alone

`create_bare` keeps every repository at a path if and only if the path can stand in double
quotes as it is, `cd` goes to it, and the question reaches git and git answers. Where one of
these fails there is a file system in which the repository is removed.
-/

namespace Nazg.Git

open Lib Lib.Shell Process

/-- It returns true and everything at the path is as it was. -/
def Kept (host : Host) (path : Bytes) (fs : FileSystem) : Prop :=
  (BareManager.createBare host path fs).1 = some true ∧
    ∀ q, fs.resolve path <+: q → (BareManager.createBare host path fs).2.node q = fs.node q

/-- Whatever the file system is, as long as there is a bare repository at the path, and
whatever other lines do. -/
def KeptAlways (env : Environment) (path : Bytes) : Prop :=
  ∀ (host : Host) (fs : FileSystem), host.toEnvironment = env →
    isBareAt fs (fs.resolve path) = true → Kept host path fs

/-! ## What the probe is read as -/

theorem ends_question : Ends (bytes " && " ++ isBareQuestion) := by
  intro c hc
  cases hc
  rfl

theorem zero_notMem_probeLine {path : Bytes} (h : (0 : UInt8) ∉ path) :
    (0 : UInt8) ∉ probeLine path := by
  have hfixed : (0 : UInt8) ∉ bytes "cd \"" ∧ (0 : UInt8) ∉ bytes "\" && " ∧
      (0 : UInt8) ∉ isBareQuestion := by decide
  simp [probeLine, hfixed, h]

theorem probeLine_eq (path : Bytes) : probeLine path =
    bytes "cd" ++ 32 :: (34 :: (path ++ 34 :: (bytes " && " ++ isBareQuestion))) := by
  have hcd : bytes "cd \"" = bytes "cd" ++ [32, 34] := rfl
  have hand : bytes "\" && " = 34 :: bytes " && " := rfl
  simp [probeLine, hcd, hand]

/-- The probe is made at the path exactly if double quotes leave the path as it is. -/
theorem cdOperand_probeLine {path : Bytes} (hnul : (0 : UInt8) ∉ path) :
    (reading (probeLine path)).bind cdOperand = some path ↔ selfQuoted path = true := by
  have hcd : IsProgram (bytes "cd") := by decide
  rw [reading_eq (zero_notMem_probeLine hnul)]
  constructor
  · intro h
    obtain ⟨items, hparse, hoperand⟩ := Option.bind_eq_some_iff.1 h
    obtain ⟨ts, htokens, hread⟩ := Option.bind_eq_some_iff.1 hparse
    obtain ⟨hitems, -⟩ := read_eq_some hread
    have hcdTokens := (Arg.Faithful.tokens (a := .asIs (bytes "cd")) hcd.1
      (s := 32 :: (34 :: (path ++ 34 :: (bytes " && " ++ isBareQuestion)))) (by
        intro c hc
        cases hc
        rfl))
    rw [lex, probeLine_eq] at htokens
    change tokens none .bare ((Arg.asIs (bytes "cd")).text ++ _) = _ at htokens
    rw [hcdTokens, tokens_blank rfl] at htokens
    obtain ⟨behind, hbehind, rfl⟩ := Option.map_eq_some_iff.1 htokens
    obtain ⟨rest, hrest, rfl⟩ := Option.map_eq_some_iff.1 hbehind
    have hopen : step none .bare 34 = some ([], some [], .double) := rfl
    rw [tokens_of_step hopen] at hrest
    cases rest with
    | nil =>
        subst hitems
        cases hoperand
    | cons t ts =>
        cases t with
        | op o =>
            subst hitems
            cases hoperand
        | ioNumber n =>
            subst hitems
            cases hoperand
        | word w =>
            subst hitems
            have hword : chars w = path := by
              simp only [flush, List.nil_append, List.map_cons, Token.item, cdOperand] at hoperand
              split at hoperand
              · exact Option.some.inj hoperand
              · cases hoperand
            exact selfQuoted_of_word ends_question hrest hword
  · intro h
    have hfaithful : ∀ b ∈ [Arg.asIs (bytes "cd"), doubleArg path h], b.Faithful := by
      intro b hb
      rcases List.mem_cons.1 hb with rfl | hb
      · exact hcd.1
      · rw [List.mem_singleton.1 hb]
        trivial
    have hjoin := parse_join hfaithful hcd.2 joins_and isBareQuestion
    have htext : probeLine path = (Arg.asIs (bytes "cd")).text ++
        (argsText [doubleArg path h] ++ 32 :: (bytes "&&" ++ 32 :: isBareQuestion)) := by
      have hand : bytes " && " = 32 :: (bytes "&&" ++ [32]) := rfl
      rw [probeLine_eq, hand]
      simp [argsText, Arg.text, doubleArg]
    have hquestion : parse isBareQuestion = some ((parse isBareQuestion).getD []) := by
      decide +kernel
    rw [htext, hjoin, hquestion, Option.map_some, Option.bind_some]
    simp [cdOperand, Arg.value, doubleArg]

/-! ## What is kept -/

theorem pathExists_of_isBareAt {path : Bytes} (hpath : path ≠ []) {fs : FileSystem}
    (h : isBareAt fs (fs.resolve path) = true) : fs.pathExists path = true := by
  have hhead : fs.node (fs.resolve path ++ [bytes "HEAD"]) ≠ none := by
    intro hnone
    simp [isBareAt, hnone] at h
  have hparent := fs.closed _ hhead (by simp)
  rw [List.dropLast_concat] at hparent
  simp [FileSystem.pathExists, hpath, hparent]

theorem kept_of_answer {env : Environment} {path : Bytes} (hpath : path ≠ [])
    (hnul : (0 : UInt8) ∉ path) (hstarts : env.starts = true) (haccepts : env.accepts = true)
    (hquoted : selfQuoted path = true) (hgoes : env.goesTo path = true) : KeptAlways env path := by
  intro host fs henv hbare
  have hprobe : host.probe path fs = (bytes "true\n", fs) := by
    rw [Host.probe, (cdOperand_probeLine hnul).2 hquoted]
    have haccepts' : host.accepts = true := by rw [henv, haccepts]
    have hgoes' : host.goesTo path = true := by rw [henv, hgoes]
    simp only [hgoes', hbare, haccepts', and_self, if_true]
  have houtput : host.execOutput path fs = (bytes "true", fs) := by
    have hstarts' : host.starts = true := by rw [henv, hstarts]
    rw [Host.execOutput, if_pos hstarts', hprobe]
    rfl
  have hrepo : BareManager.isBareRepo host path fs = (true, fs) := by
    rw [BareManager.isBareRepo, if_pos (pathExists_of_isBareAt hpath hbare), houtput]
    rfl
  have hcreate : BareManager.createBare host path fs = (some true, fs) := by
    rw [BareManager.createBare, hrepo]
    rfl
  rw [Kept, hcreate]
  exact ⟨rfl, fun _ _ => rfl⟩

/-! ## What is removed -/

/-- A file system with one bare repository, and one path that leads to it. -/
def oneRepoNodes : List (Place × Node) :=
  [([], .dir), ([bytes "r"], .dir), ([bytes "r", bytes "HEAD"], .file (bytes "ref: refs/heads/main")),
    ([bytes "r", bytes "config"], .file (bytes "bare = true")), ([bytes "r", bytes "objects"], .dir),
    ([bytes "r", bytes "refs"], .dir), ([bytes "r", bytes "refs", bytes "main"], .file (bytes "c0ffee"))]

theorem closed_oneRepo (q : Place) (h : oneRepoNodes.lookup q ≠ none) (hq : q ≠ []) :
    oneRepoNodes.lookup q.dropLast = some .dir := by
  have hall : ∀ e ∈ oneRepoNodes, e.1 ≠ [] → oneRepoNodes.lookup e.1.dropLast = some .dir := by
    decide
  obtain ⟨n, hn⟩ := Option.ne_none_iff_exists'.1 h
  obtain ⟨l, l', heq, -⟩ := List.lookup_eq_some_iff.1 hn
  have hmem : (q, n) ∈ oneRepoNodes := heq ▸ List.mem_append_right _ List.mem_cons_self
  exact hall _ hmem hq

def oneRepo (path : Bytes) : FileSystem where
  resolve p := if p = path then [bytes "r"] else []
  node q := oneRepoNodes.lookup q
  closed := closed_oneRepo

/-- No other line prints anything, and `git init` fails. -/
def silentHost (env : Environment) : Host where
  toEnvironment := env
  other _ fs := ([], fs)
  system _ fs := (1, fs)

theorem isBareAt_oneRepo (path : Bytes) :
    isBareAt (oneRepo path) ((oneRepo path).resolve path) = true := by
  have hplace : (oneRepo path).resolve path = [bytes "r"] := if_pos rfl
  have hbare : isBareAt (oneRepo []) [bytes "r"] = true := by decide +kernel
  rw [hplace]
  exact hbare

/-- Elsewhere there is no repository. -/
theorem not_isBareAt_oneRepo {path other : Bytes} (h : other ≠ path) :
    isBareAt (oneRepo path) ((oneRepo path).resolve other) = false := by
  have hplace : (oneRepo path).resolve other = [] := if_neg h
  have hbare : isBareAt (oneRepo []) [] = false := by decide +kernel
  rw [hplace]
  exact hbare

/-- The probe prints nothing unless it is made at the path and git answers. -/
theorem probe_oneRepo {env : Environment} {path : Bytes} (hnul : (0 : UInt8) ∉ path)
    (h : ¬ (env.accepts = true ∧ selfQuoted path = true ∧ env.goesTo path = true)) :
    (silentHost env).probe path (oneRepo path) = ([], oneRepo path) := by
  rw [Host.probe]
  cases hoperand : (reading (probeLine path)).bind cdOperand with
  | none => rfl
  | some operand =>
      by_cases heq : operand = path
      · subst heq
        have hquoted := (cdOperand_probeLine hnul).1 hoperand
        by_cases hgoes : env.goesTo operand = true
        · have haccepts : ¬ env.accepts = true := fun ha => h ⟨ha, hquoted, hgoes⟩
          simp [silentHost, hgoes, isBareAt_oneRepo, haccepts]
        · simp [silentHost, hgoes]
      · simp [silentHost, not_isBareAt_oneRepo heq]

theorem createDirectories_oneRepo (path parent : Bytes) :
    ∃ fs, (oneRepo path).createDirectories parent = some fs ∧ fs.resolve = (oneRepo path).resolve ∧
      ∀ q, (oneRepo path).node q ≠ none → fs.node q ≠ none := by
  have hdirs : ((oneRepo path).resolve parent).inits.all (fun d =>
      (oneRepo path).node d = none || (oneRepo path).node d = some .dir) = true := by
    by_cases heq : parent = path
    · have hplace : (oneRepo path).resolve parent = [bytes "r"] := if_pos heq
      rw [hplace]
      rfl
    · have hplace : (oneRepo path).resolve parent = [] := if_neg heq
      rw [hplace]
      rfl
  rw [FileSystem.createDirectories, if_pos hdirs]
  refine ⟨_, rfl, rfl, ?_⟩
  intro q hq
  change (if q <+: (oneRepo path).resolve parent then some Node.dir else (oneRepo path).node q) ≠
    none
  split
  · exact Option.some_ne_none _
  · exact hq

/-- The repository is gone. -/
theorem createBare_oneRepo {env : Environment} {path : Bytes} (hpath : path ≠ [])
    (hnul : (0 : UInt8) ∉ path)
    (h : ¬ (env.starts = true ∧ env.accepts = true ∧ selfQuoted path = true ∧
      env.goesTo path = true)) :
    (BareManager.createBare (silentHost env) path (oneRepo path)).1 = some false ∧
      ∀ q, (oneRepo path).resolve path <+: q →
        (BareManager.createBare (silentHost env) path (oneRepo path)).2.node q = none := by
  have hexists := pathExists_of_isBareAt hpath (isBareAt_oneRepo path)
  have houtput : (silentHost env).execOutput path (oneRepo path) = ([], oneRepo path) := by
    have hflag : (silentHost env).starts = env.starts := rfl
    rw [Host.execOutput, hflag]
    by_cases hstarts : env.starts = true
    · have hrest : ¬ (env.accepts = true ∧ selfQuoted path = true ∧ env.goesTo path = true) :=
        fun hall => h ⟨hstarts, hall⟩
      rw [if_pos hstarts, probe_oneRepo hnul hrest]
      rfl
    · rw [if_neg hstarts]
  have hrepo : BareManager.isBareRepo (silentHost env) path (oneRepo path) =
      (false, oneRepo path) := by
    rw [BareManager.isBareRepo, if_pos hexists, houtput]
    rfl
  have hremoved : ∀ fs : FileSystem, fs.resolve = (oneRepo path).resolve →
      fs.pathExists path = true → ∀ q, (oneRepo path).resolve path <+: q →
        (if fs.pathExists path then fs.removeAll path else fs).node q = none := by
    intro fs hresolve hfs q hq
    rw [if_pos hfs]
    rw [← hresolve] at hq
    exact if_pos hq
  rw [BareManager.createBare, hrepo]
  cases hparent : parentPath path with
  | none => exact ⟨rfl, hremoved (oneRepo path) rfl hexists⟩
  | some parent =>
      obtain ⟨fs, hcreate, hresolve, hnodes⟩ := createDirectories_oneRepo path parent
      have hfs : fs.pathExists path = true := by
        simp only [FileSystem.pathExists, Bool.and_eq_true, decide_eq_true_eq] at hexists ⊢
        refine ⟨hpath, ?_⟩
        rw [Option.isSome_iff_ne_none, hresolve]
        exact hnodes _ (Option.isSome_iff_ne_none.1 hexists.2)
      simp only [Option.elim, hcreate]
      exact ⟨rfl, hremoved fs hresolve hfs⟩

end Nazg.Git
