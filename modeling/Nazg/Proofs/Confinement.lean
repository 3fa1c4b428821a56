import Nazg.Brain.AutoRecover
import Nazg.Proofs.RecoveryRestore

/-!
# Where a recovery without being asked works

Whatever is suggested, only eligible suggestions are executed, from the most confident one
to the first that succeeds. A restore goes to recorded paths, and these lead nowhere but
below the root of the project. A command line is another matter: the shell is started in
the directory of the process, which need not be below the root.
-/

namespace Nazg.Workspace.Project

open Lib

/-! ## A restore away from its paths -/

theorem get_restoreFiles_of_notMem {disk : FileTree.Disk} {root : Bytes} {id : Int}
    {dryRun : Bool} {ps : List Bytes} {q : Bytes} (h : ∀ p ∈ ps, q ∉ p :: ancestors p)
    (t : FileTree) : (restoreFiles disk root id dryRun ps t).2.get q = t.get q := by
  induction ps generalizing t with
  | nil => rfl
  | cons p ps ih =>
      have hp := h p List.mem_cons_self
      rw [List.mem_cons, not_or] at hp
      have hrest := fun p' (hp' : p' ∈ ps) => h p' (List.mem_cons_of_mem p hp')
      show (restoreFiles disk root id dryRun ps _).2.get q = t.get q
      rw [ih hrest]
      rcases get_restoreFile_cases disk root id dryRun t hp.1 with heq | ⟨hmem, -⟩
      · exact heq
      · exact absurd hmem hp.2

/-- A full restore changes the paths of its snapshot, and makes the directories on the way. -/
theorem get_restore_of_notMem {w : Project} {id : Int} {restoreType q : Bytes}
    {host : RestoreHost}
    (hmode : RestoreOptions.mode { restoreType := restoreType } = .ok (bytes "full"))
    (h : ∀ snapshot, w.getSnapshot host.filesRead id = some snapshot →
      ∀ p ∈ snapshot.files.map WorkspaceFile.path, q ∉ p :: ancestors p) (projectId : Int64) :
    (w.restore projectId id { restoreType := restoreType } host).2.tree.get q = w.tree.get q := by
  rw [restore]
  split
  · rfl
  · split
    · rfl
    · next snapshot hsnapshot =>
        split
        · rfl
        · split
          · rfl
          · rw [hmode]
            refine get_restoreFiles_of_notMem (fun p hp => ?_) w.tree
            have hcandidate : p ∈ snapshot.files.map WorkspaceFile.path := by
              rw [restorePaths, (List.mergeSort_perm _ _).mem_iff, List.mem_dedup] at hp
              exact List.mem_of_mem_filter hp
            exact h snapshot hsnapshot p hcandidate

/-- A partial restore without paths does nothing. -/
theorem restore_partial_eq {w : Project} {projectId : Int64} {id : Int} {host : RestoreHost} :
    (w.restore projectId id { restoreType := bytes "partial" } host).2 = w := by
  have hmode : RestoreOptions.mode { restoreType := bytes "partial" } =
      .error (bytes "Partial restore requires at least one --include/--only path") := rfl
  rw [restore, hmode]
  split
  · rfl
  · split
    · rfl
    · split
      · rfl
      · split
        · rfl
        · rfl

end Nazg.Workspace.Project

namespace Nazg.Brain

open Lib Lib.Sqlite Nexus Workspace

/-! ## Restores stay -/

theorem dotless_of_skips {path : Bytes} (h : skips {} path = false) :
    Location.Dotless path := by
  refine ⟨Project.head?_of_skips h, fun hinfix => ?_⟩
  have hfind : (find (bytes "/.") path).isSome = true := isSome_find.2 hinfix
  rw [skips, hfind] at h
  exact Bool.noConfusion h

/-- What holds of a path in this way holds of the directories on it. -/
theorem dotless_ancestor {path p : Bytes} (h : Location.Dotless path)
    (hrelative : path.head? ≠ some slash) (hp : p ∈ path :: ancestors path) :
    Location.Dotless p ∧ p.head? ≠ some slash := by
  rcases List.mem_cons.1 hp with rfl | hp
  · exact ⟨h, hrelative⟩
  · obtain ⟨rest, rfl⟩ := mem_ancestors.1 hp
    have hhead : ∀ c, p.head? = some c → (p ++ [slash] ++ rest).head? = some c := by
      intro c hc
      obtain ⟨tail, rfl⟩ := List.head?_eq_some_iff.1 hc
      rfl
    refine ⟨⟨fun hdot => h.head (hhead _ hdot), fun hinfix => h.later ?_⟩,
      fun hslash => hrelative (hhead _ hslash)⟩
    rw [List.append_assoc]
    exact hinfix.trans (List.prefix_append p _).isInfix

section

variable {Score Outside : Type} {m : AutoHost Outside} {s : Machine Outside}
  {a : RecoveryAction Score}

/-- A restore goes to recorded paths. -/
theorem recorded_of_mem_restored {w : Project} {path : Bytes} (h : path ∈ m.restored a w) :
    ∃ r ∈ w.files.data, r.file.path = path := by
  rw [AutoHost.restored] at h
  split at h
  · next manager id _ _ =>
      cases hsnapshot : w.getSnapshot manager.filesRead id with
      | none =>
          rw [hsnapshot] at h
          exact absurd h List.not_mem_nil
      | some snapshot =>
          rw [hsnapshot] at h
          obtain ⟨projectId, -, rfl⟩ := Option.map_eq_some_iff.1 hsnapshot
          obtain ⟨f, hf, rfl⟩ := List.mem_map.1 h
          dsimp only at hf
          split at hf
          · rw [getWorkspaceFiles, (List.mergeSort_perm _ _).mem_iff] at hf
            obtain ⟨r, hr, rfl⟩ := List.mem_map.1 hf
            exact ⟨r, List.mem_of_mem_filter hr, rfl⟩
          · exact absurd hf List.not_mem_nil
  · exact absurd h List.not_mem_nil

/-- Everything that a restore writes is below the root, from wherever it is run. -/
theorem prefix_of_restored {path p : Bytes} (h : path ∈ m.restored a s.project)
    (hp : p ∈ path :: ancestors path) :
    m.cwd.resolve s.project.root <+: m.cwd.resolve (Location.join s.project.root p) := by
  obtain ⟨r, hr, rfl⟩ := recorded_of_mem_restored h
  have hdotless := dotless_of_skips (s.project.recorded r hr).1
  obtain ⟨hdotless, hrelative⟩ := dotless_ancestor hdotless (s.relative r hr) hp
  exact Location.prefix_resolve_join hdotless hrelative _ _

theorem run_eq_some {run : ShellRun Outside} (h : m.run a s = some run) :
    ∃ shell command, m.shell = some shell ∧ a.command = some command ∧
      run = shell m.cwd (Builder.withWorkdir (command ++ bytes " 2>&1") []) s.project.tree
        s.outside := by
  obtain ⟨shell, hshell, hrun⟩ := Option.bind_eq_some_iff.1 h
  obtain ⟨command, hcommand, heq⟩ := Option.map_eq_some_iff.1 hrun
  exact ⟨shell, command, hshell, hcommand, heq.symm⟩

theorem touched_of_command (hfiles : a.type ≠ .restoreFiles)
    (hsnapshot : a.type ≠ .restoreSnapshot) :
    m.touched a s = ((m.run a s).map ShellRun.touched).getD [] := by
  rw [AutoHost.touched]
  split
  · next htype => exact absurd htype hfiles
  · next htype => exact absurd htype hsnapshot
  · rfl

/-- An execution stays below the root if its command line does. -/
theorem touched_iff :
    (∀ p ∈ m.touched a s, m.cwd.resolve s.project.root <+: p) ↔
      ∀ run, m.run a s = some run → ∀ p ∈ run.touched, m.cwd.resolve s.project.root <+: p := by
  by_cases hrestore : a.type = .restoreFiles ∨ a.type = .restoreSnapshot
  · have hnone : m.run a s = none := by
      have hcommand : a.command = none := by
        rcases hrestore with htype | htype <;> rw [RecoveryAction.command, htype]
      rw [AutoHost.run, hcommand]
      cases m.shell <;> rfl
    refine ⟨fun _ run hrun => ?_, fun _ p hp => ?_⟩
    · rw [hnone] at hrun
      cases hrun
    · have hmem : p ∈ (m.restored a s.project).flatMap fun path =>
          (path :: ancestors path).map fun p => m.cwd.resolve (Location.join s.project.root p) := by
        rcases hrestore with htype | htype <;> rwa [AutoHost.touched, htype] at hp
      obtain ⟨path, hpath, hin⟩ := List.mem_flatMap.1 hmem
      obtain ⟨q, hq, rfl⟩ := List.mem_map.1 hin
      exact prefix_of_restored hpath hq
  · rw [not_or] at hrestore
    rw [touched_of_command hrestore.1 hrestore.2]
    cases m.run a s with
    | none => simp
    | some run => simp

/-! ## One execution -/

theorem execute_eq_some {r : RecoveryResult} {s' : Machine Outside}
    (h : m.execute a s = some (r, s')) :
    executeRecovery (m.executeHost s.outside) s.project.projectId a false s.project =
      some (r, s'.project) := by
  rw [AutoHost.execute] at h
  split at h
  · cases h
  · next hexecute =>
      cases h
      exact hexecute

/-- What the shell changes of the project, it says it touched. -/
def Tells (m : AutoHost Outside) (a : RecoveryAction Score) (s : Machine Outside) : Prop :=
  ∀ run, m.run a s = some run → ∀ q, run.tree.get q ≠ s.project.tree.get q →
    m.cwd.resolve (Location.join s.project.root q) ∈ run.touched

theorem tree_executeRestore {restoreType : Bytes}
    {report : Int → Project.RestoreResult → List Bytes × Bytes} {host : ExecuteHost}
    {projectId : Int64} {w w' : Project} {r : RecoveryResult}
    (h : executeRestore host projectId restoreType report a w = some (r, w')) :
    w' = w ∨ ∃ manager id, host.manager = some manager ∧
      (a.params.find? (bytes "snapshot_id")).bind stoll = some id ∧
      w' = (w.restore projectId id { restoreType := restoreType } manager).2 := by
  rw [executeRestore] at h
  split at h
  · cases h
    exact .inl rfl
  · next manager hmanager =>
      split at h
      · cases h
        exact .inl rfl
      · next value hvalue =>
          obtain ⟨id, hid, heq⟩ := Option.map_eq_some_iff.1 h
          cases heq
          refine .inr ⟨manager, id, hmanager, ?_, rfl⟩
          rw [hvalue, Option.bind_some, hid]

theorem get_executeRestore {restoreType q : Bytes}
    {report : Int → Project.RestoreResult → List Bytes × Bytes} {outside : Outside}
    {projectId : Int64} {w w' : Project} {r : RecoveryResult}
    (hmode : restoreType = bytes "full" ∨ restoreType = bytes "partial")
    (h : executeRestore (m.executeHost outside) projectId restoreType report a w = some (r, w'))
    (hq : ∀ path ∈ m.restored a w, q ∉ path :: ancestors path) :
    w'.tree.get q = w.tree.get q := by
  rcases tree_executeRestore h with rfl | ⟨manager, id, hmanager, hid, rfl⟩
  · rfl
  · rcases hmode with rfl | rfl
    · refine Project.get_restore_of_notMem rfl (fun snapshot hsnapshot path hpath => ?_) projectId
      refine hq path ?_
      have hmanager' : m.manager = some manager := hmanager
      simp only [AutoHost.restored, hmanager', hid, hsnapshot]
      exact hpath
    · rw [Project.restore_partial_eq]

/-- An action that is no restore leaves the tree to the shell. -/
theorem tree_execute_of_command {r : RecoveryResult} {u : Machine Outside}
    (h : m.execute a s = some (r, u)) (hfiles : a.type ≠ .restoreFiles)
    (hsnapshot : a.type ≠ .restoreSnapshot) :
    u.project.tree = ((m.run a s).map ShellRun.tree).getD s.project.tree := by
  have hexecute := execute_eq_some h
  rw [executeRecovery, if_neg Bool.false_ne_true] at hexecute
  split at hexecute
  · next htype => exact absurd htype hfiles
  · next htype => exact absurd htype hsnapshot
  · next htype =>
      have hafter : _ = u.project := congrArg Prod.snd (Option.some.inj hexecute)
      rw [← hafter, AutoHost.run, RecoveryAction.command, htype, executeCleanBuild,
        AutoHost.executeHost]
      cases m.shell with
      | none => rfl
      | some shell => rfl
  · next htype =>
      have hafter : _ = u.project := congrArg Prod.snd (Option.some.inj hexecute)
      rw [← hafter, AutoHost.run, RecoveryAction.command, htype, executeCustomCommand,
        AutoHost.executeHost]
      cases m.shell with
      | none => rfl
      | some shell =>
          cases a.params.find? (bytes "command") with
          | none => rfl
          | some command =>
              cases command with
              | nil => rfl
              | cons c command => rfl
  · next hclean hcustom =>
      have hafter : _ = u.project := congrArg Prod.snd (Option.some.inj hexecute)
      have hcommand : a.command = none := by
        rw [RecoveryAction.command]
        split
        · next htype => exact absurd htype hclean
        · next htype => exact absurd htype hcustom
        · rfl
      rw [← hafter, AutoHost.run, hcommand]
      cases m.shell with
      | none => rfl
      | some shell => rfl

/-- What an execution does not touch stays as it is. -/
theorem get_execute {r : RecoveryResult} {u : Machine Outside} (h : m.execute a s = some (r, u))
    (htells : Tells m a s) {q : Bytes}
    (hq : m.cwd.resolve (Location.join s.project.root q) ∉ m.touched a s) :
    u.project.tree.get q = s.project.tree.get q := by
  have hrestored (hmem : m.touched a s = (m.restored a s.project).flatMap fun path =>
      (path :: ancestors path).map fun p => m.cwd.resolve (Location.join s.project.root p)) :
      ∀ path ∈ m.restored a s.project, q ∉ path :: ancestors path := by
    intro path hpath hin
    rw [hmem] at hq
    exact hq (List.mem_flatMap.2 ⟨path, hpath, List.mem_map.2 ⟨q, hin, rfl⟩⟩)
  have hexecute := execute_eq_some h
  rw [executeRecovery, if_neg Bool.false_ne_true] at hexecute
  rw [AutoHost.touched] at hrestored
  by_cases hfiles : a.type = .restoreFiles
  · rw [hfiles] at hexecute hrestored
    exact get_executeRestore (.inr rfl) hexecute (hrestored rfl)
  · by_cases hsnapshot : a.type = .restoreSnapshot
    · rw [hsnapshot] at hexecute hrestored
      exact get_executeRestore (.inl rfl) hexecute (hrestored rfl)
    · rw [tree_execute_of_command h hfiles hsnapshot]
      rw [touched_of_command hfiles hsnapshot] at hq
      cases hrun : m.run a s with
      | none => rfl
      | some run =>
          rw [hrun] at hq
          by_contra hchanged
          exact hq (htells run hrun q hchanged)

theorem sameRecords_execute {r : RecoveryResult} {s' : Machine Outside}
    (h : m.execute a s = some (r, s')) : SameRecords s.project s'.project :=
  sameRecords_executeRecovery (execute_eq_some h)

end

section

variable {d : Scores} {Outside : Type} {m : AutoHost Outside} {threshold : d.Score}

/-- The loop comes to an action: it is eligible, and what is eligible before it failed. -/
inductive Reaches (m : AutoHost Outside) (threshold : d.Score) :
    List (RecoveryAction d.Score) → Machine Outside → RecoveryAction d.Score →
      Machine Outside → Prop
  | here {a rest s} (h : Eligible threshold a) : Reaches m threshold (a :: rest) s a s
  | passed {b rest s a t} (h : ¬ Eligible threshold b) (hrest : Reaches m threshold rest s a t) :
      Reaches m threshold (b :: rest) s a t
  | failed {b rest s r u a t} (h : Eligible threshold b) (hrun : m.execute b s = some (r, u))
      (hfailed : r.success = false) (hrest : Reaches m threshold rest u a t) :
      Reaches m threshold (b :: rest) s a t

theorem Reaches.eligible {as : List (RecoveryAction d.Score)} {s t : Machine Outside}
    {a : RecoveryAction d.Score} (h : Reaches m threshold as s a t) : Eligible threshold a := by
  induction h with
  | here h => exact h
  | passed _ _ ih => exact ih
  | failed _ _ _ _ ih => exact ih

theorem Reaches.mem {as : List (RecoveryAction d.Score)} {s t : Machine Outside}
    {a : RecoveryAction d.Score} (h : Reaches m threshold as s a t) : a ∈ as := by
  induction h with
  | here _ => exact List.mem_cons_self
  | passed _ _ ih => exact List.mem_cons_of_mem _ ih
  | failed _ _ _ _ ih => exact List.mem_cons_of_mem _ ih

theorem Reaches.root {as : List (RecoveryAction d.Score)} {s t : Machine Outside}
    {a : RecoveryAction d.Score} (h : Reaches m threshold as s a t) :
    t.project.root = s.project.root := by
  induction h with
  | here _ => rfl
  | passed _ _ ih => exact ih
  | failed _ hrun _ _ ih => exact ih.trans (sameRecords_execute hrun).root

variable {as : List (RecoveryAction d.Score)} {s : Machine Outside}

/-! A turn of the loop goes past an action, or executes it and goes on, or ends with it. -/

theorem recoverWith_passed {b : RecoveryAction d.Score} (h : ¬ Eligible threshold b) :
    recoverWith m threshold (b :: as) s = recoverWith m threshold as s := by
  rw [recoverWith, if_neg h]

theorem recoverWith_failed {b : RecoveryAction d.Score} {r : RecoveryResult}
    {u : Machine Outside} (h : Eligible threshold b) (hrun : m.execute b s = some (r, u))
    (hfailed : r.success = false) :
    recoverWith m threshold (b :: as) s =
      ⟨b, s, m.execute b s⟩ :: recoverWith m threshold as u := by
  simp only [recoverWith, if_pos h, hrun, hfailed, Bool.false_eq_true, if_false]

theorem recoverWith_last {b : RecoveryAction d.Score} (h : Eligible threshold b)
    (hlast : ∀ r u, m.execute b s = some (r, u) → r.success = true) :
    recoverWith m threshold (b :: as) s = [⟨b, s, m.execute b s⟩] := by
  cases hrun : m.execute b s with
  | none => simp only [recoverWith, if_pos h, hrun]
  | some out =>
      have hsuccess := hlast out.1 out.2 hrun
      simp only [recoverWith, if_pos h, hrun, hsuccess, if_true]

/-- Whether the loop goes on after an action. -/
theorem failed_or_last (m : AutoHost Outside) (b : RecoveryAction d.Score) (s : Machine Outside) :
    (∃ r u, m.execute b s = some (r, u) ∧ r.success = false) ∨
      ∀ r u, m.execute b s = some (r, u) → r.success = true := by
  rw [or_iff_not_imp_left]
  intro h r u hrun
  cases hsuccess : r.success with
  | true => rfl
  | false => exact absurd ⟨r, u, hrun, hsuccess⟩ h

theorem mem_recoverWith {e : Execution d.Score Outside} :
    e ∈ recoverWith m threshold as s ↔
      Reaches m threshold as s e.action e.before ∧ e.outcome = m.execute e.action e.before := by
  obtain ⟨action, before, outcome⟩ := e
  induction as generalizing s with
  | nil => exact ⟨fun h => absurd h List.not_mem_nil, fun h => nomatch h.1⟩
  | cons b rest ih =>
      by_cases hb : Eligible threshold b
      · rcases failed_or_last m b s with ⟨r, u, hrun, hfailed⟩ | hlast
        · rw [recoverWith_failed hb hrun hfailed, List.mem_cons, ih]
          constructor
          · rintro (heq | ⟨hreach, houtcome⟩)
            · cases heq
              exact ⟨.here hb, rfl⟩
            · exact ⟨.failed hb hrun hfailed hreach, houtcome⟩
          · rintro ⟨hreach, houtcome⟩
            obtain rfl : outcome = m.execute action before := houtcome
            cases hreach with
            | here _ => exact .inl rfl
            | passed hnot _ => exact absurd hb hnot
            | failed _ hrun' _ hreach =>
                cases hrun.symm.trans hrun'
                exact .inr ⟨hreach, rfl⟩
        · rw [recoverWith_last hb hlast, List.mem_singleton]
          constructor
          · intro heq
            cases heq
            exact ⟨.here hb, rfl⟩
          · rintro ⟨hreach, houtcome⟩
            obtain rfl : outcome = m.execute action before := houtcome
            cases hreach with
            | here _ => rfl
            | passed hnot _ => exact absurd hb hnot
            | failed _ hrun hfailed _ =>
                rw [hlast _ _ hrun] at hfailed
                exact Bool.noConfusion hfailed
      · rw [recoverWith_passed hb, ih]
        refine and_congr_left fun _ => ⟨.passed hb, fun hreach => ?_⟩
        cases hreach with
        | here h => exact absurd h hb
        | passed _ hreach => exact hreach
        | failed h _ _ _ => exact absurd h hb

/-- The suggestions that are executed are executed in their order. -/
theorem sublist_recoverWith (as : List (RecoveryAction d.Score)) (s : Machine Outside) :
    ((recoverWith m threshold as s).map Execution.action).Sublist as := by
  induction as generalizing s with
  | nil => exact List.Sublist.refl _
  | cons b rest ih =>
      by_cases hb : Eligible threshold b
      · rcases failed_or_last m b s with ⟨r, u, hrun, hfailed⟩ | hlast
        · rw [recoverWith_failed hb hrun hfailed, List.map_cons]
          exact (ih u).cons_cons b
        · rw [recoverWith_last hb hlast]
          exact (List.nil_sublist rest).cons_cons b
      · rw [recoverWith_passed hb]
        exact (ih s).cons b

/-- An execution that did not succeed. -/
def Execution.Failed {Score : Type} (e : Execution Score Outside) : Prop :=
  ∃ r u, e.outcome = some (r, u) ∧ r.success = false

/-- Only a failure is followed by another execution. -/
theorem failed_of_mem_dropLast {e : Execution d.Score Outside}
    (h : e ∈ (recoverWith m threshold as s).dropLast) : e.Failed := by
  induction as generalizing s with
  | nil => exact absurd h List.not_mem_nil
  | cons b rest ih =>
      by_cases hb : Eligible threshold b
      · rcases failed_or_last m b s with ⟨r, u, hrun, hfailed⟩ | hlast
        · rw [recoverWith_failed hb hrun hfailed] at h
          cases hlater : recoverWith m threshold rest u with
          | nil =>
              rw [hlater] at h
              exact absurd h List.not_mem_nil
          | cons f later =>
              rw [hlater, List.dropLast_cons_cons, List.mem_cons] at h
              rcases h with rfl | h
              · exact ⟨r, u, hrun, hfailed⟩
              · exact ih (s := u) (hlater ▸ h)
        · rw [recoverWith_last hb hlast] at h
          exact absurd h List.not_mem_nil
      · rw [recoverWith_passed hb] at h
        exact ih h

/-- The suggestions come from the most confident one. -/
theorem pairwise_suggestRecovery {suggest : SuggestHost} {engine : RegexEngine}
    {projectId : Int64} {failureId maxSuggestions : Int} {db : RecoveryDb d}
    (h : suggestRecovery d suggest engine projectId failureId maxSuggestions db = some as) :
    as.Pairwise fun a b => b.confidenceScore ≤ a.confidenceScore := by
  rw [suggestRecovery] at h
  split at h
  · cases h
    exact List.Pairwise.nil
  · obtain ⟨ofPatterns, -, heq⟩ := Option.map_eq_some_iff.1 h
    rw [← heq]
    have hsorted := suggest.ties.orderBy_pairwise
      fun a : RecoveryAction d.Score => OrderDual.toDual a.confidenceScore
    split
    · exact hsorted _
    · exact (hsorted _).sublist (List.take_sublist _ _)

/-! ## Confinement -/

/-- What is executed is eligible, goes from the most confident to the first success, and
touches nothing but what is below the root. -/
structure Confined (m : AutoHost Outside) (threshold : d.Score) (root : Location)
    (executions : List (Execution d.Score Outside)) : Prop where
  eligible : ∀ e ∈ executions, Eligible threshold e.action
  ordered : executions.Pairwise fun e f => f.action.confidenceScore ≤ e.action.confidenceScore
  stops : ∀ e ∈ executions.dropLast, e.Failed
  below : ∀ e ∈ executions, ∀ p ∈ m.touched e.action e.before, root <+: p

/-- The command lines that the loop comes to touch nothing but what is below the root. -/
def CommandsStay (m : AutoHost Outside) (threshold : d.Score) (root : Location)
    (as : List (RecoveryAction d.Score)) (s : Machine Outside) : Prop :=
  ∀ a t, Reaches m threshold as s a t → ∀ run, m.run a t = some run → ∀ p ∈ run.touched, root <+: p

theorem confined_recoverWith
    (hsorted : as.Pairwise fun a b => b.confidenceScore ≤ a.confidenceScore) :
    Confined m threshold (m.cwd.resolve s.project.root) (recoverWith m threshold as s) ↔
      CommandsStay m threshold (m.cwd.resolve s.project.root) as s := by
  constructor
  · intro h a t hreach
    have hmem : (⟨a, t, m.execute a t⟩ : Execution d.Score Outside) ∈
        recoverWith m threshold as s := mem_recoverWith.2 ⟨hreach, rfl⟩
    have hbelow := h.below _ hmem
    rw [← hreach.root] at hbelow ⊢
    exact touched_iff.1 hbelow
  · intro h
    refine ⟨fun e he => (mem_recoverWith.1 he).1.eligible, ?_,
      fun e he => failed_of_mem_dropLast he, fun e he => ?_⟩
    · exact List.pairwise_map.1 (hsorted.sublist (sublist_recoverWith as s))
    · have hreach := (mem_recoverWith.1 he).1
      have hruns := h e.action e.before hreach
      rw [← hreach.root] at hruns ⊢
      exact touched_iff.2 hruns

/-- From the root or below it a clean build stays, so everything does unless a command of its
own is stored with an action that is eligible. -/
theorem confined_of_cwd
    (hsorted : as.Pairwise fun a b => b.confidenceScore ≤ a.confidenceScore)
    (hcwd : m.cwd.resolve s.project.root <+: m.cwd)
    (hbuild : ∀ a t run, a ∈ as → a.type = .cleanBuild → m.run a t = some run →
      ∀ p ∈ run.touched, m.cwd ++ [bytes "build"] <+: p)
    (hcustom : ∀ a ∈ as, Eligible threshold a → a.type ≠ .customCommand) :
    Confined m threshold (m.cwd.resolve s.project.root) (recoverWith m threshold as s) := by
  refine (confined_recoverWith hsorted).2 fun a t hreach run hrun p hp => ?_
  obtain ⟨shell, command, -, hcommand, -⟩ := run_eq_some hrun
  have htype : a.type = .cleanBuild := by
    rw [RecoveryAction.command] at hcommand
    split at hcommand
    · next htype => exact htype
    · next htype => exact absurd htype (hcustom a hreach.mem hreach.eligible)
    · cases hcommand
  have hbelow := hbuild a t run hreach.mem htype hrun p hp
  exact (hcwd.trans (List.prefix_append _ _)).trans hbelow

/-- Only eligible suggestions are executed, from the most confident to the first success. All
of it happens below the root, wherever the process is, exactly if the command lines that the
loop comes to touch nothing else when they are run from there. -/
theorem confined_iff (m : AutoHost Outside) (threshold : d.Score) (suggest : SuggestHost)
    (engine : RegexEngine) (failureId : Int) (db : RecoveryDb d) (s : Machine Outside) :
    Confined m threshold (m.cwd.resolve s.project.root)
        (autoRecover m threshold suggest engine failureId db s).executions ↔
      ∀ as, suggestRecovery d suggest engine s.project.projectId failureId 5 db = some as →
        CommandsStay m threshold (m.cwd.resolve s.project.root) as s := by
  have hnothing : Confined m threshold (m.cwd.resolve s.project.root) [] :=
    ⟨fun _ h => absurd h List.not_mem_nil, List.Pairwise.nil,
      fun _ h => absurd h List.not_mem_nil, fun _ h => absurd h List.not_mem_nil⟩
  rw [autoRecover]
  cases hsuggest : suggestRecovery d suggest engine s.project.projectId failureId 5 db with
  | none => exact iff_of_true hnothing fun _ h => nomatch h
  | some as =>
      have hlist : (∀ as', some as = some as' →
          CommandsStay m threshold (m.cwd.resolve s.project.root) as' s) ↔
          CommandsStay m threshold (m.cwd.resolve s.project.root) as s :=
        ⟨fun h => h as rfl, fun h as' heq => Option.some.inj heq ▸ h⟩
      rw [hlist]
      cases as with
      | nil => exact iff_of_true hnothing fun _ _ h => nomatch h
      | cons a rest => exact confined_recoverWith (pairwise_suggestRecovery hsuggest)

end

/-! ## A build directory outside the project -/

/-- A shell that removes the build directory, and finds nothing to configure. -/
def removesBuild (cwd : Location) (_line : Bytes) (tree : FileTree) (outside : List Location) :
    ShellRun (List Location) where
  result := ⟨1, bytes "CMake Error: The source directory does not contain CMakeLists.txt."⟩
  tree := tree
  outside := outside.filter fun p => ¬ (cwd ++ [bytes "build"]) <+: p
  touched := outside.filter fun p => (cwd ++ [bytes "build"]) <+: p

/-- A process that is in another project. -/
def elsewhere : AutoHost (List Location) where
  cwd := [bytes "home", bytes "other"]
  manager := none
  shell := some removesBuild

/-- A machine with a build of that other project. -/
def builtElsewhere : Machine (List Location) where
  project := { editedProject with root := bytes "/home/project" }
  outside := [[bytes "home", bytes "other", bytes "build", bytes "app"]]
  relative := by decide +kernel

/-- The clean build that is suggested for every failed build. -/
def suggestedCleanBuild : RecoveryAction exactScores.Score :=
  { createCleanBuildAction exactScores (bytes "Clean build often resolves build cache issues") with
    confidenceScore := exactScores.tenths 4
    riskLevel := bytes "low" }

/-- A failed build of the one project removes the build of the other. -/
theorem elsewhere_not_confined : ¬ Confined elsewhere (0 : Rat)
    (elsewhere.cwd.resolve builtElsewhere.project.root)
    (autoRecover (d := exactScores) elsewhere (0 : Rat) suggestHost plainEngine 1
      (oneFailure (bytes "build") (bytes "expected ;")) builtElsewhere).executions := by
  obtain ⟨as, has, hmem⟩ := suggestRecovery_generic suggestHost
    (oneFailure (bytes "build") (bytes "expected ;")) plainEngine builtElsewhere.project.projectId
    rfl (rfl : getFailure 1 _ = some _) rfl (by decide +kernel)
  have hgeneric : ∀ a, a ∈ as ↔ a = suggestedCleanBuild := fun a =>
    (hmem a).trans List.mem_singleton
  obtain ⟨rest, rfl⟩ : ∃ rest, as = suggestedCleanBuild :: rest := by
    cases as with
    | nil => exact absurd ((hgeneric _).2 rfl) List.not_mem_nil
    | cons a rest => exact ⟨rest, by rw [(hgeneric a).1 List.mem_cons_self]⟩
  have heligible : Eligible (d := exactScores) (0 : Rat) suggestedCleanBuild := by
    refine ⟨?_, rfl⟩
    show (0 : Rat) ≤ (4 : Nat) / 10
    decide +kernel
  have hexecutions : (autoRecover (d := exactScores) elsewhere (0 : Rat) suggestHost plainEngine 1
      (oneFailure (bytes "build") (bytes "expected ;")) builtElsewhere).executions =
      recoverWith elsewhere (0 : Rat) (suggestedCleanBuild :: rest) builtElsewhere := by
    simp only [autoRecover, has]
  rw [hexecutions]
  intro hconfined
  have hstay := (confined_recoverWith (pairwise_suggestRecovery has)).1 hconfined
  have hbelow := hstay _ _ (.here heligible) _ rfl
    [bytes "home", bytes "other", bytes "build", bytes "app"] (by decide +kernel)
  revert hbelow
  decide +kernel

end Nazg.Brain
