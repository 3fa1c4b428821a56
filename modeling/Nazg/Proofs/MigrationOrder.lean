import Nazg.Nexus.Migrator

/-!
# The order of migrations

The versions that have been applied are not stored as such: the migrator goes by the
greatest. That is enough as long as files are only added above the others, because then
the applied versions are always the first of the sorted files, `Ordered.applied`.

A version 0 would be taken for applied on every database, since 0 is also the version of
a database without migrations.
-/

namespace Nazg.Nexus

open Lib

variable {σ : Type}

/-- On these contents the script goes through, outside any transaction at its end, and has
recorded the version. -/
def Migration.Records (m : Migration σ) (x : Contents σ) : Prop :=
  ∃ y, (⟨x, none⟩ : Connection (Contents σ)).play m.sql = some ⟨y, none⟩ ∧
    y.schemaVersion =
      some (if m.version ∈ x.versions then x.versions else x.versions ++ [m.version])

/-- Positive versions, each recorded by its script where the version table is there; the
script with the least creates it. -/
structure WellFormed (ms : List (Migration σ)) : Prop where
  pos : ∀ m ∈ ms, 0 < m.version
  records : ∀ m ∈ ms, ∀ x : Contents σ,
    (x.schemaVersion.isSome = true ∨ ∀ m' ∈ ms, m.version ≤ m'.version) → m.Records x

/-- Whatever script fails leaves the connection as it was. -/
def Undone (faults : Nat → Nat → Option Fault) (ms : List (Migration σ)) : Prop :=
  ∀ k, ∀ m ∈ ms, ∀ x : Contents σ, (applyMigration (faults k) m ⟨x, none⟩).1 = false →
    (applyMigration (faults k) m ⟨x, none⟩).2 = ⟨x, none⟩

namespace MigratorState

/-- Files of distinct versions, added above those that were there. -/
def Proper (s : MigratorState σ) : MigratorEvent σ → Prop
  | .restart entries => ∀ ms, loadMigrations entries = some ms →
      (ms.map Migration.version).Nodup ∧ WellFormed ms ∧
        ∃ added, ms.Perm (s.migrations ++ added) ∧
          ∀ a ∈ added, ∀ m ∈ s.migrations, m.version < a.version
  | .migrateTo _ faults | .migrate faults => Undone faults s.migrations

structure Ordered (s : MigratorState σ) : Prop where
  outside : s.conn.working = none
  recorded : s.conn.committed.versions = s.applied
  table : s.applied = [] ∨ s.conn.committed.schemaVersion.isSome = true
  sorted : (s.migrations.map Migration.version).Pairwise (· < ·)
  wellFormed : WellFormed s.migrations
  applied : s.applied <+: s.migrations.map Migration.version

end MigratorState

/-! ## The greatest version -/

theorem le_getSchemaVersion {x : Contents σ} {v : Int} (h : v ∈ x.versions) :
    v ≤ x.getSchemaVersion := by
  rw [Contents.getSchemaVersion]
  cases hmax : x.versions.max? with
  | none => rw [List.max?_eq_none_iff.1 hmax] at h; cases h
  | some w => exact (List.max?_eq_some_iff.1 hmax).2 v h

theorem getSchemaVersion_mem {x : Contents σ} (h : x.versions ≠ []) :
    x.getSchemaVersion ∈ x.versions := by
  rw [Contents.getSchemaVersion]
  cases hmax : x.versions.max? with
  | none => exact absurd (List.max?_eq_none_iff.1 hmax) h
  | some w => exact (List.max?_eq_some_iff.1 hmax).1

theorem getSchemaVersion_of_nil {x : Contents σ} (h : x.versions = []) :
    x.getSchemaVersion = 0 := by
  rw [Contents.getSchemaVersion, h]
  rfl

/-! ## The loop -/

theorem migrateLoop_skip {faults : Nat → Nat → Option Fault} {current target : Int} {k : Nat}
    {done ms : List (Migration σ)} {c : Connection (Contents σ)}
    (h : ∀ m ∈ done, m.version ≤ current) :
    migrateLoop faults current target k (done ++ ms) c =
      migrateLoop faults current target k ms c := by
  induction done with
  | nil => rfl
  | cons m done ih =>
      rw [List.cons_append, migrateLoop, if_pos (h m List.mem_cons_self)]
      exact ih fun m hm => h m (List.mem_cons_of_mem _ hm)

/-- What the loop makes of migrations that are all ahead of what is recorded. -/
structure LoopSpec (target : Int) (x : Contents σ) (ms : List (Migration σ))
    (run : MigrationRun σ) : Prop where
  outside : run.conn.working = none
  recorded : run.conn.committed.versions = x.versions ++ run.applied
  table : run.applied = [] ∧ run.conn.committed = x ∨
    run.conn.committed.schemaVersion.isSome = true
  applied : run.applied <+: ms.map Migration.version
  le_target : ∀ v ∈ run.applied, v ≤ target
  complete : run.ok = true → ∀ m ∈ ms, m.version ≤ target → m.version ∈ run.applied

theorem loopSpec_nothing {target : Int} {x : Contents σ} {ms : List (Migration σ)} {ok : Bool}
    (h : ok = true → ∀ m ∈ ms, target < m.version) :
    LoopSpec target x ms ⟨ok, ⟨x, none⟩, []⟩ :=
  ⟨rfl, (List.append_nil _).symm, Or.inl ⟨rfl, rfl⟩, List.nil_prefix, fun _ h => (nomatch h),
    fun hok m hm hle => absurd hle (not_le.2 (h hok m hm))⟩

theorem migrateLoop_spec {faults : Nat → Nat → Option Fault} {current target : Int} {k : Nat}
    {ms : List (Migration σ)} {x : Contents σ}
    (hsorted : (ms.map Migration.version).Pairwise (· < ·))
    (hahead : ∀ m ∈ ms, current < m.version ∧ ∀ v ∈ x.versions, v < m.version)
    (hrecords : ∀ m ∈ ms, ∀ y : Contents σ, y.schemaVersion.isSome = true → m.Records y)
    (hfirst : ∀ m, ms.head? = some m → m.Records x) (hundone : Undone faults ms) :
    LoopSpec target x ms (migrateLoop faults current target k ms ⟨x, none⟩) := by
  induction ms generalizing k x with
  | nil => exact loopSpec_nothing fun _ _ h => (nomatch h)
  | cons m ms ih =>
      rw [List.map_cons, List.pairwise_cons] at hsorted
      obtain ⟨hcurrent, hversions⟩ := hahead m List.mem_cons_self
      rw [migrateLoop, if_neg (not_le.2 hcurrent)]
      by_cases hbeyond : target < m.version
      · rw [if_pos hbeyond]
        refine loopSpec_nothing fun _ m' hm' => ?_
        rcases List.mem_cons.1 hm' with rfl | hm'
        · exact hbeyond
        · exact hbeyond.trans (hsorted.1 _ (List.mem_map_of_mem hm'))
      · rw [if_neg hbeyond]
        cases happly : applyMigration (faults k) m ⟨x, none⟩ with
        | mk ok c =>
            cases ok with
            | false =>
                have hc := hundone k m List.mem_cons_self x (by rw [happly])
                rw [happly] at hc
                rw [show c = ⟨x, none⟩ from hc]
                exact loopSpec_nothing fun h => (nomatch h)
            | true =>
                obtain ⟨y, hplay, hy⟩ := hfirst m rfl
                have hc := (Connection.play_of_runScript happly).symm.trans hplay
                cases hc
                have hnew : m.version ∉ x.versions := fun h => lt_irrefl _ (hversions _ h)
                rw [if_neg hnew] at hy
                have hyv : y.versions = x.versions ++ [m.version] := by
                  rw [Contents.versions, hy]
                  rfl
                have hsome : y.schemaVersion.isSome = true := by rw [hy]; rfl
                have hspec := ih (k := k + 1) (x := y) hsorted.2 (fun m' hm' => ?_)
                  (fun m' hm' => hrecords m' (List.mem_cons_of_mem _ hm'))
                  (fun m' hm' => hrecords m' (List.mem_cons_of_mem _ (List.mem_of_mem_head? hm')) y
                    hsome)
                  (fun k m' hm' => hundone k m' (List.mem_cons_of_mem _ hm'))
                · refine ⟨hspec.outside, ?_, ?_, ?_, ?_, ?_⟩
                  · rw [hspec.recorded, hyv, List.append_assoc]
                    rfl
                  · rcases hspec.table with ⟨-, heq⟩ | htable
                    · exact Or.inr (by simp only [heq, hsome])
                    · exact Or.inr htable
                  · exact List.cons_prefix_cons.2 ⟨rfl, hspec.applied⟩
                  · intro v hv
                    rcases List.mem_cons.1 hv with rfl | hv
                    · exact not_lt.1 hbeyond
                    · exact hspec.le_target v hv
                  · intro hok m' hm' hle
                    rcases List.mem_cons.1 hm' with rfl | hm'
                    · exact List.mem_cons_self
                    · exact List.mem_cons_of_mem _ (hspec.complete hok m' hm' hle)
                · have hlt := hsorted.1 _ (List.mem_map_of_mem hm')
                  refine ⟨(hahead m' (List.mem_cons_of_mem _ hm')).1, fun v hv => ?_⟩
                  rw [hyv, List.mem_append, List.mem_singleton] at hv
                  rcases hv with hv | rfl
                  · exact (hversions v hv).trans hlt
                  · exact hlt

/-! ## One step -/

namespace MigratorState

variable {s : MigratorState σ}

/-- The files that are applied, and the rest, which is ahead of the version. -/
theorem Ordered.split (h : Ordered s) : ∃ done ahead, s.migrations = done ++ ahead ∧
    s.applied = done.map Migration.version ∧ (∀ m ∈ done, m.version ≤ s.version) ∧
    ∀ m ∈ ahead, s.version < m.version ∧ ∀ v ∈ s.conn.committed.versions, v < m.version := by
  have hversion : s.version = s.conn.committed.getSchemaVersion := by
    rw [version, Connection.current, h.outside]
    rfl
  refine ⟨s.migrations.take s.applied.length, s.migrations.drop s.applied.length,
    (List.take_append_drop _ _).symm, ?_, fun m hm => ?_, fun m hm => ?_⟩
  · rw [List.map_take]
    exact List.prefix_iff_eq_take.1 h.applied
  · have hmem : m.version ∈ s.applied := by
      rw [List.prefix_iff_eq_take.1 h.applied, ← List.map_take]
      exact List.mem_map_of_mem hm
    rw [hversion]
    rw [← h.recorded] at hmem
    exact le_getSchemaVersion hmem
  · have hlt : ∀ v ∈ s.conn.committed.versions, v < m.version := by
      intro v hv
      rw [h.recorded] at hv
      have hsorted := h.sorted
      rw [← List.take_append_drop s.applied.length s.migrations, List.map_append, List.map_take,
        ← List.prefix_iff_eq_take.1 h.applied] at hsorted
      exact (List.pairwise_append.1 hsorted).2.2 v hv _ (List.mem_map_of_mem hm)
    refine ⟨?_, hlt⟩
    rw [hversion]
    by_cases hnil : s.conn.committed.versions = []
    · rw [getSchemaVersion_of_nil hnil]
      exact h.wellFormed.pos m (List.mem_of_mem_drop hm)
    · exact hlt _ (getSchemaVersion_mem hnil)

/-- What a call of `migrate_to` does: the files stay the first ones, the version does not
decrease, and after a success the applied ones are those up to the target or the version,
whichever is greater. -/
structure StepSpec (s : MigratorState σ) (target : Int) (run : MigrationRun σ) : Prop where
  ordered : Ordered (s.after run)
  increases : s.version ≤ (s.after run).version
  complete : run.ok = true → (s.after run).applied =
    (s.migrations.map Migration.version).filter fun v => v ≤ max s.version target

/-- The applied files and those the loop adds are the files up to a bound, if the bound is
between those and the others. -/
theorem applied_eq_filter {done ahead : List (Migration σ)} {log rest : List Int} {bound : Int}
    (hlog : ahead.map Migration.version = log ++ rest) (hdone : ∀ m ∈ done, m.version ≤ bound)
    (hle : ∀ v ∈ log, v ≤ bound) (hrest : ∀ v ∈ rest, bound < v) :
    done.map Migration.version ++ log =
      ((done ++ ahead).map Migration.version).filter fun v => v ≤ bound := by
  have hall : ∀ v ∈ done.map Migration.version ++ log, decide (v ≤ bound) = true := by
    intro v hv
    rcases List.mem_append.1 hv with hv | hv
    · obtain ⟨m, hm, rfl⟩ := List.mem_map.1 hv
      exact decide_eq_true (hdone m hm)
    · exact decide_eq_true (hle v hv)
  have hnone : rest.filter (fun v => decide (v ≤ bound)) = [] :=
    List.filter_eq_nil_iff.2 fun v hv => by simpa using hrest v hv
  rw [List.map_append, hlog, ← List.append_assoc, List.filter_append, hnone, List.append_nil,
    List.filter_eq_self.2 hall]

theorem stepSpec_of_loopSpec (h : Ordered s) {done ahead : List (Migration σ)}
    (hfiles : s.migrations = done ++ ahead) (hdone : s.applied = done.map Migration.version)
    (hle : ∀ m ∈ done, m.version ≤ s.version)
    (hahead : ∀ m ∈ ahead, s.version < m.version ∧
      ∀ v ∈ s.conn.committed.versions, v < m.version)
    {target : Int} {run : MigrationRun σ} (hspec : LoopSpec target s.conn.committed ahead run) :
    StepSpec s target run := by
  obtain ⟨rest, hrest⟩ := hspec.applied
  have hversion : s.version = s.conn.committed.getSchemaVersion := by
    rw [version, Connection.current, h.outside]
    rfl
  have hversion' : (s.after run).version = run.conn.committed.getSchemaVersion := by
    rw [version, Connection.current, after, hspec.outside]
    rfl
  have hsorted := h.sorted
  rw [hfiles, List.map_append] at hsorted
  have hdisjoint : ∀ v ∈ rest, v ∉ run.applied := by
    intro v hv hlog
    have hpair := (List.pairwise_append.1 hsorted).2.1
    rw [← hrest] at hpair
    exact lt_irrefl v ((List.pairwise_append.1 hpair).2.2 v hlog v hv)
  refine ⟨⟨hspec.outside, ?_, ?_, h.sorted, h.wellFormed, ?_⟩, ?_, fun hok => ?_⟩
  · exact hspec.recorded.trans (congrArg (· ++ run.applied) h.recorded)
  · rcases hspec.table with ⟨hnil, heq⟩ | htable
    · rcases h.table with hs | hs
      · exact Or.inl (by simp only [after, hnil, hs, List.append_nil])
      · exact Or.inr (by simp only [after, heq, hs])
    · exact Or.inr htable
  · refine ⟨rest, ?_⟩
    simp only [after]
    rw [List.append_assoc, hrest, hdone, ← List.map_append, ← hfiles]
  · rw [hversion', hversion]
    by_cases hold : s.conn.committed.versions = []
    · by_cases hnew : run.conn.committed.versions = []
      · rw [getSchemaVersion_of_nil hold, getSchemaVersion_of_nil hnew]
      · have hmem := getSchemaVersion_mem hnew
        rw [hspec.recorded, hold, List.nil_append] at hmem
        obtain ⟨m, hm, heq⟩ := List.mem_map.1 (hspec.applied.subset hmem)
        rw [← heq, ← hversion]
        exact le_of_lt (hahead m hm).1
    · refine le_getSchemaVersion ?_
      rw [hspec.recorded]
      exact List.mem_append_left _ (getSchemaVersion_mem hold)
  · simp only [after]
    rw [hdone, hfiles]
    refine applied_eq_filter hrest.symm (fun m hm => (hle m hm).trans (le_max_left _ _))
      (fun v hv => (hspec.le_target v hv).trans (le_max_right _ _)) (fun v hv => ?_)
    have hmem : v ∈ ahead.map Migration.version := hrest ▸ List.mem_append_right _ hv
    obtain ⟨m, hm, rfl⟩ := List.mem_map.1 hmem
    refine max_lt (hahead m hm).1 (not_le.1 fun hle => ?_)
    exact hdisjoint _ hv (hspec.complete hok m hm hle)

theorem migrateTo_spec (h : Ordered s) {faults : Nat → Nat → Option Fault}
    (hundone : Undone faults s.migrations) (target : Int) :
    StepSpec s target (Nexus.migrateTo faults s.migrations target s.conn) := by
  obtain ⟨done, ahead, hfiles, hdone, hle, hahead⟩ := h.split
  have hversion : s.conn.current.getSchemaVersion = s.version := rfl
  have hconn : s.conn = ⟨s.conn.committed, none⟩ := by
    rw [← h.outside]
  refine stepSpec_of_loopSpec h hfiles hdone hle hahead ?_
  rw [Nexus.migrateTo, hversion]
  split
  · next htarget =>
      rw [hconn]
      exact loopSpec_nothing fun _ m hm => htarget.trans_lt (hahead m hm).1
  · next htarget =>
      have hsorted := h.sorted
      rw [hfiles, List.map_append] at hsorted
      have hmem : ∀ m ∈ ahead, m ∈ s.migrations := fun m hm =>
        hfiles ▸ List.mem_append_right _ hm
      have hloop : migrateLoop faults s.version target 0 s.migrations s.conn =
          migrateLoop faults s.version target 0 ahead ⟨s.conn.committed, none⟩ := by
        rw [hfiles, migrateLoop_skip hle, ← hconn]
      rw [hloop]
      refine migrateLoop_spec (List.pairwise_append.1 hsorted).2.1 hahead
        (fun m hm y hy => h.wellFormed.records m (hmem m hm) y (Or.inl hy)) (fun m hm => ?_)
        (fun k m hm => hundone k m (hmem m hm))
      refine h.wellFormed.records m (hmem m (List.mem_of_mem_head? hm)) _ ?_
      rcases h.table with hnil | htable
      · -- nothing is applied: the first file ahead is the first of all
        refine Or.inr fun m' hm' => ?_
        have hempty : done = [] := by
          rw [hdone] at hnil
          exact List.map_eq_nil_iff.1 hnil
        rw [hfiles, hempty, List.nil_append] at hm'
        rw [hempty, List.map_nil, List.nil_append] at hsorted
        cases ahead with
        | nil => cases hm
        | cons a ahead =>
            cases hm
            rw [List.map_cons, List.pairwise_cons] at hsorted
            rcases List.mem_cons.1 hm' with rfl | hm'
            · exact le_refl _
            · exact le_of_lt (hsorted.1 _ (List.mem_map_of_mem hm'))
      · exact Or.inl htable

/-! ## Runs -/

theorem loadMigrations_sorted {entries : List (DirEntry σ)} {ms : List (Migration σ)}
    (h : loadMigrations entries = some ms) :
    ms.Pairwise fun a b => a.version ≤ b.version := by
  obtain ⟨loaded, -, rfl⟩ := Option.map_eq_some_iff.1 h
  have hsorted : (loaded.reduceOption.mergeSort fun a b => a.version ≤ b.version).Pairwise
      fun a b => decide (a.version ≤ b.version) = true :=
    List.pairwise_mergeSort
      (fun a b c hab hbc => by simpa using (of_decide_eq_true hab).trans (of_decide_eq_true hbc))
      (fun a b => by simpa using le_total a.version b.version) _
  exact hsorted.imp of_decide_eq_true

theorem ordered_restart (h : Ordered s) {entries : List (DirEntry σ)} {ms : List (Migration σ)}
    (hload : loadMigrations entries = some ms) (hproper : Proper s (.restart entries)) :
    Ordered { s with conn := { s.conn with working := none }, migrations := ms } := by
  obtain ⟨hnodup, hwf, added, hperm, habove⟩ := hproper ms hload
  have hsorted : (ms.map Migration.version).Pairwise (· < ·) := by
    have hle : (ms.map Migration.version).Pairwise (· ≤ ·) :=
      List.pairwise_map.2 (loadMigrations_sorted hload)
    exact (hle.and hnodup).imp fun hab => lt_of_le_of_ne hab.1 hab.2
  refine ⟨rfl, h.recorded, h.table, hsorted, hwf, h.applied.trans ?_⟩
  -- the sorted files are the old ones followed by the new ones
  have hvperm := hperm.map Migration.version
  rw [List.map_append] at hvperm
  refine ⟨(added.map Migration.version).mergeSort, ?_⟩
  have haddperm := (List.mergeSort_perm (added.map Migration.version) (· ≤ ·))
  refine List.Perm.eq_of_pairwise (fun a b _ _ hab hba => absurd (hab.trans hba) (lt_irrefl a))
    ?_ hsorted ((List.Perm.append_left _ haddperm).trans hvperm.symm)
  rw [List.pairwise_append]
  refine ⟨h.sorted, ?_, fun v hv w hw => ?_⟩
  · have hnodup' : (added.map Migration.version).mergeSort.Nodup :=
      haddperm.nodup_iff.2 (List.nodup_append.1 (hvperm.nodup_iff.1 hnodup)).2.1
    have hle : ((added.map Migration.version).mergeSort fun a b => a ≤ b).Pairwise
        fun a b => decide (a ≤ b) = true :=
      List.pairwise_mergeSort
        (fun a b c hab hbc => by simpa using (of_decide_eq_true hab).trans (of_decide_eq_true hbc))
        (fun a b => by simpa using le_total a b) _
    exact (hle.imp of_decide_eq_true |>.and hnodup').imp fun hab => lt_of_le_of_ne hab.1 hab.2
  · obtain ⟨m, hm, rfl⟩ := List.mem_map.1 hv
    obtain ⟨a, ha, rfl⟩ := List.mem_map.1 (haddperm.mem_iff.1 hw)
    exact habove a ha m hm

theorem step_restart {entries : List (DirEntry σ)} {ms : List (Migration σ)}
    (hload : loadMigrations entries = some ms) : s.step (.restart entries) =
      some { s with conn := { s.conn with working := none }, migrations := ms } := by
  simp only [step, hload, Option.map_some]

theorem ordered_init (rest : σ) : Ordered (system rest).init :=
  ⟨rfl, rfl, Or.inl rfl, List.Pairwise.nil, ⟨fun _ hm => (nomatch hm), fun _ hm => (nomatch hm)⟩,
    List.nil_prefix⟩

theorem ordered_step {s s' : MigratorState σ} {e : MigratorEvent σ} (h : Ordered s)
    (hproper : Proper s e) (hstep : s.step e = some s') : Ordered s' := by
  cases e with
  | restart entries =>
      obtain ⟨ms, hload, rfl⟩ := Option.map_eq_some_iff.1 hstep
      exact ordered_restart h hload hproper
  | migrateTo target faults =>
      cases hstep
      exact (migrateTo_spec h hproper target).ordered
  | migrate faults =>
      cases hstep
      exact (migrateTo_spec h hproper _).ordered

/-- The target of a call that succeeds. -/
def reachesTarget (s : MigratorState σ) (target : Int) : MigratorEvent σ → Prop
  | .restart _ => False
  | .migrateTo t faults =>
      t = target ∧ (Nexus.migrateTo faults s.migrations target s.conn).ok = true
  | .migrate faults =>
      latestVersion s.migrations = target ∧
        (Nexus.migrate faults s.migrations s.conn).ok = true

/-- A first file, which creates the version table. -/
def initFile : ScriptFile (List String) where
  version := 1
  before := 1
  body := [fun x => { x with schemaVersion := some x.versions },
    fun x => { x with rest := x.rest ++ ["projects"] }]
  after := 0

/-- A second one. -/
def gitServersFile : ScriptFile (List String) where
  version := 2
  before := 1
  body := [fun x => { x with rest := x.rest ++ ["git_servers"] }]
  after := 1

/-- The directory, in the order in which it is listed. -/
def listing : List (DirEntry (List String)) :=
  [⟨bytes "002_git_servers.sql", true, some gitServersFile.migration.sql⟩,
    ⟨bytes "README.md", true, none⟩,
    ⟨bytes "001_init.sql", true, some initFile.migration.sql⟩]

theorem load_listing :
    loadMigrations listing = some [initFile.migration, gitServersFile.migration] := by
  have hread : listing.mapM DirEntry.read =
      some [some gitServersFile.migration, none, some initFile.migration] := rfl
  rw [loadMigrations, hread]
  simp [List.reduceOption, List.mergeSort, initFile, gitServersFile, ScriptFile.migration]

/-- No script fails. -/
def noFaults : Nat → Nat → Option Fault := fun _ _ => none

theorem records_initFile (x : Contents (List String)) : initFile.migration.Records x :=
  ⟨_, rfl, rfl⟩

theorem records_gitServersFile {x : Contents (List String)} (h : x.schemaVersion.isSome = true) :
    gitServersFile.migration.Records x := by
  obtain ⟨vs, hvs⟩ := Option.isSome_iff_exists.1 h
  refine ⟨_, rfl, ?_⟩
  simp only [Contents.versions, hvs]
  rfl

theorem undone_noFaults : Undone noFaults [initFile.migration, gitServersFile.migration] := by
  intro k m hm x hfails
  rcases List.mem_cons.1 hm with rfl | hm
  · exact Bool.noConfusion (show true = false from hfails)
  · rcases List.mem_cons.1 hm with rfl | hm
    · exact Bool.noConfusion (show true = false from hfails)
    · cases hm

theorem wellFormed_listing : WellFormed [initFile.migration, gitServersFile.migration] := by
  refine ⟨by decide, fun m hm x hx => ?_⟩
  rcases List.mem_cons.1 hm with rfl | hm
  · exact records_initFile x
  · rcases List.mem_cons.1 hm with rfl | hm
    · rcases hx with hx | hx
      · exact records_gitServersFile hx
      · exact absurd (hx _ List.mem_cons_self) (by decide)
    · cases hm

/-- A file of version 0, which does all that is asked of a migration. -/
def zeroFile : ScriptFile (List String) := { initFile with version := 0 }

theorem load_zeroFile :
    loadMigrations [⟨bytes "000_base.sql", true, some zeroFile.migration.sql⟩] =
      some [zeroFile.migration] := by
  have hread : ([⟨bytes "000_base.sql", true, some zeroFile.migration.sql⟩] :
      List (DirEntry (List String))).mapM DirEntry.read = some [some zeroFile.migration] := rfl
  rw [loadMigrations, hread]
  simp [List.reduceOption]

end MigratorState

end Nazg.Nexus
