import Nazg.Lib.System
import Nazg.Proofs.BuildStatus
import Nazg.Proofs.Recency

/-!
# When the smart build may skip

A run stores the hash of the tree before it builds, and stores it whatever comes of the
build. A later run that finds the same hash stored decides not to build. So for every
stored hash there was a build, but not one that succeeded.

`builtBefore_of_reachable` is about whole runs of edits and builds. The session has the
builds that were attempted and the snapshots that were stored as history.
-/

namespace Nazg.Brain

open Lib Lib.Sqlite Nexus

/-! ## Sessions -/

structure Attempt where
  hash : Bytes
  tree : FileTree
  succeeded : Bool

structure StoredRun where
  now : Int64
  hash : Bytes
  stored : Bool

/-- A workplace with its history, the newest first. -/
structure Session where
  w : Workplace
  attempts : List Attempt
  runs : List StoredRun

inductive Event where
  | edit (tree : FileTree)
  | run (host : BuildHost)

section

variable (sha : Sha256) (projectId : Int64)

/-- The call that stores the snapshot of a run. -/
def snapshotCall (host : BuildHost) (w : Workplace) : SnapshotCall :=
  let r := (cmdBuild sha projectId host w).1
  .addSnapshot host.now projectId r.snapshot.treeHash (.ofNat r.snapshot.fileCount)
    (.ofNat r.snapshot.totalBytes)

def sessionStep (s : Session) : Event → Session
  | .edit tree => { s with w := { s.w with tree := tree } }
  | .run host =>
      let r := cmdBuild sha projectId host s.w
      { w := r.2
        attempts :=
          if r.1.plan.action = .build then
            ⟨r.1.snapshot.treeHash, s.w.tree, r.1.result.success⟩ :: s.attempts
          else s.attempts
        runs :=
          ⟨host.now, r.1.snapshot.treeHash, host.recorded &&
            ((snapshotCall sha projectId host s.w).run s.w.tables).isSome⟩ :: s.runs }

def sessions (w : Workplace) : System Session Event where
  init := ⟨w, [], []⟩
  step s e := some (sessionStep sha projectId s e)

end

/-- The files that count are the same. -/
def SameTree (t t' : FileTree) : Prop := ∀ p, Counted p → t.content p = t'.content p

/-- The newest attempt of a kind. -/
def LastAttempt (p : Attempt → Prop) (as : List Attempt) (a : Attempt) : Prop :=
  ∃ newer older, as = newer ++ a :: older ∧ p a ∧ ∀ b ∈ newer, ¬ p b

theorem exists_lastAttempt {p : Attempt → Prop} {as : List Attempt} (h : ∃ a ∈ as, p a) :
    ∃ a, LastAttempt p as a := by
  induction as with
  | nil => simp at h
  | cons b as ih =>
      by_cases hb : p b
      · exact ⟨b, [], as, rfl, hb, fun _ hnone => (nomatch hnone)⟩
      · obtain ⟨a, ha, hpa⟩ := h
        have hrest : ∃ a ∈ as, p a :=
          ⟨a, (List.mem_cons.1 ha).resolve_left fun heq => hb (heq ▸ hpa), hpa⟩
        obtain ⟨c, newer, older, rfl, hc, hnewer⟩ := ih hrest
        refine ⟨c, b :: newer, older, rfl, hc, fun x hx => ?_⟩
        rcases List.mem_cons.1 hx with rfl | hx
        · exact hb
        · exact hnewer x hx

theorem LastAttempt.congr {p q : Attempt → Prop} {as : List Attempt} {a : Attempt}
    (h : LastAttempt p as a) (hpq : ∀ b ∈ as, p b ↔ q b) : LastAttempt q as a := by
  obtain ⟨newer, older, rfl, ha, hnewer⟩ := h
  refine ⟨newer, older, rfl, (hpq a ?_).1 ha, fun b hb hq => hnewer b hb ((hpq b ?_).2 hq)⟩
  · exact List.mem_append_right _ List.mem_cons_self
  · exact List.mem_append_left _ hb

/-- The tree of the session was built, and the last attempt succeeded. -/
def BuiltBefore (s : Session) : Prop :=
  ∃ a, LastAttempt (fun a => SameTree a.tree s.w.tree) s.attempts a ∧ a.succeeded = true

/-- A run that does not build: it skips, or tests because nothing has changed. -/
def DecidesNotToBuild (r : BuildRun) : Prop :=
  r.plan.action = .skip ∨ r.plan.action = .test ∧ Planner.unchanged r.snapshot = true

/-- Each snapshot was stored, in a later second than the one before it. -/
structure InOrder (runs : List StoredRun) : Prop where
  stored : ∀ r ∈ runs, r.stored = true
  later : runs.Pairwise fun r r' => r'.now < r.now

/-- What has to hold of a session for a run in it. -/
structure Trustworthy (sha : Sha256) (projectId : Int64) (s : Session) (host : BuildHost) :
    Prop where
  /-- The planner knows the build system. -/
  supported : (Planner.commandFor Planner.buildCommands host.info.buildSystem).isSome = true
  /-- The hash tells the tree from the ones that were built. -/
  told : ∀ a ∈ s.attempts,
    a.hash = (cmdBuild sha projectId host s.w).1.snapshot.treeHash ↔ SameTree a.tree s.w.tree
  /-- The last build with this hash did not fail, or the run before was of another one. -/
  notFailed :
    (∀ a, LastAttempt (fun a => a.hash = (cmdBuild sha projectId host s.w).1.snapshot.treeHash)
      s.attempts a → a.succeeded = true) ∨
    InOrder s.runs ∧
      ∀ r ∈ s.runs.head?, r.hash ≠ (cmdBuild sha projectId host s.w).1.snapshot.treeHash

/-- Every run of the session meets the condition. -/
def Event.Allowed (sha : Sha256) (projectId : Int64) (s : Session) : Event → Prop
  | .edit _ => True
  | .run host => Trustworthy sha projectId s host

/-! ## What is stored -/

section

variable {sha : Sha256} {projectId : Int64} {host : BuildHost} {w : Workplace}

/-- The snapshots of the project. -/
def projectSnapshots (projectId : Int64) (tables : SnapshotTables) : List (Int × Row) :=
  (tables .snapshots).rows.filter fun x =>
    x.2 "project_id" = (bindText (decimal projectId.toInt)).toInteger

theorem zero_notMem_treeHash : (0 : UInt8) ∉ (cmdBuild sha projectId host w).1.snapshot.treeHash := by
  show (0 : UInt8) ∉ computeTreeHash sha host.allocated (scanFiles sha host.reading w.tree)
  rw [computeTreeHash]
  split
  · exact fun hmem => (of_mem_toHex hmem).2 rfl
  · exact List.not_mem_nil

/-- What a run does to the snapshots of the project. -/
theorem projectSnapshots_cmdBuild (sha : Sha256) (projectId : Int64) (host : BuildHost)
    (w : Workplace) :
    let tables' := (cmdBuild sha projectId host w).2.tables
    let stored := host.recorded && ((snapshotCall sha projectId host w).run w.tables).isSome
    (stored = false ∧ projectSnapshots projectId tables' = projectSnapshots projectId w.tables) ∨
      stored = true ∧ ∃ x : Int × Row,
        projectSnapshots projectId tables' = projectSnapshots projectId w.tables ++ [x] ∧
        stampColumn "created_at" x = host.now.toInt ∧
        (readSnapshot x).treeHash = (cmdBuild sha projectId host w).1.snapshot.treeHash := by
  dsimp only
  have htables : (cmdBuild sha projectId host w).2.tables = storeSnapshot host.toSnapshotHost
      projectId (compute sha host.toSnapshotHost projectId w.tree w.tables) w.tables := rfl
  rw [htables, storeSnapshot]
  cases hrecorded : host.recorded with
  | false => exact .inl ⟨rfl, rfl⟩
  | true =>
      rw [if_pos rfl]
      split
      · next id tables' hadded =>
          have hrun : (snapshotCall sha projectId host w).run w.tables = some (id, tables') := hadded
          rw [hrun]
          obtain ⟨-, rfl⟩ := run_eq_some hrun
          refine .inr ⟨rfl, ((w.tables .snapshots).lastId + 1,
            (snapshotCall sha projectId host w).row), ?_, ?_, ?_⟩
          · have hproject : (snapshotCall sha projectId host w).row "project_id" =
                (bindText (decimal projectId.toInt)).toInteger := by
              rw [row_projectId, toInteger_decimal (Int64.le_toInt projectId)
                (Int.le_sub_one_of_lt (Int64.toInt_lt projectId))]
              rfl
            show List.filter _ ((w.tables .snapshots).rows ++ [_]) = _
            rw [List.filter_append]
            refine congrArg (_ ++ ·) (List.filter_eq_self.2 fun x hx => ?_)
            rw [List.mem_singleton.1 hx]
            exact decide_eq_true hproject
          · have hstamp : (snapshotCall sha projectId host w).row "created_at" =
                .int host.now.toInt := row_stamp (snapshotCall sha projectId host w)
            rw [stampColumn]
            dsimp only
            rw [hstamp]
          · have htext : (snapshotCall sha projectId host w).row "tree_hash" =
                bindText (cmdBuild sha projectId host w).1.snapshot.treeHash := rfl
            rw [readSnapshot]
            dsimp only
            rw [htext]
            exact cstr_eq_self.2 zero_notMem_treeHash
      · next hrefused =>
          have hrun : (snapshotCall sha projectId host w).run w.tables = none := hrefused
          rw [hrun]
          exact .inl ⟨rfl, rfl⟩

/-- A latest snapshot is one of the project, and none of those is newer. -/
theorem mem_of_latestSnapshot {o : RowOrder} {tables : SnapshotTables} {prev : Snapshot}
    (h : latestSnapshot o projectId tables = some prev) :
    ∃ x ∈ projectSnapshots projectId tables, readSnapshot x = prev ∧
      ∀ y ∈ projectSnapshots projectId tables,
        stampColumn "created_at" y ≤ stampColumn "created_at" x := by
  obtain ⟨x, hx, rfl⟩ := Option.map_eq_some_iff.1 h
  have hperm := o.orderBy_perm (fun x => -stampColumn "created_at" x)
    (projectSnapshots projectId tables)
  have hsorted := o.orderBy_pairwise (fun x => -stampColumn "created_at" x)
    (projectSnapshots projectId tables)
  have hhead : (o.orderBy (fun x => -stampColumn "created_at" x)
      (projectSnapshots projectId tables)).head? = some x := by
    rw [limitRows, if_neg (by decide)] at hx
    rwa [List.head?_take, if_neg (by decide)] at hx
  generalize o.orderBy (fun x => -stampColumn "created_at" x)
    (projectSnapshots projectId tables) = sorted at hperm hsorted hhead
  cases sorted with
  | nil => cases hhead
  | cons z sorted =>
      cases hhead
      refine ⟨x, hperm.mem_iff.1 List.mem_cons_self, rfl, fun y hy => ?_⟩
      rcases List.mem_cons.1 (hperm.mem_iff.2 hy) with rfl | hmem
      · exact le_refl _
      · have hle := List.rel_of_pairwise_cons hsorted hmem
        omega

/-- An unchanged tree has the hash of a latest snapshot. -/
theorem exists_of_unchanged
    (h : Planner.unchanged (cmdBuild sha projectId host w).1.snapshot = true) :
    ∃ prev, latestSnapshot host.order projectId w.tables = some prev ∧
      prev.treeHash = (cmdBuild sha projectId host w).1.snapshot.treeHash := by
  rw [Planner.unchanged, Bool.and_eq_true, Bool.not_eq_true'] at h
  have hchanged : (compute sha host.toSnapshotHost projectId w.tree w.tables).changed = false := h.1
  show ∃ prev : Snapshot, _ ∧ prev.treeHash =
    (compute sha host.toSnapshotHost projectId w.tree w.tables).treeHash
  rw [compute] at hchanged ⊢
  dsimp only at hchanged ⊢
  split at hchanged
  · next prev hprev =>
      split at hprev
      · exact ⟨prev, hprev, (not_not.1 (of_decide_eq_false hchanged)).symm⟩
      · cases hprev
  · cases hchanged

end

/-! ## What is true of every session -/

/-- For every stored hash a build was attempted, and while the runs are in order they are
the stored snapshots. -/
structure Kept (projectId : Int64) (s : Session) : Prop where
  attempted : ∀ x ∈ projectSnapshots projectId s.w.tables,
    ∃ a ∈ s.attempts, a.hash = (readSnapshot x).treeHash
  fromRuns : InOrder s.runs → ∀ x ∈ projectSnapshots projectId s.w.tables,
    ∃ r ∈ s.runs, stampColumn "created_at" x = r.now.toInt ∧ (readSnapshot x).treeHash = r.hash
  ofRuns : InOrder s.runs → ∀ r ∈ s.runs, ∃ x ∈ projectSnapshots projectId s.w.tables,
    stampColumn "created_at" x = r.now.toInt

theorem InOrder.tail {r : StoredRun} {runs : List StoredRun} (h : InOrder (r :: runs)) :
    InOrder runs :=
  ⟨fun r' hr' => h.stored r' (List.mem_cons_of_mem _ hr'), (List.pairwise_cons.1 h.later).2⟩

section

variable {sha : Sha256} {projectId : Int64} {s : Session} {host : BuildHost}

/-- A run that does not build has found the hash stored. -/
theorem unchanged_of_not_build (h : Trustworthy sha projectId s host)
    (hplan : (cmdBuild sha projectId host s.w).1.plan.action ≠ .build) :
    Planner.unchanged (cmdBuild sha projectId host s.w).1.snapshot = true := by
  by_contra hchanged
  refine hplan ?_
  have hsupported := h.supported
  have hknown : host.info.buildSystem ≠ bytes "unknown" := by
    intro heq
    rw [heq] at hsupported
    revert hsupported
    decide +kernel
  show (Planner.decide host.info (cmdBuild sha projectId host s.w).1.snapshot).action = _
  rw [action_decide, if_neg hchanged, if_pos hknown, action_generateBuildPlan, if_pos hsupported]

/-- The hash of a run is that of an attempt, the one it makes or an earlier one. -/
theorem attempted_of_run (hkept : Kept projectId s) (h : Trustworthy sha projectId s host) :
    ∃ a ∈ (sessionStep sha projectId s (.run host)).attempts,
      a.hash = (cmdBuild sha projectId host s.w).1.snapshot.treeHash := by
  rw [sessionStep]
  dsimp only
  split
  · exact ⟨_, List.mem_cons_self, rfl⟩
  · next hplan =>
      obtain ⟨prev, hprev, hhash⟩ := exists_of_unchanged (unchanged_of_not_build h hplan)
      obtain ⟨x, hx, rfl, -⟩ := mem_of_latestSnapshot hprev
      obtain ⟨a, ha, heq⟩ := hkept.attempted x hx
      exact ⟨a, ha, heq.trans hhash⟩

/-- The step lemma. -/
theorem Kept.run (hkept : Kept projectId s) (h : Trustworthy sha projectId s host) :
    Kept projectId (sessionStep sha projectId s (.run host)) := by
  have hmore : ∀ a ∈ s.attempts, a ∈ (sessionStep sha projectId s (.run host)).attempts := by
    intro a ha
    rw [sessionStep]
    dsimp only
    split
    · exact List.mem_cons_of_mem _ ha
    · exact ha
  obtain ⟨new, hnew, hhash⟩ := attempted_of_run hkept h
  have hruns : (sessionStep sha projectId s (.run host)).runs =
      ⟨host.now, (cmdBuild sha projectId host s.w).1.snapshot.treeHash, host.recorded &&
        ((snapshotCall sha projectId host s.w).run s.w.tables).isSome⟩ :: s.runs := rfl
  rcases projectSnapshots_cmdBuild sha projectId host s.w with ⟨hstored, hrows⟩ | ⟨hstored, x, hrows, hstamp, hxhash⟩
  · have hbroken : ¬ InOrder (sessionStep sha projectId s (.run host)).runs := by
      intro horder
      have hfirst := horder.stored _ (hruns ▸ List.mem_cons_self)
      exact Bool.false_ne_true (hstored.symm.trans hfirst)
    refine ⟨fun y hy => ?_, fun horder => absurd horder hbroken, fun horder => absurd horder hbroken⟩
    obtain ⟨a, ha, heq⟩ := hkept.attempted y (hrows ▸ hy)
    exact ⟨a, hmore a ha, heq⟩
  · refine ⟨fun y hy => ?_, fun horder y hy => ?_, fun horder r hr => ?_⟩
    · replace hy : y ∈ projectSnapshots projectId (cmdBuild sha projectId host s.w).2.tables := hy
      rw [hrows] at hy
      rcases List.mem_append.1 hy with hy | hy
      · obtain ⟨a, ha, heq⟩ := hkept.attempted y hy
        exact ⟨a, hmore a ha, heq⟩
      · rw [List.mem_singleton.1 hy, hxhash]
        exact ⟨new, hnew, hhash⟩
    · replace hy : y ∈ projectSnapshots projectId (cmdBuild sha projectId host s.w).2.tables := hy
      rw [hrows] at hy
      rw [hruns] at horder ⊢
      rcases List.mem_append.1 hy with hy | hy
      · obtain ⟨r, hr, heq⟩ := hkept.fromRuns horder.tail y hy
        exact ⟨r, List.mem_cons_of_mem _ hr, heq⟩
      · rw [List.mem_singleton.1 hy]
        exact ⟨_, List.mem_cons_self, hstamp, hxhash⟩
    · show ∃ y ∈ projectSnapshots projectId (cmdBuild sha projectId host s.w).2.tables, _
      rw [hrows]
      rw [hruns] at horder hr
      rcases List.mem_cons.1 hr with rfl | hr
      · exact ⟨x, List.mem_append_right _ (List.mem_singleton.2 rfl), hstamp⟩
      · obtain ⟨y, hy, heq⟩ := hkept.ofRuns horder.tail r hr
        exact ⟨y, List.mem_append_left _ hy, heq⟩

/-- While the runs are in order, the latest snapshot is that of the last run. -/
theorem Kept.latest (hkept : Kept projectId s) (horder : InOrder s.runs) {o : RowOrder}
    {prev : Snapshot} (hprev : latestSnapshot o projectId s.w.tables = some prev) :
    ∃ r ∈ s.runs.head?, r.hash = prev.treeHash := by
  obtain ⟨x, hx, rfl, hnewest⟩ := mem_of_latestSnapshot hprev
  obtain ⟨r, hr, hstamp, hhash⟩ := hkept.fromRuns horder x hx
  cases hruns : s.runs with
  | nil =>
      rw [hruns] at hr
      cases hr
  | cons first runs =>
      refine ⟨first, rfl, ?_⟩
      rw [hruns] at hr
      rcases List.mem_cons.1 hr with rfl | hr
      · exact hhash.symm
      · -- the row of the last run would be newer
        obtain ⟨y, hy, hfirst⟩ := hkept.ofRuns horder first (hruns ▸ List.mem_cons_self)
        have hle := hnewest y hy
        have hlater := List.rel_of_pairwise_cons (hruns ▸ horder.later) hr
        rw [hstamp, hfirst] at hle
        exact absurd (Int64.lt_iff_toInt_lt.1 hlater) (not_lt.2 hle)

/-- A run that meets the condition and does not build is of a tree that was built. -/
theorem Kept.builtBefore (hkept : Kept projectId s) (h : Trustworthy sha projectId s host)
    (hdecides : DecidesNotToBuild (cmdBuild sha projectId host s.w).1) : BuiltBefore s := by
  have hunchanged : Planner.unchanged (cmdBuild sha projectId host s.w).1.snapshot = true := by
    refine unchanged_of_not_build h fun hbuild => ?_
    rcases hdecides with hskip | ⟨htest, -⟩
    · rw [hbuild] at hskip
      cases hskip
    · rw [hbuild] at htest
      cases htest
  obtain ⟨prev, hprev, hhash⟩ := exists_of_unchanged hunchanged
  obtain ⟨x, hx, hread, -⟩ := mem_of_latestSnapshot hprev
  obtain ⟨a, ha, heq⟩ := hkept.attempted x hx
  rw [hread, hhash] at heq
  obtain ⟨last, hlast⟩ := exists_lastAttempt (p := fun a =>
    a.hash = (cmdBuild sha projectId host s.w).1.snapshot.treeHash) ⟨a, ha, heq⟩
  refine ⟨last, hlast.congr h.told, ?_⟩
  rcases h.notFailed with hnot | ⟨horder, hother⟩
  · exact hnot last hlast
  · obtain ⟨r, hr, hsame⟩ := hkept.latest horder hprev
    exact absurd (hsame.trans hhash) (hother r hr)

/-- In every run of edits and builds that meet the condition, a build that is left out is
one of a tree that was built before, with success. -/
theorem builtBefore_of_reachable {start : Workplace}
    (hfresh : projectSnapshots projectId start.tables = [])
    (hreach : System.ReachableBy (sessions sha projectId start)
      (fun s e => e.Allowed sha projectId s) s) (h : Trustworthy sha projectId s host)
    (hdecides : DecidesNotToBuild (cmdBuild sha projectId host s.w).1) : BuiltBefore s := by
  have hkept : Kept projectId s := by
    have hnone : ∀ x, x ∉ projectSnapshots projectId start.tables := fun x hx => by
      rw [hfresh] at hx
      cases hx
    refine hreach.invariant ?_ fun s e s' hs hallowed hstep => ?_
    · exact ⟨fun x hx => absurd hx (hnone x), fun _ x hx => absurd hx (hnone x),
        fun _ r hr => (nomatch hr)⟩
    · cases hstep
      cases e with
      | edit tree => exact ⟨hs.attempted, hs.fromRuns, hs.ofRuns⟩
      | run host => exact hs.run hallowed
  exact hkept.builtBefore h hdecides

end

/-! ## A build twice -/

section

variable {sha : Sha256} {projectId : Int64} {host : BuildHost} {w : Workplace}

/-- A snapshot of a project that exists is stored. -/
theorem isSome_run_snapshotCall (sha : Sha256) (host : BuildHost) (hwf : (w.tables .snapshots).Wf)
    (hproject : projectId.toInt ∈ (w.tables .projects).ids) :
    ((snapshotCall sha projectId host w).run w.tables).isSome = true := by
  have hid : (snapshotCall sha projectId host w).projectId = projectId := rfl
  have href : ((snapshotCall sha projectId host w).row "project_id").references
      (w.tables .projects).ids = true := by
    rw [row_projectId, hid]
    simpa [Value.references] using hproject
  have hnames : (snapshotCall sha projectId host w).params.map Prod.fst =
      ["project_id", "tree_hash", "file_count", "total_bytes", "created_at"] := rfl
  have hbound : ∀ c ∈ snapshotSchema .snapshots, c.notNull = true →
      c.name ∈ (snapshotCall sha projectId host w).params.map Prod.fst := by
    rw [hnames]
    decide +kernel
  have hrefs : ∀ r ∈ foreignKeys (snapshotSchema .snapshots),
      ((snapshotCall sha projectId host w).row r.1).references (w.tables r.2).ids = true := by
    intro r hr
    have hkeys : foreignKeys (snapshotSchema .snapshots) = [("project_id", .projects)] := rfl
    rw [hkeys] at hr
    rw [List.mem_singleton.1 hr]
    exact href
  have hcolumns : ((snapshotSchema .snapshots).map Column.name).Nodup := by decide +kernel
  obtain ⟨id, after, heq, -⟩ :=
    (insertInto_iff hwf hcolumns hbound fun _ _ => True).2 ⟨hrefs, trivial⟩
  exact Option.isSome_iff_exists.2 ⟨_, heq⟩

/-- With one snapshot stored, of this tree, nothing has changed. -/
theorem unchanged_of_single {x : Int × Row} (hread : host.read = true)
    (hallocated : host.allocated = true)
    (hrows : projectSnapshots projectId w.tables = [x])
    (hhash : (readSnapshot x).treeHash = (cmdBuild sha projectId host w).1.snapshot.treeHash) :
    Planner.unchanged (cmdBuild sha projectId host w).1.snapshot = true := by
  have hlatest : latestSnapshot host.order projectId w.tables = some (readSnapshot x) := by
    have hsorted : newestRows host.order .snapshots "created_at" projectId w.tables = [x] := by
      have hperm := host.order.orderBy_perm (fun x => -stampColumn "created_at" x)
        (projectSnapshots projectId w.tables)
      rw [hrows] at hperm
      exact hrows ▸ List.perm_singleton.1 hperm
    rw [latestSnapshot, hsorted]
    rfl
  have hprev : (if host.read = true then latestSnapshot host.order projectId w.tables else none) =
      some (readSnapshot x) := by rw [if_pos hread, hlatest]
  have hne : (cmdBuild sha projectId host w).1.snapshot.treeHash ≠ [] := by
    show computeTreeHash sha host.allocated (scanFiles sha host.reading w.tree) ≠ []
    rw [computeTreeHash, if_pos hallocated, ne_eq, toHex_eq_nil]
    intro hnil
    have hlength := sha.length_digest
      ((scanFiles sha host.reading w.tree).flatMap FileInfo.entry)
    rw [hnil] at hlength
    cases hlength
  show Planner.unchanged (compute sha host.toSnapshotHost projectId w.tree w.tables) = true
  rw [Planner.unchanged, compute, Bool.and_eq_true, Bool.not_eq_true', decide_eq_true_iff]
  dsimp only
  rw [hprev]
  refine ⟨decide_eq_false (not_not.2 hhash.symm), ?_⟩
  show (readSnapshot x).treeHash ≠ []
  rw [hhash]
  exact hne

end

/-- A project of make, of which a build has this exit status and leaves the sources alone. -/
def makeHost (exitCode : Int) : BuildHost where
  now := 1700000000
  order := .byId
  read := true
  recorded := true
  reading := .whole
  allocated := true
  info :=
    { rootPath := bytes "/home/dev/app"
      buildSystem := bytes "make"
      testFramework := []
      hasTests := false }
  shell _ tree := (⟨exitCode, []⟩, tree)

def makeStart : Workplace := ⟨treeOf [(bytes "main.cpp", bytes "return 1;")], unsnapped oneProject⟩

/-- A session after one run. -/
def makeSession (exitCode : Int) : Session :=
  sessionStep knownSha 1 ⟨makeStart, [], []⟩ (.run (makeHost exitCode))

theorem trustworthy_makeStart (exitCode : Int) :
    Trustworthy knownSha 1 ⟨makeStart, [], []⟩ (makeHost exitCode) := by
  refine ⟨?_, fun a ha => (nomatch ha), .inl ?_⟩
  · show (Planner.commandFor Planner.buildCommands (bytes "make")).isSome = true
    decide +kernel
  · rintro a ⟨newer, older, heq, -⟩
    exact absurd heq.symm (List.append_ne_nil_of_right_ne_nil _ (List.cons_ne_nil _ _))

/-- The first run builds. -/
theorem action_makeStart (exitCode : Int) :
    (cmdBuild knownSha 1 (makeHost exitCode) makeStart).1.plan.action = .build := by
  by_contra hplan
  obtain ⟨prev, hprev, -⟩ :=
    exists_of_unchanged (unchanged_of_not_build (trustworthy_makeStart exitCode) hplan)
  obtain ⟨x, hx, -⟩ := mem_of_latestSnapshot hprev
  exact absurd hx List.not_mem_nil

theorem attempts_makeSession (exitCode : Int) : (makeSession exitCode).attempts =
    [⟨(cmdBuild knownSha 1 (makeHost exitCode) makeStart).1.snapshot.treeHash, makeStart.tree,
      exitCode = 0⟩] := by
  have hresult : (cmdBuild knownSha 1 (makeHost exitCode) makeStart).1.result.success =
      decide (exitCode = 0) := by
    show (Builder.build (makeHost exitCode).shell
      (cmdBuild knownSha 1 (makeHost exitCode) makeStart).1.plan makeStart.tree).1.success = _
    rw [build_eq_executeShell (by rw [action_makeStart]; decide) (by rw [action_makeStart]; decide)]
    rfl
  rw [makeSession, sessionStep]
  dsimp only
  rw [if_pos (action_makeStart exitCode), hresult]

theorem tree_makeSession (exitCode : Int) : (makeSession exitCode).w.tree = makeStart.tree := by
  show (Builder.build (makeHost exitCode).shell
    (cmdBuild knownSha 1 (makeHost exitCode) makeStart).1.plan makeStart.tree).2 = _
  rw [build_eq_executeShell (by rw [action_makeStart]; decide) (by rw [action_makeStart]; decide)]
  rfl

theorem treeHash_makeSession (exitCode : Int) :
    (cmdBuild knownSha 1 (makeHost exitCode) (makeSession exitCode).w).1.snapshot.treeHash =
      (cmdBuild knownSha 1 (makeHost exitCode) makeStart).1.snapshot.treeHash := by
  show computeTreeHash knownSha true (scanFiles knownSha .whole (makeSession exitCode).w.tree) = _
  rw [tree_makeSession]
  rfl

/-- The second run skips. -/
theorem action_makeSession (exitCode : Int) :
    (cmdBuild knownSha 1 (makeHost exitCode) (makeSession exitCode).w).1.plan.action = .skip := by
  have hstored : ((snapshotCall knownSha 1 (makeHost exitCode) makeStart).run
      makeStart.tables).isSome = true :=
    isSome_run_snapshotCall knownSha (makeHost exitCode) Table.wf_empty (by decide +kernel)
  have hunchanged : Planner.unchanged
      (cmdBuild knownSha 1 (makeHost exitCode) (makeSession exitCode).w).1.snapshot = true := by
    rcases projectSnapshots_cmdBuild knownSha 1 (makeHost exitCode) makeStart with ⟨hnot, -⟩ | ⟨-, x, hrows, -, hhash⟩
    · exact absurd (hnot.symm.trans hstored) Bool.false_ne_true
    · exact unchanged_of_single rfl rfl hrows (hhash.trans (treeHash_makeSession exitCode).symm)
  show (Planner.decide (makeHost exitCode).info
    (cmdBuild knownSha 1 (makeHost exitCode) (makeSession exitCode).w).1.snapshot).action = _
  rw [action_decide, if_pos hunchanged]
  rfl

/-- After a build that succeeded the second run is right to skip. -/
theorem builtBefore_of_reachable_make : DecidesNotToBuild
      (cmdBuild knownSha 1 (makeHost 0) (makeSession 0).w).1 ∧ BuiltBefore (makeSession 0) := by
  have hskip : DecidesNotToBuild (cmdBuild knownSha 1 (makeHost 0) (makeSession 0).w).1 :=
    .inl (action_makeSession 0)
  have hreach : System.ReachableBy (sessions knownSha 1 makeStart)
      (fun s e => e.Allowed knownSha 1 s) (makeSession 0) :=
    .step (e := .run (makeHost 0)) .init (trustworthy_makeStart 0) rfl
  refine ⟨hskip, builtBefore_of_reachable rfl hreach ⟨?_, fun a ha => ?_, .inl ?_⟩ hskip⟩
  · show (Planner.commandFor Planner.buildCommands (bytes "make")).isSome = true
    decide +kernel
  · rw [attempts_makeSession] at ha
    rw [List.mem_singleton.1 ha, treeHash_makeSession]
    exact ⟨fun _ _ _ => tree_makeSession 0 ▸ rfl, fun _ => rfl⟩
  · rintro a ⟨newer, older, heq, -⟩
    have hmem : a ∈ (makeSession 0).attempts := heq ▸ List.mem_append_right _ List.mem_cons_self
    rw [attempts_makeSession] at hmem
    rw [List.mem_singleton.1 hmem]
    rfl

/-- After a build that failed it skips too. -/
theorem skips_failed_build : DecidesNotToBuild
      (cmdBuild knownSha 1 (makeHost 2) (makeSession 2).w).1 ∧ ¬ BuiltBefore (makeSession 2) := by
  refine ⟨.inl (action_makeSession 2), ?_⟩
  rintro ⟨a, ⟨newer, older, heq, -⟩, hsucceeded⟩
  have hmem : a ∈ (makeSession 2).attempts := heq ▸ List.mem_append_right _ List.mem_cons_self
  rw [attempts_makeSession] at hmem
  rw [List.mem_singleton.1 hmem] at hsucceeded
  exact absurd hsucceeded (by decide)

end Nazg.Brain
