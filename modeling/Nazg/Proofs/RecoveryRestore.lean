import Nazg.Brain.Recovery
import Nazg.Proofs.PatternCounts
import Nazg.Proofs.RestoreRoundTrip

/-!
# Which suggested restores work

A suggestion carries the snapshot it is about as a string, and executing it is a restore of
that snapshot. For `RESTORE_SNAPSHOT` this is a full restore, which succeeds if the snapshot
is intact and the disk has no faults. For `RESTORE_FILES` it is a partial restore without
paths, which every restore refuses.
-/

namespace Nazg.Workspace.Project

open Lib Lib.Sqlite

/-! ## A restore on a disk without faults -/

section

variable {disk : FileTree.Disk} {root : Bytes} {id : Int} {dryRun : Bool} {t : FileTree}

/-- What a turn of the restore loop does away from its target. -/
theorem get_restoreFile_cases (disk : FileTree.Disk) (root : Bytes) (id : Int) (dryRun : Bool)
    (t : FileTree) {p q : Bytes} (hq : q ≠ p) :
    (restoreFile disk root id dryRun p t).2.get q = t.get q ∨
      q ∈ ancestors p ∧ (restoreFile disk root id dryRun p t).2.get q = some .dir := by
  rw [restoreFile]
  split
  · exact .inl rfl
  · split
    · exact .inl rfl
    · have hdirs := FileTree.get_makeDirs_cases disk (ancestors p) t q
      split
      · next h =>
          rw [h] at hdirs
          exact hdirs
      · next s h =>
          rw [h] at hdirs
          have hcopy : (s.copyFile disk (storagePath id p) p).2.get q = s.get q :=
            FileTree.get_copyFile_of_ne hq
          split
          · next h' =>
              rw [h'] at hcopy
              rw [hcopy]
              exact hdirs
          · next h' =>
              rw [h'] at hcopy
              rw [hcopy]
              exact hdirs

/-- A turn that leaves room for the others. -/
theorem Room.restoreFile {p q : Bytes} (h : t.Room q) (hne : q ≠ p) (hpq : p ∉ ancestors q)
    (hqp : q ∉ ancestors p) : (restoreFile disk root id dryRun p t).2.Room q := by
  refine ⟨fun d hd => ?_, ?_, h.nulFree⟩
  · have hdp : d ≠ p := fun heq => hpq (heq ▸ hd)
    rcases get_restoreFile_cases disk root id dryRun t hdp with heq | ⟨-, heq⟩
    · rw [heq]
      exact h.dirs d hd
    · exact .inr heq
  · rcases get_restoreFile_cases disk root id dryRun t hne with heq | ⟨hmem, -⟩
    · rw [heq]
      exact h.notDir
    · exact absurd hmem hqp

theorem restoreFile_ok {p : Bytes} (hmkdir : ∀ d, disk.mkdirFails d = false)
    (hcopies : ∀ p, disk.copyFails p = none) (hroom : t.Room p)
    (hcopy : (t.content (storagePath id p)).isSome = true) :
    (restoreFile disk root id false p t).1 = none := by
  obtain ⟨content, hcontent⟩ := Option.isSome_iff_exists.1 hcopy
  obtain ⟨hok, hdirs, hnotDir⟩ := hroom.makeDirs disk hmkdir
  have hexists : t.get (storagePath id p) ≠ none := by
    rw [FileTree.content_eq_some.1 hcontent]
    exact Option.some_ne_none _
  have hkept : (t.makeDirs disk (ancestors p)).2.content (storagePath id p) = some content := by
    rw [FileTree.content_makeDirs, hcontent]
  rw [restoreFile, if_neg hexists, if_neg Bool.false_ne_true]
  generalize t.makeDirs disk (ancestors p) = made at hok hdirs hnotDir hkept
  obtain ⟨b, s⟩ := made
  obtain rfl : b = true := hok
  have hcopied := FileTree.copyFile_ok (hcopies p) hkept hdirs hnotDir hroom.nulFree
  dsimp only at hcopied ⊢
  split
  · next h =>
      rw [h] at hcopied
      cases hcopied
  · rfl

/-- If no path is a directory of another one, every turn of the loop succeeds. -/
theorem restoreFiles_ok {ps : List Bytes} (hmkdir : ∀ d, disk.mkdirFails d = false)
    (hcopies : ∀ p, disk.copyFails p = none) (hnodup : ps.Nodup)
    (hdots : ∀ p ∈ ps, p.head? ≠ some 46) (hapart : ∀ p ∈ ps, ∀ q ∈ ps, p ∉ ancestors q)
    (hroom : ∀ p ∈ ps, t.Room p)
    (hcopy : ∀ p ∈ ps, (t.content (storagePath id p)).isSome = true) :
    ∀ turn ∈ (restoreFiles disk root id false ps t).1, turn.2 = none := by
  induction ps generalizing t with
  | nil => exact fun _ hturn => (nomatch hturn)
  | cons p ps ih =>
      rw [List.nodup_cons] at hnodup
      intro turn hturn
      rw [restoreFiles] at hturn
      rcases List.mem_cons.1 hturn with rfl | hturn
      · exact restoreFile_ok hmkdir hcopies (hroom p List.mem_cons_self)
          (hcopy p List.mem_cons_self)
      · have hrest := fun q (hq : q ∈ ps) => List.mem_cons_of_mem p hq
        refine ih hnodup.2 (fun q hq => hdots q (hrest q hq))
          (fun q hq r hr => hapart q (hrest q hq) r (hrest r hr)) (fun q hq => ?_) (fun q hq => ?_)
          turn hturn
        · exact Room.restoreFile (hroom q (hrest q hq)) (fun heq => hnodup.1 (heq ▸ hq))
            (hapart p List.mem_cons_self q (hrest q hq)) (hapart q (hrest q hq) p List.mem_cons_self)
        · rw [content_restoreFile_of_ne]
          · exact hcopy q (hrest q hq)
          · exact (ne_storagePath (hdots p List.mem_cons_self)).symm

end

/-- A snapshot of the project that is complete on disk. -/
structure Intact (w : Project) (id : Int) : Prop where
  snapshot : w.snapshots.get? id = some w.projectId
  dir : w.tree.get (storageDir id) = some .dir
  copies : ∀ f ∈ getWorkspaceFiles id w.files,
    (w.tree.content (storagePath id f.path)).isSome = true

/-- The file operations of a restore succeed. -/
structure Succeeds (w : Project) (host : RestoreHost) (id : Int) : Prop where
  mkdirs : ∀ d, host.disk.mkdirFails d = false
  copies : ∀ p, host.disk.copyFails p = none
  room : ∀ f ∈ getWorkspaceFiles id w.files, w.tree.Room f.path

/-- Every file of the snapshot has the content of its copy. -/
def HasCopies (w : Project) (id : Int) (t : FileTree) : Prop :=
  ∀ f ∈ getWorkspaceFiles id w.files, t.content f.path = w.tree.content (storagePath id f.path)

section

variable {w : Project} {host : RestoreHost} {id : Int} {o : RestoreOptions}

theorem head?_of_mem_getWorkspaceFiles {f : WorkspaceFile}
    (hf : f ∈ getWorkspaceFiles id w.files) : f.path.head? ≠ some 46 := by
  rw [getWorkspaceFiles, (List.mergeSort_perm _ _).mem_iff] at hf
  obtain ⟨r, hr, rfl⟩ := List.mem_map.1 hf
  exact head?_of_skips (w.recorded r (List.mem_of_mem_filter hr)).1

/-- No recorded file is a directory of another: their copies are files. -/
theorem Intact.apart (h : w.Intact id) {f g : WorkspaceFile}
    (hf : f ∈ getWorkspaceFiles id w.files) (hg : g ∈ getWorkspaceFiles id w.files) :
    f.path ∉ ancestors g.path := by
  intro hmem
  obtain ⟨content, hcontent⟩ := Option.isSome_iff_exists.1 (h.copies f hf)
  obtain ⟨other, hother⟩ := Option.isSome_iff_exists.1 (h.copies g hg)
  have hkey : storagePath id g.path ∈ w.tree.nodes.keys :=
    OrdMap.mem_keys.2 ⟨_, FileTree.content_eq_some.1 hother⟩
  have hdir : storagePath id f.path ∈ ancestors (storagePath id g.path) := by
    rw [mem_ancestors] at hmem ⊢
    obtain ⟨rest, hrest⟩ := hmem
    refine ⟨rest, ?_⟩
    rw [storagePath, storagePath, ← hrest]
    simp only [List.append_assoc, List.cons_append]
  have hget := w.tree.closed _ hkey _ hdir
  have hfile : w.tree.get (storagePath id f.path) = some (.file content) :=
    FileTree.content_eq_some.1 hcontent
  rw [FileTree.get, hget] at hfile
  cases hfile

/-- A full restore of an intact snapshot reports success, and brings back what it reads. -/
theorem Intact.restore (h : w.Intact id) (hsucceeds : w.Succeeds host id) (hfull : Full o) :
    (w.restore w.projectId id o host).1.success = true ∧
      (w.HasCopies id (w.restore w.projectId id o host).2.tree ↔
        host.filesRead = true ∨ w.HasCopies id w.tree) := by
  obtain ⟨hafter, hsuccess⟩ := restore_full host hfull h.snapshot h.dir
  by_cases hread : host.filesRead = true
  · have hpaths : ∀ p, p ∈ restorePaths o ((w.filesRead host id).map WorkspaceFile.path) ↔
        ∃ f ∈ getWorkspaceFiles id w.files, f.path = p := by
      intro p
      rw [hfull.mem_restorePaths, filesRead, if_pos hread, List.mem_map]
    have hdots : ∀ p ∈ restorePaths o ((w.filesRead host id).map WorkspaceFile.path),
        p.head? ≠ some 46 := by
      intro p hp
      obtain ⟨f, hf, rfl⟩ := (hpaths p).1 hp
      exact head?_of_mem_getWorkspaceFiles hf
    have hturns : ∀ turn ∈ (w.fullTurns o host id).1, turn.2 = none := by
      refine restoreFiles_ok hsucceeds.mkdirs hsucceeds.copies (nodup_restorePaths _ _) hdots
        (fun p hp q hq => ?_) (fun p hp => ?_) (fun p hp => ?_)
      · obtain ⟨f, hf, rfl⟩ := (hpaths p).1 hp
        obtain ⟨g, hg, rfl⟩ := (hpaths q).1 hq
        exact h.apart hf hg
      · obtain ⟨f, hf, rfl⟩ := (hpaths p).1 hp
        exact hsucceeds.room f hf
      · obtain ⟨f, hf, rfl⟩ := (hpaths p).1 hp
        exact h.copies f hf
    refine ⟨hsuccess.2 hturns, ⟨fun _ => .inl hread, fun _ f hf => ?_⟩⟩
    rw [hafter]
    exact content_restoreFiles (nodup_restorePaths _ _) hdots hturns ((hpaths _).2 ⟨f, hf, rfl⟩)
  · have hturns := fullTurns_unread w id hfull (by simpa using hread)
    refine ⟨hsuccess.2 ?_, ?_⟩
    · rw [hturns]
      intro turn hturn
      exact absurd hturn List.not_mem_nil
    · rw [hafter, hturns]
      exact ⟨.inr, fun hor => hor.resolve_left hread⟩

/-- A partial restore without paths is refused. -/
theorem restore_partial {projectId : Int64} :
    (w.restore projectId id { restoreType := bytes "partial" } host).1.success = false := by
  have hmode : RestoreOptions.mode { restoreType := bytes "partial" } =
      .error (bytes "Partial restore requires at least one --include/--only path") := rfl
  rw [restore, hmode]
  split
  · rfl
  · split
    · rfl
    · split
      · rfl
      · split
        · rfl
        · rfl

end

end Nazg.Workspace.Project

namespace Nazg.Brain

open Lib Lib.Sqlite Nexus Workspace

/-! ## What is suggested -/

theorem exists_of_mem_mapM {α β : Type} {f : α → Option β} {l : List α} {bs : List β}
    (h : l.mapM f = some bs) : ∀ b ∈ bs, ∃ a ∈ l, f a = some b := by
  induction l generalizing bs with
  | nil =>
      rw [List.mapM_nil] at h
      cases h
      exact fun _ hb => (nomatch hb)
  | cons x l ih =>
      rw [List.mapM_cons] at h
      obtain ⟨y, hy, h⟩ := Option.bind_eq_some_iff.1 h
      obtain ⟨ys, hys, h⟩ := Option.bind_eq_some_iff.1 h
      cases h
      intro b hb
      rcases List.mem_cons.1 hb with rfl | hb
      · exact ⟨x, List.mem_cons_self, hy⟩
      · obtain ⟨a, ha, hab⟩ := ih hys b hb
        exact ⟨a, List.mem_cons_of_mem _ ha, hab⟩

/-- The snapshot that an action is about. -/
def RecoveryAction.Names {Score : Type} (a : RecoveryAction Score) (id : Int) : Prop :=
  ∃ value, a.params.find? (bytes "snapshot_id") = some value ∧ stoll value = some id

theorem snapshotParams_find? (id : Int) :
    (snapshotParams id).find? (bytes "snapshot_id") = some (decimal id) := by
  rw [snapshotParams, OrdMap.find?_insert, if_pos rfl]

section

variable {d : Scores} {host : SuggestHost} {db : RecoveryDb d}

/-- An action that is stored, or one that is no restore, or one that names a snapshot. -/
def Sound (a : RecoveryAction d.Score) : Prop :=
  0 < a.id ∨ a.type ≠ .restoreFiles ∧ a.type ≠ .restoreSnapshot ∨ ∃ id, a.Names id

theorem sound_of_params {a : RecoveryAction d.Score} {id : Int} (hpos : 0 < id)
    (hlt : id < 2 ^ 63) (hparams : a.params = snapshotParams id) : Sound a := by
  refine .inr (.inr ⟨id, decimal id, ?_, ?_⟩)
  · rw [hparams, snapshotParams_find?]
  · exact parseInteger_decimal (by omega) (by omega)

/-- The snapshots of a failure have ids of 64 bits. -/
theorem snapshotIds_lt {failureId : Int} {f : FailureMap}
    (h : getFailure failureId db.failures = some f) :
    f.beforeSnapshotId < 2 ^ 63 ∧ f.resolutionSnapshotId < 2 ^ 63 := by
  obtain ⟨row, hrow, rfl⟩ := Option.map_eq_some_iff.1 h
  have hmem : row ∈ db.failures.data :=
    List.mem_map.2 ⟨_, Table.mem_of_get? hrow, rfl⟩
  have hlt := db.integers row hmem
  constructor
  · show row.beforeSnapshotId.getD 0 < 2 ^ 63
    cases hid : row.beforeSnapshotId with
    | none => decide
    | some id => exact hlt id (.inl hid)
  · show row.resolutionSnapshotId.getD 0 < 2 ^ 63
    cases hid : row.resolutionSnapshotId with
    | none => decide
    | some id => exact hlt id (.inr hid)

theorem getRelated_eq_some {failureId : Int} {f : FailureMap}
    (h : getRelated d host failureId db = some f) : getFailure failureId db.failures = some f := by
  rw [getRelated] at h
  split at h
  · exact h
  · cases h

theorem id_of_parseAction {row : RecoveryActionMap d.Score} {a : RecoveryAction d.Score}
    (h : parseAction d row = some a) : a.id = row.id := by
  rw [parseAction] at h
  split at h
  · cases h
    rfl
  · cases h

/-- Stored actions have an id. -/
theorem sound_of_getActionsForPattern {patternId : Int} {as : List (RecoveryAction d.Score)}
    (h : getActionsForPattern d host patternId db = some as) : ∀ a ∈ as, Sound a := by
  intro a ha
  obtain ⟨row, hrow, hparse⟩ := exists_of_mem_mapM h a ha
  split at hrow
  · obtain ⟨x, hx, rfl⟩ := List.mem_map.1 hrow
    have hmem := (List.mem_filter.1 ((host.order.orderBy_perm _ _).mem_iff.1 hx)).1
    refine .inl ?_
    rw [id_of_parseAction hparse]
    exact db.actionsWf.pos _ (Table.mem_ids hmem)
  · cases hrow

theorem sound_of_restoreThatResolved {occurrences failureId : Int} {f : FailureMap}
    {a : RecoveryAction d.Score} (hf : getFailure failureId db.failures = some f)
    (h : restoreThatResolved d occurrences f = some a) : Sound a := by
  rw [restoreThatResolved] at h
  split at h
  · next hresolved =>
      cases h
      exact sound_of_params hresolved.2.2 (snapshotIds_lt hf).2 rfl
  · cases h

theorem sound_of_generateFromPattern {patternId : Int} {as : List (RecoveryAction d.Score)}
    (h : generateFromPattern d host patternId db = some as) : ∀ a ∈ as, Sound a := by
  rw [generateFromPattern] at h
  split at h
  · cases h
  · next hstored =>
      cases h
      exact sound_of_getActionsForPattern hstored
  · dsimp only at h
    split at h
    · cases h
      exact fun a ha => (nomatch ha)
    · cases h
    · cases h
      intro a ha
      obtain ⟨id, -, hid⟩ := List.exists_of_findSome?_eq_some (Option.mem_toList.1 ha)
      obtain ⟨f, hf, hrestore⟩ := Option.bind_eq_some_iff.1 hid
      exact sound_of_restoreThatResolved (getRelated_eq_some hf) hrestore

theorem sound_of_generateFromSimilarFailures {projectId : Int64} {signature message : Bytes} :
    ∀ a ∈ generateFromSimilarFailures d host projectId signature message db, Sound a := by
  intro a ha
  obtain ⟨sim, -, hsim⟩ := List.mem_filterMap.1 ha
  split at hsim
  · obtain ⟨f, hf, hrestore⟩ := Option.bind_eq_some_iff.1 hsim
    split at hrestore
    · next hpos =>
        cases hrestore
        exact sound_of_params hpos (snapshotIds_lt (getRelated_eq_some hf)).2 rfl
    · cases hrestore
  · cases hsim

theorem sound_of_generateGenericSuggestions {failureId : Int} {f : FailureMap}
    (hf : getFailure failureId db.failures = some f) :
    ∀ a ∈ generateGenericSuggestions d f, Sound a := by
  have hlt := (snapshotIds_lt hf).1
  intro a ha
  rcases List.mem_append.1 ha with ha | ha
  · split at ha
    · rcases List.mem_cons.1 ha with rfl | ha
      · exact .inr (.inl ⟨nofun, nofun⟩)
      · split at ha
        · next hlinker =>
            rw [List.mem_singleton.1 ha]
            exact sound_of_params hlinker.2 hlt rfl
        · cases ha
    · cases ha
  · split at ha
    · next htest =>
        rw [List.mem_singleton.1 ha]
        exact sound_of_params htest.2 hlt rfl
    · cases ha

theorem sound_of_suggestRecovery {engine : RegexEngine} {projectId : Int64}
    {failureId maxSuggestions : Int} {as : List (RecoveryAction d.Score)}
    (h : suggestRecovery d host engine projectId failureId maxSuggestions db = some as) :
    ∀ a ∈ as, Sound a := by
  rw [suggestRecovery] at h
  split at h
  · cases h
    exact fun a ha => (nomatch ha)
  · next f hread =>
      have hf : getFailure failureId db.failures = some f := by
        split at hread
        · exact hread
        · cases hread
      obtain ⟨ofPatterns, hpatterns, rfl⟩ := Option.map_eq_some_iff.1 h
      obtain ⟨patterns, -, hall⟩ := Option.bind_eq_some_iff.1 hpatterns
      obtain ⟨lists, hlists, rfl⟩ := Option.map_eq_some_iff.1 hall
      intro a ha
      have hmem : a ∈ lists.flatten ++ generateFromSimilarFailures d host projectId
          f.errorSignature f.errorMessage db ++ generateGenericSuggestions d f := by
        refine (host.ties.orderBy_perm
          (fun a : RecoveryAction d.Score => OrderDual.toDual a.confidenceScore) _).mem_iff.1 ?_
        dsimp only at ha
        split at ha
        · exact ha
        · exact List.mem_of_mem_take ha
      rcases List.mem_append.1 hmem with hmem | hmem
      · rcases List.mem_append.1 hmem with hmem | hmem
        · obtain ⟨as, has, ha⟩ := List.mem_flatten.1 hmem
          obtain ⟨p, -, hp⟩ := exists_of_mem_mapM hlists as has
          exact sound_of_generateFromPattern hp a ha
        · exact sound_of_generateFromSimilarFailures a hmem
      · exact sound_of_generateGenericSuggestions hf a hmem

end

/-! ## What comes of it -/

/-- Executing the action reports success, and every file of the snapshot has the content of
its copy. -/
def RestoreWorks {Score : Type} (host : ExecuteHost) (a : RecoveryAction Score) (w : Project) :
    Prop :=
  ∃ r w', executeRecovery host w.projectId a false w = some (r, w') ∧ r.success = true ∧
    ∀ id, a.Names id → w.HasCopies id w'.tree

section

variable {Score : Type} {host : ExecuteHost} {manager : Project.RestoreHost}
  {a : RecoveryAction Score} {w : Project}

theorem names_iff {id : Int} {value : Bytes}
    (h : a.params.find? (bytes "snapshot_id") = some value) : a.Names id ↔ stoll value = some id := by
  constructor
  · rintro ⟨value', hvalue, hid⟩
    rw [h] at hvalue
    cases hvalue
    exact hid
  · exact fun hid => ⟨value, h, hid⟩

/-- A restore of files does not succeed. -/
theorem not_restoreWorks_of_restoreFiles (htype : a.type = .restoreFiles) :
    ¬ RestoreWorks host a w := by
  rintro ⟨r, w', hrun, hsuccess, -⟩
  rw [executeRecovery, if_neg Bool.false_ne_true, htype] at hrun
  simp only [executeRestoreFiles, executeRestore] at hrun
  split at hrun
  · cases hrun
    cases hsuccess
  · split at hrun
    · cases hrun
      cases hsuccess
    · obtain ⟨id, -, hrestore⟩ := Option.map_eq_some_iff.1 hrun
      cases hrestore
      rw [Project.restore_partial] at hsuccess
      cases hsuccess

theorem executeRestore_eq {restoreType value : Bytes} {id : Int}
    {report : Int → Project.RestoreResult → List Bytes × Bytes} {projectId : Int64}
    (hmanager : host.manager = some manager)
    (hparam : a.params.find? (bytes "snapshot_id") = some value) (hid : stoll value = some id) :
    executeRestore host projectId restoreType report a w =
      let restored := w.restore projectId id { restoreType := restoreType } manager
      some (⟨restored.1.success, (report id restored.1).2, (report id restored.1).1,
        restored.1.errors⟩, restored.2) := by
  rw [executeRestore, hmanager]
  dsimp only
  rw [hparam]
  dsimp only
  rw [hid]
  rfl

theorem restoreWorks_of_restoreSnapshot (htype : a.type = .restoreSnapshot)
    (hmanager : host.manager = some manager)
    (hintact : ∀ id, a.Names id → w.Intact id ∧ w.Succeeds manager id) :
    RestoreWorks host a w ↔ (∃ id, a.Names id) ∧
      ∀ id, a.Names id → manager.filesRead = true ∨ w.HasCopies id w.tree := by
  have hrun : executeRecovery host w.projectId a false w =
      executeRestoreSnapshot host w.projectId a w := by
    rw [executeRecovery, if_neg Bool.false_ne_true, htype]
  constructor
  · rintro ⟨r, w', heq, hsuccess, hcopies⟩
    rw [hrun, executeRestoreSnapshot] at heq
    cases hparam : a.params.find? (bytes "snapshot_id") with
    | none =>
        rw [executeRestore, hmanager] at heq
        dsimp only at heq
        rw [hparam] at heq
        cases heq
        cases hsuccess
    | some value =>
        cases hid : stoll value with
        | none =>
            rw [executeRestore, hmanager] at heq
            dsimp only at heq
            rw [hparam] at heq
            dsimp only at heq
            rw [hid] at heq
            cases heq
        | some id =>
            have hnames : a.Names id := (names_iff hparam).2 hid
            refine ⟨⟨id, hnames⟩, fun id' hnames' => ?_⟩
            have hsame : id' = id :=
              Option.some.inj (((names_iff hparam).1 hnames').symm.trans hid)
            rw [executeRestore_eq hmanager hparam hid] at heq
            cases heq
            rw [hsame]
            obtain ⟨hintact, hsucceeds⟩ := hintact id hnames
            exact (hintact.restore hsucceeds Project.full_fullRestore).2.1 (hcopies id hnames)
  · rintro ⟨⟨id, value, hparam, hid⟩, hfiles⟩
    have hnames : a.Names id := ⟨value, hparam, hid⟩
    obtain ⟨hintact, hsucceeds⟩ := hintact id hnames
    obtain ⟨hsuccess, hcopies⟩ := hintact.restore hsucceeds Project.full_fullRestore
    refine ⟨_, _, hrun.trans (executeRestore_eq hmanager hparam hid), hsuccess,
      fun id' hnames' => ?_⟩
    have hsame : id' = id := Option.some.inj (((names_iff hparam).1 hnames').symm.trans hid)
    rw [hsame]
    exact hcopies.2 (hfiles id hnames)

end

/-- A suggested restore of intact snapshots works exactly if it is one of the whole snapshot,
which it names (one that is not stored does), and the restore can read the records of the
files or finds every file as it was. -/
theorem restoreWorks_iff {d : Scores} {suggest : SuggestHost} {db : RecoveryDb d}
    {engine : RegexEngine} {failureId maxSuggestions : Int} {as : List (RecoveryAction d.Score)}
    {a : RecoveryAction d.Score} {host : ExecuteHost} {manager : Project.RestoreHost} {w : Project}
    (hsuggested : suggestRecovery d suggest engine w.projectId failureId maxSuggestions db = some as)
    (ha : a ∈ as) (hrestore : a.type = .restoreFiles ∨ a.type = .restoreSnapshot)
    (hmanager : host.manager = some manager)
    (hintact : ∀ id, a.Names id → w.Intact id ∧ w.Succeeds manager id) :
    RestoreWorks host a w ↔ a.type = .restoreSnapshot ∧ (0 < a.id → ∃ id, a.Names id) ∧
      ∀ id, a.Names id → manager.filesRead = true ∨ w.HasCopies id w.tree := by
  have hsound := sound_of_suggestRecovery hsuggested a ha
  rcases hrestore with htype | htype
  · have hother : a.type ≠ .restoreSnapshot := by
      rw [htype]
      exact nofun
    exact ⟨fun h => absurd h (not_restoreWorks_of_restoreFiles htype), fun h => absurd h.1 hother⟩
  · rw [restoreWorks_of_restoreSnapshot htype hmanager hintact]
    constructor
    · exact fun ⟨hnames, hfiles⟩ => ⟨htype, fun _ => hnames, hfiles⟩
    · rintro ⟨-, hnames, hfiles⟩
      refine ⟨?_, hfiles⟩
      rcases hsound with hpos | ⟨-, hne⟩ | hid
      · exact hnames hpos
      · exact absurd htype hne
      · exact hid

/-! ## Two failures with a snapshot -/

/-- Without patterns and resolutions the suggestions are those for the type of the failure. -/
theorem suggestRecovery_generic {d : Scores} (host : SuggestHost) (db : RecoveryDb d)
    (engine : RegexEngine) (projectId : Int64) {failureId : Int} {f : FailureMap}
    (hread : host.failureRead = true) (hf : getFailure failureId db.failures = some f)
    (hpatterns : db.patterns.table.rows = [])
    (hunresolved : ∀ x ∈ db.failures.rows, x.2.resolved = false) :
    ∃ as, suggestRecovery d host engine projectId failureId 5 db = some as ∧
      ∀ a, a ∈ as ↔ a ∈ generateGenericSuggestions d f := by
  have hsimilar : generateFromSimilarFailures d host projectId f.errorSignature f.errorMessage db =
      [] := by
    refine List.filterMap_eq_nil_iff.2 fun sim hsim => if_neg fun hresolved => ?_
    obtain ⟨row, hrow, -, heq⟩ := mem_findSimilarFailures hsim
    rw [hunresolved _ hrow] at heq
    exact Bool.false_ne_true (heq.symm.trans hresolved.1)
  have hlength : (generateGenericSuggestions d f).length ≤ 5 := by
    rw [generateGenericSuggestions]
    dsimp only
    split <;> split <;> (try split) <;> simp
  have hperm := host.ties.orderBy_perm
    (fun a : RecoveryAction d.Score => OrderDual.toDual a.confidenceScore)
    (generateGenericSuggestions d f)
  refine ⟨_, ?_, fun a => hperm.mem_iff⟩
  rw [suggestRecovery, if_pos hread, hf]
  dsimp only
  rw [findMatchingPatterns_of_empty hpatterns, Option.bind_some]
  show some (if (5 : Int) < 0 then _ else _) = _
  rw [hsimilar, if_neg (by decide), List.take_of_length_le]
  · rfl
  · exact hperm.length_eq.trans_le hlength

/-- Exact arithmetic for the confidences. -/
def exactScores : Scores where
  toDoubles := exactDoubles
  tenths n := (n / 10 : Rat)
  discount := fun x : Rat => (8 / 10 * x : Rat)
  ofOccurrences n := (min (1 / 2 + (n : Rat) / 10) (9 / 10) : Rat)
  reread x := x

/-- Every query succeeds. -/
def suggestHost : SuggestHost where
  order := .byId
  ties := .byId
  failureRead := true
  relatedRead _ := true
  patternsRead := true
  similarRead := true
  actionsRead _ := true
  patternRead _ := true

def failureWith (type message : Bytes) : FailureRow :=
  failureRow 1700000000 1 ⟨type, message, 1⟩

/-- A store with one failure that has a snapshot from before it. -/
def oneFailure (type message : Bytes) : RecoveryDb exactScores where
  failures := Table.empty.insertRow (failureWith type message)
  patterns := emptyDb.patterns
  failuresWf := Table.wf_empty.insertRow _
  actions := .empty
  actionsWf := Table.wf_empty
  integers := by
    intro r hr id hid
    obtain rfl : r = failureWith type message := List.mem_singleton.1 hr
    rcases hid with hid | hid
    · cases hid
      show (1 : Int) < 2 ^ 63
      decide
    · cases hid

/-- The file was edited since the snapshot. -/
def editedProject : Project := { Project.baseline with tree := Project.edited }

theorem intact_editedProject : editedProject.Intact 1 ∧
    editedProject.Succeeds (Project.restoreHost true) 1 := by
  have hcreate : Project.oneFile.createSnapshot {} Project.createHost =
      (some ⟨1, true⟩, Project.baseline) := Prod.ext (by decide +kernel) rfl
  have hfiles := (Project.complete_of_createSnapshot hcreate rfl).files
  have hcopies : ∀ f ∈ Project.oneFile.found {} Project.createHost,
      (Project.edited.content (Project.storagePath 1 f.path)).isSome = true := by
    decide +kernel
  have hroom : ∀ f ∈ Project.oneFile.found {} Project.createHost,
      (∀ p ∈ ancestors f.path, Project.edited.get p = none ∨ Project.edited.get p = some .dir) ∧
        Project.edited.get f.path ≠ some .dir ∧ (0 : UInt8) ∉ f.path := by
    decide +kernel
  refine ⟨⟨by decide +kernel, by decide +kernel, fun f hf => hcopies f ((hfiles f).1 hf)⟩,
    ⟨fun _ => rfl, fun _ => rfl, fun f hf => ?_⟩⟩
  obtain ⟨hdirs, hnotDir, hnul⟩ := hroom f ((hfiles f).1 hf)
  exact ⟨hdirs, hnotDir, hnul⟩

/-- The snapshot of the failure is the one it names. -/
theorem eq_one_of_names {Score : Type} {a : RecoveryAction Score}
    (h : a.params = snapshotParams 1) {id : Int} (hnames : a.Names id) : id = 1 := by
  have hparam : a.params.find? (bytes "snapshot_id") = some (decimal 1) := by
    rw [h, snapshotParams_find?]
  have hone : stoll (decimal 1) = some 1 := by decide +kernel
  exact Option.some.inj (((names_iff hparam).1 hnames).symm.trans hone)

def executeHost : ExecuteHost := ⟨some (Project.restoreHost true), none⟩

/-- The restore that is suggested for a failed test works. -/
theorem restoreWorks_iff_test : ∃ as, suggestRecovery exactScores suggestHost plainEngine 1 1 5
      (oneFailure (bytes "test") (bytes "expected 1")) = some as ∧
    ∃ a ∈ as, RestoreWorks executeHost a editedProject := by
  obtain ⟨as, has, hmem⟩ := suggestRecovery_generic suggestHost
    (oneFailure (bytes "test") (bytes "expected 1")) plainEngine 1 rfl
    (rfl : getFailure 1 _ = some _) rfl (by decide +kernel)
  refine ⟨as, has, { createRestoreSnapshotAction exactScores 1
    (bytes "Restore to last known passing state") with confidenceScore := exactScores.tenths 6 },
    (hmem _).2 (List.mem_singleton.2 rfl), ?_⟩
  refine (restoreWorks_iff has ((hmem _).2 (List.mem_singleton.2 rfl)) (.inr rfl) rfl
    fun id hid => ?_).2 ⟨rfl, fun h => absurd h (by decide), fun _ _ => .inl rfl⟩
  rw [eq_one_of_names rfl hid]
  exact intact_editedProject

/-- The restore that is suggested for a failed link does not. -/
theorem link_not_restoreWorks : ∃ as, suggestRecovery exactScores suggestHost plainEngine 1 1 5
      (oneFailure (bytes "build") (bytes "undefined reference to f")) = some as ∧
    ∃ a ∈ as, a.type = .restoreFiles ∧ a.Names 1 ∧
      (∀ id, a.Names id → editedProject.Intact id ∧
        editedProject.Succeeds (Project.restoreHost true) id) ∧
      ¬ RestoreWorks executeHost a editedProject := by
  obtain ⟨as, has, hmem⟩ := suggestRecovery_generic suggestHost
    (oneFailure (bytes "build") (bytes "undefined reference to f")) plainEngine 1 rfl
    (rfl : getFailure 1 _ = some _) rfl (by decide +kernel)
  refine ⟨as, has, { createRestoreFilesAction exactScores 1
    (bytes "Restore dependencies from last successful build") with
      confidenceScore := exactScores.tenths 5 }, (hmem _).2 ?_, rfl, ?_, fun id hid => ?_,
    not_restoreWorks_of_restoreFiles rfl⟩
  · exact List.mem_cons_of_mem _ (List.mem_singleton.2 rfl)
  · exact ⟨decimal 1, snapshotParams_find? 1, by decide +kernel⟩
  · rw [eq_one_of_names rfl hid]
    exact intact_editedProject

end Nazg.Brain
