import Nazg.Proofs.Restoring

/-!
# Snapshot and restore

A full restore brings back every file that its snapshot recorded, leaves the rest alone,
and reports success exactly if no file failed, whatever happened to the workspace outside
`.nazg` in between. All this is about the files it reads from the store. When they cannot
be read it goes over no files at all and reports success.
-/

namespace Nazg.Workspace

open Lib Lib.Sqlite

/-- Two trees that agree below `.nazg`. -/
def SameStore (t t' : FileTree) : Prop := ∀ p, bytes ".nazg/" <+: p → t.get p = t'.get p

namespace Project

theorem prefix_storageDir (id : Int) : bytes ".nazg/" <+: storageDir id :=
  ⟨bytes "workspace/snapshots/" ++ decimal id, by
    rw [storageDir, ← List.append_assoc]
    rfl⟩

theorem prefix_storagePath (id : Int) (path : Bytes) : bytes ".nazg/" <+: storagePath id path :=
  (prefix_storageDir id).trans (List.prefix_append _ _)

/-- `makeDirs` that goes through leaves directories. -/
theorem get_of_makeDirs {disk : FileTree.Disk} {ds : List Bytes} {t s : FileTree}
    (h : t.makeDirs disk ds = (true, s)) : ∀ d ∈ ds, s.get d = some .dir := by
  induction ds generalizing t with
  | nil => exact fun _ hd => (nomatch hd)
  | cons e ds ih =>
      rw [FileTree.makeDirs] at h
      have hkept : ∀ {u : FileTree}, u.get e = some .dir → u.makeDirs disk ds = (true, s) →
          ∀ d ∈ e :: ds, s.get d = some .dir := by
        intro u hdir hrest d hd
        rcases List.mem_cons.1 hd with rfl | hd
        · have hget := FileTree.get_makeDirs disk ds hdir
          rw [hrest] at hget
          exact hget
        · exact ih hrest d hd
      split at h
      · next hdir => exact hkept hdir h
      · cases h
      · split at h
        · cases h
        · split at h
          · cases h
          · next u hput =>
              refine hkept ?_ h
              rw [FileTree.get_put hput, if_pos rfl]

section

variable {w w₁ : Project} {opts : SnapshotOptions} {host : CreateHost} {c : Created}

/-- What a snapshot has when every file was copied. -/
structure Complete (w w₁ : Project) (found : List WorkspaceFile) (id : Int) : Prop where
  snapshot : w₁.snapshots.get? id = some w.projectId
  project : w₁.projectId = w.projectId
  files : ∀ f, f ∈ getWorkspaceFiles id w₁.files ↔ f ∈ found
  dir : w₁.tree.get (storageDir id) = some .dir
  copies : ∀ f ∈ found, w₁.tree.content (storagePath id f.path) = w.tree.content f.path

theorem complete_of_createSnapshot (h : w.createSnapshot opts host = (some c, w₁))
    (hcopied : c.copiedAll = true) : Complete w w₁ (w.found opts host) c.id := by
  rw [createSnapshot] at h
  split at h
  · cases h
  · dsimp only at h
    split at h
    · cases h
      cases hcopied
    · next t hdirs =>
        cases h
        replace hdirs : w.tree.makeDirs host.disk
            (ancestors (storageDir (w.snapshots.lastId + 1)) ++
              [storageDir (w.snapshots.lastId + 1)]) = (true, t) := hdirs
        have hscan : ((scanWorkspace opts host.reading w.tree).map WorkspaceFile.path).Nodup :=
          nodup_scanWorkspace
        have hdots : ∀ f ∈ scanWorkspace opts host.reading w.tree, f.path.head? ≠ some 46 := by
          intro f hf
          obtain ⟨_, -, -, hskips, -⟩ := mem_scanWorkspace.1 hf
          exact head?_of_skips hskips
        have hcontent : ∀ p, t.content p = w.tree.content p := by
          intro p
          have hsame := w.tree.content_makeDirs host.disk (ancestors (storageDir (w.snapshots.lastId + 1)) ++
            [storageDir (w.snapshots.lastId + 1)]) p
          rwa [hdirs] at hsame
        have hdir : t.get (storageDir (w.snapshots.lastId + 1)) = some .dir :=
          get_of_makeDirs hdirs _ (List.mem_append_right _ (List.mem_singleton.2 rfl))
        refine ⟨?_, rfl, fun f => mem_getWorkspaceFiles_record, ?_, ?_⟩
        · refine Table.get?_of_mem (w.wf.insertRow _) ?_
          exact List.mem_append_right _ (List.mem_singleton.2 rfl)
        · exact get_copyAllIn (fun f _ => storageDir_ne _ _) hdir
        · intro f hf
          rw [content_copyAllIn hscan hdots hcopied (found_sublist.subset hf), hcontent]

end

/-! ## A full restore -/

/-- A restore of everything, not a preview. -/
structure Full (o : RestoreOptions) : Prop where
  asked : o.asked = bytes "full"
  noIncludes : o.includePaths = []
  noExcludes : o.excludePaths = []
  live : o.dryRun = false

theorem Full.mode {o : RestoreOptions} (h : Full o) : o.mode = .ok (bytes "full") := by
  have hmissing : bytes "full" ≠ bytes "partial" := by decide +kernel
  rw [RestoreOptions.mode, h.asked, h.noIncludes]
  simp [hmissing]

theorem Full.shouldInclude {o : RestoreOptions} (h : Full o) (p : Bytes) :
    o.shouldInclude p = true := by
  rw [RestoreOptions.shouldInclude, h.noIncludes, h.noExcludes]
  rfl

theorem Full.mem_restorePaths {o : RestoreOptions} (h : Full o) {ps : List Bytes} {p : Bytes} :
    p ∈ restorePaths o ps ↔ p ∈ ps := by
  rw [restorePaths, (List.mergeSort_perm _ _).mem_iff, List.mem_dedup, List.mem_filter,
    h.shouldInclude]
  simp

theorem nodup_restorePaths (o : RestoreOptions) (ps : List Bytes) : (restorePaths o ps).Nodup :=
  (List.mergeSort_perm _ _).nodup_iff.2 (List.nodup_dedup _)

/-- The files that a restore reads. -/
def filesRead (w : Project) (host : RestoreHost) (id : Int) : List WorkspaceFile :=
  if host.filesRead then getWorkspaceFiles id w.files else []

/-- What comes of each file in a full restore. -/
def fullTurns (w : Project) (o : RestoreOptions) (host : RestoreHost) (id : Int) :
    List (Bytes × Option Bytes) × FileTree :=
  restoreFiles host.disk w.root id false
    (restorePaths o ((w.filesRead host id).map WorkspaceFile.path)) w.tree

section

variable {w : Project} {o : RestoreOptions} {host : RestoreHost} {id : Int}

/-- A full restore of a snapshot whose data is there. -/
theorem restore_full (host : RestoreHost) (hfull : Full o) (hsnapshot : w.snapshots.get? id = some w.projectId)
    (hdir : w.tree.get (storageDir id) = some .dir) :
    (w.restore w.projectId id o host).2 = { w with tree := (fullTurns w o host id).2 } ∧
      ((w.restore w.projectId id o host).1.success = true ↔
        ∀ turn ∈ (fullTurns w o host id).1, turn.2 = none) := by
  have hsmart : bytes "full" ≠ bytes "smart" := by decide +kernel
  have hget : w.getSnapshot host.filesRead id = some ⟨w.projectId, w.filesRead host id⟩ := by
    rw [getSnapshot, hsnapshot]
    rfl
  have hcandidates : w.candidates host id o (bytes "full") (w.filesRead host id) =
      (w.filesRead host id).map WorkspaceFile.path := if_neg hsmart
  rw [restore, if_neg (by simp), hget]
  dsimp only
  rw [if_neg (by simp), if_neg (by simp [hdir]), hfull.mode]
  dsimp only
  rw [hcandidates, hfull.live]
  refine ⟨rfl, ?_⟩
  rw [List.isEmpty_iff, List.filterMap_eq_nil_iff]
  rfl

/-- A restore that cannot read its files goes over none. -/
theorem fullTurns_unread (w : Project) (id : Int) (hfull : Full o) (hread : host.filesRead = false) :
    w.fullTurns o host id = ([], w.tree) := by
  have hempty : restorePaths o [] = [] := List.eq_nil_iff_forall_not_mem.2 fun p hp =>
    absurd (hfull.mem_restorePaths.1 hp) List.not_mem_nil
  rw [fullTurns, filesRead, hread]
  simp only [Bool.false_eq_true, if_false, List.map_nil, hempty]
  rfl

end

/-! ## The round trip -/

/-- Files that are as their snapshot has them are not reported as added or modified. -/
theorem deleted_of_mem_changes {t : FileTree} {files : List WorkspaceFile}
    (hfiles : ∀ f ∈ files, ∃ content, t.content f.path = some content ∧
      skips {} f.path = false ∧ f.hash = computeFileHash true content) {c : FileChange}
    (hc : c ∈ (computeSnapshotDiff (scanWorkspace {} .whole t) files).changes) :
    c.changeType = .deleted := by
  obtain ⟨f, hf⟩ := mem_changes.1 hc
  obtain ⟨path, hchange⟩ := mem_changesBetween.1 hf
  cases hnew : fileAt files path with
  | none =>
      rw [hnew] at hchange
      cases hold : fileAt (scanWorkspace {} .whole t) path with
      | none =>
          rw [hold] at hchange
          cases hchange
      | some old =>
          rw [hold] at hchange
          cases hchange
          rfl
  | some new =>
      obtain ⟨hmem, rfl⟩ := path_of_fileAt hnew
      obtain ⟨content, hcontent, hskips, hhash⟩ := hfiles new hmem
      have hscanned : scanned .whole (new.path, content) ∈ scanWorkspace {} .whole t :=
        mem_scanWorkspace.2 ⟨content, hcontent, rfl, hskips, rfl⟩
      have hold : fileAt (scanWorkspace {} .whole t) new.path =
          some (scanned .whole (new.path, content)) := fileAt_eq_some nodup_scanWorkspace hscanned
      have hsame : (scanned .whole (new.path, content)).hash = new.hash := hhash.symm
      rw [hold, hnew, changeOf, if_pos hsame] at hchange
      cases hchange

/-- After a full restore that reports success the files are as they were, a comparison
finds nothing added and nothing modified, and every other file is untouched; and success is
reported exactly if no file of the restore failed. -/
def RoundTrip (w : Project) (found : List WorkspaceFile) (id : Int) (w' : Project)
    (o : RestoreOptions) (host : RestoreHost) : Prop :=
  let r := w'.restore w'.projectId id o host
  (r.1.success = true →
    (∀ f ∈ found, r.2.tree.content f.path = w.tree.content f.path) ∧
    (∀ read, ∀ c ∈ (r.2.diffCurrent read .whole r.2.projectId id).changes,
      c.changeType = .deleted) ∧
    ∀ p, (∀ f ∈ found, f.path ≠ p) → r.2.tree.content p = w'.tree.content p) ∧
  (r.1.success = true ↔ ∀ turn ∈ (w'.fullTurns o host id).1, turn.2 = none)

/-- Where the files cannot be read, the restore reports success with nothing done. -/
theorem RoundTrip.unchanged {w w' : Project} {found : List WorkspaceFile} {id : Int}
    {o : RestoreOptions} {host : RestoreHost} (h : RoundTrip w found id w' o host) (hfull : Full o)
    (hsnapshot : w'.snapshots.get? id = some w'.projectId)
    (hdir : w'.tree.get (storageDir id) = some .dir) (hread : host.filesRead = false) :
    ∀ f ∈ found, w'.tree.content f.path = w.tree.content f.path := by
  intro f hf
  obtain ⟨hafter, hsuccess⟩ := restore_full host hfull hsnapshot hdir
  have hturns := fullTurns_unread w' id hfull hread
  have hok : (w'.restore w'.projectId id o host).1.success = true := by
    rw [hsuccess, hturns]
    exact fun _ hturn => (nomatch hturn)
  have hrestored := (h.1 hok).1 f hf
  rwa [hafter, hturns] at hrestored

/-- The round trip, of a snapshot of readable files all of which were copied, after any
change outside `.nazg`. -/
theorem roundTrip_iff {w w₁ : Project} {opts : SnapshotOptions} {create : CreateHost} {c : Created}
    {t : FileTree} {o : RestoreOptions} {host : RestoreHost} (hreading : create.reading = .whole)
    (hcreate : w.createSnapshot opts create = (some c, w₁)) (hcopied : c.copiedAll = true)
    (hedits : SameStore w₁.tree t) (hfull : Full o) :
    RoundTrip w (w.found opts create) c.id { w₁ with tree := t } o host ↔
      host.filesRead = true ∨
        ∀ f ∈ w.found opts create, t.content f.path = w.tree.content f.path := by
  have hcomplete := complete_of_createSnapshot hcreate hcopied
  have hsnapshot : w₁.snapshots.get? c.id = some w₁.projectId :=
    hcomplete.project ▸ hcomplete.snapshot
  have hdir : t.get (storageDir c.id) = some .dir :=
    (hedits _ (prefix_storageDir c.id)).symm.trans hcomplete.dir
  obtain ⟨hafter, hsuccess⟩ := restore_full (w := { w₁ with tree := t }) host hfull
    hsnapshot hdir
  have hfound : ∀ f ∈ w.found opts create, ∃ content, w.tree.content f.path = some content ∧
      skips opts f.path = false ∧ f.hash = computeFileHash true content := by
    intro f hf
    obtain ⟨content, hcontent, -, hskips, heq⟩ := mem_scanWorkspace.1 (found_sublist.subset hf)
    refine ⟨content, hcontent, hskips, ?_⟩
    rw [heq, hreading]
    rfl
  have hcopies : ∀ f ∈ w.found opts create,
      t.content (storagePath c.id f.path) = w.tree.content f.path := by
    intro f hf
    rw [← hcomplete.copies f hf, FileTree.content, ← hedits _ (prefix_storagePath c.id f.path)]
    rfl
  have hread : ∀ p, p ∈ restorePaths o
      ((({ w₁ with tree := t } : Project).filesRead host c.id).map WorkspaceFile.path) →
        ∃ f ∈ w.found opts create, f.path = p := by
    intro p hp
    obtain ⟨f, hf, rfl⟩ := List.mem_map.1 (hfull.mem_restorePaths.1 hp)
    rw [filesRead] at hf
    split at hf
    · exact ⟨f, (hcomplete.files f).1 hf, rfl⟩
    · cases hf
  constructor
  · intro hround
    by_cases hfiles : host.filesRead = true
    · exact .inl hfiles
    · exact .inr (hround.unchanged hfull hsnapshot hdir (by simpa using hfiles))
  · intro hcond
    refine ⟨fun hok => ?_, hsuccess⟩
    rw [hafter]
    have hturns := hsuccess.1 hok
    have hcontents : ∀ f ∈ w.found opts create,
        (({ w₁ with tree := t } : Project).fullTurns o host c.id).2.content f.path =
          w.tree.content f.path := by
      intro f hf
      by_cases hfiles : host.filesRead = true
      · rw [fullTurns, content_restoreFiles (nodup_restorePaths _ _) ?_ hturns ?_, hcopies f hf]
        · intro p hp
          obtain ⟨g, hg, rfl⟩ := hread p hp
          obtain ⟨_, -, hskips, -⟩ := hfound g hg
          exact head?_of_skips hskips
        · refine hfull.mem_restorePaths.2 (List.mem_map_of_mem ?_)
          rw [filesRead, if_pos hfiles]
          exact (hcomplete.files f).2 hf
      · rw [fullTurns_unread _ _ hfull (by simpa using hfiles)]
        exact hcond.resolve_left hfiles f hf
    refine ⟨hcontents, fun read change hchange => ?_, fun p hp => ?_⟩
    · have hget : ({ w₁ with tree := (({ w₁ with tree := t } : Project).fullTurns o host c.id).2 } :
          Project).getSnapshot read c.id =
            some ⟨w₁.projectId, if read then getWorkspaceFiles c.id w₁.files else []⟩ := by
        rw [getSnapshot, hsnapshot]
        rfl
      rw [diffCurrent, if_neg (by simp), hget] at hchange
      refine deleted_of_mem_changes (fun f hf => ?_) hchange
      have hmem : f ∈ w.found opts create := by
        dsimp only at hf
        split at hf
        · exact (hcomplete.files f).1 hf
        · cases hf
      obtain ⟨content, hcontent, hskips, hhash⟩ := hfound f hmem
      exact ⟨content, (hcontents f hmem).trans hcontent, skips_default hskips, hhash⟩
    · refine content_restoreFiles_of_notMem fun hmem => ?_
      obtain ⟨f, hf, heq⟩ := hread p hmem
      exact hp f hf heq

/-! ## A file edited in between -/

/-- A workspace with one file. -/
def oneFileTree : FileTree where
  nodes := OrdMap.empty.insert (bytes "value.cpp") (.file (bytes "return 1;"))
  closed := by decide +kernel
  nulFree := by decide +kernel

def oneFile : Project where
  projectId := 1
  root := bytes "/home/dev/value"
  tree := oneFileTree
  snapshots := .empty
  files := .empty
  wf := Table.wf_empty
  referenced := fun _ h => (nomatch h)
  recorded := fun _ h => (nomatch h)

/-- Everything succeeds. -/
def createHost : CreateHost := ⟨.whole, true, fun _ => true, .sound⟩

def baseline : Project := (oneFile.createSnapshot {} createHost).2

/-- The file after an edit. -/
def edited : FileTree :=
  (baseline.tree.put (bytes "value.cpp") (.file (bytes "return 42;"))).getD baseline.tree

theorem sameStore_edited : SameStore baseline.tree edited := by
  intro p hp
  rw [edited]
  cases h : baseline.tree.put (bytes "value.cpp") (.file (bytes "return 42;")) with
  | none => rfl
  | some t =>
      rw [Option.getD_some, FileTree.get_put h, if_neg]
      rintro rfl
      revert hp
      decide +kernel

def fullRestore : RestoreOptions := { restoreType := bytes "full" }

theorem full_fullRestore : Full fullRestore := ⟨by decide +kernel, rfl, rfl, rfl⟩

/-- A restore for which everything succeeds but, perhaps, the reading of the rows. -/
def restoreHost (filesRead : Bool) : RestoreHost := ⟨filesRead, true, .whole, .sound⟩

/-- With the rows read, the file comes back. -/
theorem roundTrip_iff_edited :
    oneFile.createSnapshot {} createHost = (some ⟨1, true⟩, baseline) ∧
      RoundTrip oneFile (oneFile.found {} createHost) 1 { baseline with tree := edited }
        fullRestore (restoreHost true) := by
  have hcreate : oneFile.createSnapshot {} createHost = (some ⟨1, true⟩, baseline) :=
    Prod.ext (by decide +kernel) rfl
  exact ⟨hcreate, (roundTrip_iff rfl hcreate rfl sameStore_edited full_fullRestore).2 (.inl rfl)⟩

/-- With the rows not read, the restore reports success and the file stays as it is. -/
theorem unread_not_roundTrip : ¬ RoundTrip oneFile (oneFile.found {} createHost) 1
    { baseline with tree := edited } fullRestore (restoreHost false) := by
  intro h
  have hcontents := h.unchanged full_fullRestore (by decide +kernel) (by decide +kernel) rfl
  revert hcontents
  decide +kernel

end Project

end Nazg.Workspace
