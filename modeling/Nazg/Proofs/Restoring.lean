import Nazg.Workspace.Manager

/-!
# What the loops of a snapshot do

The copies of a snapshot lie below `.nazg`, and no scanned path begins with a dot. So the
copy loop leaves the workspace alone and the restore loop leaves the copies alone, and
within a loop one turn never undoes another, because no two have the same target.
-/

namespace Nazg.Workspace

open Lib Lib.Sqlite

/-! ## Paths -/

namespace Project

theorem storageDir_eq (id : Int) : ∃ rest, storageDir id = 46 :: rest := ⟨_, rfl⟩

theorem head?_storagePath (id : Int) (path : Bytes) : (storagePath id path).head? = some 46 := by
  obtain ⟨rest, h⟩ := storageDir_eq id
  rw [storagePath, h]
  rfl

theorem storagePath_inj {id : Int} {p q : Bytes} (h : storagePath id p = storagePath id q) :
    p = q := by
  have hcons := List.append_cancel_left h
  exact (List.cons.inj hcons).2

theorem storageDir_ne (id : Int) (p : Bytes) : storageDir id ≠ storagePath id p := by
  intro h
  have hlength := congrArg List.length h
  rw [storagePath, List.length_append, List.length_cons] at hlength
  omega

/-- A path that does not begin with a dot is no copy. -/
theorem ne_storagePath {id : Int} {p q : Bytes} (h : p.head? ≠ some 46) : p ≠ storagePath id q := by
  rintro rfl
  exact h (head?_storagePath id q)

theorem head?_of_skips {opts : SnapshotOptions} {path : Bytes} (h : skips opts path = false) :
    path.head? ≠ some 46 := by
  simp only [skips, Bool.or_eq_false_iff, decide_eq_false_iff_not] at h
  exact h.1.1.2

/-! ## Copying in -/

section

variable {disk : FileTree.Disk} {id : Int} {t : FileTree}

theorem content_copyIn_of_ne {path q : Bytes} (hq : q ≠ storagePath id path) :
    (copyIn disk id path t).2.content q = t.content q := by
  rw [copyIn]
  split
  · rfl
  · have hdirs : ∀ {b s}, t.makeDirs disk (ancestors (storagePath id path)) = (b, s) →
        s.content q = t.content q := by
      intro b s h
      rw [← t.content_makeDirs disk (ancestors (storagePath id path)), h]
    split
    · next h => exact hdirs h
    · next s h =>
        have hcopy : (s.copyFile disk path (storagePath id path)).2.content q = s.content q := by
          rw [FileTree.content, FileTree.get_copyFile_of_ne hq]
          rfl
        split
        · next h' => rw [← hdirs h, ← hcopy, h']
        · next h' => rw [← hdirs h, ← hcopy, h']

theorem content_copyIn {path : Bytes} (h : (copyIn disk id path t).1 = true) :
    (copyIn disk id path t).2.content (storagePath id path) = t.content path := by
  rw [copyIn] at h ⊢
  split at h
  · cases h
  · next hexists =>
      rw [if_neg hexists]
      split at h
      · cases h
      · next s hdirs =>
          have hsource : s.content path = t.content path := by
            rw [← t.content_makeDirs disk (ancestors (storagePath id path)), hdirs]
          split at h
          · next u hcopy =>
              have hdone := FileTree.content_copyFile (t := s) disk path (storagePath id path)
                (by rw [hcopy])
              rw [hcopy] at hdone
              rw [← hsource, ← hdone]
          · cases h

/-- What is there stays there, but for the target. -/
theorem get_copyIn_of_ne {path q : Bytes} {n : Node} (hq : q ≠ storagePath id path)
    (h : t.get q = some n) : (copyIn disk id path t).2.get q = some n := by
  rw [copyIn]
  split
  · exact h
  · have hdirs : ∀ {b s}, t.makeDirs disk (ancestors (storagePath id path)) = (b, s) →
        s.get q = some n := by
      intro b s hs
      have hget := FileTree.get_makeDirs disk (ancestors (storagePath id path)) h
      rwa [hs] at hget
    split
    · next hs => exact hdirs hs
    · next s hs =>
        have hcopy : (s.copyFile disk path (storagePath id path)).2.get q = some n := by
          rw [FileTree.get_copyFile_of_ne hq]
          exact hdirs hs
        split
        · next h' => rwa [h'] at hcopy
        · next h' => rwa [h'] at hcopy

theorem get_copyAllIn {fs : List WorkspaceFile} {q : Bytes} {n : Node}
    (hq : ∀ f ∈ fs, q ≠ storagePath id f.path) (h : t.get q = some n) :
    (copyAllIn disk id fs t).2.get q = some n := by
  induction fs generalizing t with
  | nil => exact h
  | cons f fs ih =>
      rw [copyAllIn]
      exact ih (fun g hg => hq g (List.mem_cons_of_mem _ hg))
        (get_copyIn_of_ne (hq f List.mem_cons_self) h)

/-- The loop changes its targets only. -/
theorem content_copyAllIn_of_notMem {fs : List WorkspaceFile} {q : Bytes}
    (hq : ∀ f ∈ fs, q ≠ storagePath id f.path) :
    (copyAllIn disk id fs t).2.content q = t.content q := by
  induction fs generalizing t with
  | nil => rfl
  | cons f fs ih =>
      rw [copyAllIn]
      dsimp only
      rw [ih fun g hg => hq g (List.mem_cons_of_mem _ hg),
        content_copyIn_of_ne (hq f List.mem_cons_self)]

/-- If every file was copied, the copies are there. -/
theorem content_copyAllIn {fs : List WorkspaceFile} (hnodup : (fs.map WorkspaceFile.path).Nodup)
    (hdots : ∀ f ∈ fs, f.path.head? ≠ some 46) (h : (copyAllIn disk id fs t).1 = true)
    {f : WorkspaceFile} (hf : f ∈ fs) :
    (copyAllIn disk id fs t).2.content (storagePath id f.path) = t.content f.path := by
  induction fs generalizing t with
  | nil => cases hf
  | cons g fs ih =>
      rw [copyAllIn] at h ⊢
      dsimp only at h ⊢
      rw [Bool.and_eq_true] at h
      rw [List.map_cons, List.nodup_cons] at hnodup
      have hdots' := fun x hx => hdots x (List.mem_cons_of_mem _ hx)
      rcases List.mem_cons.1 hf with rfl | hf
      · rw [content_copyAllIn_of_notMem, content_copyIn h.1]
        intro x hx heq
        exact hnodup.1 (storagePath_inj heq ▸ List.mem_map_of_mem hx)
      · rw [ih hnodup.2 hdots' h.2 hf, content_copyIn_of_ne]
        exact ne_storagePath (hdots' f hf)

end

/-! ## Restoring -/

section

variable {disk : FileTree.Disk} {root : Bytes} {id : Int} {dryRun : Bool} {t : FileTree}

theorem content_restoreFile_of_ne {p q : Bytes} (hq : q ≠ p) :
    (restoreFile disk root id dryRun p t).2.content q = t.content q := by
  rw [restoreFile]
  split
  · rfl
  · split
    · rfl
    · have hdirs : ∀ {b s}, t.makeDirs disk (ancestors p) = (b, s) →
          s.content q = t.content q := by
        intro b s h
        rw [← t.content_makeDirs disk (ancestors p), h]
      split
      · next h => exact hdirs h
      · next s h =>
          have hcopy : (s.copyFile disk (storagePath id p) p).2.content q = s.content q := by
            rw [FileTree.content, FileTree.get_copyFile_of_ne hq]
            rfl
          split
          · next h' => rw [← hdirs h, ← hcopy, h']
          · next h' => rw [← hdirs h, ← hcopy, h']

theorem content_restoreFile {p : Bytes}
    (h : (restoreFile disk root id false p t).1 = none) :
    (restoreFile disk root id false p t).2.content p = t.content (storagePath id p) := by
  rw [restoreFile] at h ⊢
  split at h
  · cases h
  · next hexists =>
      rw [if_neg hexists]
      simp only [Bool.false_eq_true, if_false] at h ⊢
      split at h
      · cases h
      · next s hdirs =>
          have hsource : s.content (storagePath id p) = t.content (storagePath id p) := by
            rw [← t.content_makeDirs disk (ancestors p), hdirs]
          split at h
          · cases h
          · next u hcopy =>
              have hdone := FileTree.content_copyFile (t := s) disk (storagePath id p) p
                (by rw [hcopy])
              rw [hcopy] at hdone
              rw [← hsource, ← hdone]

/-- The loop changes its targets only. -/
theorem content_restoreFiles_of_notMem {ps : List Bytes} {q : Bytes} (hq : q ∉ ps) :
    (restoreFiles disk root id dryRun ps t).2.content q = t.content q := by
  induction ps generalizing t with
  | nil => rfl
  | cons p ps ih =>
      rw [List.mem_cons, not_or] at hq
      rw [restoreFiles]
      dsimp only
      rw [ih hq.2, content_restoreFile_of_ne hq.1]

/-- If no turn had an error, every path has what its copy has. -/
theorem content_restoreFiles {ps : List Bytes} (hnodup : ps.Nodup)
    (hdots : ∀ p ∈ ps, p.head? ≠ some 46)
    (h : ∀ turn ∈ (restoreFiles disk root id false ps t).1, turn.2 = none)
    {p : Bytes} (hp : p ∈ ps) :
    (restoreFiles disk root id false ps t).2.content p = t.content (storagePath id p) := by
  induction ps generalizing t with
  | nil => cases hp
  | cons q ps ih =>
      rw [restoreFiles] at h ⊢
      dsimp only at h ⊢
      rw [List.nodup_cons] at hnodup
      have hfirst := h _ List.mem_cons_self
      have hrest := fun turn hturn => h turn (List.mem_cons_of_mem _ hturn)
      rcases List.mem_cons.1 hp with rfl | hp
      · rw [content_restoreFiles_of_notMem hnodup.1, content_restoreFile hfirst]
      · rw [ih hnodup.2 (fun x hx => hdots x (List.mem_cons_of_mem _ hx)) hrest hp,
          content_restoreFile_of_ne]
        exact (ne_storagePath (hdots q List.mem_cons_self)).symm

end

/-! ## What a snapshot holds -/

section

variable {w : Project} {opts : SnapshotOptions} {host : CreateHost}

/-- The rows of a new snapshot are those of its files: no older row has its id. -/
theorem mem_getWorkspaceFiles_record {f : WorkspaceFile} :
    f ∈ getWorkspaceFiles (w.snapshots.lastId + 1) (w.record opts host).files ↔
      f ∈ w.found opts host := by
  have hold : w.files.data.filter (fun r => r.snapshotId = w.snapshots.lastId + 1) = [] := by
    refine List.filter_eq_nil_iff.2 fun r hr => ?_
    have hle := w.referenced r hr
    simp only [decide_eq_true_eq]
    omega
  have hnew : ((w.found opts host).map (fileRow (w.snapshots.lastId + 1))).filter
      (fun r => r.snapshotId = w.snapshots.lastId + 1) =
        (w.found opts host).map (fileRow (w.snapshots.lastId + 1)) := by
    refine List.filter_eq_self.2 fun r hr => ?_
    obtain ⟨g, -, rfl⟩ := List.mem_map.1 hr
    exact decide_eq_true rfl
  have hread : ((w.found opts host).map (fileRow (w.snapshots.lastId + 1))).map FileRow.file =
      w.found opts host := by
    rw [List.map_map]
    exact List.map_congr_left (fun g hg => file_fileRow (found_sublist.subset hg)) |>.trans
      (List.map_id _)
  rw [getWorkspaceFiles, (List.mergeSort_perm _ _).mem_iff, record, data_recordFiles,
    List.filter_append, hold, hnew, List.nil_append, hread]

end

end Project

end Nazg.Workspace
