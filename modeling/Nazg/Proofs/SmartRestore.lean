import Nazg.Proofs.RestoreRoundTrip

/-!
# What a smart restore overwrites

A smart restore compares the workspace with the snapshot and brings back what was changed
since, but of the source files only those that are gone. Which files are source files is
decided by `detectFileType`, which looks for fragments of other classes first and anywhere
in the path: `src/io.async.cpp` has an `.a` in it and is a build file. And a file that the
scan of the workspace did not come to counts as gone.

`content_smartRestore_iff` says exactly when a file that is there is overwritten.
-/

namespace Nazg.Workspace

open Lib Lib.Sqlite

theorem fileAt_scanWorkspace {opts : SnapshotOptions} (reading : Reading) {tree : FileTree}
    {p c : Bytes} (hc : tree.content p = some c) (hskips : skips opts p = false) :
    fileAt (scanWorkspace opts reading tree) p =
      if reading.reached p then some (scanned reading (p, c)) else none := by
  split
  · next hreached =>
      have hmem : scanned reading (p, c) ∈ scanWorkspace opts reading tree :=
        mem_scanWorkspace.2 ⟨c, hc, hreached, hskips, rfl⟩
      exact fileAt_eq_some nodup_scanWorkspace hmem
  · next hreached =>
      cases h : fileAt (scanWorkspace opts reading tree) p with
      | none => rfl
      | some f =>
          obtain ⟨hmem, rfl⟩ := path_of_fileAt h
          obtain ⟨_, -, hreached', -⟩ := mem_scanWorkspace.1 hmem
          exact absurd hreached' hreached

theorem mem_otherThanSource {old new : List WorkspaceFile} {c : FileChange} :
    c ∈ (computeSnapshotDiff old new).buildChanges ++ (computeSnapshotDiff old new).depChanges ++
        (computeSnapshotDiff old new).configChanges ++ (computeSnapshotDiff old new).otherChanges ↔
      ∃ f, (f, c) ∈ changesBetween old new ∧ f.type ≠ .source := by
  simp only [computeSnapshotDiff, List.mem_append, mem_changesOfType]
  constructor
  · rintro (((⟨f, h, htype⟩ | ⟨f, h, htype⟩) | ⟨f, h, htype⟩) | ⟨f, h, htype⟩)
    all_goals exact ⟨f, h, by simp [htype]⟩
  · rintro ⟨f, h, hsource⟩
    cases htype : f.type with
    | source => exact absurd htype hsource
    | build => exact .inl (.inl (.inl ⟨f, h, htype⟩))
    | dependency => exact .inl (.inl (.inr ⟨f, h, htype⟩))
    | config => exact .inl (.inr ⟨f, h, htype⟩)
    | unknown => exact .inr ⟨f, h, htype⟩

namespace Project

/-- Source changes are considered one way, all others another. -/
theorem mem_smartCandidates {o : RestoreOptions} {old new files : List WorkspaceFile} {p : Bytes} :
    p ∈ o.smartCandidates (computeSnapshotDiff old new) files ↔
      (fileAt files p).isSome ∧ ∃ f c, changeOf p (fileAt old p) (fileAt new p) = some (f, c) ∧
        o.considers (f.type ≠ .source) c = true := by
  have hall : ∀ c, c ∈ ((computeSnapshotDiff old new).buildChanges ++
      (computeSnapshotDiff old new).depChanges ++ (computeSnapshotDiff old new).configChanges ++
      (computeSnapshotDiff old new).otherChanges).filter (o.considers true) ++
        (computeSnapshotDiff old new).sourceChanges.filter (o.considers false) ↔
      ∃ f, (f, c) ∈ changesBetween old new ∧ o.considers (f.type ≠ .source) c = true := by
    intro c
    rw [List.mem_append, List.mem_filter, List.mem_filter, mem_otherThanSource]
    constructor
    · rintro (⟨⟨f, hf, htype⟩, hconsiders⟩ | ⟨hmem, hconsiders⟩)
      · exact ⟨f, hf, by simpa [htype] using hconsiders⟩
      · obtain ⟨f, hf, htype⟩ := mem_changesOfType.1 hmem
        exact ⟨f, hf, by simpa [htype] using hconsiders⟩
    · rintro ⟨f, hf, hconsiders⟩
      by_cases htype : f.type = .source
      · refine .inr ⟨mem_changesOfType.2 ⟨f, hf, htype⟩, ?_⟩
        simpa [htype] using hconsiders
      · refine .inl ⟨⟨f, hf, htype⟩, ?_⟩
        simpa [htype] using hconsiders
  rw [RestoreOptions.smartCandidates, List.mem_map]
  simp only [List.mem_filter, hall]
  constructor
  · rintro ⟨c, ⟨⟨f, hf, hconsiders⟩, hfile⟩, rfl⟩
    obtain ⟨path, hchange⟩ := mem_changesBetween.1 hf
    obtain rfl := path_of_changeOf hchange
    exact ⟨hfile, f, c, hchange, hconsiders⟩
  · rintro ⟨hfile, f, c, hchange, hconsiders⟩
    have hpath := path_of_changeOf hchange
    refine ⟨c, ⟨⟨f, mem_changesBetween.2 ⟨p, hchange⟩, hconsiders⟩, ?_⟩, hpath⟩
    rwa [hpath]

/-! ## A turn of the loop at a file that is there -/

/-- What a copy onto a file leaves in it. -/
def afterCopy (disk : FileTree.Disk) (p copy content : Bytes) : Bytes :=
  match disk.copyFails p with
  | none => copy
  | some (_, left) => left.getD content

theorem makeDirs_ancestors (disk : FileTree.Disk) {ds : List Bytes} {t : FileTree}
    (h : ∀ d ∈ ds, t.get d = some .dir) : t.makeDirs disk ds = (true, t) := by
  induction ds with
  | nil => rfl
  | cons d ds ih =>
      rw [FileTree.makeDirs, h d List.mem_cons_self]
      exact ih fun e he => h e (List.mem_cons_of_mem _ he)

theorem ancestors_of_content {t : FileTree} {p c : Bytes} (h : t.content p = some c) :
    ∀ d ∈ ancestors p, t.get d = some .dir :=
  t.closed p (OrdMap.mem_keys.2 ⟨_, FileTree.content_eq_some.1 h⟩)

/-- A file can be given another content. -/
theorem put_of_content {t : FileTree} {p c : Bytes} (h : t.content p = some c) (new : Bytes) :
    ∃ t', t.put p (.file new) = some t' := by
  have hnode := FileTree.content_eq_some.1 h
  have hput : (∀ d ∈ ancestors p, t.get d = some .dir) ∧ t.get p ≠ some .dir ∧ (0 : UInt8) ∉ p :=
    ⟨ancestors_of_content h, by rw [hnode]; exact nofun,
      t.nulFree p (OrdMap.mem_keys.2 ⟨_, hnode⟩)⟩
  exact ⟨_, dif_pos hput⟩

section

variable {disk : FileTree.Disk} {root : Bytes} {id : Int} {dryRun : Bool} {t : FileTree}
  {p c : Bytes}

theorem content_copyFile_existing (disk : FileTree.Disk) (source : Bytes) (h : t.content p = some c) :
    (t.copyFile disk source p).2.content p =
      some (((t.content source).map fun copy => afterCopy disk p copy c).getD c) := by
  rw [FileTree.copyFile]
  cases hsource : t.get source with
  | none => simpa [FileTree.content, hsource] using h
  | some n =>
      cases n with
      | dir => simpa [FileTree.content, hsource, Node.content] using h
      | file copy =>
          have hcopy : t.content source = some copy := FileTree.content_eq_some.2 hsource
          rw [hcopy, Option.map_some, Option.getD_some, afterCopy]
          dsimp only
          cases hfails : disk.copyFails p with
          | none =>
              obtain ⟨t', hput⟩ := put_of_content h copy
              dsimp only
              rw [hput]
              dsimp only
              rw [FileTree.content_put hput, if_pos rfl]
              rfl
          | some failure =>
              obtain ⟨message, left⟩ := failure
              cases left with
              | none => exact h
              | some left =>
                  obtain ⟨t', hput⟩ := put_of_content h left
                  dsimp only
                  rw [hput, Option.getD_some, FileTree.content_put hput, if_pos rfl]
                  rfl

theorem content_restoreFile_existing (h : t.content p = some c) :
    (restoreFile disk root id dryRun p t).2.content p =
      some (if dryRun then c else
        ((t.content (storagePath id p)).map fun copy => afterCopy disk p copy c).getD c) := by
  rw [restoreFile]
  split
  · next hmissing => simp [FileTree.content, hmissing, ← h]
  · cases dryRun with
    | true => exact h
    | false =>
        have hdirs := makeDirs_ancestors disk (ancestors_of_content h)
        have hcopy := content_copyFile_existing disk (storagePath id p) h
        simp only [Bool.false_eq_true, if_false, hdirs]
        split
        · next hc =>
            rw [hc] at hcopy
            exact hcopy
        · next hc =>
            rw [hc] at hcopy
            exact hcopy

theorem content_restoreFiles_existing {ps : List Bytes} (hnodup : ps.Nodup)
    (hdots : ∀ q ∈ ps, q.head? ≠ some 46) (h : t.content p = some c) :
    (restoreFiles disk root id dryRun ps t).2.content p =
      some (if p ∈ ps ∧ dryRun = false then
        ((t.content (storagePath id p)).map fun copy => afterCopy disk p copy c).getD c else c) := by
  induction ps generalizing t with
  | nil => simpa [restoreFiles] using h
  | cons q ps ih =>
      rw [restoreFiles]
      dsimp only
      rw [List.nodup_cons] at hnodup
      by_cases heq : p = q
      · subst heq
        rw [content_restoreFiles_of_notMem hnodup.1, content_restoreFile_existing h]
        cases dryRun <;> simp
      · have hrest := fun x hx => hdots x (List.mem_cons_of_mem _ hx)
        have hhead : (restoreFile disk root id dryRun q t).2.content p = some c := by
          rw [content_restoreFile_of_ne heq, h]
        have hcopy : (restoreFile disk root id dryRun q t).2.content (storagePath id p) =
            t.content (storagePath id p) := by
          refine content_restoreFile_of_ne ?_
          exact (ne_storagePath (hdots q List.mem_cons_self)).symm
        rw [ih hnodup.2 hrest hhead, hcopy]
        simp only [List.mem_cons, heq, false_or]

end

/-! ## The paths of a smart restore -/

def Smart (o : RestoreOptions) : Prop := o.asked = bytes "smart"

theorem Smart.mode {o : RestoreOptions} (h : Smart o) : o.mode = .ok (bytes "smart") := by
  have hfull : bytes "smart" ≠ bytes "full" := by decide +kernel
  have hpartial : bytes "smart" ≠ bytes "partial" := by decide +kernel
  rw [RestoreOptions.mode, show o.asked = bytes "smart" from h]
  simp [hfull, hpartial]

def smartPaths (w : Project) (o : RestoreOptions) (host : RestoreHost) (id : Int) : List Bytes :=
  restorePaths o (o.smartCandidates (w.diffCurrent host.diffRead host.reading w.projectId id)
    (w.filesRead host id))

theorem mem_restorePaths {o : RestoreOptions} {ps : List Bytes} {p : Bytes} :
    p ∈ restorePaths o ps ↔ p ∈ ps ∧ o.shouldInclude p = true := by
  rw [restorePaths, (List.mergeSort_perm _ _).mem_iff, List.mem_dedup, List.mem_filter]

/-- The rows of a snapshot are those of scanned files. -/
theorem recorded_of_mem {w : Project} {id : Int} {f : WorkspaceFile}
    (hf : f ∈ getWorkspaceFiles id w.files) :
    skips {} f.path = false ∧ f.type = detectFileType f.path := by
  rw [getWorkspaceFiles, (List.mergeSort_perm _ _).mem_iff, List.mem_map] at hf
  obtain ⟨r, hr, rfl⟩ := hf
  exact w.recorded r (List.mem_filter.1 hr).1

theorem isExcluded_iff_matches {p : Bytes} {patterns : List Bytes} :
    isExcluded p patterns = (!patterns.isEmpty && matchesPrefix p patterns) := by
  cases patterns with
  | nil => rfl
  | cons pat patterns => simp [matchesPrefix]

section

variable {w : Project} {o : RestoreOptions} {host : RestoreHost} {id : Int} {p c : Bytes}

theorem isSome_of_mem_smartCandidates {d : SnapshotDiff} {files : List WorkspaceFile}
    (hp : p ∈ o.smartCandidates d files) : (fileAt files p).isSome = true := by
  obtain ⟨change, hchange, rfl⟩ := List.mem_map.1 hp
  exact (List.mem_filter.1 hchange).2

theorem head?_of_mem_smartPaths (hp : p ∈ w.smartPaths o host id) : p.head? ≠ some 46 := by
  have hfile := isSome_of_mem_smartCandidates (mem_restorePaths.1 hp).1
  obtain ⟨f, hf⟩ := Option.isSome_iff_exists.1 hfile
  obtain ⟨hmem, rfl⟩ := path_of_fileAt hf
  rw [filesRead] at hmem
  split at hmem
  · exact head?_of_skips (recorded_of_mem hmem).1
  · cases hmem

/-- A file that the snapshot has is taken into account if the scan did not come to it, or
found another checksum and the restore is after it. -/
theorem considers_found {reading : Reading} {f : WorkspaceFile} :
    (∃ g d, changeOf p (if reading.reached p then some (scanned reading (p, c)) else none)
        (some f) = some (g, d) ∧ o.considers (g.type ≠ .source) d = true) ↔
      (reading.reached p = true → f.hash ≠ computeFileHash (reading.readable p) c ∧
        (f.type ≠ .source ∨ isExcluded p o.includePaths = true)) := by
  by_cases hreached : reading.reached p = true
  · rw [if_pos hreached, changeOf]
    split
    · next hsame =>
        have hhash : f.hash = computeFileHash (reading.readable p) c := hsame.symm
        simp [hreached, hhash]
    · next hdiffers =>
        have hhash : f.hash ≠ computeFileHash (reading.readable p) c := Ne.symm hdiffers
        simp [hreached, hhash, RestoreOptions.considers, isExcluded_iff_matches]
  · rw [if_neg hreached, changeOf]
    simp [hreached, RestoreOptions.considers]

/-- One that it does not have, only if it is asked for. -/
theorem considers_notFound {reading : Reading} :
    (∃ g d, changeOf p (if reading.reached p then some (scanned reading (p, c)) else none)
        none = some (g, d) ∧ o.considers (g.type ≠ .source) d = true) ↔
      reading.reached p = true ∧ isExcluded p o.includePaths = true := by
  by_cases hreached : reading.reached p = true
  · rw [if_pos hreached, changeOf]
    simp [hreached, RestoreOptions.considers, isExcluded_iff_matches]
  · rw [if_neg hreached, changeOf]
    simp [hreached]

/-- Which of the files that are there a smart restore goes over. -/
theorem mem_smartPaths (o : RestoreOptions) (host : RestoreHost) (hsnapshot : w.snapshots.get? id = some w.projectId)
    (hc : w.tree.content p = some c) :
    p ∈ w.smartPaths o host id ↔ host.filesRead = true ∧ o.shouldInclude p = true ∧
      ∃ f, fileAt (getWorkspaceFiles id w.files) p = some f ∧
        if host.diffRead then
          host.reading.reached p = true → f.hash ≠ computeFileHash (host.reading.readable p) c ∧
            (detectFileType p ≠ .source ∨ isExcluded p o.includePaths = true)
        else host.reading.reached p = true ∧ isExcluded p o.includePaths = true := by
  rw [smartPaths, mem_restorePaths, diffCurrent, if_neg (by simp), getSnapshot, hsnapshot]
  simp only [Option.map_some]
  rw [mem_smartCandidates, filesRead]
  by_cases hread : host.filesRead = true
  · rw [if_pos hread]
    cases hfile : fileAt (getWorkspaceFiles id w.files) p with
    | none => simp
    | some f =>
        obtain ⟨hmem, hpath⟩ := path_of_fileAt hfile
        obtain ⟨hskips, htype⟩ := recorded_of_mem hmem
        rw [hpath] at hskips htype
        rw [fileAt_scanWorkspace _ hc hskips]
        by_cases hdiff : host.diffRead = true
        · rw [if_pos hdiff, hfile, considers_found, htype]
          simp [hread, hdiff, and_comm]
        · have hnone : fileAt [] p = none := rfl
          rw [if_neg hdiff, hnone, considers_notFound]
          simp [hread, hdiff, and_comm]
  · rw [if_neg hread]
    simp [hread, fileAt]

/-- A smart restore of a snapshot whose data is there. -/
theorem tree_smartRestore (hsmart : Smart o) (hsnapshot : w.snapshots.get? id = some w.projectId)
    (hdir : w.tree.get (storageDir id) ≠ none) :
    (w.restore w.projectId id o host).2.tree =
      (restoreFiles host.disk w.root id o.dryRun (w.smartPaths o host id) w.tree).2 := by
  have hget : w.getSnapshot host.filesRead id = some ⟨w.projectId, w.filesRead host id⟩ := by
    rw [getSnapshot, hsnapshot]
    rfl
  have hcandidates : w.candidates host id o (bytes "smart") (w.filesRead host id) =
      o.smartCandidates (w.diffCurrent host.diffRead host.reading w.projectId id)
        (w.filesRead host id) := if_pos rfl
  rw [restore, if_neg (by simp), hget]
  dsimp only
  rw [if_neg (by simp), if_neg hdir, hsmart.mode]
  dsimp only
  rw [hcandidates]
  rfl

/-- Any other restore does not come to its files. -/
theorem restore_of_absent {projectId : Int64}
    (h : ¬ (projectId = w.projectId ∧ w.snapshots.get? id = some w.projectId ∧
      w.tree.get (storageDir id) ≠ none)) : (w.restore projectId id o host).2 = w := by
  rw [restore]
  split
  · rfl
  · next hproject =>
      rw [ne_eq, not_not] at hproject
      rw [getSnapshot]
      cases hsnapshot : w.snapshots.get? id with
      | none => rfl
      | some owner =>
          simp only [Option.map_some]
          split
          · rfl
          · next howner =>
              split
              · rfl
              · next hdir =>
                  rw [ne_eq, not_not] at howner
                  rw [hproject] at howner
                  exact absurd ⟨hproject, howner ▸ hsnapshot, hdir⟩ h

/-! ## What is overwritten -/

/-- A file that is there with this content is given another one by a smart restore that was
not asked for it. -/
structure Overwrites (w : Project) (projectId : Int64) (id : Int) (o : RestoreOptions)
    (host : RestoreHost) (p c : Bytes) : Prop where
  project : projectId = w.projectId
  snapshot : w.snapshots.get? id = some w.projectId
  live : o.dryRun = false
  noIncludes : o.includePaths = []
  notExcluded : isExcluded p o.excludePaths = false
  filesRead : host.filesRead = true
  diffRead : host.diffRead = true
  /-- The scan did not come to it, or it has another class and another checksum. -/
  changed : ∃ f, fileAt (getWorkspaceFiles id w.files) p = some f ∧
    (host.reading.reached p = true →
      f.hash ≠ computeFileHash (host.reading.readable p) c ∧ detectFileType p ≠ .source)
  copied : ∃ copy, w.tree.content (storagePath id p) = some copy ∧
    afterCopy host.disk p copy c ≠ c

theorem storageDir_of_content {copy : Bytes} (h : w.tree.content (storagePath id p) = some copy) :
    w.tree.get (storageDir id) ≠ none := by
  have hdir : storageDir id ∈ ancestors (storagePath id p) :=
    mem_ancestors.2 ⟨p, by rw [storagePath, List.append_assoc]; rfl⟩
  rw [ancestors_of_content h _ hdir]
  exact Option.some_ne_none _

theorem shouldInclude_iff (hp : isExcluded p o.includePaths = false) :
    o.shouldInclude p = true ↔ o.includePaths = [] ∧ isExcluded p o.excludePaths = false := by
  rw [RestoreOptions.shouldInclude]
  cases hincludes : o.includePaths with
  | nil => simp
  | cons pat pats =>
      rw [hincludes] at hp
      simp [matchesPrefix, hp]

theorem content_smartRestore_iff {projectId : Int64} (hsmart : Smart o)
    (hc : w.tree.content p = some c) (hp : isExcluded p o.includePaths = false) :
    (w.restore projectId id o host).2.tree.content p = some c ↔
      ¬ w.Overwrites projectId id o host p c := by
  by_cases hpresent : projectId = w.projectId ∧ w.snapshots.get? id = some w.projectId ∧
      w.tree.get (storageDir id) ≠ none
  · obtain ⟨rfl, hsnapshot, hdir⟩ := hpresent
    have hnodup : (w.smartPaths o host id).Nodup := nodup_restorePaths _ _
    have hdots : ∀ q ∈ w.smartPaths o host id, q.head? ≠ some 46 := fun _ hq =>
      head?_of_mem_smartPaths hq
    have hgoes := mem_smartPaths o host hsnapshot hc
    rw [shouldInclude_iff hp] at hgoes
    rw [tree_smartRestore hsmart hsnapshot hdir, content_restoreFiles_existing hnodup hdots hc]
    constructor
    · intro hkept h
      obtain ⟨f, hf, hchanged⟩ := h.changed
      obtain ⟨copy, hcopy, hdiffers⟩ := h.copied
      rw [if_pos, hcopy] at hkept
      · exact hdiffers (Option.some.inj hkept)
      · refine ⟨hgoes.2 ⟨h.filesRead, ⟨h.noIncludes, h.notExcluded⟩, f, hf, ?_⟩, h.live⟩
        rw [if_pos h.diffRead]
        exact fun hreached => ⟨(hchanged hreached).1, .inl (hchanged hreached).2⟩
    · intro h
      split
      · next hturn =>
          obtain ⟨hmem, hlive⟩ := hturn
          obtain ⟨hread, ⟨hincludes, hexcludes⟩, f, hf, hchanged⟩ := hgoes.1 hmem
          cases hcopy : w.tree.content (storagePath id p) with
          | none => rfl
          | some copy =>
              refine congrArg some (not_not.1 fun hdiffers => h ?_)
              split at hchanged
              · next hdiff =>
                  refine ⟨rfl, hsnapshot, hlive, hincludes, hexcludes, hread, hdiff, ⟨f, hf, ?_⟩,
                    copy, hcopy, hdiffers⟩
                  intro hreached
                  obtain ⟨hhash, hclass⟩ := hchanged hreached
                  exact ⟨hhash, hclass.resolve_right (by simp [hp])⟩
              · exact absurd hchanged.2 (by simp [hp])
      · rfl
  · rw [restore_of_absent hpresent]
    refine iff_of_true hc fun h => hpresent ⟨h.project, h.snapshot, ?_⟩
    obtain ⟨copy, hcopy, -⟩ := h.copied
    exact storageDir_of_content hcopy

end

/-! ## Source files -/

/-- The file has one of the source extensions. -/
def hasSourceExtension (path : Bytes) : Bool := sourceFragments.any fun ext => ext.isSuffixOf path

/-- A restore leaves every source file as it is that is there and that it was not asked for. -/
def KeepsSource (w : Project) (projectId : Int64) (id : Int) (o : RestoreOptions)
    (host : RestoreHost) : Prop :=
  ∀ p c, hasSourceExtension p = true → w.tree.content p = some c →
    isExcluded p o.includePaths = false → (w.restore projectId id o host).2.tree.content p = some c

theorem keepsSource_iff {w : Project} {projectId : Int64} {id : Int} {o : RestoreOptions}
    {host : RestoreHost} (hsmart : Smart o) :
    w.KeepsSource projectId id o host ↔ ∀ p c, hasSourceExtension p = true →
      w.tree.content p = some c → ¬ w.Overwrites projectId id o host p c := by
  constructor
  · intro hkeeps p c hext hc h
    have hp : isExcluded p o.includePaths = false := by rw [h.noIncludes]; rfl
    exact (content_smartRestore_iff hsmart hc hp).1 (hkeeps p c hext hc hp) h
  · intro h p c hext hc hp
    exact (content_smartRestore_iff hsmart hc hp).2 (h p c hext hc)

/-- The edit of a file that the scan comes to and takes for a source file. -/
theorem keepsSource_iff_edited :
    Smart {} ∧ ({ baseline with tree := edited } : Project).KeepsSource 1 1 {}
      (restoreHost true) := by
  have hsmart : Smart {} := by
    rw [Smart]
    decide +kernel
  refine ⟨hsmart, (keepsSource_iff hsmart).2 fun p c _ _ h => ?_⟩
  have hrows : ∀ r ∈ baseline.files.data, detectFileType r.file.path = .source := by decide +kernel
  obtain ⟨f, hf, hchanged⟩ := h.changed
  obtain ⟨hmem, rfl⟩ := path_of_fileAt hf
  rw [getWorkspaceFiles, (List.mergeSort_perm _ _).mem_iff, List.mem_map] at hmem
  obtain ⟨r, hr, rfl⟩ := hmem
  exact (hchanged rfl).2 (hrows r (List.mem_filter.1 hr).1)

/-- A workspace with a source file that has an `.a` in its name. -/
def asyncTree : FileTree where
  nodes := (OrdMap.empty.insert (bytes "src") .dir).insert (bytes "src/io.async.cpp")
    (.file (bytes "poll();"))
  closed := by decide +kernel
  nulFree := by decide +kernel

def asyncBaseline : Project := ({ oneFile with tree := asyncTree }.createSnapshot {} createHost).2

/-- The file after an edit. -/
def asyncEdited : Project :=
  { asyncBaseline with
    tree := (asyncBaseline.tree.put (bytes "src/io.async.cpp")
      (.file (bytes "await();"))).getD asyncBaseline.tree }

/-- It is overwritten by a smart restore. -/
theorem async_not_keepsSource : ¬ asyncEdited.KeepsSource 1 1 {} (restoreHost true) := by
  intro h
  have hsmart : Smart {} := by
    rw [Smart]
    decide +kernel
  have hcontent : asyncEdited.tree.content (bytes "src/io.async.cpp") = some (bytes "await();") := by
    decide +kernel
  have hkept := h _ _ (by decide +kernel) hcontent rfl
  have hrows : (asyncEdited.files.data.filter fun r => r.snapshotId = 1).map FileRow.file =
      [⟨bytes "src/io.async.cpp", .build, computeFileHash true (bytes "poll();"), 7⟩] := by
    decide +kernel
  have hfile : fileAt (getWorkspaceFiles 1 asyncEdited.files) (bytes "src/io.async.cpp") =
      some ⟨bytes "src/io.async.cpp", .build, computeFileHash true (bytes "poll();"), 7⟩ := by
    rw [getWorkspaceFiles, hrows, List.mergeSort_singleton]
    rfl
  have hchanged : computeFileHash true (bytes "poll();") ≠ computeFileHash true (bytes "await();") ∧
      detectFileType (bytes "src/io.async.cpp") ≠ .source := by decide +kernel
  have hcopy : asyncEdited.tree.content (storagePath 1 (bytes "src/io.async.cpp")) =
      some (bytes "poll();") := by decide +kernel
  have hcopied : afterCopy .sound (bytes "src/io.async.cpp") (bytes "poll();")
      (bytes "await();") ≠ bytes "await();" := by decide +kernel
  exact (content_smartRestore_iff hsmart hcontent rfl).1 hkept
    ⟨rfl, by decide +kernel, rfl, rfl, rfl, rfl, rfl, ⟨_, hfile, fun _ => hchanged⟩,
      _, hcopy, hcopied⟩

end Project

end Nazg.Workspace
