import Nazg.Proofs.SmartRestore

/-!
# Which changes are detected

A file counts as changed if its checksum did. The checksum is a polynomial in the bytes of
the file modulo `2 ^ 64`, so there are other contents with the same one, some of two bytes.
A file that cannot be read has the empty checksum, whatever is in it, and one that the scan
of the workspace does not come to is reported as added.

`detects_iff` puts these together, for a file of a snapshot and any later content.
-/

namespace Nazg.Workspace

open Lib Lib.Sqlite

/-! ## Checksums -/

theorem rollingText_ne_nil (s : Bytes) : rollingText s ≠ [] := by
  intro h
  rw [rollingText, hexNumber, List.map_eq_nil_iff] at h
  exact Nat.toDigits_ne_nil h

/-- Two readings of a file tell its contents apart. -/
def TellsApart (readable₁ : Bool) (content₁ : Bytes) (readable₂ : Bool) (content₂ : Bytes) : Prop :=
  readable₁ ≠ readable₂ ∨ readable₁ = true ∧ readable₂ = true ∧
    ¬ charPolynomial content₁ ≡ charPolynomial content₂ [ZMOD 2 ^ 64]

theorem computeFileHash_ne_iff {r₁ r₂ : Bool} {c₁ c₂ : Bytes} :
    computeFileHash r₁ c₁ ≠ computeFileHash r₂ c₂ ↔ TellsApart r₁ c₁ r₂ c₂ := by
  have h₁ := rollingText_ne_nil c₁
  have h₂ := (rollingText_ne_nil c₂).symm
  cases r₁ with
  | false => cases r₂ <;> simp [computeFileHash, TellsApart, h₂]
  | true => cases r₂ <;> simp [computeFileHash, TellsApart, h₁, rollingText_eq_iff]

namespace Project

/-! ## The record of a snapshot -/

/-- The record of a snapshot is as it was. -/
structure Keeps (id : Int) (w w' : Project) : Prop where
  project : w'.projectId = w.projectId
  snapshot : w'.snapshots.get? id = w.snapshots.get? id
  files : getWorkspaceFiles id w'.files = getWorkspaceFiles id w.files

theorem Keeps.edit (id : Int) (w : Project) (t : FileTree) : Keeps id w { w with tree := t } :=
  ⟨rfl, rfl, rfl⟩

section

variable {w w₁ : Project} {opts : SnapshotOptions} {host : CreateHost} {s : Created}

theorem record_of_createSnapshot (h : w.createSnapshot opts host = (some s, w₁)) :
    s.id = w.snapshots.lastId + 1 ∧ ∃ t, w₁ = { w.record opts host with tree := t } := by
  rw [createSnapshot] at h
  split at h
  · cases h
  · dsimp only at h
    split at h
    · cases h
      exact ⟨rfl, _, rfl⟩
    · cases h
      exact ⟨rfl, _, rfl⟩

/-- A later snapshot leaves it alone. -/
theorem Keeps.createSnapshot {id : Int} {owner : Int64} (hid : w.snapshots.get? id = some owner)
    (h : w.createSnapshot opts host = (some s, w₁)) : Keeps id w w₁ := by
  obtain ⟨-, t, rfl⟩ := record_of_createSnapshot h
  have hle : id ≤ w.snapshots.lastId := w.wf.le_lastId _ (Table.mem_ids_of_get? hid)
  refine ⟨rfl, ?_, ?_⟩
  · obtain ⟨owner', howner, heq⟩ :=
      Table.keeps_insertRow (fun x : Int64 => x) w.snapshots w.projectId id owner hid
    rw [hid, ← show owner' = owner from heq]
    exact howner
  · have hnew : ((w.found opts host).map (fileRow (w.snapshots.lastId + 1))).filter
        (fun r => r.snapshotId = id) = [] := by
      refine List.filter_eq_nil_iff.2 fun r hr => ?_
      obtain ⟨f, -, rfl⟩ := List.mem_map.1 hr
      show ¬ decide (w.snapshots.lastId + 1 = id) = true
      rw [decide_eq_true_eq]
      omega
    rw [getWorkspaceFiles, record, data_recordFiles, List.filter_append, hnew, List.append_nil]
    rfl

theorem snapshot_of_createSnapshot (h : w.createSnapshot opts host = (some s, w₁)) :
    w₁.snapshots.get? s.id = some w₁.projectId := by
  obtain ⟨hid, t, rfl⟩ := record_of_createSnapshot h
  rw [hid]
  refine Table.get?_of_mem (w.wf.insertRow _) ?_
  exact List.mem_append_right _ (List.mem_singleton.2 rfl)

/-- Each file that a snapshot recorded is found in it. -/
theorem fileAt_of_createSnapshot (h : w.createSnapshot opts host = (some s, w₁))
    {f : WorkspaceFile} (hf : f ∈ w.found opts host) :
    fileAt (getWorkspaceFiles s.id w₁.files) f.path = some f := by
  obtain ⟨hid, t, rfl⟩ := record_of_createSnapshot h
  rw [hid]
  have hmem : f ∈ getWorkspaceFiles (w.snapshots.lastId + 1) (w.record opts host).files :=
    mem_getWorkspaceFiles_record.2 hf
  cases hfile : fileAt (getWorkspaceFiles (w.snapshots.lastId + 1) (w.record opts host).files)
      f.path with
  | none => simpa using List.find?_eq_none.1 hfile f (List.mem_reverse.2 hmem)
  | some g =>
      obtain ⟨hg, hpath⟩ := path_of_fileAt hfile
      have hscan : ∀ x, x ∈ getWorkspaceFiles (w.snapshots.lastId + 1) (w.record opts host).files →
          x ∈ scanWorkspace opts host.reading w.tree := fun x hx =>
        found_sublist.subset (mem_getWorkspaceFiles_record.1 hx)
      exact congrArg some
        (List.inj_on_of_nodup_map nodup_scanWorkspace (hscan g hg) (hscan f hmem) hpath)

end

/-! ## Detection -/

/-- A smart restore with these options brings the path back if it is changed. -/
def BringsBack (o : RestoreOptions) (p : Bytes) : Prop :=
  o.shouldInclude p = true ∧ (detectFileType p ≠ .source ∨ isExcluded p o.includePaths = true)

/-- The path is reported as modified, and no smart restore that is to bring it back skips it. -/
def Detects (w : Project) (id : Int) (host : RestoreHost) (p : Bytes) : Prop :=
  (∃ change ∈ (w.diffCurrent host.diffRead host.reading w.projectId id).changes,
    change.path = p ∧ change.changeType = .modified) ∧
  ∀ o, Smart o → BringsBack o p → p ∈ w.smartPaths o host id

section

variable {w : Project} {id : Int} {host : RestoreHost} {p c : Bytes} {f : WorkspaceFile}

theorem modified_iff (host : RestoreHost) (hsnapshot : w.snapshots.get? id = some w.projectId)
    (hf : fileAt (getWorkspaceFiles id w.files) p = some f) (hc : w.tree.content p = some c) :
    (∃ change ∈ (w.diffCurrent host.diffRead host.reading w.projectId id).changes,
        change.path = p ∧ change.changeType = .modified) ↔
      host.diffRead = true ∧ host.reading.reached p = true ∧
        f.hash ≠ computeFileHash (host.reading.readable p) c := by
  obtain ⟨hmem, hpath⟩ := path_of_fileAt hf
  obtain ⟨hskips, -⟩ := recorded_of_mem hmem
  rw [hpath] at hskips
  have hscan := fileAt_scanWorkspace host.reading hc hskips
  have hchanges : ∀ change : FileChange,
      change ∈ (w.diffCurrent host.diffRead host.reading w.projectId id).changes ∧
        change.path = p ↔ ∃ g, changeOf p
          (if host.reading.reached p then some (scanned host.reading (p, c)) else none)
          (if host.diffRead then some f else none) = some (g, change) := by
    intro change
    have hnew : fileAt (if host.diffRead then getWorkspaceFiles id w.files else []) p =
        if host.diffRead then some f else none := by
      split
      · exact hf
      · rfl
    rw [diffCurrent, if_neg (by simp), getSnapshot, hsnapshot, ← hscan, ← hnew]
    simp only [Option.map_some, mem_changes, mem_changesBetween]
    constructor
    · rintro ⟨⟨g, path, hchange⟩, rfl⟩
      obtain rfl := path_of_changeOf hchange
      exact ⟨g, hchange⟩
    · rintro ⟨g, hchange⟩
      exact ⟨⟨g, p, hchange⟩, path_of_changeOf hchange⟩
  simp only [← and_assoc, hchanges]
  by_cases hread : host.diffRead = true
  · by_cases hreached : host.reading.reached p = true
    · rw [if_pos hread, if_pos hreached, changeOf]
      split
      · next hsame =>
          have hhash : f.hash = computeFileHash (host.reading.readable p) c := hsame.symm
          simp [hhash]
      · next hdiffers =>
          have hhash : f.hash ≠ computeFileHash (host.reading.readable p) c := Ne.symm hdiffers
          simp [hread, hreached, hhash]
    · rw [if_pos hread, if_neg hreached, changeOf]
      simp [hreached]
  · rw [if_neg hread]
    by_cases hreached : host.reading.reached p = true
    · rw [if_pos hreached, changeOf]
      simp [hread]
    · rw [if_neg hreached, changeOf]
      simp [hread]

/-- Every path is brought back by some restore, one that asks for it if need be. -/
theorem exists_bringsBack (p : Bytes) : ∃ o, Smart o ∧ BringsBack o p := by
  have hasked : (bytes "smart").map RestoreOptions.toLower = bytes "smart" := by decide +kernel
  have hsmart : ∀ o : RestoreOptions, o.restoreType = bytes "smart" → Smart o := by
    intro o ho
    rw [Smart, RestoreOptions.asked, ho, if_neg (by decide +kernel)]
    exact hasked
  by_cases hsource : detectFileType p = .source
  · have hempty : p ≠ [] := by
      rintro rfl
      revert hsource
      decide +kernel
    have hself : isExcluded p [p] = true := by simp [isExcluded, hempty]
    refine ⟨{ includePaths := [p] }, hsmart _ rfl, ?_, .inr hself⟩
    rw [RestoreOptions.shouldInclude, matchesPrefix, hself]
    rfl
  · exact ⟨{}, hsmart _ rfl, rfl, .inl hsource⟩

end

/-- A file of a snapshot, with any content in any later state in which the snapshot is still
recorded. -/
theorem detects_iff {w w₁ w' : Project} {opts : SnapshotOptions} {create : CreateHost} {s : Created}
    {f : WorkspaceFile} {before now : Bytes} {host : RestoreHost}
    (hcreate : w.createSnapshot opts create = (some s, w₁)) (hf : f ∈ w.found opts create)
    (hbefore : w.tree.content f.path = some before) (hkeeps : Keeps s.id w₁ w')
    (hnow : w'.tree.content f.path = some now) :
    w'.Detects s.id host f.path ↔
      host.filesRead = true ∧ host.diffRead = true ∧ host.reading.reached f.path = true ∧
        TellsApart (create.reading.readable f.path) before
          (host.reading.readable f.path) now := by
  have hsnapshot : w'.snapshots.get? s.id = some w'.projectId := by
    rw [hkeeps.snapshot, hkeeps.project, snapshot_of_createSnapshot hcreate]
  have hfile : fileAt (getWorkspaceFiles s.id w'.files) f.path = some f := by
    rw [hkeeps.files, fileAt_of_createSnapshot hcreate hf]
  have hhash : f.hash = computeFileHash (create.reading.readable f.path) before := by
    obtain ⟨content, hcontent, -, -, heq⟩ := mem_scanWorkspace.1 (found_sublist.subset hf)
    obtain rfl := Option.some.inj (hcontent.symm.trans hbefore)
    rw [heq]
    rfl
  have hmodified := modified_iff host hsnapshot hfile hnow
  rw [hhash, computeFileHash_ne_iff] at hmodified
  rw [Detects, hmodified]
  constructor
  · rintro ⟨⟨hdiff, hreached, htells⟩, hrestores⟩
    obtain ⟨o, hsmart, hback⟩ := exists_bringsBack f.path
    have hgoes := (mem_smartPaths _ _ hsnapshot hnow).1 (hrestores o hsmart hback)
    exact ⟨hgoes.1, hdiff, hreached, htells⟩
  · rintro ⟨hread, hdiff, hreached, htells⟩
    refine ⟨⟨hdiff, hreached, htells⟩, fun o _ hback => (mem_smartPaths _ _ hsnapshot hnow).2 ?_⟩
    refine ⟨hread, hback.1, f, hfile, ?_⟩
    rw [if_pos hdiff, hhash, computeFileHash_ne_iff]
    exact fun _ => ⟨htells, hback.2⟩

/-- The edit of a file in a workspace of one. -/
theorem detects_iff_edited :
    ({ baseline with tree := edited } : Project).Detects 1 (restoreHost true)
      (bytes "value.cpp") := by
  have hcreate : oneFile.createSnapshot {} createHost = (some ⟨1, true⟩, baseline) :=
    Prod.ext (by decide +kernel) rfl
  have hf : scanned .whole (bytes "value.cpp", bytes "return 1;") ∈ oneFile.found {} createHost := by
    decide +kernel
  have hbefore : oneFile.tree.content (bytes "value.cpp") = some (bytes "return 1;") := by
    decide +kernel
  have hnow : edited.content (bytes "value.cpp") = some (bytes "return 42;") := by decide +kernel
  have htells : ¬ charPolynomial (bytes "return 1;") ≡ charPolynomial (bytes "return 42;")
      [ZMOD 2 ^ 64] := by decide +kernel
  exact (detects_iff hcreate hf hbefore (Keeps.edit _ _ edited) hnow).2
    ⟨rfl, rfl, rfl, .inr ⟨rfl, rfl, htells⟩⟩

/-! ## Two bytes with the same checksum -/

/-- A workspace with one file of two bytes. -/
def twoBytes : Project :=
  { oneFile with
    tree :=
      { nodes := OrdMap.empty.insert (bytes "value.cpp") (.file (bytes "Aa"))
        closed := by decide +kernel
        nulFree := by decide +kernel } }

def twoBytesTaken : Project := (twoBytes.createSnapshot {} createHost).2

/-- After an edit of both bytes. -/
def twoBytesEdited : Project :=
  { twoBytesTaken with
    tree := (twoBytesTaken.tree.put (bytes "value.cpp") (.file (bytes "BB"))).getD
      twoBytesTaken.tree }

theorem collision_not_detected :
    twoBytes.tree.content (bytes "value.cpp") = some (bytes "Aa") ∧
      twoBytesEdited.tree.content (bytes "value.cpp") = some (bytes "BB") ∧
      ¬ twoBytesEdited.Detects 1 (restoreHost true) (bytes "value.cpp") := by
  have hcreate : twoBytes.createSnapshot {} createHost = (some ⟨1, true⟩, twoBytesTaken) :=
    Prod.ext (by decide +kernel) rfl
  have hf : scanned .whole (bytes "value.cpp", bytes "Aa") ∈ twoBytes.found {} createHost := by
    decide +kernel
  have hfile := fileAt_of_createSnapshot hcreate hf
  have hnow : twoBytesEdited.tree.content (bytes "value.cpp") = some (bytes "BB") := by
    decide +kernel
  have hsame : (scanned .whole (bytes "value.cpp", bytes "Aa")).hash =
      computeFileHash true (bytes "BB") := by decide +kernel
  refine ⟨by decide +kernel, hnow, fun h => ?_⟩
  have hmodified := (modified_iff (w := twoBytesEdited) (restoreHost true)
    (by decide +kernel) hfile hnow).1 h.1
  exact hmodified.2.2 hsame

end Project

end Nazg.Workspace
