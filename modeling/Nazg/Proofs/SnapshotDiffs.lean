import Nazg.Workspace.SnapshotDiff

/-!
# What a comparison of snapshots reports

Of the files everything is reported, once and in one list. Of the keys everything is, unless
a value is the text that stands for a key that is not there.

`reportsDifferences_iff` puts this together.
-/

namespace Nazg.Workspace

open Lib

/-! ## Files -/

/-- The lists share the changes out among them. -/
theorem changesOfType_perm (changes : List (WorkspaceFile × FileChange)) :
    (changesOfType .source changes ++ changesOfType .build changes ++
        changesOfType .dependency changes ++ changesOfType .config changes ++
        changesOfType .unknown changes).Perm (changes.map Prod.snd) := by
  induction changes with
  | nil => exact List.Perm.nil
  | cons c changes ih =>
      have hhead : ∀ type, changesOfType type (c :: changes) =
          if c.1.type = type then c.2 :: changesOfType type changes
          else changesOfType type changes := by
        intro type
        rw [changesOfType, List.filter_cons]
        split
        · next h => rw [if_pos (by simpa using h)]; rfl
        · next h => rw [if_neg (by simpa using h)]; rfl
      simp only [hhead, List.map_cons]
      refine List.Perm.trans (List.perm_iff_count.2 fun x => ?_) (ih.cons c.2)
      cases c.1.type with
      | source | build | dependency | config | unknown =>
          simp only [reduceCtorEq, if_false, if_true, List.count_append, List.count_cons]
          omega

theorem changes_perm (fromFiles toFiles : List WorkspaceFile) :
    (computeSnapshotDiff fromFiles toFiles).changes.Perm
      ((changesBetween fromFiles toFiles).map Prod.snd) :=
  changesOfType_perm _

/-- Each path leads to at most one change, which has the path. -/
theorem paths_sublist (fromFiles toFiles : List WorkspaceFile) (paths : List Bytes) :
    (((paths.filterMap fun path =>
      changeOf path (fileAt fromFiles path) (fileAt toFiles path)).map Prod.snd).map
        FileChange.path).Sublist paths := by
  induction paths with
  | nil => exact List.Sublist.slnil
  | cons path paths ih =>
      rw [List.filterMap_cons]
      cases h : changeOf path (fileAt fromFiles path) (fileAt toFiles path) with
      | none => exact ih.cons path
      | some x =>
          rw [List.map_cons, List.map_cons, path_of_changeOf h]
          exact ih.cons_cons path

theorem nodup_paths (fromFiles toFiles : List WorkspaceFile) :
    ((computeSnapshotDiff fromFiles toFiles).changes.map FileChange.path).Nodup := by
  rw [((changes_perm fromFiles toFiles).map _).nodup_iff]
  exact (paths_sublist fromFiles toFiles _).nodup (List.nodup_dedup _)

theorem mem_changes_iff {fromFiles toFiles : List WorkspaceFile} {c : FileChange} :
    c ∈ (computeSnapshotDiff fromFiles toFiles).changes ↔
      (changeOf c.path (fileAt fromFiles c.path) (fileAt toFiles c.path)).map Prod.snd =
        some c := by
  rw [mem_changes]
  constructor
  · rintro ⟨f, hf⟩
    obtain ⟨path, h⟩ := mem_changesBetween.1 hf
    rw [path_of_changeOf h, h]
    rfl
  · intro h
    obtain ⟨⟨f, c'⟩, h, rfl⟩ := Option.map_eq_some_iff.1 h
    exact ⟨f, mem_changesBetween.2 ⟨_, h⟩⟩

theorem fileAt_eq_none {files : List WorkspaceFile} {path : Bytes} :
    fileAt files path = none ↔ path ∉ files.map WorkspaceFile.path := by
  rw [fileAt, List.find?_eq_none, List.mem_map]
  constructor
  · rintro h ⟨f, hf, hpath⟩
    exact h f (List.mem_reverse.2 hf) (decide_eq_true hpath)
  · intro h f hf hpath
    exact h ⟨f, List.mem_reverse.1 hf, of_decide_eq_true hpath⟩

/-- The change seen from the other side. -/
def FileChange.mirrored (c : FileChange) : FileChange where
  path := c.path
  changeType :=
    match c.changeType with
    | .added => .deleted
    | .deleted => .added
    | .modified => .modified
  oldHash := c.newHash
  newHash := c.oldHash
  sizeDiff := -c.sizeDiff

theorem FileChange.mirrored_mirrored (c : FileChange) : c.mirrored.mirrored = c := by
  obtain ⟨path, changeType, oldHash, newHash, sizeDiff⟩ := c
  cases changeType <;> simp [mirrored]

theorem changeOf_swap (path : Bytes) (old new : Option WorkspaceFile) :
    (changeOf path new old).map Prod.snd =
      ((changeOf path old new).map Prod.snd).map FileChange.mirrored := by
  cases old with
  | none =>
      cases new with
      | none => rfl
      | some new => rfl
  | some old =>
      cases new with
      | none => simp [changeOf, FileChange.mirrored]
      | some new =>
          by_cases hhash : old.hash = new.hash
          · simp [changeOf, hhash]
          · simp [changeOf, hhash, Ne.symm hhash, FileChange.mirrored]

theorem mirrored_mem_changes {fromFiles toFiles : List WorkspaceFile} {c : FileChange}
    (h : c ∈ (computeSnapshotDiff fromFiles toFiles).changes) :
    c.mirrored ∈ (computeSnapshotDiff toFiles fromFiles).changes := by
  have hc := mem_changes_iff.1 h
  refine mem_changes_iff.2 ?_
  show (changeOf c.path (fileAt toFiles c.path) (fileAt fromFiles c.path)).map Prod.snd =
    some c.mirrored
  rw [changeOf_swap, hc]
  rfl

/-- The kind of the change at a path. -/
theorem exists_change_iff {fromFiles toFiles : List WorkspaceFile} {path : Bytes}
    {type : ChangeType} :
    (∃ c ∈ (computeSnapshotDiff fromFiles toFiles).changes, c.path = path ∧ c.changeType = type) ↔
      (changeOf path (fileAt fromFiles path) (fileAt toFiles path)).map
        (fun x => x.2.changeType) = some type := by
  constructor
  · rintro ⟨c, hc, rfl, rfl⟩
    have h := congrArg (Option.map FileChange.changeType) (mem_changes_iff.1 hc)
    rwa [Option.map_map] at h
  · intro h
    obtain ⟨⟨f, c⟩, hx, htype⟩ := Option.map_eq_some_iff.1 h
    have hpath := path_of_changeOf hx
    subst hpath
    exact ⟨c, mem_changes_iff.2 (by rw [hx]; rfl), rfl, htype⟩

theorem mem_paths_iff {files : List WorkspaceFile} {path : Bytes} :
    path ∈ files.map WorkspaceFile.path ↔ fileAt files path ≠ none := by
  rw [Ne, fileAt_eq_none, not_not]

section

variable {fromFiles toFiles : List WorkspaceFile} {path : Bytes}

theorem added_iff :
    (∃ c ∈ (computeSnapshotDiff fromFiles toFiles).changes,
        c.path = path ∧ c.changeType = .added) ↔
      path ∉ fromFiles.map WorkspaceFile.path ∧ path ∈ toFiles.map WorkspaceFile.path := by
  rw [exists_change_iff, mem_paths_iff, mem_paths_iff, not_not]
  cases fileAt fromFiles path with
  | none =>
      cases fileAt toFiles path with
      | none => simp [changeOf]
      | some new => simp [changeOf]
  | some old =>
      cases fileAt toFiles path with
      | none => simp [changeOf]
      | some new =>
          by_cases hhash : old.hash = new.hash
          · simp [changeOf, hhash]
          · simp [changeOf, hhash]

/-- By the mirror, what is deleted is what is added. -/
theorem deleted_iff :
    (∃ c ∈ (computeSnapshotDiff fromFiles toFiles).changes,
        c.path = path ∧ c.changeType = .deleted) ↔
      path ∈ fromFiles.map WorkspaceFile.path ∧ path ∉ toFiles.map WorkspaceFile.path := by
  rw [and_comm, ← added_iff]
  constructor
  · rintro ⟨c, hc, hpath, htype⟩
    exact ⟨c.mirrored, mirrored_mem_changes hc, hpath, by simp [FileChange.mirrored, htype]⟩
  · rintro ⟨c, hc, hpath, htype⟩
    exact ⟨c.mirrored, mirrored_mem_changes hc, hpath, by simp [FileChange.mirrored, htype]⟩

theorem modified_iff (hfrom : (fromFiles.map WorkspaceFile.path).Nodup)
    (hto : (toFiles.map WorkspaceFile.path).Nodup) :
    (∃ c ∈ (computeSnapshotDiff fromFiles toFiles).changes,
        c.path = path ∧ c.changeType = .modified) ↔
      ∃ f ∈ fromFiles, ∃ g ∈ toFiles, f.path = path ∧ g.path = path ∧ f.hash ≠ g.hash := by
  rw [exists_change_iff]
  constructor
  · intro h
    cases hold : fileAt fromFiles path with
    | none =>
        cases hnew : fileAt toFiles path with
        | none => simp [hold, hnew, changeOf] at h
        | some new => simp [hold, hnew, changeOf] at h
    | some old =>
        cases hnew : fileAt toFiles path with
        | none => simp [hold, hnew, changeOf] at h
        | some new =>
            have hhash : old.hash ≠ new.hash := fun heq => by simp [hold, hnew, changeOf, heq] at h
            obtain ⟨hf, hfpath⟩ := path_of_fileAt hold
            obtain ⟨hg, hgpath⟩ := path_of_fileAt hnew
            exact ⟨old, hf, new, hg, hfpath, hgpath, hhash⟩
  · rintro ⟨f, hf, g, hg, rfl, hgpath, hhash⟩
    have hnew := fileAt_eq_some hto hg
    rw [hgpath] at hnew
    rw [fileAt_eq_some hfrom hf, hnew]
    simp [changeOf, hhash]

end

/-! ## Keys -/

/-- No value is the text for a key that is not there, where the other map does not have the
key. -/
def Unambiguous (old new : OrdMap Bytes Bytes) : Prop :=
  ∀ key, (old.find? key = none → new.find? key ≠ some missing) ∧
    (new.find? key = none → old.find? key ≠ some missing)

/-- Exactly the keys are reported whose presence or value differs. -/
def KeysReported (old new changes : OrdMap Bytes Bytes) : Prop :=
  ∀ key, key ∈ changes.keys ↔ old.find? key ≠ new.find? key

theorem valueAt_ne_iff {old new : OrdMap Bytes Bytes} {key : Bytes} :
    (valueAt old key ≠ valueAt new key ↔ old.find? key ≠ new.find? key) ↔
      (old.find? key = none → new.find? key ≠ some missing) ∧
        (new.find? key = none → old.find? key ≠ some missing) := by
  rw [valueAt, valueAt]
  cases old.find? key with
  | none =>
      cases new.find? key with
      | none => simp
      | some v => simp [eq_comm]
  | some u =>
      cases new.find? key with
      | none => simp
      | some v => simp

theorem keysReported_iff {old new : OrdMap Bytes Bytes} :
    KeysReported old new (keyChanges old new) ↔ Unambiguous old new := by
  refine forall_congr' fun key => ?_
  rw [mem_keys_keyChanges, valueAt_ne_iff]

/-! ## The comparison -/

/-- What a comparison is for. -/
structure ReportsDifferences (a b : WorkspaceSnapshot) : Prop where
  /-- Of a path there is one change, in one list. -/
  once : ((computeWorkspaceDiff a b).changes.map FileChange.path).Nodup
  added : ∀ path, (∃ c ∈ (computeWorkspaceDiff a b).changes,
    c.path = path ∧ c.changeType = .added) ↔
      path ∉ a.files.map WorkspaceFile.path ∧ path ∈ b.files.map WorkspaceFile.path
  deleted : ∀ path, (∃ c ∈ (computeWorkspaceDiff a b).changes,
    c.path = path ∧ c.changeType = .deleted) ↔
      path ∈ a.files.map WorkspaceFile.path ∧ path ∉ b.files.map WorkspaceFile.path
  modified : ∀ path, (∃ c ∈ (computeWorkspaceDiff a b).changes,
    c.path = path ∧ c.changeType = .modified) ↔
      ∃ f ∈ a.files, ∃ g ∈ b.files, f.path = path ∧ g.path = path ∧ f.hash ≠ g.hash
  environment : KeysReported a.envSnapshot b.envSnapshot (computeWorkspaceDiff a b).envChanges
  system : KeysReported a.systemInfo b.systemInfo (computeWorkspaceDiff a b).systemInfoChanges
  manifests : KeysReported (parseManifestHashes a.depsManifestHash)
    (parseManifestHashes b.depsManifestHash) (computeWorkspaceDiff a b).depUpgrades
  mirror : ∀ c, c ∈ (computeWorkspaceDiff a b).changes ↔
    c.mirrored ∈ (computeWorkspaceDiff b a).changes

/-- A comparison of two snapshots reports what differs exactly if in none of the three kinds of
keys a value stands for a key that is not there. -/
theorem reportsDifferences_iff {a b : WorkspaceSnapshot}
    (ha : (a.files.map WorkspaceFile.path).Nodup) (hb : (b.files.map WorkspaceFile.path).Nodup) :
    ReportsDifferences a b ↔
      Unambiguous a.envSnapshot b.envSnapshot ∧ Unambiguous a.systemInfo b.systemInfo ∧
        Unambiguous (parseManifestHashes a.depsManifestHash)
          (parseManifestHashes b.depsManifestHash) := by
  constructor
  · intro h
    exact ⟨keysReported_iff.1 h.environment, keysReported_iff.1 h.system,
      keysReported_iff.1 h.manifests⟩
  · rintro ⟨henv, hsystem, hmanifests⟩
    exact {
      once := nodup_paths _ _
      added := fun _ => added_iff
      deleted := fun _ => deleted_iff
      modified := fun _ => modified_iff ha hb
      environment := keysReported_iff.2 henv
      system := keysReported_iff.2 hsystem
      manifests := keysReported_iff.2 hmanifests
      mirror := fun c => ⟨mirrored_mem_changes, fun h =>
        c.mirrored_mirrored ▸ mirrored_mem_changes h⟩ }

/-- A snapshot of one file and one variable, if it is set. -/
def oneVariable (id : Int) (hash : String) (cc : Option String) : WorkspaceSnapshot where
  id := id
  files := [⟨bytes "main.cpp", .source, bytes hash, 12⟩]
  envSnapshot := cc.elim .empty fun value => OrdMap.empty.insert (bytes "CC") (bytes value)
  systemInfo := .empty
  depsManifestHash := []

theorem reportsDifferences_iff_edited :
    ((oneVariable 1 "a0" (some "gcc")).files.map WorkspaceFile.path).Nodup ∧
      ((oneVariable 2 "b1" (some "clang")).files.map WorkspaceFile.path).Nodup ∧
      (ReportsDifferences (oneVariable 1 "a0" (some "gcc")) (oneVariable 2 "b1" (some "clang")) ↔
        Unambiguous (oneVariable 1 "a0" (some "gcc")).envSnapshot
            (oneVariable 2 "b1" (some "clang")).envSnapshot ∧
          Unambiguous .empty .empty ∧
          Unambiguous (parseManifestHashes []) (parseManifestHashes [])) :=
  ⟨by decide, by decide, reportsDifferences_iff (by decide) (by decide)⟩

/-- The compiler is set to the text that stands for a variable that is not set. -/
theorem missing_not_reportsDifferences :
    ¬ ReportsDifferences (oneVariable 1 "a0" none) (oneVariable 2 "a0" (some "(missing)")) := by
  intro h
  exact absurd (h.environment (bytes "CC")) (by decide +kernel)

end Nazg.Workspace
