import Mathlib.Data.List.Dedup
import Nazg.Workspace.Scan

/-!
# Comparing two sets of files

`compute_snapshot_diff` looks every path up in both sets and tells the files apart by
their checksums. Which list of the diff a change goes to is decided by the class of the
file in the second set, or in the first if it is only there. The paths are gone over in
the order of a hash table, so the order within a list means nothing.
-/

namespace Nazg.Workspace

open Lib

inductive ChangeType where
  | added
  | modified
  | deleted
  deriving DecidableEq

structure FileChange where
  path : Bytes
  changeType : ChangeType
  oldHash : Bytes
  newHash : Bytes
  sizeDiff : Int
  deriving DecidableEq

structure SnapshotDiff where
  sourceChanges : List FileChange
  buildChanges : List FileChange
  depChanges : List FileChange
  configChanges : List FileChange
  otherChanges : List FileChange

/-- Every change of the files. -/
def SnapshotDiff.changes (d : SnapshotDiff) : List FileChange :=
  d.sourceChanges ++ d.buildChanges ++ d.depChanges ++ d.configChanges ++ d.otherChanges

/-- The file that a map of the list holds at a path: the last one. -/
def fileAt (files : List WorkspaceFile) (path : Bytes) : Option WorkspaceFile :=
  files.reverse.find? fun f => f.path = path

/-- The change at a path, with the file that decides its class. -/
def changeOf (path : Bytes) : Option WorkspaceFile → Option WorkspaceFile →
    Option (WorkspaceFile × FileChange)
  | some old, some new =>
      if old.hash = new.hash then none
      else some (new, ⟨path, .modified, old.hash, new.hash, new.size - old.size⟩)
  | none, some new => some (new, ⟨path, .added, [], new.hash, new.size⟩)
  | some old, none => some (old, ⟨path, .deleted, old.hash, [], -old.size⟩)
  | none, none => none

theorem path_of_changeOf {path : Bytes} {old new : Option WorkspaceFile} {f : WorkspaceFile}
    {c : FileChange} (h : changeOf path old new = some (f, c)) : c.path = path := by
  cases old with
  | none =>
      cases new with
      | none => cases h
      | some n =>
          cases h
          rfl
  | some o =>
      cases new with
      | none =>
          cases h
          rfl
      | some n =>
          rw [changeOf] at h
          split at h
          · cases h
          · cases h
            rfl

def changesBetween (fromFiles toFiles : List WorkspaceFile) : List (WorkspaceFile × FileChange) :=
  ((fromFiles ++ toFiles).map WorkspaceFile.path).dedup.filterMap fun path =>
    changeOf path (fileAt fromFiles path) (fileAt toFiles path)

/-- `push_change_for_type`, for one of the lists. -/
def changesOfType (type : FileType) (changes : List (WorkspaceFile × FileChange)) :
    List FileChange :=
  (changes.filter fun c => c.1.type = type).map Prod.snd

/-- The files' part of `compute_snapshot_diff`. -/
def computeSnapshotDiff (fromFiles toFiles : List WorkspaceFile) : SnapshotDiff :=
  let changes := changesBetween fromFiles toFiles
  { sourceChanges := changesOfType .source changes
    buildChanges := changesOfType .build changes
    depChanges := changesOfType .dependency changes
    configChanges := changesOfType .config changes
    otherChanges := changesOfType .unknown changes }

theorem path_of_fileAt {files : List WorkspaceFile} {path : Bytes} {f : WorkspaceFile}
    (h : fileAt files path = some f) : f ∈ files ∧ f.path = path := by
  rw [fileAt] at h
  exact ⟨List.mem_reverse.1 (List.mem_of_find?_eq_some h), by simpa using List.find?_some h⟩

/-- A file is found under its path, if no other has the path. -/
theorem fileAt_eq_some {files : List WorkspaceFile} (hnodup : (files.map WorkspaceFile.path).Nodup)
    {f : WorkspaceFile} (hf : f ∈ files) : fileAt files f.path = some f := by
  cases h : fileAt files f.path with
  | none =>
      have hnone := List.find?_eq_none.1 h f (List.mem_reverse.2 hf)
      simp at hnone
  | some g =>
      obtain ⟨hg, hpath⟩ := path_of_fileAt h
      exact congrArg some (List.inj_on_of_nodup_map hnodup hg hf hpath)

theorem mem_changesOfType {type : FileType} {changes : List (WorkspaceFile × FileChange)}
    {c : FileChange} :
    c ∈ changesOfType type changes ↔ ∃ f, (f, c) ∈ changes ∧ f.type = type := by
  rw [changesOfType, List.mem_map]
  constructor
  · rintro ⟨⟨f, c⟩, hmem, rfl⟩
    obtain ⟨hmem, htype⟩ := List.mem_filter.1 hmem
    exact ⟨f, hmem, by simpa using htype⟩
  · rintro ⟨f, hmem, htype⟩
    exact ⟨(f, c), List.mem_filter.2 ⟨hmem, by simpa using htype⟩, rfl⟩

/-- No change is lost in the lists. -/
theorem mem_changes {fromFiles toFiles : List WorkspaceFile} {c : FileChange} :
    c ∈ (computeSnapshotDiff fromFiles toFiles).changes ↔
      ∃ f, (f, c) ∈ changesBetween fromFiles toFiles := by
  simp only [SnapshotDiff.changes, computeSnapshotDiff, List.mem_append, mem_changesOfType]
  constructor
  · rintro ((((⟨f, h, -⟩ | ⟨f, h, -⟩) | ⟨f, h, -⟩) | ⟨f, h, -⟩) | ⟨f, h, -⟩)
    all_goals exact ⟨f, h⟩
  · rintro ⟨f, h⟩
    cases htype : f.type with
    | source => exact .inl (.inl (.inl (.inl ⟨f, h, htype⟩)))
    | build => exact .inl (.inl (.inl (.inr ⟨f, h, htype⟩)))
    | dependency => exact .inl (.inl (.inr ⟨f, h, htype⟩))
    | config => exact .inl (.inr ⟨f, h, htype⟩)
    | unknown => exact .inr ⟨f, h, htype⟩

theorem mem_changesBetween {fromFiles toFiles : List WorkspaceFile} {f : WorkspaceFile}
    {c : FileChange} : (f, c) ∈ changesBetween fromFiles toFiles ↔
      ∃ path, changeOf path (fileAt fromFiles path) (fileAt toFiles path) = some (f, c) := by
  rw [changesBetween, List.mem_filterMap]
  constructor
  · rintro ⟨path, -, h⟩
    exact ⟨path, h⟩
  · rintro ⟨path, h⟩
    refine ⟨path, List.mem_dedup.2 ?_, h⟩
    rw [List.map_append, List.mem_append]
    cases hold : fileAt fromFiles path with
    | some old =>
        obtain ⟨hmem, rfl⟩ := path_of_fileAt hold
        exact .inl (List.mem_map_of_mem hmem)
    | none =>
        cases hnew : fileAt toFiles path with
        | some new =>
            obtain ⟨hmem, rfl⟩ := path_of_fileAt hnew
            exact .inr (List.mem_map_of_mem hmem)
        | none =>
            rw [hold, hnew] at h
            cases h

end Nazg.Workspace
