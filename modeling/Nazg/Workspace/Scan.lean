import Nazg.Lib.FileTree
import Nazg.Lib.RollingHash

/-!
# Scanning a workspace

The scan goes over the regular files below the project root and keeps those whose path it
does not skip, each with a class and a checksum. It ends where the iterator throws, and
keeps what it has; a file it cannot read gets an empty checksum.

The class of a file is found by searching its path for fragments, in a fixed order.
-/

namespace Nazg.Workspace

open Lib

inductive FileType where
  | source
  | build
  | dependency
  | config
  | unknown
  deriving DecidableEq

structure WorkspaceFile where
  /-- Relative to the project root. -/
  path : Bytes
  type : FileType
  hash : Bytes
  size : Int
  deriving DecidableEq

structure SnapshotOptions where
  includeBuildDir : Bool := true
  excludePatterns : List Bytes := []

/-- `path.find(fragment) != npos` for one of the fragments. -/
def findsAny (fragments : List Bytes) (path : Bytes) : Bool :=
  fragments.any fun f => (find f path).isSome

def buildFragments : List Bytes :=
  [bytes "/build/", bytes "/build-", bytes ".o", bytes ".a", bytes ".so"]

def configFragments : List Bytes :=
  [bytes "CMakeLists.txt", bytes "Makefile", bytes ".toml", bytes ".yml", bytes ".yaml",
    bytes ".json"]

def dependencyFragments : List Bytes :=
  [bytes "package.json", bytes "Cargo.lock", bytes "requirements.txt", bytes "go.sum"]

def sourceFragments : List Bytes :=
  [bytes ".cpp", bytes ".hpp", bytes ".c", bytes ".h", bytes ".py", bytes ".js", bytes ".ts",
    bytes ".rs", bytes ".go"]

def detectFileType (path : Bytes) : FileType :=
  if findsAny buildFragments path then .build
  else if findsAny configFragments path then .config
  else if findsAny dependencyFragments path then .dependency
  else if findsAny sourceFragments path then .source
  else .unknown

/-- How far a scan comes, and what it can read. -/
structure Reading where
  reached : Bytes → Bool
  readable : Bytes → Bool

/-- A scan that reads everything. -/
def Reading.whole : Reading := ⟨fun _ => true, fun _ => true⟩

def computeFileHash (readable : Bool) (content : Bytes) : Bytes :=
  if readable then rollingText content else []

def skips (opts : SnapshotOptions) (path : Bytes) : Bool :=
  (find (bytes "/.") path).isSome || path.head? = some 46 ||
    (!opts.includeBuildDir &&
      (find (bytes "build/") path = some 0 || find (bytes "build-") path = some 0)) ||
    findsAny opts.excludePatterns path

/-- The entry for a file. -/
def scanned (reading : Reading) (file : Bytes × Bytes) : WorkspaceFile where
  path := file.1
  type := detectFileType file.1
  hash := computeFileHash (reading.readable file.1) file.2
  size := file.2.length

def scanWorkspace (opts : SnapshotOptions) (reading : Reading) (tree : FileTree) :
    List WorkspaceFile :=
  (tree.files.filter fun file => reading.reached file.1 && !skips opts file.1).map
    (scanned reading)

section

variable {opts : SnapshotOptions} {reading : Reading} {tree : FileTree}

theorem mem_scanWorkspace {f : WorkspaceFile} : f ∈ scanWorkspace opts reading tree ↔
    ∃ content, tree.content f.path = some content ∧ reading.reached f.path = true ∧
      skips opts f.path = false ∧ f = scanned reading (f.path, content) := by
  rw [scanWorkspace, List.mem_map]
  constructor
  · rintro ⟨⟨path, content⟩, hmem, rfl⟩
    obtain ⟨hfile, hkept⟩ := List.mem_filter.1 hmem
    rw [Bool.and_eq_true, Bool.not_eq_true'] at hkept
    exact ⟨content, FileTree.mem_files.1 hfile, hkept.1, hkept.2, rfl⟩
  · rintro ⟨content, hfile, hreached, hskips, heq⟩
    refine ⟨(f.path, content), List.mem_filter.2 ⟨FileTree.mem_files.2 hfile, ?_⟩, heq.symm⟩
    rw [Bool.and_eq_true, Bool.not_eq_true']
    exact ⟨hreached, hskips⟩

/-- A path is scanned at most once. -/
theorem nodup_scanWorkspace : ((scanWorkspace opts reading tree).map WorkspaceFile.path).Nodup := by
  rw [scanWorkspace, List.map_map]
  exact (tree.nodup_files.sublist (List.filter_sublist.map Prod.fst))

/-- What a scan for a snapshot keeps, the scan for a comparison does not skip. -/
theorem skips_default {path : Bytes} (h : skips opts path = false) : skips {} path = false := by
  simp only [skips, findsAny, List.any_nil, Bool.not_true, Bool.false_and, Bool.or_false,
    Bool.or_eq_false_iff] at h ⊢
  exact h.1.1

end

end Nazg.Workspace
