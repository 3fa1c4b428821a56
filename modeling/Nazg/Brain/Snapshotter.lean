import Nazg.Lib.Hex
import Nazg.Nexus.Snapshots
import Nazg.Workspace.Scan

/-!
# The hash of a tree

The scan keeps the regular files whose path it does not exclude, sorted by path, each with
the SHA-256 of its content; a file it cannot read has no hash. The hash of the tree is the
SHA-256 of all paths and hashes, one after the other.

Against the hash that was stored last a tree has changed or not.
-/

namespace Nazg.Brain

open Lib Lib.Sqlite Nexus Workspace

/-- SHA-256. -/
structure Sha256 where
  digest : Bytes → Bytes
  length_digest : ∀ s, (digest s).length = 32

structure FileInfo where
  path : Bytes
  size : Nat
  hash : Bytes

/-- `path.find(fragment) == 0`. -/
def startsWith (fragment path : Bytes) : Bool := find fragment path = some 0

/-- `path.find(fragment) != npos`. -/
def contains (fragment path : Bytes) : Bool := (find fragment path).isSome

/-- The last component of a path. -/
def fileName (path : Bytes) : Bytes := (path.reverse.takeWhile fun c => c ≠ slash).reverse

/-- The extension of a path: none if the only dot is the first character of the name. -/
def extension (path : Bytes) : Bytes :=
  match cut 46 (fileName path).reverse with
  | some (_, []) | none => []
  | some (ext, _ :: _) => 46 :: ext.reverse

def shouldExclude (path : Bytes) : Bool :=
  startsWith (bytes "build/") path || startsWith (bytes "build-") path ||
    contains (bytes ".cmake/") path ||
    startsWith (bytes ".git/") path || startsWith (bytes ".svn/") path ||
    startsWith (bytes "node_modules/") path ||
    (startsWith (bytes "target/") path && contains (bytes "rust") path) ||
    contains (bytes ".o") path || contains (bytes ".a") path || contains (bytes ".so") path

section

variable (sha : Sha256)

/-- The entry for a file. -/
def fileInfo (reading : Reading) (file : Bytes × Bytes) : FileInfo where
  path := file.1
  size := file.2.length
  hash := if reading.readable file.1 then toHex (sha.digest file.2) else []

def scanFiles (reading : Reading) (tree : FileTree) : List FileInfo :=
  ((tree.files.filter fun file => reading.reached file.1 && !shouldExclude file.1).map
    (fileInfo sha reading)).mergeSort fun a b => a.path ≤ b.path

/-- What goes into the hash of the tree. -/
def FileInfo.entry (f : FileInfo) : Bytes := f.path ++ 58 :: f.hash

/-- `compute_tree_hash`; empty if there is no memory for the context. -/
def computeTreeHash (allocated : Bool) (files : List FileInfo) : Bytes :=
  if allocated then toHex (sha.digest (files.flatMap FileInfo.entry)) else []

structure SnapshotHost where
  now : Int64
  order : RowOrder
  /-- Whether the query of the latest snapshot succeeds, and the insertion of the new one. -/
  read : Bool
  recorded : Bool
  reading : Reading
  allocated : Bool

structure SnapshotResult where
  treeHash : Bytes
  fileCount : Nat
  totalBytes : Nat
  changed : Bool
  previousHash : Bytes
  deriving DecidableEq

variable (host : SnapshotHost) (projectId : Int64)

/-- `Snapshotter::compute`. -/
def compute (tree : FileTree) (tables : SnapshotTables) : SnapshotResult :=
  let files := scanFiles sha host.reading tree
  let treeHash := computeTreeHash sha host.allocated files
  let prev := if host.read then latestSnapshot host.order projectId tables else none
  { treeHash := treeHash
    fileCount := files.length
    totalBytes := (files.map FileInfo.size).sum
    changed := match prev with
      | some prev => treeHash ≠ prev.treeHash
      | none => true
    previousHash := match prev with
      | some prev => prev.treeHash
      | none => [] }

/-- `Snapshotter::store_snapshot`. -/
def storeSnapshot (result : SnapshotResult) (tables : SnapshotTables) : SnapshotTables :=
  let call := SnapshotCall.addSnapshot host.now projectId result.treeHash
    (.ofNat result.fileCount) (.ofNat result.totalBytes)
  if host.recorded then
    match call.run tables with
    | some (_, tables) => tables
    | none => tables
  else tables

end

end Nazg.Brain

/-!
## What to do with a tree

If the tree has the hash that was stored last there is nothing to build, and its tests are
run if it has any. If it has another hash it is built. What builds and tests it the
detector has said.
-/

namespace Nazg.Brain

open Lib

/-- What the detector says of a project. -/
structure ProjectInfo where
  rootPath : Bytes
  buildSystem : Bytes
  testFramework : Bytes
  hasTests : Bool

inductive Action where
  | skip
  | build
  | test
  | clean
  | unknown
  deriving DecidableEq

structure Plan where
  action : Action := .unknown
  reason : Bytes := []
  command : Bytes := []
  args : List Bytes := []
  workingDir : Bytes := []
  testFramework : Bytes := []
  runAfterBuild : Bool := false

namespace Planner

/-- The commands that build. -/
def buildCommands : List (Bytes × Bytes × List Bytes) :=
  [(bytes "cmake", bytes "/bin/sh",
      [bytes "-c", bytes "cmake -B build -S . && cmake --build build -j4"]),
    (bytes "make", bytes "make", [bytes "-j4"]),
    (bytes "cargo", bytes "cargo", [bytes "build", bytes "--release"]),
    (bytes "npm", bytes "npm", [bytes "run", bytes "build"])]

/-- The commands that test. -/
def testCommands : List (Bytes × Bytes × List Bytes) :=
  let ctest := (bytes "ctest", [bytes "--output-on-failure", bytes "--test-dir", bytes "build"])
  [(bytes "gtest", ctest), (bytes "ctest", ctest),
    (bytes "pytest", bytes "pytest", [bytes "-v", bytes "--tb=short"]),
    (bytes "cargo", bytes "cargo", [bytes "test", bytes "--", bytes "--nocapture"]),
    (bytes "jest", bytes "npm", [bytes "test", bytes "--", bytes "--verbose"]),
    (bytes "vitest", bytes "npm", [bytes "run", bytes "test"]),
    (bytes "go", bytes "go", [bytes "test", bytes "-v", bytes "./..."]),
    (bytes "catch2", bytes "./build/tests", [])]

/-- The command for a name. -/
def commandFor (commands : List (Bytes × Bytes × List Bytes)) (name : Bytes) :
    Option (Bytes × List Bytes) :=
  (commands.find? fun c => c.1 = name).map Prod.snd

def generateBuildPlan (info : ProjectInfo) : Plan :=
  match commandFor buildCommands info.buildSystem with
  | some (command, args) =>
      { action := .build, workingDir := info.rootPath, command := command, args := args }
  | none =>
      { action := .unknown
        workingDir := info.rootPath
        reason := bytes "Unknown build system: " ++ info.buildSystem }

def generateTestPlan (info : ProjectInfo) : Plan :=
  match commandFor testCommands info.testFramework with
  | some (command, args) =>
      { action := .test
        workingDir := info.rootPath
        testFramework := info.testFramework
        command := command
        args := args }
  | none =>
      { action := .unknown
        workingDir := info.rootPath
        testFramework := info.testFramework
        reason := bytes "Unknown test framework: " ++ info.testFramework }

/-- The tree has the hash that was stored last. -/
def unchanged (snapshot : SnapshotResult) : Bool :=
  !snapshot.changed && snapshot.previousHash ≠ []

def decide (info : ProjectInfo) (snapshot : SnapshotResult) : Plan :=
  if unchanged snapshot then
    if info.hasTests then
      { generateTestPlan info with reason := bytes "No changes detected, but tests are available" }
    else
      { action := .skip
        reason := bytes "No changes detected (tree hash: " ++ snapshot.treeHash.take 8 ++ bytes ")" }
  else if info.buildSystem ≠ bytes "unknown" then
    { generateBuildPlan info with
      reason := if snapshot.changed then
          bytes "Files changed (previous: " ++ snapshot.previousHash.take 8 ++
            bytes ", current: " ++ snapshot.treeHash.take 8 ++ bytes ")"
        else bytes "First build"
      runAfterBuild := info.hasTests }
  else if info.hasTests then
    { generateTestPlan info with
      reason := if snapshot.changed then bytes "Files changed, running tests"
        else bytes "First test run" }
  else { action := .unknown, reason := bytes "No build system or tests detected" }

end Planner

end Nazg.Brain
