import Nazg.Brain.Snapshotter
import Nazg.Lib.Words
import Nazg.Nexus.Facts

/-!
# What kind of project it is

The detector looks at the files of a project for its language, its build system and its tests,
and keeps the result as facts.

The directory is read whole: no part of it is closed to the detector, and no link leads out
of it.
-/

namespace Nazg.Brain

open Lib Nexus Workspace

/-- The directory of a project, by its path, with what is below it. -/
structure ProjectDir where
  path : Bytes
  named : path ≠ []
  tree : FileTree

/-- What is detected: beside what a plan needs, the rest of it. -/
structure DetectedProject extends ProjectInfo where
  language : Bytes
  scm : Bytes
  tools : List Bytes := []
  hasCmake : Bool
  hasMakefile : Bool
  hasGit : Bool
  testDirectory : Bytes := []

/-! ## Looking at files -/

section

variable (dir : ProjectDir)

/-- What the path of every entry begins with. -/
def ProjectDir.base : Bytes :=
  if dir.path.getLast? = some slash then dir.path else dir.path ++ [slash]

/-- The regular files, by their paths relative to the directory. -/
def ProjectDir.files : List Bytes := dir.tree.files.map Prod.fst

/-- `fs::exists`, below the directory. -/
def ProjectDir.has (name : Bytes) : Bool := (dir.tree.get name).isSome

def detectCmake : Bool := dir.has (bytes "CMakeLists.txt")

def detectGit : Bool := dir.has (bytes ".git")

def languageFragments : List Bytes :=
  [bytes "/build/", bytes "/node_modules/", bytes "/.git/", bytes "/target/", bytes "/dist/",
    bytes "/__pycache__/", bytes "/.cache/"]

/-- The files with one of these extensions. -/
def extCount (extensions : List String) : Nat :=
  (dir.files.filter fun file => !findsAny languageFragments (dir.base ++ file) &&
    decide (extension file ∈ extensions.map bytes)).length

def detectLanguage : Bytes :=
  let cppCount := extCount dir [".cpp", ".cc", ".cxx", ".hpp", ".hh", ".hxx"]
  let cCount := extCount dir [".c", ".h"]
  let pyCount := extCount dir [".py"]
  let rsCount := extCount dir [".rs"]
  let goCount := extCount dir [".go"]
  let jsCount := extCount dir [".js", ".ts", ".jsx", ".tsx"]
  let most := (0, bytes "unknown")
  let most := if most.1 < cppCount then (cppCount, bytes "cpp") else most
  let most := if most.1 < cCount ∧ cppCount < cCount then (cCount, bytes "c") else most
  let most := if most.1 < pyCount then (pyCount, bytes "python") else most
  let most := if most.1 < rsCount then (rsCount, bytes "rust") else most
  let most := if most.1 < goCount then (goCount, bytes "go") else most
  let most := if most.1 < jsCount then (jsCount, bytes "javascript") else most
  most.2

def detectBuildSystem : Bytes :=
  if detectCmake dir then bytes "cmake"
  else if dir.has (bytes "Makefile") then bytes "make"
  else if dir.has (bytes "Cargo.toml") then bytes "cargo"
  else if dir.has (bytes "package.json") then bytes "npm"
  else if dir.has (bytes "build.gradle") then bytes "gradle"
  else bytes "unknown"

/-- `file_contains`, of a file in the directory. -/
def fileContains (name pattern : Bytes) : Bool :=
  match dir.tree.content name with
  | some content => (getFields 10 content).any (contains pattern)
  | none => false

def fileExistsInTree (filename : Bytes) : Bool :=
  dir.files.any fun file => contains filename (fileName file)

/-- The name matches the pattern, as far as stars are understood: one at the front, or one at
the back. -/
def matchesPattern (pattern filename : Bytes) : Bool :=
  if pattern.head? = some 42 ∧ pattern.getLast? ≠ some 42 then
    let ending := pattern.drop 1
    ending.length ≤ filename.length &&
      filename.drop (filename.length - ending.length) = ending
  else if pattern.head? ≠ some 42 ∧ pattern.getLast? = some 42 then
    let beginning := pattern.take (pattern.length - 1)
    filename.take beginning.length = beginning
  else filename = pattern

def testFragments : List Bytes := [bytes "/build/", bytes "/node_modules/", bytes "/.git/"]

def hasFilesMatching (pattern : Bytes) : Bool :=
  dir.files.any fun file =>
    !findsAny testFragments (dir.base ++ file) && matchesPattern pattern (fileName file)

/-! ## Tests -/

/-- The first directory that looks like one of tests. -/
def testDirectory : Option Bytes :=
  [bytes "tests", bytes "test", bytes "__tests__", bytes "spec"].find? fun candidate =>
    dir.tree.get candidate = some .dir

def DetectedProject.withTests (info : DetectedProject) (framework : String) : DetectedProject :=
  { info with testFramework := bytes framework, hasTests := true }

/-- The branch for C and C++. -/
def detectCTests (info : DetectedProject) : DetectedProject :=
  let cmakeFile := bytes "CMakeLists.txt"
  let info :=
    if info.hasCmake then
      let info :=
        if fileContains dir cmakeFile (bytes "enable_testing") ||
            fileContains dir cmakeFile (bytes "add_test") then info.withTests "ctest" else info
      if fileContains dir cmakeFile (bytes "GTest::") || fileContains dir cmakeFile (bytes "gtest")
      then info.withTests "gtest" else info
    else info
  if fileExistsInTree dir (bytes "catch.hpp") || fileExistsInTree dir (bytes "catch2") then
    info.withTests "catch2"
  else info

/-- The branch for Python. -/
def detectPythonTests (info : DetectedProject) : DetectedProject :=
  if dir.has (bytes "pytest.ini") || dir.has (bytes "pyproject.toml") then info.withTests "pytest"
  else if hasFilesMatching dir (bytes "test_*.py") || hasFilesMatching dir (bytes "*_test.py") then
    info.withTests "pytest"
  else info

/-- The branch for JavaScript. -/
def detectJavascriptTests (info : DetectedProject) : DetectedProject :=
  if fileContains dir (bytes "package.json") (bytes "jest") then info.withTests "jest"
  else if fileContains dir (bytes "package.json") (bytes "vitest") then info.withTests "vitest"
  else info

def detectTestFramework (info : DetectedProject) : DetectedProject :=
  let info := { info with testDirectory := (testDirectory dir).getD info.testDirectory }
  let info :=
    if info.language = bytes "cpp" ∨ info.language = bytes "c" then detectCTests dir info else info
  let info := if info.language = bytes "python" then detectPythonTests dir info else info
  let info :=
    if info.language = bytes "rust" ∧ info.buildSystem = bytes "cargo" then info.withTests "cargo"
    else info
  let info := if info.language = bytes "javascript" then detectJavascriptTests dir info else info
  if info.language = bytes "go" ∧ hasFilesMatching dir (bytes "*_test.go") then
    info.withTests "go"
  else info

/-- `Detector::detect`. -/
def detect : DetectedProject :=
  let found : DetectedProject :=
    { rootPath := dir.path
      hasCmake := detectCmake dir
      hasGit := detectGit dir
      hasMakefile := dir.has (bytes "Makefile")
      language := detectLanguage dir
      buildSystem := detectBuildSystem dir
      scm := if detectGit dir then bytes "git" else bytes "none"
      testFramework := []
      hasTests := false }
  let info := detectTestFramework dir found
  { info with tools := info.tools ++
      ((if info.hasCmake then [bytes "cmake"] else []) ++
        (if info.hasMakefile then [bytes "make"] else []) ++
        (if info.hasGit then [bytes "git"] else [])) }

end

/-! ## Facts -/

def boolFact (b : Bool) : Bytes := if b then bytes "true" else bytes "false"

/-- The facts that `store_facts` sets, in its order. -/
def detectorFacts (info : DetectedProject) : List (Bytes × Bytes) :=
  let toolsStr := (bytes ",").intercalate info.tools
  [(bytes "language", info.language), (bytes "build_system", info.buildSystem),
    (bytes "scm", info.scm), (bytes "has_cmake", boolFact info.hasCmake),
    (bytes "has_git", boolFact info.hasGit)] ++
  (if toolsStr ≠ [] then [(bytes "tools", toolsStr)] else []) ++
  (if info.hasTests then
    [(bytes "has_tests", bytes "true"), (bytes "test_framework", info.testFramework)] ++
      (if info.testDirectory ≠ [] then [(bytes "test_directory", info.testDirectory)] else [])
  else [])

/-- `store_facts`, at a time. -/
def storeFacts (now : Int) (projectId : Int64) (info : DetectedProject) (facts : Facts) : Facts :=
  (detectorFacts info).foldl (fun facts fact =>
    setFact now projectId (bytes "detector") fact.1 fact.2 facts) facts

end Nazg.Brain
