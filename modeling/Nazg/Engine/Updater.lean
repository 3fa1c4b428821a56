import Mathlib.Data.List.Sort
import Nazg.Lib.Bytes

/-!
# Updating the program

Each version has a directory under the root of the versions, and a link leads to the binary of
the active one. An update builds a version, puts it in its directory, switches the link and
removes old versions; a rollback only switches the link.

Places are relative to the root, by their components. A version that is a tag with slashes lies
deeper, and is not among the versions that are listed. Git and cmake work on the sources; of
what they do to the versions only the clone under the root matters.
-/

namespace Nazg.Update

open Lib

abbrev Place := List Bytes

/-- What is at a place; a file that was not copied to its end is broken. -/
inductive Entry where
  | dir
  | whole
  | broken
  deriving DecidableEq

inductive Link where
  | absent
  | file
  | leadsTo (target : Place)
  deriving DecidableEq

@[ext]
structure Install where
  node : Place → Option Entry
  link : Link

def binary (version : Place) : Place := version ++ [bytes "bin", bytes "nazg"]

/-! ## Files -/

/-- What is left when a place is removed, `spared` if that does not succeed everywhere. -/
def removeAll (place : Place) (spared : Place → Bool) (s : Install) : Install where
  node q := if place <+: q ∧ ¬ spared q then none else s.node q
  link := s.link

def noneSpared : Place → Bool := fun _ => false

/-- `fs::create_directories`. -/
def createDirectories (place : Place) (s : Install) : Install where
  node q := if q <+: place ∧ s.node q = none then some .dir else s.node q
  link := s.link

def putFile (place : Place) (entry : Entry) (s : Install) : Install where
  node := Function.update s.node place (some entry)
  link := s.link

/-- `fs::exists` of the link, which follows it. -/
def Install.linkExists (s : Install) : Bool :=
  match s.link with
  | .absent => false
  | .file => true
  | .leadsTo target => (s.node target).isSome

/-- `active_version`. -/
def Install.activeVersion (s : Install) : Option Bytes :=
  match s.link with
  | .leadsTo target => if s.linkExists then target.dropLast.dropLast.getLast? else none
  | _ => none

/-! ## Versions -/

/-- What git says of the sources, and whether the local ones are built as they are. -/
structure Source where
  localMode : Bool
  tag : Bytes
  sha : Bytes

def versionName (source : Source) : Bytes :=
  if source.localMode then
    if source.tag ≠ [] then source.tag
    else if source.sha ≠ [] then bytes "v" ++ source.sha
    else bytes "v-local"
  else
    let version := if source.tag ≠ [] then source.tag else source.sha
    if version.head? = some 118 then version else bytes "v" ++ version

/-- `detect_version_tag`. -/
def detectVersionTag (source : Source) : Bytes :=
  if source.tag ≠ [] then source.tag else source.sha

structure CheckResult where
  updateAvailable : Bool
  currentVersion : Bytes
  latestVersion : Bytes
  latestRef : Bytes
  deriving DecidableEq

/-- `NAZG_VERSION`. -/
def compiledVersion : Bytes := bytes "0.1.0"

/-- `check`; `gitDir` says that the sources have a `.git`. -/
def check (ref : Bytes) (gitDir : Bool) (source : Source) (s : Install) : CheckResult :=
  let currentVersion := s.activeVersion.getD compiledVersion
  let latestRef := if ref = [] then bytes "auto" else ref
  if gitDir then
    let tag := detectVersionTag source
    let latestVersion :=
      if tag ≠ [] then tag else if source.sha ≠ [] then source.sha else bytes "unknown"
    ⟨latestVersion ≠ currentVersion, currentVersion, latestVersion, latestRef⟩
  else ⟨false, currentVersion, bytes "unknown", latestRef⟩

/-- `version_dir`. -/
def versionDir (version : Bytes) : Place := version.splitOn 47

/-- What a listing of the root meets: the names in the order in which they come, and the times
of their last change. -/
structure Listing where
  names : List Bytes
  mtime : Bytes → Int

/-- The directories that are taken for versions. -/
def Install.isVersion (s : Install) (name : Bytes) : Bool :=
  s.node [name] = some .dir && 2 ≤ name.length && name.head? = some 118

/-- They, the newest first. -/
def Listing.versions (listing : Listing) (s : Install) : List Bytes :=
  (listing.names.filter s.isVersion).insertionSort fun a b => listing.mtime b ≤ listing.mtime a

/-! ## Activation and cleanup -/

/-- What the two calls of an activation meet. -/
structure Switch where
  removes : Bool
  creates : Bool

/-- `activate`. -/
def activate (switch : Switch) (version : Place) (s : Install) : Bool × Install :=
  let cleared := if s.linkExists ∧ switch.removes then { s with link := .absent } else s
  if cleared.link = .absent ∧ switch.creates then
    (true, { cleared with link := .leadsTo (binary version) })
  else (false, cleared)

/-- `prune_old`. A negative count is a large one. -/
def pruneOld (keep : Int) (listing : Listing) (spared : Place → Bool) (s : Install) : Install :=
  let list := listing.versions s
  (list.drop (if keep < 0 then list.length else keep.toNat)).foldl
    (fun s name => removeAll [name] spared s) s

/-! ## The update -/

/-- How the staging ends. -/
inductive Staging where
  /-- An exception while the old directory is removed. -/
  | clearThrows (spared : Place → Bool)
  /-- The directory of the binary cannot be made, but perhaps that of the version. -/
  | binFails (made : Bool)
  | notBuilt
  | copyFails (broken : Bool)
  /-- No directory for the migrations, or an exception while they are listed. -/
  | migrationsFail
  | staged

/-- The directory of the version, as far as it comes to that. -/
def stage (version : Place) (s : Install) : Staging → Install
  | .clearThrows spared => removeAll version spared s
  | .binFails made =>
      let cleared := removeAll version noneSpared s
      if made then createDirectories version cleared else cleared
  | .notBuilt => createDirectories (version ++ [bytes "bin"]) (removeAll version noneSpared s)
  | .copyFails broken =>
      let made := createDirectories (version ++ [bytes "bin"]) (removeAll version noneSpared s)
      if broken then putFile (binary version) .broken made else made
  | .migrationsFail | .staged =>
      putFile (binary version) .whole
        (createDirectories (version ++ [bytes "bin"]) (removeAll version noneSpared s))

structure UpdateRun where
  keep : Int
  dryRun : Bool
  /-- What a clone under the root leaves there, if one is made. -/
  clone : Option (Place → Option Entry)
  /-- What is built, unless a step before the staging fails. -/
  source : Option Source
  staging : Staging
  switch : Switch
  listing : Listing
  spared : Place → Bool

def cloneDir : Place := [bytes "tmp-src"]

/-- The sources are cloned anew. -/
def cloneSources (clone : Option (Place → Option Entry)) (s : Install) : Install :=
  match clone with
  | none => s
  | some made => { s with node := fun q => if cloneDir <+: q then made q else s.node q }

/-- `update_from_source`: whether it succeeds. -/
def updateFromSource (run : UpdateRun) (s : Install) : Bool × Install :=
  let s := cloneSources run.clone s
  match run.source with
  | none => (false, s)
  | some source =>
      let version := versionDir (versionName source)
      let s := stage version s run.staging
      match run.staging with
      | .staged =>
          if run.dryRun then (true, s)
          else
            let activated := activate run.switch version s
            if activated.1 then (true, pruneOld run.keep run.listing run.spared activated.2)
            else (false, activated.2)
      | _ => (false, s)

/-! ## The rollback -/

structure RollbackRun where
  toVersion : Option Bytes
  switch : Switch
  listing : Listing

inductive Target where
  | none
  | already
  | leadsTo (name : Bytes)

/-- The name of a version that is asked for. -/
def normalized (want : Bytes) : Bytes :=
  if want.head? = some 118 then want else bytes "v" ++ want

/-- Where a rollback leads. -/
def rollbackTarget (run : RollbackRun) (s : Install) : Target :=
  let list := run.listing.versions s
  let current := s.activeVersion
  match run.toVersion.bind fun want => if want = [] then none else some want with
  | some want =>
      if normalized want ∉ list then .none
      else if current = some (normalized want) then .already
      else .leadsTo (normalized want)
  | none =>
      match list with
      | first :: second :: _ => if current = some first then .leadsTo second else .leadsTo first
      | _ => .none

/-- `rollback`: whether it succeeds. -/
def rollback (run : RollbackRun) (s : Install) : Bool × Install :=
  match rollbackTarget run s with
  | .none => (false, s)
  | .already => (true, s)
  | .leadsTo name => activate run.switch [name] s

end Nazg.Update
