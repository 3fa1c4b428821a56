import Nazg.Lib.FileTree
import Nazg.System.Process

/-!
# Making a bare repository

`BareManager::create_bare` asks git whether the path is one already, and if the answer is not
`true` it removes what is there. The question goes through a shell, with the path in double
quotes; the removal takes the path as it is.

Where a path leads is for the file system to say, links included: two different paths may
lead anywhere. What the shell makes of a text that does not say by itself what it means, and
what it leaves of the file system then, is for the host to say.
-/

namespace Nazg.Git

open Lib Lib.Shell Process

/-! ## The file system -/

abbrev Place := List Bytes

structure FileSystem where
  resolve : Bytes → Place
  node : Place → Option Node
  closed : ∀ q, node q ≠ none → q ≠ [] → node q.dropLast = some .dir

namespace FileSystem

/-- `fs::exists`. -/
def pathExists (path : Bytes) (fs : FileSystem) : Bool :=
  path ≠ [] && (fs.node (fs.resolve path)).isSome

theorem closed_removeAll (fs : FileSystem) (p q : Place)
    (h : (if p <+: q then none else fs.node q) ≠ none) (hq : q ≠ []) :
    (if p <+: q.dropLast then none else fs.node q.dropLast) = some Node.dir := by
  by_cases hpq : p <+: q
  · rw [if_pos hpq] at h
    exact absurd rfl h
  · rw [if_neg hpq] at h
    rw [if_neg fun hp => hpq (hp.trans (List.dropLast_prefix q))]
    exact fs.closed q h hq

/-- `fs::remove_all`. -/
def removeAll (path : Bytes) (fs : FileSystem) : FileSystem where
  resolve := fs.resolve
  node q := if fs.resolve path <+: q then none else fs.node q
  closed := closed_removeAll fs (fs.resolve path)

theorem closed_createDirectories (fs : FileSystem) (p q : Place)
    (h : (if q <+: p then some Node.dir else fs.node q) ≠ none) (hq : q ≠ []) :
    (if q.dropLast <+: p then some Node.dir else fs.node q.dropLast) = some Node.dir := by
  by_cases hqp : q <+: p
  · rw [if_pos ((List.dropLast_prefix q).trans hqp)]
  · rw [if_neg hqp] at h
    have hparent := fs.closed q h hq
    split
    · rfl
    · exact hparent

/-- `fs::create_directories`; it throws if there is a file in the way. -/
def createDirectories (path : Bytes) (fs : FileSystem) : Option FileSystem :=
  if (fs.resolve path).inits.all fun d => fs.node d = none || fs.node d = some .dir then
    some
      { resolve := fs.resolve
        node := fun q => if q <+: fs.resolve path then some .dir else fs.node q
        closed := closed_createDirectories fs (fs.resolve path) }
  else none

end FileSystem

/-- `fs::path::parent_path`, if there is one: what stands before the last slash, or the root. -/
def parentPath (path : Bytes) : Option Bytes :=
  if path.contains slash then
    let before := ((path.reverse.dropWhile (· ≠ slash)).dropWhile (· = slash)).reverse
    some (if before = [] then [slash] else before)
  else none

/-- What makes a directory a bare repository. -/
def isBareAt (fs : FileSystem) (p : Place) : Bool :=
  let content name := (fs.node (p ++ [bytes name])).bind Node.content
  (content "HEAD").isSome && fs.node (p ++ [bytes "objects"]) = some .dir &&
    fs.node (p ++ [bytes "refs"]) = some .dir &&
    (content "config").any fun config => (find (bytes "bare = true") config).isSome

/-! ## The command lines -/

/-- What the probe asks. -/
def isBareQuestion : Bytes := bytes "git rev-parse --is-bare-repository 2>/dev/null"

def probeLine (path : Bytes) : Bytes :=
  bytes "cd \"" ++ path ++ bytes "\" && " ++ isBareQuestion

/-- The place that the probe is made in, if the line is read as one. -/
def cdOperand : List Item → Option Bytes
  | .word cd :: .word operand :: rest =>
      if cd = bytes "cd" ∧ rest = .op (bytes "&&") :: (parse isBareQuestion).getD [] then
        some operand
      else none
  | _ => none

def initLine (path : Bytes) : Bytes := bytes "git init --bare \"" ++ path ++ bytes "\""

/-! ## The host -/

/-- What the outcome depends on besides the file system. -/
structure Environment where
  /-- `popen` can start a shell. -/
  starts : Bool
  /-- Git run in a bare repository says that it is one: the owner is the user, and neither the
  environment nor something in the repository leads it elsewhere. -/
  accepts : Bool
  /-- `CDPATH` is set. -/
  cdPath : Bool

structure Host extends Environment where
  /-- The output of any other line, and what it leaves. -/
  other : Bytes → FileSystem → Bytes × FileSystem
  /-- The status of a line handed to `system`, and what it leaves. -/
  system : Bytes → FileSystem → Int × FileSystem

/-- `cd` goes to its operand: it begins with no dash, and is not looked for in `CDPATH`. -/
def Environment.goesTo (env : Environment) (operand : Bytes) : Bool :=
  let first := operand.takeWhile (· ≠ slash)
  operand ≠ [] && cdTarget operand = some operand &&
    (!env.cdPath || first = [] || first = bytes "." || first = bytes "..")

/-- What the probe prints, and what it leaves. -/
def Host.probe (host : Host) (path : Bytes) (fs : FileSystem) : Bytes × FileSystem :=
  match (reading (probeLine path)).bind cdOperand with
  | some operand =>
      if host.goesTo operand = true ∧ isBareAt fs (fs.resolve operand) = true then
        (if host.accepts then bytes "true\n" else [], fs)
      else host.other (probeLine path) fs
  | none => host.other (probeLine path) fs

/-- `exec_output`. -/
def Host.execOutput (host : Host) (path : Bytes) (fs : FileSystem) :
    Bytes × FileSystem :=
  if host.starts then
    let r := host.probe path fs
    (if r.1.getLast? = some 10 then r.1.dropLast else r.1, r.2)
  else ([], fs)

namespace BareManager

def isBareRepo (host : Host) (path : Bytes) (fs : FileSystem) : Bool × FileSystem :=
  if fs.pathExists path then
    let r := host.execOutput path fs
    (r.1 = bytes "true", r.2)
  else (false, fs)

/-- What it returns, unless a call throws, and what it leaves. -/
def createBare (host : Host) (path : Bytes) (fs : FileSystem) :
    Option Bool × FileSystem :=
  let probed := isBareRepo host path fs
  if probed.1 then (some true, probed.2)
  else
    match (parentPath path).elim (some probed.2) fun parent =>
        probed.2.createDirectories parent with
    | none => (none, probed.2)
    | some fs =>
        let removed := if fs.pathExists path then fs.removeAll path else fs
        let r := host.system (initLine path) removed
        (some (r.1 = 0), r.2)

end BareManager

end Nazg.Git
