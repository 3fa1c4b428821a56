import Nazg.Lib.Stdio
import Nazg.Lib.Words
import Nazg.System.Process

/-!
# The status of a repository

`Client::status` asks `git status` for its machine format and goes over the answer line by
line. The rest of the record comes from other commands and from the files below `.git`.
-/

namespace Nazg.Git

open Lib Process

inductive RepoState where
  | normal
  | merge
  | rebase
  | rebaseInteractive
  | rebaseMerge
  | cherryPick
  | revert
  | bisect
  deriving DecidableEq

structure Status where
  inRepo : Bool := false
  hasCommits : Bool := false
  hasOrigin : Bool := false
  branch : Bytes := []
  upstream : Option Bytes := none
  modified : Int32 := 0
  staged : Int32 := 0
  untracked : Int32 := 0
  conflicted : Int32 := 0
  ahead : Int32 := 0
  behind : Int32 := 0
  originUrl : Option Bytes := none
  state : RepoState := .normal
  conflictedFiles : List Bytes := []

/-- What a command line exits with and what it prints, and which files there are. -/
structure ClientHost where
  system : Bytes → Int
  popen : Bytes → Option Bytes
  fileExists : Bytes → Bool

structure Client where
  repoPath : Bytes

/-! ## Commands -/

namespace Client

section

variable (host : ClientHost)

/-- `exec_output`, which takes one line break off the end. -/
def execOutput (cmd : Bytes) : Bytes :=
  match host.popen (cstr cmd) with
  | none => []
  | some printed =>
      let result := readPipe 128 printed
      if result.getLast? = some newline then result.dropLast else result

def exec (cmd : Bytes) : Int := host.system (cstr cmd)

variable (c : Client)

/-- `cd_repo_prefix`. -/
def cdRepoPrefix : Bytes := bytes "cd " ++ shellQuote c.repoPath ++ bytes " && "

def isRepo : Bool :=
  exec host (c.cdRepoPrefix ++ bytes "git rev-parse --is-inside-work-tree >/dev/null 2>&1") = 0

def hasCommits : Bool :=
  exec host (c.cdRepoPrefix ++ bytes "git rev-parse HEAD >/dev/null 2>&1") = 0

def currentBranch : Bytes :=
  let branch := execOutput host (c.cdRepoPrefix ++ bytes "git branch --show-current 2>/dev/null")
  if branch = [] then bytes "main" else branch

def getOrigin : Option Bytes :=
  let url := execOutput host (c.cdRepoPrefix ++ bytes "git remote get-url origin 2>/dev/null")
  if url = [] then none else some url

/-- `detect_repo_state`. -/
def detectRepoState : RepoState :=
  let gitDir := c.repoPath ++ bytes "/.git"
  if host.fileExists (gitDir ++ bytes "/rebase-merge") then .rebaseMerge
  else if host.fileExists (gitDir ++ bytes "/rebase-apply") then .rebase
  else if host.fileExists (gitDir ++ bytes "/MERGE_HEAD") then .merge
  else if host.fileExists (gitDir ++ bytes "/CHERRY_PICK_HEAD") then .cherryPick
  else if host.fileExists (gitDir ++ bytes "/REVERT_HEAD") then .revert
  else if host.fileExists (gitDir ++ bytes "/BISECT_LOG") then .bisect
  else .normal

def statusCommand : Bytes := c.cdRepoPrefix ++ bytes "git status --porcelain=v2 --branch"

end

end Client

/-! ## Lines -/

/-- `find` of a character from a position on. -/
def findFrom (x : UInt8) (pos : Nat) (s : Bytes) : Option Nat :=
  ((s.drop pos).idxOf? x).map (pos + ·)

/-- A number in a header, or 0 if it is none. -/
def readCount (s : Bytes) : Int32 := ((stoi s).map Int32.ofInt).getD 0

/-- The line `# branch.ab +<ahead> -<behind>`. -/
def readBranchAb (line : Bytes) (st : Status) : Status :=
  let plus := findFrom 43 0 line
  let spaceAfterPlus := plus.bind fun plus => findFrom 32 plus line
  let minus := findFrom 45 (spaceAfterPlus.getD 0) line
  let st :=
    match plus with
    | none => st
    | some plus =>
        let aheadStr :=
          match spaceAfterPlus with
          | some space => (line.drop (plus + 1)).take (space - plus - 1)
          | none => line.drop (plus + 1)
        { st with ahead := readCount aheadStr }
  match minus with
  | none => st
  | some minus => { st with behind := readCount (line.drop (minus + 1)) }

def readHeader (line : Bytes) (st : Status) : Status :=
  if bytes "# branch.head " <+: line then { st with branch := line.drop 14 }
  else if bytes "# branch.upstream " <+: line then { st with upstream := some (line.drop 18) }
  else if bytes "# branch.ab " <+: line then readBranchAb line st
  else st

/-- `while (line_ss >> field && field_count < 9) field_count++`: what is left when the count
is reached, which is one field more. -/
def skipFields (left : Nat) (s : Bytes) : Option Bytes :=
  match readWord s with
  | none => none
  | some (_, rest) =>
      match left with
      | 0 => some rest
      | left + 1 => skipFields left rest

/-- The path in the line of an unmerged file. -/
def unmergedPath (line : Bytes) : Bytes :=
  let filename :=
    match skipFields 9 line with
    | some rest => (getFields newline rest).headD []
    | none => []
  if filename.head? = some 32 then filename.tail else filename

/-- The line `1 <XY> ...` or `2 <XY> ...` of a changed file. -/
def readChanged (line : Bytes) (st : Status) : Status :=
  let stagedCode := line.getD 2 0
  let worktreeCode := line.getD 3 0
  let st := if stagedCode ≠ 46 ∧ stagedCode ≠ 32 then { st with staged := st.staged + 1 } else st
  if worktreeCode ≠ 46 ∧ worktreeCode ≠ 32 then { st with modified := st.modified + 1 } else st

def readLine (st : Status) (line : Bytes) : Status :=
  match line.head? with
  | none => st
  | some c =>
      if c = 35 then readHeader line st
      else if c = 63 then { st with untracked := st.untracked + 1 }
      else if c = 33 then st
      else if c = 117 then
        let st := { st with conflicted := st.conflicted + 1 }
        let filename := unmergedPath line
        if filename = [] then st
        else { st with conflictedFiles := st.conflictedFiles ++ [filename] }
      else if 4 ≤ line.length ∧ (c = 49 ∨ c = 50) then readChanged line st
      else st

/-- `Client::status`. -/
def Client.status (host : ClientHost) (c : Client) : Status :=
  if c.isRepo host then
    let originUrl := c.getOrigin host
    let st : Status :=
      { inRepo := true
        hasCommits := c.hasCommits host
        branch := c.currentBranch host
        originUrl := originUrl
        hasOrigin := originUrl.isSome
        state := c.detectRepoState host }
    let st := (getFields newline (Client.execOutput host c.statusCommand)).foldl readLine st
    if st.branch = [] then { st with branch := c.currentBranch host } else st
  else {}

/-!
## Git commands that are passed on

`nazg git push`, `commit`, `remote` and `checkout` write their arguments behind the name of
the command. Each looks at an argument, and `commit` at the one before it too, and quotes it
or leaves it as it is. The arguments are those behind the subcommand; there is no command
if the user asks for help or is told the usage.
-/

inductive Subcommand where
  | push
  | commit
  | remote
  | checkout
  deriving DecidableEq

/-- What is left as it is, given the argument before it and itself. -/
abbrev AsIs := Option Bytes → Bytes → Bool

def beginsWithDash (arg : Bytes) : Bool := arg.head? = some 45

def isHelp (args : List Bytes) : Bool :=
  args.head? = some (bytes "--help") || args.head? = some (bytes "-h")

/-- The loop over the arguments. -/
def appendArgs (asIs : AsIs) : Option Bytes → List Bytes → Bytes
  | _, [] => []
  | prev, arg :: rest =>
      bytes " " ++ (if asIs prev arg then arg else shellQuote arg) ++
        appendArgs asIs (some arg) rest

/-! ## The handlers -/

def pushAsIs : AsIs := fun _ arg =>
  beginsWithDash arg || arg = bytes "HEAD" || !arg.contains 47

def cmdGitPush (isRepo : Bool) (args : List Bytes) : Option Bytes :=
  if !isRepo then none
  else if isHelp args then none
  else some (bytes "git push" ++ appendArgs pushAsIs none args)

def isMessageFlag (arg : Bytes) : Bool := arg = bytes "-m" || arg = bytes "-am"

/-- The arguments as `commit` collects them, a message flag with its message. -/
def collectArgs : List Bytes → List Bytes
  | [] => []
  | [arg] => [arg]
  | arg :: msg :: rest =>
      if isMessageFlag arg then arg :: msg :: collectArgs rest
      else if arg = bytes "-a" then arg :: collectArgs (msg :: rest)
      else arg :: collectArgs (msg :: rest)

def commitAsIs : AsIs := fun prev arg => !prev.any isMessageFlag && beginsWithDash arg

def cmdGitCommit (isRepo : Bool) (args : List Bytes) : Option Bytes :=
  if !isRepo then none
  else if args = [] then none
  else if isHelp args then none
  else some (bytes "git commit" ++ appendArgs commitAsIs none (collectArgs args))

def remoteAsIs : AsIs := fun _ arg =>
  beginsWithDash arg ||
    [bytes "add", bytes "remove", bytes "rename", bytes "get-url", bytes "set-url",
      bytes "show"].contains arg ||
    (!arg.contains 47 && !arg.contains 64)

def cmdGitRemote (isRepo : Bool) (args : List Bytes) : Option Bytes :=
  if !isRepo then none
  else if args = [] then none
  else some (bytes "git remote" ++ appendArgs remoteAsIs none args)

def checkoutAsIs : AsIs := fun _ arg => beginsWithDash arg || !arg.contains 47

def cmdGitCheckout (isRepo : Bool) (args : List Bytes) : Option Bytes :=
  if !isRepo then none
  else if args = [] then none
  else if isHelp args then none
  else some (bytes "git checkout" ++ appendArgs checkoutAsIs none args)

/-! ## The four together -/

namespace Subcommand

def name : Subcommand → Bytes
  | push => bytes "push"
  | commit => bytes "commit"
  | remote => bytes "remote"
  | checkout => bytes "checkout"

def asIs : Subcommand → AsIs
  | push => pushAsIs
  | commit => commitAsIs
  | remote => remoteAsIs
  | checkout => checkoutAsIs

/-- The command string of the handler. -/
def command : Subcommand → Bool → List Bytes → Option Bytes
  | push => cmdGitPush
  | commit => cmdGitCommit
  | remote => cmdGitRemote
  | checkout => cmdGitCheckout

/-- The user asks for help, or is told how the command is used. -/
def asksForHelp : Subcommand → List Bytes → Bool
  | push, args => isHelp args
  | commit, args => args.isEmpty || isHelp args
  | remote, args => args.isEmpty
  | checkout, args => args.isEmpty || isHelp args

end Subcommand

/-- Collecting the arguments leaves none out. -/
theorem collectArgs_eq (args : List Bytes) : collectArgs args = args := by
  induction args using collectArgs.induct with
  | case1 => rfl
  | case2 arg => rfl
  | case3 arg msg rest hflag ih => rw [collectArgs, if_pos hflag, ih]
  | case4 msg rest hflag ih => rw [collectArgs, if_neg hflag, if_pos rfl, ih]
  | case5 arg msg rest hflag ha ih => rw [collectArgs, if_neg hflag, if_neg ha, ih]

theorem Subcommand.command_eq {sub : Subcommand} {args : List Bytes}
    (h : sub.asksForHelp args = false) : sub.command true args =
      some (bytes "git" ++ bytes " " ++ sub.name ++ appendArgs sub.asIs none args) := by
  cases sub with
  | push =>
      have hhelp : ¬ isHelp args = true := by simpa [asksForHelp] using h
      rw [command, cmdGitPush, if_neg (by simp), if_neg hhelp]
      rfl
  | commit =>
      obtain ⟨hempty, hhelp⟩ : args ≠ [] ∧ ¬ isHelp args = true := by
        simpa [asksForHelp] using h
      rw [command, cmdGitCommit, if_neg (by simp), if_neg hempty, if_neg hhelp, collectArgs_eq]
      rfl
  | remote =>
      have hempty : args ≠ [] := by simpa [asksForHelp] using h
      rw [command, cmdGitRemote, if_neg (by simp), if_neg hempty]
      rfl
  | checkout =>
      obtain ⟨hempty, hhelp⟩ : args ≠ [] ∧ ¬ isHelp args = true := by
        simpa [asksForHelp] using h
      rw [command, cmdGitCheckout, if_neg (by simp), if_neg hempty, if_neg hhelp]
      rfl

end Nazg.Git
