import Mathlib.Data.List.Destutter
import Nazg.Git.ServerRegistry
import Nazg.Lib.FileTree
import Nazg.Lib.Words
import Nazg.Nexus.GitServers
import Nazg.Nexus.References
import Nazg.System.Process

/-!
# Sending repositories to a server

`nazg git server sync` begins a migration for each repository, sends them all, and ends all
the migrations in the same way: the server says of the whole list whether it went well. A
cgit server is sent to by rsync; for Gitea the repository is created where it is missing and
pushed to. The row of a migration is written by the planner.
-/

namespace Nazg.Git

open Lib Lib.Sqlite Nexus Process

structure LocalRepoInfo where
  name : Bytes
  branchCount : Int := 0
  tagCount : Int := 0
  sizeBytes : Int := 0

/-- What a run meets outside: the time, which statements succeed, how each command ends,
what the interface of a Gitea server answers (`none` for an exception), whether configuring
cgit throws, and what an exception says. The numbers count repositories. -/
structure SyncHost where
  now : Int
  lookups : Nat → Bool
  inserts : Nat → Bool
  updates : Nat → Bool
  system : Nat → Bytes → Int
  api : Bool
  getRepo : Nat → Bytes → Option Bool
  createRepo : Nat → Bytes → Option Bool
  configureThrows : Bool
  what : Bytes

/-! ## The planner -/

namespace MigrationPlanner

/-- The id of the new row, or 0. -/
def recordMigrationStart (c : TokenContext) (host : SyncHost) (i : Nat) (serverLabel : Bytes)
    (repo : LocalRepoInfo) (sourcePath : Bytes) (projectId : Int64) (tables : Tables) :
    Int × Tables :=
  match if host.lookups i then getGitServer c serverLabel (tables .gitServers) else none with
  | none => (0, tables)
  | some server =>
      let record : RepoMigrationRecord :=
        { serverId := Int64.ofInt server.id
          projectId
          repoName := repo.name
          sourcePath
          startedAt := host.now
          status := bytes "running"
          branchCount := repo.branchCount
          tagCount := repo.tagCount
          sizeBytes := repo.sizeBytes
          errorMessage := [] }
      if host.inserts i then (addRepoMigration host.now tables record).getD (0, tables)
      else (0, tables)

/-- A statement that may fail. -/
def update (ok : Bool) (id : Int) (params : List (String × Bytes)) (tables : Tables) : Tables :=
  if ok then (updateById schema .repoMigrations id params tables).getD tables else tables

def recordMigrationFailure (host : SyncHost) (error : Bytes) (i : Nat) (id : Int)
    (tables : Tables) : Tables :=
  if id = 0 then tables
  else update (host.updates i) id [("status", bytes "failed"), ("error_message", error)] tables

def recordMigrationSuccess (host : SyncHost) (i : Nat) (id : Int) (tables : Tables) : Tables :=
  if id = 0 then tables
  else update (host.updates i) id
    [("completed_at", decimal host.now), ("status", bytes "completed")] tables

end MigrationPlanner

/-! ## The servers -/

/-- How sending one repository goes. -/
inductive Transfer where
  | done
  | failed
  | thrown
  deriving DecidableEq

/-- `fs::path::filename`. -/
def fileName (path : Bytes) : Bytes := (path.reverse.takeWhile (· ≠ slash)).reverse

def CgitServer.rsyncCommand (cfg : ServerConfig) (localPath : Bytes) : Bytes :=
  bytes "rsync -avz --delete -e " ++
    shellQuote (bytes "ssh -o StrictHostKeyChecking=accept-new -p " ++ decimal cfg.sshPort) ++
    bytes " " ++ shellQuote (localPath ++ bytes "/") ++ bytes " " ++
    shellQuote (cfg.sshUser ++ bytes "@" ++ cfg.host ++ bytes ":" ++
      (cfg.repoBasePath ++ bytes "/" ++ fileName localPath) ++ bytes "/") ++ bytes " 2>&1"

def CgitServer.syncEach (host : SyncHost) (cfg : ServerConfig) : Nat → List Bytes → List Transfer
  | _, [] => []
  | i, path :: rest =>
      (if host.system i (rsyncCommand cfg path) = 0 then .done else .failed) ::
        syncEach host cfg (i + 1) rest

/-- The name on a Gitea server: without the suffix, if something is left. -/
def GiteaServer.repoName (localPath : Bytes) : Bytes :=
  let name := fileName localPath
  if 4 < name.length ∧ name.drop (name.length - 4) = bytes ".git" then
    name.take (name.length - 4)
  else name

def GiteaServer.pushCommand (localPath : Bytes) : Bytes :=
  bytes "git -C " ++ shellQuote localPath ++ bytes " push --mirror gitea 2>&1"

/-- One repository. That the remote is added and its address set beforehand does not decide
anything here: nobody looks at how that ends. -/
def GiteaServer.syncRepo (host : SyncHost) (i : Nat) (path : Bytes) : Transfer :=
  let push := if host.system i (pushCommand path) = 0 then Transfer.done else .failed
  match host.getRepo i (repoName path) with
  | none => .thrown
  | some true => push
  | some false =>
      match host.createRepo i (repoName path) with
      | none => .thrown
      | some false => .failed
      | some true => push

/-- After an exception nothing more is sent. -/
def GiteaServer.syncEach (host : SyncHost) : Nat → List Bytes → List Transfer
  | _, [] => []
  | i, path :: rest =>
      let transfer := syncRepo host i path
      transfer :: if transfer = .thrown then [] else syncEach host (i + 1) rest

inductive ServerType where
  | cgit
  | gitea
  deriving DecidableEq

/-- `create_server`, which throws for another type. -/
def createServer (cfg : ServerConfig) : Option ServerType :=
  if cfg.type = bytes "cgit" then some .cgit
  else if cfg.type = bytes "gitea" then some .gitea
  else none

/-- How each repository goes, as far as it comes to that. -/
def ServerType.transfers (host : SyncHost) (cfg : ServerConfig) (paths : List Bytes) :
    ServerType → List Transfer
  | cgit => CgitServer.syncEach host cfg 0 paths
  | gitea => if host.api then GiteaServer.syncEach host 0 paths else []

/-- `sync_repos`; `none` for an exception. -/
def ServerType.syncRepos (host : SyncHost) (cfg : ServerConfig) (paths : List Bytes)
    (server : ServerType) : Option Bool :=
  let transfers := server.transfers host cfg paths
  match server with
  | cgit =>
      let allOk := transfers.all (· = .done)
      if allOk ∧ host.configureThrows then none else some allOk
  | gitea =>
      if ¬ host.api then some false
      else if .thrown ∈ transfers then none
      else some (transfers.all (· = .done))

/-! ## The command -/

/-- `fs::path(source_path) / name`. -/
def joinPath (source name : Bytes) : Bytes :=
  if source = [] ∨ source.getLast? = some slash then source ++ name else source ++ slash :: name

namespace Sync

/-- The migrations that are begun, in the order of the repositories. -/
def startAll (c : TokenContext) (host : SyncHost) (serverLabel sourcePath : Bytes) :
    Nat → List LocalRepoInfo → Tables → List Int × Tables
  | _, [], tables => ([], tables)
  | i, repo :: rest, tables =>
      let started := MigrationPlanner.recordMigrationStart c host i serverLabel repo
        (joinPath sourcePath repo.name) 0 tables
      let later := startAll c host serverLabel sourcePath (i + 1) rest started.2
      (started.1 :: later.1, later.2)

def markAll (mark : Nat → Int → Tables → Tables) : Nat → List Int → Tables → Tables
  | _, [], tables => tables
  | i, id :: rest, tables => markAll mark (i + 1) rest (mark i id tables)

/-- How the migrations end. -/
def finishAll (host : SyncHost) (result : Option Bool) (ids : List Int) (tables : Tables) :
    Tables :=
  match result with
  | some true => markAll (MigrationPlanner.recordMigrationSuccess host) 0 ids tables
  | some false =>
      markAll (MigrationPlanner.recordMigrationFailure host (bytes "sync failed")) 0 ids tables
  | none => markAll (MigrationPlanner.recordMigrationFailure host host.what) 0 ids tables

/-- `cmd_git_server_sync` once the repositories are known and the user has agreed: the exit
code, how each repository went, and the tables. -/
def run (c : TokenContext) (host : SyncHost) (cfg : ServerConfig) (serverLabel sourcePath : Bytes)
    (repos : List LocalRepoInfo) (tables : Tables) : Int × List Transfer × Tables :=
  match createServer cfg with
  | none => (1, [], tables)
  | some server =>
      let paths := repos.map fun repo => joinPath sourcePath repo.name
      let started := startAll c host serverLabel sourcePath 0 repos tables
      let result := server.syncRepos host cfg paths
      (if result = some true then 0 else 1, server.transfers host cfg paths,
        finishAll host result started.1 started.2)

end Sync

/-!
## The repositories that cgit shows

`CgitServer::configure` takes the names of the repositories from the paths in the store, and
only where the store knows none it asks the server for what stands in the directory.
-/

namespace CgitServer

def trim (s : Bytes) : Bytes :=
  let isBlank := fun c : UInt8 => decide (c = 32 ∨ c = 9 ∨ c = 10 ∨ c = 13)
  (s.dropWhile isBlank).rdropWhile isBlank

def repoDiscoveryCommand (cfg : ServerConfig) : Bytes :=
  bytes "if command -v find >/dev/null 2>&1; then find " ++ shellQuote cfg.repoBasePath ++
    bytes " -maxdepth 1 -type d -name '*.git' -exec basename \x7b\x7d \\;; else ls -1 " ++
    shellQuote cfg.repoBasePath ++ bytes " 2>/dev/null; fi"

/-- The lines of an answer that are names of repositories. -/
def discoveredNames (output : Bytes) : List Bytes :=
  ((getFields 10 output).map trim).filter fun name =>
    name ≠ [] && 4 ≤ name.length && name.drop (name.length - 4) = bytes ".git"

def storedNames (paths : List Bytes) : List Bytes := (paths.map fileName).filter (· ≠ [])

/-- The names for the file of cgit. Of an answer of the server nothing is read unless the
command succeeds. -/
def repoNames (o : RowOrder) (ssh : Bytes → Option Bytes) (cfg : ServerConfig)
    (store : Option (Table BareRepoRow)) : List Bytes :=
  let stored := (store.map fun t =>
    storedNames (listBareRepoPathsWithPrefix o cfg.repoBasePath t)).getD []
  let names :=
    if stored = [] then ((ssh (repoDiscoveryCommand cfg)).map discoveredNames).getD [] else stored
  (names.mergeSort (· ≤ ·)).destutter (· ≠ ·)

end CgitServer

end Nazg.Git
