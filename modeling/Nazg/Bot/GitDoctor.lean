import Nazg.Bot.HealthScripts
import Nazg.Bot.Transport
import Nazg.Git.ServerRegistry
import Nazg.Lib.BashWord

/-!
# The script of the git doctor

The bot puts three assignments in front of its script, with the values of its host between double
quotes, and the script fills in what is empty.
-/

namespace Nazg.Bot

open Lib Git

/-- What the bot knows of the server; the label is for messages. -/
structure GitDoctorBot where
  gitServerType : Bytes := bytes "cgit"
  repoBasePath : Bytes := bytes "/srv/git"
  configPath : Bytes := bytes "/etc/cgitrc"

namespace GitDoctorBot

/-- The constructor. -/
def ofHost (host : HostConfig) : GitDoctorBot where
  gitServerType := (host.extraConfig.find? (bytes "git_server_type")).getD (bytes "cgit")
  repoBasePath := (host.extraConfig.find? (bytes "repo_base_path")).getD (bytes "/srv/git")
  configPath := (host.extraConfig.find? (bytes "config_path")).getD (bytes "/etc/cgitrc")

/-- The second line of `GIT_DOCTOR_SCRIPT`, and what follows it. -/
def scriptBody (rest : Bytes) : Bytes :=
  bytes "# Git Doctor Bot - Git server infrastructure health check\n" ++ rest

/-- `GIT_DOCTOR_SCRIPT`. -/
def gitDoctorScript (rest : Bytes) : Bytes := bytes "#!/usr/bin/env bash\n" ++ scriptBody rest

/-- `get_script_content`: the assignments and the script without its first line. -/
def getScriptContent (bot : GitDoctorBot) (script : Bytes) : Bytes :=
  bytes "#!/usr/bin/env bash\n" ++
    (bytes "GIT_TYPE=\"" ++ bot.gitServerType ++ bytes "\"\n") ++
    (bytes "REPO_PATH=\"" ++ bot.repoBasePath ++ bytes "\"\n") ++
    (bytes "CONFIG_PATH=\"" ++ bot.configPath ++ bytes "\"\n") ++ bytes "\n" ++
    match script.dropWhile (· ≠ 10) with
    | [] => script
    | _ :: body => body

/-! ## What the script makes of it -/

def variableNames : List Bytes := [bytes "GIT_TYPE", bytes "REPO_PATH", bytes "CONFIG_PATH"]

def defaults : List Bytes := [bytes "cgit", bytes "/srv/git", bytes "/etc/cgitrc"]

/-- The script's own three assignments, which put a default for an empty value. -/
def withDefaults (values : List Bytes) : List Bytes := List.zipWith orElse values defaults

/-- The three variables and the lines that are still to be run, if the text settles the lines up
to there and these do nothing else. -/
def runHeader (script : Bytes) : Option (List Bytes × Bytes) :=
  (Bash.readAssignments variableNames (Bash.skipComment script)).map fun r =>
    (withDefaults r.1, r.2)

end GitDoctorBot

end Nazg.Bot

/-!
## The report of the git doctor

What the script of the git doctor finds on a host, the status it concludes from it, and the text
that it prints.
-/

namespace Nazg.Bot

open Lib

/-! ## Readings -/

/-- The command of a git server, and the version that is shown for it. -/
inductive InstalledServer where
  | cgit (version : Bytes)
  | gitea (version : Bytes)

/-- A service as `systemctl` shows it; without `systemctl` it is unknown. -/
inductive UnitStatus where
  | running
  | stopped
  | notInstalled
  | unknown
  deriving DecidableEq

def UnitStatus.text : UnitStatus → Bytes
  | running => bytes "running"
  | stopped => bytes "stopped"
  | notInstalled => bytes "not_installed"
  | unknown => bytes "unknown"

/-- `git-http-backend`, if there is `git`. -/
inductive HttpBackend where
  | available
  | notFound
  | unknown
  deriving DecidableEq

def HttpBackend.text : HttpBackend → Bytes
  | available => bytes "available"
  | notFound => bytes "not_found"
  | unknown => bytes "unknown"

/-- The repository directory: how many repositories are in it, how many bytes it takes, and its
disk. The shell compares and divides these numbers in 64 bits. -/
structure RepoDirectory where
  repoCount : Nat
  repoCount_lt : repoCount < 2 ^ 63
  sizeBytes : Nat
  sizeBytes_lt : sizeBytes < 2 ^ 63
  diskUsedPct : Nat
  diskUsedPct_lt : diskUsedPct < 2 ^ 63
  diskFree : Bytes

/-- What the script finds on a host. -/
structure GitReadings where
  hostname : Bytes
  timestamp : Int64
  server : Option InstalledServer
  nginx : UnitStatus
  fcgiwrap : UnitStatus
  directory : Option RepoDirectory
  configExists : Bool
  configReadable : Bool
  webUiReachable : Bool
  httpClone : HttpBackend
  gitUserShell : Option Bytes
  fcgiwrapSocket : Bool

/-! ## The report -/

structure GitReport where
  host : Bytes
  timestamp : Int64
  serverType : Bytes
  installed : Bool
  version : Bytes
  configPath : Bytes
  configExists : Bool
  configReadable : Bool
  nginx : UnitStatus
  fcgiwrap : UnitStatus
  repoPath : Bytes
  repoCount : Nat
  totalSizeMb : Nat
  diskUsedPct : Nat
  diskFree : Bytes
  webUiReachable : Bool
  httpClone : HttpBackend
  gitUserExists : Bool
  gitUserShell : Bytes
  fcgiwrapSocketExists : Bool
  status : Severity
  note : Option Bytes

namespace GitDoctorBot

def installedType (gitType : Bytes) : Option InstalledServer → Bytes
  | some (.cgit _) => bytes "cgit"
  | some (.gitea _) => bytes "gitea"
  | none => gitType

def installedVersion : Option InstalledServer → Bytes
  | some (.cgit version) => version
  | some (.gitea version) => version
  | none => []

/-- "Determine Overall Status": the first check that fails decides. -/
def overallStatus (diskWarn diskCrit : Int) (r : GitReadings) (serverType configPath : Bytes)
    (diskUsedPct : Nat) : Severity × Option Bytes :=
  if r.server.isNone then
    (.critical, some (bytes "Git server (" ++ serverType ++ bytes ") not installed"))
  else if r.nginx ≠ .running then (.critical, some (bytes "nginx not running"))
  else if r.fcgiwrap ≠ .running ∧ serverType = bytes "cgit" then
    (.warning, some (bytes "fcgiwrap not running - HTTP access may not work"))
  else if diskCrit ≤ diskUsedPct then
    (.critical, some (bytes "Disk space critical: " ++ decimal diskUsedPct ++ bytes "% used"))
  else if diskWarn ≤ diskUsedPct then
    (.warning, some (bytes "Disk space elevated: " ++ decimal diskUsedPct ++ bytes "% used"))
  else if r.configExists = false then
    (.warning, some (bytes "Config file not found: " ++ configPath))
  else (.ok, none)

/-- `GIT_DOCTOR_SCRIPT`, with its variables as the bot sets them. -/
def runScript (bot : GitDoctorBot) (diskWarn diskCrit : Int) (r : GitReadings) : GitReport :=
  let serverType := installedType bot.gitServerType r.server
  let diskUsedPct := (r.directory.map RepoDirectory.diskUsedPct).getD 0
  let overall := overallStatus diskWarn diskCrit r serverType bot.configPath diskUsedPct
  { host := r.hostname
    timestamp := r.timestamp
    serverType := serverType
    installed := r.server.isSome
    version := installedVersion r.server
    configPath := bot.configPath
    configExists := r.configExists
    configReadable := r.configExists && r.configReadable
    nginx := r.nginx
    fcgiwrap := r.fcgiwrap
    repoPath := bot.repoBasePath
    repoCount := (r.directory.map RepoDirectory.repoCount).getD 0
    totalSizeMb :=
      match r.directory with
      | none => 0
      | some d => if d.repoCount = 0 then 0 else d.sizeBytes / 1024 / 1024
    diskUsedPct := diskUsedPct
    diskFree := (r.directory.map RepoDirectory.diskFree).getD (bytes "unknown")
    webUiReachable := r.webUiReachable
    httpClone := r.httpClone
    gitUserExists := r.gitUserShell.isSome
    gitUserShell := r.gitUserShell.getD []
    fcgiwrapSocketExists := r.fcgiwrapSocket
    status := overall.1
    note := overall.2 }

end GitDoctorBot

/-! ## The text -/

namespace GitReport

def boolText (b : Bool) : Bytes := if b then bytes "true" else bytes "false"

def inQuotes (s : Bytes) : Bytes := 34 :: (s ++ [34])

/-- The beginning of a line: a name in quotes, and its value. -/
def member (indent name : String) (value : Bytes) : Bytes :=
  bytes indent ++ inQuotes (bytes name) ++ bytes ": " ++ value

/-- The object of the services. -/
def servicesObject (r : GitReport) : Bytes :=
  bytes "\x7b\n" ++
  member "    " "nginx" (inQuotes r.nginx.text) ++ bytes ",\n" ++
  member "    " "fcgiwrap" (inQuotes r.fcgiwrap.text) ++ bytes "\n  \x7d"

/-- `NOTES`. -/
def notesArray (r : GitReport) : Bytes :=
  match r.note with
  | none => bytes "[]"
  | some note => bytes "[" ++ inQuotes note ++ bytes "]"

def gitServerText (r : GitReport) : Bytes :=
  member "  " "git_server" (bytes "\x7b\n") ++
  member "    " "type" (inQuotes r.serverType) ++ bytes ",\n" ++
  member "    " "installed" (boolText r.installed) ++ bytes ",\n" ++
  member "    " "version" (inQuotes r.version) ++ bytes ",\n" ++
  member "    " "config_path" (inQuotes r.configPath) ++ bytes ",\n" ++
  member "    " "config_exists" (boolText r.configExists) ++ bytes ",\n" ++
  member "    " "config_readable" (boolText r.configReadable) ++ bytes "\n  \x7d,\n"

def repositoriesText (r : GitReport) : Bytes :=
  member "  " "repositories" (bytes "\x7b\n") ++
  member "    " "path" (inQuotes r.repoPath) ++ bytes ",\n" ++
  member "    " "count" (decimal r.repoCount) ++ bytes ",\n" ++
  member "    " "total_size_mb" (decimal r.totalSizeMb) ++ bytes "\n  \x7d,\n"

def diskText (r : GitReport) : Bytes :=
  member "  " "disk" (bytes "\x7b\n") ++
  member "    " "path" (inQuotes r.repoPath) ++ bytes ",\n" ++
  member "    " "used_pct" (decimal r.diskUsedPct) ++ bytes ",\n" ++
  member "    " "free" (inQuotes r.diskFree) ++ bytes "\n  \x7d,\n"

def checksText (r : GitReport) : Bytes :=
  member "  " "checks" (bytes "\x7b\n") ++
  member "    " "web_ui_reachable" (boolText r.webUiReachable) ++ bytes ",\n" ++
  member "    " "http_clone_available" (inQuotes r.httpClone.text) ++ bytes ",\n" ++
  member "    " "git_user_exists" (boolText r.gitUserExists) ++ bytes ",\n" ++
  member "    " "git_user_shell" (inQuotes r.gitUserShell) ++ bytes ",\n" ++
  member "    " "fcgiwrap_socket_exists" (boolText r.fcgiwrapSocketExists) ++
    bytes "\n  \x7d,\n"

/-- What the script prints. -/
def text (r : GitReport) : Bytes :=
  bytes "\x7b\n" ++
  member "  " "host" (inQuotes r.host) ++ bytes ",\n" ++
  member "  " "timestamp" (decimal r.timestamp.toInt) ++ bytes ",\n" ++
  r.gitServerText ++
  member "  " "services" r.servicesObject ++ bytes ",\n" ++
  r.repositoriesText ++ r.diskText ++ r.checksText ++
  member "  " "status" (inQuotes r.status.text) ++ bytes ",\n" ++
  member "  " "notes" r.notesArray ++ bytes "\n\x7d\n"

end GitReport

end Nazg.Bot
