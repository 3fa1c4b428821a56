import Nazg.Nexus.GitServers

/-!
# The registry of git servers

The registry merges what the configuration says about a server with what the database
knows. Its two writes build a record from the configuration and from the row that is
there, and write the whole record back, the token included: what could not be read of the
row is not in the record either.
-/

namespace Nazg.Git

open Lib Lib.Sqlite Nexus

structure ServerConfig where
  type : Bytes := []
  host : Bytes := []
  port : Int := 80
  sshPort : Int := 22
  sshUser : Bytes := bytes "git"
  repoBasePath : Bytes := bytes "/srv/git"
  configPath : Bytes := []
  webUrl : Bytes := []
  adminToken : Bytes := []

structure ServerEntry where
  id : Int := 0
  label : Bytes := []
  config : ServerConfig := {}
  adminToken : Bytes := []
  status : Bytes := []
  installedAt : Int := 0
  lastCheck : Int := 0
  configHash : Bytes := []
  configModified : Int := 0
  hasConfigChanges : Bool := false
  configSource : Bytes := []

/-- The configuration file, if there is one, with its values by section and key; the hash
function; and the store, which is what it brings to the handling of tokens. -/
structure ServerRegistry where
  cfg : Option (Bytes → Bytes → Option Bytes)
  sha256 : Bytes → Bytes
  store : TokenContext

/-- What a call meets outside: the time, the IV drawn if a token is encrypted, which of its
queries succeed, and whether its write does. -/
structure Conditions where
  now : Int
  draw : Option Iv
  reads : Nat → Bool
  writes : Bool

/-- The text, or the other if it is empty. -/
def orElse (s other : Bytes) : Bytes := if s = [] then other else s

namespace ServerRegistry

variable (r : ServerRegistry)

/-- `config::store::get_string`. -/
def getString (data : Bytes → Bytes → Option Bytes) (sec key default : Bytes) : Bytes :=
  (data sec key).getD default

/-- `config::store::get_int`. -/
def getInt (data : Bytes → Bytes → Option Bytes) (sec key : Bytes) (default : Int) : Int :=
  let val := getString data sec key []
  if val = [] then default else (stoi val).getD default

/-- `load_from_config`. -/
def loadFromConfig (label : Bytes) : Option ServerConfig :=
  match r.cfg with
  | none => none
  | some data =>
      let sec := bytes "git.servers." ++ label
      let type := getString data sec (bytes "type") []
      if type = [] then none
      else
        let host := getString data sec (bytes "host") []
        let defaultPort := if type = bytes "gitea" then 3000 else 80
        let configPath :=
          if type = bytes "cgit" then bytes "/etc/cgitrc"
          else if type = bytes "gitea" then bytes "/etc/gitea/app.ini"
          else []
        let webUrl :=
          if type = bytes "cgit" then bytes "http://" ++ host ++ bytes "/cgit"
          else if type = bytes "gitea" then bytes "http://" ++ host ++ bytes ":3000"
          else []
        let cfg : ServerConfig :=
          { type
            host
            sshUser := getString data sec (bytes "ssh_user") (bytes "git")
            sshPort := getInt data sec (bytes "ssh_port") 22
            port := getInt data sec (bytes "port") defaultPort
            repoBasePath := getString data sec (bytes "repo_base_path") (bytes "/srv/git")
            configPath := orElse (getString data sec (bytes "config_path") []) configPath
            webUrl := orElse (getString data sec (bytes "web_url") []) webUrl
            adminToken := getString data sec (bytes "admin_token") [] }
        if host = [] then none else some cfg

/-- `compute_config_hash`: of everything but the token. -/
def computeConfigHash (cfg : ServerConfig) : Bytes :=
  toHex (r.sha256 (List.intercalate (bytes "|")
    [cfg.type, cfg.host, cfg.sshUser, decimal cfg.sshPort, decimal cfg.port, cfg.repoBasePath,
      cfg.configPath, cfg.webUrl]))

/-- `Store::get_git_server`, where a query that fails finds nothing. -/
def readServer (c : TokenContext) (ok : Bool) (label : Bytes) (t : Table Row) :
    Option GitServer :=
  if ok then getGitServer c label t else none

/-- `load_from_database`, of the record that was read. -/
def loadFromDatabase (label : Bytes) (record : GitServer) : ServerEntry :=
  { id := record.id
    label := orElse record.label label
    config :=
      { type := record.type
        host := record.host
        port := record.port
        sshPort := record.sshPort
        sshUser := orElse record.sshUser (bytes "git")
        repoBasePath := orElse record.repoBasePath (bytes "/srv/git")
        configPath := record.configPath
        webUrl := record.webUrl
        adminToken := record.adminToken }
    adminToken := record.adminToken
    status := orElse record.status (bytes "not_installed")
    installedAt := record.installedAt
    lastCheck := record.lastCheck
    configHash := record.configHash
    configModified := record.configModified
    configSource := bytes "database" }

/-- `get_server`. -/
def getServer (env : Conditions) (label : Bytes) (t : Table Row) : Option ServerEntry :=
  let config := r.loadFromConfig label
  let db := (readServer r.store (env.reads 0) label t).map (loadFromDatabase label)
  match config, db with
  | none, none => none
  | some config, none =>
      some
        { label
          config
          configSource := bytes "toml"
          status := bytes "not_installed"
          configHash := r.computeConfigHash config
          configModified := env.now
          adminToken := config.adminToken }
  | none, some entry => some { entry with status := orElse entry.status (bytes "not_installed") }
  | some config, some entry =>
      let dbToken := entry.adminToken
      let merged := { config with adminToken := orElse config.adminToken dbToken }
      let changed : Bool := entry.configHash ≠ r.computeConfigHash config
      some
        { entry with
          config := merged
          adminToken := orElse dbToken merged.adminToken
          hasConfigChanges := changed
          configSource := if changed then bytes "both (modified)" else bytes "both" }

/-- The statement of an upsert, and whether it succeeded. -/
def writeServer (env : Conditions) (record : GitServer) (t : Table Row) : Bool × Table Row :=
  if env.writes then (true, upsertGitServer r.store env.now env.draw record t) else (false, t)

/-- `add_server`. -/
def addServer (env : Conditions) (label : Bytes) (cfg : ServerConfig) (t : Table Row) :
    Bool × Table Row :=
  if cfg.type = [] ∨ cfg.host = [] then (false, t)
  else
    let record : GitServer :=
      { label
        type := cfg.type
        host := cfg.host
        port := cfg.port
        sshPort := cfg.sshPort
        sshUser := cfg.sshUser
        repoBasePath := cfg.repoBasePath
        configPath := cfg.configPath
        webUrl := cfg.webUrl
        adminToken := cfg.adminToken
        configHash := r.computeConfigHash cfg
        configModified := env.now
        updatedAt := env.now
        createdAt := env.now
        status := bytes "not_installed" }
    match readServer r.store (env.reads 0) label t with
    | none => r.writeServer env record t
    | some existing =>
        r.writeServer env
          { record with
            id := existing.id
            status := orElse existing.status record.status
            installedAt := existing.installedAt
            lastCheck := existing.lastCheck
            createdAt := if existing.createdAt ≠ 0 then existing.createdAt else env.now
            adminToken := orElse record.adminToken existing.adminToken } t

/-- `sync_config_to_database`, with the answer to the prompt if there is one. -/
def syncConfigToDatabase (env : Conditions) (label : Bytes) (prompt : Option Bool)
    (t : Table Row) : Bool × Table Row :=
  match r.getServer env label t with
  | none => (true, t)
  | some entry =>
      if ¬ entry.hasConfigChanges then (true, t)
      else if prompt = some false then (false, t)
      else
        let record := (readServer r.store (env.reads 1) label t).getD
          { label, status := bytes "not_installed", createdAt := env.now }
        r.writeServer env
          { record with
            type := entry.config.type
            host := entry.config.host
            port := entry.config.port
            sshPort := entry.config.sshPort
            sshUser := entry.config.sshUser
            repoBasePath := entry.config.repoBasePath
            configPath := entry.config.configPath
            webUrl := entry.config.webUrl
            configHash := r.computeConfigHash entry.config
            configModified := env.now
            updatedAt := env.now } t

end ServerRegistry

/-! ## Numbers -/

/-- The range of an `int`. -/
def FitsInt (n : Int) : Prop := -2 ^ 31 ≤ n ∧ n ≤ 2 ^ 31 - 1

instance (n : Int) : Decidable (FitsInt n) := inferInstanceAs (Decidable (_ ∧ _))

theorem fitsInt_stoi {s : Bytes} {n : Int} (h : stoi s = some n) : FitsInt n := by
  have hself := parseInteger_eq h (-2 ^ 31) (2 ^ 31 - 1)
  rw [show parseInteger (-2 ^ 31) (2 ^ 31 - 1) s = some n from h] at hself
  split at hself
  · next hn => exact hn
  · cases hself

theorem ServerRegistry.fitsInt_getInt (data : Bytes → Bytes → Option Bytes) (sec key : Bytes)
    {default : Int} (h : FitsInt default) : FitsInt (getInt data sec key default) := by
  rw [getInt]
  split
  · exact h
  · cases hval : stoi (getString data sec key []) with
    | none => exact h
    | some n => exact fitsInt_stoi hval

end Nazg.Git
