import Nazg.Bot.Transport
import Nazg.Git.ServerRegistry

/-!
# The hosts of the bots

A host has a row under its label: the address, and a JSON text with the key and the ports. The
text is written by `setup`, by `spawn` and by `manage`, each in its own way, and read by
`manage`. What a bot runs with comes from the command line and the configuration.
-/

namespace Nazg.Bot

open Lib Git

structure SshConfigFields where
  key : Bytes := []
  port : Int := 22
  agentPort : Int := 7070
  deriving DecidableEq

/-! ## The JSON text -/

def quote : UInt8 := 34
def backslash : UInt8 := 92
def colon : UInt8 := 58

def escapeJsonString (value : Bytes) : Bytes :=
  value.flatMap fun c => if c = quote ∨ c = backslash then [backslash, c] else [c]

/-- A string as far as its end, which a backslash hides. -/
def readJsonString : Bytes → Bytes
  | [] => []
  | [c] => if c = quote then [] else [c]
  | c :: d :: rest =>
      if c = backslash then d :: readJsonString rest
      else if c = quote then []
      else c :: readJsonString (d :: rest)

def isNumeral (c : UInt8) : Bool := isDigit c || c = 45 || c = 43

/-- The value after a colon. -/
def readJsonValue (s : Bytes) : Bytes :=
  match s.dropWhile isSpace with
  | [] => []
  | c :: rest => if c = quote then readJsonString rest else (c :: rest).takeWhile isNumeral

/-- `extract_json_token`: the value after the first colon after the first place where the key
stands in quotes. -/
def extractJsonToken (json key : Bytes) : Bytes :=
  match find (quote :: key ++ [quote]) json with
  | none => []
  | some pos =>
      match (json.drop pos).dropWhile (· ≠ colon) with
      | [] => []
      | _ :: rest => readJsonValue rest

def parseSshConfigJson (json : Bytes) : SshConfigFields :=
  if json = [] then {}
  else
    let port := extractJsonToken json (bytes "port")
    let agentPort := extractJsonToken json (bytes "agent_port")
    { key := extractJsonToken json (bytes "key")
      port := if port = [] then 22 else (stoi port).getD 22
      agentPort := if agentPort = [] then 7070 else (stoi agentPort).getD 7070 }

def buildSshConfigJson (cfg : SshConfigFields) : Bytes :=
  bytes "\x7b\"key\":\"" ++ escapeJsonString cfg.key ++ bytes "\",\"port\":" ++ decimal cfg.port ++
    bytes ",\"agent_port\":" ++ decimal cfg.agentPort ++ bytes "\x7d"

/-! ## The command line and the configuration -/

/-- The defaults of `HostConfig`. -/
def HostConfig.blank : HostConfig where
  id := 0
  label := []
  address := []
  sshKey := []
  sshPort := 22
  agentPort := 7070
  services := []
  extraConfig := .empty

/-- The options of `spawn`; `none` for an exception. -/
def parseHostArgs (host : HostConfig) : List Bytes → Option HostConfig
  | [] => some host
  | [_] => some host
  | arg :: value :: rest =>
      if arg = bytes "--host" then parseHostArgs { host with address := value } rest
      else if arg = bytes "--label" then parseHostArgs { host with label := value } rest
      else if arg = bytes "--key" then parseHostArgs { host with sshKey := value } rest
      else if arg = bytes "--port" then
        match stoi value with
        | none => none
        | some port => parseHostArgs { host with sshPort := port } rest
      else if arg = bytes "--service" then
        parseHostArgs { host with services := host.services ++ [value] } rest
      else if arg = bytes "--agent-port" then
        match stoi value with
        | none => none
        | some port => parseHostArgs { host with agentPort := port } rest
      else parseHostArgs host (value :: rest)

/-- The values of the configuration, if there is one. -/
abbrev Config := Option (Bytes → Bytes → Option Bytes)

/-- `std::getline` up to each comma. -/
def splitServices (s : Bytes) : List Bytes :=
  let parts := s.splitOn 44
  if parts.getLast? = some [] then parts.dropLast else parts

/-- What the section of the host says, if it has an address. -/
def applyHostSection (data : Bytes → Bytes → Option Bytes) (host : HostConfig) : HostConfig :=
  let sec := bytes "bots.hosts." ++ host.label
  if (data sec (bytes "address")).isSome then
    { host with
      address :=
        if host.address = [] then ServerRegistry.getString data sec (bytes "address") []
        else host.address
      sshKey := ServerRegistry.getString data sec (bytes "ssh_key") host.sshKey
      services := host.services ++
        splitServices (ServerRegistry.getString data sec (bytes "services") [])
      agentPort := ServerRegistry.getInt data sec (bytes "agent_port") host.agentPort }
  else host

/-- What is said of all bots. -/
def applyGlobal (data : Bytes → Bytes → Option Bytes) (host : HostConfig) : HostConfig :=
  { host with
    sshKey :=
      if host.sshKey = [] then ServerRegistry.getString data (bytes "bots") (bytes "ssh_key") []
      else host.sshKey
    agentPort := ServerRegistry.getInt data (bytes "bots") (bytes "agent_port") host.agentPort }

def applyConfig (cfg : Config) (host : HostConfig) : HostConfig :=
  match cfg with
  | none => host
  | some data => applyGlobal data (applyHostSection data host)

def parseHostConfig (cfg : Config) (args : List Bytes) : Option HostConfig :=
  (parseHostArgs .blank args).map fun host =>
    applyConfig cfg { host with label := orElse host.label host.address }

/-- The options of `setup`, with the path of the key as the key. -/
def parseSetupArgs (host : HostConfig) : List Bytes → Option HostConfig
  | [] => some host
  | [_] => some host
  | arg :: value :: rest =>
      if arg = bytes "--host" then parseSetupArgs { host with address := value } rest
      else if arg = bytes "--label" then parseSetupArgs { host with label := value } rest
      else if arg = bytes "--password" then parseSetupArgs host rest
      else if arg = bytes "--key" then parseSetupArgs { host with sshKey := value } rest
      else if arg = bytes "--port" then
        match stoi value with
        | none => none
        | some port => parseSetupArgs { host with sshPort := port } rest
      else parseSetupArgs host (value :: rest)

/-! ## The commands -/

/-- A row of `bot_hosts`. -/
structure BotHost where
  address : Text
  sshConfig : Text

/-- The rows by their labels, which are unique. -/
abbrev BotHosts := Text → Option BotHost

/-- What `setup` meets: the home directory; whether the key, the package, the password, the copy
of the key and the connection test are all there for a host; and whether the insert succeeds. -/
structure SetupHost where
  home : Option Text
  prepared : HostConfig → Bool
  inserts : Bool

/-- The host that is set up, if it comes to that. -/
def SetupHost.host (env : SetupHost) (args : List Bytes) : Option HostConfig :=
  (parseSetupArgs .blank args).bind fun host =>
    if host.address = [] then none
    else
      let label := orElse host.label host.address
      let key :=
        if host.sshKey = [] then env.home.map fun home => home.bytes ++ bytes "/.ssh/id_ed25519"
        else some host.sshKey
      key.bind fun sshKey =>
        let host := { host with label, sshKey }
        if env.prepared host then some host else none

/-- `add_bot_host`, which a label that is there refuses. -/
def addBotHost (ok : Bool) (label address sshConfig : Bytes) (hosts : BotHosts) : BotHosts :=
  if ok ∧ hosts (.ofCStr label) = none then
    Function.update hosts (.ofCStr label) (some ⟨.ofCStr address, .ofCStr sshConfig⟩)
  else hosts

/-- `cmd_bot_setup`: whether it succeeds. -/
def setup (env : SetupHost) (args : List Bytes) (hosts : BotHosts) : Bool × BotHosts :=
  match env.host args with
  | none => (false, hosts)
  | some host =>
      let sshConfig := bytes "\x7b\"key\":\"" ++ host.sshKey ++ bytes "\",\"port\":" ++
        decimal host.sshPort ++ bytes "\x7d"
      -- a label that is there is said to be updated
      if (hosts (.ofCStr host.label)).isSome then (true, hosts)
      else (true, addBotHost env.inserts host.label host.address sshConfig hosts)

/-- `cmd_bot_spawn` of a bot that there is: the host it runs on, if it comes to that. -/
def spawn (cfg : Config) (inserts : Bool) (args : List Bytes) (hosts : BotHosts) :
    Option HostConfig × BotHosts :=
  match parseHostConfig cfg args with
  | none => (none, hosts)
  | some host =>
      if host.address = [] then (none, hosts)
      else
        let sshConfig := bytes "\x7b\"key\":\"" ++ host.sshKey ++ bytes "\",\"port\":" ++
          decimal host.sshPort ++ bytes ",\"agent_port\":" ++ decimal host.agentPort ++
          bytes "\x7d"
        if (hosts (.ofCStr host.label)).isSome then (some host, hosts)
        else (some host, addBotHost inserts host.label host.address sshConfig hosts)

/-- An action of `manage_single_host`, with what is entered and whether its statement
succeeds. -/
inductive ManageAction where
  | label (newLabel : Text) (ok : Bool)
  | address (newAddress : Text) (ok : Bool)
  | ssh (newKey portStr agentStr : Text) (ok : Bool)
  | delete (ok : Bool)

/-- The port, if one was entered that can be one. -/
def enterPort (entered : Text) (port : Int) : Int :=
  match stoi entered.bytes with
  | none => port
  | some p => if 0 < p ∧ p < 65536 then p else port

/-- The fields of a row after new ones are entered. -/
def enterSshConfig (newKey portStr agentStr : Text) (cfg : SshConfigFields) : SshConfigFields where
  key := if newKey.bytes = [] then cfg.key else newKey.bytes
  port := enterPort portStr cfg.port
  agentPort := enterPort agentStr cfg.agentPort

/-- `manage_single_host`, one time round: whether the row is changed. A session is a list of
these, each on the label that the one before it leaves. -/
def manage (label : Text) (hosts : BotHosts) : ManageAction → Bool × BotHosts
  | .label newLabel ok =>
      match hosts label with
      | none => (false, hosts)
      | some host =>
          if newLabel.bytes = [] ∨ newLabel = label then (false, hosts)
          else if ok ∧ hosts newLabel = none then
            (true, Function.update (Function.update hosts label none) newLabel (some host))
          else (false, hosts)
  | .address newAddress ok =>
      match hosts label with
      | none => (false, hosts)
      | some host =>
          if newAddress.bytes = [] ∨ newAddress = host.address then (false, hosts)
          else if ok then
            (true, Function.update hosts label (some { host with address := newAddress }))
          else (false, hosts)
  | .ssh newKey portStr agentStr ok =>
      match hosts label with
      | none => (false, hosts)
      | some host =>
          let cfg := enterSshConfig newKey portStr agentStr
            (parseSshConfigJson host.sshConfig.bytes)
          if ok then
            (true, Function.update hosts label
              (some { host with sshConfig := .ofCStr (buildSshConfigJson cfg) }))
          else (false, hosts)
  | .delete ok =>
      match hosts label with
      | none => (false, hosts)
      | some _ => if ok then (true, Function.update hosts label none) else (false, hosts)

end Nazg.Bot
