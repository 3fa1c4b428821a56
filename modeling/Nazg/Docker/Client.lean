import Nazg.Bot.Transport
import Nazg.Lib.Brackets
import Nazg.Lib.Decimal
import Nazg.Lib.Query
import Nazg.Nexus.DockerStore

/-!
# Importing a scan

The helpers of the docker monitoring client that pick values out of a scan
payload, and `parse_and_store_scan`, which writes what they find into the store.

The helpers never parse: they search for a quoted key with a colon, take a string
up to the next quote that no backslash precedes, and cut arrays and objects out
by counting delimiters. What they return is the text of the payload, escapes and
all.
-/

namespace Nazg.Docker

open Lib Nexus

/-! ## The extract helpers -/

/-- The searched pattern: the key in quotes and a colon. -/
def keyPattern (key : Bytes) : Bytes := quote :: (key ++ bytes "\":")

def isBlank (c : UInt8) : Bool := c = 32 || c = 9

/-- What follows the first occurrence of the key's pattern. -/
def afterKey (json key : Bytes) : Option Bytes :=
  (find (keyPattern key) json).map fun pos => json.drop (pos + (keyPattern key).length)

/-- The text up to the next quote, a backslash taking the byte after it along. -/
def stringBody : Bytes → Bytes
  | [] => []
  | c :: s =>
      if c = quote then []
      else if c = backslash then
        match s with
        | [] => [c]
        | d :: s => c :: d :: stringBody s
      else c :: stringBody s

@[simp] theorem stringBody_quote (s : Bytes) : stringBody (quote :: s) = [] := by
  unfold stringBody
  rfl

@[simp] theorem stringBody_backslash (d : UInt8) (s : Bytes) :
    stringBody (backslash :: d :: s) = backslash :: d :: stringBody s := by
  rw [stringBody.eq_def]
  rfl

theorem stringBody_cons {c : UInt8} (hq : c ≠ quote) (hb : c ≠ backslash) (s : Bytes) :
    stringBody (c :: s) = c :: stringBody s := by
  rw [stringBody.eq_def]
  simp only [if_neg hq, if_neg hb]

def extractJsonString (json key : Bytes) : Bytes :=
  match (afterKey json key).map fun s => s.dropWhile isBlank with
  | some (c :: s) => if c = quote then stringBody s else []
  | _ => []

def extractJsonInt (json key : Bytes) : Int :=
  match (afterKey json key).map fun s => s.dropWhile isBlank with
  | some s =>
      let digits := s.takeWhile isDigit
      if digits = [] then 0 else (stoll digits).getD 0
  | none => 0

/-- The array with its brackets; `[]` when there is none or it never closes. -/
def extractJsonArray (json key : Bytes) : Bytes :=
  match (afterKey json key).map fun s => s.dropWhile fun c => isBlank c || c = 10 with
  | some (c :: s) =>
      if c = openBracket then
        let r := span openBracket closeBracket 1 s
        if r.2.2 = 0 then c :: r.1 else bytes "[]"
      else bytes "[]"
  | _ => bytes "[]"

/-- The loop over the objects of an array, from what follows the last one. The
fuel bounds the objects; each takes at least its brace. -/
def objectsLoop : Nat → Bytes → List Bytes
  | 0, _ => []
  | fuel + 1, s =>
      match s.dropWhile (· ≠ openBrace) with
      | [] => []
      | c :: s =>
          let r := span openBrace closeBrace 1 s
          (c :: r.1) :: objectsLoop fuel r.2.1

/-- The objects of an array, past its opening bracket. -/
def jsonObjects (array : Bytes) : List Bytes := objectsLoop array.length (array.drop 1)

/-! ## Decoded records -/

structure ScannedContainer where
  id : Bytes
  name : Bytes
  image : Bytes
  state : Bytes
  status : Bytes
  created : Int
  serviceName : Bytes
  healthStatus : Bytes
  restartPolicy : Bytes
  deriving DecidableEq

structure ScannedImage where
  id : Bytes
  repository : Bytes
  tag : Bytes
  sizeBytes : Int
  created : Int
  deriving DecidableEq

/-- `services` is the text of the array. -/
structure ScannedComposeFile where
  path : Bytes
  projectName : Bytes
  services : Bytes
  hash : Bytes
  deriving DecidableEq

structure ScannedNetwork where
  id : Bytes
  name : Bytes
  driver : Bytes
  scope : Bytes
  deriving DecidableEq

structure ScannedVolume where
  name : Bytes
  driver : Bytes
  mountpoint : Bytes
  deriving DecidableEq

def decodeContainer (obj : Bytes) : ScannedContainer where
  id := extractJsonString obj (bytes "id")
  name := extractJsonString obj (bytes "name")
  image := extractJsonString obj (bytes "image")
  state := extractJsonString obj (bytes "state")
  status := extractJsonString obj (bytes "status")
  created := extractJsonInt obj (bytes "created")
  serviceName := extractJsonString obj (bytes "service_name")
  healthStatus := extractJsonString obj (bytes "health_status")
  restartPolicy := extractJsonString obj (bytes "restart_policy")

def decodeImage (obj : Bytes) : ScannedImage where
  id := extractJsonString obj (bytes "id")
  repository := extractJsonString obj (bytes "repository")
  tag := extractJsonString obj (bytes "tag")
  sizeBytes := extractJsonInt obj (bytes "size_bytes")
  created := extractJsonInt obj (bytes "created")

def decodeComposeFile (obj : Bytes) : ScannedComposeFile where
  path := extractJsonString obj (bytes "path")
  projectName := extractJsonString obj (bytes "project_name")
  services := extractJsonArray obj (bytes "services")
  hash := extractJsonString obj (bytes "hash")

def decodeNetwork (obj : Bytes) : ScannedNetwork where
  id := extractJsonString obj (bytes "id")
  name := extractJsonString obj (bytes "name")
  driver := extractJsonString obj (bytes "driver")
  scope := extractJsonString obj (bytes "scope")

def decodeVolume (obj : Bytes) : ScannedVolume where
  name := extractJsonString obj (bytes "name")
  driver := extractJsonString obj (bytes "driver")
  mountpoint := extractJsonString obj (bytes "mountpoint")

/-- The records of one section, those without a key left out. -/
def decodeSection {σ : Type} (section_ : String) (decode : Bytes → σ) (key : σ → Bytes)
    (payload : Bytes) : List σ :=
  ((jsonObjects (extractJsonArray payload (bytes section_))).map decode).filter fun x => key x ≠ []

def decodeContainers : Bytes → List ScannedContainer :=
  decodeSection "containers" decodeContainer (·.id)

def decodeImages : Bytes → List ScannedImage := decodeSection "images" decodeImage (·.id)

def decodeComposeFiles : Bytes → List ScannedComposeFile :=
  decodeSection "compose_files" decodeComposeFile (·.path)

def decodeNetworks : Bytes → List ScannedNetwork := decodeSection "networks" decodeNetwork (·.id)

def decodeVolumes : Bytes → List ScannedVolume := decodeSection "volumes" decodeVolume (·.name)

/-! ## Storing them -/

structure ScanResult where
  success : Bool
  errorMessage : Bytes
  containersCount : Nat
  imagesCount : Nat
  networksCount : Nat
  volumesCount : Nat
  composeFilesCount : Nat

/-- A default-constructed result, which is what `scan_server` passes on. -/
def ScanResult.init : ScanResult := ⟨false, [], 0, 0, 0, 0, 0⟩

/-- The import under way: the result filled in so far, the database, and how often
the clock was read. -/
structure Import where
  result : ScanResult
  db : Db
  reads : Nat

/-- One record: its upsert, whatever it returns, and its count. -/
def Import.store (clock : Nat → Int) (upsert : (now : Int) → Db → Bool × Db)
    (count : ScanResult → ScanResult) (s : Import) : Import where
  result := count s.result
  db := (upsert (clock s.reads) s.db).2
  reads := s.reads + 1

def Import.containers (clock : Nat → Int) (serverId : Int) (payload : Bytes) (s : Import) :
    Import :=
  (decodeContainers payload).foldl (fun s c =>
    s.store clock (fun now => upsertContainer now serverId c.id c.name c.image c.state c.status
        c.created (bytes "[]") (bytes "[]") (bytes "[]") c.serviceName (bytes "[]")
        [openBrace, closeBrace] c.healthStatus c.restartPolicy)
      fun r => { r with containersCount := r.containersCount + 1 }) s

def Import.images (clock : Nat → Int) (serverId : Int) (payload : Bytes) (s : Import) : Import :=
  (decodeImages payload).foldl (fun s c =>
    s.store clock (fun now => upsertDockerImage now serverId c.id c.repository c.tag c.sizeBytes
        c.created)
      fun r => { r with imagesCount := r.imagesCount + 1 }) s

def Import.composeFiles (clock : Nat → Int) (serverId : Int) (payload : Bytes) (s : Import) :
    Import :=
  (decodeComposeFiles payload).foldl (fun s c =>
    s.store clock (fun now => upsertComposeFile now serverId c.path c.projectName c.services
        (bytes "[]") (bytes "[]") c.hash)
      fun r => { r with composeFilesCount := r.composeFilesCount + 1 }) s

def Import.networks (clock : Nat → Int) (serverId : Int) (payload : Bytes) (s : Import) :
    Import :=
  (decodeNetworks payload).foldl (fun s c =>
    s.store clock (fun now => upsertDockerNetwork now serverId c.id c.name c.driver c.scope
        [openBrace, closeBrace])
      fun r => { r with networksCount := r.networksCount + 1 }) s

def Import.volumes (clock : Nat → Int) (serverId : Int) (payload : Bytes) (s : Import) : Import :=
  (decodeVolumes payload).foldl (fun s c =>
    s.store clock (fun now => upsertDockerVolume now serverId c.name c.driver c.mountpoint
        [openBrace, closeBrace])
      fun r => { r with volumesCount := r.volumesCount + 1 }) s

/-- `Client::parse_and_store_scan`. -/
def parseAndStoreScan (clock : Nat → Int) (serverId : Int) (payload : Bytes)
    (result : ScanResult) (db : Db) : Bool × ScanResult × Db :=
  let s : Import := ⟨result, db, 0⟩
  let s := s.containers clock serverId payload
  let s := s.images clock serverId payload
  let s := s.composeFiles clock serverId payload
  let s := s.networks clock serverId payload
  let s := s.volumes clock serverId payload
  (true, { s.result with success := true }, s.db)

/-! ## Imports one after the other

Whether the database takes a new container is decided by its reference to a compose file,
which `upsert_container` binds as an empty text. That check is a parameter here. -/

/-- The containers, where `refers` says whether the compose file of a row is there. -/
def containersTableWith (refers : Db → ContainerRow → Bool) : DockerTable ContainerRow :=
  { containersTable with references := refers }

/-- The row that is bound for a container. -/
def scannedRow (serverId now : Int) (c : ScannedContainer) : ContainerRow :=
  containerRow now serverId c.id c.name c.image c.state c.status c.created (bytes "[]") (bytes "[]")
    (bytes "[]") c.serviceName (bytes "[]") [openBrace, closeBrace] c.healthStatus c.restartPolicy

def Import.containersWith (refers : Db → ContainerRow → Bool) (clock : Nat → Int) (serverId : Int)
    (cs : List ScannedContainer) (s : Import) : Import :=
  cs.foldl (fun s c =>
    s.store clock (fun now => (containersTableWith refers).upsert (scannedRow serverId now c))
      fun r => { r with containersCount := r.containersCount + 1 }) s

/-- `Client::parse_and_store_scan`. -/
def parseAndStoreScanWith (refers : Db → ContainerRow → Bool) (clock : Nat → Int) (serverId : Int)
    (payload : Bytes) (result : ScanResult) (db : Db) : Bool × ScanResult × Db :=
  let s : Import := ⟨result, db, 0⟩
  let s := s.containersWith refers clock serverId (decodeContainers payload)
  let s := s.images clock serverId payload
  let s := s.composeFiles clock serverId payload
  let s := s.networks clock serverId payload
  let s := s.volumes clock serverId payload
  (true, { s.result with success := true }, s.db)

theorem parseAndStoreScanWith_references :
    parseAndStoreScanWith containersTable.references = parseAndStoreScan := rfl

/-- A scan that comes in, and the clock that is read while it is imported. -/
structure ReceivedScan where
  payload : Bytes
  clock : Nat → Int

/-- One import; the database it leaves. -/
def importScan (refers : Db → ContainerRow → Bool) (serverId : Int) (db : Db)
    (scan : ReceivedScan) : Db :=
  (parseAndStoreScanWith refers scan.clock serverId scan.payload .init db).2.2

end Nazg.Docker

/-!
## The registration of an agent

`register_agent` asks the agent of a server what it is, and keeps the version and the
capabilities of the answer in the row of the server.
-/

namespace Nazg.Docker

open Lib Lib.Sqlite Agent Nazg.Bot

/-- A row of `servers`, as far as `register_agent` reads or writes it. -/
structure ServerRow where
  label : Text
  host : Text
  agentVersion : Option Text
  agentStatus : Option Text
  lastHeartbeat : Option Int
  capabilities : Option Text
  deriving DecidableEq

/-! ### The store -/

def getServerId (label : Bytes) (t : Table ServerRow) : Option Int64 :=
  (t.first fun r => r.label = .ofCStr label).map fun x => Int64.ofInt x.1

def getServerById (id : Int64) (t : Table ServerRow) : Option ServerRow := t.get? id.toInt

def updateServerHeartbeat (now id : Int64) (agentVersion agentStatus capabilities : Bytes)
    (t : Table ServerRow) : Table ServerRow :=
  t.updateRow id.toInt fun r =>
    { r with
      agentVersion := some (.ofCStr agentVersion)
      agentStatus := some (.ofCStr agentStatus)
      capabilities := some (.ofCStr capabilities)
      lastHeartbeat := some now.toInt }

def updateServerStatus (id : Int64) (agentStatus : Bytes) (t : Table ServerRow) : Table ServerRow :=
  t.updateRow id.toInt fun r => { r with agentStatus := some (.ofCStr agentStatus) }

/-! ### The client -/

namespace Client

def parseAndStoreRegistration (now serverId : Int64) (jsonPayload : Bytes) (t : Table ServerRow) :
    Table ServerRow :=
  updateServerHeartbeat now serverId (extractJsonString jsonPayload (bytes "agent_version"))
    (bytes "online") (extractJsonArray jsonPayload (bytes "capabilities")) t

/-- The host that the client builds from the row of a server. -/
def serverHost (label : Bytes) (row : ServerRow) : HostConfig :=
  ⟨0, label, row.host.bytes, [], 22, 7070, [], .empty⟩

def registerAgent (net : Network) (pad : Nat → Padding) (now : Int64) (serverLabel : Bytes)
    (t : Table ServerRow) : Bool × Table ServerRow :=
  match getServerId serverLabel t with
  | none => (false, t)
  | some id =>
      match getServerById id t with
      | none => (false, t)
      | some row =>
          let host := serverHost serverLabel row
          match (sendMessageToAgent net host pad .Register [] []).result with
          | none => (false, updateServerStatus id (bytes "offline") t)
          | some response => (true, parseAndStoreRegistration now id response t)

end Client

end Nazg.Docker
