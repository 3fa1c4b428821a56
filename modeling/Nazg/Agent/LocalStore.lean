import Nazg.Agent.Images
import Nazg.Lib.OrdMap
import Nazg.Lib.Runs

/-!
# The agent's local store

The agent keeps what its scans found in a database of its own. There is a table for each kind of
object, with a row for each id, that a scan inserts or replaces; a row goes only when
`cleanup_old_data` takes it. Beside these are the settings, of which the time of the last scan
is one, and a history of the scans.
-/

namespace Nazg.Agent

open Lib Lib.Sqlite

/-! ## The rows -/

/-- `ContainerInfo`, with the labels that the scan that is sent leaves out. -/
structure ContainerRecord extends ContainerInfo where
  labelsJson : Bytes

structure CachedContainerRow where
  containerId : Text
  name : Text
  image : Text
  state : Text
  status : Option Text
  created : Value
  serviceName : Option Text
  healthStatus : Option Text
  restartPolicy : Option Text
  labelsJson : Option Text
  lastSeen : Int

structure CachedComposeFileRow where
  path : Text
  projectName : Option Text
  servicesJson : Text
  fileHash : Option Text
  lastSeen : Int

structure CachedNetworkRow where
  networkId : Text
  name : Text
  driver : Option Text
  scope : Option Text
  lastSeen : Int

structure CachedVolumeRow where
  volumeName : Text
  driver : Option Text
  mountpoint : Option Text
  lastSeen : Int

/-- A text column, with what is read for NULL. -/
def readText (default : Bytes) (c : Option Text) : Bytes := (c.map Text.bytes).getD default

/-- What a listing is ordered by: one column or two, where NULL comes first. -/
abbrev ListingKey := Lex (WithBot Bytes × WithBot Bytes)

def byColumn (c : Text) : ListingKey := toLex (c.bytes, ⊥)

/-- How the objects of one kind are kept. -/
structure Cache (α ρ : Type) where
  id : α → Bytes
  key : ρ → Text
  lastSeen : ρ → Int
  row : Int → α → ρ
  read : ρ → α
  order : ρ → ListingKey

def containersCache : Cache ContainerRecord CachedContainerRow where
  id c := c.id
  key := CachedContainerRow.containerId
  lastSeen := CachedContainerRow.lastSeen
  row scanTime c :=
    { containerId := .ofCStr c.id
      name := .ofCStr c.name
      image := .ofCStr c.image
      state := .ofCStr c.state
      status := some (.ofCStr c.status)
      created := .int c.created.toInt
      serviceName := some (.ofCStr c.serviceName)
      healthStatus := some (.ofCStr c.healthStatus)
      restartPolicy := some (.ofCStr c.restartPolicy)
      labelsJson := some (.ofCStr c.labelsJson)
      lastSeen := scanTime }
  read r :=
    { id := r.containerId.bytes
      name := r.name.bytes
      image := r.image.bytes
      state := r.state.bytes
      status := readText [] r.status
      created := intOf r.created
      serviceName := readText [] r.serviceName
      healthStatus := readText [] r.healthStatus
      restartPolicy := readText [] r.restartPolicy
      labelsJson := readText (bytes "\x7b\x7d") r.labelsJson }
  order r := byColumn r.name

def composeFilesCache : Cache ComposeFileInfo CachedComposeFileRow where
  id f := f.path
  key := CachedComposeFileRow.path
  lastSeen := CachedComposeFileRow.lastSeen
  row scanTime f :=
    { path := .ofCStr f.path
      projectName := some (.ofCStr f.projectName)
      servicesJson := .ofCStr f.servicesJson
      fileHash := some (.ofCStr f.fileHash)
      lastSeen := scanTime }
  read r :=
    { path := r.path.bytes
      projectName := readText [] r.projectName
      servicesJson := r.servicesJson.bytes
      fileHash := readText [] r.fileHash }
  order r := byColumn r.path

def imagesCache : Cache DockerImageInfo CachedImageRow where
  id i := i.id
  key := CachedImageRow.imageId
  lastSeen := CachedImageRow.lastSeen
  row := cachedImageRow
  read r :=
    { id := r.imageId.bytes
      repository := readText [] r.repository
      tag := readText [] r.tag
      sizeBytes := intOf r.sizeBytes
      created := intOf r.created }
  order := cachedImageKey

def networksCache : Cache DockerNetworkInfo CachedNetworkRow where
  id n := n.id
  key := CachedNetworkRow.networkId
  lastSeen := CachedNetworkRow.lastSeen
  row scanTime n :=
    { networkId := .ofCStr n.id
      name := .ofCStr n.name
      driver := some (.ofCStr n.driver)
      scope := some (.ofCStr n.scope)
      lastSeen := scanTime }
  read r :=
    { id := r.networkId.bytes
      name := r.name.bytes
      driver := readText [] r.driver
      scope := readText [] r.scope }
  order r := byColumn r.name

def volumesCache : Cache DockerVolumeInfo CachedVolumeRow where
  id v := v.name
  key := CachedVolumeRow.volumeName
  lastSeen := CachedVolumeRow.lastSeen
  row scanTime v :=
    { volumeName := .ofCStr v.name
      driver := some (.ofCStr v.driver)
      mountpoint := some (.ofCStr v.mountpoint)
      lastSeen := scanTime }
  read r :=
    { name := r.volumeName.bytes
      driver := readText [] r.driver
      mountpoint := readText [] r.mountpoint }
  order r := byColumn r.volumeName

inductive CacheKind where
  | containers
  | composeFiles
  | images
  | networks
  | volumes
  deriving DecidableEq

namespace CacheKind

def Object : CacheKind → Type
  | containers => ContainerRecord
  | composeFiles => ComposeFileInfo
  | images => DockerImageInfo
  | networks => DockerNetworkInfo
  | volumes => DockerVolumeInfo

def Row : CacheKind → Type
  | containers => CachedContainerRow
  | composeFiles => CachedComposeFileRow
  | images => CachedImageRow
  | networks => CachedNetworkRow
  | volumes => CachedVolumeRow

def cache : (k : CacheKind) → Cache k.Object k.Row
  | containers => containersCache
  | composeFiles => composeFilesCache
  | images => imagesCache
  | networks => networksCache
  | volumes => volumesCache

end CacheKind

/-- A row of `scan_history`. -/
structure ScanRow where
  scanTimestamp : Int
  containersCount : Int
  imagesCount : Int
  networksCount : Int
  volumesCount : Int
  composeFilesCount : Int
  sentToControl : Bool := false
  sentAt : Option Int := none
  deriving DecidableEq

/-! ## The store -/

structure LocalStore where
  /-- `agent_config`, of which only the values are read. -/
  config : OrdMap Bytes Bytes
  tables : (k : CacheKind) → Table k.Row
  scanHistory : Table ScanRow

namespace LocalStore

/-- What `run_migrations` makes of a new database. -/
def fresh : LocalStore where
  config :=
    ((OrdMap.empty.insert (bytes "server_label") (bytes "unknown")).insert (bytes "last_scan")
      (bytes "0")).insert (bytes "control_center_url") []
  tables := fun _ => .empty
  scanHistory := .empty

/-- `LocalStore::initialize`, over a database that is new or has been used. -/
def initializeStore (used : Option LocalStore) : LocalStore := used.getD fresh

/-! ### Settings -/

def setConfig (key value : Bytes) (s : LocalStore) : LocalStore :=
  { s with config := s.config.insert (cstr key) (cstr value) }

def getConfig (key default : Bytes) (s : LocalStore) : Bytes :=
  (s.config.find? (cstr key)).getD default

def setServerLabel (label : Bytes) (s : LocalStore) : LocalStore :=
  s.setConfig (bytes "server_label") label

def getServerLabel (s : LocalStore) : Bytes := s.getConfig (bytes "server_label") (bytes "unknown")

def setControlCenterUrl (url : Bytes) (s : LocalStore) : LocalStore :=
  s.setConfig (bytes "control_center_url") url

def getControlCenterUrl (s : LocalStore) : Bytes := s.getConfig (bytes "control_center_url") []

def updateLastScanTime (timestamp : Int64) (s : LocalStore) : LocalStore :=
  s.setConfig (bytes "last_scan") (decimal timestamp.toInt)

/-- Nothing where `std::stoll` throws. -/
def getLastScanTime (s : LocalStore) : Option Int64 :=
  (stoll (s.getConfig (bytes "last_scan") (bytes "0"))).map Int64.ofInt

/-! ### Objects -/

/-- One `INSERT OR REPLACE` for each object. -/
def store (k : CacheKind) (objects : List k.Object) (scanTime : Int64) (s : LocalStore) :
    LocalStore :=
  { s with
    tables := Function.update s.tables k
      ((s.tables k).replaceAll k.cache.key (objects.map (k.cache.row scanTime.toInt))) }

def storeContainers (containers : List ContainerRecord) : Int64 → LocalStore → LocalStore :=
  store .containers containers

def storeComposeFiles (files : List ComposeFileInfo) : Int64 → LocalStore → LocalStore :=
  store .composeFiles files

def storeImages (images : List DockerImageInfo) : Int64 → LocalStore → LocalStore :=
  store .images images

def storeNetworks (networks : List DockerNetworkInfo) : Int64 → LocalStore → LocalStore :=
  store .networks networks

def storeVolumes (volumes : List DockerVolumeInfo) : Int64 → LocalStore → LocalStore :=
  store .volumes volumes

/-- The same `DELETE` on each of the five tables. -/
def cleanupOldData (olderThan : Int64) (s : LocalStore) : LocalStore :=
  { s with
    tables := fun k => (s.tables k).deleteWhere fun _ r => k.cache.lastSeen r < olderThan.toInt }

def getCached (k : CacheKind) (o : RowOrder) (s : LocalStore) : List k.Object :=
  (o.orderBy k.cache.order (s.tables k).data).map k.cache.read

def getCachedContainers (o : RowOrder) (s : LocalStore) : List ContainerRecord :=
  s.getCached .containers o

def getCachedComposeFiles (o : RowOrder) (s : LocalStore) : List ComposeFileInfo :=
  s.getCached .composeFiles o

def getCachedImages (o : RowOrder) (s : LocalStore) : List DockerImageInfo :=
  s.getCached .images o

def getCachedNetworks (o : RowOrder) (s : LocalStore) : List DockerNetworkInfo :=
  s.getCached .networks o

def getCachedVolumes (o : RowOrder) (s : LocalStore) : List DockerVolumeInfo :=
  s.getCached .volumes o

/-! ### Scans -/

def recordScan (timestamp : Int64) (containers images networks volumes composeFiles : Int32)
    (s : LocalStore) : LocalStore :=
  { s with
    scanHistory := s.scanHistory.insertRow
      { scanTimestamp := timestamp.toInt
        containersCount := containers.toInt
        imagesCount := images.toInt
        networksCount := networks.toInt
        volumesCount := volumes.toInt
        composeFilesCount := composeFiles.toInt } }.updateLastScanTime timestamp

def markScanSent (now scanId : Int64) (s : LocalStore) : LocalStore :=
  { s with
    scanHistory := s.scanHistory.updateRow scanId.toInt fun r =>
      { r with sentToControl := true, sentAt := some now.toInt } }

inductive Call where
  | setServerLabel (label : Bytes)
  | setControlCenterUrl (url : Bytes)
  | updateLastScanTime (timestamp : Int64)
  | store (k : CacheKind) (objects : List k.Object) (scanTime : Int64)
  | cleanupOldData (olderThan : Int64)
  | recordScan (timestamp : Int64) (containers images networks volumes composeFiles : Int32)
  | markScanSent (now scanId : Int64)

def step (s : LocalStore) : Call → LocalStore
  | .setServerLabel label => s.setServerLabel label
  | .setControlCenterUrl url => s.setControlCenterUrl url
  | .updateLastScanTime timestamp => s.updateLastScanTime timestamp
  | .store k objects scanTime => s.store k objects scanTime
  | .cleanupOldData olderThan => s.cleanupOldData olderThan
  | .recordScan timestamp containers images networks volumes composeFiles =>
      s.recordScan timestamp containers images networks volumes composeFiles
  | .markScanSent now scanId => s.markScanSent now scanId

end LocalStore

/-! ## The scans of the agent -/

namespace Runtime

/-- What docker and the file system show to a scan. -/
structure Found where
  containers : List ContainerRecord
  images : List DockerImageInfo
  networks : List DockerNetworkInfo
  volumes : List DockerVolumeInfo
  composeFiles : List ComposeFileInfo

/-- What a scan does with the store, one listing after the other. -/
def scanCalls (now : Int64) (found : Found) : List LocalStore.Call :=
  [.store .containers found.containers now, .store .images found.images now,
    .store .networks found.networks now, .store .volumes found.volumes now,
    .store .composeFiles found.composeFiles now,
    .recordScan now (.ofNat found.containers.length) (.ofNat found.images.length)
      (.ofNat found.networks.length) (.ofNat found.volumes.length)
      (.ofNat found.composeFiles.length)]

/-- Where the listing of a kind stands in a scan. -/
def place : CacheKind → Nat
  | .containers => 0
  | .images => 1
  | .networks => 2
  | .volumes => 3
  | .composeFiles => 4

/-- `perform_docker_scan`, where docker is available or not, and where the listing of a kind may
throw. -/
def performDockerScan (available : Bool) (now : Int64) (found : Found) (thrown : Option CacheKind)
    (s : LocalStore) : LocalStore :=
  if available then
    Runs.run LocalStore.step s
      (match thrown with
        | none => scanCalls now found
        | some k => (scanCalls now found).take (place k))
  else s

/-- `init_database`. -/
def initDatabase (serverLabel : Bytes) (used : Option LocalStore) : LocalStore :=
  (LocalStore.initializeStore used).setServerLabel serverLabel

end Runtime

end Nazg.Agent
