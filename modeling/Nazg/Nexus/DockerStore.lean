import Nazg.Lib.OrdMap
import Nazg.Lib.Query
import Nazg.Nexus.Schema

/-!
# Upserts and listings of the docker tables

The five tables a scan writes differ in their columns and in little else: each
belongs to a server, is unique on the server and one text column, and is written
by an INSERT whose conflict clause rewrites some columns of the row in place. A
`DockerTable` is what they differ in, with the facts about it that the rest needs.

An insert is refused when a foreign key has no parent row. A conflicting insert
becomes an update of columns that are no foreign keys, and is not checked again.
The row id an upsert returns is not modelled, only whether it stored its row.
-/

namespace Nazg.Nexus

open Lib Lib.Sqlite

/-! ## One docker table -/

structure DockerTable (ρ : Type) where
  get : Db → Table ρ
  set : Table ρ → Db → Db
  serverId : ρ → Int
  uniqueId : ρ → Text
  /-- The foreign keys besides `server_id`. -/
  references : Db → ρ → Bool
  /-- `ON CONFLICT DO UPDATE SET`: from the excluded row and the present one. -/
  update : ρ → ρ → ρ
  get_set : ∀ t db, get (set t db) = t
  servers_set : ∀ t db, (set t db).servers = db.servers
  serverId_update : ∀ e r, serverId (update e r) = serverId r
  uniqueId_update : ∀ e r, uniqueId (update e r) = uniqueId r

namespace DockerTable

variable {ρ : Type} (T : DockerTable ρ)

/-- The row clashes with a new one on the uniqueness key. -/
def clash (row r : ρ) : Bool := T.serverId r = T.serverId row && T.uniqueId r = T.uniqueId row

/-- Whether the driver's `execute` succeeds on the upsert of a row. -/
def accepts (row : ρ) (db : Db) : Bool :=
  (T.get db).data.any (T.clash row) ||
    (decide (T.serverId row ∈ db.servers) && T.references db row)

def upsert (row : ρ) (db : Db) : Bool × Db :=
  if T.accepts row db then
    (true, T.set ((T.get db).upsertRow (T.clash row) (T.update row) row) db)
  else (false, db)

/-- The rows a listing returns, a positive server id selecting those of the server. -/
def select (serverId : Int) (db : Db) : List (Int × ρ) :=
  if 0 < serverId then (T.get db).rows.filter fun x => T.serverId x.2 = serverId
  else (T.get db).rows

/-- A row of the given server and key is stored. -/
def Holds (db : Db) (serverId : Int) (id : Text) : Prop :=
  ∃ r ∈ (T.get db).data, T.serverId r = serverId ∧ T.uniqueId r = id

theorem clash_iff {row r : ρ} :
    T.clash row r = true ↔ T.serverId r = T.serverId row ∧ T.uniqueId r = T.uniqueId row := by
  simp [clash]

theorem accepts_iff {row : ρ} {db : Db} :
    T.accepts row db = true ↔ T.Holds db (T.serverId row) (T.uniqueId row) ∨
      (T.serverId row ∈ db.servers ∧ T.references db row = true) := by
  simp only [accepts, Bool.or_eq_true, List.any_eq_true, clash_iff, Bool.and_eq_true,
    decide_eq_true_eq, Holds]

theorem holds_congr {db db' : Db} (h : T.get db = T.get db') (serverId : Int) (id : Text) :
    T.Holds db serverId id ↔ T.Holds db' serverId id := by
  rw [Holds, h, Holds]

theorem upsert_fst (row : ρ) (db : Db) : (T.upsert row db).1 = T.accepts row db := by
  rw [upsert]
  split
  · next h => exact h.symm
  · next h => exact (Bool.eq_false_iff.2 h).symm

@[simp] theorem upsert_servers (row : ρ) (db : Db) :
    (T.upsert row db).2.servers = db.servers := by
  rw [upsert]
  split
  · exact T.servers_set _ _
  · rfl

/-- The rows after an upsert: a row of the same key rewritten, or else the new row, and what
has another key. -/
theorem mem_upsert_iff {row r : ρ} {db : Db} (h : T.accepts row db = true) :
    r ∈ (T.get (T.upsert row db).2).data ↔
      (∃ old ∈ (T.get db).data, T.clash row old = true ∧ T.update row old = r) ∨
        (r = row ∧ ∀ old ∈ (T.get db).data, T.clash row old = false) ∨
        (r ∈ (T.get db).data ∧ T.clash row r = false) := by
  rw [upsert, if_pos h, T.get_set]
  by_cases hc : ∃ old ∈ (T.get db).data, T.clash row old = true
  · rw [Table.data_upsertRow_of_clash _ _ hc, List.mem_map]
    constructor
    · rintro ⟨old, hold, rfl⟩
      split
      · next hclash => exact .inl ⟨old, hold, hclash, rfl⟩
      · next hclash => exact .inr (.inr ⟨hold, Bool.eq_false_of_not_eq_true hclash⟩)
    · rintro (⟨old, hold, hclash, rfl⟩ | ⟨-, hnone⟩ | ⟨hold, hclash⟩)
      · exact ⟨old, hold, if_pos hclash⟩
      · obtain ⟨old, hold, hclash⟩ := hc
        exact absurd hclash (by simp [hnone old hold])
      · exact ⟨r, hold, if_neg (by simp [hclash])⟩
  · have hnew : ∀ old ∈ (T.get db).data, T.clash row old = false := fun old hold =>
      Bool.eq_false_of_not_eq_true fun hclash => hc ⟨old, hold, hclash⟩
    rw [Table.data_upsertRow_of_new _ _ hnew, List.mem_append, List.mem_singleton]
    constructor
    · rintro (hold | rfl)
      · exact .inr (.inr ⟨hold, hnew r hold⟩)
      · exact .inr (.inl ⟨rfl, hnew⟩)
    · rintro (⟨old, hold, hclash, -⟩ | ⟨rfl, -⟩ | ⟨hold, -⟩)
      · exact absurd hclash (by simp [hnew old hold])
      · exact .inr rfl
      · exact .inl hold

/-- A row after an upsert: the new one or one of another key, as long as the conflict clause
leaves of a row what it would be. -/
theorem exists_upsert_iff {p : ρ → Prop} {row : ρ} {db : Db} (hacc : T.accepts row db = true)
    (hp : ∀ old, T.clash row old = true → (p (T.update row old) ↔ p row)) :
    (∃ r ∈ (T.get (T.upsert row db).2).data, p r) ↔
      p row ∨ ∃ r ∈ (T.get db).data, T.clash row r = false ∧ p r := by
  constructor
  · rintro ⟨r, hr, h⟩
    rcases (T.mem_upsert_iff hacc).1 hr with ⟨old, hold, hclash, rfl⟩ | ⟨rfl, -⟩ | ⟨hold, hclash⟩
    · exact .inl ((hp old hclash).1 h)
    · exact .inl h
    · exact .inr ⟨r, hold, hclash, h⟩
  · rintro (h | ⟨r, hr, hclash, h⟩)
    · by_cases hc : ∃ old ∈ (T.get db).data, T.clash row old = true
      · obtain ⟨old, hold, hclash⟩ := hc
        exact ⟨_, (T.mem_upsert_iff hacc).2 (.inl ⟨old, hold, hclash, rfl⟩), (hp old hclash).2 h⟩
      · refine ⟨row, (T.mem_upsert_iff hacc).2 (.inr (.inl ⟨rfl, fun old hold => ?_⟩)), h⟩
        exact Bool.eq_false_of_not_eq_true fun hclash => hc ⟨old, hold, hclash⟩
    · exact ⟨r, (T.mem_upsert_iff hacc).2 (.inr (.inr ⟨hr, hclash⟩)), h⟩

/-- After an upsert the keys stored are the old ones and, if accepted, the row's. -/
theorem holds_upsert (row : ρ) (db : Db) (serverId : Int) (id : Text) :
    T.Holds (T.upsert row db).2 serverId id ↔ T.Holds db serverId id ∨
      (T.accepts row db = true ∧ T.serverId row = serverId ∧ T.uniqueId row = id) := by
  by_cases hacc : T.accepts row db = true
  · have hkey : ∀ old, T.clash row old = true →
        T.serverId old = T.serverId row ∧ T.uniqueId old = T.uniqueId row := fun _ => T.clash_iff.1
    rw [Holds, T.exists_upsert_iff hacc fun old hclash => by
      rw [T.serverId_update, T.uniqueId_update, (hkey old hclash).1, (hkey old hclash).2]]
    constructor
    · rintro (hrow | ⟨r, hr, -, hholds⟩)
      · exact .inr ⟨hacc, hrow⟩
      · exact .inl ⟨r, hr, hholds⟩
    · rintro (⟨r, hr, hs, hid⟩ | ⟨-, hrow⟩)
      · cases hclash : T.clash row r with
        | true => exact .inl ⟨(hkey r hclash).1 ▸ hs, (hkey r hclash).2 ▸ hid⟩
        | false => exact .inr ⟨r, hr, hclash, hs, hid⟩
      · exact .inl hrow
  · rw [upsert, if_neg hacc]
    simp [hacc]

/-- What a listing shows of the rows of a server is what is stored of it, in whatever order. -/
theorem exists_selected_iff {p : ρ → Prop} (le : Int × ρ → Int × ρ → Bool) {serverId : Int}
    {db : Db} :
    (∃ x ∈ (T.select serverId db).mergeSort le, T.serverId x.2 = serverId ∧ p x.2) ↔
      ∃ r ∈ (T.get db).data, T.serverId r = serverId ∧ p r := by
  simp only [List.mem_mergeSort, select]
  constructor
  · rintro ⟨x, hx, hs, h⟩
    have hmem : x ∈ (T.get db).rows := by
      split at hx
      · exact (List.mem_filter.1 hx).1
      · exact hx
    exact ⟨x.2, List.mem_map_of_mem hmem, hs, h⟩
  · rintro ⟨r, hr, hs, h⟩
    obtain ⟨x, hx, rfl⟩ := List.mem_map.1 hr
    refine ⟨x, ?_, hs, h⟩
    split
    · exact List.mem_filter.2 ⟨hx, decide_eq_true hs⟩
    · exact hx

end DockerTable

/-! ## Rows as maps -/

/-- One row of a listing: its columns by name. -/
def record (columns : List (String × Bytes)) : OrdMap Bytes Bytes :=
  columns.foldl (fun m c => m.insert (bytes c.1) c.2) .empty

/-- Reading a column: the last one written under the name. -/
theorem find?_record (columns : List (String × Bytes)) (k : Bytes) :
    (record columns).find? k =
      (columns.reverse.find? fun c => bytes c.1 = k).map Prod.snd := by
  have hfold : ∀ (columns : List (String × Bytes)) (m : OrdMap Bytes Bytes),
      (columns.foldl (fun m c => m.insert (bytes c.1) c.2) m).find? k =
        ((columns.reverse.find? fun c => bytes c.1 = k).map Prod.snd).or (m.find? k) := by
    intro columns
    induction columns with
    | nil => intro m; rfl
    | cons c columns ih =>
        intro m
        rw [List.foldl_cons, ih, OrdMap.find?_insert, List.reverse_cons, List.find?_append]
        cases columns.reverse.find? (fun c => bytes c.1 = k) with
        | some x => rfl
        | none =>
            by_cases h : bytes c.1 = k
            · simp [h]
            · simp [h, Ne.symm h]
  rw [record, hfold]
  simp

/-- `row.get(col).value_or("")`. -/
def textColumn (v : Option Text) : Bytes := (v.map Text.bytes).getD []

/-- `std::to_string(row.get_int(col).value_or(0))`. -/
def intColumn (v : Value) : Bytes :=
  decimal ((v.getText.bind fun s => if s = [] then none else stoll s).getD 0)

/-- How a creation time or a size is bound: zero as the empty text. -/
def optionalInt (i : Int) : Value := (bindText (if i = 0 then [] else decimal i)).toInteger

/-- `ORDER BY` on a nullable column: NULL comes first. -/
def nullsFirst : Option Text → Option Text → Bool
  | none, _ => true
  | some _, none => false
  | some a, some b => a.bytes ≤ b.bytes

/-! ## Containers -/

def containersTable : DockerTable ContainerRow where
  get := Db.containers
  set t db := { db with containers := t }
  serverId := ContainerRow.serverId
  uniqueId := ContainerRow.containerId
  references db r := r.composeFileId.references db.composeFiles.ids
  update e r := { r with
    name := e.name, image := e.image, state := e.state, status := e.status
    created := e.created, ports := e.ports, volumes := e.volumes, networks := e.networks
    serviceName := e.serviceName, dependsOn := e.dependsOn, labels := e.labels
    healthStatus := e.healthStatus, restartPolicy := e.restartPolicy
    lastSeen := e.lastSeen, updatedAt := e.updatedAt }
  get_set _ _ := rfl
  servers_set _ _ := rfl
  serverId_update _ _ := rfl
  uniqueId_update _ _ := rfl

/-- The row an upsert binds. The compose file is not known and the environment is
not captured; both are bound as empty texts. -/
def containerRow (now serverId : Int) (containerId name image state status : Bytes)
    (created : Int) (portsJson volumesJson networksJson serviceName dependsOnJson labelsJson
    healthStatus restartPolicy : Bytes) : ContainerRow where
  serverId := serverId
  containerId := .ofCStr containerId
  name := .ofCStr name
  image := .ofCStr image
  state := .ofCStr state
  status := some (.ofCStr status)
  created := optionalInt created
  ports := some (.ofCStr portsJson)
  volumes := some (.ofCStr volumesJson)
  networks := some (.ofCStr networksJson)
  composeFileId := (bindText []).toInteger
  serviceName := some (.ofCStr serviceName)
  dependsOn := some (.ofCStr dependsOnJson)
  labels := some (.ofCStr labelsJson)
  envVars := some (.ofCStr [])
  healthStatus := some (.ofCStr healthStatus)
  restartPolicy := some (.ofCStr restartPolicy)
  lastSeen := now
  createdAt := now
  updatedAt := now

/-- `Store::upsert_container`. -/
def upsertContainer (now serverId : Int) (containerId name image state status : Bytes)
    (created : Int) (portsJson volumesJson networksJson serviceName dependsOnJson labelsJson
    healthStatus restartPolicy : Bytes) (db : Db) : Bool × Db :=
  containersTable.upsert (containerRow now serverId containerId name image state status created
    portsJson volumesJson networksJson serviceName dependsOnJson labelsJson healthStatus
    restartPolicy) db

def containerEntry (id : Int) (r : ContainerRow) : OrdMap Bytes Bytes :=
  record
    [("id", decimal id), ("server_id", decimal r.serverId),
      ("container_id", r.containerId.bytes), ("name", r.name.bytes), ("image", r.image.bytes),
      ("state", r.state.bytes), ("status", textColumn r.status),
      ("created", intColumn r.created), ("ports", textColumn r.ports),
      ("volumes", textColumn r.volumes), ("networks", textColumn r.networks),
      ("compose_file_id", intColumn r.composeFileId),
      ("service_name", textColumn r.serviceName), ("depends_on", textColumn r.dependsOn),
      ("labels", textColumn r.labels), ("env_vars", textColumn r.envVars),
      ("health_status", textColumn r.healthStatus),
      ("restart_policy", textColumn r.restartPolicy), ("last_seen", decimal r.lastSeen),
      ("created_at", decimal r.createdAt), ("updated_at", decimal r.updatedAt)]

/-- `Store::list_containers`. -/
def listContainers (serverId : Int) (db : Db) : List (OrdMap Bytes Bytes) :=
  ((containersTable.select serverId db).mergeSort
    fun x y => x.2.name.bytes ≤ y.2.name.bytes).map fun x => containerEntry x.1 x.2

/-- `Store::mark_containers_stale`. -/
def markContainersStale (serverId beforeTimestamp : Int) (db : Db) : Db :=
  { db with
    containers := db.containers.updateWhere (fun r => r.serverId = serverId) fun r =>
      { r with lastSeen := beforeTimestamp, updatedAt := beforeTimestamp } }

/-- `Store::delete_stale_containers`. -/
def deleteStaleContainers (serverId beforeTimestamp : Int) (db : Db) : Db :=
  { db with
    containers := db.containers.deleteWhere fun _ r =>
      r.serverId = serverId && r.lastSeen ≤ beforeTimestamp }

/-! ## Compose files -/

def composeFilesTable : DockerTable ComposeFileRow where
  get := Db.composeFiles
  set t db := { db with composeFiles := t }
  serverId := ComposeFileRow.serverId
  uniqueId := ComposeFileRow.filePath
  references _ _ := true
  update e r := { r with
    projectName := e.projectName, services := e.services, networks := e.networks
    volumes := e.volumes, fileHash := e.fileHash, lastScan := e.lastScan
    updatedAt := e.updatedAt }
  get_set _ _ := rfl
  servers_set _ _ := rfl
  serverId_update _ _ := rfl
  uniqueId_update _ _ := rfl

def composeFileRow (now serverId : Int)
    (filePath projectName servicesJson networksJson volumesJson fileHash : Bytes) :
    ComposeFileRow where
  serverId := serverId
  filePath := .ofCStr filePath
  projectName := some (.ofCStr projectName)
  services := .ofCStr servicesJson
  networks := some (.ofCStr networksJson)
  volumes := some (.ofCStr volumesJson)
  fileHash := some (.ofCStr fileHash)
  lastScan := now
  createdAt := now
  updatedAt := now

/-- `Store::upsert_compose_file`. -/
def upsertComposeFile (now serverId : Int)
    (filePath projectName servicesJson networksJson volumesJson fileHash : Bytes) (db : Db) :
    Bool × Db :=
  composeFilesTable.upsert (composeFileRow now serverId filePath projectName servicesJson
    networksJson volumesJson fileHash) db

def composeFileEntry (id : Int) (r : ComposeFileRow) : OrdMap Bytes Bytes :=
  record
    [("id", decimal id), ("server_id", decimal r.serverId), ("file_path", r.filePath.bytes),
      ("project_name", textColumn r.projectName), ("services", r.services.bytes),
      ("networks", textColumn r.networks), ("volumes", textColumn r.volumes),
      ("file_hash", textColumn r.fileHash), ("last_scan", decimal r.lastScan),
      ("created_at", decimal r.createdAt), ("updated_at", decimal r.updatedAt)]

/-- `Store::list_compose_files`. -/
def listComposeFiles (serverId : Int) (db : Db) : List (OrdMap Bytes Bytes) :=
  ((composeFilesTable.select serverId db).mergeSort
    fun x y => x.2.filePath.bytes ≤ y.2.filePath.bytes).map fun x => composeFileEntry x.1 x.2

/-! ## Images -/

def dockerImagesTable : DockerTable DockerImageRow where
  get := Db.dockerImages
  set t db := { db with dockerImages := t }
  serverId := DockerImageRow.serverId
  uniqueId := DockerImageRow.imageId
  references _ _ := true
  update e r := { r with
    repository := e.repository, tag := e.tag, sizeBytes := e.sizeBytes, created := e.created
    lastSeen := e.lastSeen, updatedAt := e.updatedAt }
  get_set _ _ := rfl
  servers_set _ _ := rfl
  serverId_update _ _ := rfl
  uniqueId_update _ _ := rfl

def dockerImageRow (now serverId : Int) (imageId repository tag : Bytes)
    (sizeBytes created : Int) : DockerImageRow where
  serverId := serverId
  imageId := .ofCStr imageId
  repository := some (.ofCStr repository)
  tag := some (.ofCStr tag)
  sizeBytes := optionalInt sizeBytes
  created := optionalInt created
  lastSeen := now
  createdAt := now
  updatedAt := now

/-- `Store::upsert_docker_image`. -/
def upsertDockerImage (now serverId : Int) (imageId repository tag : Bytes)
    (sizeBytes created : Int) (db : Db) : Bool × Db :=
  dockerImagesTable.upsert (dockerImageRow now serverId imageId repository tag sizeBytes created) db

def dockerImageEntry (id : Int) (r : DockerImageRow) : OrdMap Bytes Bytes :=
  record
    [("id", decimal id), ("server_id", decimal r.serverId), ("image_id", r.imageId.bytes),
      ("repository", textColumn r.repository), ("tag", textColumn r.tag),
      ("size_bytes", intColumn r.sizeBytes), ("created", intColumn r.created),
      ("last_seen", decimal r.lastSeen), ("created_at", decimal r.createdAt),
      ("updated_at", decimal r.updatedAt)]

/-- `Store::list_docker_images`. -/
def listDockerImages (serverId : Int) (db : Db) : List (OrdMap Bytes Bytes) :=
  ((dockerImagesTable.select serverId db).mergeSort fun x y =>
    if x.2.repository = y.2.repository then nullsFirst x.2.tag y.2.tag
    else nullsFirst x.2.repository y.2.repository).map fun x => dockerImageEntry x.1 x.2

/-! ## Networks -/

def dockerNetworksTable : DockerTable DockerNetworkRow where
  get := Db.dockerNetworks
  set t db := { db with dockerNetworks := t }
  serverId := DockerNetworkRow.serverId
  uniqueId := DockerNetworkRow.networkId
  references _ _ := true
  update e r := { r with
    name := e.name, driver := e.driver, scope := e.scope, ipamConfig := e.ipamConfig
    lastSeen := e.lastSeen, updatedAt := e.updatedAt }
  get_set _ _ := rfl
  servers_set _ _ := rfl
  serverId_update _ _ := rfl
  uniqueId_update _ _ := rfl

def dockerNetworkRow (now serverId : Int)
    (networkId name driver scope ipamConfigJson : Bytes) : DockerNetworkRow where
  serverId := serverId
  networkId := .ofCStr networkId
  name := .ofCStr name
  driver := some (.ofCStr driver)
  scope := some (.ofCStr scope)
  ipamConfig := some (.ofCStr ipamConfigJson)
  lastSeen := now
  createdAt := now
  updatedAt := now

/-- `Store::upsert_docker_network`. -/
def upsertDockerNetwork (now serverId : Int)
    (networkId name driver scope ipamConfigJson : Bytes) (db : Db) : Bool × Db :=
  dockerNetworksTable.upsert (dockerNetworkRow now serverId networkId name driver scope
    ipamConfigJson) db

def dockerNetworkEntry (id : Int) (r : DockerNetworkRow) : OrdMap Bytes Bytes :=
  record
    [("id", decimal id), ("server_id", decimal r.serverId), ("network_id", r.networkId.bytes),
      ("name", r.name.bytes), ("driver", textColumn r.driver), ("scope", textColumn r.scope),
      ("ipam_config", textColumn r.ipamConfig), ("last_seen", decimal r.lastSeen),
      ("created_at", decimal r.createdAt), ("updated_at", decimal r.updatedAt)]

/-- `Store::list_docker_networks`. -/
def listDockerNetworks (serverId : Int) (db : Db) : List (OrdMap Bytes Bytes) :=
  ((dockerNetworksTable.select serverId db).mergeSort
    fun x y => x.2.name.bytes ≤ y.2.name.bytes).map fun x => dockerNetworkEntry x.1 x.2

/-! ## Volumes -/

def dockerVolumesTable : DockerTable DockerVolumeRow where
  get := Db.dockerVolumes
  set t db := { db with dockerVolumes := t }
  serverId := DockerVolumeRow.serverId
  uniqueId := DockerVolumeRow.volumeName
  references _ _ := true
  update e r := { r with
    driver := e.driver, mountpoint := e.mountpoint, labels := e.labels
    lastSeen := e.lastSeen, updatedAt := e.updatedAt }
  get_set _ _ := rfl
  servers_set _ _ := rfl
  serverId_update _ _ := rfl
  uniqueId_update _ _ := rfl

def dockerVolumeRow (now serverId : Int)
    (volumeName driver mountpoint labelsJson : Bytes) : DockerVolumeRow where
  serverId := serverId
  volumeName := .ofCStr volumeName
  driver := some (.ofCStr driver)
  mountpoint := some (.ofCStr mountpoint)
  labels := some (.ofCStr labelsJson)
  lastSeen := now
  createdAt := now
  updatedAt := now

/-- `Store::upsert_docker_volume`. -/
def upsertDockerVolume (now serverId : Int)
    (volumeName driver mountpoint labelsJson : Bytes) (db : Db) : Bool × Db :=
  dockerVolumesTable.upsert (dockerVolumeRow now serverId volumeName driver mountpoint
    labelsJson) db

def dockerVolumeEntry (id : Int) (r : DockerVolumeRow) : OrdMap Bytes Bytes :=
  record
    [("id", decimal id), ("server_id", decimal r.serverId), ("volume_name", r.volumeName.bytes),
      ("driver", textColumn r.driver), ("mountpoint", textColumn r.mountpoint),
      ("labels", textColumn r.labels), ("last_seen", decimal r.lastSeen),
      ("created_at", decimal r.createdAt), ("updated_at", decimal r.updatedAt)]

/-- `Store::list_docker_volumes`. -/
def listDockerVolumes (serverId : Int) (db : Db) : List (OrdMap Bytes Bytes) :=
  ((dockerVolumesTable.select serverId db).mergeSort
    fun x y => x.2.volumeName.bytes ≤ y.2.volumeName.bytes).map fun x => dockerVolumeEntry x.1 x.2

end Nazg.Nexus
