import Mathlib.Data.List.Induction
import Nazg.Lib.Runs
import Nazg.Proofs.ScanStore

/-!
# A container that is gone stays in the table

An import only inserts and updates, and the operations that mark and delete what a scan did
not show are called from nowhere. So when every upsert succeeds the containers of a server
are those of its last scan exactly if that scan shows all that were there before.
-/

namespace Nazg.Docker

open Lib Lib.Sqlite Nexus

section

variable (refers : Db → ContainerRow → Bool) (serverId : Int)

/-- The import of some of the containers of a scan. -/
def importedContainers (clock : Nat → Int) (cs : List ScannedContainer) (db : Db) : Import :=
  (⟨.init, db, 0⟩ : Import).containersWith refers clock serverId cs

/-- Every upsert of a scanned container succeeds. -/
def UpsertsSucceed (db : Db) (scan : ReceivedScan) : Prop :=
  ∀ before c after, decodeContainers scan.payload = before ++ c :: after →
    let s := importedContainers refers serverId scan.clock before db
    ((containersTableWith refers).upsert (scannedRow serverId (scan.clock s.reads) c) s.db).1 = true

/-- The row shows what was scanned. -/
structure Shows (r : ContainerRow) (c : ScannedContainer) : Prop where
  containerId : r.containerId = .ofCStr c.id
  name : r.name = .ofCStr c.name
  image : r.image = .ofCStr c.image
  state : r.state = .ofCStr c.state
  status : r.status = some (.ofCStr c.status)
  created : r.created = optionalInt c.created
  serviceName : r.serviceName = some (.ofCStr c.serviceName)
  healthStatus : r.healthStatus = some (.ofCStr c.healthStatus)
  restartPolicy : r.restartPolicy = some (.ofCStr c.restartPolicy)

/-- The containers of the server are those of the scan. -/
structure Mirrors (db : Db) (payload : Bytes) : Prop where
  listed : ∀ id, Listed (listContainers serverId db) serverId "container_id" id ↔
    ∃ c ∈ decodeContainers payload, c.id = id
  rows : ∀ r ∈ db.containers.data, r.serverId = serverId →
    ∃ c ∈ decodeContainers payload, Shows r c

/-- The scan shows every container of the server that is stored, and no id is cut. -/
structure ShowsAll (db : Db) (payload : Bytes) : Prop where
  stored : ∀ r ∈ db.containers.data, r.serverId = serverId →
    ∃ c ∈ decodeContainers payload, r.containerId = .ofCStr c.id
  whole : ∀ c ∈ decodeContainers payload, (0 : UInt8) ∉ c.id

variable {refers serverId}

/-! ## One upsert -/

theorem containersWith_append (clock : Nat → Int) (cs : List ScannedContainer)
    (c : ScannedContainer) (s : Import) :
    (s.containersWith refers clock serverId (cs ++ [c])) =
      (s.containersWith refers clock serverId cs).store clock
        (fun now => (containersTableWith refers).upsert (scannedRow serverId now c))
        fun r => { r with containersCount := r.containersCount + 1 } := by
  rw [Import.containersWith, List.foldl_append]
  rfl

/-- The rows after an upsert that succeeds: the new one shows the container, or the old one of
its id does, and the others are left. -/
theorem mem_upsert {row r : ContainerRow} {db : Db}
    (hok : ((containersTableWith refers).upsert row db).1 = true)
    (hr : r ∈ ((containersTableWith refers).upsert row db).2.containers.data) :
    r = row ∨ (∃ old ∈ db.containers.data, old.serverId = row.serverId ∧
        old.containerId = row.containerId ∧ r = containersTable.update row old) ∨
      r ∈ db.containers.data ∧ ¬ (r.serverId = row.serverId ∧ r.containerId = row.containerId) := by
  rw [DockerTable.upsert_fst] at hok
  rcases ((containersTableWith refers).mem_upsert_iff hok).1 hr with
    ⟨old, hold, hclash, rfl⟩ | ⟨rfl, -⟩ | ⟨hold, hclash⟩
  · obtain ⟨hserver, hid⟩ := containersTable.clash_iff.1 hclash
    exact .inr (.inl ⟨old, hold, hserver, hid, rfl⟩)
  · exact .inl rfl
  · refine .inr (.inr ⟨hold, fun hsame => ?_⟩)
    have hclash' : containersTable.clash row r = false := hclash
    rw [containersTable.clash_iff.2 hsame] at hclash'
    exact Bool.noConfusion hclash'

theorem shows_row (now : Int) (c : ScannedContainer) : Shows (scannedRow serverId now c) c :=
  ⟨rfl, rfl, rfl, rfl, rfl, rfl, rfl, rfl, rfl⟩

theorem shows_update {now : Int} {c : ScannedContainer} {old : ContainerRow}
    (h : old.containerId = (scannedRow serverId now c).containerId) :
    Shows (containersTable.update (scannedRow serverId now c) old) c :=
  ⟨h, rfl, rfl, rfl, rfl, rfl, rfl, rfl, rfl⟩

/-! ## The containers of a scan -/

/-- What an import of some containers leaves of a server. -/
structure Upserted (serverId : Int) (db after : Db) (cs : List ScannedContainer) : Prop where
  rows : ∀ r ∈ after.containers.data, r.serverId = serverId →
    (∃ c ∈ cs, Shows r c) ∨
      r ∈ db.containers.data ∧ ∀ c ∈ cs, r.containerId ≠ .ofCStr c.id
  ids : ∀ id, containersTable.Holds after serverId id ↔
    containersTable.Holds db serverId id ∨ ∃ c ∈ cs, Text.ofCStr c.id = id

theorem Upserted.store {clock : Nat → Int} {db : Db} {cs : List ScannedContainer}
    {c : ScannedContainer} {s : Import} {count : ScanResult → ScanResult}
    (h : Upserted serverId db s.db cs)
    (hok : ((containersTableWith refers).upsert (scannedRow serverId (clock s.reads) c)
      s.db).1 = true) :
    Upserted serverId db
      (s.store clock (fun now => (containersTableWith refers).upsert (scannedRow serverId now c))
        count).db (cs ++ [c]) := by
  refine ⟨fun r hr hserver => ?_, fun id => ?_⟩
  · rcases mem_upsert hok hr with rfl | ⟨old, -, -, hid, rfl⟩ | ⟨hold, hother⟩
    · exact .inl ⟨c, by simp, shows_row _ c⟩
    · exact .inl ⟨c, by simp, shows_update hid⟩
    · rcases h.rows r hold hserver with ⟨c', hc', hshows⟩ | ⟨hbefore, hleft⟩
      · exact .inl ⟨c', by simp [hc'], hshows⟩
      · refine .inr ⟨hbefore, fun c' hc' => ?_⟩
        rcases List.mem_append.1 hc' with hfirst | hlast
        · exact hleft c' hfirst
        · rw [List.mem_singleton.1 hlast]
          exact fun hid => hother ⟨hserver, hid⟩
  · have hupsert := (containersTableWith refers).holds_upsert
      (scannedRow serverId (clock s.reads) c) s.db serverId id
    rw [DockerTable.upsert_fst] at hok
    have hstep : containersTable.Holds ((containersTableWith refers).upsert
        (scannedRow serverId (clock s.reads) c) s.db).2 serverId id ↔
          containersTable.Holds s.db serverId id ∨ Text.ofCStr c.id = id := by
      refine hupsert.trans (or_congr_right ?_)
      exact ⟨fun h => h.2.2, fun h => ⟨hok, rfl, h⟩⟩
    refine hstep.trans ?_
    rw [h.ids id, or_assoc]
    simp [or_and_right, exists_or]

/-- When every upsert succeeds. -/
theorem upserted_of_succeed {db : Db} {scan : ReceivedScan}
    (hok : UpsertsSucceed refers serverId db scan) (cs rest : List ScannedContainer)
    (hcs : decodeContainers scan.payload = cs ++ rest) :
    Upserted serverId db (importedContainers refers serverId scan.clock cs db).db cs := by
  induction cs using List.reverseRecOn generalizing rest with
  | nil =>
      refine ⟨fun r hr _ => .inr ⟨hr, fun c hc => ?_⟩, fun id => ?_⟩
      · cases hc
      · simp [importedContainers, Import.containersWith]
  | append_singleton cs c ih =>
      have hsplit : decodeContainers scan.payload = cs ++ c :: rest := by
        rw [hcs, List.append_assoc, List.singleton_append]
      rw [importedContainers, containersWith_append]
      exact (ih (c :: rest) hsplit).store (hok cs c rest hsplit)

theorem containers_importScan (db : Db) (scan : ReceivedScan) :
    (importScan refers serverId db scan).containers =
      (importedContainers refers serverId scan.clock (decodeContainers scan.payload)
        db).db.containers := by
  rw [importScan, parseAndStoreScanWith]
  dsimp only
  rw [volumes_frame scan.clock serverId scan.payload Db.containers _ (fun _ _ => rfl),
    networks_frame scan.clock serverId scan.payload Db.containers _ (fun _ _ => rfl),
    composeFiles_frame scan.clock serverId scan.payload Db.containers _ (fun _ _ => rfl),
    images_frame scan.clock serverId scan.payload Db.containers _ (fun _ _ => rfl)]
  rfl

theorem upserted_importScan {db : Db} {scan : ReceivedScan}
    (hok : UpsertsSucceed refers serverId db scan) :
    Upserted serverId db (importScan refers serverId db scan) (decodeContainers scan.payload) := by
  have h := upserted_of_succeed hok (decodeContainers scan.payload) [] (List.append_nil _).symm
  have heq : (importScan refers serverId db scan).containers = _ :=
    containers_importScan db scan
  refine ⟨fun r hr => ?_, fun id => ?_⟩
  · rw [heq] at hr
    exact h.rows r hr
  · rw [← h.ids id]
    exact containersTable.holds_congr heq serverId id

/-- One import mirrors the scan exactly if the scan shows all that is stored. -/
theorem mirrors_importScan_iff {db : Db} {scan : ReceivedScan}
    (hok : UpsertsSucceed refers serverId db scan) :
    Mirrors serverId (importScan refers serverId db scan) scan.payload ↔
      ShowsAll serverId db scan.payload := by
  have h := upserted_importScan hok
  have hlisted : ∀ id, Listed (listContainers serverId (importScan refers serverId db scan)) serverId
      "container_id" id ↔ (0 : UInt8) ∉ id ∧ (containersTable.Holds db serverId (.ofCStr id) ∨
        ∃ c ∈ decodeContainers scan.payload, Text.ofCStr c.id = .ofCStr id) := by
    intro id
    rw [listed_containers_iff, h.ids]
  constructor
  · intro hmirrors
    have hwhole : ∀ c ∈ decodeContainers scan.payload, (0 : UInt8) ∉ c.id :=
      fun c hc => ((hlisted c.id).1 ((hmirrors.listed c.id).2 ⟨c, hc, rfl⟩)).1
    refine ⟨fun r hr hserver => ?_, hwhole⟩
    have hnul := r.containerId.nulFree
    have hheld : containersTable.Holds db serverId (.ofCStr r.containerId.bytes) := by
      rw [Text.ofCStr_self]
      exact ⟨r, hr, hserver, rfl⟩
    obtain ⟨c, hc, hid⟩ := (hmirrors.listed r.containerId.bytes).1
      ((hlisted _).2 ⟨hnul, .inl hheld⟩)
    exact ⟨c, hc, by rw [hid, Text.ofCStr_self]⟩
  · intro hall
    refine ⟨fun id => (hlisted id).trans ?_, fun r hr hserver => ?_⟩
    · constructor
      · rintro ⟨hnul, ⟨r, hr, hserver, hid⟩ | ⟨c, hc, hid⟩⟩
        · obtain ⟨c, hc, hid'⟩ := hall.stored r hr hserver
          refine ⟨c, hc, ?_⟩
          have htext : Text.ofCStr c.id = .ofCStr id := hid'.symm.trans hid
          have hbytes := congrArg Text.bytes htext
          rw [Text.ofCStr_bytes, Text.ofCStr_bytes, cstr_eq_self.2 (hall.whole c hc),
            cstr_eq_self.2 hnul] at hbytes
          exact hbytes
        · refine ⟨c, hc, ?_⟩
          have hbytes := congrArg Text.bytes hid
          rw [Text.ofCStr_bytes, Text.ofCStr_bytes, cstr_eq_self.2 (hall.whole c hc),
            cstr_eq_self.2 hnul] at hbytes
          exact hbytes
      · rintro ⟨c, hc, rfl⟩
        exact ⟨hall.whole c hc, .inr ⟨c, hc, rfl⟩⟩
    · rcases h.rows r hr hserver with hshows | ⟨hbefore, hgone⟩
      · exact hshows
      · obtain ⟨c, hc, hid⟩ := hall.stored r hbefore hserver
        exact absurd hid (hgone c hc)

end

/-! ## Runs -/

theorem servers_containersWith (refers : Db → ContainerRow → Bool) (clock : Nat → Int)
    (serverId : Int) (cs : List ScannedContainer) (s : Import) :
    (s.containersWith refers clock serverId cs).db.servers = s.db.servers := by
  induction cs using List.reverseRecOn with
  | nil => rfl
  | append_singleton cs c ih =>
      rw [containersWith_append, Import.store, DockerTable.upsert_servers, ih]

theorem servers_importScan (refers : Db → ContainerRow → Bool) (serverId : Int) (db : Db)
    (scan : ReceivedScan) : (importScan refers serverId db scan).servers = db.servers := by
  rw [importScan, parseAndStoreScanWith]
  dsimp only
  rw [volumes_frame scan.clock serverId scan.payload Db.servers _ (fun _ _ => rfl),
    networks_frame scan.clock serverId scan.payload Db.servers _ (fun _ _ => rfl),
    composeFiles_frame scan.clock serverId scan.payload Db.servers _ (fun _ _ => rfl),
    images_frame scan.clock serverId scan.payload Db.servers _ (fun _ _ => rfl),
    servers_containersWith]

/-- With every reference accepted, the containers of a known server are stored. -/
theorem always_upsertsSucceed {refers : Db → ContainerRow → Bool} {serverId : Int}
    (hrefers : ∀ db r, refers db r = true) (scans : List ReceivedScan) {db : Db}
    (hserver : serverId ∈ db.servers) :
    Runs.Always (importScan refers serverId) (UpsertsSucceed refers serverId) db scans := by
  induction scans generalizing db with
  | nil => trivial
  | cons scan scans ih =>
      refine ⟨fun before c after _ => ?_, ih ?_⟩
      · dsimp only
        rw [DockerTable.upsert_fst, DockerTable.accepts_iff]
        refine .inr ⟨?_, hrefers _ _⟩
        rw [importedContainers, servers_containersWith]
        exact hserver
      · rw [servers_importScan]
        exact hserver

/-- A container is scanned, and then no more. -/
def removedBetween : List ReceivedScan :=
  [⟨oneContainer, fun _ => 0⟩, ⟨bytes "\x7b\"containers\": []\x7d", fun _ => 60⟩]

end Nazg.Docker
