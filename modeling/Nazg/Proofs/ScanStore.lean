import Nazg.Docker.Client

/-!
# What an import of a scan leaves in the store

`parse_and_store_scan` counts every object it finds and never looks at what the
upsert returned. For four of the five kinds nothing can go wrong: the server row
is there, and no other reference is written. A container is different. Its
compose file is unknown and bound as an empty text, the text stays in the INTEGER
column, and a text names no row of `compose_files`: the foreign key refuses every
insert, and only a row that already exists is ever written.

The import is a run of upserts over one table after the other. What one upsert
does to the keys of its table is `DockerTable.holds_upsert`; `importAll_holds`
carries it over a whole kind, and the frame lemma over the other four.
-/

namespace Nazg.Docker

open Lib Lib.Sqlite Nexus

/-! ## Importing one kind -/

section

variable {σ ρ : Type} (T : DockerTable ρ) (clock : Nat → Int) (row : Int → σ → ρ)
  (count : ScanResult → ScanResult)

/-- The loop over the records of one kind. -/
def importAll (xs : List σ) (s : Import) : Import :=
  xs.foldl (fun s x => s.store clock (fun now => T.upsert (row now x)) count) s

/-- What the table's setter leaves alone, the whole loop leaves alone. -/
theorem importAll_frame {β : Type*} (P : Db → β) (hP : ∀ t db, P (T.set t db) = P db)
    (xs : List σ) (s : Import) : P (importAll T clock row count xs s).db = P s.db := by
  induction xs generalizing s with
  | nil => rfl
  | cons x xs ih =>
      have hstep : P (s.store clock (fun now => T.upsert (row now x)) count).db = P s.db := by
        rw [Import.store, DockerTable.upsert]
        split
        · exact hP _ _
        · rfl
      exact (ih _).trans hstep

/-- What each upsert of the kind keeps, the whole loop keeps. -/
theorem importAll_invariant (P : Db → Prop) (hP : ∀ r db, P db → P (T.upsert r db).2)
    (xs : List σ) (s : Import) (h : P s.db) : P (importAll T clock row count xs s).db :=
  List.foldlRecOn (motive := fun s : Import => P s.db) xs _ h fun _ hs _ _ => hP _ _ hs

/-- A counter that each record raises by `k`. -/
theorem importAll_count (π : ScanResult → Nat) (k : Nat) (hπ : ∀ r, π (count r) = π r + k)
    (xs : List σ) (s : Import) :
    π (importAll T clock row count xs s).result = π s.result + k * xs.length := by
  induction xs generalizing s with
  | nil => rfl
  | cons x xs ih =>
      have hstep : π (s.store clock (fun now => T.upsert (row now x)) count).result =
          π s.result + k := hπ _
      have hrun := ih (s.store clock (fun now => T.upsert (row now x)) count)
      rw [importAll, List.foldl_cons]
      rw [importAll, hstep] at hrun
      rw [hrun, List.length_cons, Nat.mul_succ]
      omega

variable {T row} {serverId : Int} (key : σ → Bytes)
  (hserver : ∀ now x, T.serverId (row now x) = serverId)
  (hkey : ∀ now x, T.uniqueId (row now x) = .ofCStr (key x))

include hserver hkey

/-- A kind with no reference but the server's is stored whole. -/
theorem importAll_holds (hrefs : ∀ db now x, T.references db (row now x) = true)
    (xs : List σ) (s : Import) (hs : serverId ∈ s.db.servers) (id : Text) :
    T.Holds (importAll T clock row count xs s).db serverId id ↔
      T.Holds s.db serverId id ∨ ∃ x ∈ xs, Text.ofCStr (key x) = id := by
  induction xs generalizing s with
  | nil => simp [importAll]
  | cons x xs ih =>
      have hacc : T.accepts (row (clock s.reads) x) s.db = true :=
        T.accepts_iff.2 (Or.inr ⟨by rw [hserver]; exact hs, hrefs _ _ _⟩)
      have hstep : T.Holds (s.store clock (fun now => T.upsert (row now x)) count).db serverId id ↔
          T.Holds s.db serverId id ∨ Text.ofCStr (key x) = id := by
        rw [Import.store, T.holds_upsert, hserver, hkey]
        simp [hacc]
      have hs' : serverId ∈ (s.store clock (fun now => T.upsert (row now x)) count).db.servers := by
        rw [Import.store, T.upsert_servers]
        exact hs
      have hrun := ih _ hs'
      rw [importAll] at hrun ⊢
      rw [List.foldl_cons, hrun, hstep]
      simp only [List.mem_cons, exists_eq_or_imp]
      exact or_assoc

/-- A kind with a reference that is never satisfied keeps the keys it had. -/
theorem importAll_holds_of_refused (hrefs : ∀ db now x, T.references db (row now x) = false)
    (xs : List σ) (s : Import) (id : Text) :
    T.Holds (importAll T clock row count xs s).db serverId id ↔ T.Holds s.db serverId id := by
  induction xs generalizing s with
  | nil => rfl
  | cons x xs ih =>
      have hstep : T.Holds (s.store clock (fun now => T.upsert (row now x)) count).db serverId id ↔
          T.Holds s.db serverId id := by
        rw [Import.store, T.holds_upsert, hserver, hkey, T.accepts_iff, hserver, hkey, hrefs]
        simp only [Bool.false_eq_true, and_false, or_false, true_and, or_iff_left_iff_imp]
        rintro ⟨h, rfl⟩
        exact h
      exact (ih _).trans hstep

omit key hserver hkey in
/-- Nor does it gain or lose a row. -/
theorem importAll_serverIds_of_refused (hrefs : ∀ db now x, T.references db (row now x) = false)
    (xs : List σ) (s : Import) :
    (T.get (importAll T clock row count xs s).db).data.map T.serverId =
      (T.get s.db).data.map T.serverId := by
  induction xs generalizing s with
  | nil => rfl
  | cons x xs ih =>
      have hstep : (T.get (s.store clock (fun now => T.upsert (row now x)) count).db).data.map
          T.serverId = (T.get s.db).data.map T.serverId := by
        rw [Import.store, DockerTable.upsert]
        split
        · next hacc =>
            have hclash : ∃ r ∈ (T.get s.db).data, T.clash (row (clock s.reads) x) r = true := by
              rw [DockerTable.accepts, hrefs, Bool.and_false, Bool.or_false] at hacc
              exact List.any_eq_true.1 hacc
            rw [T.get_set, Table.data_upsertRow_of_clash _ _ hclash, List.map_map]
            refine List.map_congr_left fun r _ => ?_
            simp only [Function.comp]
            split
            · exact T.serverId_update _ r
            · rfl
        · rfl
      exact (ih _).trans hstep

end

/-! ## Listings -/

/-- A listing has an entry of the server with this value in the column. -/
def Listed (entries : List (OrdMap Bytes Bytes)) (serverId : Int) (column : String) (id : Bytes) :
    Prop :=
  ∃ e ∈ entries, e.find? (bytes "server_id") = some (decimal serverId) ∧
    e.find? (bytes column) = some id

/-- A listing shows a key exactly when its row is stored and the key is whole. -/
theorem listed_iff {ρ : Type} (T : DockerTable ρ) {entry : Int → ρ → OrdMap Bytes Bytes}
    {column : String} (le : Int × ρ → Int × ρ → Bool)
    (hserver : ∀ i r, (entry i r).find? (bytes "server_id") = some (decimal (T.serverId r)))
    (hid : ∀ i r, (entry i r).find? (bytes column) = some (T.uniqueId r).bytes)
    (serverId : Int) (db : Db) (id : Bytes) :
    Listed (((T.select serverId db).mergeSort le).map fun x => entry x.1 x.2) serverId column id ↔
      (0 : UInt8) ∉ id ∧ T.Holds db serverId (.ofCStr id) := by
  have hentry : ∀ x : Int × ρ, ((entry x.1 x.2).find? (bytes "server_id") =
      some (decimal serverId) ∧ (entry x.1 x.2).find? (bytes column) = some id) ↔
        T.serverId x.2 = serverId ∧ (T.uniqueId x.2).bytes = id := by
    intro x
    rw [hserver, hid, Option.some_inj, Option.some_inj, decimal_injective.eq_iff]
  simp only [Listed, List.mem_map, exists_exists_and_eq_and, hentry]
  rw [T.exists_selected_iff (p := fun r => (T.uniqueId r).bytes = id)]
  constructor
  · rintro ⟨r, hr, hs, rfl⟩
    exact ⟨(T.uniqueId r).nulFree, r, hr, hs, (Text.ofCStr_self _).symm⟩
  · rintro ⟨hnul, r, hr, hs, hc⟩
    exact ⟨r, hr, hs, by rw [hc, Text.ofCStr_bytes, cstr_eq_self.2 hnul]⟩

/-! ## The whole import -/

section

variable (clock : Nat → Int) (serverId : Int) (payload : Bytes)

theorem containers_eq (s : Import) :
    s.containers clock serverId payload =
      importAll containersTable clock (fun now c => containerRow now serverId c.id c.name c.image
          c.state c.status c.created (bytes "[]") (bytes "[]") (bytes "[]") c.serviceName
          (bytes "[]") [openBrace, closeBrace] c.healthStatus c.restartPolicy)
        (fun r => { r with containersCount := r.containersCount + 1 }) (decodeContainers payload) s :=
  rfl

theorem images_eq (s : Import) :
    s.images clock serverId payload =
      importAll dockerImagesTable clock (fun now c => dockerImageRow now serverId c.id
          c.repository c.tag c.sizeBytes c.created)
        (fun r => { r with imagesCount := r.imagesCount + 1 }) (decodeImages payload) s :=
  rfl

theorem composeFiles_eq (s : Import) :
    s.composeFiles clock serverId payload =
      importAll composeFilesTable clock (fun now c => composeFileRow now serverId c.path
          c.projectName c.services (bytes "[]") (bytes "[]") c.hash)
        (fun r => { r with composeFilesCount := r.composeFilesCount + 1 })
        (decodeComposeFiles payload) s :=
  rfl

theorem networks_eq (s : Import) :
    s.networks clock serverId payload =
      importAll dockerNetworksTable clock (fun now c => dockerNetworkRow now serverId c.id c.name
          c.driver c.scope [openBrace, closeBrace])
        (fun r => { r with networksCount := r.networksCount + 1 }) (decodeNetworks payload) s :=
  rfl

theorem volumes_eq (s : Import) :
    s.volumes clock serverId payload =
      importAll dockerVolumesTable clock (fun now c => dockerVolumeRow now serverId c.name
          c.driver c.mountpoint [openBrace, closeBrace])
        (fun r => { r with volumesCount := r.volumesCount + 1 }) (decodeVolumes payload) s :=
  rfl

/-! ### The keys each kind leaves -/

variable {serverId}

theorem containers_holds (s : Import) (id : Text) :
    containersTable.Holds (s.containers clock serverId payload).db serverId id ↔
      containersTable.Holds s.db serverId id := by
  rw [containers_eq]
  refine importAll_holds_of_refused clock _ ScannedContainer.id ?_ ?_ ?_ _ s id
  · exact fun _ _ => rfl
  · exact fun _ _ => rfl
  · exact fun db _ _ => references_empty db.composeFiles.ids

theorem containers_serverIds (s : Import) :
    (s.containers clock serverId payload).db.containers.data.map (·.serverId) =
      s.db.containers.data.map (·.serverId) := by
  rw [containers_eq]
  refine importAll_serverIds_of_refused (T := containersTable) clock _ ?_ _ s
  exact fun db _ _ => references_empty db.composeFiles.ids

theorem images_holds (s : Import) (hs : serverId ∈ s.db.servers) (id : Text) :
    dockerImagesTable.Holds (s.images clock serverId payload).db serverId id ↔
      dockerImagesTable.Holds s.db serverId id ∨
        ∃ x ∈ decodeImages payload, Text.ofCStr x.id = id := by
  rw [images_eq]
  refine importAll_holds clock _ ScannedImage.id ?_ ?_ ?_ _ s hs id
  · exact fun _ _ => rfl
  · exact fun _ _ => rfl
  · exact fun _ _ _ => rfl

theorem composeFiles_holds (s : Import) (hs : serverId ∈ s.db.servers) (id : Text) :
    composeFilesTable.Holds (s.composeFiles clock serverId payload).db serverId id ↔
      composeFilesTable.Holds s.db serverId id ∨
        ∃ x ∈ decodeComposeFiles payload, Text.ofCStr x.path = id := by
  rw [composeFiles_eq]
  refine importAll_holds clock _ ScannedComposeFile.path ?_ ?_ ?_ _ s hs id
  · exact fun _ _ => rfl
  · exact fun _ _ => rfl
  · exact fun _ _ _ => rfl

theorem networks_holds (s : Import) (hs : serverId ∈ s.db.servers) (id : Text) :
    dockerNetworksTable.Holds (s.networks clock serverId payload).db serverId id ↔
      dockerNetworksTable.Holds s.db serverId id ∨
        ∃ x ∈ decodeNetworks payload, Text.ofCStr x.id = id := by
  rw [networks_eq]
  refine importAll_holds clock _ ScannedNetwork.id ?_ ?_ ?_ _ s hs id
  · exact fun _ _ => rfl
  · exact fun _ _ => rfl
  · exact fun _ _ _ => rfl

theorem volumes_holds (s : Import) (hs : serverId ∈ s.db.servers) (id : Text) :
    dockerVolumesTable.Holds (s.volumes clock serverId payload).db serverId id ↔
      dockerVolumesTable.Holds s.db serverId id ∨
        ∃ x ∈ decodeVolumes payload, Text.ofCStr x.name = id := by
  rw [volumes_eq]
  refine importAll_holds clock _ ScannedVolume.name ?_ ?_ ?_ _ s hs id
  · exact fun _ _ => rfl
  · exact fun _ _ => rfl
  · exact fun _ _ _ => rfl

/-! ### The run of all five -/

variable (serverId)

/-- The import before its result is marked successful. -/
def imported (db : Db) : Import :=
  (((((⟨.init, db, 0⟩ : Import).containers clock serverId payload).images clock serverId
    payload).composeFiles clock serverId payload).networks clock serverId payload).volumes clock
      serverId payload

/-- A counter over the whole import, from what each kind of record adds to it. -/
theorem imported_count (π : ScanResult → Nat) (db : Db) {k₁ k₂ k₃ k₄ k₅ : Nat}
    (h₁ : ∀ r, π { r with containersCount := r.containersCount + 1 } = π r + k₁)
    (h₂ : ∀ r, π { r with imagesCount := r.imagesCount + 1 } = π r + k₂)
    (h₃ : ∀ r, π { r with composeFilesCount := r.composeFilesCount + 1 } = π r + k₃)
    (h₄ : ∀ r, π { r with networksCount := r.networksCount + 1 } = π r + k₄)
    (h₅ : ∀ r, π { r with volumesCount := r.volumesCount + 1 } = π r + k₅) :
    π (imported clock serverId payload db).result =
      π .init + k₁ * (decodeContainers payload).length + k₂ * (decodeImages payload).length +
        k₃ * (decodeComposeFiles payload).length + k₄ * (decodeNetworks payload).length +
        k₅ * (decodeVolumes payload).length := by
  rw [imported, volumes_eq, importAll_count _ _ _ _ π k₅ h₅, networks_eq,
    importAll_count _ _ _ _ π k₄ h₄, composeFiles_eq, importAll_count _ _ _ _ π k₃ h₃, images_eq,
    importAll_count _ _ _ _ π k₂ h₂, containers_eq, importAll_count _ _ _ _ π k₁ h₁]

/-- The counters are the numbers of records decoded. -/
theorem parseAndStoreScan_counts (db : Db) :
    let r := (parseAndStoreScan clock serverId payload .init db).2.1
    r.containersCount = (decodeContainers payload).length ∧
      r.imagesCount = (decodeImages payload).length ∧
      r.composeFilesCount = (decodeComposeFiles payload).length ∧
      r.networksCount = (decodeNetworks payload).length ∧
      r.volumesCount = (decodeVolumes payload).length := by
  have hadd : ∀ n : Nat, n = n + 0 := fun n => n.add_zero.symm
  refine ⟨?_, ?_, ?_, ?_, ?_⟩
  · have h := imported_count clock serverId payload (·.containersCount) db (fun _ => rfl)
      (fun _ => hadd _) (fun _ => hadd _) (fun _ => hadd _) (fun _ => hadd _)
    exact h.trans (by simp [ScanResult.init])
  · have h := imported_count clock serverId payload (·.imagesCount) db (fun _ => hadd _)
      (fun _ => rfl) (fun _ => hadd _) (fun _ => hadd _) (fun _ => hadd _)
    exact h.trans (by simp [ScanResult.init])
  · have h := imported_count clock serverId payload (·.composeFilesCount) db (fun _ => hadd _)
      (fun _ => hadd _) (fun _ => rfl) (fun _ => hadd _) (fun _ => hadd _)
    exact h.trans (by simp [ScanResult.init])
  · have h := imported_count clock serverId payload (·.networksCount) db (fun _ => hadd _)
      (fun _ => hadd _) (fun _ => hadd _) (fun _ => rfl) (fun _ => hadd _)
    exact h.trans (by simp [ScanResult.init])
  · have h := imported_count clock serverId payload (·.volumesCount) db (fun _ => hadd _)
      (fun _ => hadd _) (fun _ => hadd _) (fun _ => hadd _) (fun _ => rfl)
    exact h.trans (by simp [ScanResult.init])

/-- What is stored after an import of a server whose row exists: of the
containers only those that were there before, of every other kind all. -/
structure Imported (db db' : Db) : Prop where
  containers : ∀ id, containersTable.Holds db' serverId id ↔ containersTable.Holds db serverId id
  containerServers : db'.containers.data.map (·.serverId) = db.containers.data.map (·.serverId)
  images : ∀ id, dockerImagesTable.Holds db' serverId id ↔
    dockerImagesTable.Holds db serverId id ∨ ∃ x ∈ decodeImages payload, Text.ofCStr x.id = id
  composeFiles : ∀ id, composeFilesTable.Holds db' serverId id ↔
    composeFilesTable.Holds db serverId id ∨
      ∃ x ∈ decodeComposeFiles payload, Text.ofCStr x.path = id
  networks : ∀ id, dockerNetworksTable.Holds db' serverId id ↔
    dockerNetworksTable.Holds db serverId id ∨
      ∃ x ∈ decodeNetworks payload, Text.ofCStr x.id = id
  volumes : ∀ id, dockerVolumesTable.Holds db' serverId id ↔
    dockerVolumesTable.Holds db serverId id ∨
      ∃ x ∈ decodeVolumes payload, Text.ofCStr x.name = id

section

variable {β : Type*} (P : Db → β) (s : Import)

theorem containers_frame (hP : ∀ t db, P { db with containers := t } = P db) :
    P (s.containers clock serverId payload).db = P s.db :=
  importAll_frame containersTable _ _ _ P hP _ s

theorem images_frame (hP : ∀ t db, P { db with dockerImages := t } = P db) :
    P (s.images clock serverId payload).db = P s.db :=
  importAll_frame dockerImagesTable _ _ _ P hP _ s

theorem composeFiles_frame (hP : ∀ t db, P { db with composeFiles := t } = P db) :
    P (s.composeFiles clock serverId payload).db = P s.db :=
  importAll_frame composeFilesTable _ _ _ P hP _ s

theorem networks_frame (hP : ∀ t db, P { db with dockerNetworks := t } = P db) :
    P (s.networks clock serverId payload).db = P s.db :=
  importAll_frame dockerNetworksTable _ _ _ P hP _ s

theorem volumes_frame (hP : ∀ t db, P { db with dockerVolumes := t } = P db) :
    P (s.volumes clock serverId payload).db = P s.db :=
  importAll_frame dockerVolumesTable _ _ _ P hP _ s

end

theorem imported_imported {db : Db} (hs : serverId ∈ db.servers) :
    Imported serverId payload db (imported clock serverId payload db).db := by
  have hs₁ : serverId ∈ ((⟨.init, db, 0⟩ : Import).containers clock serverId payload).db.servers := by
    rw [containers_frame clock serverId payload Db.servers _ fun _ _ => rfl]
    exact hs
  generalize hi₁ : (⟨.init, db, 0⟩ : Import).containers clock serverId payload = s₁ at hs₁
  have hs₂ : serverId ∈ (s₁.images clock serverId payload).db.servers := by
    rw [images_frame clock serverId payload Db.servers _ fun _ _ => rfl]
    exact hs₁
  generalize hi₂ : s₁.images clock serverId payload = s₂ at hs₂
  have hs₃ : serverId ∈ (s₂.composeFiles clock serverId payload).db.servers := by
    rw [composeFiles_frame clock serverId payload Db.servers _ fun _ _ => rfl]
    exact hs₂
  generalize hi₃ : s₂.composeFiles clock serverId payload = s₃ at hs₃
  have hs₄ : serverId ∈ (s₃.networks clock serverId payload).db.servers := by
    rw [networks_frame clock serverId payload Db.servers _ fun _ _ => rfl]
    exact hs₃
  generalize hi₄ : s₃.networks clock serverId payload = s₄ at hs₄
  have hrun : imported clock serverId payload db = s₄.volumes clock serverId payload := by
    rw [imported, hi₁, hi₂, hi₃, hi₄]
  have hafter₁ : (imported clock serverId payload db).db.containers = s₁.db.containers := by
    rw [hrun, volumes_frame clock serverId payload Db.containers _ fun _ _ => rfl, ← hi₄,
      networks_frame clock serverId payload Db.containers _ fun _ _ => rfl, ← hi₃,
      composeFiles_frame clock serverId payload Db.containers _ fun _ _ => rfl, ← hi₂,
      images_frame clock serverId payload Db.containers _ fun _ _ => rfl]
  refine ⟨fun id => ?_, ?_, fun id => ?_, fun id => ?_, fun id => ?_, fun id => ?_⟩
  · rw [containersTable.holds_congr hafter₁, ← hi₁]
    exact containers_holds clock payload _ id
  · rw [hafter₁, ← hi₁]
    exact containers_serverIds clock payload _
  · have hafter : (imported clock serverId payload db).db.dockerImages = s₂.db.dockerImages := by
      rw [hrun, volumes_frame clock serverId payload Db.dockerImages _ fun _ _ => rfl, ← hi₄,
        networks_frame clock serverId payload Db.dockerImages _ fun _ _ => rfl, ← hi₃,
        composeFiles_frame clock serverId payload Db.dockerImages _ fun _ _ => rfl]
    have hbefore : s₁.db.dockerImages = db.dockerImages := by
      rw [← hi₁, containers_frame clock serverId payload Db.dockerImages _ fun _ _ => rfl]
    rw [dockerImagesTable.holds_congr hafter, ← hi₂, ← dockerImagesTable.holds_congr hbefore]
    exact images_holds clock payload _ hs₁ id
  · have hafter : (imported clock serverId payload db).db.composeFiles = s₃.db.composeFiles := by
      rw [hrun, volumes_frame clock serverId payload Db.composeFiles _ fun _ _ => rfl, ← hi₄,
        networks_frame clock serverId payload Db.composeFiles _ fun _ _ => rfl]
    have hbefore : s₂.db.composeFiles = db.composeFiles := by
      rw [← hi₂, images_frame clock serverId payload Db.composeFiles _ fun _ _ => rfl, ← hi₁,
        containers_frame clock serverId payload Db.composeFiles _ fun _ _ => rfl]
    rw [composeFilesTable.holds_congr hafter, ← hi₃, ← composeFilesTable.holds_congr hbefore]
    exact composeFiles_holds clock payload _ hs₂ id
  · have hafter : (imported clock serverId payload db).db.dockerNetworks = s₄.db.dockerNetworks := by
      rw [hrun, volumes_frame clock serverId payload Db.dockerNetworks _ fun _ _ => rfl]
    have hbefore : s₃.db.dockerNetworks = db.dockerNetworks := by
      rw [← hi₃, composeFiles_frame clock serverId payload Db.dockerNetworks _ fun _ _ => rfl,
        ← hi₂, images_frame clock serverId payload Db.dockerNetworks _ fun _ _ => rfl, ← hi₁,
        containers_frame clock serverId payload Db.dockerNetworks _ fun _ _ => rfl]
    rw [dockerNetworksTable.holds_congr hafter, ← hi₄, ← dockerNetworksTable.holds_congr hbefore]
    exact networks_holds clock payload _ hs₃ id
  · have hbefore : s₄.db.dockerVolumes = db.dockerVolumes := by
      rw [← hi₄, networks_frame clock serverId payload Db.dockerVolumes _ fun _ _ => rfl, ← hi₃,
        composeFiles_frame clock serverId payload Db.dockerVolumes _ fun _ _ => rfl, ← hi₂,
        images_frame clock serverId payload Db.dockerVolumes _ fun _ _ => rfl, ← hi₁,
        containers_frame clock serverId payload Db.dockerVolumes _ fun _ _ => rfl]
    rw [hrun, ← dockerVolumesTable.holds_congr hbefore]
    exact volumes_holds clock payload _ hs₄ id

end

/-! ## What was counted is retrievable -/

/-- Every counted object is listed for its server afterwards, and no more
containers are counted than are stored. -/
structure ScanRetrievable (serverId : Int) (payload : Bytes) (result : ScanResult) (db : Db) :
    Prop where
  containers : ∀ x ∈ decodeContainers payload,
    Listed (listContainers serverId db) serverId "container_id" x.id
  images : ∀ x ∈ decodeImages payload,
    Listed (listDockerImages serverId db) serverId "image_id" x.id
  composeFiles : ∀ x ∈ decodeComposeFiles payload,
    Listed (listComposeFiles serverId db) serverId "file_path" x.path
  networks : ∀ x ∈ decodeNetworks payload,
    Listed (listDockerNetworks serverId db) serverId "network_id" x.id
  volumes : ∀ x ∈ decodeVolumes payload,
    Listed (listDockerVolumes serverId db) serverId "volume_name" x.name
  count : result.containersCount ≤ (db.containers.data.filter (·.serverId = serverId)).length

/-- The condition on the payload and on the database before: every container has
its row already and there are no more of them than rows, and no key of any object
is cut by the driver. -/
structure ScanStorable (serverId : Int) (payload : Bytes) (db : Db) : Prop where
  containers : ∀ x ∈ decodeContainers payload, (0 : UInt8) ∉ x.id ∧
    ∃ r ∈ db.containers.data, r.serverId = serverId ∧ r.containerId.bytes = x.id
  images : ∀ x ∈ decodeImages payload, (0 : UInt8) ∉ x.id
  composeFiles : ∀ x ∈ decodeComposeFiles payload, (0 : UInt8) ∉ x.path
  networks : ∀ x ∈ decodeNetworks payload, (0 : UInt8) ∉ x.id
  volumes : ∀ x ∈ decodeVolumes payload, (0 : UInt8) ∉ x.name
  count : (decodeContainers payload).length ≤
    (db.containers.data.filter (·.serverId = serverId)).length

theorem listed_containers_iff (serverId : Int) (db : Db) (id : Bytes) :
    Listed (listContainers serverId db) serverId "container_id" id ↔
      (0 : UInt8) ∉ id ∧ containersTable.Holds db serverId (.ofCStr id) :=
  listed_iff containersTable _
    (fun i r => by simp +decide [containerEntry, containersTable, find?_record, List.find?])
    (fun i r => by simp +decide [containerEntry, containersTable, find?_record, List.find?])
    serverId db id

theorem listed_composeFiles_iff (serverId : Int) (db : Db) (id : Bytes) :
    Listed (listComposeFiles serverId db) serverId "file_path" id ↔
      (0 : UInt8) ∉ id ∧ composeFilesTable.Holds db serverId (.ofCStr id) :=
  listed_iff composeFilesTable _
    (fun i r => by simp +decide [composeFileEntry, composeFilesTable, find?_record, List.find?])
    (fun i r => by simp +decide [composeFileEntry, composeFilesTable, find?_record, List.find?])
    serverId db id

theorem listed_dockerImages_iff (serverId : Int) (db : Db) (id : Bytes) :
    Listed (listDockerImages serverId db) serverId "image_id" id ↔
      (0 : UInt8) ∉ id ∧ dockerImagesTable.Holds db serverId (.ofCStr id) :=
  listed_iff dockerImagesTable _
    (fun i r => by simp +decide [dockerImageEntry, dockerImagesTable, find?_record, List.find?])
    (fun i r => by simp +decide [dockerImageEntry, dockerImagesTable, find?_record, List.find?])
    serverId db id

theorem listed_dockerNetworks_iff (serverId : Int) (db : Db) (id : Bytes) :
    Listed (listDockerNetworks serverId db) serverId "network_id" id ↔
      (0 : UInt8) ∉ id ∧ dockerNetworksTable.Holds db serverId (.ofCStr id) :=
  listed_iff dockerNetworksTable _
    (fun i r => by simp +decide [dockerNetworkEntry, dockerNetworksTable, find?_record, List.find?])
    (fun i r => by simp +decide [dockerNetworkEntry, dockerNetworksTable, find?_record, List.find?])
    serverId db id

theorem listed_dockerVolumes_iff (serverId : Int) (db : Db) (id : Bytes) :
    Listed (listDockerVolumes serverId db) serverId "volume_name" id ↔
      (0 : UInt8) ∉ id ∧ dockerVolumesTable.Holds db serverId (.ofCStr id) :=
  listed_iff dockerVolumesTable _
    (fun i r => by simp +decide [dockerVolumeEntry, dockerVolumesTable, find?_record, List.find?])
    (fun i r => by simp +decide [dockerVolumeEntry, dockerVolumesTable, find?_record, List.find?])
    serverId db id

/-- An import always reports success, and what it counted is retrievable exactly
when the containers were stored before. -/
theorem scanRetrievable_iff (clock : Nat → Int) (serverId : Int) (payload : Bytes) (db : Db)
    (hs : serverId ∈ db.servers) :
    let r := parseAndStoreScan clock serverId payload .init db
    r.1 = true ∧
      (ScanRetrievable serverId payload r.2.1 r.2.2 ↔ ScanStorable serverId payload db) := by
  have himp := imported_imported clock serverId payload hs
  have hcounts := (parseAndStoreScan_counts clock serverId payload db).1
  have hrows : ((imported clock serverId payload db).db.containers.data.filter
      (·.serverId = serverId)).length =
      (db.containers.data.filter (·.serverId = serverId)).length := by
    have hcount := congrArg (List.countP fun i => decide (i = serverId)) himp.containerServers
    rw [List.countP_map, List.countP_map] at hcount
    rw [← List.countP_eq_length_filter, ← List.countP_eq_length_filter]
    exact hcount
  refine ⟨rfl, fun h => ⟨fun x hx => ?_, fun x hx => ?_, fun x hx => ?_, fun x hx => ?_,
    fun x hx => ?_, ?_⟩, fun h => ⟨fun x hx => ?_, fun x hx => ?_, fun x hx => ?_, fun x hx => ?_,
    fun x hx => ?_, ?_⟩⟩
  · obtain ⟨hnul, hheld⟩ := (listed_containers_iff _ _ _).1 (h.containers x hx)
    obtain ⟨r, hr, hrs, hid⟩ := (himp.containers _).1 hheld
    refine ⟨hnul, r, hr, hrs, ?_⟩
    rw [show r.containerId = Text.ofCStr x.id from hid, Text.ofCStr_bytes, cstr_eq_self.2 hnul]
  · exact ((listed_dockerImages_iff _ _ _).1 (h.images x hx)).1
  · exact ((listed_composeFiles_iff _ _ _).1 (h.composeFiles x hx)).1
  · exact ((listed_dockerNetworks_iff _ _ _).1 (h.networks x hx)).1
  · exact ((listed_dockerVolumes_iff _ _ _).1 (h.volumes x hx)).1
  · rw [← hcounts, ← hrows]
    exact h.count
  · obtain ⟨hnul, r, hr, hrs, hid⟩ := h.containers x hx
    refine (listed_containers_iff _ _ _).2 ⟨hnul, (himp.containers _).2 ⟨r, hr, hrs, ?_⟩⟩
    exact Text.ext (hid.trans (cstr_eq_self.2 hnul).symm)
  · exact (listed_dockerImages_iff _ _ _).2
      ⟨h.images x hx, (himp.images _).2 (Or.inr ⟨x, hx, rfl⟩)⟩
  · exact (listed_composeFiles_iff _ _ _).2
      ⟨h.composeFiles x hx, (himp.composeFiles _).2 (Or.inr ⟨x, hx, rfl⟩)⟩
  · exact (listed_dockerNetworks_iff _ _ _).2
      ⟨h.networks x hx, (himp.networks _).2 (Or.inr ⟨x, hx, rfl⟩)⟩
  · exact (listed_dockerVolumes_iff _ _ _).2
      ⟨h.volumes x hx, (himp.volumes _).2 (Or.inr ⟨x, hx, rfl⟩)⟩
  · have hrows' := h.count
    rw [← hcounts, ← hrows] at hrows'
    exact hrows'

/-- A payload with one container, as an agent sends it. -/
def oneContainer : Bytes :=
  bytes "\x7b\"containers\": [\x7b\"id\": \"c1\", \"name\": \"plex\", \"image\": \"plex\", \"state\": \"running\"\x7d]\x7d"

theorem scanRetrievable_iff_oneContainer :
    let r := parseAndStoreScan (fun _ => 0) 1 oneContainer .init (.fresh [1])
    r.1 = true ∧
      (ScanRetrievable 1 oneContainer r.2.1 r.2.2 ↔ ScanStorable 1 oneContainer (.fresh [1])) :=
  scanRetrievable_iff (fun _ => 0) 1 oneContainer (.fresh [1]) (by decide)

/-- The import of one container into an empty table succeeds, counts it and stores
nothing. -/
theorem oneContainer_not_stored :
    let r := parseAndStoreScan (fun _ => 0) 1 oneContainer .init (.fresh [1])
    r.1 = true ∧ r.2.1.containersCount = 1 ∧ r.2.2.containers.data.length = 0 ∧
      ¬ ScanRetrievable 1 oneContainer r.2.1 r.2.2 := by
  have hcount : (parseAndStoreScan (fun _ => 0) 1 oneContainer .init
      (.fresh [1])).2.1.containersCount = 1 := by decide +kernel
  have hdata : (parseAndStoreScan (fun _ => 0) 1 oneContainer .init
      (.fresh [1])).2.2.containers.data.length = 0 := by decide +kernel
  refine ⟨rfl, hcount, hdata, fun h => ?_⟩
  have hle := h.count
  rw [hcount, List.length_eq_zero_iff.1 hdata] at hle
  exact absurd hle (by decide)

end Nazg.Docker
