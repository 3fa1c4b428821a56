import Nazg.Proofs.ScanMirror

/-!
# Marking containers and deleting what stayed marked

`mark_containers_stale` writes a time into every container of a server,
`delete_stale_containers` deletes those that show no later one, and what a scan upserts in
between shows the time of its upsert, in seconds. So a container survives exactly if its last
upsert reads the clock later than the time of the mark: one that is upserted within that very
second is deleted with those that were not.
-/

namespace Nazg.Docker

open Lib Lib.Sqlite Nexus

/-- A call of `upsert_container`, and the clock that it reads. -/
structure UpsertCall where
  now : Int
  serverId : Int
  containerId : Bytes
  name : Bytes
  image : Bytes
  state : Bytes
  status : Bytes
  created : Int
  portsJson : Bytes
  volumesJson : Bytes
  networksJson : Bytes
  serviceName : Bytes
  dependsOnJson : Bytes
  labelsJson : Bytes
  healthStatus : Bytes
  restartPolicy : Bytes

namespace UpsertCall

/-- The row that is bound. -/
def row (c : UpsertCall) : ContainerRow :=
  containerRow c.now c.serverId c.containerId c.name c.image c.state c.status c.created c.portsJson
    c.volumesJson c.networksJson c.serviceName c.dependsOnJson c.labelsJson c.healthStatus
    c.restartPolicy

/-- The call is for the container. -/
def IsFor (c : UpsertCall) (serverId : Int) (id : Text) : Prop :=
  c.serverId = serverId ∧ Text.ofCStr c.containerId = id

instance (c : UpsertCall) (serverId : Int) (id : Text) : Decidable (c.IsFor serverId id) :=
  inferInstanceAs (Decidable (_ ∧ _))

end UpsertCall

section

variable (refers : Db → ContainerRow → Bool)

def upsertOne (db : Db) (c : UpsertCall) : Db := ((containersTableWith refers).upsert c.row db).2

def upsertAll (calls : List UpsertCall) (db : Db) : Db := calls.foldl (upsertOne refers) db

/-- Every call succeeds. -/
def AllSucceed (calls : List UpsertCall) (db : Db) : Prop :=
  ∀ before c after, calls = before ++ c :: after →
    ((containersTableWith refers).upsert c.row (upsertAll refers before db)).1 = true

/-- Marking, the upserts of a scan, and the deletion. -/
def sweep (serverId t : Int) (calls : List UpsertCall) (db : Db) : Db :=
  deleteStaleContainers serverId t (upsertAll refers calls (markContainersStale serverId t db))

/-- The rows of the other servers. -/
def othersThan (serverId : Int) (rows : List ContainerRow) : List ContainerRow :=
  rows.filter fun r => r.serverId ≠ serverId

/-- What calls that all succeed make of a table. -/
def upsertRows (calls : List UpsertCall) (tbl : Table ContainerRow) : Table ContainerRow :=
  calls.foldl
    (fun tbl c => tbl.upsertRow (containersTable.clash c.row) (containersTable.update c.row) c.row)
    tbl

/-- The containers of the server are those upserted for it, and those of the others are what
the calls for the others alone make of what was there. -/
structure Swept (serverId t : Int) (calls : List UpsertCall) (db : Db) : Prop where
  left : ∀ id, containersTable.Holds (sweep refers serverId t calls db) serverId id ↔
    ∃ c ∈ calls, c.IsFor serverId id
  others : othersThan serverId (sweep refers serverId t calls db).containers.data =
    othersThan serverId
      (upsertRows (calls.filter fun c => c.serverId ≠ serverId) db.containers).data

end

/-- The last call for a container. -/
def lastCall (calls : List UpsertCall) (serverId : Int) (id : Text) : Option UpsertCall :=
  calls.reverse.find? fun c => c.IsFor serverId id

/-- Every container of the server was upserted for the last time after the time. -/
def SeenLater (serverId t : Int) (calls : List UpsertCall) : Prop :=
  ∀ id, ∀ c ∈ lastCall calls serverId id, t < c.now

variable {refers : Db → ContainerRow → Bool} {serverId t : Int} {calls : List UpsertCall} {db : Db}
  {id : Text}

theorem lastCall_append (calls : List UpsertCall) (c : UpsertCall) (serverId : Int) (id : Text) :
    lastCall (calls ++ [c]) serverId id =
      if c.IsFor serverId id then some c else lastCall calls serverId id := by
  rw [lastCall, List.reverse_append, List.reverse_singleton, List.singleton_append]
  split
  · next h => exact List.find?_cons_of_pos (decide_eq_true h)
  · next h => exact List.find?_cons_of_neg (by simpa using h)

theorem lastCall_isSome :
    (lastCall calls serverId id).isSome ↔ ∃ c ∈ calls, c.IsFor serverId id := by
  rw [lastCall, List.find?_isSome]
  simp

theorem upsertAll_append (calls : List UpsertCall) (c : UpsertCall) (db : Db) :
    upsertAll refers (calls ++ [c]) db = upsertOne refers (upsertAll refers calls db) c := by
  rw [upsertAll, List.foldl_append]
  rfl

theorem AllSucceed.append {c : UpsertCall} (h : AllSucceed refers (calls ++ [c]) db) :
    AllSucceed refers calls db ∧
      ((containersTableWith refers).upsert c.row (upsertAll refers calls db)).1 = true := by
  refine ⟨fun before d after heq => h before d (after ++ [c]) ?_, h calls c [] rfl⟩
  rw [heq, List.append_assoc, List.cons_append]

/-! ## The containers of the server -/

/-- A row of the server shows the time of the last call for it, or else that of the mark. -/
theorem lastSeen_upsertAll (hok : AllSucceed refers calls (markContainersStale serverId t db)) :
    ∀ r ∈ (upsertAll refers calls (markContainersStale serverId t db)).containers.data,
      r.serverId = serverId →
        r.lastSeen = ((lastCall calls serverId r.containerId).map UpsertCall.now).getD t := by
  induction calls using List.reverseRecOn with
  | nil =>
      intro r hr hserver
      obtain ⟨x, hx, rfl⟩ := List.mem_map.1 hr
      obtain ⟨y, -, rfl⟩ := List.mem_map.1 hx
      by_cases hy : y.2.serverId = serverId
      · simp [hy, lastCall]
      · simp [hy] at hserver
  | append_singleton calls c ih =>
      obtain ⟨hcalls, hc⟩ := hok.append
      intro r hr hserver
      rw [upsertAll_append] at hr
      rw [lastCall_append]
      rcases mem_upsert hc hr with rfl | ⟨old, -, hold, hid, rfl⟩ | ⟨hold, hother⟩
      · rw [if_pos ⟨hserver, rfl⟩]
        rfl
      · rw [if_pos ⟨hold.symm.trans hserver, hid.symm⟩]
        rfl
      · rw [if_neg fun hfor => hother ⟨hserver.trans hfor.1.symm, hfor.2.symm⟩]
        exact ih hcalls r hold hserver

theorem holds_upsertAll (hok : AllSucceed refers calls db) (id : Text) :
    containersTable.Holds (upsertAll refers calls db) serverId id ↔
      containersTable.Holds db serverId id ∨ ∃ c ∈ calls, c.IsFor serverId id := by
  induction calls using List.reverseRecOn with
  | nil => simp [upsertAll]
  | append_singleton calls c ih =>
      obtain ⟨hcalls, hc⟩ := hok.append
      rw [DockerTable.upsert_fst] at hc
      have hstep := (containersTableWith refers).holds_upsert c.row (upsertAll refers calls db)
        serverId id
      rw [hc] at hstep
      rw [upsertAll_append]
      refine hstep.trans ?_
      refine (or_congr_left (ih hcalls)).trans ?_
      rw [or_assoc]
      simp only [List.mem_append, List.mem_singleton, or_and_right, exists_or, exists_eq_left,
        true_and]
      rfl

theorem mem_deleteStale {r : ContainerRow} :
    r ∈ (deleteStaleContainers serverId t db).containers.data ↔
      r ∈ db.containers.data ∧ ¬ (r.serverId = serverId ∧ r.lastSeen ≤ t) := by
  simp [deleteStaleContainers, Table.data, Table.deleteWhere, imp_iff_not_or]

/-- What the sweep leaves of the server. -/
theorem holds_sweep (hok : AllSucceed refers calls (markContainersStale serverId t db)) :
    containersTable.Holds (sweep refers serverId t calls db) serverId id ↔
      ∃ c ∈ lastCall calls serverId id, t < c.now := by
  constructor
  · rintro ⟨r, hr, hserver, hid⟩
    obtain ⟨hr, hkept⟩ := mem_deleteStale.1 hr
    have hseen := lastSeen_upsertAll hok r hr hserver
    have hid : r.containerId = id := hid
    have hlater : t < r.lastSeen := not_le.1 fun hle => hkept ⟨hserver, hle⟩
    rw [hid] at hseen
    cases hlast : lastCall calls serverId id with
    | none =>
        rw [hlast] at hseen
        exact absurd hlater (by rw [hseen]; exact lt_irrefl t)
    | some c =>
        rw [hlast] at hseen
        exact ⟨c, rfl, hlater.trans_eq hseen⟩
  · rintro ⟨c, hlast, hlater⟩
    have hcall := lastCall_isSome.1 (Option.isSome_of_mem hlast)
    obtain ⟨r, hr, hserver, hid⟩ := (holds_upsertAll hok id).2 (.inr hcall)
    have hseen := lastSeen_upsertAll hok r hr hserver
    have hid' : r.containerId = id := hid
    rw [hid', Option.mem_def.1 hlast] at hseen
    refine ⟨r, mem_deleteStale.2 ⟨hr, fun hstale => ?_⟩, hserver, hid⟩
    exact absurd hstale.2 (not_le.2 (hseen ▸ hlater))

/-! ## The containers of the others -/

/-- Rows of a table after an upsert. -/
def upserted (row : ContainerRow) (rows : List ContainerRow) : List ContainerRow :=
  if rows.any (containersTable.clash row) then
    rows.map fun r => if containersTable.clash row r then containersTable.update row r else r
  else rows ++ [row]

theorem data_upsertRow (row : ContainerRow) (tbl : Table ContainerRow) :
    (tbl.upsertRow (containersTable.clash row) (containersTable.update row) row).data =
      upserted row tbl.data := by
  rw [upserted]
  split
  · next h => exact Table.data_upsertRow_of_clash _ _ (List.any_eq_true.1 h)
  · next h =>
      refine Table.data_upsertRow_of_new _ _ fun r hr => ?_
      exact Bool.eq_false_of_not_eq_true fun hr' => h (List.any_eq_true.2 ⟨r, hr, hr'⟩)

/-- The conflict clause keeps a row with its server. -/
def rewritten (row r : ContainerRow) : ContainerRow :=
  if containersTable.clash row r then containersTable.update row r else r

theorem othersThan_rewritten (row : ContainerRow) (rows : List ContainerRow) :
    othersThan serverId (rows.map (rewritten row)) =
      (othersThan serverId rows).map (rewritten row) := by
  have hserver : ∀ r, (rewritten row r).serverId = r.serverId := by
    intro r
    rw [rewritten]
    split
    · exact containersTable.serverId_update row r
    · rfl
  rw [othersThan, List.filter_map, othersThan]
  refine congrArg _ (List.filter_congr fun r _ => ?_)
  simp only [Function.comp, hserver]

/-- An upsert for the server leaves the others alone, and one for another works among them. -/
theorem othersThan_upserted (row : ContainerRow) (rows : List ContainerRow) :
    othersThan serverId (upserted row rows) =
      if row.serverId = serverId then othersThan serverId rows
      else upserted row (othersThan serverId rows) := by
  have hmap : (rows.map fun r => if containersTable.clash row r then containersTable.update row r
      else r) = rows.map (rewritten row) := rfl
  split
  · next hrow =>
      -- what clashes is a row of the server
      have hsame : ∀ r ∈ othersThan serverId rows, rewritten row r = r := by
        intro r hr
        refine if_neg fun hclash => ?_
        have hserver := (containersTable.clash_iff.1 hclash).1.trans hrow
        exact absurd hserver (of_decide_eq_true (List.mem_filter.1 hr).2)
      rw [upserted]
      split
      · rw [hmap, othersThan_rewritten]
        exact (List.map_congr_left hsame).trans (List.map_id _)
      · simp [othersThan, hrow]
  · next hrow =>
      have hany : (othersThan serverId rows).any (containersTable.clash row) =
          rows.any (containersTable.clash row) := by
        rw [Bool.eq_iff_iff, List.any_eq_true, List.any_eq_true]
        constructor
        · rintro ⟨r, hr, hclash⟩
          exact ⟨r, (List.mem_filter.1 hr).1, hclash⟩
        · rintro ⟨r, hr, hclash⟩
          have hserver := (containersTable.clash_iff.1 hclash).1
          exact ⟨r, List.mem_filter.2 ⟨hr, decide_eq_true (hserver.trans_ne hrow)⟩, hclash⟩
      rw [upserted, upserted, hany]
      split
      · exact othersThan_rewritten row rows
      · simp [othersThan, hrow]

theorem data_upsertOne {c : UpsertCall}
    (hok : ((containersTableWith refers).upsert c.row db).1 = true) :
    (upsertOne refers db c).containers.data = upserted c.row db.containers.data := by
  rw [DockerTable.upsert_fst] at hok
  rw [upsertOne, DockerTable.upsert, if_pos hok]
  exact data_upsertRow c.row db.containers

theorem upsertRows_append (calls : List UpsertCall) (c : UpsertCall) (tbl : Table ContainerRow) :
    (upsertRows (calls ++ [c]) tbl).data = upserted c.row (upsertRows calls tbl).data := by
  rw [upsertRows, List.foldl_append]
  exact data_upsertRow c.row _

theorem othersThan_upsertAll (hok : AllSucceed refers calls db) {tbl : Table ContainerRow}
    (hdb : othersThan serverId db.containers.data = othersThan serverId tbl.data) :
    othersThan serverId (upsertAll refers calls db).containers.data =
      othersThan serverId (upsertRows (calls.filter fun c => c.serverId ≠ serverId) tbl).data := by
  induction calls using List.reverseRecOn with
  | nil => exact hdb
  | append_singleton calls c ih =>
      obtain ⟨hcalls, hc⟩ := hok.append
      rw [upsertAll_append, data_upsertOne hc, othersThan_upserted, ih hcalls, List.filter_append]
      by_cases hserver : c.serverId = serverId
      · have hrow : c.row.serverId = serverId := hserver
        rw [if_pos hrow, List.filter_cons_of_neg (by simpa using hserver), List.filter_nil,
          List.append_nil]
      · have hrow : ¬ c.row.serverId = serverId := hserver
        rw [if_neg hrow, List.filter_cons_of_pos (by simpa using hserver), List.filter_nil,
          upsertRows_append, othersThan_upserted, if_neg hrow]

theorem othersThan_mark (db : Db) :
    othersThan serverId (markContainersStale serverId t db).containers.data =
      othersThan serverId db.containers.data := by
  simp only [othersThan, markContainersStale, Table.data, Table.updateWhere, List.map_map,
    List.filter_map]
  rw [List.filter_congr (q := fun x => decide (x.2.serverId ≠ serverId)) fun x _ => ?_]
  · refine List.map_congr_left fun x hx => ?_
    have hne := of_decide_eq_true (List.mem_filter.1 hx).2
    simp [hne]
  · by_cases hx : x.2.serverId = serverId <;> simp [hx]

theorem othersThan_delete (db : Db) :
    othersThan serverId (deleteStaleContainers serverId t db).containers.data =
      othersThan serverId db.containers.data := by
  simp only [othersThan, deleteStaleContainers, Table.data, Table.deleteWhere, List.filter_map,
    List.filter_filter]
  refine congrArg _ (List.filter_congr fun x _ => ?_)
  by_cases hx : x.2.serverId = serverId <;> simp [hx]

/-- When all the upserts succeed, a sweep does what it is for exactly if every container of
the server was upserted for the last time after the time of the mark. -/
theorem swept_iff (refers : Db → ContainerRow → Bool) (serverId t : Int) (calls : List UpsertCall)
    (db : Db) (hok : AllSucceed refers calls (markContainersStale serverId t db)) :
    Swept refers serverId t calls db ↔ SeenLater serverId t calls := by
  constructor
  · intro h id c hlast
    have hcall := lastCall_isSome.1 (Option.isSome_of_mem hlast)
    obtain ⟨d, hd, hlater⟩ := (holds_sweep hok).1 ((h.left id).2 hcall)
    rwa [Option.mem_unique hlast hd]
  · intro h
    refine ⟨fun id => ?_, ?_⟩
    · rw [holds_sweep hok, ← lastCall_isSome, Option.isSome_iff_exists]
      exact ⟨fun ⟨c, hc, _⟩ => ⟨c, hc⟩, fun ⟨c, hc⟩ => ⟨c, hc, h id c hc⟩⟩
    · rw [sweep, othersThan_delete]
      exact othersThan_upsertAll hok (othersThan_mark db)

/-- An upsert of the one container of a server. -/
def oneUpsert (now : Int) : UpsertCall where
  now := now
  serverId := 1
  containerId := bytes "c1"
  name := bytes "plex"
  image := bytes "plex:latest"
  state := bytes "running"
  status := bytes "Up 2 hours"
  created := 0
  portsJson := bytes "[]"
  volumesJson := bytes "[]"
  networksJson := bytes "[]"
  serviceName := []
  dependsOnJson := bytes "[]"
  labelsJson := bytes "\x7b\x7d"
  healthStatus := []
  restartPolicy := []

/-- The container is stored since some time. -/
def withContainer : Db :=
  { Db.fresh [1] with containers := Table.empty.insertRow (oneUpsert 50).row }

theorem oneUpsert_succeeds (now : Int) :
    AllSucceed containersTable.references [oneUpsert now]
      (markContainersStale 1 100 withContainer) := by
  rintro (_ | ⟨b, before⟩) c after heq
  · obtain ⟨rfl, -⟩ := List.cons.inj heq
    rw [DockerTable.upsert_fst, DockerTable.accepts_iff]
    exact .inl ⟨_, List.mem_singleton.2 rfl, rfl, rfl⟩
  · simp at heq

/-- The mark, the upsert and the deletion within one second. -/
theorem sameSecond_not_swept :
    AllSucceed containersTable.references [oneUpsert 100]
        (markContainersStale 1 100 withContainer) ∧
      ¬ Swept containersTable.references 1 100 [oneUpsert 100] withContainer := by
  refine ⟨oneUpsert_succeeds 100, fun h => ?_⟩
  have hleft := (h.left (.ofCStr (bytes "c1"))).2
    ⟨oneUpsert 100, List.mem_singleton.2 rfl, rfl, rfl⟩
  obtain ⟨c, hc, hlater⟩ := (holds_sweep (oneUpsert_succeeds 100)).1 hleft
  obtain rfl : oneUpsert 100 = c := Option.some.inj hc
  exact absurd hlater (by decide)

theorem swept_iff_nextSecond :
    Swept containersTable.references 1 100 [oneUpsert 101] withContainer := by
  refine (swept_iff _ _ _ _ _ (oneUpsert_succeeds 101)).2 fun id c hc => ?_
  have hmem := List.mem_of_find?_eq_some hc
  rw [List.mem_reverse, List.mem_singleton] at hmem
  subst hmem
  decide

end Nazg.Docker
