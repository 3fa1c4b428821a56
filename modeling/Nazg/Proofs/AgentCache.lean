import Nazg.Agent.LocalStore
import Nazg.Lib.Writes

/-!
# What the agent's store lists

Over any sequence of calls the store lists, of each kind, what `store` put there and no later
call replaced or cleaned up. The agent itself only scans: it starts again over the store that it
left, and nothing that a scan has stored ever goes.
-/

namespace Nazg.Agent

open Lib Lib.Sqlite

/-! ## What a column gives back -/

theorem stoll_decimal (i : Int64) : stoll (decimal i.toInt) = some i.toInt :=
  parseInteger_decimal i.le_toInt (Int.le_sub_one_of_lt i.toInt_lt)

theorem intOf_int (i : Int64) : intOf (.int i.toInt) = i := by
  have hne : decimal i.toInt ≠ [] := by
    intro hnil
    have hread := stoll_decimal i
    rw [hnil] at hread
    cases hread
  simp only [intOf, Value.getText, Option.bind_some, if_neg hne, stoll_decimal,
    Option.getD_some, Int64.ofInt_toInt]

namespace CacheKind

/-- An object with each of its texts up to the first NUL. -/
def cut : (k : CacheKind) → k.Object → k.Object
  | containers => fun (c : ContainerRecord) =>
      { id := cstr c.id
        name := cstr c.name
        image := cstr c.image
        state := cstr c.state
        status := cstr c.status
        created := c.created
        serviceName := cstr c.serviceName
        healthStatus := cstr c.healthStatus
        restartPolicy := cstr c.restartPolicy
        labelsJson := cstr c.labelsJson : ContainerRecord }
  | composeFiles => fun (f : ComposeFileInfo) =>
      { path := cstr f.path
        projectName := cstr f.projectName
        servicesJson := cstr f.servicesJson
        fileHash := cstr f.fileHash : ComposeFileInfo }
  | images => fun (i : DockerImageInfo) =>
      { id := cstr i.id
        repository := cstr i.repository
        tag := cstr i.tag
        sizeBytes := i.sizeBytes
        created := i.created : DockerImageInfo }
  | networks => fun (n : DockerNetworkInfo) =>
      { id := cstr n.id
        name := cstr n.name
        driver := cstr n.driver
        scope := cstr n.scope : DockerNetworkInfo }
  | volumes => fun (v : DockerVolumeInfo) =>
      { name := cstr v.name
        driver := cstr v.driver
        mountpoint := cstr v.mountpoint : DockerVolumeInfo }

variable (k : CacheKind)

/-- What the table of the kind has an object under. -/
def key (x : k.Object) : Text := .ofCStr (k.cache.id x)

theorem key_row (t : Int) (x : k.Object) : k.cache.key (k.cache.row t x) = k.key x := by
  cases k <;> rfl

theorem lastSeen_row (t : Int) (x : k.Object) : k.cache.lastSeen (k.cache.row t x) = t := by
  cases k <;> rfl

theorem read_row (t : Int) (x : k.Object) : k.cache.read (k.cache.row t x) = k.cut x := by
  cases k with
  | containers =>
      simp only [cache, containersCache, intOf_int]
      rfl
  | images =>
      simp only [cache, imagesCache, cachedImageRow, intOf_int]
      rfl
  | composeFiles | networks | volumes => rfl

theorem id_read (r : k.Row) : k.cache.id (k.cache.read r) = (k.cache.key r).bytes := by
  cases k <;> rfl

theorem id_cut (x : k.Object) : k.cache.id (k.cut x) = cstr (k.cache.id x) := by
  rw [← read_row k 0 x, id_read, key_row, key, Text.ofCStr_bytes]

end CacheKind

namespace LocalStore

open CacheKind

/-! ## The listings -/

/-- What a call does to the objects of a kind, each with the time of the scan that saw it. -/
def writes (k : CacheKind) : Call → List (Write Text (Int64 × k.Object))
  | .store k' objects scanTime =>
      if h : k' = k then (h ▸ objects).map fun x => .put (k.key x) (scanTime, x) else []
  | .cleanupOldData olderThan => [.drop fun _ seen => seen.1 < olderThan]
  | _ => []

/-- The row of an object that was seen. -/
def rowOf (k : CacheKind) (seen : Int64 × k.Object) : k.Row := k.cache.row seen.1.toInt seen.2

theorem rows_of_puts {k : CacheKind} (objects : List k.Object) (t : Int64)
    (old : Option (Int64 × k.Object)) (key : Text) :
    Write.after ((objects.map (k.cache.row t.toInt)).map fun r => Write.put (k.cache.key r) r)
        (old.map (rowOf k)) key =
      (Write.after (objects.map fun x => Write.put (k.key x) (t, x)) old key).map (rowOf k) := by
  induction objects generalizing old with
  | nil => rfl
  | cons x xs ih =>
      rw [List.map_cons, List.map_cons, List.map_cons, Write.after_cons, Write.after_cons, ← ih,
        key_row]
      congr 1
      simp only [Write.on]
      split <;> rfl

theorem rows_of_drop {k : CacheKind} (older : Int64) (old : Option (Int64 × k.Object))
    (key : Text) :
    (Write.drop fun (_ : Text) r => decide (k.cache.lastSeen r < older.toInt)).on key
        (old.map (rowOf k)) =
      ((Write.drop fun (_ : Text) (seen : Int64 × k.Object) => decide (seen.1 < older)).on key
        old).map (rowOf k) := by
  cases old with
  | none => rfl
  | some seen =>
      have hage : k.cache.lastSeen (rowOf k seen) < older.toInt ↔ seen.1 < older := by
        rw [rowOf, lastSeen_row, Int64.lt_iff_toInt_lt]
      simp only [Write.on, Option.map_some, Option.filter_some, hage]
      split <;> rfl

theorem shows_step {k : CacheKind} {s : LocalStore} {find : Text → Option (Int64 × k.Object)}
    (h : (s.tables k).Shows k.cache.key fun key => (find key).map (rowOf k)) (c : Call) :
    ((s.step c).tables k).Shows k.cache.key fun key =>
      (Write.after (writes k c) (find key) key).map (rowOf k) := by
  cases c with
  | store k' objects t =>
      simp only [step, LocalStore.store, writes]
      by_cases hk : k' = k
      · subst hk
        rw [Function.update_self]
        simp only [dite_true, ← rows_of_puts]
        exact h.replaceAll _
      · rw [Function.update_of_ne (Ne.symm hk)]
        simpa only [hk, dite_false, Write.after_nil] using h
  | cleanupOldData older =>
      simp only [writes, Write.after_cons, Write.after_nil, ← rows_of_drop]
      exact h.deleteWhere _
  | setServerLabel _ => exact h
  | setControlCenterUrl _ => exact h
  | updateLastScanTime _ => exact h
  | recordScan _ _ _ _ _ _ => exact h
  | markScanSent _ _ => exact h

theorem shows_run {k : CacheKind} {s : LocalStore} (find : Text → Option (Int64 × k.Object))
    (h : (s.tables k).Shows k.cache.key fun key => (find key).map (rowOf k)) (calls : List Call) :
    ((Runs.run step s calls).tables k).Shows k.cache.key fun key =>
      (Write.after (calls.flatMap (writes k)) (find key) key).map (rowOf k) := by
  induction calls generalizing s find with
  | nil => exact h
  | cons c calls ih =>
      simp only [Runs.run_cons, List.flatMap_cons, Write.after_append]
      exact ih _ (shows_step h c)

theorem nodup_step {k : CacheKind} {s : LocalStore}
    (h : ((s.tables k).data.map k.cache.key).Nodup) (c : Call) :
    (((s.step c).tables k).data.map k.cache.key).Nodup := by
  cases c with
  | store k' objects t =>
      simp only [step, LocalStore.store]
      by_cases hk : k' = k
      · subst hk
        rw [Function.update_self]
        exact Table.nodup_replaceAll h _
      · rw [Function.update_of_ne (Ne.symm hk)]
        exact h
  | cleanupOldData older => exact Table.nodup_deleteWhere h _
  | setServerLabel _ => exact h
  | setControlCenterUrl _ => exact h
  | updateLastScanTime _ => exact h
  | recordScan _ _ _ _ _ _ => exact h
  | markScanSent _ _ => exact h

theorem nodup_run {k : CacheKind} {s : LocalStore}
    (h : ((s.tables k).data.map k.cache.key).Nodup) (calls : List Call) :
    (((Runs.run step s calls).tables k).data.map k.cache.key).Nodup := by
  induction calls generalizing s with
  | nil => exact h
  | cons c calls ih => exact ih (nodup_step h c)

theorem mem_getCached {k : CacheKind} {o : RowOrder} {calls : List Call} {x : k.Object} :
    x ∈ (Runs.run step fresh calls).getCached k o ↔
      ∃ t y, Write.Stands (calls.flatMap (writes k)) (k.key y) (t, y) ∧ x = k.cut y := by
  have hshows : ((Runs.run step fresh calls).tables k).Shows k.cache.key fun key =>
      (Write.after (calls.flatMap (writes k)) none key).map (rowOf k) :=
    shows_run (fun _ => none) Table.shows_empty calls
  simp only [getCached, List.mem_map, (o.orderBy_perm _ _).mem_iff, hshows _,
    Option.map_eq_some_iff, Write.after_eq_some_iff]
  constructor
  · rintro ⟨_, ⟨⟨t, y⟩, hstands, rfl⟩, rfl⟩
    rw [rowOf, key_row] at hstands
    exact ⟨t, y, hstands, read_row k _ y⟩
  · rintro ⟨t, y, hstands, rfl⟩
    refine ⟨rowOf k (t, y), ⟨(t, y), ?_, rfl⟩, read_row k _ y⟩
    rw [rowOf, key_row]
    exact hstands

theorem nodup_getCached (k : CacheKind) (o : RowOrder) (calls : List Call) :
    (((Runs.run step fresh calls).getCached k o).map k.cache.id).Nodup := by
  have hkeys : (((Runs.run step fresh calls).tables k).data.map k.cache.key).Nodup :=
    nodup_run (s := fresh) List.nodup_nil calls
  have hids : ((Runs.run step fresh calls).getCached k o).map k.cache.id =
      ((o.orderBy k.cache.order ((Runs.run step fresh calls).tables k).data).map
        k.cache.key).map Text.bytes := by
    simp only [getCached, List.map_map]
    exact List.map_congr_left fun r _ => id_read k r
  rw [hids]
  exact (((o.orderBy_perm _ _).map k.cache.key).nodup_iff.2 hkeys).map fun _ _ => Text.ext

/-- The images are kept as `store_images` alone keeps them. -/
theorem tables_storeImages (images : List DockerImageInfo) (scanTime : Int64) (s : LocalStore) :
    (s.storeImages images scanTime).tables .images =
      Agent.storeImages scanTime.toInt images (s.tables .images) := by
  simp only [storeImages, LocalStore.store, Function.update_self]
  rfl

theorem getCachedImages_eq (o : RowOrder) (s : LocalStore) :
    s.getCachedImages o = Agent.getCachedImages o (s.tables .images) := rfl

/-! ## The settings and the history -/

section

variable {α : Type*} (f : Call → Option α)

/-- The last of what calls say of something. -/
def last (calls : List Call) : Option α := (calls.filterMap f).getLast?

theorem last_append_singleton (calls : List Call) (c : Call) :
    last f (calls ++ [c]) = (f c).or (last f calls) := by
  rw [last, List.filterMap_append, List.getLast?_append]
  cases hc : f c <;> simp [hc, last]

/-- A setting that each call that says something of it writes is what the last of them said. -/
theorem find?_config_run {key : Bytes} {g : α → Bytes}
    (hstep : ∀ (s : LocalStore) (c : Call),
      (s.step c).config.find? key = ((f c).map g).or (s.config.find? key))
    (calls : List Call) :
    (Runs.run step fresh calls).config.find? key =
      ((last f calls).map g).or (fresh.config.find? key) := by
  induction calls using List.reverseRecOn with
  | nil => rfl
  | append_singleton calls c ih =>
      rw [Runs.run_append, Runs.run_cons, Runs.run_nil, hstep, ih, last_append_singleton]
      cases f c <;> rfl

end

def labelOf : Call → Option Bytes
  | .setServerLabel label => some label
  | _ => none

def urlOf : Call → Option Bytes
  | .setControlCenterUrl url => some url
  | _ => none

def scanTimeOf : Call → Option Int64
  | .updateLastScanTime timestamp => some timestamp
  | .recordScan timestamp .. => some timestamp
  | _ => none

theorem find?_setConfig_self (s : LocalStore) (key value : Bytes) :
    (s.setConfig key value).config.find? (cstr key) = some (cstr value) := by
  rw [setConfig, OrdMap.find?_insert, if_pos rfl]

theorem find?_setConfig_of_ne (s : LocalStore) {key k : Bytes} (value : Bytes)
    (hne : cstr k ≠ cstr key) :
    (s.setConfig key value).config.find? (cstr k) = s.config.find? (cstr k) := by
  rw [setConfig, OrdMap.find?_insert, if_neg hne]

theorem label_step (s : LocalStore) (c : Call) :
    (s.step c).config.find? (cstr (bytes "server_label")) =
      ((labelOf c).map cstr).or (s.config.find? (cstr (bytes "server_label"))) := by
  have hurl : cstr (bytes "server_label") ≠ cstr (bytes "control_center_url") := by decide
  have hscan : cstr (bytes "server_label") ≠ cstr (bytes "last_scan") := by decide
  cases c with
  | setServerLabel label => exact find?_setConfig_self s _ label
  | setControlCenterUrl url => exact find?_setConfig_of_ne s url hurl
  | updateLastScanTime t => exact find?_setConfig_of_ne s _ hscan
  | recordScan t _ _ _ _ _ => exact find?_setConfig_of_ne _ _ hscan
  | store | cleanupOldData | markScanSent => rfl

theorem url_step (s : LocalStore) (c : Call) :
    (s.step c).config.find? (cstr (bytes "control_center_url")) =
      ((urlOf c).map cstr).or (s.config.find? (cstr (bytes "control_center_url"))) := by
  have hlabel : cstr (bytes "control_center_url") ≠ cstr (bytes "server_label") := by decide
  have hscan : cstr (bytes "control_center_url") ≠ cstr (bytes "last_scan") := by decide
  cases c with
  | setServerLabel label => exact find?_setConfig_of_ne s label hlabel
  | setControlCenterUrl url => exact find?_setConfig_self s _ url
  | updateLastScanTime t => exact find?_setConfig_of_ne s _ hscan
  | recordScan t _ _ _ _ _ => exact find?_setConfig_of_ne _ _ hscan
  | store | cleanupOldData | markScanSent => rfl

theorem scanTime_step (s : LocalStore) (c : Call) :
    (s.step c).config.find? (cstr (bytes "last_scan")) =
      ((scanTimeOf c).map fun t => cstr (decimal t.toInt)).or
        (s.config.find? (cstr (bytes "last_scan"))) := by
  have hlabel : cstr (bytes "last_scan") ≠ cstr (bytes "server_label") := by decide
  have hurl : cstr (bytes "last_scan") ≠ cstr (bytes "control_center_url") := by decide
  cases c with
  | setServerLabel label => exact find?_setConfig_of_ne s label hlabel
  | setControlCenterUrl url => exact find?_setConfig_of_ne s url hurl
  | updateLastScanTime t => exact find?_setConfig_self s _ _
  | recordScan t _ _ _ _ _ => exact find?_setConfig_self _ _ _
  | store | cleanupOldData | markScanSent => rfl

theorem getServerLabel_run (calls : List Call) :
    (Runs.run step fresh calls).getServerLabel =
      ((last labelOf calls).map cstr).getD (bytes "unknown") := by
  rw [getServerLabel, getConfig, find?_config_run labelOf label_step calls]
  cases last labelOf calls <;> rfl

theorem getControlCenterUrl_run (calls : List Call) :
    (Runs.run step fresh calls).getControlCenterUrl = ((last urlOf calls).map cstr).getD [] := by
  rw [getControlCenterUrl, getConfig, find?_config_run urlOf url_step calls]
  cases last urlOf calls <;> rfl

theorem getLastScanTime_run (calls : List Call) :
    (Runs.run step fresh calls).getLastScanTime = some ((last scanTimeOf calls).getD 0) := by
  rw [getLastScanTime, getConfig, find?_config_run scanTimeOf scanTime_step calls]
  cases last scanTimeOf calls with
  | none => decide
  | some t =>
      have hcstr : cstr (decimal t.toInt) = decimal t.toInt :=
        cstr_eq_self.2 fun h => absurd (lt_of_mem_decimal h) (by decide)
      simp only [Option.map_some, Option.some_or, Option.getD_some, hcstr, stoll_decimal,
        Int64.ofInt_toInt]

/-- What `record_scan` says of a scan. -/
def recordOf : Call → Option ScanRow
  | .recordScan timestamp nContainers nImages nNetworks nVolumes nComposeFiles =>
      some
        { scanTimestamp := timestamp.toInt
          containersCount := nContainers.toInt
          imagesCount := nImages.toInt
          networksCount := nNetworks.toInt
          volumesCount := nVolumes.toInt
          composeFilesCount := nComposeFiles.toInt }
  | _ => none

/-- A scan without the mark that it was sent. -/
def unmarked (r : ScanRow) : ScanRow := { r with sentToControl := false, sentAt := none }

theorem scanHistory_step (s : LocalStore) (c : Call) :
    (s.step c).scanHistory.data.map unmarked =
      s.scanHistory.data.map unmarked ++ (recordOf c).toList := by
  cases c with
  | recordScan t _ _ _ _ _ =>
      simp only [step, recordScan, updateLastScanTime, setConfig, Table.data_insertRow,
        List.map_append]
      rfl
  | markScanSent now scanId =>
      simp only [step, markScanSent, Table.data, Table.updateRow, List.map_map, recordOf,
        Option.toList_none, List.append_nil]
      refine List.map_congr_left fun x _ => ?_
      simp only [Function.comp]
      split <;> rfl
  | setServerLabel | setControlCenterUrl | updateLastScanTime | store | cleanupOldData =>
      exact (List.append_nil _).symm

theorem scanHistory_run (calls : List Call) :
    (Runs.run step fresh calls).scanHistory.data.map unmarked = calls.filterMap recordOf := by
  induction calls using List.reverseRecOn with
  | nil => rfl
  | append_singleton calls c ih =>
      rw [Runs.run_append, Runs.run_cons, Runs.run_nil, scanHistory_step, ih,
        List.filterMap_append]
      cases hc : recordOf c <;> simp [hc]

/-! ## Every run of calls -/

/-- Of each kind the store lists, once each, the objects that a call stored and that no later one
stored again or cleaned up, with their texts up to the first NUL. The settings are those that
were last set, and each recorded scan is in the history. -/
theorem store_run (calls : List Call) :
    let s := Runs.run step fresh calls
    (∀ k o, (∀ x, x ∈ s.getCached k o ↔
        ∃ t y, Write.Stands (calls.flatMap (writes k)) (k.key y) (t, y) ∧ x = k.cut y) ∧
      ((s.getCached k o).map k.cache.id).Nodup) ∧
    s.getServerLabel = ((last labelOf calls).map cstr).getD (bytes "unknown") ∧
    s.getControlCenterUrl = ((last urlOf calls).map cstr).getD [] ∧
    s.getLastScanTime = some ((last scanTimeOf calls).getD 0) ∧
    s.scanHistory.data.map unmarked = calls.filterMap recordOf :=
  ⟨fun k o => ⟨fun _ => mem_getCached, nodup_getCached k o calls⟩, getServerLabel_run calls,
    getControlCenterUrl_run calls, getLastScanTime_run calls, scanHistory_run calls⟩

end LocalStore

/-!
## The agent

It is started again over the store that it left, and scans between.
-/

namespace Runtime

open LocalStore

inductive Event where
  | start (serverLabel : Bytes)
  | scan (available : Bool) (now : Int64) (found : Found) (thrown : Option CacheKind)

/-- Before it is started for the first time there is no store, and it scans nothing. -/
def onEvent (s : Option LocalStore) : Event → Option LocalStore
  | .start serverLabel => some (initDatabase serverLabel s)
  | .scan available now found thrown => s.map (performDockerScan available now found thrown)

def Found.listing (found : Found) : (k : CacheKind) → List k.Object
  | .containers => found.containers
  | .images => found.images
  | .networks => found.networks
  | .volumes => found.volumes
  | .composeFiles => found.composeFiles

/-- The objects of a kind that an event got to see, each with the time. -/
def saw (k : CacheKind) : Event → List (Int64 × k.Object)
  | .start _ => []
  | .scan available now found thrown =>
      if available ∧ ∀ k', thrown = some k' → place k < place k' then
        (found.listing k).map fun x => (now, x)
      else []

/-- The calls that an event makes. -/
def callsOf : Event → List Call
  | .start serverLabel => [.setServerLabel serverLabel]
  | .scan available now found thrown =>
      if available then
        match thrown with
        | none => scanCalls now found
        | some k => (scanCalls now found).take (place k)
      else []

theorem onEvent_some (s : LocalStore) (e : Event) :
    onEvent (some s) e = some (Runs.run LocalStore.step s (callsOf e)) := by
  cases e with
  | start serverLabel => rfl
  | scan available now found thrown =>
      cases available with
      | false => rfl
      | true => cases thrown <;> rfl

theorem run_onEvent (s : LocalStore) (events : List Event) :
    Runs.run onEvent (some s) events =
      some (Runs.run LocalStore.step s (events.flatMap callsOf)) := by
  induction events generalizing s with
  | nil => rfl
  | cons e events ih =>
      rw [Runs.run_cons, onEvent_some, ih, List.flatMap_cons, Runs.run_append]

theorem writes_scanCalls (k : CacheKind) (now : Int64) (found : Found) :
    (scanCalls now found).flatMap (writes k) =
      (found.listing k).map fun x => .put (k.key x) (now, x) := by
  cases k <;> simp [scanCalls, writes, Found.listing]

/-- What a scan got to before the listing of a kind threw. -/
theorem writes_take (k : CacheKind) (now : Int64) (found : Found) (thrown : CacheKind) :
    ((scanCalls now found).take (place thrown)).flatMap (writes k) =
      if place k < place thrown then (found.listing k).map fun x => .put (k.key x) (now, x)
      else [] := by
  cases thrown <;> cases k <;> simp [scanCalls, writes, place, Found.listing]

theorem writes_callsOf (k : CacheKind) (e : Event) :
    (callsOf e).flatMap (writes k) = (saw k e).map fun seen => .put (k.key seen.2) seen := by
  cases e with
  | start serverLabel => rfl
  | scan available now found thrown =>
      cases available with
      | false => rfl
      | true =>
          cases thrown with
          | none => simp [callsOf, saw, writes_scanCalls, Function.comp_def]
          | some k' =>
              simp only [callsOf, saw, if_true, writes_take, true_and, Option.some.injEq,
                forall_eq']
              split <;> simp [Function.comp_def]

/-- The time of a scan that went through. -/
def finished : Event → Option Int64
  | .start _ => none
  | .scan available now _ thrown => if available ∧ thrown = none then some now else none

theorem scanTimes_callsOf (e : Event) : (callsOf e).filterMap scanTimeOf = (finished e).toList := by
  cases e with
  | start serverLabel => rfl
  | scan available now found thrown =>
      cases available with
      | false => rfl
      | true =>
          cases thrown with
          | none => rfl
          | some k => cases k <;> simp [callsOf, finished, scanCalls, scanTimeOf, place]

theorem puts_flatMap (k : CacheKind) (events : List Event) :
    (events.flatMap callsOf).flatMap (writes k) =
      (events.flatMap (saw k)).map fun seen => .put (k.key seen.2) seen := by
  simp only [List.flatMap_assoc, writes_callsOf, List.map_flatMap]

theorem last_flatMap (events : List Event) :
    last scanTimeOf (events.flatMap callsOf) = (events.filterMap finished).getLast? := by
  have hcalls : (events.flatMap callsOf).filterMap scanTimeOf = events.filterMap finished := by
    induction events with
    | nil => rfl
    | cons e events ih =>
        rw [List.flatMap_cons, List.filterMap_append, scanTimes_callsOf, ih]
        cases he : finished e <;> simp [he]
  rw [last, hcalls]

/-- An agent that was started lists an object for every id that any of its scans has ever seen,
whether or not it is still there: the last one seen under the id, with its texts up to the first
NUL. -/
theorem agent_run (serverLabel : Bytes) (events : List Event) :
    ∃ s, Runs.run onEvent none (.start serverLabel :: events) = some s ∧
      (∀ k o, (∀ x, x ∈ s.getCached k o ↔
          ∃ seen, Write.Stands ((events.flatMap (saw k)).map fun seen => .put (k.key seen.2) seen)
              (k.key seen.2) seen ∧ x = k.cut seen.2) ∧
        ∀ id, id ∈ (s.getCached k o).map k.cache.id ↔
          ∃ seen ∈ events.flatMap (saw k), id = cstr (k.cache.id seen.2)) ∧
      s.getLastScanTime = some ((events.filterMap finished).getLast?.getD 0) := by
  have hrun : Runs.run onEvent none (.start serverLabel :: events) =
      some (Runs.run LocalStore.step fresh ((.start serverLabel :: events).flatMap callsOf)) :=
    run_onEvent (fresh.setServerLabel serverLabel) events
  refine ⟨_, hrun, fun k o => ?_, ?_⟩
  · have hlisted : ∀ x, x ∈ (Runs.run LocalStore.step fresh
        ((Event.start serverLabel :: events).flatMap callsOf)).getCached k o ↔
          ∃ seen, Write.Stands ((events.flatMap (saw k)).map fun seen => .put (k.key seen.2) seen)
            (k.key seen.2) seen ∧ x = k.cut seen.2 := by
      intro x
      rw [mem_getCached, puts_flatMap]
      exact ⟨fun ⟨t, y, h⟩ => ⟨(t, y), h⟩, fun ⟨seen, h⟩ => ⟨seen.1, seen.2, h⟩⟩
    refine ⟨hlisted, fun id => ?_⟩
    simp only [List.mem_map, hlisted]
    constructor
    · rintro ⟨_, ⟨seen, hstands, rfl⟩, rfl⟩
      exact ⟨seen, hstands.of_puts.1, k.id_cut seen.2⟩
    · rintro ⟨seen, hmem, rfl⟩
      obtain ⟨seen', hstands⟩ :=
        Write.exists_stands (fun s : Int64 × k.Object => k.key s.2) hmem
      have hkey : k.key seen'.2 = k.key seen.2 := hstands.of_puts.2
      refine ⟨_, ⟨seen', hkey ▸ hstands, rfl⟩, ?_⟩
      rw [CacheKind.id_cut]
      exact congrArg Text.bytes hkey
  · rw [getLastScanTime_run, ← last_flatMap]
    rfl

end Runtime

end Nazg.Agent
