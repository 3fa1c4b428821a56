import Nazg.Git.Sync

/-!
# What the records of a sync say

A migration is begun without a project, and the reference that is left out is refused: no
record is written, so none ever says how its repository went. If the records were there, all
would end in the same way, and be right only if all repositories went in the same way.
-/

namespace Nazg.Git

open Lib Lib.Sqlite Nexus

/-- How a migration is to end. -/
def endStatus (transfers : List Transfer) (i : Nat) : Bytes :=
  if transfers[i]? = some .done then bytes "completed" else bytes "failed"

/-- Each repository has a row of this run, and it says how the repository went. -/
def RecordsTrue (before after : Tables) (repos : List LocalRepoInfo) (transfers : List Transfer) :
    Prop :=
  ∀ i repo, repos[i]? = some repo → ∃ id row, id ∉ (before .repoMigrations).ids ∧
    (after .repoMigrations).get? id = some row ∧ row "repo_name" = bindText repo.name ∧
      row "status" = bindText (endStatus transfers i)

/-! ## No record is begun -/

theorem addRepoMigration_of_zero (now : Int) (tables : Tables) {record : RepoMigrationRecord}
    (h : record.projectId = 0) : addRepoMigration now tables record = none := by
  rw [addRepoMigration, insertInto, if_neg]
  intro hall
  have hproject := List.all_eq_true.1 hall (reference "project_id" .projects) (by simp [schema])
  rw [if_neg (not_not.2 h)] at hproject
  have hrefs : (bindText []).toInteger.references (tables .projects).ids = true :=
    (Bool.and_eq_true_iff.1 hproject).2
  rw [references_empty] at hrefs
  cases hrefs

theorem recordMigrationStart_zero (c : TokenContext) (host : SyncHost) (i : Nat)
    (serverLabel : Bytes) (repo : LocalRepoInfo) (sourcePath : Bytes) (tables : Tables) :
    MigrationPlanner.recordMigrationStart c host i serverLabel repo sourcePath 0 tables =
      (0, tables) := by
  rw [MigrationPlanner.recordMigrationStart]
  split
  · rfl
  · simp only [addRepoMigration_of_zero]
    split
    · rfl
    · rfl

theorem startAll_eq (c : TokenContext) (host : SyncHost) (serverLabel sourcePath : Bytes) (i : Nat)
    (repos : List LocalRepoInfo) (tables : Tables) :
    Sync.startAll c host serverLabel sourcePath i repos tables =
      (List.replicate repos.length 0, tables) := by
  induction repos generalizing i with
  | nil => rfl
  | cons repo repos ih =>
      rw [Sync.startAll, recordMigrationStart_zero]
      simp only [ih]
      rfl

theorem markAll_zero {mark : Nat → Int → Tables → Tables} (h : ∀ i tables, mark i 0 tables = tables)
    (i n : Nat) (tables : Tables) : Sync.markAll mark i (List.replicate n 0) tables = tables := by
  induction n generalizing i with
  | zero => rfl
  | succ n ih => rw [List.replicate_succ, Sync.markAll, h, ih]

/-- A sync leaves all tables as they were. -/
theorem tables_run (c : TokenContext) (host : SyncHost) (cfg : ServerConfig)
    (serverLabel sourcePath : Bytes) (repos : List LocalRepoInfo) (tables : Tables) :
    (Sync.run c host cfg serverLabel sourcePath repos tables).2.2 = tables := by
  rw [Sync.run]
  split
  · rfl
  · simp only [startAll_eq]
    rw [Sync.finishAll.eq_def]
    split
    · exact markAll_zero (fun _ _ => rfl) _ _ _
    · exact markAll_zero (fun _ _ => rfl) _ _ _
    · exact markAll_zero (fun _ _ => rfl) _ _ _

/-! ## If they were there -/

/-- Each of the rows says how its repository went. -/
def StatusesTrue (after : Tables) (ids : List Int) (transfers : List Transfer) : Prop :=
  ∀ i id, ids[i]? = some id → ∃ row, (after .repoMigrations).get? id = some row ∧
    row "status" = bindText (endStatus transfers i)

/-- The columns that are set to end a migration are subject to nothing. -/
def Unconstrained (params : List (String × Bytes)) : Prop :=
  ((schema .repoMigrations).all fun c =>
    !(params.lookup c.name).isSome || (!c.notNull && c.references.isNone)) = true

theorem get?_update {params : List (String × Bytes)} (hparams : Unconstrained params) {id : Int}
    {tables : Tables} {row : Row} (h : (tables .repoMigrations).get? id = some row) (j : Int) :
    ((MigrationPlanner.update true id params tables) .repoMigrations).get? j =
      if j = id then some (setRow (schema .repoMigrations) params row)
      else (tables .repoMigrations).get? j := by
  have haccepts : ((schema .repoMigrations).all fun c => !(params.lookup c.name).isSome ||
      c.accepts tables (setRow (schema .repoMigrations) params row)) = true := by
    rw [List.all_eq_true]
    intro c hc
    rcases Bool.or_eq_true_iff.1 (List.all_eq_true.1 hparams c hc) with hset | hfree
    · rw [hset, Bool.true_or]
    · rw [Bool.and_eq_true, Bool.not_eq_true', Option.isNone_iff_eq_none] at hfree
      simp [Column.accepts, hfree.1, hfree.2]
  have hupdate : MigrationPlanner.update true id params tables = Function.update tables
      .repoMigrations ((tables .repoMigrations).setRow id
        (setRow (schema .repoMigrations) params row)) := by
    simp only [MigrationPlanner.update, updateById, h, if_pos haccepts, if_true, Option.getD_some]
  rw [hupdate, Function.update_self]
  split
  · next hj => rw [hj, Table.get?_setRow h]
  · next hj => rw [Table.get?_setRow_ne _ _ hj]

/-- A list of marks reaches every row of its list and no other. -/
theorem markAll_status {mark : Nat → Int → Tables → Tables} {params : List (String × Bytes)}
    {status : Bytes} (hparams : Unconstrained params)
    (hstatus : ∀ row, setRow (schema .repoMigrations) params row "status" = bindText status)
    (hmark : ∀ i id tables, id ≠ 0 → mark i id tables = MigrationPlanner.update true id params tables)
    {ids : List Int} (hzero : (0 : Int) ∉ ids) (hnodup : ids.Nodup) (i : Nat) {tables : Tables}
    (hrows : ∀ id ∈ ids, ∃ row, (tables .repoMigrations).get? id = some row) :
    (∀ id ∈ ids, ∃ row, ((Sync.markAll mark i ids tables) .repoMigrations).get? id = some row ∧
      row "status" = bindText status) ∧
    ∀ j ∉ ids, ((Sync.markAll mark i ids tables) .repoMigrations).get? j =
      (tables .repoMigrations).get? j := by
  induction ids generalizing i tables with
  | nil => exact ⟨fun id hid => absurd hid List.not_mem_nil, fun _ _ => rfl⟩
  | cons id ids ih =>
      obtain ⟨hne, hzero⟩ : (0 : Int) ≠ id ∧ (0 : Int) ∉ ids := by simpa using hzero
      obtain ⟨hnew, hnodup⟩ := List.nodup_cons.1 hnodup
      obtain ⟨row, hrow⟩ := hrows id List.mem_cons_self
      have hget := get?_update hparams hrow
      have hrest : ∀ j ∈ ids, ∃ row,
          ((mark i id tables) .repoMigrations).get? j = some row := by
        intro j hj
        have hother : j ≠ id := by
          rintro rfl
          exact hnew hj
        rw [hmark i id tables (Ne.symm hne), hget, if_neg hother]
        exact hrows j (List.mem_cons_of_mem _ hj)
      obtain ⟨hlater, hkept⟩ := ih hzero hnodup (i + 1) hrest
      rw [Sync.markAll]
      refine ⟨?_, ?_⟩
      · intro j hj
        rcases List.mem_cons.1 hj with rfl | hj
        · refine ⟨_, ?_, hstatus row⟩
          rw [hkept j hnew, hmark i j tables (Ne.symm hne), hget, if_pos rfl]
        · exact hlater j hj
      · intro j hj
        rw [List.mem_cons, not_or] at hj
        rw [hkept j hj.2, hmark i id tables (Ne.symm hne), hget, if_neg hj.1]

/-- All the migrations end in the same way. -/
theorem finishAll_status {host : SyncHost} (hupdates : ∀ i, host.updates i = true)
    (result : Option Bool) {ids : List Int} (hzero : (0 : Int) ∉ ids) (hnodup : ids.Nodup)
    {tables : Tables} (hrows : ∀ id ∈ ids, ∃ row, (tables .repoMigrations).get? id = some row) :
    ∀ id ∈ ids, ∃ row,
      ((Sync.finishAll host result ids tables) .repoMigrations).get? id = some row ∧
        row "status" =
          bindText (if result = some true then bytes "completed" else bytes "failed") := by
  have hfailure : ∀ error i id tables, id ≠ 0 →
      MigrationPlanner.recordMigrationFailure host error i id tables = MigrationPlanner.update true
        id [("status", bytes "failed"), ("error_message", error)] tables := by
    intro error i id tables hid
    rw [MigrationPlanner.recordMigrationFailure, if_neg hid, hupdates]
  have hsuccess : ∀ i id tables, id ≠ 0 →
      MigrationPlanner.recordMigrationSuccess host i id tables = MigrationPlanner.update true
        id [("completed_at", decimal host.now), ("status", bytes "completed")] tables := by
    intro i id tables hid
    rw [MigrationPlanner.recordMigrationSuccess, if_neg hid, hupdates]
  have hfailed : ∀ error, Unconstrained [("status", bytes "failed"), ("error_message", error)] :=
    fun _ => rfl
  have hcompleted :
      Unconstrained [("completed_at", decimal host.now), ("status", bytes "completed")] := rfl
  rcases result with - | - | -
  · exact (markAll_status (hfailed host.what) (fun _ => rfl) (hfailure host.what) hzero hnodup 0
      hrows).1
  · exact (markAll_status (hfailed (bytes "sync failed")) (fun _ => rfl)
      (hfailure (bytes "sync failed")) hzero hnodup 0 hrows).1
  · exact (markAll_status hcompleted (fun _ => rfl) hsuccess hzero hnodup 0 hrows).1

/-! ## All or none -/

theorem length_cgit (host : SyncHost) (cfg : ServerConfig) (i : Nat) (paths : List Bytes) :
    (CgitServer.syncEach host cfg i paths).length = paths.length := by
  induction paths generalizing i with
  | nil => rfl
  | cons path paths ih => rw [CgitServer.syncEach, List.length_cons, ih, List.length_cons]

theorem length_gitea_le (host : SyncHost) (i : Nat) (paths : List Bytes) :
    (GiteaServer.syncEach host i paths).length ≤ paths.length := by
  induction paths generalizing i with
  | nil => exact le_refl 0
  | cons path paths ih =>
      simp only [GiteaServer.syncEach, List.length_cons]
      split
      · simp
      · exact Nat.succ_le_succ (ih (i + 1))

theorem length_gitea {host : SyncHost} {i : Nat} {paths : List Bytes}
    (h : .thrown ∉ GiteaServer.syncEach host i paths) :
    (GiteaServer.syncEach host i paths).length = paths.length := by
  induction paths generalizing i with
  | nil => rfl
  | cons path paths ih =>
      rw [GiteaServer.syncEach] at h ⊢
      rw [List.mem_cons, not_or] at h
      have hne : ¬ GiteaServer.syncRepo host i path = .thrown := Ne.symm h.1
      simp only [if_neg hne] at h ⊢
      rw [List.length_cons, ih h.2, List.length_cons]

/-- The server says that it went well exactly if every repository was sent, and cgit could be
configured. -/
theorem syncRepos_iff {host : SyncHost} {cfg : ServerConfig} {paths : List Bytes}
    (hpaths : paths ≠ []) (server : ServerType) : server.syncRepos host cfg paths = some true ↔
      (∀ i < paths.length, (server.transfers host cfg paths)[i]? = some .done) ∧
        (server = .cgit → host.configureThrows = false) := by
  have hall : ∀ {transfers : List Transfer}, transfers.length = paths.length →
      (transfers.all (· = .done) = true ↔
        ∀ i < paths.length, transfers[i]? = some .done) := by
    intro transfers hlen
    rw [List.all_eq_true, ← hlen]
    constructor
    · intro h i hi
      rw [List.getElem?_eq_getElem hi, of_decide_eq_true (h _ (List.getElem_mem hi))]
    · intro h t ht
      obtain ⟨i, hi, rfl⟩ := List.getElem_of_mem ht
      have hdone := h i hi
      rw [List.getElem?_eq_getElem hi] at hdone
      exact decide_eq_true (Option.some.inj hdone)
  have hpos := List.length_pos_iff.2 hpaths
  cases server with
  | cgit =>
      have htransfers : ServerType.cgit.transfers host cfg paths =
          CgitServer.syncEach host cfg 0 paths := rfl
      rw [htransfers, ← hall (length_cgit host cfg 0 paths)]
      simp only [ServerType.syncRepos, htransfers]
      cases (CgitServer.syncEach host cfg 0 paths).all (· = .done) with
      | false => simp
      | true => cases host.configureThrows <;> simp
  | gitea =>
      by_cases hapi : host.api = true
      · have htransfers : ServerType.gitea.transfers host cfg paths =
            GiteaServer.syncEach host 0 paths := if_pos hapi
        by_cases hthrown : .thrown ∈ GiteaServer.syncEach host 0 paths
        · rw [htransfers]
          simp only [ServerType.syncRepos, htransfers, if_pos hthrown, hapi]
          constructor
          · intro h
            simp at h
          · intro h
            obtain ⟨i, hi, heq⟩ := List.getElem_of_mem hthrown
            have hdone := h.1 i (hi.trans_le (length_gitea_le host 0 paths))
            rw [List.getElem?_eq_getElem hi, heq] at hdone
            cases hdone
        · rw [htransfers, ← hall (length_gitea hthrown)]
          simp [ServerType.syncRepos, htransfers, hapi, hthrown]
      · have htransfers : ServerType.gitea.transfers host cfg paths = [] := if_neg hapi
        rw [htransfers]
        simp only [ServerType.syncRepos, if_pos hapi, List.getElem?_nil]
        constructor
        · intro h
          cases h
        · intro h
          cases h.1 0 hpos

/-- The rows, if they were there, say how each repository went exactly if all were sent, and
cgit could be configured, or none was. -/
theorem statusesTrue_iff {host : SyncHost} (hupdates : ∀ i, host.updates i = true)
    {cfg : ServerConfig} (server : ServerType) {paths : List Bytes} (hpaths : paths ≠ [])
    {ids : List Int} (hids : ids.length = paths.length) (hzero : (0 : Int) ∉ ids)
    (hnodup : ids.Nodup) {tables : Tables}
    (hrows : ∀ id ∈ ids, ∃ row, (tables .repoMigrations).get? id = some row) :
    StatusesTrue (Sync.finishAll host (server.syncRepos host cfg paths) ids tables) ids
      (server.transfers host cfg paths) ↔
      ((∀ i < paths.length, (server.transfers host cfg paths)[i]? = some .done) ∧
        (server = .cgit → host.configureThrows = false)) ∨
      ∀ i < paths.length, (server.transfers host cfg paths)[i]? ≠ some .done := by
  have hresult := @syncRepos_iff host cfg paths hpaths server
  have hfinish := finishAll_status hupdates (server.syncRepos host cfg paths) hzero hnodup hrows
  have hne : bindText (bytes "completed") ≠ bindText (bytes "failed") := by decide
  have hpos := List.length_pos_iff.2 hpaths
  have hstatus : StatusesTrue (Sync.finishAll host (server.syncRepos host cfg paths) ids tables) ids
      (server.transfers host cfg paths) ↔ ∀ i < paths.length,
        ((server.transfers host cfg paths)[i]? = some .done ↔
          server.syncRepos host cfg paths = some true) := by
    constructor
    · intro h i hi
      have hid : ids[i]? = some ids[i] := List.getElem?_eq_getElem (hids ▸ hi)
      obtain ⟨row, hrow, hends⟩ := h i _ hid
      obtain ⟨row', hrow', hends'⟩ := hfinish _ (List.getElem_mem (hids ▸ hi))
      rw [hrow] at hrow'
      cases hrow'
      rw [hends, endStatus] at hends'
      constructor
      · intro hdone
        by_contra hnot
        rw [if_pos hdone, if_neg hnot] at hends'
        exact hne hends'
      · intro hok
        by_contra hnot
        rw [if_neg hnot, if_pos hok] at hends'
        exact hne hends'.symm
    · intro h i id hid
      obtain ⟨hi, rfl⟩ := List.getElem?_eq_some_iff.1 hid
      obtain ⟨row, hrow, hends⟩ := hfinish _ (List.getElem_mem hi)
      refine ⟨row, hrow, ?_⟩
      rw [hends, endStatus]
      by_cases hdone : (server.transfers host cfg paths)[i]? = some .done
      · rw [if_pos hdone, if_pos ((h i (hids ▸ hi)).1 hdone)]
      · rw [if_neg hdone, if_neg fun hok => hdone ((h i (hids ▸ hi)).2 hok)]
  rw [hstatus]
  constructor
  · intro h
    by_cases hok : server.syncRepos host cfg paths = some true
    · exact .inl (hresult.1 hok)
    · refine .inr ?_
      intro i hi hdone
      exact hok ((h i hi).1 hdone)
  · rintro (hall | hnone) i hi
    · exact iff_of_true (hall.1 i hi) (hresult.2 hall)
    · refine iff_of_false (hnone i hi) ?_
      intro hok
      exact hnone 0 hpos ((hresult.1 hok).1 0 hpos)

/-- After a sync no repository has a row that says how it went. If the rows were there, all
would say the same, which is right exactly if all repositories were sent, and cgit could be
configured, or none was. -/
theorem sync_records {c : TokenContext} {host : SyncHost} {cfg : ServerConfig}
    {serverLabel sourcePath : Bytes} {repos : List LocalRepoInfo} (hrepos : repos ≠ [])
    (tables : Tables) :
    ¬ RecordsTrue tables (Sync.run c host cfg serverLabel sourcePath repos tables).2.2 repos
      (Sync.run c host cfg serverLabel sourcePath repos tables).2.1 ∧
    ∀ (server : ServerType) (paths : List Bytes) (ids : List Int),
      paths = repos.map (fun repo => joinPath sourcePath repo.name) → ids.length = repos.length →
      (0 : Int) ∉ ids → ids.Nodup → (∀ i, host.updates i = true) →
      (∀ id ∈ ids, ∃ row, (tables .repoMigrations).get? id = some row) →
        (StatusesTrue (Sync.finishAll host (server.syncRepos host cfg paths) ids tables) ids
          (server.transfers host cfg paths) ↔
        ((∀ i < repos.length, (server.transfers host cfg paths)[i]? = some .done) ∧
          (server = .cgit → host.configureThrows = false)) ∨
        ∀ i < repos.length, (server.transfers host cfg paths)[i]? ≠ some .done) := by
  refine ⟨?_, ?_⟩
  · intro h
    obtain ⟨repo, rest, rfl⟩ := List.exists_cons_of_ne_nil hrepos
    obtain ⟨id, row, hnew, hget, -⟩ := h 0 repo rfl
    rw [tables_run] at hget
    obtain ⟨x, hx, -⟩ := Option.map_eq_some_iff.1 hget
    have hid : x.1 = id := by simpa using List.find?_some hx
    exact hnew (List.mem_map.2 ⟨x, List.mem_of_find?_eq_some hx, hid⟩)
  · rintro server paths ids rfl hids hzero hnodup hupdates hrows
    have hpaths : (repos.map fun repo => joinPath sourcePath repo.name) ≠ [] := by simpa using hrepos
    have hlen : ids.length = (repos.map fun repo => joinPath sourcePath repo.name).length := by
      simpa using hids
    have hiff := @statusesTrue_iff host hupdates cfg server _ hpaths ids hlen hzero hnodup tables hrows
    rwa [List.length_map] at hiff

/-! ## Two repositories -/

def twoRepos : List LocalRepoInfo := [{ name := bytes "a.git" }, { name := bytes "b.git" }]

/-- A registered cgit server. -/
def labConfig : ServerConfig := { type := bytes "cgit", host := bytes "10.0.0.4" }

def labContext : TokenContext := ⟨sampleEvp, bytes "secret", toHex sampleSalt⟩

def labTables : Tables :=
  Function.update (fun _ => .empty) .gitServers
    (upsertGitServer labContext 1690000000 none
      { label := bytes "lab", type := bytes "cgit", host := bytes "10.0.0.4" } .empty)

/-- Everything succeeds but the second command. -/
def secondFails : SyncHost where
  now := 1700000000
  lookups := fun _ => true
  inserts := fun _ => true
  updates := fun _ => true
  system := fun i _ => if i = 1 then 23 else 0
  api := false
  getRepo := fun _ _ => none
  createRepo := fun _ _ => none
  configureThrows := false
  what := []

theorem sync_records_lab :
    ¬ RecordsTrue labTables (Sync.run labContext secondFails labConfig (bytes "lab")
        (bytes "/srv/git") twoRepos labTables).2.2 twoRepos
      (Sync.run labContext secondFails labConfig (bytes "lab") (bytes "/srv/git") twoRepos
        labTables).2.1 :=
  (sync_records (by decide) labTables).1

/-- One repository arrives and the other does not, and there is a record of neither. -/
theorem lab_not_recorded :
    (Sync.run labContext secondFails labConfig (bytes "lab") (bytes "/srv/git") twoRepos
      labTables).2.1 = [.done, .failed] ∧
    ((Sync.run labContext secondFails labConfig (bytes "lab") (bytes "/srv/git") twoRepos
      labTables).2.2 .repoMigrations).rows = [] ∧
    ¬ RecordsTrue labTables (Sync.run labContext secondFails labConfig (bytes "lab")
        (bytes "/srv/git") twoRepos labTables).2.2 twoRepos
      (Sync.run labContext secondFails labConfig (bytes "lab") (bytes "/srv/git") twoRepos
        labTables).2.1 := by
  refine ⟨by decide +kernel, ?_, ?_⟩
  · rw [tables_run]
    rfl
  · rw [tables_run]
    intro h
    obtain ⟨id, row, -, hget, -⟩ := h 0 _ rfl
    cases hget

end Nazg.Git
