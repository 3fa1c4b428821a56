import Nazg.Docker.Stacks
import Nazg.Proofs.ScanStore

/-!
# Whose files a stack links

`create_stack_from_compose` registers a file under its server and then links whatever
row `add_compose_to_stack` finds under the path, which may be another server's. So what
is linked depends on the rows of all servers: as long as no other server has a row with
the path of a file that is opened, every link leads to a file of the stack's own server
(`linked_own`), and two servers with one path between them are enough to cross over
(`links_cross`).

One turn of the loop is described once (`addFile_spec`): it grows the database, and it
either leaves the links alone or ends in `add_compose_to_stack`. The ids of
`compose_files` are never reused and no statement changes a row's server or path, so what
was linked stays what it was for the rest of a run.
-/

namespace Nazg.Docker

open Lib Lib.Sqlite Nexus

/-! ## What every operation keeps -/

/-- The ids are in order and a link's stack exists. -/
structure StackDb.Wf (db : StackDb) : Prop where
  composeFiles : db.composeFiles.Wf
  serviceDependencies : db.serviceDependencies.Wf
  dockerStacks : db.dockerStacks.Wf
  stackComposeFiles : db.stackComposeFiles.Wf
  networkDependencies : db.networkDependencies.Wf
  links : ∀ l ∈ db.stackComposeFiles.data, l.stackId ∈ db.dockerStacks.ids

theorem StackDb.wf_fresh (servers : List Int) : (StackDb.fresh servers).Wf :=
  ⟨Table.wf_empty, Table.wf_empty, Table.wf_empty, Table.wf_empty, Table.wf_empty,
    by simp [StackDb.fresh, Table.empty, Table.data]⟩

/-- The columns of a compose file that no statement changes. -/
def fileKey (r : ComposeFileRow) : Int × Text := (r.serverId, r.filePath)

/-- Later in the same call: the servers and the stacks are as they were, and each compose
file is still there under its id. -/
structure StackDb.Grows (db db' : StackDb) : Prop where
  servers : db'.servers = db.servers
  dockerStacks : db'.dockerStacks = db.dockerStacks
  composeFiles : Table.Keeps fileKey db.composeFiles db'.composeFiles

theorem StackDb.Grows.refl (db : StackDb) : db.Grows db := ⟨rfl, rfl, Table.Keeps.refl _ _⟩

theorem StackDb.Grows.trans {db db' db'' : StackDb} (h : db.Grows db') (h' : db'.Grows db'') :
    db.Grows db'' :=
  ⟨h'.servers.trans h.servers, h'.dockerStacks.trans h.dockerStacks,
    h.composeFiles.trans h'.composeFiles⟩

/-- A row of the server and path is stored. -/
abbrev StackDb.Holds (db : StackDb) (serverId : Int) (path : Text) : Prop :=
  composeFilesTable.Holds db.toDb serverId path

/-! ### The upsert of a compose file -/

/-- An upsert touches its table alone; a row in it keeps its id, server and path, and
what `last_insert_id` would return stays positive. -/
theorem composeFiles_upsert_spec (row : ComposeFileRow) (db : Db) :
    ∃ t, (composeFilesTable.upsert row db).2 = { db with composeFiles := t } ∧
      Table.Keeps fileKey db.composeFiles t ∧
      (db.composeFiles.Wf → t.Wf ∧ (t.lastId = db.composeFiles.lastId ∨ 0 < t.lastId)) := by
  rw [DockerTable.upsert]
  split
  · refine ⟨_, rfl, Table.keeps_upsertRow ?_ _ _ _, fun h => ⟨h.upsertRow _ _ _, ?_⟩⟩
    · exact fun _ => rfl
    · refine (Table.upsertRow_lastId _ _ _ _).imp_right fun hid => ?_
      have hnonneg := h.lastId_nonneg
      exact hid ▸ Int.lt_add_one_of_le hnonneg
  · exact ⟨_, rfl, Table.Keeps.refl _ _, fun h => ⟨h, Or.inl rfl⟩⟩

section

variable (now serverId : Int) (path project services networks volumes hash : Bytes) (db : Db)

theorem upsertComposeFile_fst (hs : serverId ∈ db.servers) :
    (upsertComposeFile now serverId path project services networks volumes hash db).1 = true := by
  rw [upsertComposeFile, DockerTable.upsert_fst, DockerTable.accepts_iff]
  exact Or.inr ⟨hs, rfl⟩

theorem upsertComposeFile_holds (hs : serverId ∈ db.servers) (s : Int) (p : Text) :
    composeFilesTable.Holds (upsertComposeFile now serverId path project services networks volumes
        hash db).2 s p ↔
      composeFilesTable.Holds db s p ∨ s = serverId ∧ p = .ofCStr path := by
  have hacc := upsertComposeFile_fst now serverId path project services networks volumes hash db hs
  rw [upsertComposeFile, DockerTable.upsert_fst] at hacc
  rw [upsertComposeFile, DockerTable.holds_upsert]
  refine or_congr_right ⟨?_, ?_⟩
  · rintro ⟨-, hserver, hpath⟩
    exact ⟨hserver.symm, hpath.symm⟩
  · rintro ⟨rfl, rfl⟩
    exact ⟨hacc, rfl, rfl⟩

end

/-! ### A selection of compose files -/

/-- A selection that is carried out returns the id of some row it is about, if there
is one. -/
theorem selectComposeFile_of_exists {db : StackDb} (h : db.Wf) (order : RowOrder)
    {p : ComposeFileRow → Bool} (hp : ∃ r ∈ db.composeFiles.data, p r = true) :
    ∃ r, db.composeFiles.get? (selectComposeFile order true p db) = some r ∧ p r = true ∧
      0 < selectComposeFile order true p db := by
  obtain ⟨r, hr, hpr⟩ := hp
  obtain ⟨x, hx, rfl⟩ := List.mem_map.1 hr
  have hne : order.arrange (db.composeFiles.rows.filter fun x => p x.2) ≠ [] := by
    rw [Ne, order.arrange_eq_nil]
    exact List.ne_nil_of_mem (List.mem_filter.2 ⟨hx, hpr⟩)
  obtain ⟨y, hy⟩ := Option.isSome_iff_exists.1 (List.isSome_head?.2 hne)
  obtain ⟨hmem, hpy⟩ := List.mem_filter.1 (order.mem_of_head? hy)
  have hsel : selectComposeFile order true p db = y.1 := by
    rw [selectComposeFile, if_pos rfl, hy]
    rfl
  rw [hsel]
  exact ⟨y.2, Table.get?_of_mem h.composeFiles hmem, hpy,
    h.composeFiles.pos _ (Table.mem_ids hmem)⟩

theorem selectComposeFile_of_not {db : StackDb} (order : RowOrder) {carriedOut : Bool}
    {p : ComposeFileRow → Bool}
    (hp : ¬ (carriedOut = true ∧ ∃ r ∈ db.composeFiles.data, p r = true)) :
    selectComposeFile order carriedOut p db = 0 := by
  rw [selectComposeFile]
  split
  · next hc =>
      have hnil : (db.composeFiles.rows.filter fun x => p x.2) = [] :=
        List.filter_eq_nil_iff.2 fun x hx hpx => hp ⟨hc, x.2, List.mem_map_of_mem hx, hpx⟩
      rw [hnil, (order.arrange_eq_nil).2 rfl]
      rfl
  · rfl

/-! ## One turn of the loop -/

/-- What the statements before the link do to the database and to `last_insert_id`. -/
structure Creation.Prepares (s t : Creation) : Prop where
  grows : s.db.Grows t.db
  wf : s.db.Wf → t.db.Wf
  stackComposeFiles : t.db.stackComposeFiles = s.db.stackComposeFiles
  lastInsertId : s.db.Wf → 0 < s.lastInsertId → 0 < t.lastInsertId

theorem Creation.Prepares.refl (s : Creation) : s.Prepares s :=
  ⟨.refl _, id, rfl, fun _ => id⟩

theorem Creation.Prepares.trans {s t u : Creation} (h : s.Prepares t) (h' : t.Prepares u) :
    s.Prepares u :=
  ⟨h.grows.trans h'.grows, fun hwf => h'.wf (h.wf hwf),
    h'.stackComposeFiles.trans h.stackComposeFiles,
    fun hwf hid => h'.lastInsertId (h.wf hwf) (h.lastInsertId hwf hid)⟩

/-- Storing dependencies touches their table alone. -/
theorem storeDependencies_spec (serverId : Int) (calls : List (Int × DetectedDependency))
    (db : Db) :
    ∃ t, (storeDependencies serverId calls db).2 = { db with serviceDependencies := t } ∧
      (db.serviceDependencies.Wf →
        t.Wf ∧ ((storeDependencies serverId calls db).1 = 0 ∨ 0 < t.lastId)) := by
  refine List.foldlRecOn calls _ (motive := fun acc : Nat × Db =>
    ∃ t, acc.2 = { db with serviceDependencies := t } ∧
      (db.serviceDependencies.Wf → t.Wf ∧ (acc.1 = 0 ∨ 0 < t.lastId)))
    ⟨db.serviceDependencies, rfl, fun h => ⟨h, Or.inl rfl⟩⟩ ?_
  rintro ⟨n, db'⟩ ⟨t, rfl, hwf⟩ call -
  simp only [addDependency]
  split
  · exact ⟨_, rfl, fun h => ⟨(hwf h).1.replaceRow _ _, Or.inr ((hwf h).1.lastId_replaceRow _ _)⟩⟩
  · exact ⟨t, rfl, hwf⟩

theorem addDependencies_prepares (clock : Nat → Int) (serverId : Int)
    (dependencies : List DetectedDependency) (s : Creation) :
    s.Prepares (s.addDependencies clock serverId dependencies) ∧
      (s.addDependencies clock serverId dependencies).db.composeFiles = s.db.composeFiles := by
  obtain ⟨t, ht, hwf⟩ := storeDependencies_spec serverId
    (dependencies.zipIdx.map fun d => (clock d.2, d.1)) s.db.toDb
  rw [Creation.addDependencies]
  refine ⟨⟨⟨?_, rfl, ?_⟩, fun h => ⟨?_, ?_, h.dockerStacks, h.stackComposeFiles,
    h.networkDependencies, h.links⟩, rfl, fun h hid => ?_⟩, ?_⟩
  · simp only [ht]
  · simp only [ht]
    exact Table.Keeps.refl _ _
  · simpa only [ht] using h.composeFiles
  · simpa only [ht] using (hwf h.serviceDependencies).1
  · simp only [ht]
    split
    · exact hid
    · next hne => exact (hwf h.serviceDependencies).2.resolve_left hne
  · simp only [ht]

theorem addNetwork_prepares (now serverId : Int) (service network ip : Bytes) (s : Creation) :
    s.Prepares (s.addNetwork now serverId service network ip) ∧
      (s.addNetwork now serverId service network ip).db.composeFiles = s.db.composeFiles := by
  simp only [Creation.addNetwork]
  split
  · refine ⟨⟨⟨rfl, rfl, Table.Keeps.refl _ _⟩, fun h => ?_, rfl, fun h _ => ?_⟩, rfl⟩
    · refine ⟨h.composeFiles, h.serviceDependencies, h.dockerStacks, h.stackComposeFiles, ?_,
        h.links⟩
      exact Table.Wf.replaceRow h.networkDependencies
        (fun r => r.key = (networkDependencyRow now serverId service network ip).key) _
    · exact Int.lt_add_one_of_le h.networkDependencies.lastId_nonneg
  · exact ⟨.refl s, rfl⟩

theorem addNetworks_prepares (clock : Nat → Int) (serverId : Int) (compose : ComposeFile)
    (s : Creation) :
    s.Prepares (s.addNetworks clock serverId compose) ∧
      (s.addNetworks clock serverId compose).db.composeFiles = s.db.composeFiles := by
  refine List.foldlRecOn (staticIps compose).zipIdx _ (motive := fun t : Creation =>
    s.Prepares t ∧ t.db.composeFiles = s.db.composeFiles) ⟨.refl s, rfl⟩ ?_
  rintro t ⟨hprep, hfiles⟩ n -
  obtain ⟨hstep, hkeep⟩ := addNetwork_prepares (clock n.2) serverId n.1.1 n.1.2.1 n.1.2.2 t
  exact ⟨hprep.trans hstep, hkeep.trans hfiles⟩

/-- The file's row is found under its server, or the upsert is carried out. -/
def StackDb.Registers (db : StackDb) (e : Engine) (serverId : Int) (path : Text) : Prop :=
  (e.selectsOwn = true ∧ db.Holds serverId path) ∨ e.upserts = true

theorem registerFile_spec (e : Engine) (now serverId : Int) (path : Bytes)
    (compose : ComposeFile) {s : Creation} (h : s.db.Wf) (hs : serverId ∈ s.db.servers)
    (hid : 0 < s.lastInsertId) :
    let r := s.registerFile e now serverId path compose
    s.Prepares r.2 ∧ (0 < r.1 ↔ s.db.Registers e serverId (.ofCStr path)) ∧
      ∀ server p, r.2.db.Holds server p ↔
        s.db.Holds server p ∨ 0 < r.1 ∧ server = serverId ∧ p = .ofCStr path := by
  intro r
  have hown : e.selectsOwn = true ∧ s.db.Holds serverId (.ofCStr path) ↔
      0 < selectComposeFile e.order e.selectsOwn
        (fun r => r.serverId = serverId ∧ r.filePath = .ofCStr path) s.db := by
    constructor
    · rintro ⟨hsel, row, hrow, hserver, hpath⟩
      obtain ⟨-, -, -, hpos⟩ := selectComposeFile_of_exists h e.order
        (p := fun r => r.serverId = serverId ∧ r.filePath = .ofCStr path)
        ⟨row, hrow, decide_eq_true ⟨hserver, hpath⟩⟩
      exact hsel ▸ hpos
    · intro hpos
      by_contra hnot
      rw [selectComposeFile_of_not] at hpos
      · omega
      · rintro ⟨hsel, row, hrow, heq⟩
        exact hnot ⟨hsel, row, hrow, of_decide_eq_true heq⟩
  by_cases hfound : selectComposeFile e.order e.selectsOwn
      (fun r => r.serverId = serverId ∧ r.filePath = .ofCStr path) s.db = 0
  · have hnot : ¬ (e.selectsOwn = true ∧ s.db.Holds serverId (.ofCStr path)) := by
      rw [hown]
      omega
    by_cases hup : e.upserts = true
    · have hfst := upsertComposeFile_fst now serverId path [] (servicesJson compose) (bytes "[]")
        (bytes "[]") [] s.db.toDb hs
      have hholds := upsertComposeFile_holds now serverId path [] (servicesJson compose)
        (bytes "[]") (bytes "[]") [] s.db.toDb hs
      obtain ⟨t, ht, hkeeps, hwf⟩ := composeFiles_upsert_spec (composeFileRow now serverId path []
        (servicesJson compose) (bytes "[]") (bytes "[]") []) s.db.toDb
      rw [← upsertComposeFile] at ht
      have hr : r = Creation.registerFile e now serverId path compose s := rfl
      simp only [Creation.registerFile, ne_eq, hfound, hup, hfst, not_true_eq_false, if_false,
        and_self, if_true, ht] at hr
      have hpos : 0 < (if t.lastId = s.db.composeFiles.lastId then s.lastInsertId
          else t.lastId) := by
        split
        · exact hid
        · next hne => exact (hwf h.composeFiles).2.resolve_left hne
      rw [ht] at hholds
      rw [hr]
      refine ⟨⟨⟨rfl, rfl, hkeeps⟩, fun h => ⟨(hwf h.composeFiles).1, h.serviceDependencies,
        h.dockerStacks, h.stackComposeFiles, h.networkDependencies, h.links⟩, rfl,
        fun _ _ => hpos⟩, ?_, fun server p => ?_⟩
      · exact iff_of_true hpos (Or.inr hup)
      · exact (hholds server p).trans (or_congr_right (by simp [hpos]))
    · have hr : r = (0, s) := by
        simp only [r, Creation.registerFile, ne_eq, hfound, hup, not_true_eq_false, if_false,
          Bool.false_eq_true, false_and]
      rw [hr]
      refine ⟨.refl s, ⟨fun h => absurd h (Int.lt_irrefl 0), ?_⟩, fun server p => ?_⟩
      · rintro (hown | hup')
        · exact absurd hown hnot
        · exact absurd hup' hup
      · simp
  · have hr : r = (selectComposeFile e.order e.selectsOwn
        (fun r => r.serverId = serverId ∧ r.filePath = .ofCStr path) s.db, s) := by
      simp only [r, Creation.registerFile, ne_eq, hfound, not_false_eq_true, if_true]
    have hpos : 0 < selectComposeFile e.order e.selectsOwn
        (fun r => r.serverId = serverId ∧ r.filePath = .ofCStr path) s.db := by
      by_contra hnpos
      refine hfound (selectComposeFile_of_not _ ?_)
      rintro ⟨hsel, row, hrow, heq⟩
      exact hnpos (hown.1 ⟨hsel, row, hrow, of_decide_eq_true heq⟩)
    rw [hr]
    refine ⟨.refl s, iff_of_true hpos (Or.inl (hown.2 hpos)), fun server p => ?_⟩
    simp only [hpos, true_and, iff_self_or, and_imp]
    rintro rfl rfl
    exact (hown.2 hpos).2

/-- A call that finds a row and is carried out links some row of that path; any other
leaves the database as it is. -/
theorem addComposeToStack_spec {db : StackDb} (h : db.Wf) {stackId : Int}
    (hstack : stackId ∈ db.dockerStacks.ids) (e : Engine) (path : Bytes) (executionOrder : Int)
    (envFile : Bytes) :
    (e.selectsPath = true → e.links = true → (∃ server, db.Holds server (.ofCStr path)) →
      ∃ fileId file, db.composeFiles.get? fileId = some file ∧ file.filePath = .ofCStr path ∧
        addComposeToStack e stackId path executionOrder envFile db =
          (true, { db with
            stackComposeFiles := db.stackComposeFiles.replaceRow
              (fun r => r.key = (stackId, fileId))
              (stackComposeFileRow stackId fileId executionOrder envFile) })) ∧
    (¬ (e.selectsPath = true ∧ e.links = true ∧ ∃ server, db.Holds server (.ofCStr path)) →
      addComposeToStack e stackId path executionOrder envFile db = (false, db)) := by
  constructor
  · rintro hsel hlinks ⟨server, file, hfile, -, hpath⟩
    obtain ⟨row, hrow, hp, hpos⟩ := selectComposeFile_of_exists h e.order
      (p := fun r => r.filePath = .ofCStr path) ⟨file, hfile, decide_eq_true hpath⟩
    refine ⟨_, row, hrow, of_decide_eq_true hp, ?_⟩
    simp only [addComposeToStack, hsel, if_neg (Int.ne_of_gt hpos), hlinks, hstack,
      Table.mem_ids_of_get? hrow, and_self, if_true]
    rfl
  · intro hnot
    by_cases hfind : e.selectsPath = true ∧ ∃ server, db.Holds server (.ofCStr path)
    · have hlinks : ¬ e.links = true := fun hl => hnot ⟨hfind.1, hl, hfind.2⟩
      simp only [addComposeToStack, hlinks, Bool.false_eq_true, false_and, if_false, ite_self]
    · rw [addComposeToStack, selectComposeFile_of_not]
      · rfl
      · rintro ⟨hsel, row, hrow, hp⟩
        exact hfind ⟨hsel, row.serverId, row, hrow, rfl, of_decide_eq_true hp⟩

/-- A turn for a file that can be read: the database grows by what is registered, and the
link is made if the file's row was found or written. -/
theorem addFile_spec {host : Host} {serverId : Int} (stackId : Int) {path : Bytes}
    (hread : (host.readFile (.ofCStr path)).isSome) {s : Creation} (h : s.db.Wf)
    (hs : serverId ∈ s.db.servers) (hid : 0 < s.lastInsertId) (i : Nat) (envFile : Bytes) :
    ∃ t : Creation, s.Prepares t ∧
      (∀ server p, t.db.Holds server p ↔ s.db.Holds server p ∨
        s.db.Registers (host.engine i) serverId (.ofCStr path) ∧ server = serverId ∧
          p = .ofCStr path) ∧
      (s.db.Registers (host.engine i) serverId (.ofCStr path) →
        s.addFile host serverId stackId i path envFile =
          t.link (host.engine i) stackId path (toInt i) envFile) ∧
      (¬ s.db.Registers (host.engine i) serverId (.ofCStr path) →
        s.addFile host serverId stackId i path envFile = t) := by
  obtain ⟨content, hcontent⟩ := Option.isSome_iff_exists.1 hread
  let compose := parseLines (getLines content)
  let n := (extractDependencies compose).length
  let s₁ := s.addDependencies (host.clock i) serverId (extractDependencies compose)
  let r := s₁.registerFile (host.engine i) (host.clock i n) serverId path compose
  let t := r.2.addNetworks (fun j => host.clock i (n + 1 + j)) serverId compose
  have hfile : s.addFile host serverId stackId i path envFile =
      if 0 < r.1 then t.link (host.engine i) stackId path (toInt i) envFile else t := by
    rw [Creation.addFile, hcontent]
    rfl
  obtain ⟨hprep₁, hfiles₁⟩ := addDependencies_prepares (host.clock i) serverId
    (extractDependencies compose) s
  have hholds₁ : ∀ server p, s₁.db.Holds server p ↔ s.db.Holds server p :=
    composeFilesTable.holds_congr hfiles₁
  obtain ⟨hprep₂, hreg, hholds₂⟩ := registerFile_spec (host.engine i) (host.clock i n) serverId path
    compose (hprep₁.wf h) (hprep₁.grows.servers ▸ hs) (hprep₁.lastInsertId h hid)
  obtain ⟨hprep₃, hfiles₃⟩ := addNetworks_prepares (fun j => host.clock i (n + 1 + j)) serverId
    compose r.2
  have hreg' : 0 < r.1 ↔ s.db.Registers (host.engine i) serverId (.ofCStr path) := by
    rw [hreg, StackDb.Registers, hholds₁, StackDb.Registers]
  have hholds₃ : ∀ server p, t.db.Holds server p ↔ r.2.db.Holds server p :=
    composeFilesTable.holds_congr hfiles₃
  refine ⟨t, (hprep₁.trans hprep₂).trans hprep₃, fun server p => ?_, fun h => ?_, fun h => ?_⟩
  · rw [hholds₃, ← hholds₁ server p, ← hreg']
    exact hholds₂ server p
  · rw [hfile, if_pos (hreg'.2 h)]
  · rw [hfile, if_neg (mt hreg'.1 h)]

/-! ## The loop -/

/-- The loop for a stack under way: the database has grown by rows of the server alone. -/
structure Creation.UnderWay (db : StackDb) (serverId stackId : Int) (s : Creation) : Prop where
  grows : db.Grows s.db
  wf : s.db.Wf
  server : serverId ∈ s.db.servers
  stack : stackId ∈ s.db.dockerStacks.ids
  lastInsertId : 0 < s.lastInsertId
  holds : ∀ server p, s.db.Holds server p → db.Holds server p ∨ server = serverId

theorem Creation.UnderWay.prepares {db : StackDb} {serverId stackId : Int} {s t : Creation}
    (h : s.UnderWay db serverId stackId) (hst : s.Prepares t)
    (hholds : ∀ server p, t.db.Holds server p → s.db.Holds server p ∨ server = serverId) :
    t.UnderWay db serverId stackId where
  grows := h.grows.trans hst.grows
  wf := hst.wf h.wf
  server := hst.grows.servers ▸ h.server
  stack := hst.grows.dockerStacks ▸ h.stack
  lastInsertId := hst.lastInsertId h.wf h.lastInsertId
  holds server p hp := (hholds server p hp).elim (h.holds server p) Or.inr

/-- The links of the stack are to files that are `q`. -/
def StackDb.LinksTo (db : StackDb) (stackId : Int) (q : Int × Text → Prop) : Prop :=
  ∀ l ∈ db.stackComposeFiles.data, l.stackId = stackId →
    ∃ r, db.composeFiles.get? l.composeFileId = some r ∧ q (fileKey r)

theorem StackDb.LinksTo.grows {db db' : StackDb} {stackId : Int} {q : Int × Text → Prop}
    (h : db.LinksTo stackId q) (hg : db.Grows db')
    (hlinks : db'.stackComposeFiles = db.stackComposeFiles) : db'.LinksTo stackId q := by
  intro l hl hk
  obtain ⟨r, hr, hq⟩ := h l (hlinks ▸ hl) hk
  obtain ⟨r', hr', hkey⟩ := hg.composeFiles _ r hr
  exact ⟨r', hr', hkey ▸ hq⟩

theorem Creation.UnderWay.link {db : StackDb} {serverId stackId : Int} {s : Creation}
    (h : s.UnderWay db serverId stackId) (e : Engine) (path : Bytes) (executionOrder : Int)
    (envFile : Bytes) : (s.link e stackId path executionOrder envFile).UnderWay db serverId stackId := by
  obtain ⟨hmade, hnot⟩ := addComposeToStack_spec h.wf h.stack e path executionOrder envFile
  by_cases hlink : e.selectsPath = true ∧ e.links = true ∧
      ∃ server, s.db.Holds server (.ofCStr path)
  · obtain ⟨fileId, file, -, -, heq⟩ := hmade hlink.1 hlink.2.1 hlink.2.2
    rw [Creation.link, heq]
    refine ⟨⟨h.grows.servers, h.grows.dockerStacks, h.grows.composeFiles⟩, ⟨h.wf.composeFiles,
      h.wf.serviceDependencies, h.wf.dockerStacks, ?_, h.wf.networkDependencies, fun l hl => ?_⟩,
      h.server, h.stack, ?_, h.holds⟩
    · exact h.wf.stackComposeFiles.replaceRow (fun r => r.key = (stackId, fileId)) _
    · rw [Table.data_replaceRow, List.mem_append, List.mem_singleton] at hl
      rcases hl with hl | rfl
      · exact h.wf.links l (List.mem_of_mem_filter hl)
      · exact h.stack
    · exact Int.lt_add_one_of_le h.wf.stackComposeFiles.lastId_nonneg
  · rw [Creation.link, hnot hlink]
    exact ⟨h.grows, h.wf, h.server, h.stack, h.lastInsertId, h.holds⟩

/-- A link leads to a file of the path, whoever's it is. -/
theorem StackDb.LinksTo.addComposeToStack {db : StackDb} (hwf : db.Wf) {stackId : Int}
    (hstack : stackId ∈ db.dockerStacks.ids) {q : Int × Text → Prop} (h : db.LinksTo stackId q)
    (e : Engine) {path : Bytes} (executionOrder : Int) (envFile : Bytes)
    (hq : ∀ server, db.Holds server (.ofCStr path) → q (server, .ofCStr path)) :
    (addComposeToStack e stackId path executionOrder envFile db).2.LinksTo stackId q := by
  obtain ⟨hmade, hnot⟩ := addComposeToStack_spec hwf hstack e path executionOrder envFile
  by_cases hlink : e.selectsPath = true ∧ e.links = true ∧ ∃ server, db.Holds server (.ofCStr path)
  · obtain ⟨fileId, file, hfile, hpath, heq⟩ := hmade hlink.1 hlink.2.1 hlink.2.2
    rw [heq]
    intro l hl hk
    rw [Table.data_replaceRow, List.mem_append, List.mem_singleton] at hl
    rcases hl with hl | rfl
    · exact h l (List.mem_of_mem_filter hl) hk
    · have hholds : db.Holds file.serverId (.ofCStr path) :=
        ⟨file, List.mem_map_of_mem (Table.mem_of_get? hfile), rfl, hpath⟩
      refine ⟨file, hfile, ?_⟩
      rw [fileKey, hpath]
      exact hq _ hholds
  · rw [hnot hlink]
    exact h

/-- One turn: if the path of a file that is read is nobody else's, the links stay with the
server's own files. -/
theorem Creation.UnderWay.addFile {db : StackDb} {serverId stackId : Int} {s : Creation}
    (h : s.UnderWay db serverId stackId) (host : Host) (i : Nat) (path envFile : Bytes) :
    (s.addFile host serverId stackId i path envFile).UnderWay db serverId stackId ∧
      (s.db.LinksTo stackId (fun k => k.1 = serverId) →
        ((host.readFile (.ofCStr path)).isSome →
          ∀ server, db.Holds server (.ofCStr path) → server = serverId) →
        (s.addFile host serverId stackId i path envFile).db.LinksTo stackId
          fun k => k.1 = serverId) := by
  by_cases hread : (host.readFile (.ofCStr path)).isSome
  · obtain ⟨t, hprep, hholds, hreg, hnot⟩ :=
      addFile_spec stackId hread h.wf h.server h.lastInsertId i envFile
    have ht : t.UnderWay db serverId stackId :=
      h.prepares hprep fun server p hp => ((hholds server p).1 hp).imp_right fun hr => hr.2.1
    by_cases hr : s.db.Registers (host.engine i) serverId (.ofCStr path)
    · rw [hreg hr]
      refine ⟨ht.link _ _ _ _, fun hlinks hown => ?_⟩
      refine (hlinks.grows hprep.grows hprep.stackComposeFiles).addComposeToStack ht.wf ht.stack
        _ _ _ fun server hserver => ?_
      exact (ht.holds server _ hserver).elim (hown hread server) id
    · rw [hnot hr]
      exact ⟨ht, fun hlinks _ => hlinks.grows hprep.grows hprep.stackComposeFiles⟩
  · have hskip : s.addFile host serverId stackId i path envFile = s := by
      rw [Creation.addFile, Option.not_isSome_iff_eq_none.1 hread]
      rfl
    rw [hskip]
    exact ⟨h, fun hlinks _ => hlinks⟩

theorem Creation.UnderWay.addFiles {db : StackDb} {serverId stackId : Int} (host : Host)
    (envFiles paths : List Bytes) :
    ∀ (i : Nat) {s : Creation}, s.UnderWay db serverId stackId →
      (Creation.addFiles host serverId stackId envFiles i paths s).UnderWay db serverId stackId ∧
        (s.db.LinksTo stackId (fun k => k.1 = serverId) →
          (∀ path ∈ paths, (host.readFile (.ofCStr path)).isSome →
            ∀ server, db.Holds server (.ofCStr path) → server = serverId) →
          (Creation.addFiles host serverId stackId envFiles i paths s).db.LinksTo stackId
            fun k => k.1 = serverId) := by
  induction paths with
  | nil => exact fun i s h => ⟨h, fun hlinks _ => hlinks⟩
  | cons path paths ih =>
      intro i s h
      obtain ⟨hturn, hlinks⟩ := h.addFile host i path (envFiles.getD i [])
      obtain ⟨hrest, hlinks'⟩ := ih (i + 1) hturn
      refine ⟨hrest, fun hl hown => hlinks' (hlinks hl ?_) ?_⟩
      · exact hown path List.mem_cons_self
      · exact fun p hp => hown p (List.mem_cons_of_mem _ hp)

/-! ## A whole call -/

theorem createStack_of_accepts {db : StackDb} {now serverId : Int} {name description : Bytes}
    {priority : Int} (h : acceptsStack (stackRow now serverId name description priority) db) :
    createStack true now serverId name description priority db =
      (db.dockerStacks.lastId + 1, { db with
        dockerStacks := db.dockerStacks.insertRow
          (stackRow now serverId name description priority) }) := by
  rw [createStack, h]
  rfl

theorem createStack_of_not {db : StackDb} {carriedOut : Bool} {now serverId : Int}
    {name description : Bytes} {priority : Int}
    (h : ¬ (carriedOut = true ∧
      acceptsStack (stackRow now serverId name description priority) db = true)) :
    createStack carriedOut now serverId name description priority db = (0, db) := by
  rw [createStack, if_neg (by simpa using h)]

/-- The loop starts from a new stack, to which nothing is linked. -/
theorem createStack_underWay {db : StackDb} (h : db.Wf) {now serverId : Int}
    {name description : Bytes} {priority : Int}
    (hacc : acceptsStack (stackRow now serverId name description priority) db = true) :
    let r := createStack true now serverId name description priority db
    0 < r.1 ∧ (⟨r.2, r.1⟩ : Creation).UnderWay r.2 serverId r.1 ∧
      (∀ l ∈ r.2.stackComposeFiles.data, l.stackId ≠ r.1) ∧
      r.2.composeFiles = db.composeFiles := by
  intro r
  have hr : r = _ := createStack_of_accepts hacc
  have hpos : 0 < db.dockerStacks.lastId + 1 := Int.lt_add_one_of_le h.dockerStacks.lastId_nonneg
  have hserver : serverId ∈ db.servers := by
    rw [acceptsStack, Bool.and_eq_true] at hacc
    exact of_decide_eq_true hacc.1
  have hids : (db.dockerStacks.insertRow (stackRow now serverId name description priority)).ids =
      db.dockerStacks.ids ++ [db.dockerStacks.lastId + 1] := Table.ids_insertRow _ _
  rw [hr]
  refine ⟨hpos, ⟨.refl _, ⟨h.composeFiles, h.serviceDependencies, h.dockerStacks.insertRow _,
    h.stackComposeFiles, h.networkDependencies, fun l hl => ?_⟩, hserver, ?_, hpos,
    fun _ _ => Or.inl⟩, fun l hl heq => ?_, rfl⟩
  · rw [hids]
    exact List.mem_append_left _ (h.links l hl)
  · rw [hids]
    exact List.mem_append_right _ (List.mem_singleton.2 rfl)
  · have hle := h.dockerStacks.le_lastId _ (h.links l hl)
    simp only at heq
    omega

/-- If the stack can be created, no other server has a compose file with the path of a
listed file that can be read. -/
def NoForeignPath (db : StackDb) (host : Host) (serverId : Int) (stackName : Bytes)
    (composePaths : List Bytes) (description : Bytes) : Prop :=
  host.createsStack = true →
    acceptsStack (stackRow host.now serverId stackName description 0) db = true →
      ∀ path ∈ composePaths, (host.readFile (.ofCStr path)).isSome →
        ∀ server, db.Holds server (.ofCStr path) → server = serverId

/-- Whatever it returns, a call leaves a well-formed database with every compose file where
it was; and it links the server's own files when no other server has the paths it opens. -/
theorem createStackFromCompose_spec {db : StackDb} (h : db.Wf) (host : Host) (serverId : Int)
    (stackName : Bytes) (composePaths envFiles : List Bytes) (description : Bytes) :
    let r := createStackFromCompose host serverId stackName composePaths envFiles description db
    r.2.Wf ∧ Table.Keeps fileKey db.composeFiles r.2.composeFiles ∧
      (NoForeignPath db host serverId stackName composePaths description →
        r.1 ≠ 0 → r.2.LinksTo r.1 fun k => k.1 = serverId) := by
  intro r
  by_cases hacc : host.createsStack = true ∧
      acceptsStack (stackRow host.now serverId stackName description 0) db = true
  · obtain ⟨hpos, hstart, hfresh, hfiles⟩ := createStack_underWay h hacc.2
    have hr : r = createStackFromCompose host serverId stackName composePaths envFiles description
      db := rfl
    rw [createStackFromCompose, hacc.1] at hr
    generalize createStack true host.now serverId stackName description 0 db = c
      at hpos hstart hfresh hfiles hr
    simp only [if_neg (Int.ne_of_gt hpos)] at hr
    obtain ⟨hend, hlinks⟩ := hstart.addFiles host envFiles composePaths 0
    rw [hr]
    refine ⟨hend.wf, hfiles ▸ hend.grows.composeFiles, fun hown _ => hlinks ?_ ?_⟩
    · exact fun l hl hk => absurd hk (hfresh l hl)
    · exact fun path hpath hread server hserver =>
        hown hacc.1 hacc.2 path hpath hread server ((composeFilesTable.holds_congr hfiles _ _).1 hserver)
  · have hr : r = (0, db) := by
      simp only [r, createStackFromCompose, createStack_of_not hacc, if_true]
    rw [hr]
    exact ⟨h, Table.Keeps.refl _ _, fun _ hne => absurd rfl hne⟩

/-! ## Runs -/

theorem addComposeToStack_wf {db : StackDb} (h : db.Wf) (e : Engine) (stackId : Int)
    (path : Bytes) (executionOrder : Int) (envFile : Bytes) :
    (addComposeToStack e stackId path executionOrder envFile db).2.Wf ∧
      (addComposeToStack e stackId path executionOrder envFile db).2.composeFiles =
        db.composeFiles := by
  simp only [addComposeToStack]
  split
  · exact ⟨h, rfl⟩
  · split
    · next hfk =>
        refine ⟨⟨h.composeFiles, h.serviceDependencies, h.dockerStacks, ?_, h.networkDependencies,
          fun l hl => ?_⟩, rfl⟩
        · simp only
          apply h.stackComposeFiles.replaceRow
        · rw [Table.data_replaceRow, List.mem_append, List.mem_singleton] at hl
          rcases hl with hl | rfl
          · exact h.links l (List.mem_of_mem_filter hl)
          · exact hfk.2.1
    · exact ⟨h, rfl⟩

theorem deleteStack_wf {db : StackDb} (h : db.Wf) (stackId : Int) :
    (deleteStack stackId db).2.Wf := by
  refine ⟨h.composeFiles, h.serviceDependencies, h.dockerStacks.deleteWhere fun i _ => i = stackId,
    h.stackComposeFiles.deleteWhere fun _ l => l.stackId = stackId, h.networkDependencies,
    fun l hl => ?_⟩
  simp only [deleteStack, Table.data, Table.deleteWhere, Table.ids, List.mem_map, List.mem_filter,
    Bool.not_eq_true', decide_eq_false_iff_not] at hl ⊢
  obtain ⟨x, ⟨hx, hne⟩, rfl⟩ := hl
  obtain ⟨y, hy, heq⟩ := List.mem_map.1 (h.links x.2 (List.mem_map_of_mem hx))
  exact ⟨y, ⟨hy, heq ▸ hne⟩, heq⟩

/-- A scan writes compose files by their upsert alone. -/
theorem importScan_wf {db : StackDb} (h : db.Wf) (clock : Nat → Int) (serverId : Int)
    (payload : Bytes) :
    let db' : StackDb := { db with
      toDb := (parseAndStoreScan clock serverId payload .init db.toDb).2.2 }
    db'.Wf ∧ Table.Keeps fileKey db.composeFiles db'.composeFiles := by
  intro db'
  let s₂ := ((⟨.init, db.toDb, 0⟩ : Import).containers clock serverId payload).images clock serverId
    payload
  have hbefore : s₂.db.composeFiles = db.composeFiles :=
    (images_frame clock serverId payload Db.composeFiles _ fun _ _ => rfl).trans
      (containers_frame clock serverId payload Db.composeFiles _ fun _ _ => rfl)
  have hafter : db'.composeFiles = (s₂.composeFiles clock serverId payload).db.composeFiles :=
    (volumes_frame clock serverId payload Db.composeFiles _ fun _ _ => rfl).trans
      (networks_frame clock serverId payload Db.composeFiles _ fun _ _ => rfl)
  have hdeps : db'.serviceDependencies = db.serviceDependencies :=
    (volumes_frame clock serverId payload Db.serviceDependencies _ fun _ _ => rfl).trans <|
      (networks_frame clock serverId payload Db.serviceDependencies _ fun _ _ => rfl).trans <|
      (composeFiles_frame clock serverId payload Db.serviceDependencies _ fun _ _ => rfl).trans <|
      (images_frame clock serverId payload Db.serviceDependencies _ fun _ _ => rfl).trans <|
      containers_frame clock serverId payload Db.serviceDependencies _ fun _ _ => rfl
  have hfiles : db'.composeFiles.Wf ∧ Table.Keeps fileKey db.composeFiles db'.composeFiles := by
    rw [hafter, composeFiles_eq]
    refine importAll_invariant composeFilesTable _ _ _
      (fun d => d.composeFiles.Wf ∧ Table.Keeps fileKey db.composeFiles d.composeFiles) ?_ _ s₂
      ⟨hbefore ▸ h.composeFiles, hbefore ▸ Table.Keeps.refl _ _⟩
    rintro row d ⟨hwf, hkeeps⟩
    obtain ⟨t, ht, hkeeps', hwf'⟩ := composeFiles_upsert_spec row d
    rw [ht]
    exact ⟨(hwf' hwf).1, hkeeps.trans hkeeps'⟩
  exact ⟨⟨hfiles.1, hdeps ▸ h.serviceDependencies, h.dockerStacks, h.stackComposeFiles,
    h.networkDependencies, h.links⟩, hfiles.2⟩

/-- Every link made for a server is to a file that is still that server's. -/
def StackRun.Own (s : StackRun) : Prop :=
  ∀ l ∈ s.linked, ∃ r, s.db.composeFiles.get? l.2 = some r ∧ r.serverId = l.1

/-- The condition on a step: a stack is created over no other server's paths. -/
def StackCall.Own (s : StackRun) : StackCall → Prop
  | .createStackFromCompose host serverId stackName composePaths _ description =>
      NoForeignPath s.db host serverId stackName composePaths description
  | _ => True

theorem StackRun.Own.keeps {s s' : StackRun} (h : s.Own) (hlinked : s'.linked = s.linked)
    (hk : Table.Keeps fileKey s.db.composeFiles s'.db.composeFiles) : s'.Own := by
  intro l hl
  obtain ⟨r, hr, hserver⟩ := h l (hlinked ▸ hl)
  obtain ⟨r', hr', hkey⟩ := hk _ r hr
  exact ⟨r', hr', (congrArg Prod.fst hkey).trans hserver⟩

theorem StackRun.call_own {s : StackRun} (h : s.db.Wf ∧ s.Own) (c : StackCall) (hc : c.Own s) :
    (s.call c).db.Wf ∧ (s.call c).Own := by
  cases c with
  | createStackFromCompose host serverId stackName composePaths envFiles description =>
      obtain ⟨hwf, hkeeps, hlinks⟩ := createStackFromCompose_spec h.1 host serverId stackName
        composePaths envFiles description
      refine ⟨hwf, fun l hl => ?_⟩
      rw [StackRun.call, List.mem_append] at hl
      rcases hl with hl | hl
      · obtain ⟨r, hr, hserver⟩ := h.2 l hl
        obtain ⟨r', hr', hkey⟩ := hkeeps _ r hr
        exact ⟨r', hr', (congrArg Prod.fst hkey).trans hserver⟩
      · split at hl
        · cases hl
        · next hne =>
            obtain ⟨file, hfile, rfl⟩ := List.mem_map.1 hl
            obtain ⟨row, hrow, rfl⟩ := List.mem_map.1 hfile
            obtain ⟨hrow, hstack⟩ := List.mem_filter.1 hrow
            exact hlinks hc hne row hrow (of_decide_eq_true hstack)
  | addComposeToStack e stackId path executionOrder envFile =>
      obtain ⟨hwf, hfiles⟩ := addComposeToStack_wf h.1 e stackId path executionOrder envFile
      exact ⟨hwf, h.2.keeps rfl (hfiles ▸ Table.Keeps.refl _ _)⟩
  | deleteStack stackId =>
      exact ⟨deleteStack_wf h.1 stackId, h.2.keeps rfl (Table.Keeps.refl _ _)⟩
  | importScan clock serverId payload =>
      obtain ⟨hwf, hkeeps⟩ := importScan_wf h.1 clock serverId payload
      exact ⟨hwf, h.2.keeps rfl hkeeps⟩

/-- In every run whose stacks are created over no other server's paths, whatever was linked
for a server is that server's. -/
theorem linked_own {db : StackDb} (h : db.Wf) {s : StackRun}
    (hs : (stackSystem db).ReachableBy StackCall.Own s) : s.Own := by
  refine (hs.invariant (p := fun s => s.db.Wf ∧ s.Own) ⟨h, ?_⟩ ?_).2
  · exact fun l hl => nomatch hl
  · intro s c s' hinv hc hstep
    cases Option.some.inj hstep
    exact StackRun.call_own hinv c hc

/-! ## Two servers with one path -/

/-- A host on which every file is there and empty, and every statement is carried out. -/
def emptyFiles : Host := ⟨fun _ => some [], 0, fun _ _ => 0, true, fun _ => .sound⟩

/-- A stack of one compose file. -/
def oneFileStack (serverId : Int) (path : String) : StackCall :=
  .createStackFromCompose emptyFiles serverId (bytes "media") [bytes path] [] []

/-- The run that creates a stack on each of two servers. -/
def twoServers (path₁ path₂ : String) : StackRun :=
  ((⟨.fresh [1, 2], []⟩ : StackRun).call (oneFileStack 1 path₁)).call (oneFileStack 2 path₂)

theorem linked_own_twoServers : (twoServers "/a.yml" "/b.yml").Own := by
  refine linked_own (StackDb.wf_fresh [1, 2]) (.step (.step .init ?_ rfl) ?_ rfl)
  · rintro - - path - - server ⟨r, hr, -⟩
    cases hr
  · have hkeys : ((⟨.fresh [1, 2], []⟩ : StackRun).call
        (oneFileStack 1 "/a.yml")).db.composeFiles.data.map fileKey =
          [(1, .ofCStr (bytes "/a.yml"))] := by
      decide +kernel
    rintro - - path hpath - server ⟨r, hr, -, hrpath⟩
    have hmem : fileKey r ∈ [(1, Text.ofCStr (bytes "/a.yml"))] := by
      rw [← hkeys]
      exact List.mem_map_of_mem hr
    rw [List.mem_singleton.1 hpath] at hrpath
    have hp : Text.ofCStr (bytes "/a.yml") = .ofCStr (bytes "/b.yml") :=
      (congrArg Prod.snd (List.mem_singleton.1 hmem)).symm.trans hrpath
    exact absurd hp (by decide)

/-- The second server's stack is linked to the first server's file. -/
theorem links_cross :
    ¬ ∀ db : StackDb, db.Wf → ∀ s, (stackSystem db).Reachable s → s.Own := by
  intro h
  have hreach : (stackSystem (.fresh [1, 2])).Reachable (twoServers "/c.yml" "/c.yml") :=
    .step (e := oneFileStack 2 "/c.yml") (.step (e := oneFileStack 1 "/c.yml") .init rfl) rfl
  have hlink : ((2, 1) : Int × Int) ∈ (twoServers "/c.yml" "/c.yml").linked := by
    decide +kernel
  have howner : ((twoServers "/c.yml" "/c.yml").db.composeFiles.get? 1).map (·.serverId) =
      some 1 := by
    decide +kernel
  obtain ⟨r, hr, hserver⟩ := h _ (StackDb.wf_fresh _) _ hreach _ hlink
  rw [hr, Option.map_some, hserver] at howner
  cases howner

end Nazg.Docker
