import Nazg.Proofs.StackServers

/-!
# What a created stack holds

Creating a stack from compose files is not all or nothing. The stack row is there before
the first file is opened, a file that fails is logged and skipped, and the id is returned
all the same (`createStackFromCompose_skips`). What does hold is that the stack lists what
was carried out and no more: of the given paths those whose file could be read and whose
rows could be written, in the given order, each with its env file
(`getStack_createStackFromCompose`); and that no id means no change.

The links of a stack are read as `stackEntries`. A turn appends at most one to them
(`addFile_entries`), because distinct paths have distinct rows; the execution orders
increase with the turns, so the ORDER BY returns the entries as they were appended.
-/

namespace Nazg.Docker

open Lib Lib.Sqlite Nexus

/-- What `get_stack` reads of a link: the order, the path and the env file. -/
def stackEntries (stackId : Int) (db : StackDb) : List (Int × Text × Option Text) :=
  (stackFiles stackId db).map fun lf => (lf.1.executionOrder, lf.2.filePath, lf.1.envFile)

/-- The file can be read, its row is there or written, and its link is carried out. -/
def carried (host : Host) (serverId : Int) (db : StackDb) (i : Nat) (path : Bytes) : Bool :=
  let e := host.engine i
  (host.readFile (.ofCStr path)).isSome &&
    ((e.selectsOwn && db.composeFiles.data.any fun r => fileKey r = (serverId, .ofCStr path)) ||
      e.upserts) && e.selectsPath && e.links

theorem carried_iff {host : Host} {serverId : Int} {db : StackDb} {i : Nat} {path : Bytes} :
    carried host serverId db i path = true ↔
      (host.readFile (.ofCStr path)).isSome = true ∧
        db.Registers (host.engine i) serverId (.ofCStr path) ∧
        (host.engine i).selectsPath = true ∧ (host.engine i).links = true := by
  have hholds : (db.composeFiles.data.any fun r => fileKey r = (serverId, .ofCStr path)) = true ↔
      db.Holds serverId (.ofCStr path) := by
    simp only [List.any_eq_true, decide_eq_true_eq, fileKey, Prod.mk.injEq]
    rfl
  simp only [carried, Bool.and_eq_true, Bool.or_eq_true, hholds, and_assoc, StackDb.Registers]

/-! ## Entries and their table -/

theorem stackEntries_eq (stackId : Int) (db : StackDb) :
    stackEntries stackId db = (db.stackComposeFiles.data.filter fun l => l.stackId = stackId).filterMap
      fun l => (db.composeFiles.get? l.composeFileId).map fun f =>
        (l.executionOrder, f.filePath, l.envFile) := by
  rw [stackEntries, stackFiles, List.map_filterMap]
  simp only [Option.map_map, Function.comp_def]

/-- Rows added to `compose_files` show nothing new under links that already led to a row. -/
theorem stackEntries_grows {stackId : Int} {db db' : StackDb}
    (hlinks : db.LinksTo stackId fun _ => True) (hg : db.Grows db')
    (hsame : db'.stackComposeFiles = db.stackComposeFiles) :
    stackEntries stackId db' = stackEntries stackId db := by
  rw [stackEntries_eq, stackEntries_eq, hsame]
  refine List.filterMap_congr fun l hl => ?_
  obtain ⟨hl, hk⟩ := List.mem_filter.1 hl
  obtain ⟨r, hr, -⟩ := hlinks l hl (of_decide_eq_true hk)
  obtain ⟨r', hr', hkey⟩ := hg.composeFiles _ r hr
  have hpath : r'.filePath = r.filePath := congrArg Prod.snd hkey
  rw [hr, hr', Option.map_some, Option.map_some, hpath]

/-- A link to a file whose path has no entry yet is one more entry, the last. -/
theorem stackEntries_link {stackId fileId : Int} {db : StackDb} {file : ComposeFileRow}
    (hfile : db.composeFiles.get? fileId = some file)
    (hnew : ∀ e ∈ stackEntries stackId db, e.2.1 ≠ file.filePath) (executionOrder : Int)
    (envFile : Bytes) :
    stackEntries stackId { db with
        stackComposeFiles := db.stackComposeFiles.replaceRow (fun r => r.key = (stackId, fileId))
          (stackComposeFileRow stackId fileId executionOrder envFile) } =
      stackEntries stackId db ++ [(executionOrder, file.filePath, some (.ofCStr envFile))] := by
  have hkeep : ((db.stackComposeFiles.data.filter fun l => !decide (l.key = (stackId, fileId))).filter
      fun l => decide (l.stackId = stackId)) =
        db.stackComposeFiles.data.filter fun l => l.stackId = stackId := by
    rw [List.filter_filter]
    refine List.filter_congr fun l hl => ?_
    by_cases hk : l.stackId = stackId
    · have hne : ¬ l.key = (stackId, fileId) := by
        intro hkey
        refine hnew (l.executionOrder, file.filePath, l.envFile) ?_ rfl
        rw [stackEntries_eq]
        refine List.mem_filterMap.2 ⟨l, List.mem_filter.2 ⟨hl, decide_eq_true hk⟩, ?_⟩
        rw [show l.composeFileId = fileId from congrArg Prod.snd hkey, hfile]
        rfl
      simp [hk, hne]
    · simp [hk]
  rw [stackEntries_eq, stackEntries_eq]
  simp only [Table.data_replaceRow, List.filter_append, List.filterMap_append, hkeep]
  simp [stackComposeFileRow, hfile]

theorem stackEntries_addComposeToStack {stackId : Int} {db : StackDb} (h : db.Wf)
    (hstack : stackId ∈ db.dockerStacks.ids) (e : Engine) {path : Bytes} (executionOrder : Int)
    (envFile : Bytes) (hnew : ∀ x ∈ stackEntries stackId db, x.2.1 ≠ .ofCStr path)
    (hpath : ∃ server, db.Holds server (.ofCStr path)) :
    stackEntries stackId (addComposeToStack e stackId path executionOrder envFile db).2 =
      stackEntries stackId db ++
        if e.selectsPath && e.links then [(executionOrder, .ofCStr path, some (.ofCStr envFile))]
        else [] := by
  obtain ⟨hmade, hnot⟩ := addComposeToStack_spec h hstack e path executionOrder envFile
  by_cases hlink : (e.selectsPath && e.links) = true
  · obtain ⟨hsel, hlinks⟩ := Bool.and_eq_true_iff.1 hlink
    obtain ⟨fileId, file, hfile, hfp, heq⟩ := hmade hsel hlinks hpath
    rw [heq, if_pos hlink, ← hfp]
    exact stackEntries_link hfile (hfp ▸ hnew) executionOrder envFile
  · rw [hnot, if_neg hlink, List.append_nil]
    rintro ⟨hsel, hlinks, -⟩
    exact hlink (Bool.and_eq_true_iff.2 ⟨hsel, hlinks⟩)

/-! ## The loop -/

/-- The loop under way for a stack whose links all lead to a row. -/
def Creation.Resolved (stackId : Int) (s : Creation) : Prop :=
  s.db.LinksTo stackId fun _ => True

/-- One turn: the entry of the file, if everything it takes is carried out. -/
theorem addFile_entries {db : StackDb} {serverId stackId : Int} {s : Creation}
    (h : s.UnderWay db serverId stackId) (hres : s.Resolved stackId) (host : Host) (i : Nat)
    {path : Bytes} (envFile : Bytes)
    (hnew : ∀ x ∈ stackEntries stackId s.db, x.2.1 ≠ .ofCStr path) :
    let s' := s.addFile host serverId stackId i path envFile
    s'.Resolved stackId ∧
      (∀ server p, p ≠ .ofCStr path → (s'.db.Holds server p ↔ s.db.Holds server p)) ∧
      stackEntries stackId s'.db = stackEntries stackId s.db ++
        if carried host serverId s.db i path then
          [(toInt i, .ofCStr path, some (.ofCStr envFile))]
        else [] := by
  intro s'
  by_cases hread : (host.readFile (.ofCStr path)).isSome
  · obtain ⟨t, hprep, hholds, hreg, hnot⟩ :=
      addFile_spec stackId hread h.wf h.server h.lastInsertId i envFile
    have ht : t.UnderWay db serverId stackId :=
      h.prepares hprep fun server p hp => ((hholds server p).1 hp).imp_right fun hr => hr.2.1
    have hrest : t.Resolved stackId := StackDb.LinksTo.grows hres hprep.grows hprep.stackComposeFiles
    have hentries : stackEntries stackId t.db = stackEntries stackId s.db :=
      stackEntries_grows hres hprep.grows hprep.stackComposeFiles
    have hother : ∀ server p, p ≠ .ofCStr path → (t.db.Holds server p ↔ s.db.Holds server p) := by
      intro server p hp
      rw [hholds]
      exact or_iff_left fun hr => hp hr.2.2
    by_cases hr : s.db.Registers (host.engine i) serverId (.ofCStr path)
    · have hs' : s'.db = (addComposeToStack (host.engine i) stackId path (toInt i) envFile t.db).2 :=
        congrArg Creation.db (hreg hr)
      have hfiles := (addComposeToStack_wf ht.wf (host.engine i) stackId path (toInt i) envFile).2
      rw [Creation.Resolved, hs']
      refine ⟨hrest.addComposeToStack ht.wf ht.stack _ _ _ fun _ _ => trivial, fun server p hp => ?_,
        ?_⟩
      · exact (composeFilesTable.holds_congr hfiles server p).trans (hother server p hp)
      · rw [stackEntries_addComposeToStack ht.wf ht.stack (host.engine i) (toInt i) envFile
          (hentries ▸ hnew) ⟨serverId, (hholds _ _).2 (Or.inr ⟨hr, rfl, rfl⟩)⟩, hentries]
        have hcarried : carried host serverId s.db i path =
            ((host.engine i).selectsPath && (host.engine i).links) := by
          rw [Bool.eq_iff_iff, carried_iff, Bool.and_eq_true]
          exact ⟨fun hc => hc.2.2, fun hl => ⟨hread, hr, hl⟩⟩
        rw [hcarried]
    · have hs' : s' = t := hnot hr
      have hcarried : ¬ carried host serverId s.db i path = true := fun hc =>
        hr (carried_iff.1 hc).2.1
      rw [hs', hentries, if_neg hcarried, List.append_nil]
      exact ⟨hrest, hother, rfl⟩
  · have hs' : s' = s := by
      simp only [s', Creation.addFile, Option.not_isSome_iff_eq_none.1 hread]
      rfl
    have hcarried : ¬ carried host serverId s.db i path = true := fun hc =>
      hread (carried_iff.1 hc).1
    rw [hs', if_neg hcarried, List.append_nil]
    exact ⟨hres, fun _ _ _ => Iff.rfl, rfl⟩

/-- The paths of a turn on, with their positions, whose files get linked. -/
def linkedPaths (host : Host) (serverId : Int) (db : StackDb) (i : Nat) (paths : List Bytes) :
    List (Bytes × Nat) :=
  (paths.zipIdx i).filter fun p => carried host serverId db p.2 p.1

theorem addFiles_entries {db : StackDb} {serverId stackId : Int} (host : Host)
    (envFiles : List Bytes) : ∀ (paths : List Bytes) (i : Nat) {s : Creation},
    s.UnderWay db serverId stackId → s.Resolved stackId → (paths.map cstr).Nodup →
      (∀ x ∈ stackEntries stackId s.db, ∀ path ∈ paths, x.2.1 ≠ .ofCStr path) →
      stackEntries stackId (Creation.addFiles host serverId stackId envFiles i paths s).db =
        stackEntries stackId s.db ++ (linkedPaths host serverId s.db i paths).map fun p =>
          (toInt p.2, .ofCStr p.1, some (.ofCStr (envFiles.getD p.2 []))) := by
  intro paths
  induction paths with
  | nil => exact fun i s _ _ _ _ => (List.append_nil _).symm
  | cons path paths ih =>
      intro i s h hres hnodup hnew
      rw [List.map_cons, List.nodup_cons] at hnodup
      have hne : ∀ p ∈ paths, Text.ofCStr p ≠ .ofCStr path := by
        intro p hp heq
        refine hnodup.1 (List.mem_map.2 ⟨p, hp, ?_⟩)
        rw [← Text.ofCStr_bytes, heq, Text.ofCStr_bytes]
      obtain ⟨hres', hholds, hentries⟩ := addFile_entries h hres host i (envFiles.getD i [])
        fun x hx => hnew x hx path List.mem_cons_self
      have hlater : linkedPaths host serverId
          (s.addFile host serverId stackId i path (envFiles.getD i [])).db (i + 1) paths =
            linkedPaths host serverId s.db (i + 1) paths := by
        refine List.filter_congr fun p hp => ?_
        rw [Bool.eq_iff_iff, carried_iff, carried_iff, StackDb.Registers, StackDb.Registers,
          hholds serverId _ (hne p.1 (List.fst_mem_of_mem_zipIdx hp))]
      rw [Creation.addFiles, ih (i + 1) (h.addFile host i path (envFiles.getD i [])).1 hres'
        hnodup.2 ?_, hentries, hlater, linkedPaths, linkedPaths, List.zipIdx_cons, List.filter_cons]
      · split
        · rw [List.map_cons, List.append_assoc]
          rfl
        · rw [List.append_nil]
      · intro x hx p hp
        rw [hentries, List.mem_append] at hx
        rcases hx with hx | hx
        · exact hnew x hx p (List.mem_cons_of_mem _ hp)
        · split at hx
          · rw [List.mem_singleton.1 hx]
            exact (hne p hp).symm
          · cases hx

/-! ## The stack that is read back -/

theorem toInt_of_lt {i : Nat} (h : i < 2 ^ 31) : toInt i = i :=
  Int.bmod_eq_of_le_mul_two (by omega) (by omega)

/-- The positions of the linked paths increase. -/
theorem linkedPaths_increasing (host : Host) (serverId : Int) (db : StackDb) (i : Nat)
    (paths : List Bytes) :
    (linkedPaths host serverId db i paths).Pairwise fun p q => p.2 < q.2 := by
  refine List.Pairwise.filter _ ?_
  have h : ((paths.zipIdx i).map Prod.snd).Pairwise (· < ·) := by
    rw [List.zipIdx_map_snd]
    exact List.pairwise_lt_range'
  exact List.pairwise_map.1 h

theorem linkedPaths_lt {host : Host} {serverId : Int} {db : StackDb} {paths : List Bytes}
    {p : Bytes × Nat} (hp : p ∈ linkedPaths host serverId db 0 paths) : p.2 < paths.length := by
  have hp := List.mem_of_mem_filter hp
  have hlt := List.snd_lt_add_of_mem_zipIdx hp
  omega

/-- The ORDER BY returns entries whose orders increase as they are stored. -/
theorem orderBy_stackFiles (order : RowOrder) {stackId : Int} {db : StackDb}
    (h : (stackEntries stackId db).Pairwise fun x y => x.1 < y.1) :
    order.orderBy (fun lf => lf.1.executionOrder) (stackFiles stackId db) =
      stackFiles stackId db := by
  refine order.orderBy_eq _ ?_
  rw [stackEntries, List.pairwise_map] at h
  exact h

/-- The row of a stack just created is the only one of its key. -/
theorem select_insertRow (order : RowOrder) {db : StackDb} {row : StackRow}
    (h : acceptsStack row db = true) :
    (order.arrange ((db.dockerStacks.insertRow row).rows.filter
      fun x => x.2.key = row.key)).head? = some (db.dockerStacks.lastId + 1, row) := by
  have hnone : (db.dockerStacks.rows.filter fun x => decide (x.2.key = row.key)) = [] := by
    refine List.filter_eq_nil_iff.2 fun x hx hkey => ?_
    rw [acceptsStack, Bool.and_eq_true, Bool.not_eq_true', List.any_eq_false] at h
    exact h.2 x.2 (List.mem_map_of_mem hx) hkey
  have honly : ((db.dockerStacks.insertRow row).rows.filter fun x => decide (x.2.key = row.key)) =
      [(db.dockerStacks.lastId + 1, row)] := by
    rw [Table.insertRow, List.filter_append, hnone]
    simp
  rw [honly, List.perm_singleton.1 (order.perm _)]
  rfl

/-- With distinct paths, what a created stack lists is exactly what was carried out, in the
given order and with the given env files; and no id means that nothing was changed. -/
theorem getStack_createStackFromCompose {db : StackDb} (h : db.Wf) (host : Host) (serverId : Int)
    (stackName : Bytes) {composePaths : List Bytes} (hdistinct : (composePaths.map cstr).Nodup)
    (hlength : composePaths.length ≤ 2 ^ 31) (envFiles : List Bytes) (description : Bytes)
    (order : RowOrder) :
    let r := createStackFromCompose host serverId stackName composePaths envFiles description db
    let linked := linkedPaths host serverId db 0 composePaths
    (r.1 = 0 → r.2 = db) ∧
      (r.1 ≠ 0 → ∃ stack, getStack order serverId stackName r.2 = some stack ∧
        stack.id = r.1 ∧ stack.composeFiles = linked.map (fun p => cstr p.1) ∧
        stack.envFiles = linked.map fun p => cstr (envFiles.getD p.2 [])) := by
  intro r linked
  by_cases hacc : host.createsStack = true ∧
      acceptsStack (stackRow host.now serverId stackName description 0) db = true
  · obtain ⟨hpos, hstart, hfresh, hfiles⟩ := createStack_underWay h hacc.2
    have hc := createStack_of_accepts hacc.2
    have hr : r = createStackFromCompose host serverId stackName composePaths envFiles description
      db := rfl
    rw [createStackFromCompose, hacc.1] at hr
    generalize createStack true host.now serverId stackName description 0 db = c
      at hpos hstart hfresh hfiles hc hr
    simp only [if_neg (Int.ne_of_gt hpos)] at hr
    have hnone : stackEntries c.1 c.2 = [] := by
      rw [stackEntries_eq, List.filter_eq_nil_iff.2 fun l hl => ?_]
      · rfl
      · simpa using hfresh l hl
    have hlinked : linkedPaths host serverId c.2 0 composePaths = linked := by
      refine List.filter_congr fun p _ => ?_
      rw [carried, carried, hfiles]
    have hentries := addFiles_entries host envFiles composePaths 0 hstart
      (fun l hl hk => absurd hk (hfresh l hl)) hdistinct (by simp [hnone])
    have hend := (hstart.addFiles host envFiles composePaths 0).1
    generalize Creation.addFiles host serverId c.1 envFiles 0 composePaths ⟨c.2, c.1⟩ = s
      at hr hentries hend
    rw [hnone, List.nil_append, hlinked] at hentries
    have horder : (stackEntries c.1 s.db).Pairwise fun x y => x.1 < y.1 := by
      rw [hentries, List.pairwise_map]
      refine (linkedPaths_increasing host serverId db 0 composePaths).imp_of_mem
        fun {p q} hp hq hlt => ?_
      have hp := linkedPaths_lt hp
      have hq := linkedPaths_lt hq
      simp only
      rw [toInt_of_lt (by omega), toInt_of_lt (by omega)]
      exact_mod_cast hlt
    rw [hr]
    have hrow := select_insertRow order hacc.2
    refine ⟨fun hzero => absurd hzero (Int.ne_of_gt hpos), fun _ => ?_⟩
    have hid : c.1 = db.dockerStacks.lastId + 1 := congrArg Prod.fst hc
    have htable : s.db.dockerStacks = db.dockerStacks.insertRow
        (stackRow host.now serverId stackName description 0) := by
      rw [hend.grows.dockerStacks, hc]
    rw [getStack, htable]
    refine ⟨_, congrArg _ hrow, hid.symm, ?_, ?_⟩
    · have hpaths : (stackFiles c.1 s.db).map (fun lf => lf.2.filePath.bytes) =
          (stackEntries c.1 s.db).map fun e => e.2.1.bytes := by
        rw [stackEntries, List.map_map]
        rfl
      simp only
      rw [← hid, orderBy_stackFiles order horder, hpaths, hentries, List.map_map]
      exact List.map_congr_left fun p _ => Text.ofCStr_bytes _
    · have henvs : (stackFiles c.1 s.db).map (fun lf => textColumn lf.1.envFile) =
          (stackEntries c.1 s.db).map fun e => textColumn e.2.2 := by
        rw [stackEntries, List.map_map]
        rfl
      simp only
      rw [← hid, orderBy_stackFiles order horder, henvs, hentries, List.map_map]
      exact List.map_congr_left fun p _ => Text.ofCStr_bytes _
  · have hr : r = (0, db) := by
      simp only [r, createStackFromCompose, createStack_of_not hacc, if_true]
    rw [hr]
    exact ⟨fun _ => rfl, fun hne => absurd rfl hne⟩

/-- A host on which the one file is missing. -/
def missingFile : Host := { emptyFiles with
  readFile := fun path => if path = .ofCStr (bytes "/b.yml") then none else some [] }

theorem getStack_missingFile :
    ∃ stack, getStack .byId 1 (bytes "media") (createStackFromCompose missingFile 1 (bytes "media")
        [bytes "/a.yml", bytes "/b.yml", bytes "/c.yml"] [bytes "a.env", [], bytes "c.env"] []
        (.fresh [1])).2 = some stack ∧
      stack.composeFiles = [bytes "/a.yml", bytes "/c.yml"] ∧
      stack.envFiles = [bytes "a.env", bytes "c.env"] := by
  have hdistinct : ([bytes "/a.yml", bytes "/b.yml", bytes "/c.yml"].map cstr).Nodup := by decide
  have h := getStack_createStackFromCompose (StackDb.wf_fresh [1]) missingFile 1 (bytes "media")
    hdistinct (by decide) [bytes "a.env", [], bytes "c.env"] [] .byId
  obtain ⟨stack, hget, -, hpaths, henvs⟩ := h.2 (by decide +kernel)
  exact ⟨stack, hget, hpaths.trans (by decide +kernel), henvs.trans (by decide +kernel)⟩

/-- The stack is there without the file that could not be opened. -/
theorem createStackFromCompose_skips :
    (createStackFromCompose missingFile 1 (bytes "media") [bytes "/b.yml"] [] []
        (.fresh [1])).1 ≠ 0 ∧
      (getStack .byId 1 (bytes "media") (createStackFromCompose missingFile 1 (bytes "media")
        [bytes "/b.yml"] [] [] (.fresh [1])).2).map (·.composeFiles) ≠ some [bytes "/b.yml"] := by
  decide +kernel

end Nazg.Docker
