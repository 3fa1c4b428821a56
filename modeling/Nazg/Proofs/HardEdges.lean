import Nazg.Proofs.StartOrder

/-!
# Which hard dependencies survive being stored

All dependencies of a compose file go into one table whose uniqueness key is the
pair of services, without the type. The pass reports the hard dependencies of a
service before the soft ones, so when a service shares a network or a volume with
a service it needs, the soft row is written last and replaces the hard one. The
start order then no longer sees the edge.

The order of the rows is the whole argument: `extractDependencies_ordered` says
that a soft row stands before a hard one only when its service is the smaller,
and the last row of a key is the one that stays.
-/

namespace Nazg.Docker

open Lib Lib.Sqlite Nexus

/-! ## The order of the reported dependencies -/

/-- Within a service the hard ones come first. -/
def ReportedBefore (x y : DetectedDependency) : Prop :=
  x.service < y.service ∨ x.service = y.service ∧ (x.kind = .soft → y.kind = .soft)

theorem serviceDeps_service {compose : ComposeFile} {name : Bytes} {service : ComposeService}
    {x : DetectedDependency} (hs : compose.services.find? name = some service)
    (h : x ∈ serviceDeps compose name service) : x.service = name := by
  rcases List.mem_append.1 h with h | h
  · exact (mem_hardDeps h).1
  · exact (mem_softDeps hs h).1

theorem serviceDeps_ordered {compose : ComposeFile} {name : Bytes} {service : ComposeService}
    (hs : compose.services.find? name = some service) :
    (serviceDeps compose name service).Pairwise ReportedBefore := by
  refine List.pairwise_append.2 ⟨?_, ?_, ?_⟩
  · refine List.pairwise_of_forall_mem_list fun x hx y hy => ?_
    obtain ⟨hxs, hxk, -⟩ := mem_hardDeps hx
    obtain ⟨hys, -, -⟩ := mem_hardDeps hy
    exact Or.inr ⟨hxs.trans hys.symm, fun h => by rw [hxk] at h; cases h⟩
  · refine List.pairwise_of_forall_mem_list fun x hx y hy => ?_
    obtain ⟨hxs, -, -⟩ := mem_softDeps hs hx
    obtain ⟨hys, hyk, -⟩ := mem_softDeps hs hy
    exact Or.inr ⟨hxs.trans hys.symm, fun _ => hyk⟩
  · intro x hx y hy
    obtain ⟨hxs, -, -⟩ := mem_hardDeps hx
    obtain ⟨hys, hyk, -⟩ := mem_softDeps hs hy
    exact Or.inr ⟨hxs.trans hys.symm, fun _ => hyk⟩

/-- Services in key order, and within a service the hard dependencies first. -/
theorem extractDependencies_ordered (compose : ComposeFile) :
    (extractDependencies compose).Pairwise ReportedBefore := by
  refine List.pairwise_flatMap.2 ⟨fun e he => serviceDeps_ordered (OrdMap.mem_entries.1 he), ?_⟩
  refine compose.services.sorted.imp_of_mem fun {e f} he hf hlt x hx y hy => Or.inl ?_
  rw [serviceDeps_service (OrdMap.mem_entries.1 he) hx,
    serviceDeps_service (OrdMap.mem_entries.1 hf) hy]
  exact hlt

theorem mem_extract_hard {compose : ComposeFile} {x : DetectedDependency}
    (hx : x ∈ extractDependencies compose) (hk : x.kind = .hard) :
    ∃ a, compose.services.find? x.service = some a ∧ a.Needs x.dependsOn := by
  obtain ⟨e, he, hx⟩ := List.mem_flatMap.1 hx
  have hfind := OrdMap.mem_entries.1 (show (e.1, e.2) ∈ compose.services.entries from he)
  rcases List.mem_append.1 hx with h | h
  · obtain ⟨hs, -, hn⟩ := mem_hardDeps h
    exact ⟨e.2, hs ▸ hfind, hn⟩
  · rw [(mem_softDeps hfind h).2.1] at hk
    cases hk

theorem mem_extract_soft {compose : ComposeFile} {x : DetectedDependency}
    (hx : x ∈ extractDependencies compose) (hk : x.kind = .soft) :
    compose.Shares x.service x.dependsOn := by
  obtain ⟨e, he, hx⟩ := List.mem_flatMap.1 hx
  have hfind := OrdMap.mem_entries.1 (show (e.1, e.2) ∈ compose.services.entries from he)
  rcases List.mem_append.1 hx with h | h
  · rw [(mem_hardDeps h).2.1] at hk
    cases hk
  · obtain ⟨hs, -, hshare⟩ := mem_softDeps hfind h
    exact hs ▸ hshare

theorem exists_extract_hard {compose : ComposeFile} {s d : Bytes} {a : ComposeService}
    (hs : compose.services.find? s = some a) (hn : a.Needs d) :
    ∃ x ∈ extractDependencies compose, x.service = s ∧ x.dependsOn = d ∧ x.kind = .hard := by
  obtain ⟨x, hx, hspec⟩ := exists_hardDep s hn
  exact ⟨x, List.mem_flatMap.2 ⟨(s, a), OrdMap.mem_entries.2 hs, List.mem_append_left _ hx⟩, hspec⟩

theorem exists_extract_soft {compose : ComposeFile} {s o : Bytes} (h : compose.Shares s o) :
    ∃ x ∈ extractDependencies compose, x.service = s ∧ x.dependsOn = o ∧ x.kind = .soft := by
  obtain ⟨a, hs, x, hx, hspec⟩ := exists_softDep h
  exact ⟨x, List.mem_flatMap.2 ⟨(s, a), OrdMap.mem_entries.2 hs, List.mem_append_right _ hx⟩, hspec⟩

/-- Each reported type reaches the filter of the start order as its kind says. -/
theorem isStartOrderType_iff {compose : ComposeFile} {x : DetectedDependency}
    (hx : x ∈ extractDependencies compose) :
    isStartOrderType (cstr x.type) = true ↔ x.kind = .hard := by
  have htypes : x.type ∈ [bytes "depends_on", bytes "network_mode", bytes "shared_network",
      bytes "shared_volume"] := by
    obtain ⟨e, -, hx⟩ := List.mem_flatMap.1 hx
    simp only [serviceDeps, explicitDeps, networkModeDeps, sharedNetworkDeps, sharedVolumeDeps,
      List.mem_append, List.mem_map, List.mem_flatMap] at hx
    rcases hx with (⟨_, -, rfl⟩ | ⟨_, -, rfl⟩) | (⟨_, -, _, -, rfl⟩ | ⟨_, -, _, -, _, -, rfl⟩)
    · simp
    · simp
    · simp
    · simp
  have hall : ∀ t ∈ [bytes "depends_on", bytes "network_mode", bytes "shared_network",
      bytes "shared_volume"], (isStartOrderType (cstr t) = true ↔
        t = bytes "depends_on" ∨ t = bytes "network_mode") := by
    decide
  rw [hall x.type htypes, DetectedDependency.kind]
  split
  · next h => simp [h]
  · next h => simp [h]

/-! ## The rows that stay -/

theorem addDependency_of_mem (now : Int) {serverId : Int} {db : Db} (hs : serverId ∈ db.servers)
    (service dependsOn type : Bytes) :
    let r := addDependency now serverId service dependsOn type db
    r.1 = true ∧ r.2.servers = db.servers ∧
      r.2.serviceDependencies = db.serviceDependencies.replaceRow
        (fun r => r.key = (dependencyRow now serverId service dependsOn type).key)
        (dependencyRow now serverId service dependsOn type) := by
  simp only [addDependency, if_pos hs, and_self]

/-- The row of one call. -/
def callRow (serverId : Int) (call : Int × DetectedDependency) : ServiceDependencyRow :=
  dependencyRow call.1 serverId call.2.service call.2.dependsOn call.2.type

/-- With the server row in place every call stores its row, the later over the earlier. -/
theorem storeDependencies_of_mem {serverId : Int} {db : Db} (hs : serverId ∈ db.servers)
    (calls : List (Int × DetectedDependency)) :
    (storeDependencies serverId calls db).1 = calls.length ∧
      (storeDependencies serverId calls db).2.serviceDependencies =
        db.serviceDependencies.replaceAll ServiceDependencyRow.key
          (calls.map (callRow serverId)) := by
  have hloop : ∀ (calls : List (Int × DetectedDependency)) (n : Nat) (db : Db),
      serverId ∈ db.servers →
      let r := calls.foldl (fun acc call =>
        let r := addDependency call.1 serverId call.2.service call.2.dependsOn call.2.type acc.2
        (if r.1 then acc.1 + 1 else acc.1, r.2)) (n, db)
      r.1 = n + calls.length ∧ r.2.serviceDependencies =
        db.serviceDependencies.replaceAll ServiceDependencyRow.key
          (calls.map (callRow serverId)) := by
    intro calls
    induction calls with
    | nil => intro n db _; exact ⟨rfl, rfl⟩
    | cons call calls ih =>
        intro n db hs
        obtain ⟨hok, hservers, hrows⟩ := addDependency_of_mem call.1 hs
          call.2.service call.2.dependsOn call.2.type
        obtain ⟨hn, ht⟩ := ih (n + 1)
          (addDependency call.1 serverId call.2.service call.2.dependsOn call.2.type db).2
          (hservers ▸ hs)
        simp only [List.foldl_cons, hok, if_true]
        refine ⟨by rw [hn, List.length_cons]; omega, ?_⟩
        rw [ht, hrows]
        rfl
  obtain ⟨hn, ht⟩ := hloop calls 0 db hs
  exact ⟨by rw [← Nat.zero_add calls.length, ← hn]; rfl, ht⟩

/-- The pair of names a dependency is stored under. -/
def DetectedDependency.storedPair (x : DetectedDependency) : Text × Text :=
  (.ofCStr x.service, .ofCStr x.dependsOn)

theorem callRow_key_eq_iff (serverId : Int) (c c' : Int × DetectedDependency) :
    (callRow serverId c).key = (callRow serverId c').key ↔ c.2.storedPair = c'.2.storedPair := by
  simp only [callRow, dependencyRow, ServiceDependencyRow.key, DetectedDependency.storedPair,
    Prod.mk.injEq, true_and]

/-- Among the rows satisfying a predicate there is a last one. -/
theorem exists_last {α : Type*} {p : α → Prop} {l : List α} (h : ∃ x ∈ l, p x) :
    ∃ l₁ x l₂, l = l₁ ++ x :: l₂ ∧ p x ∧ ∀ y ∈ l₂, ¬ p y := by
  induction l with
  | nil => obtain ⟨x, hx, -⟩ := h; cases hx
  | cons a l ih =>
      by_cases hl : ∃ x ∈ l, p x
      · obtain ⟨l₁, x, l₂, rfl, hx⟩ := ih hl
        exact ⟨a :: l₁, x, l₂, rfl, hx⟩
      · obtain ⟨x, hx, hp⟩ := h
        rcases List.mem_cons.1 hx with rfl | hx
        · exact ⟨[], x, l, rfl, hp, fun y hy hy' => hl ⟨y, hy, hy'⟩⟩
        · exact absurd ⟨x, hx, hp⟩ hl

/-- A pair's last dependency is hard exactly when each soft one is followed by a
hard one of a greater service. -/
theorem last_hard_iff {compose : ComposeFile} {k : Text × Text}
    (hk : ∃ x ∈ extractDependencies compose, x.storedPair = k) :
    (∃ l₁ x l₂, extractDependencies compose = l₁ ++ x :: l₂ ∧
      (x.storedPair = k ∧ x.kind = .hard) ∧ ∀ y ∈ l₂, y.storedPair ≠ k) ↔
    ∀ y ∈ extractDependencies compose, y.storedPair = k → y.kind = .soft →
      ∃ x ∈ extractDependencies compose, x.storedPair = k ∧ x.kind = .hard ∧
        y.service < x.service := by
  have hord := extractDependencies_ordered compose
  constructor
  · rintro ⟨l₁, x, l₂, heq, ⟨hxk, hx⟩, hlast⟩ y hy hyk hsoft
    refine ⟨x, by rw [heq]; simp, hxk, hx, ?_⟩
    rw [heq] at hy hord
    rcases List.mem_append.1 hy with hy | hy
    · rcases (List.pairwise_append.1 hord).2.2 y hy x List.mem_cons_self with hlt | ⟨-, himp⟩
      · exact hlt
      · rw [himp hsoft] at hx
        cases hx
    · rcases List.mem_cons.1 hy with rfl | hy
      · rw [hsoft] at hx
        cases hx
      · exact absurd hyk (hlast y hy)
  · intro hall
    obtain ⟨l₁, x, l₂, heq, hxk, hlast⟩ := exists_last hk
    refine ⟨l₁, x, l₂, heq, ⟨hxk, ?_⟩, hlast⟩
    cases hkind : x.kind with
    | hard => rfl
    | soft =>
        obtain ⟨z, hz, hzk, hzh, hlt⟩ := hall x (by rw [heq]; simp) hxk hkind
        rw [heq] at hz hord
        rcases List.mem_append.1 hz with hz | hz
        · rcases (List.pairwise_append.1 hord).2.2 z hz x List.mem_cons_self with h | ⟨h, -⟩
          · exact absurd h (lt_asymm hlt)
          · exact absurd h.symm (ne_of_lt hlt)
        · rcases List.mem_cons.1 hz with rfl | hz
          · exact absurd hlt (lt_irrefl _)
          · exact absurd hzk (hlast z hz)

/-! ## The edges that survive -/

/-- Every hard dependency the pass reported is still stored as one, and the graph
of the start order has its edge for every request that names the service. -/
structure HardEdgesKept (compose : ComposeFile) (serverId : Int) (db : Db) : Prop where
  stored : ∀ x ∈ extractDependencies compose, x.kind = .hard →
    ∃ r ∈ getDependencies db serverId x.service, r.dependsOn = x.dependsOn ∧
      isStartOrderType r.type = true
  ordered : ∀ x ∈ extractDependencies compose, x.kind = .hard → ∀ services,
    x.service ∈ services →
      x.dependsOn ∈ successors (dependencyGraph db serverId services) x.service

/-- Some soft row for the names of `s` and `d`, as they are stored, is written
after every hard one. Both names may belong to several services when they hold a
terminator; otherwise this is just sharing (`writtenOver_iff_shares`). -/
def ComposeFile.WrittenOver (compose : ComposeFile) (s d : Bytes) : Prop :=
  ∃ s' o, cstr s' = cstr s ∧ cstr o = cstr d ∧ compose.Shares s' o ∧
    ∀ t a e, compose.services.find? t = some a → a.Needs e → cstr t = cstr s →
      cstr e = cstr d → t ≤ s'

theorem storedPair_eq_iff {x : DetectedDependency} {s d : Bytes} :
    x.storedPair = (.ofCStr s, .ofCStr d) ↔ cstr x.service = cstr s ∧ cstr x.dependsOn = cstr d := by
  simp only [DetectedDependency.storedPair, Prod.mk.injEq, Text.ofCStr, Text.mk.injEq]

/-- A stored start-order edge comes from a pair whose last dependency is hard. -/
theorem startEdge_stored_iff {compose : ComposeFile} {serverId : Int} {db : Db}
    {calls : List (Int × DetectedDependency)} (hs : serverId ∈ db.servers)
    (hcalls : calls.map Prod.snd = extractDependencies compose)
    {s d : Bytes} (hk : ∃ x ∈ extractDependencies compose, x.storedPair = (.ofCStr s, .ofCStr d)) :
    StartEdge (storeDependencies serverId calls db).2 serverId (cstr s) (cstr d) ↔
      ∃ l₁ x l₂, extractDependencies compose = l₁ ++ x :: l₂ ∧
        (x.storedPair = (.ofCStr s, .ofCStr d) ∧ x.kind = .hard) ∧
        ∀ y ∈ l₂, y.storedPair ≠ (.ofCStr s, .ofCStr d) := by
  have hrows := (storeDependencies_of_mem hs calls).2
  constructor
  · rintro ⟨r, hr, hserver, hname, hdep, htype⟩
    rw [hrows, Table.mem_data_replaceAll] at hr
    rcases hr with ⟨l₁, l₂, heq, hlast⟩ | ⟨-, hnone⟩
    · obtain ⟨c₁, c₂', rfl, rfl, hc₂⟩ := List.map_eq_append_iff.1 heq
      obtain ⟨c, c₂, rfl, rfl, rfl⟩ := List.map_eq_cons_iff.1 hc₂
      have hmem : c.2 ∈ extractDependencies compose := by
        rw [← hcalls]; simp
      have hpair : c.2.storedPair = (.ofCStr s, .ofCStr d) :=
        storedPair_eq_iff.2 ⟨hname, hdep⟩
      refine ⟨c₁.map Prod.snd, c.2, c₂.map Prod.snd, by rw [← hcalls]; simp,
        ⟨hpair, (isStartOrderType_iff hmem).1 htype⟩, ?_⟩
      rintro y hy hyk
      obtain ⟨c', hc', rfl⟩ := List.mem_map.1 hy
      exact hlast _ (List.mem_map_of_mem hc')
        ((callRow_key_eq_iff serverId c' c).2 (hyk.trans hpair.symm))
    · -- a row from before the run would have been replaced: its pair was written
      obtain ⟨x, hx, hxk⟩ := hk
      rw [← hcalls] at hx
      obtain ⟨c, hc, rfl⟩ := List.mem_map.1 hx
      obtain ⟨hcs, hcd⟩ := storedPair_eq_iff.1 hxk
      refine absurd ?_ (hnone _ (List.mem_map_of_mem hc))
      refine Prod.ext hserver.symm (Prod.ext (Text.ext ?_) (Text.ext ?_))
      · exact hcs.trans hname.symm
      · exact hcd.trans hdep.symm
  · rintro ⟨l₁, x, l₂, heq, ⟨hxk, hx⟩, hlast⟩
    rw [← hcalls] at heq
    obtain ⟨c₁, c₂', rfl, rfl, hc₂⟩ := List.map_eq_append_iff.1 heq
    obtain ⟨c, c₂, rfl, rfl, rfl⟩ := List.map_eq_cons_iff.1 hc₂
    obtain ⟨hcs, hcd⟩ := storedPair_eq_iff.1 hxk
    have hmem : c.2 ∈ extractDependencies compose := by
      rw [← hcalls]; simp
    refine ⟨callRow serverId c, ?_, rfl, hcs, hcd, (isStartOrderType_iff hmem).2 hx⟩
    rw [hrows, Table.mem_data_replaceAll]
    refine Or.inl ⟨c₁.map (callRow serverId), c₂.map (callRow serverId), by simp, ?_⟩
    intro y hy hyk
    obtain ⟨c', hc', rfl⟩ := List.mem_map.1 hy
    exact hlast c'.2 (List.mem_map_of_mem hc')
      (((callRow_key_eq_iff serverId c' c).1 hyk).trans hxk)

/-- The hard edges of a file survive being stored exactly when no needed service
is shared with under the same names, and no needed name is cut by the driver. -/
theorem hardEdgesKept_iff (compose : ComposeFile) (serverId : Int) (db : Db)
    (calls : List (Int × DetectedDependency)) (hs : serverId ∈ db.servers)
    (hcalls : calls.map Prod.snd = extractDependencies compose) :
    HardEdgesKept compose serverId (storeDependencies serverId calls db).2 ↔
      ∀ s a d, compose.services.find? s = some a → a.Needs d →
        (0 : UInt8) ∉ d ∧ ¬ compose.WrittenOver s d := by
  constructor
  · intro hkept s a d hfind hneeds
    obtain ⟨x, hx, rfl, rfl, hkind⟩ := exists_extract_hard hfind hneeds
    have hsucc := hkept.ordered x hx hkind [x.service] (List.mem_singleton.2 rfl)
    obtain ⟨-, hedge⟩ := mem_successors.1 hsucc
    have hcut : cstr x.dependsOn = x.dependsOn := hedge.cstr_right
    refine ⟨cstr_eq_self.1 hcut, ?_⟩
    rintro ⟨s', o, hs', ho, hshare, hall⟩
    rw [← hcut] at hedge
    have hlast := (startEdge_stored_iff hs hcalls ⟨x, hx, rfl⟩).1 hedge
    obtain ⟨y, hy, hys, hyd, hysoft⟩ := exists_extract_soft hshare
    obtain ⟨z, hz, hzk, hzhard, hlt⟩ := (last_hard_iff ⟨x, hx, rfl⟩).1 hlast y hy
      (storedPair_eq_iff.2 ⟨hys ▸ hs', hyd ▸ ho⟩) hysoft
    obtain ⟨b, hb, hbn⟩ := mem_extract_hard hz hzhard
    obtain ⟨hzs, hzd⟩ := storedPair_eq_iff.1 hzk
    exact absurd (hall z.service b z.dependsOn hb hbn hzs hzd) (not_le.2 (hys ▸ hlt))
  · intro hcond
    have hedge : ∀ x ∈ extractDependencies compose, x.kind = .hard →
        StartEdge (storeDependencies serverId calls db).2 serverId (cstr x.service)
          x.dependsOn := by
      intro x hx hkind
      obtain ⟨a, hfind, hneeds⟩ := mem_extract_hard hx hkind
      obtain ⟨hnul, hover⟩ := hcond _ _ _ hfind hneeds
      rw [← cstr_eq_self.2 hnul, startEdge_stored_iff hs hcalls ⟨x, hx, rfl⟩]
      refine (last_hard_iff ⟨x, hx, rfl⟩).2 ?_
      intro y hy hyk hysoft
      by_contra hnone
      obtain ⟨hys, hyd⟩ := storedPair_eq_iff.1 hyk
      refine hover ⟨y.service, y.dependsOn, hys, hyd, mem_extract_soft hy hysoft, ?_⟩
      intro t b e hb hbn ht he
      obtain ⟨z, hz, rfl, rfl, hzhard⟩ := exists_extract_hard hb hbn
      exact le_of_not_gt fun hlt => hnone ⟨z, hz, storedPair_eq_iff.2 ⟨ht, he⟩, hzhard, hlt⟩
    refine ⟨fun x hx hkind => ?_, fun x hx hkind services hmem => ?_⟩
    · obtain ⟨r, hr, hserver, hname, hdep, htype⟩ := hedge x hx hkind
      exact ⟨_, List.mem_map_of_mem (List.mem_filter.2 ⟨hr,
        decide_eq_true ⟨hserver, Text.ext hname⟩⟩), hdep, htype⟩
    · exact mem_successors.2 ⟨hmem, hedge x hx hkind⟩

/-- With names the driver keeps whole, a needed service is written over exactly
when it is also shared with. -/
theorem writtenOver_iff_shares {compose : ComposeFile}
    (hnames : ∀ s a, compose.services.find? s = some a →
      (0 : UInt8) ∉ s ∧ ∀ d, a.Needs d → (0 : UInt8) ∉ d)
    {s d : Bytes} {a : ComposeService} (hfind : compose.services.find? s = some a)
    (hneeds : a.Needs d) : compose.WrittenOver s d ↔ compose.Shares s d := by
  have hs : cstr s = s := cstr_eq_self.2 (hnames s a hfind).1
  have hd : cstr d = d := cstr_eq_self.2 ((hnames s a hfind).2 d hneeds)
  constructor
  · rintro ⟨s', o, hs', ho, hshare, -⟩
    have hboth := hshare
    obtain ⟨-, b, c, hb, hc, -⟩ := hboth
    rw [cstr_eq_self.2 (hnames s' b hb).1, hs] at hs'
    rw [cstr_eq_self.2 (hnames o c hc).1, hd] at ho
    exact hs' ▸ ho ▸ hshare
  · intro hshare
    refine ⟨s, d, rfl, rfl, hshare, fun t b e hb hbn ht _ => ?_⟩
    rw [cstr_eq_self.2 (hnames t b hb).1, hs] at ht
    exact le_of_eq ht

/-- Two services on one network, the first needing the second. -/
def webSharesDb : ComposeFile where
  version := []
  services := (OrdMap.empty.insert (bytes "db")
      { ComposeService.init with name := bytes "db", networks := [bytes "back"] }).insert
    (bytes "web")
      { ComposeService.init with
        name := bytes "web", dependsOn := [bytes "db"], networks := [bytes "back"] }
  networks := .empty
  volumes := .empty

theorem hardEdgesKept_iff_webSharesDb :
    HardEdgesKept webSharesDb 1 (storeDependencies 1
        ((extractDependencies webSharesDb).map fun x => (0, x)) (.fresh [1])).2 ↔
      ∀ s a d, webSharesDb.services.find? s = some a → a.Needs d →
        (0 : UInt8) ∉ d ∧ ¬ webSharesDb.WrittenOver s d :=
  hardEdgesKept_iff webSharesDb 1 (.fresh [1]) _ (by decide) (by simp)

/-- `web` lists `db` under `depends_on`; stored is only that they share a network. -/
theorem webSharesDb_edge_lost :
    ¬ HardEdgesKept webSharesDb 1 (storeDependencies 1
      ((extractDependencies webSharesDb).map fun x => (0, x)) (.fresh [1])).2 := by
  intro hkept
  have hlost : ∀ x ∈ extractDependencies webSharesDb, x.kind = .hard →
      ∃ r ∈ getDependencies (storeDependencies 1
        ((extractDependencies webSharesDb).map fun x => (0, x)) (.fresh [1])).2 1 x.service,
        r.dependsOn = x.dependsOn ∧ isStartOrderType r.type = true := hkept.stored
  revert hlost
  decide

end Nazg.Docker
