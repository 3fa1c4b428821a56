import Nazg.Docker.Stacks

/-!
# The start order comes out backwards

`topological_sort` is Kahn's algorithm run on maps instead of functions:
`topologicalSort_spec` carries the library's whole result over to it, for every
graph. Its edges run from a service to what the service depends on, and the
counters count incoming edges, so what is popped first is what nobody depends
on. The sort is right about the graph it is given; the graph points the wrong
way for a start order.

On an acyclic set of requested services the answer is complete and free of
repetition, and every service stands *before* the services it depends on. It is
a start order exactly when there is nothing to order.
-/

namespace Nazg.Docker

open Lib Nexus

/-! ## The counters -/

/-- The services a node of the graph points to. -/
def successors (graph : OrdMap Bytes (List Bytes)) (node : Bytes) : List Bytes :=
  (graph.find? node).getD []

/-- All nodes, in key order. -/
def graphNodes (graph : OrdMap Bytes (List Bytes)) : List Bytes := (countEdges graph).1.keys

theorem degreeOf_insert (inDegree : OrdMap Bytes Int) (k m : Bytes) (v : Int) :
    degreeOf (inDegree.insert k v) m = if m = k then v else degreeOf inDegree m := by
  rw [degreeOf, OrdMap.find?_insert]
  split
  · rfl
  · rfl

/-- The counting loop over one entry's neighbours. -/
theorem count_neighbors (ns : List Bytes) : ∀ (nodes : OrdMap Bytes Unit)
    (deg : OrdMap Bytes Int),
    let r := ns.foldl (fun acc neighbor =>
      (acc.1.insert neighbor (), acc.2.insert neighbor (degreeOf acc.2 neighbor + 1)))
      (nodes, deg)
    (∀ k, k ∈ r.1.keys ↔ k ∈ nodes.keys ∨ k ∈ ns) ∧
      ∀ m, degreeOf r.2 m = degreeOf deg m + (ns.count m : Int) := by
  induction ns with
  | nil => intro nodes deg; simp
  | cons n ns ih =>
      intro nodes deg
      obtain ⟨hk, hd⟩ := ih (nodes.insert n ()) (deg.insert n (degreeOf deg n + 1))
      refine ⟨fun k => ?_, fun m => ?_⟩
      · rw [List.foldl_cons, hk, OrdMap.mem_keys_insert, List.mem_cons]
        tauto
      · rw [List.foldl_cons, hd, degreeOf_insert, List.count_cons]
        by_cases hm : m = n
        · subst hm
          simp
          omega
        · simp [hm, Ne.symm hm]

theorem countEntry_spec (acc : OrdMap Bytes Unit × OrdMap Bytes Int) (e : Bytes × List Bytes) :
    (∀ k, k ∈ (countEntry acc e).1.keys ↔ k ∈ acc.1.keys ∨ k = e.1 ∨ k ∈ e.2) ∧
      ∀ m, degreeOf (countEntry acc e).2 m = degreeOf acc.2 m + (e.2.count m : Int) := by
  have hinit : ∀ m, degreeOf (if (acc.2.find? e.1).isNone then acc.2.insert e.1 0 else acc.2) m =
      degreeOf acc.2 m := by
    intro m
    split
    · next hf =>
        rw [degreeOf_insert]
        split
        · next hm => rw [hm, degreeOf, Option.isNone_iff_eq_none.1 hf]; rfl
        · rfl
    · rfl
  obtain ⟨hk, hd⟩ := count_neighbors e.2 (acc.1.insert e.1 ())
    (if (acc.2.find? e.1).isNone then acc.2.insert e.1 0 else acc.2)
  refine ⟨fun k => ?_, fun m => ?_⟩
  · rw [countEntry, hk, OrdMap.mem_keys_insert]
    tauto
  · rw [countEntry, hd, hinit]

theorem countEntries_spec (es : List (Bytes × List Bytes)) :
    ∀ acc : OrdMap Bytes Unit × OrdMap Bytes Int,
    (∀ k, k ∈ (es.foldl countEntry acc).1.keys ↔
      k ∈ acc.1.keys ∨ ∃ e ∈ es, k = e.1 ∨ k ∈ e.2) ∧
    ∀ m, degreeOf (es.foldl countEntry acc).2 m =
      degreeOf acc.2 m + ((es.map fun e => e.2.count m).sum : Nat) := by
  induction es with
  | nil => intro acc; simp
  | cons e es ih =>
      intro acc
      obtain ⟨hk, hd⟩ := ih (countEntry acc e)
      obtain ⟨hk₁, hd₁⟩ := countEntry_spec acc e
      refine ⟨fun k => ?_, fun m => ?_⟩
      · rw [List.foldl_cons, hk, hk₁]
        simp only [List.mem_cons, exists_eq_or_imp]
        exact or_assoc
      · rw [List.foldl_cons, hd, hd₁, List.map_cons, List.sum_cons]
        push_cast
        omega

theorem mem_graphNodes {graph : OrdMap Bytes (List Bytes)} {k : Bytes} :
    k ∈ graphNodes graph ↔ k ∈ graph.keys ∨ ∃ u, k ∈ successors graph u := by
  rw [graphNodes, countEdges, (countEntries_spec _ _).1]
  constructor
  · rintro (h | ⟨⟨u, ns⟩, he, rfl | hk⟩)
    · simp at h
    · exact Or.inl (List.mem_map.2 ⟨_, he, rfl⟩)
    · refine Or.inr ⟨u, ?_⟩
      rw [successors, OrdMap.mem_entries.1 he]
      exact hk
  · rintro (h | ⟨u, hu⟩)
    · obtain ⟨e, he, rfl⟩ := List.mem_map.1 h
      exact Or.inr ⟨e, he, Or.inl rfl⟩
    · rw [successors] at hu
      cases hf : graph.find? u with
      | none => rw [hf] at hu; cases hu
      | some ns =>
          rw [hf] at hu
          exact Or.inr ⟨(u, ns), OrdMap.mem_entries.2 hf, Or.inr hu⟩

/-- The counters count, at every node, the edges that come into it. -/
theorem degreeOf_countEdges (graph : OrdMap Bytes (List Bytes)) (m : Bytes) :
    degreeOf (countEdges graph).2 m =
      (Kahn.pending (graphNodes graph) (successors graph) [] m : Int) := by
  have hzero : degreeOf (OrdMap.empty : OrdMap Bytes Int) m = 0 := rfl
  rw [countEdges, (countEntries_spec _ _).2, hzero, zero_add]
  congr 1
  have hkeys : ∀ u ∈ (graphNodes graph).toFinset, u ∉ graph.keys.toFinset →
      (successors graph u).count m = 0 := by
    intro u _ hu
    rw [List.mem_toFinset, ← OrdMap.find?_eq_none] at hu
    rw [successors, hu]
    rfl
  have hsub : graph.keys.toFinset ⊆ (graphNodes graph).toFinset := by
    intro u hu
    rw [List.mem_toFinset] at hu ⊢
    exact mem_graphNodes.2 (Or.inl hu)
  calc (graph.entries.map fun e => e.2.count m).sum
      = (graph.keys.map fun u => (successors graph u).count m).sum := by
        rw [OrdMap.keys, List.map_map]
        refine congrArg _ (List.map_congr_left fun e he => ?_)
        simp only [Function.comp, successors]
        rw [OrdMap.mem_entries.1 (show (e.1, e.2) ∈ graph.entries from he)]
        rfl
    _ = ∑ u ∈ graph.keys.toFinset, (successors graph u).count m :=
        (List.sum_toFinset _ graph.keys_nodup).symm
    _ = ∑ u ∈ (graphNodes graph).toFinset, (successors graph u).count m :=
        Finset.sum_subset hsub hkeys
    _ = Kahn.pending (graphNodes graph) (successors graph) [] m := by
        rw [Kahn.pending, List.toFinset_nil, Finset.sdiff_empty]
        -- the two counts differ in the equality test only
        congr!

/-! ## The loop on maps is the loop on functions -/

theorem relaxNeighbors_eq (ns : List Bytes) : ∀ (deg : OrdMap Bytes Int) (queue : List Bytes),
    let r := ns.foldl relaxNeighbor (deg, queue)
    (degreeOf r.1, r.2) = Kahn.relax ns (degreeOf deg) queue := by
  induction ns with
  | nil => intro deg queue; rfl
  | cons n ns ih =>
      intro deg queue
      have hupd : degreeOf (deg.insert n (degreeOf deg n - 1)) =
          Function.update (degreeOf deg) n (degreeOf deg n - 1) := by
        funext m
        rw [degreeOf_insert, Function.update_apply]
      have hstep : (degreeOf (relaxNeighbor (deg, queue) n).1, (relaxNeighbor (deg, queue) n).2) =
          Kahn.visit (degreeOf deg, queue) n := by
        simp only [relaxNeighbor, Kahn.visit, hupd]
      have := ih (relaxNeighbor (deg, queue) n).1 (relaxNeighbor (deg, queue) n).2
      simp only [Kahn.relax, List.foldl_cons, ← hstep] at this ⊢
      exact this

theorem kahnLoop_eq (graph : OrdMap Bytes (List Bytes)) :
    ∀ (fuel : Nat) (queue : List Bytes) (deg : OrdMap Bytes Int) (result : List Bytes),
    kahnLoop graph fuel queue deg result =
      Kahn.run (successors graph) fuel ⟨queue, degreeOf deg, result⟩ := by
  intro fuel
  induction fuel with
  | zero =>
      intro queue deg result
      cases queue with
      | nil => rfl
      | cons node queue => rfl
  | succ fuel ih =>
      intro queue deg result
      cases queue with
      | nil => rfl
      | cons node queue =>
          rw [kahnLoop, Kahn.run, ih]
          have h := relaxNeighbors_eq ((graph.find? node).getD []) deg queue
          simp only [successors, ← h]

/-- `topological_sort` answers on every graph, cyclic or not, and the answer is
sorted along the edges of the graph. -/
theorem topologicalSort_spec (graph : OrdMap Bytes (List Bytes)) :
    ∃ r, topologicalSort graph = some r ∧
      Kahn.Sorted (graphNodes graph) (successors graph) r := by
  have hstart : Kahn.start (graphNodes graph) (successors graph) =
      ⟨(graphNodes graph).filter fun node => degreeOf (countEdges graph).2 node = 0,
        degreeOf (countEdges graph).2, []⟩ := by
    have hdeg : degreeOf (countEdges graph).2 =
        fun m => (Kahn.pending (graphNodes graph) (successors graph) [] m : Int) :=
      funext (degreeOf_countEdges graph)
    rw [Kahn.start, hdeg]
    simp
  have hclosed : ∀ u ∈ graphNodes graph, ∀ v ∈ successors graph u, v ∈ graphNodes graph :=
    fun u _ v hv => mem_graphNodes.2 (Or.inr ⟨u, hv⟩)
  have hnodup : (graphNodes graph).Nodup := OrdMap.keys_nodup _
  have hspec := Kahn.run_spec hnodup hclosed
  rw [hstart] at hspec
  rw [topologicalSort, kahnLoop_eq]
  exact hspec

/-- An edge of the graph. -/
def GraphEdge (graph : OrdMap Bytes (List Bytes)) (u v : Bytes) : Prop := v ∈ successors graph u

theorem edge_eq_graphEdge (graph : OrdMap Bytes (List Bytes)) :
    Kahn.Edge (graphNodes graph) (successors graph) = GraphEdge graph := by
  funext u v
  refine propext ⟨And.right, fun h => ⟨mem_graphNodes.2 (.inl ?_), h⟩⟩
  rw [OrdMap.mem_keys]
  cases hu : graph.find? u with
  | none =>
      rw [GraphEdge, successors, hu] at h
      exact absurd h List.not_mem_nil
  | some ns => exact ⟨ns, rfl⟩

/-- The sort of any graph ends with the nodes that no cycle leads to, each of them once and
after all nodes with an edge to it. -/
theorem topologicalSort_sorts (graph : OrdMap Bytes (List Bytes)) :
    ∃ order, topologicalSort graph = some order ∧ order.Nodup ∧
      (∀ v, v ∈ order ↔ (v ∈ graph.keys ∨ ∃ u, GraphEdge graph u v) ∧
        ∀ c, Relation.TransGen (GraphEdge graph) c c →
          ¬ Relation.ReflTransGen (GraphEdge graph) c v) ∧
      ∀ u v, GraphEdge graph u v → v ∈ order → Before u v order := by
  obtain ⟨order, horder, hsorted⟩ := topologicalSort_spec graph
  have hmem := fun v => hsorted.mem_iff (v := v)
  have hbefore := fun u v => hsorted.before (u := u) (v := v)
  rw [edge_eq_graphEdge] at hmem hbefore
  refine ⟨order, horder, hsorted.nodup, fun v => ?_, hbefore⟩
  rw [hmem, mem_graphNodes]
  rfl

/-! ## The start order -/

/-- A stored start-order dependency of the server: `s` depends on `d`. -/
def StartEdge (db : Db) (serverId : Int) (s d : Bytes) : Prop :=
  ∃ r ∈ db.serviceDependencies.data, r.serverId = serverId ∧ r.serviceName.bytes = s ∧
    r.dependsOnService.bytes = d ∧
    isStartOrderType ((r.dependencyType.map Text.bytes).getD (bytes "soft")) = true

/-- The start-order edges out of the requested services. -/
def RequestedEdge (db : Db) (serverId : Int) (services : List Bytes) (s d : Bytes) : Prop :=
  s ∈ services ∧ StartEdge db serverId s d

/-- What a start order promises: no repetition, nothing requested missing, and
every dependency before its dependent. -/
structure IsStartOrder (db : Db) (serverId : Int) (services order : List Bytes) : Prop where
  nodup : order.Nodup
  complete : ∀ s ∈ services, s ∈ order
  depsFirst : ∀ s d, RequestedEdge db serverId services s d → s ∈ order → d ∈ order →
    Before d s order

theorem find?_dependencyGraph (db : Db) (serverId : Int) (services : List Bytes) (u : Bytes) :
    (dependencyGraph db serverId services).find? u =
      if u ∈ services then
        some (((getDependencies db serverId u).filter fun d => isStartOrderType d.type).map
          (·.dependsOn))
      else none := by
  have hfold : ∀ (ss : List Bytes) (graph : OrdMap Bytes (List Bytes)),
      (ss.foldl (fun graph service => graph.insert service <|
        ((getDependencies db serverId service).filter fun d => isStartOrderType d.type).map
          (·.dependsOn)) graph).find? u =
      if u ∈ ss then
        some (((getDependencies db serverId u).filter fun d => isStartOrderType d.type).map
          (·.dependsOn))
      else graph.find? u := by
    intro ss
    induction ss with
    | nil => intro graph; rfl
    | cons s ss ih =>
        intro graph
        rw [List.foldl_cons, ih, OrdMap.find?_insert]
        by_cases hus : u ∈ ss
        · rw [if_pos hus, if_pos (List.mem_cons_of_mem _ hus)]
        · by_cases he : u = s
          · subst he
            simp [hus]
          · simp [hus, he]
  exact hfold services .empty

/-- The graph's edges: those stored for the name as the driver binds it. -/
theorem mem_successors {db : Db} {serverId : Int} {services : List Bytes} {u v : Bytes} :
    v ∈ successors (dependencyGraph db serverId services) u ↔
      u ∈ services ∧ StartEdge db serverId (cstr u) v := by
  rw [successors, find?_dependencyGraph]
  split
  · next hu =>
      simp only [Option.getD_some, List.mem_map, List.mem_filter, getDependencies,
        decide_eq_true_eq, StartEdge, hu, true_and]
      constructor
      · rintro ⟨d, ⟨⟨r, ⟨hr, hs, hn⟩, rfl⟩, ht⟩, rfl⟩
        exact ⟨r, hr, hs, by rw [hn]; rfl, rfl, ht⟩
      · rintro ⟨r, hr, hs, hn, hd, ht⟩
        exact ⟨_, ⟨⟨r, ⟨hr, hs, Text.ext hn⟩, rfl⟩, ht⟩, hd⟩
  · next hu => simp [hu]

/-- A stored name crosses the driver unchanged. -/
theorem StartEdge.cstr_left {db : Db} {serverId : Int} {s d : Bytes}
    (h : StartEdge db serverId s d) : cstr s = s := by
  obtain ⟨r, _, _, rfl, _⟩ := h
  exact r.serviceName.cstr_bytes

theorem StartEdge.cstr_right {db : Db} {serverId : Int} {s d : Bytes}
    (h : StartEdge db serverId s d) : cstr d = d := by
  obtain ⟨r, _, _, _, rfl, _⟩ := h
  exact r.dependsOnService.cstr_bytes

theorem requested_mem_graphNodes {db : Db} {serverId : Int} {services : List Bytes} {s : Bytes}
    (h : s ∈ services) : s ∈ graphNodes (dependencyGraph db serverId services) := by
  have hfind : (dependencyGraph db serverId services).find? s ≠ none := by
    rw [find?_dependencyGraph, if_pos h]
    exact Option.some_ne_none _
  exact mem_graphNodes.2 (Or.inl (not_not.1 fun hk => hfind (OrdMap.find?_eq_none.2 hk)))

/-- A cycle of the sorted graph is a cycle of stored edges: every node on it has
an incoming edge, so its name is one the driver stored. -/
theorem requestedEdge_of_cycle {db : Db} {serverId : Int} {services : List Bytes}
    (hac : ∀ s, ¬ Relation.TransGen (RequestedEdge db serverId services) s s) (c : Bytes) :
    ¬ Relation.TransGen (Kahn.Edge (graphNodes (dependencyGraph db serverId services))
      (successors (dependencyGraph db serverId services))) c c := by
  intro hc
  have hstored : ∀ {a b : Bytes},
      Relation.TransGen (Kahn.Edge (graphNodes (dependencyGraph db serverId services))
        (successors (dependencyGraph db serverId services))) a b → cstr a = a →
      Relation.TransGen (RequestedEdge db serverId services) a b ∧ cstr b = b := by
    intro a b hab ha
    induction hab with
    | single he =>
        obtain ⟨hs, hedge⟩ := mem_successors.1 he.2
        rw [ha] at hedge
        exact ⟨.single ⟨hs, hedge⟩, hedge.cstr_right⟩
    | tail _ he ih =>
        obtain ⟨hpath, hb⟩ := ih
        obtain ⟨hs, hedge⟩ := mem_successors.1 he.2
        rw [hb] at hedge
        exact ⟨hpath.tail ⟨hs, hedge⟩, hedge.cstr_right⟩
  obtain ⟨u, _, he⟩ := Relation.TransGen.tail'_iff.1 hc
  exact hac c (hstored hc (mem_successors.1 he.2).2.cstr_right).1

/-- What `calculate_start_order` returns on an acyclic request: all of it, once,
each service before what it depends on. -/
theorem calculateStartOrder_spec {db : Db} {serverId : Int} {services : List Bytes}
    (hac : ∀ s, ¬ Relation.TransGen (RequestedEdge db serverId services) s s) :
    ∃ order, calculateStartOrder db serverId services = some order ∧ order.Nodup ∧
      (∀ s ∈ services, s ∈ order) ∧
      ∀ s d, RequestedEdge db serverId services s d → d ∈ order ∧ Before s d order := by
  obtain ⟨order, hrun, hsorted⟩ := topologicalSort_spec (dependencyGraph db serverId services)
  have hall : ∀ v ∈ graphNodes (dependencyGraph db serverId services), v ∈ order :=
    fun v => hsorted.mem_of_acyclic (requestedEdge_of_cycle hac)
  refine ⟨order, hrun, hsorted.nodup, fun s hs => hall s (requested_mem_graphNodes hs), ?_⟩
  rintro s d ⟨hs, hedge⟩
  have hsucc : d ∈ successors (dependencyGraph db serverId services) s :=
    mem_successors.2 ⟨hs, hedge.cstr_left.symm ▸ hedge⟩
  have hd : d ∈ order := hall d (mem_graphNodes.2 (Or.inr ⟨s, hsucc⟩))
  exact ⟨hd, hsorted.before ⟨requested_mem_graphNodes hs, hsucc⟩ hd⟩

/-- The answer is a start order exactly when the requested services have no
start-order dependency at all. -/
theorem calculateStartOrder_isStartOrder_iff (db : Db) (serverId : Int) (services : List Bytes)
    (hac : ∀ s, ¬ Relation.TransGen (RequestedEdge db serverId services) s s) :
    ∃ order, calculateStartOrder db serverId services = some order ∧
      (IsStartOrder db serverId services order ↔
        ∀ s ∈ services, ∀ d, ¬ StartEdge db serverId s d) := by
  obtain ⟨order, hrun, hnodup, hcomplete, hbefore⟩ := calculateStartOrder_spec hac
  refine ⟨order, hrun, ?_, ?_⟩
  · intro hok s hs d hedge
    obtain ⟨hd, hsd⟩ := hbefore s d ⟨hs, hedge⟩
    exact hsd.asymm hnodup (hok.depsFirst s d ⟨hs, hedge⟩ (hcomplete s hs) hd)
  · intro hnone
    exact ⟨hnodup, hcomplete, fun s d he _ _ => absurd he.2 (hnone s he.1 d)⟩

/-- One server and one stored dependency: `web` depends on `db`. -/
def webOnDb : Db :=
  (addDependency 0 1 (bytes "web") (bytes "db") (bytes "depends_on") (.fresh [1])).2

theorem webOnDb_edge {services : List Bytes} {s d : Bytes}
    (h : RequestedEdge webOnDb 1 services s d) : s = bytes "web" ∧ d = bytes "db" := by
  obtain ⟨-, r, hr, -, rfl, rfl, -⟩ := h
  have hrow : r = dependencyRow 0 1 (bytes "web") (bytes "db") (bytes "depends_on") :=
    List.mem_singleton.1 hr
  subst hrow
  exact ⟨rfl, rfl⟩

theorem webOnDb_acyclic (services : List Bytes) (s : Bytes) :
    ¬ Relation.TransGen (RequestedEdge webOnDb 1 services) s s := by
  intro hc
  obtain ⟨_, hfirst, _⟩ := Relation.TransGen.head'_iff.1 hc
  obtain ⟨_, _, hlast⟩ := Relation.TransGen.tail'_iff.1 hc
  have hs : bytes "web" = bytes "db" := (webOnDb_edge hfirst).1.symm.trans (webOnDb_edge hlast).2
  exact absurd hs (by decide)

theorem calculateStartOrder_isStartOrder_iff_webOnDb :
    ∃ order, calculateStartOrder webOnDb 1 [bytes "web", bytes "db"] = some order ∧
      (IsStartOrder webOnDb 1 [bytes "web", bytes "db"] order ↔
        ∀ s ∈ [bytes "web", bytes "db"], ∀ d, ¬ StartEdge webOnDb 1 s d) :=
  calculateStartOrder_isStartOrder_iff webOnDb 1 _ (webOnDb_acyclic _)

/-- `web` depends on `db`, and the order computed starts `web` first. -/
theorem webOnDb_started_backwards :
    (∀ s, ¬ Relation.TransGen (RequestedEdge webOnDb 1 [bytes "web", bytes "db"]) s s) ∧
      calculateStartOrder webOnDb 1 [bytes "web", bytes "db"] =
        some [bytes "web", bytes "db"] ∧
      ¬ IsStartOrder webOnDb 1 [bytes "web", bytes "db"] [bytes "web", bytes "db"] := by
  refine ⟨webOnDb_acyclic _, by decide, fun hok => ?_⟩
  have hedge : RequestedEdge webOnDb 1 [bytes "web", bytes "db"] (bytes "web") (bytes "db") :=
    ⟨by decide, dependencyRow 0 1 (bytes "web") (bytes "db") (bytes "depends_on"),
      List.mem_singleton.2 rfl, rfl, rfl, rfl, by decide⟩
  have hbefore := hok.depsFirst _ _ hedge (by decide) (by decide)
  exact absurd (hbefore.idxOf_lt (by decide)) (by decide)

end Nazg.Docker
