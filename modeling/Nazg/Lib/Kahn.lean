import Mathlib.Logic.Relation
import Mathlib.Data.Finset.Basic
import Mathlib.Data.Finset.Dedup
import Mathlib.Data.Fintype.EquivFin
import Mathlib.Data.Fintype.Card
import Mathlib.Order.WellFounded
import Mathlib.Algebra.BigOperators.Group.Finset.Basic
import Mathlib.Algebra.Order.BigOperators.Group.Finset

/-!
# Kahn's algorithm

The queue-and-counters topological sort, over any finite directed multigraph:
`adj u` lists the targets of the edges out of `u`, with multiplicity. Nothing is
assumed about cycles. The counters are integers, as they are in programs, and
the loop runs on fuel that `run_spec` shows to be enough.

The whole argument is one invariant. The counter of a node is the number of
edges into it from nodes that have not been popped yet; everything that was ever
queued is a node whose counter reached zero, and nothing is queued twice. When
the queue runs dry the result is closed under predecessors, lists each node
after all of them, and misses exactly the nodes some cycle leads to.
-/

namespace Nazg.Lib

/-- `a` stands before `b` in the list. -/
def Before {α : Type*} (a b : α) (l : List α) : Prop :=
  ∃ l₁ l₂, l = l₁ ++ b :: l₂ ∧ a ∈ l₁

theorem Before.mem_left {α : Type*} {a b : α} {l : List α} (h : Before a b l) : a ∈ l := by
  obtain ⟨l₁, l₂, rfl, ha⟩ := h
  exact List.mem_append_left _ ha

theorem Before.idxOf_lt {α : Type*} [DecidableEq α] {a b : α} {l : List α} (hl : l.Nodup)
    (h : Before a b l) : l.idxOf a < l.idxOf b := by
  obtain ⟨l₁, l₂, rfl, ha⟩ := h
  have hb : b ∉ l₁ := fun hb =>
    (List.nodup_append.1 hl).2.2 b hb b List.mem_cons_self rfl
  rw [List.idxOf_append_of_mem ha, List.idxOf_append_of_notMem hb, List.idxOf_cons_self]
  exact Nat.lt_of_lt_of_le (List.idxOf_lt_length_of_mem ha) (Nat.le_add_right _ _)

/-- In a list without repetition at most one of two elements is before the other. -/
theorem Before.asymm {α : Type*} [DecidableEq α] {a b : α} {l : List α} (hl : l.Nodup)
    (h : Before a b l) : ¬ Before b a l := fun h' =>
  Nat.lt_asymm (h.idxOf_lt hl) (h'.idxOf_lt hl)

namespace Kahn

variable {α : Type*} [DecidableEq α]

/-- The loop's variables. -/
structure State (α : Type*) where
  queue : List α
  inDegree : α → Int
  result : List α

/-- One edge into `m`: its counter drops, and `m` is queued when it reaches zero. -/
def visit (s : (α → Int) × List α) (m : α) : (α → Int) × List α :=
  let deg := Function.update s.1 m (s.1 m - 1)
  (deg, if deg m = 0 then s.2 ++ [m] else s.2)

/-- All edges out of a popped node. -/
def relax (ms : List α) (deg : α → Int) (queue : List α) : (α → Int) × List α :=
  ms.foldl visit (deg, queue)

/-- The loop. It answers once the queue is empty. -/
def run (adj : α → List α) : Nat → State α → Option (List α)
  | _, ⟨[], _, result⟩ => some result
  | 0, ⟨_ :: _, _, _⟩ => none
  | fuel + 1, ⟨node :: queue, deg, result⟩ =>
      let next := relax (adj node) deg queue
      run adj fuel ⟨next.2, next.1, result ++ [node]⟩

/-- The edges of the graph on `nodes`. -/
def Edge (nodes : List α) (adj : α → List α) (u v : α) : Prop := u ∈ nodes ∧ v ∈ adj u

/-- Edges into `m` from the nodes outside `done`. -/
def pending (nodes : List α) (adj : α → List α) (done : List α) (m : α) : Nat :=
  ∑ u ∈ nodes.toFinset \ done.toFinset, (adj u).count m

/-- The state the loop starts in: all counters filled, the sources queued. -/
def start (nodes : List α) (adj : α → List α) : State α where
  queue := nodes.filter fun n => pending nodes adj [] n = 0
  inDegree := fun m => pending nodes adj [] m
  result := []

/-! ## One round -/

/-- A node's edges are taken off the counters, and exactly the nodes whose last
pending edge was among them are queued, each once. -/
theorem relax_spec (ms : List α) : ∀ (deg : α → Int) (queue : List α),
    (∀ m, (ms.count m : Int) ≤ deg m) →
    ∃ p, relax ms deg queue = (fun m => deg m - ms.count m, queue ++ p) ∧ p.Nodup ∧
      ∀ m, m ∈ p ↔ m ∈ ms ∧ deg m = ms.count m := by
  induction ms with
  | nil =>
      intro deg queue _
      exact ⟨[], by simp [relax], List.nodup_nil, by simp⟩
  | cons x ms ih =>
      intro deg queue h
      have hx := h x
      rw [List.count_cons_self] at hx
      have hdeg : ∀ m, (ms.count m : Int) ≤ Function.update deg x (deg x - 1) m := by
        intro m
        by_cases hm : m = x
        · subst hm
          rw [Function.update_self]
          push_cast at hx
          omega
        · rw [Function.update_of_ne hm]
          have := h m
          rwa [List.count_cons_of_ne (Ne.symm hm)] at this
      have hcount : (fun m => Function.update deg x (deg x - 1) m - ((ms.count m : Nat) : Int)) =
          fun m => deg m - (((x :: ms).count m : Nat) : Int) := by
        funext m
        by_cases hm : m = x
        · subst hm
          rw [Function.update_self, List.count_cons_self]
          push_cast
          omega
        · rw [Function.update_of_ne hm, List.count_cons_of_ne (Ne.symm hm)]
      have hstep : relax (x :: ms) deg queue =
          relax ms (Function.update deg x (deg x - 1))
            (if deg x - 1 = 0 then queue ++ [x] else queue) := by
        simp [relax, visit]
      have hmem : ∀ m, m ≠ x → ((m ∈ ms ∧ Function.update deg x (deg x - 1) m = ms.count m) ↔
          (m ∈ x :: ms ∧ deg m = (x :: ms).count m)) := by
        intro m hm
        rw [Function.update_of_ne hm, List.count_cons_of_ne (Ne.symm hm)]
        simp [hm]
      by_cases h1 : deg x - 1 = 0
      · -- The last edge into `x`: no other copy of it follows in the list.
        obtain ⟨p, hp, hnd, hpm⟩ := ih _ (queue ++ [x]) hdeg
        have hms : ms.count x = 0 := by
          push_cast at hx
          omega
        have hxms : x ∉ ms := List.count_eq_zero.1 hms
        refine ⟨x :: p, ?_, List.nodup_cons.2 ⟨fun hxp => hxms ((hpm x).1 hxp).1, hnd⟩, ?_⟩
        · rw [hstep, if_pos h1, hp, hcount, List.append_assoc, List.singleton_append]
        · intro m
          by_cases hm : m = x
          · subst hm
            rw [List.count_cons_self, hms]
            simp only [List.mem_cons_self, true_and, true_iff]
            push_cast
            omega
          · rw [← hmem m hm, ← hpm m]
            simp [hm]
      · obtain ⟨p, hp, hnd, hpm⟩ := ih _ queue hdeg
        refine ⟨p, by rw [hstep, if_neg h1, hp, hcount], hnd, fun m => ?_⟩
        by_cases hm : m = x
        · subst hm
          rw [hpm, Function.update_self, List.count_cons_self]
          simp only [List.mem_cons_self, true_and]
          push_cast
          constructor
          · rintro ⟨_, he⟩
            omega
          · intro he
            refine ⟨List.count_pos_iff.1 ?_, by omega⟩
            omega
        · rw [hpm, hmem m hm]

theorem pending_eq_zero {nodes : List α} {adj : α → List α} {done : List α} {m : α} :
    pending nodes adj done m = 0 ↔ ∀ u, Edge nodes adj u m → u ∈ done := by
  rw [pending, Finset.sum_eq_zero_iff]
  simp only [Finset.mem_sdiff, List.mem_toFinset, List.count_eq_zero, and_imp]
  constructor
  · rintro h u ⟨hu, hm⟩
    by_contra hd
    exact h u hu hd hm
  · intro h u hu hd hm
    exact hd (h u ⟨hu, hm⟩)

/-- Popping a node takes its edges out of the pending ones. -/
theorem pending_snoc {nodes : List α} {adj : α → List α} {done : List α} {node : α} (m : α)
    (hn : node ∈ nodes) (hd : node ∉ done) :
    pending nodes adj done m = (adj node).count m + pending nodes adj (done ++ [node]) m := by
  have hmem : node ∈ nodes.toFinset \ done.toFinset := by simp [hn, hd]
  have herase : (nodes.toFinset \ done.toFinset).erase node =
      nodes.toFinset \ (done ++ [node]).toFinset := by
    ext u
    simp only [Finset.mem_erase, Finset.mem_sdiff, List.mem_toFinset, List.mem_append,
      List.mem_singleton]
    tauto
  rw [pending, pending, ← herase, Finset.add_sum_erase _ (fun u => (adj u).count m) hmem]

/-! ## The invariant -/

/-- Every element of the list comes after all its predecessors. -/
def PredsBefore (nodes : List α) (adj : α → List α) (l : List α) : Prop :=
  ∀ l₁ v l₂, l = l₁ ++ v :: l₂ → ∀ u, Edge nodes adj u v → u ∈ l₁

omit [DecidableEq α] in
theorem PredsBefore.snoc {nodes : List α} {adj : α → List α} {l : List α} {v : α}
    (h : PredsBefore nodes adj l) (hv : ∀ u, Edge nodes adj u v → u ∈ l) :
    PredsBefore nodes adj (l ++ [v]) := by
  intro l₁ w l₂ heq u hu
  rcases List.eq_nil_or_concat l₂ with rfl | ⟨l₂, z, rfl⟩
  · obtain ⟨h₁, h₂⟩ := List.append_inj' heq rfl
    obtain rfl : v = w := by simpa using h₂
    exact h₁ ▸ hv u hu
  · rw [List.concat_eq_append, ← List.cons_append, ← List.append_assoc] at heq
    obtain ⟨h₁, _⟩ := List.append_inj' heq rfl
    exact h l₁ w l₂ h₁ u hu

/-- What holds each time the loop tests the queue. -/
structure Inv (nodes : List α) (adj : α → List α) (s : State α) : Prop where
  nodup : (s.result ++ s.queue).Nodup
  subset : ∀ n ∈ s.result ++ s.queue, n ∈ nodes
  degree : ∀ m, s.inDegree m = pending nodes adj s.result m
  ready : ∀ m ∈ nodes, m ∈ s.result ++ s.queue ↔ s.inDegree m = 0
  order : PredsBefore nodes adj s.result

theorem inv_start {nodes : List α} (adj : α → List α) (hn : nodes.Nodup) :
    Inv nodes adj (start nodes adj) where
  nodup := hn.filter _
  subset n h := (List.mem_filter.1 h).1
  degree _ := rfl
  ready m hm := by simp [start, hm]
  order l₁ v l₂ h := absurd h (by simp [start])

/-- A round keeps the invariant. -/
theorem inv_step {nodes : List α} {adj : α → List α} {node : α} {queue : List α}
    {deg : α → Int} {result : List α} (hadj : ∀ u ∈ nodes, ∀ v ∈ adj u, v ∈ nodes)
    (h : Inv nodes adj ⟨node :: queue, deg, result⟩) :
    Inv nodes adj ⟨(relax (adj node) deg queue).2, (relax (adj node) deg queue).1,
      result ++ [node]⟩ := by
  obtain ⟨hnodup, hsub, hdeg, hready, horder⟩ := h
  simp only at hnodup hsub hdeg hready horder
  have hnode : node ∈ nodes := hsub node (by simp)
  have hfresh : node ∉ result := fun hr =>
    (List.nodup_append.1 hnodup).2.2 node hr node List.mem_cons_self rfl
  have hsplit : ∀ m, pending nodes adj result m =
      (adj node).count m + pending nodes adj (result ++ [node]) m :=
    fun m => pending_snoc m hnode hfresh
  obtain ⟨p, hp, hpnd, hpm⟩ := relax_spec (adj node) deg queue (fun m => by
    rw [hdeg, hsplit m]
    push_cast
    omega)
  have hassoc : result ++ [node] ++ (queue ++ p) = (result ++ node :: queue) ++ p := by simp
  have hnewdeg : ∀ m, deg m - ((adj node).count m : Int) =
      pending nodes adj (result ++ [node]) m := by
    intro m
    rw [hdeg, hsplit m]
    push_cast
    omega
  -- A node queued in this round had pending edges until now, so it is new.
  have hnew : ∀ m ∈ p, m ∈ nodes ∧ m ∉ result ++ node :: queue := by
    intro m hm
    obtain ⟨hma, hmd⟩ := (hpm m).1 hm
    have hmn := hadj node hnode m hma
    refine ⟨hmn, fun hold => ?_⟩
    have hzero := (hready m hmn).1 hold
    have hpos := List.count_pos_iff.2 hma
    rw [hzero] at hmd
    omega
  rw [hp]
  refine ⟨?_, ?_, hnewdeg, ?_, ?_⟩
  · rw [hassoc]
    refine List.nodup_append.2 ⟨hnodup, hpnd, fun a ha b hb hab => ?_⟩
    subst hab
    exact (hnew a hb).2 ha
  · intro n hn
    rw [hassoc] at hn
    rcases List.mem_append.1 hn with hn | hn
    · exact hsub n hn
    · exact (hnew n hn).1
  · intro m hm
    rw [hassoc, List.mem_append, hpm, hready m hm]
    constructor
    · rintro (hz | ⟨_, he⟩)
      · have hle : ((adj node).count m : Int) ≤ deg m := by
          rw [hdeg, hsplit m]
          push_cast
          omega
        have := hnewdeg m
        simp only
        omega
      · simp only
        omega
    · intro hz
      simp only at hz
      by_cases hma : m ∈ adj node
      · exact Or.inr ⟨hma, by omega⟩
      · rw [List.count_eq_zero.2 hma] at hz
        exact Or.inl (by simpa using hz)
  · refine horder.snoc fun u hu => ?_
    have hz : deg node = 0 := (hready node hnode).1 (by simp)
    rw [hdeg] at hz
    exact pending_eq_zero.1 (by exact_mod_cast hz) u hu

/-! ## The whole run -/

/-- What the sort hands back. -/
structure Sorted (nodes : List α) (adj : α → List α) (r : List α) : Prop where
  nodup : r.Nodup
  subset : ∀ n ∈ r, n ∈ nodes
  order : PredsBefore nodes adj r
  closed : ∀ m ∈ nodes, (∀ u, Edge nodes adj u m → u ∈ r) → m ∈ r

theorem run_of_inv {nodes : List α} {adj : α → List α}
    (hadj : ∀ u ∈ nodes, ∀ v ∈ adj u, v ∈ nodes) :
    ∀ (fuel : Nat) (s : State α), Inv nodes adj s → nodes.length ≤ fuel + s.result.length →
      ∃ r, run adj fuel s = some r ∧ Sorted nodes adj r := by
  intro fuel
  induction fuel with
  | zero =>
      rintro ⟨queue, deg, result⟩ hinv hlen
      cases queue with
      | nil =>
          refine ⟨result, rfl, ?_, ?_, hinv.order, fun m hm hpred => ?_⟩
          · simpa using hinv.nodup
          · simpa using hinv.subset
          · have hz := pending_eq_zero.2 hpred
            simpa using (hinv.ready m hm).2 (by rw [hinv.degree, hz]; rfl)
      | cons node queue =>
          -- Everything queued so far is a different node, so some fuel is left.
          have hsub := hinv.nodup.length_le_of_subset hinv.subset
          simp only [List.length_append, List.length_cons] at hsub hlen
          omega
  | succ fuel ih =>
      rintro ⟨queue, deg, result⟩ hinv hlen
      cases queue with
      | nil =>
          refine ⟨result, rfl, ?_, ?_, hinv.order, fun m hm hpred => ?_⟩
          · simpa using hinv.nodup
          · simpa using hinv.subset
          · have hz := pending_eq_zero.2 hpred
            simpa using (hinv.ready m hm).2 (by rw [hinv.degree, hz]; rfl)
      | cons node queue =>
          exact ih _ (inv_step hadj hinv) (by simp only [List.length_append,
            List.length_singleton] at hlen ⊢; omega)

/-- The loop answers, and what it answers is sorted. -/
theorem run_spec {nodes : List α} {adj : α → List α} (hn : nodes.Nodup)
    (hadj : ∀ u ∈ nodes, ∀ v ∈ adj u, v ∈ nodes) :
    ∃ r, run adj nodes.length (start nodes adj) = some r ∧ Sorted nodes adj r :=
  run_of_inv hadj _ _ (inv_start adj hn) (Nat.le_add_right _ _)

namespace Sorted

variable {nodes : List α} {adj : α → List α} {r : List α}

omit [DecidableEq α] in
/-- Along an edge into the result, the source comes first. -/
theorem before (h : Sorted nodes adj r) {u v : α} (he : Edge nodes adj u v) (hv : v ∈ r) :
    Before u v r := by
  obtain ⟨l₁, l₂, rfl⟩ := List.append_of_mem hv
  exact ⟨l₁, l₂, rfl, h.order l₁ v l₂ rfl u he⟩

omit [DecidableEq α] in
theorem mem_of_reaches (h : Sorted nodes adj r) {u v : α}
    (huv : Relation.ReflTransGen (Edge nodes adj) u v) (hv : v ∈ r) : u ∈ r := by
  induction huv with
  | refl => exact hv
  | tail _ he ih => exact ih (h.before he hv).mem_left

theorem idxOf_lt_of_reaches (h : Sorted nodes adj r) {u v : α}
    (huv : Relation.TransGen (Edge nodes adj) u v) (hv : v ∈ r) :
    r.idxOf u < r.idxOf v := by
  induction huv with
  | single he => exact (h.before he hv).idxOf_lt h.nodup
  | tail _ he ih =>
      have hb := h.before he hv
      exact Nat.lt_trans (ih hb.mem_left) (hb.idxOf_lt h.nodup)

/-- The result holds exactly the nodes that no cycle leads to. -/
theorem mem_iff (h : Sorted nodes adj r) {v : α} :
    v ∈ r ↔ v ∈ nodes ∧ ∀ c, Relation.TransGen (Edge nodes adj) c c →
      ¬ Relation.ReflTransGen (Edge nodes adj) c v := by
  constructor
  · intro hv
    refine ⟨h.subset v hv, fun c hc hcv => ?_⟩
    exact Nat.lt_irrefl _ (h.idxOf_lt_of_reaches hc (h.mem_of_reaches hcv hv))
  · rintro ⟨hv, hfree⟩
    -- Induction along the edges, well-founded on the nodes no cycle leads to.
    let Free := { v : α // v ∈ nodes ∧ ∀ c, Relation.TransGen (Edge nodes adj) c c →
      ¬ Relation.ReflTransGen (Edge nodes adj) c v }
    have hfin : Finite Free :=
      Finite.of_injective (fun v : Free => (⟨v.1, List.mem_toFinset.2 v.2.1⟩ :
        { v : α // v ∈ nodes.toFinset })) fun a b hab =>
          Subtype.ext (congrArg (fun v => v.1) hab)
    have htrans : IsTrans Free fun a b => Relation.TransGen (Edge nodes adj) a.1 b.1 :=
      ⟨fun _ _ _ hab hbc => hab.trans hbc⟩
    have hirr : Std.Irrefl fun a b : Free => Relation.TransGen (Edge nodes adj) a.1 b.1 :=
      ⟨fun a ha => a.2.2 a.1 ha .refl⟩
    have hwf := Finite.wellFounded_of_trans_of_irrefl
      fun a b : Free => Relation.TransGen (Edge nodes adj) a.1 b.1
    suffices ∀ v : Free, v.1 ∈ r from this ⟨v, hv, hfree⟩
    intro v
    induction v using hwf.induction with
    | _ v ih =>
        refine h.closed v.1 v.2.1 fun u hu => ?_
        exact ih ⟨u, hu.1, fun c hc hcu => v.2.2 c hc (hcu.tail hu)⟩ (.single hu)

/-- On an acyclic graph nothing is missing. -/
theorem mem_of_acyclic (h : Sorted nodes adj r)
    (hac : ∀ c, ¬ Relation.TransGen (Edge nodes adj) c c) {v : α} (hv : v ∈ nodes) : v ∈ r :=
  h.mem_iff.2 ⟨hv, fun c hc => absurd hc (hac c)⟩

end Sorted

end Kahn

end Nazg.Lib
