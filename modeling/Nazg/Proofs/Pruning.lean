import Mathlib.Data.List.Perm.Subperm
import Nazg.Proofs.Recency
import Nazg.Workspace.Manager

/-!
# What pruning keeps

The victims are taken from a listing that ends after a thousand snapshots and orders by a
stamp of one second, so that the snapshots created last need not be the ones in front. A
run does what it promises exactly if this makes no difference: for each snapshot that
should stay, unless its tag is seen, all the places it may have on the listing are outside
the part that is deleted, and for each that should go all are inside it.
-/

namespace Nazg.Workspace

open Lib Lib.Sqlite Nexus WorkspaceTables

/-! ## The loop -/

def skipped (opts : PruneOptions) (tagged : List Int) (id : Int) : Bool :=
  decide (id ∈ tagged) && opts.untaggedOnly

/-- The ids a run reports as deleted, of the candidates. -/
def chosen (host : PruneHost) (opts : PruneOptions) (tagged ids : List Int) : List Int :=
  ids.filter fun id => !skipped opts tagged id && (opts.dryRun || host.deletes id)

theorem foldl_pruneTurn (host : PruneHost) (opts : PruneOptions) (tagged ids : List Int)
    (r : PruneResult × WorkspaceTables) :
    ids.foldl (pruneTurn host opts tagged) r =
      ({ r.1 with
          skippedTagged := r.1.skippedTagged + (ids.filter (skipped opts tagged)).length
          deletedIds := r.1.deletedIds ++ chosen host opts tagged ids
          skippedTaggedIds := r.1.skippedTaggedIds ++ ids.filter (skipped opts tagged) },
        if opts.dryRun then r.2
        else (chosen host opts tagged ids).foldl deleteWorkspaceSnapshot r.2) := by
  induction ids generalizing r with
  | nil => simp [chosen]
  | cons id ids ih =>
      rw [List.foldl_cons, ih, pruneTurn]
      cases hskip : skipped opts tagged id with
      | true =>
          have hcond : id ∈ tagged ∧ opts.untaggedOnly = true := by
            simpa [skipped] using hskip
          rw [if_pos hcond]
          simp only [chosen, List.filter_cons, hskip, Bool.not_true, Bool.false_and,
            Bool.false_eq_true, if_true, if_false, List.length_cons, List.append_assoc,
            List.singleton_append]
          rw [Nat.add_assoc, Nat.add_comm 1]
      | false =>
          have hcond : ¬ (id ∈ tagged ∧ opts.untaggedOnly = true) := by
            simpa [skipped] using hskip
          rw [if_neg hcond]
          cases hdry : opts.dryRun with
          | true => simp [chosen, hskip, hdry]
          | false =>
              cases hdelete : host.deletes id with
              | true => simp [chosen, hskip, hdry, hdelete]
              | false => simp [chosen, hskip, hdry, hdelete]

theorem rowsOf_foldl_delete (projectId : Int64) (ids : List Int) (s : WorkspaceTables) :
    (ids.foldl deleteWorkspaceSnapshot s).rowsOf projectId =
      (s.rowsOf projectId).filter fun x => x.1 ∉ ids := by
  induction ids generalizing s with
  | nil => simp
  | cons id ids ih =>
      rw [List.foldl_cons, ih, rowsOf_delete, List.filter_filter]
      refine List.filter_congr ?_
      intro x _
      simp [Bool.and_comm]

theorem tags_foldl_delete (ids : List Int) (s : WorkspaceTables) :
    (ids.foldl deleteWorkspaceSnapshot s).tags.data =
      s.tags.data.filter fun r => r.snapshotId ∉ ids := by
  induction ids generalizing s with
  | nil => simp
  | cons id ids ih =>
      rw [List.foldl_cons, ih, tags_delete, List.filter_filter]
      refine List.filter_congr ?_
      intro x _
      simp [Bool.and_comm]

/-! ## A run -/

/-- How far the listing goes. -/
def PruneHost.reach (host : PruneHost) : Nat := if host.listed then 1000 else 0

section

variable (o : RowOrder) (host : PruneHost) (projectId : Int64) (s : WorkspaceTables)

/-- The candidates. -/
def candidates (keep : Nat) : List (Int × Row) :=
  ((newestRows o .workspaceSnapshots "timestamp" projectId s.tables).take host.reach).drop keep

theorem listSnapshots_eq : listSnapshots o host projectId 1000 s =
    ((newestRows o .workspaceSnapshots "timestamp" projectId s.tables).take host.reach).map
      Prod.fst := by
  rw [listSnapshots, PruneHost.reach]
  cases host.listed with
  | false => rfl
  | true =>
      rw [if_pos rfl, if_pos rfl, listWorkspaceSnapshots, List.map_map]
      refine List.map_congr_left ?_
      intro x hx
      have hrow : x ∈ s.rowsOf projectId :=
        (o.orderBy_perm _ _).mem_iff.1 (List.mem_of_mem_take hx)
      have hid : (readColumns listedColumns x).lookup "id" = some (decimal x.1) := rfl
      simp only [Function.comp, hid, Option.bind_some, stoll_id hrow, Option.getD_some]

theorem mem_candidates {o : RowOrder} {host : PruneHost} {projectId : Int64} {s : WorkspaceTables}
    {keep : Nat} {x : Int × Row} (hx : x ∈ candidates o host projectId s keep) :
    x ∈ s.rowsOf projectId :=
  (o.orderBy_perm _ _).mem_iff.1 (List.mem_of_mem_take (List.mem_of_mem_drop hx))

/-- What a run reports and leaves. -/
theorem pruneOldSnapshots_eq {keepCount : Int32} (hkeep : 0 ≤ keepCount) (opts : PruneOptions) :
    let ids := (candidates o host projectId s keepCount.toInt.toNat).map Prod.fst
    let tagged := taggedIds host projectId s
    let done := chosen host opts tagged ids
    pruneOldSnapshots o host projectId keepCount opts s =
      ({ totalCandidates := ids.length
         deleted := done.length
         skippedTagged := (ids.filter (skipped opts tagged)).length
         deletedIds := done
         skippedTaggedIds := ids.filter (skipped opts tagged) },
        if opts.dryRun then s else done.foldl deleteWorkspaceSnapshot s) := by
  have hnonneg : ¬ keepCount < 0 := Int32.not_lt.2 hkeep
  have hids : (listSnapshots o host projectId 1000 s).drop keepCount.toInt.toNat =
      (candidates o host projectId s keepCount.toInt.toNat).map Prod.fst := by
    rw [listSnapshots_eq, candidates, List.map_drop]
  dsimp only
  rw [pruneOldSnapshots, if_neg hnonneg]
  dsimp only
  rw [← hids]
  split
  · next hfew =>
      rw [List.drop_eq_nil_of_le hfew]
      simp [chosen]
  · rw [foldl_pruneTurn]
    simp

end

/-! ## The promise -/

section

variable (host : PruneHost) (projectId : Int64) (keepCount : Int32) (untaggedOnly : Bool)
  (s : WorkspaceTables)

def isTagged (id : Int) : Bool :=
  s.tags.data.any fun r => r.projectId = projectId && r.snapshotId = id

/-- The snapshots that should stay: those created last, and where it is asked for those that
have a tag. -/
def stays (id : Int) : Bool :=
  id ∈ ((s.rowsOf projectId).reverse.take keepCount.toInt.toNat).map Prod.fst ||
    untaggedOnly && isTagged projectId s id

/-- What a run promises, in the order in which the engine finds the rows. -/
structure KeepsPromise (o : RowOrder) : Prop where
  remaining : (pruneOldSnapshots o host projectId keepCount ⟨false, untaggedOnly⟩ s).2.rowsOf
      projectId = (s.rowsOf projectId).filter fun x => stays projectId keepCount untaggedOnly s x.1
  dryUnchanged : (pruneOldSnapshots o host projectId keepCount ⟨true, untaggedOnly⟩ s).2 = s
  dryAgrees : (pruneOldSnapshots o host projectId keepCount ⟨true, untaggedOnly⟩ s).1.deletedIds =
    (pruneOldSnapshots o host projectId keepCount ⟨false, untaggedOnly⟩ s).1.deletedIds
  counts :
    let dry := (pruneOldSnapshots o host projectId keepCount ⟨true, untaggedOnly⟩ s).1
    let live := (pruneOldSnapshots o host projectId keepCount ⟨false, untaggedOnly⟩ s).1
    (∀ id ∈ dry.deletedIds, host.deletes id = true) →
      live.deleted + live.skippedTagged = live.totalCandidates
  again : ∀ o' : RowOrder,
    let after := (pruneOldSnapshots o host projectId keepCount ⟨false, untaggedOnly⟩ s).2
    (pruneOldSnapshots o' host projectId keepCount ⟨false, untaggedOnly⟩ after).1.deletedIds = [] ∧
      (pruneOldSnapshots o' host projectId keepCount ⟨false, untaggedOnly⟩ after).2 = after

/-- All the places that a row may have on a listing are before the candidates, or all are
behind them. -/
def NoCandidate (keep : Nat) (rows : List (Int × Row)) (x : Int × Row) : Prop :=
  host.reach ≤ keep ∨
    rows.countP (fun y => stampColumn "timestamp" x ≤ stampColumn "timestamp" y) ≤ keep ∨
    host.reach ≤ rows.countP fun y => stampColumn "timestamp" x < stampColumn "timestamp" y

def AlwaysCandidate (keep : Nat) (rows : List (Int × Row)) (x : Int × Row) : Prop :=
  keep ≤ rows.countP (fun y => stampColumn "timestamp" x < stampColumn "timestamp" y) ∧
    rows.countP (fun y => stampColumn "timestamp" x ≤ stampColumn "timestamp" y) ≤ host.reach

instance (keep : Nat) (rows : List (Int × Row)) : DecidablePred (NoCandidate host keep rows) :=
  fun _ => inferInstanceAs (Decidable (_ ∨ _))

instance (keep : Nat) (rows : List (Int × Row)) : DecidablePred (AlwaysCandidate host keep rows) :=
  fun _ => inferInstanceAs (Decidable (_ ∧ _))

/-- A run passes over the snapshot because of its tag. -/
def Skips (id : Int) : Prop := id ∈ taggedIds host projectId s ∧ untaggedOnly = true

instance : DecidablePred (Skips host projectId untaggedOnly s) :=
  fun _ => inferInstanceAs (Decidable (_ ∧ _))

/-- The listing and the tags lead to the right victims, now and a second time. -/
structure Prunable (x : Int × Row) : Prop where
  stays : stays projectId keepCount untaggedOnly s x.1 = true →
    Skips host projectId untaggedOnly s x.1 ∨
      NoCandidate host keepCount.toInt.toNat (s.rowsOf projectId) x ∧
        (host.deletes x.1 = false ∨ NoCandidate host keepCount.toInt.toNat
          ((s.rowsOf projectId).filter fun y => Workspace.stays projectId keepCount untaggedOnly s y.1) x)
  goes : Workspace.stays projectId keepCount untaggedOnly s x.1 = false →
    AlwaysCandidate host keepCount.toInt.toNat (s.rowsOf projectId) x ∧ host.deletes x.1 = true

instance : DecidablePred (Prunable host projectId keepCount untaggedOnly s) := fun _ =>
  decidable_of_iff (_ ∧ _) ⟨fun h => ⟨h.1, h.2⟩, fun h => ⟨h.stays, h.goes⟩⟩

end

section

variable {host : PruneHost} {projectId : Int64} {keepCount : Int32} {untaggedOnly : Bool}
  {s : WorkspaceTables} {x : Int × Row}

theorem countP_stamp (rows : List (Int × Row)) (x : Int × Row) :
    rows.countP (fun y => -stampColumn "timestamp" y < -stampColumn "timestamp" x) =
        rows.countP (fun y => stampColumn "timestamp" x < stampColumn "timestamp" y) ∧
      rows.countP (fun y => -stampColumn "timestamp" y ≤ -stampColumn "timestamp" x) =
        rows.countP fun y => stampColumn "timestamp" x ≤ stampColumn "timestamp" y := by
  simp only [Int.neg_lt_neg_iff, Int.neg_le_neg_iff, and_self]

theorem forall_notMem_candidates (hx : x ∈ s.rowsOf projectId) (keep : Nat) :
    (∀ o, x ∉ candidates o host projectId s keep) ↔
      NoCandidate host keep (s.rowsOf projectId) x := by
  have hiff := RowOrder.forall_notMem_window_iff (fun y => -stampColumn "timestamp" y)
    (nodup_rowsOf projectId s) hx keep host.reach
  rw [(countP_stamp _ x).1, (countP_stamp _ x).2] at hiff
  exact hiff

theorem forall_mem_candidates (hx : x ∈ s.rowsOf projectId) (keep : Nat) :
    (∀ o, x ∈ candidates o host projectId s keep) ↔
      AlwaysCandidate host keep (s.rowsOf projectId) x := by
  have hiff := RowOrder.forall_mem_window_iff (fun y => -stampColumn "timestamp" y)
    (nodup_rowsOf projectId s) hx keep host.reach
  rw [(countP_stamp _ x).1, (countP_stamp _ x).2] at hiff
  exact hiff

theorem mem_ids_candidates {o : RowOrder} {keep : Nat} (hx : x ∈ s.rowsOf projectId) :
    x.1 ∈ (candidates o host projectId s keep).map Prod.fst ↔
      x ∈ candidates o host projectId s keep := by
  constructor
  · intro hid
    obtain ⟨y, hy, heq⟩ := List.mem_map.1 hid
    rw [← eq_of_fst_eq (mem_candidates hy) hx heq]
    exact hy
  · exact List.mem_map_of_mem

theorem isTagged_of_mem {id : Int} (h : id ∈ taggedIds host projectId s) :
    isTagged projectId s id = true := by
  rw [taggedIds] at h
  split at h
  · obtain ⟨r, hr, rfl⟩ := List.mem_map.1 h
    obtain ⟨hmem, hproject⟩ := mem_listWorkspaceTags.1 hr
    exact List.any_eq_true.2 ⟨r, hmem, by simp [hproject]⟩
  · cases h

/-- Tags of a snapshot that stays are seen again. -/
theorem taggedIds_delete {ids : List Int} {id : Int} (hid : id ∉ ids) :
    id ∈ taggedIds host projectId (ids.foldl deleteWorkspaceSnapshot s) ↔
      id ∈ taggedIds host projectId s := by
  rw [taggedIds, taggedIds]
  split
  · simp only [List.mem_map, mem_listWorkspaceTags, tags_foldl_delete, List.mem_filter,
      decide_eq_true_eq]
    constructor
    · rintro ⟨r, ⟨⟨hmem, -⟩, hproject⟩, rfl⟩
      exact ⟨r, ⟨hmem, hproject⟩, rfl⟩
    · rintro ⟨r, ⟨hmem, hproject⟩, rfl⟩
      exact ⟨r, ⟨⟨hmem, hid⟩, hproject⟩, rfl⟩
  · rfl

/-- The ids that a live run deletes, and those that a dry run reports. -/
theorem mem_chosen {dryRun : Bool} {tagged ids : List Int} {id : Int} :
    id ∈ chosen host ⟨dryRun, untaggedOnly⟩ tagged ids ↔
      id ∈ ids ∧ ¬ (id ∈ tagged ∧ untaggedOnly = true) ∧
        (dryRun = true ∨ host.deletes id = true) := by
  simp [chosen, skipped, List.mem_filter, imp_iff_not_or]

theorem counts_of_deletes {ids tagged : List Int}
    (h : ∀ id ∈ chosen host ⟨true, untaggedOnly⟩ tagged ids, host.deletes id = true) :
    (chosen host ⟨false, untaggedOnly⟩ tagged ids).length +
      (ids.filter (skipped ⟨false, untaggedOnly⟩ tagged)).length = ids.length := by
  have hsame : chosen host ⟨false, untaggedOnly⟩ tagged ids =
      ids.filter fun id => !skipped ⟨false, untaggedOnly⟩ tagged id := by
    refine List.filter_congr ?_
    intro id hid
    cases hskip : skipped ⟨false, untaggedOnly⟩ tagged id with
    | true => rfl
    | false =>
        have hdry : skipped ⟨true, untaggedOnly⟩ tagged id = false := hskip
        have hdelete := h id (List.mem_filter.2 ⟨hid, by simp [hdry]⟩)
        simp [hdelete]
  have hlength := List.length_eq_length_filter_add (skipped ⟨false, untaggedOnly⟩ tagged) (l := ids)
  rw [hsame]
  omega

theorem deletedIds_prune (o : RowOrder) (hkeep : 0 ≤ keepCount) (dryRun : Bool) :
    (pruneOldSnapshots o host projectId keepCount ⟨dryRun, untaggedOnly⟩ s).1.deletedIds =
      chosen host ⟨dryRun, untaggedOnly⟩ (taggedIds host projectId s)
        ((candidates o host projectId s keepCount.toInt.toNat).map Prod.fst) := by
  rw [pruneOldSnapshots_eq o host projectId s hkeep]

theorem after_prune (o : RowOrder) (hkeep : 0 ≤ keepCount) :
    (pruneOldSnapshots o host projectId keepCount ⟨false, untaggedOnly⟩ s).2 =
      (chosen host ⟨false, untaggedOnly⟩ (taggedIds host projectId s)
        ((candidates o host projectId s keepCount.toInt.toNat).map Prod.fst)).foldl
          deleteWorkspaceSnapshot s := by
  rw [pruneOldSnapshots_eq o host projectId s hkeep, if_neg (by simp)]

/-- What is left is what should stay exactly if the rest are candidates and are deleted. -/
theorem remaining_iff (o : RowOrder) (hkeep : 0 ≤ keepCount) :
    ((pruneOldSnapshots o host projectId keepCount ⟨false, untaggedOnly⟩ s).2.rowsOf projectId =
      (s.rowsOf projectId).filter fun x => stays projectId keepCount untaggedOnly s x.1) ↔
    ∀ x ∈ s.rowsOf projectId, stays projectId keepCount untaggedOnly s x.1 = false ↔
      x ∈ candidates o host projectId s keepCount.toInt.toNat ∧
        ¬ Skips host projectId untaggedOnly s x.1 ∧ host.deletes x.1 = true := by
  rw [after_prune o hkeep, rowsOf_foldl_delete]
  have hdeleted : ∀ x ∈ s.rowsOf projectId,
      x.1 ∈ chosen host ⟨false, untaggedOnly⟩ (taggedIds host projectId s)
        ((candidates o host projectId s keepCount.toInt.toNat).map Prod.fst) ↔
      x ∈ candidates o host projectId s keepCount.toInt.toNat ∧
        ¬ Skips host projectId untaggedOnly s x.1 ∧ host.deletes x.1 = true := by
    intro x hx
    rw [mem_chosen, mem_ids_candidates hx]
    simp only [Bool.false_eq_true, false_or, Skips]
  constructor
  · intro heq x hx
    have hmem := congrArg (x ∈ ·) heq
    simp only [List.mem_filter, hx, true_and, decide_eq_true_eq, eq_iff_iff] at hmem
    rw [← hdeleted x hx, ← Bool.not_eq_true, ← hmem, not_not]
  · intro hall
    refine List.filter_congr ?_
    intro x hx
    rw [Bool.eq_iff_iff, decide_eq_true_eq, hdeleted x hx, ← hall x hx, Bool.not_eq_false]

theorem dryAgrees_iff (o : RowOrder) (hkeep : 0 ≤ keepCount) :
    (pruneOldSnapshots o host projectId keepCount ⟨true, untaggedOnly⟩ s).1.deletedIds =
      (pruneOldSnapshots o host projectId keepCount ⟨false, untaggedOnly⟩ s).1.deletedIds ↔
    ∀ x ∈ candidates o host projectId s keepCount.toInt.toNat,
      ¬ Skips host projectId untaggedOnly s x.1 → host.deletes x.1 = true := by
  rw [deletedIds_prune o hkeep, deletedIds_prune o hkeep]
  constructor
  · intro heq x hx hskip
    have hdry : x.1 ∈ chosen host ⟨true, untaggedOnly⟩ (taggedIds host projectId s)
        ((candidates o host projectId s keepCount.toInt.toNat).map Prod.fst) :=
      mem_chosen.2 ⟨List.mem_map_of_mem hx, hskip, .inl rfl⟩
    rw [heq] at hdry
    exact (mem_chosen.1 hdry).2.2.resolve_left Bool.false_ne_true
  · intro hall
    refine List.filter_congr ?_
    intro id hid
    obtain ⟨x, hx, rfl⟩ := List.mem_map.1 hid
    have hsame : skipped ⟨true, untaggedOnly⟩ (taggedIds host projectId s) x.1 =
        skipped ⟨false, untaggedOnly⟩ (taggedIds host projectId s) x.1 := rfl
    rw [hsame]
    cases hskip : skipped ⟨false, untaggedOnly⟩ (taggedIds host projectId s) x.1 with
    | true => rfl
    | false =>
        have hdelete := hall x hx (by simpa [skipped, Skips] using hskip)
        rw [hdelete]
        rfl

/-- A second run deletes nothing exactly if what can be deleted and is not passed over is no
candidate any more. -/
theorem again_iff (o o' : RowOrder) (hkeep : 0 ≤ keepCount) {after : WorkspaceTables}
    (hafter : after = (pruneOldSnapshots o host projectId keepCount ⟨false, untaggedOnly⟩ s).2) :
    ((pruneOldSnapshots o' host projectId keepCount ⟨false, untaggedOnly⟩ after).1.deletedIds = [] ∧
      (pruneOldSnapshots o' host projectId keepCount ⟨false, untaggedOnly⟩ after).2 = after) ↔
    ∀ x ∈ candidates o' host projectId after keepCount.toInt.toNat,
      Skips host projectId untaggedOnly s x.1 ∨ host.deletes x.1 = false := by
  rw [deletedIds_prune o' hkeep, after_prune o' hkeep]
  have hskip : ∀ x ∈ candidates o' host projectId after keepCount.toInt.toNat,
      Skips host projectId untaggedOnly after x.1 ↔ Skips host projectId untaggedOnly s x.1 := by
    intro x hx
    rw [after_prune o hkeep] at hafter
    have hrow := mem_candidates hx
    rw [hafter, rowsOf_foldl_delete, List.mem_filter, decide_eq_true_eq] at hrow
    rw [Skips, Skips, hafter, taggedIds_delete hrow.2]
  constructor
  · intro hnone x hx
    by_contra hnot
    rw [not_or, Bool.not_eq_false] at hnot
    have hmem : x.1 ∈ chosen host ⟨false, untaggedOnly⟩ (taggedIds host projectId after)
        ((candidates o' host projectId after keepCount.toInt.toNat).map Prod.fst) :=
      mem_chosen.2 ⟨List.mem_map_of_mem hx, fun h => hnot.1 ((hskip x hx).1 h), .inr hnot.2⟩
    rw [hnone.1] at hmem
    exact List.not_mem_nil hmem
  · intro hall
    have hnil : chosen host ⟨false, untaggedOnly⟩ (taggedIds host projectId after)
        ((candidates o' host projectId after keepCount.toInt.toNat).map Prod.fst) = [] := by
      refine List.eq_nil_iff_forall_not_mem.2 ?_
      intro id hid
      obtain ⟨hmem, hno, hor⟩ := mem_chosen.1 hid
      obtain ⟨x, hx, rfl⟩ := List.mem_map.1 hmem
      have hdelete := hor.resolve_left Bool.false_ne_true
      rcases hall x hx with hskips | hkept
      · exact hno ((hskip x hx).2 hskips)
      · rw [hkept] at hdelete
        exact Bool.false_ne_true hdelete
    rw [hnil]
    exact ⟨rfl, rfl⟩

theorem not_skips_of_goes (h : stays projectId keepCount untaggedOnly s x.1 = false) :
    ¬ Skips host projectId untaggedOnly s x.1 := by
  intro hskip
  rw [stays, isTagged_of_mem hskip.1, hskip.2] at h
  simp at h

theorem prunable_of_keepsPromise (hkeep : 0 ≤ keepCount)
    (hall : ∀ o, KeepsPromise host projectId keepCount untaggedOnly s o)
    (hx : x ∈ s.rowsOf projectId) : Prunable host projectId keepCount untaggedOnly s x := by
  have hremaining := fun o => (remaining_iff o hkeep).1 (hall o).remaining x hx
  have hagrees := fun o => (dryAgrees_iff o hkeep).1 (hall o).dryAgrees x
  refine ⟨?_, ?_⟩
  · intro hstays
    by_cases hskip : Skips host projectId untaggedOnly s x.1
    · exact .inl hskip
    · refine .inr ⟨?_, ?_⟩
      · rw [← forall_notMem_candidates hx]
        intro o hcandidate
        have hgoes := (hremaining o).2 ⟨hcandidate, hskip, hagrees o hcandidate hskip⟩
        rw [hstays] at hgoes
        cases hgoes
      · cases hdelete : host.deletes x.1 with
        | false => exact .inl rfl
        | true =>
            have hafter := (hall .byId).remaining
            have hstill : x ∈ (pruneOldSnapshots .byId host projectId keepCount
                ⟨false, untaggedOnly⟩ s).2.rowsOf projectId := by
              rw [hafter]
              exact List.mem_filter.2 ⟨hx, hstays⟩
            rw [← hafter, ← forall_notMem_candidates hstill]
            refine .inr ?_
            intro o' hcandidate
            rcases (again_iff .byId o' hkeep rfl).1 ((hall .byId).again o') x hcandidate with h | h
            · exact hskip h
            · rw [hdelete] at h
              cases h
  · intro hgoes
    refine ⟨?_, ((hremaining .byId).1 hgoes).2.2⟩
    rw [← forall_mem_candidates hx]
    intro o
    exact ((hremaining o).1 hgoes).1

theorem keepsPromise_of_prunable (hkeep : 0 ≤ keepCount)
    (hall : ∀ x ∈ s.rowsOf projectId, Prunable host projectId keepCount untaggedOnly s x)
    (o : RowOrder) : KeepsPromise host projectId keepCount untaggedOnly s o := by
  have hout : ∀ x ∈ candidates o host projectId s keepCount.toInt.toNat,
      ¬ Skips host projectId untaggedOnly s x.1 →
        stays projectId keepCount untaggedOnly s x.1 = false := by
    intro x hx hskip
    have hrow := mem_candidates hx
    by_contra hstays
    rw [Bool.not_eq_false] at hstays
    have hno := (((hall x hrow).stays hstays).resolve_left hskip).1
    exact (forall_notMem_candidates hrow _).2 hno o hx
  have hremaining : (pruneOldSnapshots o host projectId keepCount ⟨false, untaggedOnly⟩ s).2.rowsOf
      projectId = (s.rowsOf projectId).filter fun x =>
        stays projectId keepCount untaggedOnly s x.1 := by
    refine (remaining_iff o hkeep).2 ?_
    intro x hx
    constructor
    · intro hgoes
      obtain ⟨halways, hdelete⟩ := (hall x hx).goes hgoes
      exact ⟨(forall_mem_candidates hx _).2 halways o, not_skips_of_goes hgoes, hdelete⟩
    · intro hvictim
      exact hout x hvictim.1 hvictim.2.1
  refine ⟨hremaining, ?_, ?_, ?_, ?_⟩
  · rw [pruneOldSnapshots_eq o host projectId s hkeep, if_pos rfl]
  · refine (dryAgrees_iff o hkeep).2 ?_
    intro x hx hskip
    exact ((hall x (mem_candidates hx)).goes (hout x hx hskip)).2
  · dsimp only
    rw [pruneOldSnapshots_eq o host projectId s hkeep, pruneOldSnapshots_eq o host projectId s hkeep]
    exact counts_of_deletes
  · intro o'
    refine (again_iff o o' hkeep rfl).2 ?_
    intro x hx
    have hstill := mem_candidates hx
    have hrow := hstill
    rw [hremaining, List.mem_filter] at hrow
    rcases (hall x hrow.1).stays hrow.2 with hskip | ⟨-, hdelete | hno⟩
    · exact .inl hskip
    · exact .inr hdelete
    · rw [← hremaining] at hno
      exact absurd hx ((forall_notMem_candidates hstill _).2 hno o')

/-- A run keeps its promise, in whatever order the engine finds the rows, exactly if no
snapshot that should stay, its tag unseen, can be a candidate, now or the second time, and
every one that should go always is one and can be deleted. -/
theorem keepsPromise_iff (hkeep : 0 ≤ keepCount) :
    (∀ o, KeepsPromise host projectId keepCount untaggedOnly s o) ↔
      ∀ x ∈ s.rowsOf projectId, Prunable host projectId keepCount untaggedOnly s x :=
  ⟨fun hall _ hx => prunable_of_keepsPromise hkeep hall hx, keepsPromise_of_prunable hkeep⟩

/-- In a history longer than the listing something stays that should not, in every order. -/
theorem not_keepsPromise_of_long (o : RowOrder) (hkeep : 0 ≤ keepCount)
    (hkept : keepCount.toInt.toNat < 1000) (hlong : 1000 < (s.rowsOf projectId).length) :
    ¬ KeepsPromise host projectId keepCount false s o := by
  intro hpromise
  have hvictims := (remaining_iff o hkeep).1 hpromise.remaining
  have hnodup := nodup_rowsOf projectId s
  have hcandidates : (candidates o host projectId s keepCount.toInt.toNat).length ≤
      1000 - keepCount.toInt.toNat := by
    have hreach : host.reach ≤ 1000 := by
      rw [PruneHost.reach]
      split <;> omega
    rw [candidates, List.length_drop, List.length_take]
    omega
  have hgone : ((s.rowsOf projectId).filter fun x =>
      !stays projectId keepCount false s x.1).length ≤ 1000 - keepCount.toInt.toNat := by
    refine (List.Nodup.subperm (hnodup.filter _) ?_).length_le.trans hcandidates
    intro x hx
    obtain ⟨hrow, hgoes⟩ := List.mem_filter.1 hx
    exact ((hvictims x hrow).1 (by simpa using hgoes)).1
  have hstill : ((s.rowsOf projectId).filter fun x =>
      stays projectId keepCount false s x.1).length ≤ keepCount.toInt.toNat := by
    have hrecent : ((s.rowsOf projectId).reverse.take keepCount.toInt.toNat).length ≤
        keepCount.toInt.toNat := List.length_take_le _ _
    refine (List.Nodup.subperm (hnodup.filter _) ?_).length_le.trans hrecent
    intro x hx
    obtain ⟨hrow, hstays⟩ := List.mem_filter.1 hx
    have hid : x.1 ∈ ((s.rowsOf projectId).reverse.take keepCount.toInt.toNat).map Prod.fst := by
      simpa [stays] using hstays
    obtain ⟨y, hy, heq⟩ := List.mem_map.1 hid
    have hyrow := List.mem_reverse.1 (List.mem_of_mem_take hy)
    rw [← eq_of_fst_eq hyrow hrow heq]
    exact hy
  have hsplit := List.length_eq_length_filter_add
    (fun x : Int × Row => stays projectId keepCount false s x.1) (l := s.rowsOf projectId)
  omega

end

/-! ## Histories -/

/-- A snapshot taken by hand. -/
def takenAt (now : Int64) : SnapshotCall :=
  .addWorkspaceSnapshot now 1 0 [] (bytes "manual") [] [] [] [] false [] []

/-- The rows of snapshots taken in these seconds. -/
def takenRows (stamps : List Int64) : Table Row :=
  ⟨stamps.zipIdx.map fun a => ((a.2 : Int) + 1, (takenAt a.1).row), stamps.length⟩

theorem ids_takenRows (stamps : List Int64) :
    (takenRows stamps).ids = (List.range stamps.length).map fun i : Nat => (i : Int) + 1 := by
  rw [Table.ids, takenRows, List.map_map, List.range_eq_range', ← List.zipIdx_map_snd 0 stamps,
    List.map_map]
  rfl

theorem wf_takenRows (stamps : List Int64) : (takenRows stamps).Wf := by
  have hids := ids_takenRows stamps
  refine ⟨?_, ?_, ?_, Int.natCast_nonneg _⟩
  · rw [hids]
    refine List.pairwise_map.2 (List.pairwise_lt_range.imp ?_)
    intro i j hlt
    omega
  · intro i hi
    rw [hids] at hi
    obtain ⟨n, hn, rfl⟩ := List.mem_map.1 hi
    have hlt := List.mem_range.1 hn
    show (n : Int) + 1 ≤ stamps.length
    omega
  · intro i hi
    rw [hids] at hi
    obtain ⟨n, -, rfl⟩ := List.mem_map.1 hi
    omega

/-- A project with a snapshot in each of some seconds. -/
def history (stamps : List Int64) (tags : Table TagRow)
    (hbounded : (stamps.length : Int) < 2 ^ 63) : WorkspaceTables where
  tables := Function.update (unsnapped oneProject) .workspaceSnapshots (takenRows stamps)
  tags := tags
  wf := by
    rw [Function.update_self]
    exact wf_takenRows stamps
  bounded := by
    rw [Function.update_self]
    exact hbounded

theorem rowsOf_history (stamps : List Int64) (tags : Table TagRow)
    (hbounded : (stamps.length : Int) < 2 ^ 63) :
    (history stamps tags hbounded).rowsOf 1 = (takenRows stamps).rows := by
  have hrows : (history stamps tags hbounded).tables .workspaceSnapshots = takenRows stamps := by
    show Function.update (unsnapped oneProject) .workspaceSnapshots (takenRows stamps)
      .workspaceSnapshots = takenRows stamps
    rw [Function.update_self]
  rw [rowsOf, hrows, List.filter_eq_self]
  intro x hx
  obtain ⟨a, -, rfl⟩ := List.mem_map.1 hx
  have hbound : (bindText (decimal (1 : Int64).toInt)).toInteger = .int (1 : Int64).toInt :=
    store_decimal (Int64.le_toInt 1) (Int64.toInt_lt 1)
  rw [decide_eq_true_eq, hbound]
  exact row_projectId (takenAt a.1)

/-- Every statement goes through. -/
def soundHost : PruneHost := ⟨true, true, fun _ => true⟩

/-- Three snapshots, a minute apart; the second has a tag. -/
def threeTaken : WorkspaceTables :=
  history [1700000000, 1700000060, 1700000120]
    ⟨[(1, ⟨1, 2, bytes "stable", [], 1700000090⟩)], 1⟩ (by decide)

theorem keepsPromise_iff_three : KeepsPromise soundHost 1 1 true threeTaken .byId :=
  (keepsPromise_iff (by decide)).2 (by decide +kernel) .byId

/-- More than a listing has. -/
def dailyTaken : WorkspaceTables :=
  history ((List.range 1001).map fun day => .ofNat (1700000000 + 86400 * day)) .empty (by simp)

/-- Of them ten are to be kept, and eleven are. -/
theorem dailyTaken_not_keepsPromise : ¬ ∀ o, KeepsPromise soundHost 1 10 false dailyTaken o := by
  intro hall
  have hlong : 1000 < (dailyTaken.rowsOf 1).length := by
    rw [dailyTaken, rowsOf_history, takenRows]
    simp
  exact not_keepsPromise_of_long .byId (by decide) (by decide) hlong (hall .byId)

end Nazg.Workspace
