import Nazg.Nexus.Snapshots

/-!
# The latest snapshots

A query that orders by a stamp of one second leaves the order within a second to the
engine. So the snapshots added last are found exactly if no other of the project, before
them, has a stamp as late.
-/

namespace Nazg.Nexus

open Lib Lib.Sqlite

/-- The column a query orders a table by. -/
def stampOf : SnapshotTable → String
  | .snapshots => "created_at"
  | _ => "timestamp"

/-! ## What the calls have added -/

section

variable {cs : List SnapshotCall} {tables : SnapshotTables}

theorem run_eq_some {c : SnapshotCall} {id : Int} {tables' : SnapshotTables}
    (h : c.run tables = some (id, tables')) : id = (tables c.table).lastId + 1 ∧
      tables' = Function.update tables c.table ((tables c.table).insertRow c.row) := by
  simp only [SnapshotCall.run, insertInto] at h
  split at h
  · cases h
    exact ⟨rfl, rfl⟩
  · cases h

theorem wf_addSnapshots {t : SnapshotTable} (h : (tables t).Wf) :
    ((addSnapshots cs tables).2 t).Wf := by
  induction cs generalizing tables with
  | nil => exact h
  | cons c cs ih =>
      rw [addSnapshots]
      split
      · exact ih h
      · next id tables' hrun =>
          obtain ⟨-, rfl⟩ := run_eq_some hrun
          refine ih ?_
          by_cases heq : t = c.table
          · rw [heq, Function.update_self]
            exact (heq ▸ h).insertRow _
          · rw [Function.update_of_ne heq]
            exact h

/-- A table holds what it held and behind it what was added, in the order of the calls. -/
theorem rows_addSnapshots (t : SnapshotTable) :
    ((addSnapshots cs tables).2 t).rows = (tables t).rows ++
      ((addSnapshots cs tables).1.filter fun a => a.1.table = t).map fun a => (a.2, a.1.row) := by
  induction cs generalizing tables with
  | nil => simp [addSnapshots]
  | cons c cs ih =>
      rw [addSnapshots]
      split
      · exact ih
      · next id tables' hrun =>
          obtain ⟨rfl, rfl⟩ := run_eq_some hrun
          dsimp only
          rw [ih]
          by_cases heq : t = c.table
          · rw [heq, Function.update_self, List.filter_cons_of_pos (by simp)]
            simp [Table.insertRow]
          · rw [Function.update_of_ne heq, List.filter_cons_of_neg (by simpa using Ne.symm heq)]

end

/-- Bound and stored, an integer is itself. -/
theorem store_decimal {i : Int} (hlo : -2 ^ 63 ≤ i) (hhi : i < 2 ^ 63) :
    Affinity.integer.store (bindText (decimal i)) = .int i :=
  toInteger_decimal hlo (Int.le_sub_one_of_lt hhi)

theorem row_projectId (c : SnapshotCall) : c.row "project_id" = .int c.projectId.toInt := by
  have hstore := store_decimal (Int64.le_toInt c.projectId) (Int64.toInt_lt c.projectId)
  cases c <;> exact hstore

theorem row_stamp (c : SnapshotCall) : c.row (stampOf c.table) = .int c.now.toInt := by
  have hstore := store_decimal (Int64.le_toInt c.now) (Int64.toInt_lt c.now)
  cases c with
  | addSnapshot => exact hstore
  | addWorkspaceSnapshot now projectId brainSnapshotId =>
      simp only [SnapshotCall.row, SnapshotCall.params]
      split <;> exact hstore

/-- The database before any snapshot. -/
def unsnapped (projects : Table Row) : SnapshotTables
  | .projects => projects
  | _ => .empty

section

variable (projects : Table Row) (cs : List SnapshotCall)

/-- What the calls have added to a table for a project, oldest first. -/
def added (t : SnapshotTable) (projectId : Int64) : List (SnapshotCall × Int) :=
  (addSnapshots cs (unsnapped projects)).1.filter fun a => a.1.table = t ∧ a.1.projectId = projectId

def tablesAfter : SnapshotTables := (addSnapshots cs (unsnapped projects)).2

/-- Each of the last `n` was added in a later second than all before it. -/
def NewestLead (n : Nat) (as : List (SnapshotCall × Int)) : Prop :=
  RowOrder.Leads (fun a => -a.1.now.toInt) n as.reverse

/-- The latest snapshots are the ones added last, and a listing has the last `n` from the
newest to the oldest, in whatever order the engine finds the rows. -/
def Recent (projectId : Int64) (n : Nat) : Prop :=
  ∀ o : RowOrder,
    latestSnapshot o projectId (tablesAfter projects cs) =
      (added projects cs .snapshots projectId).getLast?.map
        (fun a => readSnapshot (a.2, a.1.row)) ∧
    latestWorkspaceSnapshot o projectId (tablesAfter projects cs) =
      (added projects cs .workspaceSnapshots projectId).getLast?.map
        (fun a => readColumns (snapshotSchema .workspaceSnapshots) (a.2, a.1.row)) ∧
    listWorkspaceSnapshots o projectId n (tablesAfter projects cs) =
      ((added projects cs .workspaceSnapshots projectId).reverse.take n).map
        (fun a => readColumns listedColumns (a.2, a.1.row))

/-- The rows of a project are the ones added. -/
theorem rows_eq_added {t : SnapshotTable} (ht : t ≠ .projects) (projectId : Int64) :
    ((tablesAfter projects cs t).rows.filter fun x =>
        x.2 "project_id" = (bindText (decimal projectId.toInt)).toInteger) =
      (added projects cs t projectId).map fun a => (a.2, a.1.row) := by
  have hempty : (unsnapped projects t).rows = [] := by
    cases t with
    | projects => exact absurd rfl ht
    | snapshots => rfl
    | workspaceSnapshots => rfl
  have hbound : (bindText (decimal projectId.toInt)).toInteger = .int projectId.toInt :=
    store_decimal (Int64.le_toInt projectId) (Int64.toInt_lt projectId)
  rw [tablesAfter, rows_addSnapshots, hempty, List.nil_append, hbound, List.filter_map, added]
  congr 1
  rw [List.filter_filter]
  refine List.filter_congr fun a _ => ?_
  simp only [Function.comp, row_projectId, Value.int.injEq, Int64.toInt_inj, Bool.decide_and,
    Bool.and_comm]

theorem wf_tablesAfter {t : SnapshotTable} (ht : t ≠ .projects) :
    (tablesAfter projects cs t).Wf := by
  refine wf_addSnapshots ?_
  cases t with
  | projects => exact absurd rfl ht
  | snapshots => exact Table.wf_empty
  | workspaceSnapshots => exact Table.wf_empty

/-- Two of these rows with one id are one. -/
theorem eq_of_id_eq {t : SnapshotTable} (ht : t ≠ .projects) {x y : Int × Row}
    (hx : x ∈ (tablesAfter projects cs t).rows) (hy : y ∈ (tablesAfter projects cs t).rows)
    (h : x.1 = y.1) : x = y := by
  have hgx := Table.get?_of_mem (wf_tablesAfter projects cs ht) hx
  have hgy := Table.get?_of_mem (wf_tablesAfter projects cs ht) hy
  rw [h] at hgx
  exact Prod.ext h (Option.some.inj (hgx.symm.trans hgy))

theorem nodup_rows {t : SnapshotTable} (ht : t ≠ .projects) :
    (tablesAfter projects cs t).rows.Nodup :=
  (List.pairwise_map.1 (wf_tablesAfter projects cs ht).increasing).imp fun hlt heq =>
    absurd (congrArg Prod.fst heq) (ne_of_lt hlt)

/-- A map that tells the elements of two lists apart tells the lists apart. -/
theorem eq_of_map_eq {α β : Type} {f : α → β} {l₁ l₂ : List α}
    (hinj : ∀ x ∈ l₁, ∀ y ∈ l₂, f x = f y → x = y) (h : l₁.map f = l₂.map f) : l₁ = l₂ := by
  induction l₁ generalizing l₂ with
  | nil => exact (List.map_eq_nil_iff.1 h.symm).symm
  | cons x l₁ ih =>
      cases l₂ with
      | nil => cases h
      | cons y l₂ =>
          obtain ⟨hxy, hrest⟩ := List.cons.inj h
          rw [hinj x List.mem_cons_self y List.mem_cons_self hxy, ih (fun x hx y hy =>
            hinj x (List.mem_cons_of_mem _ hx) y (List.mem_cons_of_mem _ hy)) hrest]

theorem leads_map {α β : Type} {key : β → Int} {key' : α → Int} {f : α → β} {n : Nat} {l : List α}
    (h : ∀ a ∈ l, key (f a) = key' a) :
    RowOrder.Leads key n (l.map f) ↔ RowOrder.Leads key' n l := by
  induction l generalizing n with
  | nil => cases n <;> exact Iff.rfl
  | cons a l ih =>
      cases n with
      | zero => exact Iff.rfl
      | succ n =>
          have hhead := h a List.mem_cons_self
          have htail := fun b hb => h b (List.mem_cons_of_mem _ hb)
          rw [List.map_cons, RowOrder.Leads, RowOrder.Leads, ih htail, hhead]
          refine and_congr_left' ?_
          constructor
          · intro hlt b hb
            rw [← htail b hb]
            exact hlt _ (List.mem_map_of_mem hb)
          · intro hlt _ hy
            obtain ⟨b, hb, rfl⟩ := List.mem_map.1 hy
            rw [htail b hb]
            exact hlt b hb

/-- A query with a limit, read by what tells rows with different ids apart. -/
theorem query_iff {β : Type} {t : SnapshotTable} (ht : t ≠ .projects) (projectId : Int64) (n : Nat)
    {read : Int × Row → β} (hread : ∀ x y, read x = read y → x.1 = y.1) :
    (∀ o : RowOrder,
      ((newestRows o t (stampOf t) projectId (tablesAfter projects cs)).take n).map read =
        ((added projects cs t projectId).reverse.take n).map fun a => read (a.2, a.1.row)) ↔
      NewestLead n (added projects cs t projectId) := by
  have hrows := rows_eq_added projects cs ht projectId
  have hnodup := (nodup_rows projects cs ht).filter fun x =>
    x.2 "project_id" = (bindText (decimal projectId.toInt)).toInteger
  have hiff := RowOrder.take_orderBy_iff (fun x => -stampColumn (stampOf t) x) hnodup n
  have hstamps : RowOrder.Leads (fun x => -stampColumn (stampOf t) x) n
      ((added projects cs t projectId).map fun a => (a.2, a.1.row)).reverse ↔
        NewestLead n (added projects cs t projectId) := by
    rw [← List.map_reverse]
    refine leads_map fun a ha => ?_
    have htable : a.1.table = t := by
      have hmem := (List.mem_filter.1 (List.mem_reverse.1 ha)).2
      exact (of_decide_eq_true hmem).1
    have hstamp := row_stamp a.1
    rw [htable] at hstamp
    simp only [stampColumn, hstamp]
  rw [← hstamps, ← hrows, ← hiff]
  refine forall_congr' fun o => ?_
  have hmap : ((added projects cs t projectId).reverse.take n).map (fun a => read (a.2, a.1.row)) =
      (((tablesAfter projects cs t).rows.filter fun x =>
        x.2 "project_id" = (bindText (decimal projectId.toInt)).toInteger).reverse.take n).map
          read := by
    rw [hrows, ← List.map_reverse, ← List.map_take, List.map_map]
    rfl
  rw [hmap, newestRows]
  refine ⟨eq_of_map_eq fun x hx y hy hxy => ?_, fun h => congrArg _ h⟩
  refine eq_of_id_eq projects cs ht ?_ ?_ (hread x y hxy)
  · exact (List.mem_filter.1 ((o.orderBy_perm _ _).mem_iff.1 (List.mem_of_mem_take hx))).1
  · exact (List.mem_filter.1 (List.mem_reverse.1 (List.mem_of_mem_take hy))).1

/-- The same for the one row that a query for the latest returns. -/
theorem latest_iff {β : Type} {t : SnapshotTable} (ht : t ≠ .projects) (projectId : Int64)
    {read : Int × Row → β} (hread : ∀ x y, read x = read y → x.1 = y.1) :
    (∀ o : RowOrder,
      (limitRows 1 (newestRows o t (stampOf t) projectId (tablesAfter projects cs))).head?.map
          read =
        (added projects cs t projectId).getLast?.map fun a => read (a.2, a.1.row)) ↔
      NewestLead 1 (added projects cs t projectId) := by
  rw [← query_iff projects cs ht projectId 1 hread]
  refine forall_congr' fun o => ?_
  rw [← List.head?_reverse]
  generalize newestRows o t (stampOf t) projectId (tablesAfter projects cs) = rows
  generalize (added projects cs t projectId).reverse = as
  cases rows <;> cases as <;> simp [limitRows]

/-- The queries find what was added last exactly if that was added in a later second than
everything before it: the last of each kind, and the last `n` for a listing of `n`. -/
theorem recent_iff (projectId : Int64) (n : Nat) : Recent projects cs projectId n ↔
    NewestLead 1 (added projects cs .snapshots projectId) ∧
      NewestLead 1 (added projects cs .workspaceSnapshots projectId) ∧
      NewestLead n (added projects cs .workspaceSnapshots projectId) := by
  have hid : ∀ columns x y, readColumns columns x = readColumns columns y → x.1 = y.1 := by
    intro columns x y h
    exact decimal_injective (Prod.mk.inj (List.cons.inj h).1).2
  have hlist := query_iff projects cs (t := .workspaceSnapshots) (by decide) projectId n
    (hid listedColumns)
  rw [Recent, forall_and, forall_and, ← hlist,
    ← latest_iff projects cs (t := .workspaceSnapshots) (by decide) projectId (hid _),
    ← latest_iff projects cs (t := .snapshots) (by decide) projectId
      fun x y (h : readSnapshot x = readSnapshot y) => congrArg Snapshot.id h]
  refine and_congr_right' (and_congr_right' (forall_congr' fun o => ?_))
  have hlimit : ¬ (n : Int) < 0 := by omega
  rw [listWorkspaceSnapshots, limitRows, if_neg hlimit, Int.toNat_natCast]
  rfl

end

/-! ## Two snapshots in one second -/

/-- One project. -/
def oneProject : Table Row := ⟨[(1, fun _ => .null)], 1⟩

def sameSecond : List SnapshotCall :=
  [.addSnapshot 1700000000 1 (bytes "old") 10 1000, .addSnapshot 1700000000 1 (bytes "new") 11 1100]

/-- The one added last need not be the one found. -/
theorem sameSecond_not_recent : ¬ Recent oneProject sameSecond 1 0 := by
  intro h
  have hlead := (latest_iff oneProject sameSecond (t := .snapshots) (by decide) 1
    fun x y (h : readSnapshot x = readSnapshot y) => congrArg Snapshot.id h).1 fun o => (h o).1
  have hstamps : (added oneProject sameSecond .snapshots 1).reverse.map (fun a => a.1.now) =
      [1700000000, 1700000000] := by
    decide +kernel
  have hsecond : RowOrder.Leads (fun now : Int64 => -now.toInt) 1 [1700000000, 1700000000] := by
    rw [← hstamps]
    exact (leads_map fun _ _ => rfl).2 hlead
  exact absurd (hsecond.1 _ (List.mem_singleton.2 rfl)) (by decide)

end Nazg.Nexus
