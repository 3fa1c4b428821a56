import Nazg.Nexus.References

/-!
# Absent references are refused

An absent reference is bound as an empty text. The column has INTEGER affinity, which
leaves the text a text, and only NULL is exempt from a foreign key: the statement fails.
So a call whose references are all in order succeeds, and is read back with them, exactly
if it leaves none of the optional ones out (`stored_iff`).

The six inserts differ in their columns alone and share `inserted_iff`; the update has
its own argument, since it checks only the column it sets.
-/

namespace Nazg.Nexus

open Lib Lib.Sqlite

/-! ## A reference and its column -/

theorem idText_value (id : Int64) : (bindText (idText id)).toInteger = .int id.toInt := by
  have hlt := id.toInt_lt
  exact toInteger_decimal id.le_toInt (by omega)

theorem getInt_id (id : Int64) : (Value.int id.toInt).getInt = some id.toInt := by
  have hlt := id.toInt_lt
  exact getInt_int id.le_toInt (by omega)

theorem optionalReference_zero : (bindText (optionalReference 0)).toInteger = .text (.ofCStr []) :=
  toInteger_empty

/-- A present reference is the id of a row, which is positive. -/
theorem optionalReference_of_mem {tables : Tables} {parent : TableName} (h : (tables parent).Wf)
    {id : Int64} (hid : id.toInt ∈ (tables parent).ids) :
    (bindText (optionalReference id)).toInteger = .int id.toInt := by
  have hpos : 0 < id := Int64.lt_iff_toInt_lt.2 (h.pos _ hid)
  rw [optionalReference, if_pos hpos, idText_value]

theorem schema_names (t : TableName) : ((schema t).map Column.name).Nodup := by
  cases t <;> decide

/-! ## The inserts -/

/-- What the six inserts have in common: the references are bound to the columns of their
names, and every other foreign key of the table is left NULL. -/
theorem inserted_iff {tables : Tables} (hwf : ∀ t, (tables t).Wf) {t : TableName}
    {params : List (String × Bytes)} {mandatory optional : List (String × TableName × Int64)}
    (hmandatory : ∀ r ∈ mandatory, r.2.2.toInt ∈ (tables r.2.1).ids)
    (hoptional : ∀ r ∈ optional, r.2.2 = 0 ∨ r.2.2.toInt ∈ (tables r.2.1).ids)
    (hbound : ((schema t).all fun c => !c.notNull || decide (c.name ∈ params.map Prod.fst)) = true)
    (hids : ∀ r ∈ mandatory,
      newRow (schema t) params r.1 = (bindText (idText r.2.2)).toInteger)
    (hrefs : ∀ r ∈ optional,
      newRow (schema t) params r.1 = (bindText (optionalReference r.2.2)).toInteger)
    (hkeys : ((foreignKeys (schema t)).all fun k =>
      decide (k ∈ (mandatory ++ optional).map fun r => (r.1, r.2.1)) ||
        decide (newRow (schema t) params k.1 = .null)) = true)
    (hcolumns : ((mandatory ++ optional).all fun r =>
      decide ((r.1, r.2.1) ∈ foreignKeys (schema t)) && decide (r.1 ≠ "id")) = true) :
    (∃ id after, insertInto schema t params tables = some (id, after) ∧
        ∃ row, (after t).get? id = some row ∧
          ∀ r ∈ mandatory ++ optional, reported id row r.1 = r.2.2.toInt) ↔
      ∀ r ∈ optional, r.2.2 ≠ 0 := by
  have hnotNull : ∀ c ∈ schema t, c.notNull = true → c.name ∈ params.map Prod.fst := by
    intro c hc hnull
    have hc := List.all_eq_true.1 hbound c hc
    rw [hnull] at hc
    exact of_decide_eq_true hc
  have hcolumn : ∀ r ∈ mandatory ++ optional,
      (r.1, r.2.1) ∈ foreignKeys (schema t) ∧ r.1 ≠ "id" := by
    intro r hr
    have hr := List.all_eq_true.1 hcolumns r hr
    rw [Bool.and_eq_true] at hr
    exact ⟨of_decide_eq_true hr.1, of_decide_eq_true hr.2⟩
  rw [insertInto_iff (hwf t) (schema_names t) hnotNull
    fun id row => ∀ r ∈ mandatory ++ optional, reported id row r.1 = r.2.2.toInt]
  constructor
  · rintro ⟨hall, -⟩ r hr hzero
    have hparent := hall _ (hcolumn r (List.mem_append_right _ hr)).1
    rw [hrefs r hr, hzero, optionalReference_zero] at hparent
    cases hparent
  · intro hpresent
    have hvalue : ∀ r ∈ mandatory ++ optional,
        newRow (schema t) params r.1 = .int r.2.2.toInt ∧ r.2.2.toInt ∈ (tables r.2.1).ids := by
      intro r hr
      rcases List.mem_append.1 hr with hr | hr
      · exact ⟨(hids r hr).trans (idText_value _), hmandatory r hr⟩
      · have hmem := (hoptional r hr).resolve_left (hpresent r hr)
        exact ⟨(hrefs r hr).trans (optionalReference_of_mem (hwf _) hmem), hmem⟩
    refine ⟨fun k hk => ?_, fun r hr => ?_⟩
    · rcases Bool.or_eq_true_iff.1 (List.all_eq_true.1 hkeys k hk) with hmem | hnull
      · obtain ⟨r, hr, rfl⟩ := List.mem_map.1 (of_decide_eq_true hmem)
        rw [(hvalue r hr).1]
        exact decide_eq_true (hvalue r hr).2
      · rw [of_decide_eq_true hnull]
        rfl
    · rw [reported, if_neg (hcolumn r hr).2, (hvalue r hr).1, getInt_id]
      rfl

/-! ## The update -/

/-- The update writes one of the three snapshot columns, and that one is checked. -/
theorem updated_iff {now : Int} {tables : Tables} (hwf : ∀ t, (tables t).Wf)
    {failureId resolutionSnapshotId : Int64}
    (hfailure : failureId.toInt ∈ (tables .workspaceFailures).ids)
    (hsnapshot : resolutionSnapshotId = 0 ∨
      resolutionSnapshotId.toInt ∈ (tables .workspaceSnapshots).ids)
    (resolutionType notes : Bytes) (success : Bool) :
    (ReferenceCall.updateFailureResolution failureId resolutionType resolutionSnapshotId notes
      success).Stored now tables ↔ resolutionSnapshotId ≠ 0 := by
  obtain ⟨x, hx, hxid⟩ := List.mem_map.1 hfailure
  have hold : (tables .workspaceFailures).get? failureId.toInt = some x.2 :=
    Table.get?_of_mem (hwf _) (hxid ▸ hx)
  let params : List (String × Bytes) := [("resolved", bytes "1"), ("resolved_at", decimal now),
    ("resolution_type", resolutionType),
    ("resolution_snapshot_id", optionalReference resolutionSnapshotId),
    ("resolution_notes", notes), ("resolution_success", if success then bytes "1" else bytes "0")]
  have hstored : (ReferenceCall.updateFailureResolution failureId resolutionType
      resolutionSnapshotId notes success).Stored now tables ↔
        ∃ after, updateById schema .workspaceFailures failureId.toInt params tables = some after ∧
          ∃ row, (after .workspaceFailures).get? failureId.toInt = some row ∧
            (row "resolution_snapshot_id").getInt.getD 0 = resolutionSnapshotId.toInt := by
    constructor
    · rintro ⟨id, after, hrun, row, hrow, hreported⟩
      obtain ⟨after', hafter, heq⟩ := Option.map_eq_some_iff.1 hrun
      cases heq
      exact ⟨_, hafter, row, hrow,
        hreported _ (List.mem_append_right _ (List.mem_singleton.2 rfl))⟩
    · rintro ⟨after, hafter, row, hrow, hreported⟩
      refine ⟨failureId.toInt, after, Option.map_eq_some_iff.2 ⟨after, hafter, rfl⟩, row, hrow,
        List.forall_mem_cons.2 ⟨rfl, List.forall_mem_singleton.2 hreported⟩⟩
  have hset : params.map Prod.fst = ["resolved", "resolved_at", "resolution_type",
      "resolution_snapshot_id", "resolution_notes", "resolution_success"] := rfl
  have honly : ∀ r ∈ foreignKeys (schema .workspaceFailures), r.1 ∈ ["resolved", "resolved_at",
      "resolution_type", "resolution_snapshot_id", "resolution_notes", "resolution_success"] →
        r = ("resolution_snapshot_id", .workspaceSnapshots) := by
    decide
  have hvalue : setRow (schema .workspaceFailures) params x.2 "resolution_snapshot_id" =
      (bindText (optionalReference resolutionSnapshotId)).toInteger := rfl
  rw [hstored, updateById_iff params hold (schema_names _) fun row =>
    (row "resolution_snapshot_id").getInt.getD 0 = resolutionSnapshotId.toInt, hvalue, hset]
  constructor
  · rintro ⟨hall, -⟩ rfl
    have hparent := hall ("resolution_snapshot_id", .workspaceSnapshots) (by decide) (by decide)
    rw [hvalue, optionalReference_zero] at hparent
    cases hparent
  · intro hpresent
    have hmem := hsnapshot.resolve_left hpresent
    rw [optionalReference_of_mem (hwf _) hmem] at hvalue ⊢
    refine ⟨fun r hr hname => ?_, ?_⟩
    · rw [honly r hr hname, hvalue]
      exact decide_eq_true hmem
    · rw [getInt_id]
      rfl

/-- A call whose references are in order succeeds, and is read back with them, exactly if it
leaves none of the optional ones out. -/
theorem stored_iff {tables : Tables} (hwf : ∀ t, (tables t).Wf) (now : Int) (c : ReferenceCall)
    (hv : c.Valid tables) : c.Stored now tables ↔ ∀ r ∈ c.optional, r.2.2 ≠ 0 := by
  cases c with
  | recordWorkspaceFailure =>
      exact inserted_iff hwf hv.1 hv.2 rfl (List.forall_mem_singleton.2 rfl)
        (List.forall_mem_cons.2 ⟨rfl, List.forall_mem_singleton.2 rfl⟩) rfl rfl
  | recordFailureWithContext =>
      exact inserted_iff hwf hv.1 hv.2 rfl (List.forall_mem_singleton.2 rfl)
        (List.forall_mem_cons.2 ⟨rfl, List.forall_mem_singleton.2 rfl⟩) rfl rfl
  | updateFailureResolution failureId resolutionType resolutionSnapshotId notes success =>
      rw [updated_iff hwf (hv.1 _ (List.mem_singleton.2 rfl)) (hv.2 _ (List.mem_singleton.2 rfl))]
      simp [ReferenceCall.optional]
  | addRecoveryAction =>
      exact inserted_iff hwf hv.1 hv.2 rfl (List.forall_mem_nil _)
        (List.forall_mem_cons.2 ⟨rfl, List.forall_mem_singleton.2 rfl⟩) rfl rfl
  | beginRecoveryExecution =>
      exact inserted_iff hwf hv.1 hv.2 rfl
        (List.forall_mem_cons.2 ⟨rfl, List.forall_mem_singleton.2 rfl⟩)
        (List.forall_mem_singleton.2 rfl) rfl rfl
  | addRepoMigration record =>
      -- this one tests for 0 where the others test for positive ids
      have hproject : (if record.projectId ≠ 0 then idText record.projectId else []) =
          optionalReference record.projectId := by
        have hproject := hv.2 ("project_id", .projects, record.projectId) (List.mem_singleton.2 rfl)
        rcases hproject with hzero | hmem
        · simp only at hzero
          rw [hzero]
          rfl
        · have hpos : 0 < record.projectId := Int64.lt_iff_toInt_lt.2 ((hwf _).pos _ hmem)
          rw [optionalReference, if_pos hpos, if_pos]
          rintro hzero
          rw [hzero] at hpos
          exact absurd hpos (by decide)
      refine inserted_iff hwf hv.1 hv.2 rfl (List.forall_mem_singleton.2 rfl)
        (List.forall_mem_singleton.2 ?_) rfl rfl
      exact congrArg (fun s => (bindText s).toInteger) hproject
  | logAction =>
      exact inserted_iff hwf hv.1 hv.2 rfl (List.forall_mem_singleton.2 rfl)
        (List.forall_mem_singleton.2 rfl) rfl rfl

/-- One row in every table. -/
def oneRowEach : Tables := fun _ => ⟨[(1, fun _ => .null)], 1⟩

theorem wf_oneRowEach (t : TableName) : (oneRowEach t).Wf :=
  ⟨List.pairwise_singleton _ _, List.forall_mem_singleton.2 (Int.le_refl 1),
    List.forall_mem_singleton.2 Int.one_pos, Int.one_nonneg⟩

/-- A restart logged for a stack, or for none when the id is 0. -/
def logRestart (stackId : Int64) : ReferenceCall :=
  .logAction 1 stackId (bytes "restart") (bytes "plex") (bytes "unhealthy") (bytes "auto")

theorem stored_iff_logRestart :
    (logRestart 1).Stored 0 oneRowEach ↔ ∀ r ∈ (logRestart 1).optional, r.2.2 ≠ 0 :=
  stored_iff wf_oneRowEach 0 (logRestart 1) ⟨by decide, by decide⟩

/-- An action that belongs to no stack is not logged. -/
theorem logRestart_refused :
    (logRestart 0).Valid oneRowEach ∧ ¬ (logRestart 0).Stored 0 oneRowEach := by
  refine ⟨⟨by decide, by decide⟩, ?_⟩
  rintro ⟨id, after, hrun, -⟩
  have hnone : ((logRestart 0).run 0 oneRowEach).isNone = true := by decide +kernel
  rw [hrun] at hnone
  cases hnone

end Nazg.Nexus
