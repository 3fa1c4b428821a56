import Mathlib.Data.List.Nodup
import Nazg.Lib.OrdMap
import Nazg.Lib.Sqlite

/-!
# Facts about projects

A fact is a value under a project, a namespace and a key. Setting it again replaces the value
in place; nothing here removes one.

Every statement succeeds, unless the project of a new fact is not there.
-/

namespace Nazg.Nexus

open Lib Lib.Sqlite

/-- A row of `facts`. -/
structure FactRow where
  projectId : Int64
  ns : Text
  key : Text
  value : Text
  createdAt : Int
  updatedAt : Int

/-- `UNIQUE(project_id, namespace, key)`. -/
def FactRow.slot (r : FactRow) : Int64 × Text × Text := (r.projectId, r.ns, r.key)

/-- The table `facts`, with the projects that are there. -/
structure Facts where
  projects : List Int64
  table : Table FactRow
  unique : (table.data.map FactRow.slot).Nodup

/-- The conflict clause of `set_fact`. -/
def FactRow.update (row r : FactRow) : FactRow :=
  { r with value := row.value, updatedAt := row.updatedAt }

theorem slot_upsertRow {row : FactRow} {t : Table FactRow} (h : (t.data.map FactRow.slot).Nodup) :
    ((t.upsertRow (fun r => r.slot = row.slot) row.update row).data.map FactRow.slot).Nodup := by
  by_cases hclash : ∃ r ∈ t.data, decide (r.slot = row.slot) = true
  · rw [Table.data_upsertRow_of_clash _ _ hclash, List.map_map]
    have hslots : t.data.map (FactRow.slot ∘ fun r =>
        if decide (r.slot = row.slot) = true then row.update r else r) =
          t.data.map FactRow.slot := by
      refine List.map_congr_left fun r _ => ?_
      simp only [Function.comp]
      split <;> rfl
    rwa [hslots]
  · have hnew : ∀ r ∈ t.data, decide (r.slot = row.slot) = false := fun r hr =>
      Bool.eq_false_of_not_eq_true fun heq => hclash ⟨r, hr, heq⟩
    rw [Table.data_upsertRow_of_new _ _ hnew, List.map_append, List.nodup_append]
    refine ⟨h, List.nodup_singleton _, fun a ha b hb heq => ?_⟩
    obtain ⟨r, hr, rfl⟩ := List.mem_map.1 ha
    rw [List.mem_singleton.1 hb] at heq
    exact absurd (hnew r hr) (by simp [heq])

/-- `Store::set_fact`. -/
def setFact (now : Int) (projectId : Int64) (ns key value : Bytes) (facts : Facts) : Facts :=
  let row : FactRow :=
    { projectId := projectId
      ns := .ofCStr ns
      key := .ofCStr key
      value := .ofCStr value
      createdAt := now
      updatedAt := now }
  if projectId ∈ facts.projects ∨ facts.table.data.any fun r => r.slot = row.slot then
    { projects := facts.projects
      table := facts.table.upsertRow (fun r => r.slot = row.slot) row.update row
      unique := slot_upsertRow facts.unique }
  else facts

/-- `Store::list_facts`. -/
def listFacts (projectId : Int64) (ns : Bytes) (facts : Facts) : OrdMap Bytes Bytes :=
  let rows := facts.table.data.filter fun r => r.projectId = projectId ∧ r.ns = .ofCStr ns
  (rows.mergeSort fun r s => r.key.bytes ≤ s.key.bytes).foldl
    (fun facts r => facts.insert r.key.bytes r.value.bytes) .empty

section

variable {projectId : Int64} {ns : Bytes} {facts : Facts}

/-- A listing has the value of the one row under the key. -/
theorem find?_listFacts {key value : Bytes} :
    (listFacts projectId ns facts).find? key = some value ↔
      ∃ r ∈ facts.table.data, r.projectId = projectId ∧ r.ns = .ofCStr ns ∧
        r.key.bytes = key ∧ r.value.bytes = value := by
  have hperm := List.mergeSort_perm
    (facts.table.data.filter fun r => decide (r.projectId = projectId ∧ r.ns = .ofCStr ns))
    fun r s => decide (r.key.bytes ≤ s.key.bytes)
  have hnodup : (((facts.table.data.filter fun r =>
      decide (r.projectId = projectId ∧ r.ns = .ofCStr ns)).mergeSort fun r s =>
        decide (r.key.bytes ≤ s.key.bytes)).map fun r => (r.key.bytes, r.value.bytes)).map
          Prod.fst |>.Nodup := by
    rw [List.map_map, (hperm.map _).nodup_iff]
    refine List.Nodup.map_on (fun r hr s hs hkey => ?_)
      ((facts.unique.of_map _).filter _)
    obtain ⟨hr, hr'⟩ := List.mem_filter.1 hr
    obtain ⟨hs, hs'⟩ := List.mem_filter.1 hs
    have hr' := of_decide_eq_true hr'
    have hs' := of_decide_eq_true hs'
    refine List.inj_on_of_nodup_map facts.unique hr hs ?_
    rw [FactRow.slot, FactRow.slot, hr'.1, hr'.2, hs'.1, hs'.2, Text.ext hkey]
  have hfold := OrdMap.find?_foldl_insert hnodup .empty key
  rw [List.foldl_map, OrdMap.find?_empty, Option.or_none] at hfold
  rw [listFacts, hfold]
  constructor
  · intro h
    obtain ⟨r, hr, heq⟩ := List.mem_map.1 (OrdMap.mem_of_lookup h)
    obtain ⟨hmem, hsel⟩ := List.mem_filter.1 (hperm.mem_iff.1 hr)
    obtain ⟨hproject, hns⟩ := of_decide_eq_true hsel
    cases heq
    exact ⟨r, hmem, hproject, hns, rfl, rfl⟩
  · rintro ⟨r, hr, hproject, hns, rfl, rfl⟩
    refine OrdMap.lookup_of_mem hnodup (List.mem_map_of_mem ?_)
    exact hperm.mem_iff.2 (List.mem_filter.2 ⟨hr, decide_eq_true ⟨hproject, hns⟩⟩)

theorem projects_setFact (now : Int) (key value : Bytes) :
    (setFact now projectId ns key value facts).projects = facts.projects := by
  rw [setFact]
  split <;> rfl

/-- The rows after an upsert: the new one, or the old one with the new value, and those of other
slots. -/
theorem mem_upsertRow {row r : FactRow} {t : Table FactRow} :
    r ∈ (t.upsertRow (fun r => r.slot = row.slot) row.update row).data ↔
      (∃ old ∈ t.data, old.slot = row.slot ∧ r = row.update old) ∨
        (r = row ∧ ∀ old ∈ t.data, old.slot ≠ row.slot) ∨
        (r ∈ t.data ∧ r.slot ≠ row.slot) := by
  by_cases hclash : ∃ old ∈ t.data, decide (old.slot = row.slot) = true
  · obtain ⟨taken, htaken, hslot⟩ := hclash
    replace hslot := of_decide_eq_true hslot
    rw [Table.data_upsertRow_of_clash _ _ ⟨taken, htaken, decide_eq_true hslot⟩, List.mem_map]
    constructor
    · rintro ⟨old, hold, rfl⟩
      by_cases h : old.slot = row.slot
      · exact .inl ⟨old, hold, h, if_pos (decide_eq_true h)⟩
      · rw [if_neg (by simpa using h)]
        exact .inr (.inr ⟨hold, h⟩)
    · rintro (⟨old, hold, h, rfl⟩ | ⟨-, hnone⟩ | ⟨hr, h⟩)
      · exact ⟨old, hold, if_pos (decide_eq_true h)⟩
      · exact absurd hslot (hnone taken htaken)
      · exact ⟨r, hr, if_neg (by simpa using h)⟩
  · have hnew : ∀ old ∈ t.data, old.slot ≠ row.slot := fun old hold h =>
      hclash ⟨old, hold, decide_eq_true h⟩
    rw [Table.data_upsertRow_of_new _ _ fun old hold => decide_eq_false (hnew old hold),
      List.mem_append, List.mem_singleton]
    constructor
    · rintro (hr | rfl)
      · exact .inr (.inr ⟨hr, hnew r hr⟩)
      · exact .inr (.inl ⟨rfl, hnew⟩)
    · rintro (⟨old, hold, h, -⟩ | ⟨rfl, -⟩ | ⟨hr, -⟩)
      · exact absurd h (hnew old hold)
      · exact .inr rfl
      · exact .inl hr

/-- What is listed after a fact was set. -/
theorem find?_setFact (hproject : projectId ∈ facts.projects) (now : Int) (key value k : Bytes) :
    (listFacts projectId ns (setFact now projectId ns key value facts)).find? k =
      if k = cstr key then some (cstr value) else (listFacts projectId ns facts).find? k := by
  rw [setFact, if_pos (.inl hproject)]
  refine Option.ext fun v => ?_
  rw [find?_listFacts]
  simp only [mem_upsertRow]
  by_cases hk : k = cstr key
  · subst hk
    rw [if_pos rfl, Option.some.injEq]
    constructor
    · rintro ⟨r, hr, hr₁, hr₂, hr₃, hv⟩
      have hslot : r.slot = (projectId, Text.ofCStr ns, Text.ofCStr key) := by
        rw [FactRow.slot, hr₁, hr₂, show r.key = .ofCStr key from Text.ext hr₃]
      rcases hr with ⟨old, -, -, rfl⟩ | ⟨rfl, -⟩ | ⟨-, hother⟩
      · exact hv
      · exact hv
      · exact absurd hslot hother
    · rintro rfl
      by_cases hold : ∃ old ∈ facts.table.data,
          old.slot = (projectId, Text.ofCStr ns, Text.ofCStr key)
      · obtain ⟨old, hold, hslot⟩ := hold
        obtain ⟨h₁, h₂, h₃⟩ : old.projectId = projectId ∧ old.ns = .ofCStr ns ∧
            old.key = .ofCStr key := by simpa [FactRow.slot] using hslot
        exact ⟨_, .inl ⟨old, hold, hslot, rfl⟩, h₁, h₂, by rw [FactRow.update, h₃]; rfl, rfl⟩
      · exact ⟨_, .inr (.inl ⟨rfl, fun old h hslot => hold ⟨old, h, hslot⟩⟩), rfl, rfl, rfl, rfl⟩
  · rw [if_neg hk, find?_listFacts]
    have hother : ∀ r : FactRow, r.key.bytes = k →
        r.slot ≠ (projectId, Text.ofCStr ns, Text.ofCStr key) := by
      intro r hr hslot
      have hkey : r.key = .ofCStr key := by
        simp only [FactRow.slot, Prod.mk.injEq] at hslot
        exact hslot.2.2
      exact hk (by rw [← hr, hkey]; rfl)
    constructor
    · rintro ⟨r, hr, hr₁, hr₂, hr₃, hv⟩
      rcases hr with ⟨old, -, hslot, rfl⟩ | ⟨rfl, -⟩ | ⟨hr, -⟩
      · exact absurd hslot (hother old hr₃)
      · exact absurd rfl (hother _ hr₃)
      · exact ⟨r, hr, hr₁, hr₂, hr₃, hv⟩
    · rintro ⟨r, hr, hr₁, hr₂, hr₃, hv⟩
      exact ⟨r, .inr (.inr ⟨hr, hother r hr₃⟩), hr₁, hr₂, hr₃, hv⟩

end

end Nazg.Nexus
