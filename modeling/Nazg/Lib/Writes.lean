import Nazg.Lib.Query
import Nazg.Lib.Runs

/-!
# Logs of writes

A store of values under keys is written by putting a value under a key and by dropping what
meets a condition. A value stands after a log of writes if it was put and no later write put
another under its key or dropped it. A machine whose steps write stands for the log of all
that its steps wrote.
-/

namespace Nazg.Lib

inductive Write (κ ν : Type*) where
  | put (k : κ) (v : ν)
  /-- Whatever the condition holds of goes. -/
  | drop (gone : κ → ν → Bool)

namespace Write

variable {κ ν : Type*} [DecidableEq κ]

/-- What a write leaves under a key. -/
def on (k : κ) : Write κ ν → Option ν → Option ν
  | put k' v, old => if k' = k then some v else old
  | drop gone, old => old.filter fun v => !gone k v

/-- The write leaves a value that is under the key. -/
def Keeps (k : κ) (v : ν) : Write κ ν → Prop
  | put k' _ => k' ≠ k
  | drop gone => gone k v = false

/-- What is under a key after some writes. -/
def after (log : List (Write κ ν)) (start : Option ν) (k : κ) : Option ν :=
  log.foldl (fun old w => w.on k old) start

/-- The value was put under the key and no later write took it away. -/
def Stands (log : List (Write κ ν)) (k : κ) (v : ν) : Prop :=
  ∃ before later, log = before ++ put k v :: later ∧ ∀ w ∈ later, w.Keeps k v

@[simp] theorem after_nil (start : Option ν) (k : κ) : after [] start k = start := rfl

@[simp] theorem after_cons (w : Write κ ν) (log : List (Write κ ν)) (start : Option ν) (k : κ) :
    after (w :: log) start k = after log (w.on k start) k := rfl

theorem after_append (log log' : List (Write κ ν)) (start : Option ν) (k : κ) :
    after (log ++ log') start k = after log' (after log start k) k := by
  simp only [after, List.foldl_append]

theorem on_eq_some_iff (w : Write κ ν) (old : Option ν) (k : κ) (v : ν) :
    w.on k old = some v ↔ w = put k v ∨ old = some v ∧ w.Keeps k v := by
  cases w with
  | put k' v' =>
      by_cases hk : k' = k
      · subst hk
        simp [on, Keeps]
      · simp [on, Keeps, hk]
  | drop gone => simp [on, Keeps, Option.filter_eq_some_iff]

/-- Of what was there before, that stays which every write keeps. -/
theorem after_eq_some_iff_or (log : List (Write κ ν)) (start : Option ν) (k : κ) (v : ν) :
    after log start k = some v ↔
      Stands log k v ∨ start = some v ∧ ∀ w ∈ log, w.Keeps k v := by
  induction log generalizing start with
  | nil => simp [Stands]
  | cons w log ih =>
      rw [after_cons, ih, on_eq_some_iff]
      constructor
      · rintro (⟨before, later, rfl, hkeeps⟩ | ⟨rfl | ⟨hstart, hw⟩, hkeeps⟩)
        · exact .inl ⟨w :: before, later, rfl, hkeeps⟩
        · exact .inl ⟨[], log, rfl, hkeeps⟩
        · exact .inr ⟨hstart, List.forall_mem_cons.2 ⟨hw, hkeeps⟩⟩
      · rintro (⟨before, later, heq, hkeeps⟩ | ⟨hstart, hkeeps⟩)
        · cases before with
          | nil =>
              obtain ⟨rfl, rfl⟩ := List.cons.inj heq
              exact .inr ⟨.inl rfl, hkeeps⟩
          | cons b before =>
              obtain ⟨rfl, rfl⟩ := List.cons.inj heq
              exact .inl ⟨before, later, rfl, hkeeps⟩
        · obtain ⟨hw, hkeeps⟩ := List.forall_mem_cons.1 hkeeps
          exact .inr ⟨.inr ⟨hstart, hw⟩, hkeeps⟩

theorem after_eq_some_iff (log : List (Write κ ν)) (k : κ) (v : ν) :
    after log none k = some v ↔ Stands log k v := by
  rw [after_eq_some_iff_or]
  simp

/-- A machine each of whose calls writes in this way. -/
theorem find_run {σ ι : Type*} {step : σ → ι → σ} {find : σ → κ → Option ν}
    {writes : ι → List (Write κ ν)}
    (hstep : ∀ s c k, find (step s c) k = after (writes c) (find s k) k) (s : σ) (calls : List ι)
    (k : κ) : find (Runs.run step s calls) k = after (calls.flatMap writes) (find s k) k := by
  induction calls generalizing s with
  | nil => rfl
  | cons c calls ih => rw [Runs.run_cons, ih, hstep, List.flatMap_cons, after_append]

omit [DecidableEq κ] in
theorem Stands.mem {log : List (Write κ ν)} {k : κ} {v : ν} (h : Stands log k v) :
    put k v ∈ log := by
  obtain ⟨before, later, rfl, -⟩ := h
  exact List.mem_append_right _ List.mem_cons_self

omit [DecidableEq κ] in
/-- What stands in a log that puts each value under its own key. -/
theorem Stands.of_puts {key : ν → κ} {vs : List ν} {k : κ} {v : ν}
    (h : Stands (vs.map fun x => put (key x) x) k v) : v ∈ vs ∧ key v = k := by
  obtain ⟨x, hx, hput⟩ := List.mem_map.1 h.mem
  obtain ⟨hkey, rfl⟩ := put.inj hput
  exact ⟨hx, hkey⟩

/-- In a log that drops nothing something stands under every key that was put. -/
theorem exists_stands (key : ν → κ) {vs : List ν} {v : ν} (h : v ∈ vs) :
    ∃ v', Stands (vs.map fun x => put (key x) x) (key v) v' := by
  simp only [← after_eq_some_iff]
  induction vs using List.reverseRecOn with
  | nil => cases h
  | append_singleton vs w ih =>
      rw [List.map_append, List.map_singleton, after_append, after_cons, after_nil, on]
      by_cases hkey : key w = key v
      · exact ⟨w, if_pos hkey⟩
      · rw [if_neg hkey]
        rcases List.mem_append.1 h with h | h
        · exact ih h
        · exact absurd (congrArg key (List.mem_singleton.1 h)).symm hkey

end Write

/-!
## Tables under a key

A table that is only inserted into with `OR REPLACE` has one row for a key.
-/

namespace Sqlite.Table

variable {κ ρ : Type*} [DecidableEq κ] (key : ρ → κ)

/-- The rows are those that a lookup by their key gives. -/
def Shows (find : κ → Option ρ) (t : Table ρ) : Prop := ∀ r, r ∈ t.data ↔ find (key r) = some r

variable {key} {find : κ → Option ρ} {t : Table ρ}

omit [DecidableEq κ] in
theorem shows_empty : (empty : Table ρ).Shows key fun _ => none := by
  intro r
  simp [empty, data]

theorem Shows.replaceRow (h : t.Shows key find) (r : ρ) :
    (t.replaceRow (fun x => key x = key r) r).Shows key fun k =>
      (Write.put (key r) r).on k (find k) := by
  intro x
  rw [data_replaceRow, List.mem_append, List.mem_filter, List.mem_singleton, h x]
  by_cases hkey : key r = key x
  · simp only [Write.on, hkey, decide_true, Bool.not_true, Bool.false_eq_true, and_false, false_or,
      if_true, Option.some.injEq]
    exact eq_comm
  · have hne : ¬ key x = key r := fun heq => hkey heq.symm
    have hother : ¬ x = r := fun heq => hkey (heq ▸ rfl)
    simp [Write.on, hkey, hne, hother]

theorem Shows.replaceAll (h : t.Shows key find) (rs : List ρ) :
    (t.replaceAll key rs).Shows key fun k =>
      Write.after (rs.map fun r => Write.put (key r) r) (find k) k := by
  induction rs generalizing t find with
  | nil => exact h
  | cons r rs ih => exact ih (h.replaceRow r)

theorem Shows.deleteWhere (h : t.Shows key find) (gone : ρ → Bool) :
    (t.deleteWhere fun _ r => gone r).Shows key fun k =>
      (Write.drop fun _ r => gone r).on k (find k) := by
  intro x
  have hdata : (t.deleteWhere fun _ r => gone r).data = t.data.filter fun r => !gone r := by
    simp [Table.deleteWhere, data, List.filter_map, Function.comp_def]
  rw [hdata, List.mem_filter, h x]
  simp only [Write.on, Option.filter_eq_some_iff]

theorem nodup_replaceRow (h : (t.data.map key).Nodup) (r : ρ) :
    ((t.replaceRow (fun x => key x = key r) r).data.map key).Nodup := by
  rw [data_replaceRow, List.map_append, List.nodup_append]
  refine ⟨h.sublist (List.filter_sublist.map key), List.nodup_singleton _, ?_⟩
  intro a ha b hb heq
  obtain ⟨x, hx, rfl⟩ := List.mem_map.1 ha
  rw [List.map_singleton, List.mem_singleton] at hb
  have hclash := (List.mem_filter.1 hx).2
  simp [heq, hb] at hclash

theorem nodup_replaceAll (h : (t.data.map key).Nodup) (rs : List ρ) :
    ((t.replaceAll key rs).data.map key).Nodup := by
  induction rs generalizing t with
  | nil => exact h
  | cons r rs ih => exact ih (nodup_replaceRow h r)

omit [DecidableEq κ] in
theorem nodup_deleteWhere (h : (t.data.map key).Nodup) (gone : Int → ρ → Bool) :
    ((t.deleteWhere gone).data.map key).Nodup :=
  h.sublist ((List.filter_sublist.map Prod.snd).map key)

/-! ### A row by its id after an update -/

variable {α : Type*} {t : Table α} {i : Int} {r : α}

theorem get?_updateRow_self (h : t.get? i = some r) (f : α → α) :
    (t.updateRow i f).get? i = some (f r) := by
  obtain ⟨x, hx, rfl⟩ := Option.map_eq_some_iff.1 h
  have hid : ((fun x : Int × α => decide (x.1 = i)) ∘
      fun x => if x.1 = i then (x.1, f x.2) else x) = fun x => decide (x.1 = i) := by
    funext x
    by_cases hi : x.1 = i <;> simp [hi]
  have hi : x.1 = i := by simpa using List.find?_some hx
  rw [Table.get?, Table.updateRow, List.find?_map, hid, hx, Option.map_some, Option.map_some,
    if_pos hi]

theorem get?_updateRow_of_ne {j : Int} (hne : j ≠ i) (f : α → α) :
    (t.updateRow i f).get? j = t.get? j := by
  have hid : ((fun x : Int × α => decide (x.1 = j)) ∘
      fun x => if x.1 = i then (x.1, f x.2) else x) = fun x => decide (x.1 = j) := by
    funext x
    by_cases hi : x.1 = i <;> simp [hi]
  rw [Table.get?, Table.updateRow, List.find?_map, hid, Table.get?]
  cases hfind : t.rows.find? fun x => decide (x.1 = j) with
  | none => rfl
  | some x =>
      have hj : x.1 = j := by simpa using List.find?_some hfind
      rw [Option.map_some, Option.map_some, Option.map_some, if_neg (hj ▸ hne)]

end Sqlite.Table

end Nazg.Lib
