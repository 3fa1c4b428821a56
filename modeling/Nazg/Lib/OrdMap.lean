import Mathlib.Order.Lattice
import Mathlib.Data.List.Pairwise

/-!
# Ordered maps

A `std::map` kept as the list of its entries in key order, with the proof that
the order is strict. Iterating over the map is reading the list, so a loop over
a map in the source is a fold over `entries` here and visits the keys in the
same order.

A map is determined by its lookups (`OrdMap.ext_find?`), which is how two maps
built along different routes are shown equal.
-/

namespace Nazg.Lib

variable {κ ν : Type*} [LinearOrder κ]

/-- A finite map, its entries listed by increasing key. -/
structure OrdMap (κ ν : Type*) [LinearOrder κ] where
  entries : List (κ × ν)
  sorted : entries.Pairwise fun a b => a.1 < b.1

namespace OrdMap

/-- The value stored at a key in a list of entries. -/
def lookup (k : κ) : List (κ × ν) → Option ν
  | [] => none
  | e :: es => if k = e.1 then some e.2 else lookup k es

/-- `insert_or_assign` on the list of entries. -/
def put (k : κ) (v : ν) : List (κ × ν) → List (κ × ν)
  | [] => [(k, v)]
  | e :: es =>
      if k < e.1 then (k, v) :: e :: es
      else if k = e.1 then (k, v) :: es
      else e :: put k v es

theorem mem_put {k : κ} {v : ν} {es : List (κ × ν)} {e : κ × ν}
    (h : e ∈ put k v es) : e = (k, v) ∨ e ∈ es := by
  induction es with
  | nil => exact Or.inl (by simpa [put] using h)
  | cons x es ih =>
      rw [put] at h
      split at h
      · exact List.mem_cons.1 h
      · split at h
        · exact (List.mem_cons.1 h).imp_right (List.mem_cons_of_mem _)
        · rcases List.mem_cons.1 h with rfl | h
          · exact Or.inr List.mem_cons_self
          · exact (ih h).imp_right (List.mem_cons_of_mem _)

theorem put_sorted {k : κ} {v : ν} {es : List (κ × ν)}
    (h : es.Pairwise fun a b => a.1 < b.1) :
    (put k v es).Pairwise fun a b => a.1 < b.1 := by
  induction es with
  | nil => exact List.pairwise_singleton _ _
  | cons e es ih =>
      rw [put]
      obtain ⟨he, hes⟩ := List.pairwise_cons.1 h
      split
      · next hlt =>
          refine List.pairwise_cons.2 ⟨fun a ha => ?_, h⟩
          rcases List.mem_cons.1 ha with rfl | ha
          · exact hlt
          · exact lt_trans hlt (he a ha)
      · split
        · next heq => exact List.pairwise_cons.2 ⟨fun a ha => heq ▸ he a ha, hes⟩
        · next hlt hne =>
            refine List.pairwise_cons.2 ⟨fun a ha => ?_, ih hes⟩
            rcases mem_put ha with rfl | ha
            · exact lt_of_le_of_ne (not_lt.1 hlt) (Ne.symm hne)
            · exact he a ha

theorem lookup_of_mem {k : κ} {v : ν} {es : List (κ × ν)} (h : (es.map Prod.fst).Nodup)
    (hm : (k, v) ∈ es) : lookup k es = some v := by
  induction es with
  | nil => cases hm
  | cons e es ih =>
      rw [List.map_cons, List.nodup_cons] at h
      rw [lookup]
      rcases List.mem_cons.1 hm with rfl | hm
      · rw [if_pos rfl]
      · rw [if_neg, ih h.2 hm]
        rintro rfl
        exact h.1 (List.mem_map.2 ⟨_, hm, rfl⟩)

theorem mem_of_lookup {k : κ} {v : ν} {es : List (κ × ν)}
    (h : lookup k es = some v) : (k, v) ∈ es := by
  induction es with
  | nil => cases h
  | cons e es ih =>
      rw [lookup] at h
      split at h
      · next hk =>
          cases h
          rw [hk]
          exact List.mem_cons_self
      · exact List.mem_cons_of_mem _ (ih h)

theorem isSome_lookup {k : κ} {es : List (κ × ν)} :
    (lookup k es).isSome = true ↔ k ∈ es.map Prod.fst := by
  induction es with
  | nil => simp [lookup]
  | cons e es ih =>
      rw [lookup, List.map_cons, List.mem_cons, ← ih]
      by_cases hk : k = e.1
      · simp only [hk, if_true, Option.isSome_some, true_or]
      · simp only [hk, if_false, false_or]

theorem lookup_eq_none {k : κ} {es : List (κ × ν)} :
    lookup k es = none ↔ k ∉ es.map Prod.fst := by
  rw [← isSome_lookup, Option.not_isSome_iff_eq_none]

theorem lookup_append (k : κ) (as bs : List (κ × ν)) :
    lookup k (as ++ bs) = (lookup k as).or (lookup k bs) := by
  induction as with
  | nil => rfl
  | cons a as ih =>
      rw [List.cons_append, lookup, lookup]
      split
      · rfl
      · exact ih

theorem lookup_put (k k' : κ) (v : ν) (es : List (κ × ν)) :
    lookup k' (put k v es) = if k' = k then some v else lookup k' es := by
  induction es with
  | nil => rfl
  | cons e es ih =>
      rw [put]
      split
      · rw [lookup]
      · next hlt =>
          split
          · next heq =>
              rw [lookup, lookup, ← heq]
              split <;> rfl
          · next hne =>
              rw [lookup, lookup, ih]
              split
              · next hk => rw [if_neg (fun h => hne (by rw [← h, hk]))]
              · rfl

theorem lookup_filter_ne (k k' : κ) (es : List (κ × ν)) :
    lookup k' (es.filter fun e => e.1 ≠ k) = if k' = k then none else lookup k' es := by
  induction es with
  | nil => simp [lookup]
  | cons e es ih =>
      rw [List.filter_cons]
      by_cases he : e.1 = k
      · simp only [he, ne_eq, not_true_eq_false, decide_false, Bool.false_eq_true, if_false, ih,
          lookup]
        split <;> rfl
      · simp only [he, ne_eq, not_false_eq_true, decide_true, if_true, lookup, ih]
        by_cases hk : k' = k
        · simp [hk, Ne.symm he]
        · simp [hk]

/-! ## The operations -/

/-- The map with no entry. -/
def empty : OrdMap κ ν := ⟨[], List.Pairwise.nil⟩

/-- The value at a key, if the key is in the map. -/
def find? (m : OrdMap κ ν) (k : κ) : Option ν := lookup k m.entries

/-- `m[k] = v`. -/
def insert (m : OrdMap κ ν) (k : κ) (v : ν) : OrdMap κ ν :=
  ⟨put k v m.entries, put_sorted m.sorted⟩

/-- `m.erase(k)`. -/
def erase (m : OrdMap κ ν) (k : κ) : OrdMap κ ν :=
  ⟨m.entries.filter fun e => e.1 ≠ k, m.sorted.filter _⟩

/-- The keys in increasing order. -/
def keys (m : OrdMap κ ν) : List κ := m.entries.map Prod.fst

instance : Inhabited (OrdMap κ ν) := ⟨empty⟩

instance [DecidableEq ν] : DecidableEq (OrdMap κ ν) := fun a b =>
  decidable_of_iff (a.entries = b.entries) (by cases a; cases b; simp)

@[simp] theorem find?_empty (k : κ) : (empty : OrdMap κ ν).find? k = none := rfl

@[simp] theorem find?_insert (m : OrdMap κ ν) (k k' : κ) (v : ν) :
    (m.insert k v).find? k' = if k' = k then some v else m.find? k' :=
  lookup_put k k' v m.entries

@[simp] theorem find?_erase (m : OrdMap κ ν) (k k' : κ) :
    (m.erase k).find? k' = if k' = k then none else m.find? k' :=
  lookup_filter_ne k k' m.entries

theorem mem_entries {m : OrdMap κ ν} {k : κ} {v : ν} :
    (k, v) ∈ m.entries ↔ m.find? k = some v :=
  ⟨lookup_of_mem (List.pairwise_map.2 (m.sorted.imp ne_of_lt)), mem_of_lookup⟩

theorem mem_keys {m : OrdMap κ ν} {k : κ} : k ∈ m.keys ↔ ∃ v, m.find? k = some v := by
  simp only [keys, List.mem_map, ← mem_entries]
  constructor
  · rintro ⟨⟨k', v⟩, hm, rfl⟩
    exact ⟨v, hm⟩
  · rintro ⟨v, hm⟩
    exact ⟨(k, v), hm, rfl⟩

theorem find?_eq_none {m : OrdMap κ ν} {k : κ} : m.find? k = none ↔ k ∉ m.keys := by
  rw [mem_keys]
  cases m.find? k with
  | none => simp
  | some v => simp

theorem keys_sorted (m : OrdMap κ ν) : m.keys.Pairwise (· < ·) :=
  List.pairwise_map.2 m.sorted

theorem keys_nodup (m : OrdMap κ ν) : m.keys.Nodup :=
  m.keys_sorted.imp ne_of_lt

@[simp] theorem keys_empty : (empty : OrdMap κ ν).keys = [] := rfl

theorem mem_keys_insert {m : OrdMap κ ν} {k k' : κ} {v : ν} :
    k' ∈ (m.insert k v).keys ↔ k' = k ∨ k' ∈ m.keys := by
  rw [mem_keys, mem_keys]
  by_cases h : k' = k
  · simp [h]
  · simp [h]

/-- Two strictly ordered lists with the same members are the same list. -/
theorem entries_unique {a b : List (κ × ν)} (ha : a.Pairwise fun x y => x.1 < y.1)
    (hb : b.Pairwise fun x y => x.1 < y.1) (h : ∀ e, e ∈ a ↔ e ∈ b) : a = b := by
  induction a generalizing b with
  | nil =>
      cases b with
      | nil => rfl
      | cons e b => exact absurd ((h e).2 List.mem_cons_self) (by simp)
  | cons x a ih =>
      cases b with
      | nil => exact absurd ((h x).1 List.mem_cons_self) (by simp)
      | cons y b =>
          obtain ⟨hx, hxs⟩ := List.pairwise_cons.1 ha
          obtain ⟨hy, hys⟩ := List.pairwise_cons.1 hb
          -- Each head is the least key of its own list, so the heads agree.
          have hxy : x = y := by
            rcases List.mem_cons.1 ((h x).1 List.mem_cons_self) with hxy | hxb
            · exact hxy
            · rcases List.mem_cons.1 ((h y).2 List.mem_cons_self) with hyx | hya
              · exact hyx.symm
              · exact absurd (hx y hya) (not_lt_of_gt (hy x hxb))
          subst hxy
          refine congrArg _ (ih hxs hys fun e => ?_)
          have hne : ∀ l : List (κ × ν), (∀ z ∈ l, x.1 < z.1) → e ∈ l → e ≠ x := by
            intro l hl he hex
            subst hex
            exact lt_irrefl _ (hl e he)
          constructor
          · intro he
            exact (List.mem_cons.1 ((h e).1 (List.mem_cons_of_mem _ he))).resolve_left
              (hne a hx he)
          · intro he
            exact (List.mem_cons.1 ((h e).2 (List.mem_cons_of_mem _ he))).resolve_left
              (hne b hy he)

/-- A map is its lookups. -/
theorem ext_find? {a b : OrdMap κ ν} (h : ∀ k, a.find? k = b.find? k) : a = b := by
  have he : a.entries = b.entries := by
    refine entries_unique a.sorted b.sorted ?_
    rintro ⟨k, v⟩
    rw [mem_entries, mem_entries, h]
  cases a
  cases b
  cases he
  rfl

/-- Entries that are inserted one after the other. -/
theorem find?_foldl_insert {es : List (κ × ν)} (h : (es.map Prod.fst).Nodup) (m : OrdMap κ ν)
    (k : κ) :
    (es.foldl (fun m e => m.insert e.1 e.2) m).find? k = (lookup k es).or (m.find? k) := by
  induction es generalizing m with
  | nil => rfl
  | cons e es ih =>
      rw [List.map_cons, List.nodup_cons] at h
      rw [List.foldl_cons, ih h.2, find?_insert, lookup]
      by_cases hk : k = e.1
      · have hnone : lookup k es = none := lookup_eq_none.2 (hk ▸ h.1)
        rw [if_pos hk, if_pos hk, hnone, Option.none_or, Option.some_or]
      · rw [if_neg hk, if_neg hk]

end OrdMap

end Nazg.Lib
