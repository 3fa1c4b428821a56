import Mathlib.Data.List.Pairwise
import Mathlib.Data.List.Rotate
import Mathlib.Order.Lattice
import Nazg.Lib.Sqlite

/-!
# Rows by id and the order of results

Two things about a table that the statements which change it do not show. The ids come
from the AUTOINCREMENT counter, so a row is found again by its id whatever was written
since (`Table.Wf`, `Table.Keeps`). And a result has no order but the one its ORDER BY
asks for: `RowOrder` is what the engine makes of the rest, and a result whose sort keys
all differ does not depend on it (`orderBy_eq`).
-/

namespace Nazg.Lib.Sqlite

/-! ## Rows by id -/

namespace Table

variable {ρ β : Type*}

/-- The counter is ahead of every id, and ids are handed out in order. -/
structure Wf (t : Table ρ) : Prop where
  increasing : t.ids.Pairwise (· < ·)
  le_lastId : ∀ i ∈ t.ids, i ≤ t.lastId
  pos : ∀ i ∈ t.ids, 0 < i
  lastId_nonneg : 0 ≤ t.lastId

/-- The row with the id. -/
def get? (t : Table ρ) (i : Int) : Option ρ := (t.rows.find? fun x => x.1 = i).map Prod.snd

/-- `DELETE FROM ... WHERE`. -/
def deleteWhere (p : Int → ρ → Bool) (t : Table ρ) : Table ρ :=
  ⟨t.rows.filter fun x => !p x.1 x.2, t.lastId⟩

/-- `UPDATE ... WHERE id = ?` of a whole row. -/
def setRow (t : Table ρ) (i : Int) (r : ρ) : Table ρ :=
  ⟨t.rows.map fun x => if x.1 = i then (i, r) else x, t.lastId⟩

/-- `UPDATE ... WHERE id = ?`. -/
def updateRow (i : Int) (f : ρ → ρ) (t : Table ρ) : Table ρ :=
  ⟨t.rows.map fun x => if x.1 = i then (x.1, f x.2) else x, t.lastId⟩

/-- `UPDATE ... WHERE`. -/
def updateWhere (p : ρ → Bool) (f : ρ → ρ) (t : Table ρ) : Table ρ :=
  ⟨t.rows.map fun x => if p x.2 then (x.1, f x.2) else x, t.lastId⟩

/-- `SELECT ... WHERE ... LIMIT 1` in table order. -/
def first (p : ρ → Bool) (t : Table ρ) : Option (Int × ρ) := t.rows.find? fun x => p x.2

theorem wf_empty : (empty : Table ρ).Wf :=
  ⟨List.Pairwise.nil, by simp [ids, empty], by simp [ids, empty], Int.le_refl 0⟩

theorem mem_ids {t : Table ρ} {x : Int × ρ} (h : x ∈ t.rows) : x.1 ∈ t.ids :=
  List.mem_map_of_mem h

theorem ids_insertRow (t : Table ρ) (r : ρ) : (t.insertRow r).ids = t.ids ++ [t.lastId + 1] := by
  rw [ids, Table.insertRow, List.map_append]
  rfl

theorem Wf.insertRow {t : Table ρ} (h : t.Wf) (r : ρ) : (t.insertRow r).Wf := by
  have hids := ids_insertRow t r
  have hnonneg := h.lastId_nonneg
  refine ⟨?_, ?_, ?_, ?_⟩
  · rw [hids, List.pairwise_append]
    refine ⟨h.increasing, List.pairwise_singleton _ _, fun i hi j hj => ?_⟩
    rw [List.mem_singleton.1 hj]
    exact Int.lt_add_one_of_le (h.le_lastId i hi)
  · intro i hi
    rw [hids, List.mem_append, List.mem_singleton] at hi
    rcases hi with hi | rfl
    · have hle := h.le_lastId i hi
      simp only [Table.insertRow]
      omega
    · exact Int.le_refl _
  · intro i hi
    rw [hids, List.mem_append, List.mem_singleton] at hi
    rcases hi with hi | rfl
    · exact h.pos i hi
    · omega
  · exact Int.le_add_one hnonneg

/-- Deleting rows leaves the counter where it is. -/
theorem Wf.deleteWhere {t : Table ρ} (h : t.Wf) (p : Int → ρ → Bool) : (t.deleteWhere p).Wf := by
  have hsub : (t.deleteWhere p).ids.Sublist t.ids := List.filter_sublist.map _
  exact ⟨h.increasing.sublist hsub, fun i hi => h.le_lastId i (hsub.subset hi),
    fun i hi => h.pos i (hsub.subset hi), h.lastId_nonneg⟩

theorem Wf.replaceRow {t : Table ρ} (h : t.Wf) (clash : ρ → Bool) (r : ρ) :
    (t.replaceRow clash r).Wf :=
  (h.deleteWhere fun _ x => clash x).insertRow r

theorem Wf.upsertRow {t : Table ρ} (h : t.Wf) (clash : ρ → Bool) (update : ρ → ρ) (r : ρ) :
    (t.upsertRow clash update r).Wf := by
  rw [Table.upsertRow]
  split
  · have hids : ∀ l : List (Int × ρ), (l.map fun x => if clash x.2 then (x.1, update x.2) else x).map
        Prod.fst = l.map Prod.fst := by
      intro l
      rw [List.map_map]
      refine List.map_congr_left fun x _ => ?_
      simp only [Function.comp]
      split <;> rfl
    refine ⟨?_, ?_, ?_, h.lastId_nonneg⟩
    · rw [ids, hids]
      exact h.increasing
    · rw [ids, hids]
      exact h.le_lastId
    · rw [ids, hids]
      exact h.pos
  · exact h.insertRow r

theorem ids_updateRow (i : Int) (f : ρ → ρ) (t : Table ρ) : (t.updateRow i f).ids = t.ids := by
  rw [ids, updateRow, List.map_map]
  refine List.map_congr_left fun x _ => ?_
  simp only [Function.comp]
  split <;> rfl

theorem Wf.updateRow {t : Table ρ} (h : t.Wf) (i : Int) (f : ρ → ρ) : (t.updateRow i f).Wf := by
  refine ⟨?_, ?_, ?_, h.lastId_nonneg⟩
  · rw [ids_updateRow]
    exact h.increasing
  · rw [ids_updateRow]
    exact h.le_lastId
  · rw [ids_updateRow]
    exact h.pos

theorem upsertRow_lastId (clash : ρ → Bool) (update : ρ → ρ) (t : Table ρ) (r : ρ) :
    (t.upsertRow clash update r).lastId = t.lastId ∨
      (t.upsertRow clash update r).lastId = t.lastId + 1 := by
  rw [Table.upsertRow]
  split
  · exact Or.inl rfl
  · exact Or.inr rfl

theorem get?_setRow {t : Table ρ} {i : Int} {r : ρ} (h : t.get? i = some r) (r' : ρ) :
    (t.setRow i r').get? i = some r' := by
  obtain ⟨x, hx, rfl⟩ := Option.map_eq_some_iff.1 h
  have hid : ((fun x : Int × ρ => decide (x.1 = i)) ∘ fun x => if x.1 = i then (i, r') else x) =
      fun x => decide (x.1 = i) := by
    funext x
    by_cases hi : x.1 = i <;> simp [hi]
  have hi : x.1 = i := by simpa using List.find?_some hx
  rw [get?, setRow, List.find?_map, hid, hx, Option.map_some, Option.map_some, if_pos hi]

theorem Wf.lastId_replaceRow {t : Table ρ} (h : t.Wf) (clash : ρ → Bool) (r : ρ) :
    0 < (t.replaceRow clash r).lastId :=
  Int.lt_add_one_of_le h.lastId_nonneg

theorem get?_setRow_ne (t : Table ρ) {i j : Int} (r : ρ) (h : j ≠ i) :
    (t.setRow i r).get? j = t.get? j := by
  have hid : ((fun x : Int × ρ => decide (x.1 = j)) ∘ fun x => if x.1 = i then (i, r) else x) =
      fun x => decide (x.1 = j) := by
    funext x
    by_cases hi : x.1 = i
    · simp [hi]
    · simp [hi]
  rw [get?, setRow, List.find?_map, hid, get?]
  cases hfind : t.rows.find? fun x => decide (x.1 = j) with
  | none => rfl
  | some x =>
      have hj : x.1 = j := by simpa using List.find?_some hfind
      have hne : x.1 ≠ i := by
        rw [hj]
        exact h
      rw [Option.map_some, Option.map_some, Option.map_some, if_neg hne]

theorem get?_of_mem {t : Table ρ} (h : t.Wf) {i : Int} {r : ρ} (hr : (i, r) ∈ t.rows) :
    t.get? i = some r := by
  obtain ⟨rows, lastId⟩ := t
  have hinc := h.increasing
  rw [get?]
  clear h
  induction rows with
  | nil => cases hr
  | cons x rows ih =>
      rw [ids, List.map_cons, List.pairwise_cons] at hinc
      rcases List.mem_cons.1 hr with rfl | hr
      · rw [List.find?_cons_of_pos (by simp)]
        rfl
      · have hlt := hinc.1 i (List.mem_map_of_mem hr)
        rw [List.find?_cons_of_neg (by simpa using Int.ne_of_lt hlt)]
        exact ih hr hinc.2

theorem mem_of_get? {t : Table ρ} {i : Int} {r : ρ} (h : t.get? i = some r) : (i, r) ∈ t.rows := by
  obtain ⟨x, hx, rfl⟩ := Option.map_eq_some_iff.1 h
  have hi : x.1 = i := by simpa using List.find?_some hx
  rw [← hi]
  exact List.mem_of_find?_eq_some hx

theorem mem_ids_of_get? {t : Table ρ} {i : Int} {r : ρ} (h : t.get? i = some r) : i ∈ t.ids :=
  List.mem_map.2 ⟨(i, r), mem_of_get? h, rfl⟩

/-- An update that does not change what a query looks for changes the row it finds. -/
theorem first_updateWhere {p q : ρ → Bool} {f : ρ → ρ} (t : Table ρ)
    (hq : ∀ x, p x = true → q (f x) = q x) :
    (t.updateWhere p f).first q = (t.first q).map fun x => if p x.2 then (x.1, f x.2) else x := by
  have hcomp : ((fun x : Int × ρ => q x.2) ∘ fun x => if p x.2 then (x.1, f x.2) else x) =
      fun x => q x.2 := by
    funext x
    simp only [Function.comp]
    split
    · next h => exact hq x.2 h
    · rfl
  rw [first, updateWhere, List.find?_map, hcomp, first]

theorem first_insertRow (q : ρ → Bool) (t : Table ρ) (r : ρ) :
    (t.insertRow r).first q = (t.first q).or (if q r then some (t.lastId + 1, r) else none) := by
  rw [first, insertRow, List.find?_append, first]
  cases h : q r <;> simp [h]

theorem any_data (p : ρ → Bool) (t : Table ρ) : t.data.any p = (t.first p).isSome := by
  rw [Bool.eq_iff_iff, first, List.find?_isSome, data, List.any_map, List.any_eq_true]
  rfl

/-- What an upsert leaves under its own key. -/
theorem first_upsertRow_self (t : Table ρ) (clash : ρ → Bool) (update : ρ → ρ) {r : ρ}
    (hr : clash r = true) (hupdate : ∀ x, clash x = true → clash (update x) = true) :
    (t.upsertRow clash update r).first clash =
      some (((t.first clash).map fun x => (x.1, update x.2)).getD (t.lastId + 1, r)) := by
  rw [upsertRow, any_data]
  cases h : t.first clash with
  | none =>
      rw [if_neg (by simp), first_insertRow, h, hr]
      rfl
  | some x =>
      have hx : clash x.2 = true := by simpa using List.find?_some h
      have hfirst := t.first_updateWhere fun y hy => (hupdate y hy).trans hy.symm
      rw [h, Option.map_some, if_pos hx] at hfirst
      rw [if_pos (Option.isSome_some)]
      exact hfirst

/-- An upsert does not touch the rows under other keys. -/
theorem first_upsertRow_ne {clash q : ρ → Bool} {update : ρ → ρ} (t : Table ρ) {r : ρ}
    (hr : q r = false) (hclash : ∀ x, clash x = true → q x = false ∧ q (update x) = false) :
    (t.upsertRow clash update r).first q = t.first q := by
  rw [upsertRow]
  split
  · refine (t.first_updateWhere fun x hx => ?_).trans ?_
    · rw [(hclash x hx).1, (hclash x hx).2]
    · cases h : t.first q with
      | none => rfl
      | some x =>
          have hx : q x.2 = true := by simpa using List.find?_some h
          have hno : clash x.2 ≠ true := by
            intro hc
            rw [(hclash _ hc).1] at hx
            cases hx
          rw [Option.map_some, if_neg hno]
  · rw [first_insertRow, hr]
    simp

/-- Every row is still there under its id, and `f` of it is what it was. -/
def Keeps (f : ρ → β) (t t' : Table ρ) : Prop :=
  ∀ i r, t.get? i = some r → ∃ r', t'.get? i = some r' ∧ f r' = f r

theorem Keeps.refl (f : ρ → β) (t : Table ρ) : Keeps f t t := fun _ r h => ⟨r, h, rfl⟩

theorem Keeps.trans {f : ρ → β} {t t' t'' : Table ρ} (h : Keeps f t t') (h' : Keeps f t' t'') :
    Keeps f t t'' := by
  intro i r hr
  obtain ⟨r', hr', hf⟩ := h i r hr
  obtain ⟨r'', hr'', hf'⟩ := h' i r' hr'
  exact ⟨r'', hr'', hf'.trans hf⟩

theorem keeps_insertRow (f : ρ → β) (t : Table ρ) (r : ρ) : Keeps f t (t.insertRow r) := by
  intro i x hx
  refine ⟨x, ?_, rfl⟩
  obtain ⟨y, hy, rfl⟩ := Option.map_eq_some_iff.1 hx
  rw [get?, Table.insertRow, List.find?_append, hy]
  rfl

/-- An upsert keeps what its conflict clause does not rewrite. -/
theorem keeps_upsertRow {f : ρ → β} {update : ρ → ρ} (hf : ∀ r, f (update r) = f r)
    (clash : ρ → Bool) (t : Table ρ) (r : ρ) : Keeps f t (t.upsertRow clash update r) := by
  rw [Table.upsertRow]
  split
  · intro i x hx
    obtain ⟨y, hy, rfl⟩ := Option.map_eq_some_iff.1 hx
    refine ⟨if clash y.2 then update y.2 else y.2, ?_, ?_⟩
    · have hid : ((fun x : Int × ρ => decide (x.1 = i)) ∘ fun x =>
          if clash x.2 then (x.1, update x.2) else x) = fun x => decide (x.1 = i) := by
        funext x
        simp only [Function.comp]
        split <;> rfl
      rw [get?, List.find?_map, hid, hy, Option.map_some, Option.map_some]
      split <;> rfl
    · split
      · exact hf _
      · rfl
  · exact keeps_insertRow f t r

end Table

/-! ## The order of results -/

/-- The order in which the engine happens to produce the rows of a result. -/
structure RowOrder where
  arrange : {ρ : Type} → List ρ → List ρ
  perm : ∀ {ρ : Type} (rows : List ρ), (arrange rows).Perm rows

/-- Table order. -/
def RowOrder.byId : RowOrder := ⟨id, fun _ => .refl _⟩

instance : Inhabited RowOrder := ⟨.byId⟩

namespace RowOrder

variable {ρ : Type} (o : RowOrder)

@[simp] theorem mem_arrange {rows : List ρ} {x : ρ} : x ∈ o.arrange rows ↔ x ∈ rows :=
  (o.perm rows).mem_iff

theorem arrange_eq_nil {rows : List ρ} : o.arrange rows = [] ↔ rows = [] := by
  rw [← List.length_eq_zero_iff, (o.perm rows).length_eq, List.length_eq_zero_iff]

theorem mem_of_head? {rows : List ρ} {x : ρ} (h : (o.arrange rows).head? = some x) : x ∈ rows :=
  o.mem_arrange.1 (List.mem_of_mem_head? h)

variable {κ : Type*} [LinearOrder κ] (key : ρ → κ)

/-- `ORDER BY key`; rows with the same key come in any order. -/
def orderBy (rows : List ρ) : List ρ := (o.arrange rows).mergeSort fun x y => key x ≤ key y

theorem key_trans (x y z : ρ) (hxy : decide (key x ≤ key y) = true)
    (hyz : decide (key y ≤ key z) = true) : decide (key x ≤ key z) = true :=
  decide_eq_true ((of_decide_eq_true hxy).trans (of_decide_eq_true hyz))

theorem key_total (x y : ρ) : (decide (key x ≤ key y) || decide (key y ≤ key x)) = true := by
  simpa using le_total (key x) (key y)

theorem orderBy_perm (rows : List ρ) : (o.orderBy key rows).Perm rows :=
  (List.mergeSort_perm _ _).trans (o.perm rows)

theorem orderBy_pairwise (rows : List ρ) :
    (o.orderBy key rows).Pairwise fun x y => key x ≤ key y := by
  have h : (o.orderBy key rows).Pairwise fun x y => decide (key x ≤ key y) = true :=
    List.pairwise_mergeSort (key_trans key) (key_total key) (o.arrange rows)
  exact h.imp of_decide_eq_true

/-- Rows whose keys increase are what the ORDER BY returns, in whatever order they
were found. -/
theorem orderBy_eq {rows : List ρ} (h : rows.Pairwise fun x y => key x < key y) :
    o.orderBy key rows = rows := by
  refine List.Perm.eq_of_pairwise ?_ (o.orderBy_pairwise key rows) (h.imp le_of_lt)
    (o.orderBy_perm key rows)
  intro a b ha hb hab hba
  have hkey : key a = key b := le_antisymm hab hba
  by_contra hne
  have hsym : rows.Pairwise fun x y => key x ≠ key y := h.imp ne_of_lt
  have : Std.Symm fun x y : ρ => key x ≠ key y := ⟨fun _ _ hxy => hxy.symm⟩
  have hmem := fun x => (o.orderBy_perm key rows).mem_iff (a := x)
  exact hsym.forall ((hmem a).1 ha) hb hne hkey

/-- Each of the first `n` has a smaller key than everything behind it. -/
def Leads : Nat → List ρ → Prop
  | 0, _ => True
  | _ + 1, [] => True
  | n + 1, x :: l => (∀ y ∈ l, key x < key y) ∧ Leads n l

variable {key}

/-- Leading rows come first in every sorted arrangement. -/
theorem take_eq_of_leads {n : Nat} {s l : List ρ} (hsorted : s.Pairwise fun x y => key x ≤ key y)
    (hperm : s.Perm l) (h : Leads key n l) : s.take n = l.take n := by
  induction l generalizing n s with
  | nil => rw [hperm.eq_nil]
  | cons x l ih =>
      cases n with
      | zero => rfl
      | succ n =>
          cases s with
          | nil => exact absurd hperm.symm.eq_nil (by simp)
          | cons y s =>
              have hy : y = x := by
                by_contra hne
                have hyl : y ∈ l :=
                  (List.mem_cons.1 (hperm.mem_iff.1 List.mem_cons_self)).resolve_left hne
                have hxs : x ∈ s :=
                  (List.mem_cons.1 (hperm.mem_iff.2 List.mem_cons_self)).resolve_left (Ne.symm hne)
                have hle := (List.pairwise_cons.1 hsorted).1 x hxs
                exact absurd (h.1 y hyl) (not_lt.2 hle)
              subst hy
              rw [List.take_succ_cons, List.take_succ_cons,
                ih (List.pairwise_cons.1 hsorted).2 (List.perm_cons y |>.1 hperm) h.2]

/-- An arrangement that turns round whatever the keys do not keep apart shows which rows
lead. -/
theorem leads_of_take_eq {n : Nat} {s l : List ρ} (hnodup : l.Nodup) (hperm : s.Perm l)
    (hturned : ∀ x y, [x, y].Sublist l → key y ≤ key x → [y, x].Sublist s)
    (htake : s.take n = l.take n) : Leads key n l := by
  induction l generalizing n s with
  | nil => cases n <;> trivial
  | cons x l ih =>
      cases n with
      | zero => trivial
      | succ n =>
          cases s with
          | nil => exact absurd hperm.symm.eq_nil (by simp)
          | cons z s =>
              rw [List.take_succ_cons, List.take_succ_cons] at htake
              obtain ⟨rfl, hrest⟩ := List.cons.inj htake
              rw [List.nodup_cons] at hnodup
              have hperm' := (List.perm_cons z).1 hperm
              have htail : ∀ y w, y ≠ z → [y, w].Sublist (z :: s) → [y, w].Sublist s := by
                intro y w hne hsub
                rcases List.sublist_cons_iff.1 hsub with hsub | ⟨r, hr, -⟩
                · exact hsub
                · exact absurd (List.cons.inj hr).1 hne
              refine ⟨fun y hy => ?_, ih hnodup.2 hperm' (fun y w hsub hle => ?_) hrest⟩
              · by_contra hle
                have hne : y ≠ z := fun h => hnodup.1 (h ▸ hy)
                have hsub : [z, y].Sublist (z :: l) :=
                  (List.singleton_sublist.2 hy).cons_cons z
                have hz := (htail y z hne (hturned z y hsub (not_lt.1 hle))).subset
                  (List.mem_cons_of_mem _ (List.mem_singleton.2 rfl))
                exact hnodup.1 (hperm'.mem_iff.1 hz)
              · have hw : w ∈ l := hsub.subset (List.mem_cons_of_mem _ (List.mem_singleton.2 rfl))
                exact htail w y (fun h => hnodup.1 (h ▸ hw)) (hturned y w (hsub.cons z) hle)

variable (key) in
/-- The first `n` rows of a result are the last `n` inserted, newest first, in whatever
order the engine finds them, exactly if each has a smaller key than all before it. -/
theorem take_orderBy_iff {rows : List ρ} (hnodup : rows.Nodup) (n : Nat) :
    (∀ o : RowOrder, (o.orderBy key rows).take n = rows.reverse.take n) ↔
      Leads key n rows.reverse := by
  constructor
  · intro h
    refine leads_of_take_eq ((List.reverse_perm rows).nodup_iff.2 hnodup)
      ((byId.orderBy_perm key rows).trans (List.reverse_perm rows).symm) (fun x y hsub hle => ?_)
      (h byId)
    -- sorting is stable, so with equal keys the older row stays in front
    refine List.pair_sublist_mergeSort (key_trans key) (key_total key) (decide_eq_true hle) ?_
    have hrows : [y, x].Sublist rows := List.reverse_sublist.1 (by simpa using hsub)
    exact hrows
  · exact fun h o => take_eq_of_leads (o.orderBy_pairwise key rows)
      ((o.orderBy_perm key rows).trans (List.reverse_perm rows).symm) h

/-! ### A limit -/

/-- The rows from another one on. -/
def rotated (k : Nat) : RowOrder := ⟨fun rows => rows.rotate k, fun rows => rows.rotate_perm k⟩

theorem mem_take_iff {before after : List ρ} {x : ρ} (h : (before ++ x :: after).Nodup) (n : Nat) :
    x ∈ (before ++ x :: after).take n ↔ before.length < n := by
  have hbefore : x ∉ before := fun hx =>
    (List.nodup_append.1 h).2.2 x hx x List.mem_cons_self rfl
  rw [List.take_append, List.mem_append]
  constructor
  · rintro (hx | hx)
    · exact absurd (List.mem_of_mem_take hx) hbefore
    · by_contra hle
      rw [Nat.sub_eq_zero_of_le (not_lt.1 hle), List.take_zero] at hx
      cases hx
  · intro hlt
    obtain ⟨k, hk⟩ := Nat.exists_eq_add_of_lt hlt
    rw [show n - before.length = k + 1 by omega, List.take_succ_cons]
    exact .inr List.mem_cons_self

/-- What a stable sort keeps in order. -/
theorem filter_orderBy (key : ρ → κ) (rows : List ρ) (k : κ) :
    (o.orderBy key rows).filter (fun y => key y = k) =
      (o.arrange rows).filter fun y => key y = k := by
  have hpairs : ((o.arrange rows).filter fun y => key y = k).Pairwise
      fun x y => decide (key x ≤ key y) = true := by
    refine List.pairwise_of_forall_mem_list ?_
    intro x hx y hy
    have hkx := (List.mem_filter.1 hx).2
    have hky := (List.mem_filter.1 hy).2
    simp only [decide_eq_true_eq] at hkx hky ⊢
    rw [hkx, hky]
  have hsub : ((o.arrange rows).filter fun y => key y = k).Sublist (o.orderBy key rows) :=
    List.sublist_mergeSort (key_trans key) (key_total key) hpairs List.filter_sublist
  have hperm := ((o.orderBy_perm key rows).trans (o.perm rows).symm).filter fun y => key y = k
  have hsame := hsub.filter fun y => decide (key y = k)
  rw [List.filter_filter] at hsame
  simp only [Bool.and_self] at hsame
  exact (hsame.eq_of_length hperm.length_eq.symm).symm

theorem mem_window_iff {before after : List ρ} {x : ρ} (h : (before ++ x :: after).Nodup)
    (k n : Nat) :
    x ∈ ((before ++ x :: after).take n).drop k ↔ k ≤ before.length ∧ before.length < n := by
  obtain ⟨-, hcons, hdisjoint⟩ := List.nodup_append.1 h
  have hbefore : x ∉ before := fun hx => hdisjoint x hx x List.mem_cons_self rfl
  rw [List.drop_take, List.drop_append]
  by_cases hk : k ≤ before.length
  · rw [Nat.sub_eq_zero_of_le hk, List.drop_zero]
    have hnodup : (before.drop k ++ x :: after).Nodup :=
      h.sublist ((List.drop_sublist k before).append_right _)
    rw [mem_take_iff hnodup, List.length_drop]
    omega
  · obtain ⟨j, hj⟩ := Nat.exists_eq_add_of_lt (not_le.1 hk)
    have hdrop : k - before.length = j + 1 := by omega
    rw [hdrop, List.drop_succ_cons]
    have hout : x ∉ before.drop k ++ after.drop j := by
      intro hx
      rcases List.mem_append.1 hx with hx | hx
      · exact hbefore (List.mem_of_mem_drop hx)
      · exact (List.nodup_cons.1 hcons).1 (List.mem_of_mem_drop hx)
    constructor
    · intro hx
      exact absurd (List.mem_of_mem_take hx) hout
    · intro hle
      exact absurd hle.1 hk

/-- Before a row come those with a smaller key and those with the same that were found
before it. -/
theorem length_before (key : ρ → κ) {rows before after found rest : List ρ} {x : ρ}
    (hnodup : rows.Nodup) (hfound : o.arrange rows = found ++ x :: rest)
    (h : o.orderBy key rows = before ++ x :: after) :
    before.length = rows.countP (fun y => key y < key x) + found.countP fun y => key y = key x := by
  have hnodup' : (before ++ x :: after).Nodup := by
    rw [← h]
    exact (o.orderBy_perm key rows).nodup_iff.2 hnodup
  have hsorted := o.orderBy_pairwise key rows
  rw [h, List.pairwise_append, List.pairwise_cons] at hsorted
  have hties := o.filter_orderBy key rows (key x)
  rw [h, hfound, List.filter_append, List.filter_append, List.filter_cons_of_pos (by simp),
    List.filter_cons_of_pos (by simp)] at hties
  obtain ⟨-, hcons, hdisjoint⟩ := List.nodup_append.1 hnodup'
  have hbefore : x ∉ before.filter fun y => key y = key x := by
    intro hx
    exact hdisjoint x (List.mem_of_mem_filter hx) x List.mem_cons_self rfl
  have hafter : x ∉ after.filter fun y => key y = key x := by
    intro hx
    exact (List.nodup_cons.1 hcons).1 (List.mem_of_mem_filter hx)
  have hsame := ((List.append_cons_inj_of_notMem hbefore hafter).1 hties).1
  have hlater : after.countP (fun y => key y < key x) = 0 := by
    refine List.countP_eq_zero.2 ?_
    intro y hy hlt
    exact absurd (hsorted.2.1.1 y hy) (not_le.2 (of_decide_eq_true hlt))
  have htied : (before.filter fun y => ¬ key y < key x) = before.filter fun y => key y = key x := by
    refine List.filter_congr ?_
    intro y hy
    have hle := hsorted.2.2 y hy x List.mem_cons_self
    have hiff : ¬ key y < key x ↔ key y = key x :=
      ⟨fun hge => le_antisymm hle (not_lt.1 hge), fun heq => heq.not_lt⟩
    simp only [hiff]
  have hlength := List.length_eq_length_filter_add (fun y => decide (key y < key x)) (l := before)
  have hsmaller : rows.countP (fun y => key y < key x) = before.countP fun y => key y < key x := by
    rw [← (o.orderBy_perm key rows).countP_eq, h, List.countP_append,
      List.countP_cons_of_neg (by simp), hlater, Nat.add_zero]
  rw [hsmaller, List.countP_eq_length_filter, List.countP_eq_length_filter, ← hsame, ← htied]
  simpa only [decide_not] using hlength

theorem exists_countP_drop (p : ρ → Bool) {l : List ρ} {c : Nat} (h : c ≤ l.countP p) :
    ∃ k ≤ l.length, (l.drop k).countP p = c := by
  induction l with
  | nil => exact ⟨0, le_refl 0, (Nat.le_zero.1 h).symm⟩
  | cons y l ih =>
      by_cases hc : c ≤ l.countP p
      · obtain ⟨k, hk, hdrop⟩ := ih hc
        exact ⟨k + 1, Nat.succ_le_succ hk, hdrop⟩
      · have hone := List.countP_cons (p := p) (a := y) (l := l)
        refine ⟨0, Nat.zero_le _, ?_⟩
        rw [List.drop_zero]
        split at hone <;> omega

theorem countP_le_eq (key : ρ → κ) (rows : List ρ) (k : κ) :
    rows.countP (fun y => key y ≤ k) =
      rows.countP (fun y => key y < k) + rows.countP fun y => key y = k := by
  induction rows with
  | nil => rfl
  | cons y rows ih =>
      simp only [List.countP_cons, decide_eq_true_eq, ih]
      rcases lt_trichotomy (key y) k with hlt | heq | hgt
      · simp [hlt, hlt.le, hlt.ne]
        omega
      · simp [heq]
        omega
      · simp [hgt.not_ge, hgt.not_gt, hgt.ne']

theorem countP_lt_lt (key : ρ → κ) {rows : List ρ} {x : ρ} (hx : x ∈ rows) :
    rows.countP (fun y => key y < key x) < rows.countP fun y => key y ≤ key x := by
  have hcount := countP_le_eq key rows (key x)
  have hself : 0 < rows.countP fun y => key y = key x :=
    List.countP_pos_iff.2 ⟨x, hx, decide_eq_true rfl⟩
  omega

variable (key) in
/-- A row comes at any place that the rows with its key may take, and at no other. -/
theorem forall_place_iff {rows : List ρ} (hnodup : rows.Nodup) {x : ρ} (hx : x ∈ rows)
    (S : List ρ → Prop) (P : Nat → Prop)
    (hplace : ∀ before after : List ρ, (before ++ x :: after).Nodup →
      (S (before ++ x :: after) ↔ P before.length)) :
    (∀ o : RowOrder, S (o.orderBy key rows)) ↔
      ∀ n, rows.countP (fun y => key y < key x) ≤ n → n < rows.countP (fun y => key y ≤ key x) → P n := by
  have hsplit : ∀ o : RowOrder, ∃ before after, o.orderBy key rows = before ++ x :: after :=
    fun o => List.append_of_mem ((o.orderBy_perm key rows).mem_iff.2 hx)
  have hperm : ∀ o : RowOrder, (o.orderBy key rows).Nodup :=
    fun o => (o.orderBy_perm key rows).nodup_iff.2 hnodup
  have hcount := countP_le_eq key rows (key x)
  constructor
  · intro hall n hlo hhi
    obtain ⟨a, b, rfl⟩ := List.append_of_mem hx
    -- the others with its key, in the order in which turning the rows takes them away
    have hties : (a ++ x :: b).countP (fun y => key y = key x) =
        (b ++ a).countP (fun y => key y = key x) + 1 := by
      rw [List.countP_append, List.countP_append, List.countP_cons_of_pos (by simp)]
      omega
    obtain ⟨k, hk, hdrop⟩ := exists_countP_drop (fun y => decide (key y = key x))
      (show n - (a ++ x :: b).countP (fun y => key y < key x) ≤
        (b ++ a).countP (fun y => key y = key x) by omega)
    have hturned : (a ++ x :: b).rotate (a.length + 1 + k) =
        (b ++ a).drop k ++ x :: (b ++ a).take k := by
      have hlast : (a ++ x :: b).rotate (a.length + 1) = b ++ a ++ [x] := by
        have hrotate := List.rotate_append_length_eq (a ++ [x]) b
        rw [List.length_append, List.length_singleton] at hrotate
        simpa using hrotate
      have hk' : k ≤ (b ++ a ++ [x]).length := by
        rw [List.length_append]
        omega
      rw [← List.rotate_rotate, hlast, List.rotate_eq_drop_append_take hk',
        List.drop_append_of_le_length hk, List.take_append_of_le_length hk]
      simp
    obtain ⟨before, after, h⟩ := hsplit (rotated (a.length + 1 + k))
    have hlength := length_before _ key hnodup hturned h
    rw [hdrop] at hlength
    have hS := hall (rotated (a.length + 1 + k))
    have hnodup' := hperm (rotated (a.length + 1 + k))
    rw [h] at hS hnodup'
    have hP := (hplace before after hnodup').1 hS
    have hn : before.length = n := by omega
    exact hn ▸ hP
  · intro hall o
    obtain ⟨before, after, h⟩ := hsplit o
    obtain ⟨found, rest, hfound⟩ := List.append_of_mem (o.mem_arrange.2 hx)
    have hlength := o.length_before key hnodup hfound h
    have hties : rows.countP (fun y => key y = key x) =
        found.countP (fun y => key y = key x) + 1 + rest.countP fun y => key y = key x := by
      rw [← (o.perm rows).countP_eq, hfound, List.countP_append,
        List.countP_cons_of_pos (by simp)]
      omega
    have hnodup' := hperm o
    rw [h] at hnodup' ⊢
    exact (hplace before after hnodup').2 (hall _ (by omega) (by omega))

variable (key) in
/-- A row is among the first `n` whatever the order exactly if no more than `n`, with
itself, have a key as small. -/
theorem forall_mem_take_iff {rows : List ρ} (hnodup : rows.Nodup) {x : ρ} (hx : x ∈ rows)
    (n : Nat) : (∀ o : RowOrder, x ∈ (o.orderBy key rows).take n) ↔
      rows.countP (fun y => key y ≤ key x) ≤ n := by
  refine (forall_place_iff key hnodup hx (fun l => x ∈ l.take n) (fun m => m < n)
    fun _ _ h => mem_take_iff h n).trans ?_
  have hself := countP_lt_lt key hx
  constructor
  · intro hall
    have hlast := hall (rows.countP (fun y => key y ≤ key x) - 1) (by omega) (by omega)
    omega
  · intro hle m _ hm
    omega

variable (key) in
/-- It is never among them exactly if at least `n` have a smaller one. -/
theorem forall_notMem_take_iff {rows : List ρ} (hnodup : rows.Nodup) {x : ρ} (hx : x ∈ rows)
    (n : Nat) : (∀ o : RowOrder, x ∉ (o.orderBy key rows).take n) ↔
      n ≤ rows.countP (fun y => key y < key x) := by
  refine (forall_place_iff key hnodup hx (fun l => x ∉ l.take n) (fun m => ¬ m < n)
    fun _ _ h => not_congr (mem_take_iff h n)).trans ?_
  have hself := countP_lt_lt key hx
  constructor
  · intro hall
    have hfirst := hall _ (le_refl _) hself
    omega
  · intro hle m hm _
    omega

variable (key) in
/-- It is never between two bounds exactly if it is always before the one or always behind
the other. -/
theorem forall_notMem_window_iff {rows : List ρ} (hnodup : rows.Nodup) {x : ρ} (hx : x ∈ rows)
    (k n : Nat) : (∀ o : RowOrder, x ∉ ((o.orderBy key rows).take n).drop k) ↔
      n ≤ k ∨ rows.countP (fun y => key y ≤ key x) ≤ k ∨
        n ≤ rows.countP (fun y => key y < key x) := by
  refine (forall_place_iff key hnodup hx (fun l => x ∉ (l.take n).drop k) (fun m => ¬ (k ≤ m ∧ m < n))
    fun _ _ h => not_congr (mem_window_iff h k n)).trans ?_
  have hself := countP_lt_lt key hx
  constructor
  · intro hall
    by_contra hnot
    simp only [not_or, not_le] at hnot
    have hmid := hall (max k (rows.countP fun y => key y < key x)) (le_max_right _ _) (by omega)
    omega
  · intro hor m hlo hhi
    omega

variable (key) in
/-- It is always between two bounds exactly if all the places it may take are. -/
theorem forall_mem_window_iff {rows : List ρ} (hnodup : rows.Nodup) {x : ρ} (hx : x ∈ rows)
    (k n : Nat) : (∀ o : RowOrder, x ∈ ((o.orderBy key rows).take n).drop k) ↔
      k ≤ rows.countP (fun y => key y < key x) ∧ rows.countP (fun y => key y ≤ key x) ≤ n := by
  refine (forall_place_iff key hnodup hx (fun l => x ∈ (l.take n).drop k) (fun m => k ≤ m ∧ m < n)
    fun _ _ h => mem_window_iff h k n).trans ?_
  have hself := countP_lt_lt key hx
  constructor
  · intro hall
    have hfirst := hall _ (le_refl _) hself
    have hlast := hall (rows.countP (fun y => key y ≤ key x) - 1) (by omega) (by omega)
    omega
  · intro hbounds m hlo hhi
    omega

/-! ### Any order there is -/

/-- The first row stays, the rows behind it are arranged. -/
def behindFirst (o : RowOrder) : RowOrder where
  arrange
    | [] => []
    | x :: rows => x :: o.arrange rows
  perm
    | [] => .refl _
    | x :: rows => (o.perm rows).cons x

/-- The first two rows change places. -/
def firstSwapped : RowOrder where
  arrange
    | x :: y :: rows => y :: x :: rows
    | rows => rows
  perm
    | [] => .refl _
    | [_] => .refl _
    | x :: y :: rows => .swap x y rows

/-- One arrangement after another. -/
def after (o o' : RowOrder) : RowOrder where
  arrange rows := o.arrange (o'.arrange rows)
  perm rows := (o.perm _).trans (o'.perm rows)

/-- Rows may be found in any order that there is. -/
theorem exists_arrange_eq {found rows : List ρ} (h : found.Perm rows) :
    ∃ o : RowOrder, o.arrange rows = found := by
  induction h with
  | nil => exact ⟨.byId, rfl⟩
  | cons x _ ih =>
      obtain ⟨o, rfl⟩ := ih
      exact ⟨o.behindFirst, rfl⟩
  | swap x y l => exact ⟨.firstSwapped, rfl⟩
  | trans _ _ ih ih' =>
      obtain ⟨o, rfl⟩ := ih
      obtain ⟨o', rfl⟩ := ih'
      exact ⟨o.after o', rfl⟩

/-- A sorted result is cut at a key. -/
theorem eq_filter_append {key : ρ → κ} {s : List ρ} (h : s.Pairwise fun x y => key x ≤ key y)
    (k : κ) : s = s.filter (fun y => key y < k) ++
      (s.filter (fun y => key y = k) ++ s.filter fun y => k < key y) := by
  induction s with
  | nil => rfl
  | cons x s ih =>
      obtain ⟨hx, hs⟩ := List.pairwise_cons.1 h
      have hbelow : ∀ k', k' ≤ key x → s.filter (fun y => key y < k') = [] := fun k' hk =>
        List.filter_eq_nil_iff.2 fun y hy hlt =>
          absurd (hk.trans (hx y hy)) (not_le.2 (of_decide_eq_true hlt))
      have hih := ih hs
      rcases lt_trichotomy (key x) k with hlt | heq | hgt
      · simp only [List.filter_cons, hlt, hlt.ne, hlt.not_gt, decide_true, decide_false, if_true]
        simpa using hih
      · rw [hbelow k heq.ge, List.nil_append] at hih
        simp only [List.filter_cons, heq, lt_irrefl, decide_true, decide_false, if_true,
          hbelow k heq.ge]
        simpa using hih
      · have hsame : s.filter (fun y => key y = k) = [] :=
          List.filter_eq_nil_iff.2 fun y hy heq =>
            absurd (hgt.trans_le (hx y hy)) (of_decide_eq_true heq).not_gt
        rw [hbelow k hgt.le, hsame, List.nil_append, List.nil_append] at hih
        simp only [List.filter_cons, hgt, hgt.ne', hgt.not_gt, decide_true, decide_false, if_true,
          hbelow k hgt.le, hsame]
        simpa using hih

/-- What comes before a key, the rows with it in the order in which they were found, and the
rest. -/
theorem orderBy_eq_append (key : ρ → κ) (rows : List ρ) (k : κ) :
    ∃ before after : List ρ,
      o.orderBy key rows = before ++ ((o.arrange rows).filter (fun y => key y = k) ++ after) ∧
        before.Perm (rows.filter fun y => key y < k) := by
  have h := eq_filter_append (o.orderBy_pairwise key rows) k
  rw [o.filter_orderBy key rows k] at h
  exact ⟨_, _, h, (o.orderBy_perm key rows).filter fun y => key y < k⟩

variable {R : ρ → ρ → Prop}

variable (key) in
/-- Two rows that are found first are both among the first `n` if the others leave room. -/
theorem related_of_pairwise_take {rows others : List ρ} {a b : ρ} {n : Nat}
    (hsymm : ∀ x y, R x y → R y x)
    (hfound : o.arrange rows = b :: a :: others) (hkey : key a ≤ key b)
    (hroom : others.countP (fun y => key y < key b) + 2 ≤ n)
    (h : ((o.orderBy key rows).take n).Pairwise R) : R a b := by
  obtain ⟨before, after, hsorted, hperm⟩ := o.orderBy_eq_append key rows (key b)
  have hbefore : before.Perm ((b :: a :: others).filter fun y => key y < key b) :=
    hperm.trans (hfound ▸ (o.perm rows).symm.filter _)
  rw [List.filter_cons_of_neg (by simp)] at hbefore
  rw [hfound, List.filter_cons_of_pos (by simp)] at hsorted
  rcases hkey.lt_or_eq with hlt | heq
  · -- `a` comes before the key of `b`
    rw [List.filter_cons_of_pos (by simpa using hlt)] at hbefore
    have hprefix : before ++ [b] <+: (o.orderBy key rows).take n := by
      rw [List.prefix_take_iff, hsorted, List.length_append, hbefore.length_eq,
        List.length_cons, ← List.countP_eq_length_filter]
      exact ⟨List.prefix_append_right_inj _ |>.2 ⟨_, rfl⟩, hroom⟩
    exact (List.pairwise_append.1 (h.sublist hprefix.sublist)).2.2 a
      (hbefore.mem_iff.2 List.mem_cons_self) b (List.mem_singleton_self b)
  · rw [List.filter_cons_of_neg (by simp [heq])] at hbefore
    rw [List.filter_cons_of_pos (by simpa using heq)] at hsorted
    have hprefix : before ++ [b, a] <+: (o.orderBy key rows).take n := by
      rw [List.prefix_take_iff, hsorted, List.length_append, hbefore.length_eq,
        ← List.countP_eq_length_filter]
      exact ⟨List.prefix_append_right_inj _ |>.2 ⟨_, rfl⟩, hroom⟩
    have hpair := (List.pairwise_append.1 (h.sublist hprefix.sublist)).2.1
    exact hsymm b a (List.rel_of_pairwise_cons hpair List.mem_cons_self)

variable (key) in
/-- No two of the first `n` are unrelated, whatever the order, exactly if two rows that are
have `n - 1` others before the later of them. -/
theorem forall_pairwise_take_iff (hsymm : ∀ x y, R x y → R y x) (rows : List ρ) (n : Nat) :
    (∀ o : RowOrder, ((o.orderBy key rows).take n).Pairwise R) ↔
      ∀ a b others, (a :: b :: others).Perm rows → key a ≤ key b → ¬ R a b →
        n < others.countP (fun y => key y < key b) + 2 := by
  constructor
  · intro h a b others hperm hkey hunrelated
    by_contra hroom
    obtain ⟨o, ho⟩ := exists_arrange_eq ((List.Perm.swap a b others).trans hperm)
    exact hunrelated (related_of_pairwise_take o key hsymm ho hkey (not_lt.1 hroom) (h o))
  · intro h o
    refine List.pairwise_iff_forall_sublist.2 fun {a b} hsub => ?_
    by_contra hunrelated
    obtain ⟨front, tail, htake, ha, hb⟩ := List.cons_sublist_iff.1 hsub
    obtain ⟨l₁, l₂, rfl⟩ := List.append_of_mem ha
    obtain ⟨l₃, l₄, rfl⟩ := List.append_of_mem (List.singleton_sublist.1 hb)
    have hlength := List.length_take_le n (o.orderBy key rows)
    have hcut := List.take_append_drop n (o.orderBy key rows)
    rw [htake] at hcut hlength
    generalize (o.orderBy key rows).drop n = rest at hcut
    have hsorted := o.orderBy_pairwise key rows
    have hperm := o.orderBy_perm key rows
    rw [← hcut] at hsorted hperm
    have hshape : (l₁ ++ a :: l₂) ++ (l₃ ++ b :: l₄) ++ rest =
        (l₁ ++ a :: (l₂ ++ l₃)) ++ b :: (l₄ ++ rest) := by
      simp
    rw [hshape] at hsorted hperm
    obtain ⟨-, hbehind, hbefore⟩ := List.pairwise_append.1 hsorted
    have hnone : (l₄ ++ rest).countP (fun y => key y < key b) = 0 :=
      List.countP_eq_zero.2 fun y hy => by
        simpa using (List.pairwise_cons.1 hbehind).1 y hy
    have hothers : (a :: b :: ((l₁ ++ (l₂ ++ l₃)) ++ (l₄ ++ rest))).Perm rows := by
      refine List.Perm.trans ?_ hperm
      refine List.Perm.trans ?_ (List.perm_middle.symm.append_right _)
      exact (List.perm_middle.symm).cons a
    have hmany := h a b _ hothers (hbefore a (by simp) b List.mem_cons_self) hunrelated
    rw [List.countP_append, hnone] at hmany
    have hcount := List.countP_le_length (p := fun y => decide (key y < key b))
      (l := l₁ ++ (l₂ ++ l₃))
    simp only [List.length_append, List.length_cons] at hlength hcount
    omega

end RowOrder

end Nazg.Lib.Sqlite
