import Nazg.Lib.Query

/-!
# A limit before a filter

A query hands over the first rows of its order, and its caller keeps those that it asked for. What
is kept are the first of the rows asked for exactly if the limit cut off none of them, or
cut off nothing but rows behind a row asked for at every place. Which of the two holds may
depend on the order in which rows with the same key were found, unless it is the same for
every order.
-/

namespace Nazg.Lib.Sqlite.RowOrder

variable {ρ : Type} {κ : Type*} [LinearOrder κ] (key : ρ → κ)

/-- The first `n` of the rows by their key; those with the same key may change places. -/
def IsFirst (rows : List ρ) (n : Nat) (found : List ρ) : Prop :=
  ∃ s : List ρ, s.Perm rows ∧ (s.Pairwise fun x y => key x ≤ key y) ∧ s.take n = found

variable {key}

theorem IsFirst.length_eq {rows found : List ρ} {n : Nat} (h : IsFirst key rows n found) :
    found.length = min n rows.length := by
  obtain ⟨s, hperm, -, rfl⟩ := h
  rw [List.length_take, hperm.length_eq]

theorem IsFirst.subset {rows found : List ρ} {n : Nat} (h : IsFirst key rows n found) :
    found ⊆ rows := by
  obtain ⟨s, hperm, -, rfl⟩ := h
  intro x hx
  exact hperm.mem_iff.1 (List.mem_of_mem_take hx)

variable {p : ρ → Bool} {rows : List ρ} {n : Nat}

/-- All of the first `n` are asked for, or none of the others is. -/
theorem isFirst_filter_take_iff {s : List ρ} (hperm : s.Perm rows)
    (hsorted : s.Pairwise fun x y => key x ≤ key y) :
    IsFirst key (rows.filter p) n ((s.take n).filter p) ↔
      (∀ x ∈ s.take n, p x = true) ∨ ∀ y ∈ s.drop n, p y = false := by
  have hcut : s.filter p = (s.take n).filter p ++ (s.drop n).filter p := by
    rw [← List.filter_append, List.take_append_drop]
  have hlength := List.length_filter_le p (s.take n)
  have htake : (s.take n).length ≤ n := List.length_take_le n s
  constructor
  · intro h
    refine or_iff_not_imp_right.2 fun hleft => ?_
    have hbehind : 0 < ((s.drop n).filter p).length := by
      simp only [not_forall, Bool.not_eq_false] at hleft
      obtain ⟨y, hy, hpy⟩ := hleft
      exact List.length_pos_of_mem (List.mem_filter.2 ⟨hy, hpy⟩)
    have hcount := h.length_eq
    rw [← (hperm.filter p).length_eq, hcut, List.length_append] at hcount
    exact List.length_filter_eq_length_iff.1 (by omega)
  · intro h
    refine ⟨s.filter p, hperm.filter p, hsorted.filter p, ?_⟩
    rcases h with hall | hnone
    · have hkept : (s.take n).filter p = s.take n := List.filter_eq_self.2 hall
      rw [hcut, hkept]
      rcases Nat.lt_or_ge s.length n with hshort | hlong
      · rw [List.drop_eq_nil_of_le hshort.le, List.filter_nil, List.append_nil,
          List.take_take, Nat.min_self]
      · exact List.take_left' (List.length_take_of_le hlong)
    · have hgone : (s.drop n).filter p = [] :=
        List.filter_eq_nil_iff.2 fun y hy => by simp [hnone y hy]
      rw [hcut, hgone, List.append_nil]
      exact List.take_of_length_le (hlength.trans htake)

/-- A result that was not filtered. -/
theorem isFirst_take_iff {s : List ρ} (hperm : s.Perm rows)
    (hsorted : s.Pairwise fun x y => key x ≤ key y) :
    IsFirst key (rows.filter p) n (s.take n) ↔ ∀ x ∈ s.take n, p x = true := by
  constructor
  · intro h x hx
    exact (List.mem_filter.1 (h.subset hx)).2
  · intro hall
    have h := (isFirst_filter_take_iff (p := p) (n := n) hperm hsorted).2 (.inl hall)
    rwa [List.filter_eq_self.2 hall] at h

variable (key) in
/-- A row that was found first comes as early as it may. -/
theorem mem_take_of_found_first (o : RowOrder) (hnodup : rows.Nodup) {x : ρ} {others : List ρ}
    (hfound : o.arrange rows = x :: others) (hroom : rows.countP (fun y => key y < key x) < n) :
    x ∈ (o.orderBy key rows).take n := by
  have hx : x ∈ rows := o.mem_arrange.1 (hfound ▸ List.mem_cons_self)
  obtain ⟨before, after, h⟩ := List.append_of_mem ((o.orderBy_perm key rows).mem_iff.2 hx)
  have hnone : o.arrange rows = [] ++ x :: others := hfound
  have hlength := o.length_before key hnodup hnone h
  have hnodup' := (o.orderBy_perm key rows).nodup_iff.2 hnodup
  rw [h] at hnodup' ⊢
  rw [mem_take_iff hnodup', hlength]
  simpa using hroom

variable (key) in
/-- A row that was found last comes as late as it may. -/
theorem mem_drop_of_found_last (o : RowOrder) (hnodup : rows.Nodup) {y : ρ} {others : List ρ}
    (hfound : o.arrange rows = others ++ [y])
    (hfull : n < rows.countP fun z => key z ≤ key y) : y ∈ (o.orderBy key rows).drop n := by
  have hy : y ∈ rows := o.mem_arrange.1 (hfound ▸ by simp)
  obtain ⟨before, after, h⟩ := List.append_of_mem ((o.orderBy_perm key rows).mem_iff.2 hy)
  have hlength := o.length_before key hnodup hfound h
  have hties : rows.countP (fun z => key z = key y) =
      others.countP (fun z => key z = key y) + 1 := by
    rw [← (o.perm rows).countP_eq, hfound, List.countP_append]
    simp
  have hplace : n ≤ before.length := by
    rw [countP_le_eq key rows (key y)] at hfull
    omega
  rw [h, List.drop_append_of_le_length hplace]
  exact List.mem_append_right _ List.mem_cons_self

variable (key p n) in
/-- A filter behind the limit keeps the first of the rows asked for, whatever the order, exactly
if no other row can be among the first `n`, or every row asked for always is. -/
theorem forall_isFirst_filter_iff (hnodup : rows.Nodup) :
    (∀ o : RowOrder,
      IsFirst key (rows.filter p) n (((o.orderBy key rows).take n).filter p)) ↔
      (∀ x ∈ rows, p x = false → n ≤ rows.countP fun y => key y < key x) ∨
        ∀ y ∈ rows, p y = true → rows.countP (fun z => key z ≤ key y) ≤ n := by
  have hiff := fun o : RowOrder => isFirst_filter_take_iff (p := p) (n := n)
    (o.orderBy_perm key rows) (o.orderBy_pairwise key rows)
  simp only [hiff]
  constructor
  · intro h
    by_contra hnot
    simp only [not_or, not_forall, not_le] at hnot
    obtain ⟨⟨x, hx, hpx, hroom⟩, y, hy, hpy, hfull⟩ := hnot
    -- the one is found before all others, the other behind all others
    have hne : y ≠ x := fun heq => by simp [heq, hpx] at hpy
    obtain ⟨a, b, rfl⟩ := List.append_of_mem hx
    have hothers : y ∈ a ++ b := by
      simpa [hne] using hy
    obtain ⟨c, d, hcd⟩ := List.append_of_mem hothers
    have hperm : (x :: (c ++ d) ++ [y]).Perm (a ++ x :: b) := by
      refine List.Perm.trans ?_ List.perm_middle.symm
      rw [List.cons_append, hcd]
      refine List.Perm.cons x ?_
      exact (List.perm_append_singleton y (c ++ d)).trans List.perm_middle.symm
    obtain ⟨o, ho⟩ := exists_arrange_eq hperm
    have hfirst := mem_take_of_found_first key o hnodup ho hroom
    have hlast := mem_drop_of_found_last key o hnodup ho hfull
    rcases h o with hall | hnone
    · rw [hall x hfirst] at hpx
      cases hpx
    · rw [hnone y hlast] at hpy
      cases hpy
  · intro h o
    refine h.imp (fun hother x hx => ?_) fun hasked y hy => ?_
    · by_contra hpx
      have hxrows : x ∈ rows := (o.orderBy_perm key rows).mem_iff.1 (List.mem_of_mem_take hx)
      exact (forall_notMem_take_iff key hnodup hxrows n).2
        (hother x hxrows (Bool.eq_false_iff.2 hpx)) o hx
    · by_contra hpy
      have hyrows : y ∈ rows := (o.orderBy_perm key rows).mem_iff.1 (List.mem_of_mem_drop hy)
      have hin := (forall_mem_take_iff key hnodup hyrows n).2
        (hasked y hyrows (Bool.eq_true_of_not_eq_false hpy)) o
      have hsplit : ((o.orderBy key rows).take n ++ (o.orderBy key rows).drop n).Nodup := by
        rw [List.take_append_drop]
        exact (o.orderBy_perm key rows).nodup_iff.2 hnodup
      exact (List.nodup_append.1 hsplit).2.2 y hin y hy rfl

variable (key p n) in
/-- Without a filter no other row may come among the first `n`. -/
theorem forall_isFirst_take_iff (hnodup : rows.Nodup) :
    (∀ o : RowOrder, IsFirst key (rows.filter p) n ((o.orderBy key rows).take n)) ↔
      ∀ x ∈ rows, p x = false → n ≤ rows.countP fun y => key y < key x := by
  have hiff := fun o : RowOrder => isFirst_take_iff (p := p) (n := n)
    (o.orderBy_perm key rows) (o.orderBy_pairwise key rows)
  simp only [hiff]
  constructor
  · intro h x hx hpx
    refine (forall_notMem_take_iff key hnodup hx n).1 fun o hin => ?_
    rw [h o x hin] at hpx
    cases hpx
  · intro h o x hx
    by_contra hpx
    have hxrows : x ∈ rows := (o.orderBy_perm key rows).mem_iff.1 (List.mem_of_mem_take hx)
    exact (forall_notMem_take_iff key hnodup hxrows n).2 (h x hxrows (Bool.eq_false_iff.2 hpx))
      o hx

end Nazg.Lib.Sqlite.RowOrder
