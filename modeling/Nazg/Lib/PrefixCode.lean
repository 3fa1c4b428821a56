import Mathlib.Data.List.Basic

/-!
# Words one after the other

Words that are written one after the other without a separator can be told apart if none of
them is the beginning of another. A framed word (a name, a mark and a body of fixed length
without the mark) is the beginning of another one only if it is the beginning of its name.
-/

namespace Nazg.Lib

variable {α : Type*}

/-- No word of one list is the beginning of a different word of the other. -/
def Separated (xs ys : List (List α)) : Prop :=
  ∀ x ∈ xs, ∀ y ∈ ys, x <+: y ∨ y <+: x → x = y

theorem Separated.tail {x y : List α} {xs ys : List (List α)}
    (h : Separated (x :: xs) (y :: ys)) : Separated xs ys :=
  fun a ha b hb => h a (List.mem_cons_of_mem _ ha) b (List.mem_cons_of_mem _ hb)

/-- Then what is written determines the words. -/
theorem Separated.eq_of_flatten_eq {xs ys : List (List α)} (h : Separated xs ys)
    (hxs : ∀ x ∈ xs, x ≠ []) (hys : ∀ y ∈ ys, y ≠ []) (heq : xs.flatten = ys.flatten) :
    xs = ys := by
  have hempty : ∀ {zs : List (List α)}, (∀ z ∈ zs, z ≠ []) → zs.flatten = [] → zs = [] :=
    fun hzs hnil => List.eq_nil_iff_forall_not_mem.2 fun z hz =>
      hzs z hz (List.flatten_eq_nil_iff.1 hnil z hz)
  induction xs generalizing ys with
  | nil => exact (hempty hys heq.symm).symm
  | cons x xs ih =>
      cases ys with
      | nil => exact hempty hxs heq
      | cons y ys =>
          rw [List.flatten_cons, List.flatten_cons] at heq
          have hor : x <+: y ∨ y <+: x :=
            List.prefix_or_prefix_of_prefix (List.prefix_append x xs.flatten)
              (heq ▸ List.prefix_append y ys.flatten)
          have hsame := h x List.mem_cons_self y List.mem_cons_self hor
          rw [hsame] at heq ⊢
          rw [ih h.tail (fun z hz => hxs z (List.mem_cons_of_mem _ hz))
            (fun z hz => hys z (List.mem_cons_of_mem _ hz)) (List.append_cancel_left heq)]

/-- A framed word at the beginning of another. -/
theorem framed_begins {p q h k : List α} {c : α} (hc : c ∉ h)
    (hlength : h.length = k.length) (hbegins : p ++ c :: h <+: q ++ c :: k) :
    p ++ c :: h <+: q ∨ p = q ∧ h = k := by
  obtain ⟨t, ht⟩ := hbegins
  rcases List.append_eq_append_iff.1 ht with ⟨a, hq, -⟩ | ⟨a, he, hrest⟩
  · exact .inl ⟨a, hq.symm⟩
  · cases a with
    | nil =>
        rw [List.append_nil] at he
        exact .inl (he ▸ List.prefix_refl _)
    | cons b a =>
        -- the word ends behind the mark of the other one
        rw [List.cons_append, List.cons.injEq] at hrest
        obtain ⟨rfl, hk⟩ := hrest
        have hlen : k.length = a.length + t.length := by rw [hk, List.length_append]
        rcases List.append_eq_append_iff.1 he with ⟨r, hq, hr⟩ | ⟨r, hp, hr⟩
        · cases r with
          | nil =>
              rw [List.append_nil] at hq
              have hha : h = a := (List.cons.inj hr).2
              have hshort : t = [] := List.length_eq_zero_iff.1 (by rw [hha] at hlength; omega)
              rw [hshort, List.append_nil] at hk
              exact .inr ⟨hq.symm, hha.trans hk.symm⟩
          | cons d r =>
              -- the mark would be in the body
              rw [List.cons_append, List.cons.injEq] at hr
              exact absurd (hr.2 ▸ List.mem_append_right _ List.mem_cons_self) hc
        · have hlen' := congrArg List.length hr
          rw [List.length_append, List.length_cons, List.length_cons] at hlen'
          have hnil : r = [] := List.length_eq_zero_iff.1 (by omega)
          have hshort : t = [] := List.length_eq_zero_iff.1 (by omega)
          rw [hnil, List.nil_append, List.cons.injEq] at hr
          rw [hnil, List.append_nil] at hp
          rw [hshort, List.append_nil] at hk
          exact .inr ⟨hp, hr.2.symm.trans hk.symm⟩

end Nazg.Lib
