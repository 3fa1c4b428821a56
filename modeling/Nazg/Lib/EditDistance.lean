import Mathlib.Order.Bounds.Basic
import Mathlib.Data.List.Basic
import Mathlib.Order.MinMax

/-!
# The edit distance of two lists

The least number of insertions, deletions and substitutions of single elements that turn
one list into another. It is defined by the edits themselves, one after the other and
anywhere in the list, which makes it a metric by what can be done with edit sequences:
they can be put one behind the other and read backwards.

What computes it is the recursion on the first elements (`distance`). That no sequence of
edits is shorter is one lemma: a single edit changes the value by one at most, whatever
stands before it (`distance_context`).
-/

namespace Nazg.Lib

variable {α : Type*}

/-- One edit of a list. -/
inductive Edit : List α → List α → Prop
  | insert (u v : List α) (x : α) : Edit (u ++ v) (u ++ x :: v)
  | delete (u v : List α) (x : α) : Edit (u ++ x :: v) (u ++ v)
  | substitute (u v : List α) (x y : α) : Edit (u ++ x :: v) (u ++ y :: v)

/-- So many edits turn the first list into the second. -/
inductive Edits : List α → List α → Nat → Prop
  | refl (a : List α) : Edits a a 0
  | step {a b c : List α} {n : Nat} (h : Edit a b) (hs : Edits b c n) : Edits a c (n + 1)

/-! ## Sequences of edits -/

section

variable {a b c : List α} {m n : Nat}

theorem Edits.single (h : Edit a b) : Edits a b 1 := .step h (.refl b)

theorem Edits.trans (h₁ : Edits a b m) (h₂ : Edits b c n) : Edits a c (m + n) := by
  induction h₁ with
  | refl a => rwa [Nat.zero_add]
  | step h _ ih =>
      rw [Nat.add_right_comm]
      exact .step h (ih h₂)

theorem Edit.symm (h : Edit a b) : Edit b a := by
  cases h with
  | insert u v x => exact .delete u v x
  | delete u v x => exact .insert u v x
  | substitute u v x y => exact .substitute u v y x

theorem Edits.symm (h : Edits a b n) : Edits b a n := by
  induction h with
  | refl a => exact .refl a
  | step h _ ih => exact ih.trans (.single h.symm)

theorem Edit.cons (z : α) (h : Edit a b) : Edit (z :: a) (z :: b) := by
  cases h with
  | insert u v x => exact .insert (z :: u) v x
  | delete u v x => exact .delete (z :: u) v x
  | substitute u v x y => exact .substitute (z :: u) v x y

theorem Edits.cons (z : α) (h : Edits a b n) : Edits (z :: a) (z :: b) n := by
  induction h with
  | refl a => exact .refl _
  | step h _ ih => exact .step (h.cons z) ih

theorem Edit.reverse (h : Edit a b) : Edit a.reverse b.reverse := by
  cases h with
  | insert u v x => simpa using Edit.insert v.reverse u.reverse x
  | delete u v x => simpa using Edit.delete v.reverse u.reverse x
  | substitute u v x y => simpa using Edit.substitute v.reverse u.reverse x y

theorem Edits.reverse (h : Edits a b n) : Edits a.reverse b.reverse n := by
  induction h with
  | refl a => exact .refl _
  | step h _ ih => exact .step h.reverse ih

theorem edits_insert_all (b : List α) : Edits [] b b.length := by
  induction b with
  | nil => exact .refl _
  | cons y b ih => exact .step (.insert [] [] y) (ih.cons y)

theorem edits_zero : Edits a b 0 ↔ a = b := by
  constructor
  · intro h
    cases h
    rfl
  · rintro rfl
    exact .refl a

end

/-! ## The recursion -/

section

variable [DecidableEq α]

/-- The distance, by the first elements. -/
def distance : List α → List α → Nat
  | [], b => b.length
  | x :: a, [] => (x :: a).length
  | x :: a, y :: b =>
      min (min (distance a (y :: b) + 1) (distance (x :: a) b + 1))
        (distance a b + if x = y then 0 else 1)

@[simp] theorem distance_nil_left (b : List α) : distance [] b = b.length := by
  rw [distance]

@[simp] theorem distance_nil_right (a : List α) : distance a [] = a.length := by
  cases a with
  | nil => rw [distance]
  | cons x a => rw [distance]

theorem distance_cons_cons (x y : α) (a b : List α) :
    distance (x :: a) (y :: b) =
      min (min (distance a (y :: b) + 1) (distance (x :: a) b + 1))
        (distance a b + if x = y then 0 else 1) := by
  rw [distance]

/-- What stands first in the first list costs one at most. -/
theorem distance_cons_left_le (x : α) (a b : List α) :
    distance (x :: a) b ≤ distance a b + 1 := by
  cases b with
  | nil => simp
  | cons y b =>
      rw [distance_cons_cons]
      omega

theorem distance_cons_right_le (y : α) (a b : List α) :
    distance a (y :: b) ≤ distance a b + 1 := by
  cases a with
  | nil => simp
  | cons x a =>
      rw [distance_cons_cons]
      omega

theorem distance_cons_cons_le (x y : α) (a b : List α) :
    distance (x :: a) (y :: b) ≤ distance a b + 1 := by
  have hcost : (if x = y then 0 else 1) ≤ 1 := by split <;> omega
  rw [distance_cons_cons]
  omega

theorem distance_le_cons_left (x : α) (a b : List α) :
    distance a b ≤ distance (x :: a) b + 1 := by
  induction b with
  | nil =>
      simp only [distance_nil_right, List.length_cons]
      omega
  | cons y b ih =>
      have hright := distance_cons_right_le y a b
      rw [distance_cons_cons]
      omega

theorem distance_exchange (x y : α) (a b : List α) :
    distance (x :: a) b ≤ distance (y :: a) b + 1 := by
  induction b with
  | nil => simp
  | cons z b ih =>
      have hleft := distance_cons_left_le x a (z :: b)
      have hright := distance_cons_right_le z (x :: a) b
      have hboth := distance_cons_cons_le x z a b
      rw [distance_cons_cons y]
      omega

/-- What changes the distances by one at most does so behind any list. -/
theorem distance_context {v w : List α} (h : ∀ c, distance v c ≤ distance w c + 1)
    (u c : List α) : distance (u ++ v) c ≤ distance (u ++ w) c + 1 := by
  induction u generalizing c with
  | nil => exact h c
  | cons z u ihu =>
      induction c with
      | nil =>
          have hlen := h []
          simp only [distance_nil_right] at hlen
          simp only [distance_nil_right, List.length_append, List.length_cons]
          omega
      | cons y c ihc =>
          have hdelete := ihu (y :: c)
          have hkeep := ihu c
          rw [List.cons_append, List.cons_append] at ihc ⊢
          rw [distance_cons_cons, distance_cons_cons]
          omega

theorem Edit.distance_le {a b : List α} (h : Edit a b) (c : List α) :
    distance a c ≤ distance b c + 1 := by
  cases h with
  | insert u v x => exact distance_context (distance_le_cons_left x v) u c
  | delete u v x => exact distance_context (distance_cons_left_le x v) u c
  | substitute u v x y => exact distance_context (distance_exchange x y v) u c

theorem distance_self (a : List α) : distance a a = 0 := by
  induction a with
  | nil => exact distance_nil_left []
  | cons x a ih =>
      rw [distance_cons_cons, ih, if_pos rfl]
      omega

/-- No sequence of edits is shorter. -/
theorem Edits.distance_le {a b : List α} {n : Nat} (h : Edits a b n) : distance a b ≤ n := by
  induction h with
  | refl a => exact (distance_self a).le
  | step h _ ih => exact (h.distance_le _).trans (Nat.succ_le_succ ih)

/-- There is a sequence of edits of that length. -/
theorem edits_distance (a b : List α) : Edits a b (distance a b) := by
  induction a generalizing b with
  | nil =>
      rw [distance_nil_left]
      exact edits_insert_all b
  | cons x a iha =>
      induction b with
      | nil =>
          rw [distance_nil_right]
          exact (edits_insert_all (x :: a)).symm
      | cons y b ihb =>
          have hdelete : Edits (x :: a) (y :: b) (distance a (y :: b) + 1) :=
            .step (.delete [] a x) (iha (y :: b))
          have hinsert : Edits (x :: a) (y :: b) (distance (x :: a) b + 1) :=
            ihb.trans (.single (.insert [] b y))
          have hkeep : Edits (x :: a) (y :: b) (distance a b + if x = y then 0 else 1) := by
            split
            · next hxy =>
                rw [hxy]
                exact (iha b).cons y
            · exact ((iha b).cons x).trans (.single (.substitute [] b x y))
          rw [distance_cons_cons]
          rcases min_choice (min (distance a (y :: b) + 1) (distance (x :: a) b + 1))
            (distance a b + if x = y then 0 else 1) with h | h
          · rw [h]
            rcases min_choice (distance a (y :: b) + 1) (distance (x :: a) b + 1) with h | h
            · rwa [h]
            · rwa [h]
          · rwa [h]

/-- The recursion computes the edit distance. -/
theorem isLeast_distance (a b : List α) : IsLeast {n | Edits a b n} (distance a b) :=
  ⟨edits_distance a b, fun _ h => h.distance_le⟩

/-! ## A metric -/

theorem distance_eq_zero {a b : List α} : distance a b = 0 ↔ a = b := by
  constructor
  · intro h
    exact edits_zero.1 (h ▸ edits_distance a b)
  · rintro rfl
    exact distance_self a

theorem distance_comm (a b : List α) : distance a b = distance b a :=
  le_antisymm (edits_distance b a).symm.distance_le (edits_distance a b).symm.distance_le

theorem distance_triangle (a b c : List α) : distance a c ≤ distance a b + distance b c :=
  ((edits_distance a b).trans (edits_distance b c)).distance_le

theorem distance_reverse (a b : List α) : distance a.reverse b.reverse = distance a b := by
  have hle : ∀ a b : List α, distance a.reverse b.reverse ≤ distance a b :=
    fun a b => (edits_distance a b).reverse.distance_le
  refine le_antisymm (hle a b) ?_
  have h := hle a.reverse b.reverse
  rwa [List.reverse_reverse, List.reverse_reverse] at h

theorem distance_le_max (a b : List α) : distance a b ≤ max a.length b.length := by
  induction a generalizing b with
  | nil => simp
  | cons x a ih =>
      cases b with
      | nil => simp
      | cons y b =>
          have h := ih b
          have hboth := distance_cons_cons_le x y a b
          simp only [List.length_cons]
          omega

end

end Nazg.Lib
