import Nazg.Lib.Bytes

/-!
# Finding the end of a bracketed text by counting

A scanner that knows one pair of delimiters and nothing else: it counts openings
and closings over raw bytes and stops where the count returns to zero. Whether it
stops at the closing that belongs to the opening depends on what else stands in
between, and on nothing but the delimiters there: `depthIn_filter`.
-/

namespace Nazg.Lib

variable {opening closing : UInt8}

/-- The count after one more byte. -/
def countDelimiter (opening closing : UInt8) (n : Nat) (c : UInt8) : Nat :=
  if c = opening then n + 1 else if c = closing then n - 1 else n

/-- What is read until the count is zero, what follows, and the count at the end. -/
def span (opening closing : UInt8) : Nat → Bytes → Bytes × Bytes × Nat
  | 0, s => ([], s, 0)
  | n + 1, [] => ([], [], n + 1)
  | n + 1, c :: s =>
      let r := span opening closing (countDelimiter opening closing (n + 1) c) s
      (c :: r.1, r.2)

/-- The count at the end of a text in which it never reaches zero. -/
def depthIn (opening closing : UInt8) : Nat → Bytes → Option Nat
  | n, [] => some n
  | n, c :: s =>
      if countDelimiter opening closing n c = 0 then none
      else depthIn opening closing (countDelimiter opening closing n c) s

theorem depthIn_append (n : Nat) (u v : Bytes) :
    depthIn opening closing n (u ++ v) =
      (depthIn opening closing n u).bind fun m => depthIn opening closing m v := by
  induction u generalizing n with
  | nil => rfl
  | cons c u ih =>
      rw [List.cons_append, depthIn, depthIn]
      split
      · rfl
      · exact ih _

/-- Only the delimiters count. -/
theorem depthIn_filter {n : Nat} (hn : n ≠ 0) (u : Bytes) :
    depthIn opening closing n (u.filter fun c => c = opening || c = closing) =
      depthIn opening closing n u := by
  induction u generalizing n with
  | nil => rfl
  | cons c u ih =>
      rw [List.filter_cons]
      split
      · rw [depthIn, depthIn]
        split
        · rfl
        · next h => exact ih h
      · next h =>
          simp only [Bool.or_eq_true, decide_eq_true_eq, not_or] at h
          have hc : countDelimiter opening closing n c = n := by
            rw [countDelimiter, if_neg h.1, if_neg h.2]
          rw [depthIn, hc, if_neg hn]
          exact ih hn

/-- Two texts with the same delimiters read alike. -/
theorem depthIn_congr {n : Nat} (hn : n ≠ 0) {u v : Bytes}
    (h : (u.filter fun c => c = opening || c = closing) =
      v.filter fun c => c = opening || c = closing) :
    depthIn opening closing n u = depthIn opening closing n v := by
  rw [← depthIn_filter hn u, h, depthIn_filter hn v]

theorem depthIn_of_notMem {n : Nat} (hn : n ≠ 0) {u : Bytes} (ho : opening ∉ u)
    (hc : closing ∉ u) : depthIn opening closing n u = some n := by
  rw [← depthIn_filter hn, List.filter_eq_nil_iff.2 fun c hmem => ?_]
  · rfl
  · have hco : c ≠ opening := fun h => ho (h ▸ hmem)
    have hcc : c ≠ closing := fun h => hc (h ▸ hmem)
    simp [hco, hcc]

/-- The scanner reads through a text in which the count stays positive. -/
theorem span_append {n m : Nat} {u : Bytes} (hn : n ≠ 0)
    (h : depthIn opening closing n u = some m) (v : Bytes) :
    span opening closing n (u ++ v) =
      (u ++ (span opening closing m v).1, (span opening closing m v).2) := by
  induction u generalizing n with
  | nil =>
      cases h
      rfl
  | cons c u ih =>
      rw [depthIn] at h
      split at h
      · cases h
      · next hc =>
          cases n with
          | zero => exact absurd rfl hn
          | succ n => rw [List.cons_append, span, ih hc h]; rfl

/-- The scanner stops at the closing of its own opening. -/
theorem span_closing {u : Bytes} (hoc : opening ≠ closing)
    (h : depthIn opening closing 1 u = some 1) (v : Bytes) :
    span opening closing 1 (u ++ closing :: v) = (u ++ [closing], v, 0) := by
  have hlast : countDelimiter opening closing 1 closing = 0 := by
    rw [countDelimiter, if_neg hoc.symm, if_pos rfl]
  rw [span_append (by omega) h, span, hlast]
  cases v <;> rfl

/-! ## More openings, or fewer -/

theorem depthIn_pos {n m : Nat} {u : Bytes} (hn : n ≠ 0)
    (h : depthIn opening closing n u = some m) : m ≠ 0 := by
  induction u generalizing n with
  | nil =>
      cases h
      exact hn
  | cons c u ih =>
      rw [depthIn] at h
      split at h
      · cases h
      · next hc => exact ih hc h

theorem countDelimiter_add {n : Nat} {c : UInt8}
    (h : countDelimiter opening closing n c ≠ 0) (k : Nat) :
    countDelimiter opening closing (n + k) c = countDelimiter opening closing n c + k := by
  rw [countDelimiter] at h ⊢
  rw [countDelimiter]
  split_ifs at h ⊢ <;> omega

/-- Further openings before a text stay open in it. -/
theorem depthIn_add {n m : Nat} {u : Bytes} (h : depthIn opening closing n u = some m) (k : Nat) :
    depthIn opening closing (n + k) u = some (m + k) := by
  induction u generalizing n with
  | nil =>
      cases h
      rfl
  | cons c u ih =>
      rw [depthIn] at h
      split at h
      · cases h
      · next hc =>
          rw [depthIn, countDelimiter_add hc k, if_neg (by omega)]
          exact ih h

/-- What closes all openings closes fewer. -/
theorem depthIn_eq_none_of_le {n k : Nat} {u : Bytes} (h : depthIn opening closing n u = none)
    (hk : k ≤ n) : depthIn opening closing k u = none := by
  rw [Option.eq_none_iff_forall_ne_some]
  intro m hm
  have hadd := depthIn_add hm (n - k)
  rw [Nat.add_sub_cancel' hk, h] at hadd
  cases hadd

theorem depthIn_closing (hoc : opening ≠ closing) (n : Nat) (u : Bytes) :
    depthIn opening closing (n + 1) (closing :: u) =
      if n = 0 then none else depthIn opening closing n u := by
  rw [depthIn, countDelimiter, if_neg hoc.symm, if_pos rfl, Nat.add_sub_cancel]

/-- A section ends and another begins. -/
theorem depthIn_closing_opening (hoc : opening ≠ closing) (n : Nat) (u : Bytes) :
    depthIn opening closing (n + 1) (closing :: opening :: u) =
      if n = 0 then none else depthIn opening closing (n + 1) u := by
  rw [depthIn_closing hoc]
  split
  · rfl
  · rw [depthIn, countDelimiter, if_pos rfl, if_neg (by omega)]

/-- Where the count reaches zero the scanner stops. -/
theorem span_append_of_none {n : Nat} {u : Bytes} (hn : n ≠ 0)
    (h : depthIn opening closing n u = none) (v : Bytes) :
    ∃ a b, u = a ++ b ∧ span opening closing n (u ++ v) = (a, b ++ v, 0) := by
  induction u generalizing n with
  | nil => cases h
  | cons c u ih =>
      obtain ⟨n, rfl⟩ := Nat.exists_eq_succ_of_ne_zero hn
      rw [depthIn] at h
      rw [List.cons_append, span]
      split at h
      · next hc =>
          refine ⟨[c], u, rfl, ?_⟩
          rw [hc, span.eq_def]
      · next hc =>
          obtain ⟨a, b, rfl, hspan⟩ := ih hc h
          refine ⟨c :: a, b, rfl, ?_⟩
          rw [hspan]

/-- A text that does not close its openings is read to its end. -/
theorem span_of_some {n m : Nat} {u : Bytes} (hn : n ≠ 0)
    (h : depthIn opening closing n u = some m) : span opening closing n u = (u, [], m) := by
  have hspan := span_append hn h []
  obtain ⟨m, rfl⟩ := Nat.exists_eq_succ_of_ne_zero (depthIn_pos hn h)
  rw [List.append_nil] at hspan
  rw [hspan, span, List.append_nil]

end Nazg.Lib
