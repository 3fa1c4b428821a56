import Mathlib.Algebra.Order.Field.Basic
import Mathlib.Algebra.Order.Field.Rat
import Nazg.Brain.PatternMatcher
import Nazg.Lib.EditDistance

/-!
# The two rows compute the edit distance

The loop reads both strings from the front, so the entry behind `i` and `j` characters is
about prefixes, where the recursion of the distance takes the first elements away. With
the prefixes read backwards the two are the same recursion, and a row holds the distances
of one reversed prefix to all reversed prefixes of the other string (`distancesTo`). One
character turns such a row into the next.

The distance does not change when both strings are read backwards, and the last entry of
the last row is the distance of the strings.
-/

namespace Nazg.Brain

open Lib

/-! ## Rows -/

/-- The distances of `r` to the reversed prefixes of a string that go on behind `acc`. -/
def distancesTo (r : Bytes) : Bytes → Bytes → List Nat
  | acc, [] => [distance r acc]
  | acc, d :: s => distance r acc :: distancesTo r (d :: acc) s

theorem distancesTo_eq_cons (r acc s : Bytes) :
    ∃ tail, distancesTo r acc s = distance r acc :: tail := by
  cases s with
  | nil => exact ⟨[], rfl⟩
  | cons d s => exact ⟨distancesTo r (d :: acc) s, rfl⟩

theorem getLastD_distancesTo (r acc s : Bytes) (x : Nat) :
    (distancesTo r acc s).getLastD x = distance r (s.reverse ++ acc) := by
  induction s generalizing acc x with
  | nil => rfl
  | cons d s ih =>
      rw [distancesTo, List.getLastD_cons, ih, List.reverse_cons, List.append_assoc]
      rfl

/-- No entry is greater than both lengths. -/
theorem le_of_mem_distancesTo {r acc s : Bytes} {e : Nat} (h : e ∈ distancesTo r acc s) :
    e ≤ max r.length (acc.length + s.length) := by
  induction s generalizing acc with
  | nil =>
      rw [distancesTo, List.mem_singleton] at h
      rw [h]
      exact distance_le_max r acc
  | cons d s ih =>
      rw [distancesTo, List.mem_cons] at h
      rw [List.length_cons]
      rcases h with rfl | h
      · have hmax := distance_le_max r acc
        omega
      · have hrest := ih h
        rw [List.length_cons] at hrest
        omega

/-- The first row. -/
theorem range'_eq_distancesTo (acc s : Bytes) :
    List.range' acc.length (s.length + 1) = distancesTo [] acc s := by
  induction s generalizing acc with
  | nil =>
      rw [distancesTo, distance_nil_left]
      rfl
  | cons d s ih =>
      have hrest := ih (d :: acc)
      rw [List.length_cons] at hrest
      rw [List.length_cons, List.range'_succ, distancesTo, distance_nil_left, hrest]

/-- One character more: the inner loop makes the row of the longer prefix. -/
theorem cons_levenshteinEntries (c : UInt8) (r acc s : Bytes) :
    distance (c :: r) acc ::
        levenshteinEntries c s (distancesTo r acc s) (distance (c :: r) acc) =
      distancesTo (c :: r) acc s := by
  induction s generalizing acc with
  | nil => rfl
  | cons d s ih =>
      have hentry : min (min (distance r (d :: acc) + 1) (distance (c :: r) acc + 1))
          (distance r acc + if c = d then 0 else 1) = distance (c :: r) (d :: acc) :=
        (distance_cons_cons c d r acc).symm
      obtain ⟨tail, htail⟩ := distancesTo_eq_cons r (d :: acc) s
      have hnext := ih (d :: acc)
      rw [distancesTo, distancesTo, htail, levenshteinEntries]
      rw [htail] at hnext
      rw [hentry, hnext]

theorem levenshteinEntries_eq (c : UInt8) (r s : Bytes) :
    (r.length + 1) :: levenshteinEntries c s (distancesTo r [] s) (r.length + 1) =
      distancesTo (c :: r) [] s := by
  have hrow := cons_levenshteinEntries c r [] s
  rwa [distance_nil_right, List.length_cons] at hrow

/-- The outer loop, from the row of any prefix on. -/
theorem levenshteinRows_eq (s2 s1 r : Bytes) :
    levenshteinRows s2 s1 r.length (distancesTo r [] s2) =
      distancesTo (s1.reverse ++ r) [] s2 := by
  induction s1 generalizing r with
  | nil => rfl
  | cons c s1 ih =>
      have hnext := ih (c :: r)
      rw [List.length_cons] at hnext
      rw [levenshteinRows, levenshteinEntries_eq, hnext, List.reverse_cons, List.append_assoc]
      rfl

/-- The row behind all of the first string. -/
theorem levenshteinRows_range (s1 s2 : Bytes) :
    levenshteinRows s2 s1 0 (List.range (s2.length + 1)) =
      distancesTo s1.reverse [] s2 := by
  have hfirst := range'_eq_distancesTo [] s2
  have hrows := levenshteinRows_eq s2 s1 []
  rw [List.length_nil] at hfirst hrows
  rw [List.range_eq_range', hfirst, hrows, List.append_nil]

theorem levenshteinDistance_eq_distance (a b : Bytes) :
    levenshteinDistance a b = distance a b := by
  rw [levenshteinDistance, levenshteinRows_range, getLastD_distancesTo, List.append_nil,
    distance_reverse]

/-- The entries of all rows, one more of each included, are within the strings' lengths. -/
theorem entry_le {a b : Bytes} {i e : Nat}
    (h : e ∈ levenshteinRows b (a.take i) 0 (List.range (b.length + 1))) :
    e ≤ max a.length b.length := by
  rw [levenshteinRows_range] at h
  have hle := le_of_mem_distancesTo h
  rw [List.length_reverse, List.length_take, List.length_nil] at hle
  omega

/-! ## Similarity -/

/-- What rounding keeps of the arithmetic of fractions: a fraction of natural numbers is
not negative and, with the greater number below, at most one; `1 - x` is exact at both ends
and reverses the order. -/
structure Doubles.Rounded (d : Doubles) : Prop where
  zero_le_ratio : ∀ m n, 0 < n → d.zero ≤ d.ratio m n
  ratio_le_one : ∀ m n, 0 < n → m ≤ n → d.ratio m n ≤ d.one
  complement_zero : d.complement d.zero = d.one
  complement_one : d.complement d.one = d.zero
  complement_le : ∀ x y, x ≤ y → d.complement y ≤ d.complement x
  zero_le_one : d.zero ≤ d.one

theorem levenshteinSimilarity_mem {d : Doubles} (hd : d.Rounded) (a b : Bytes) :
    d.zero ≤ levenshteinSimilarity d a b ∧ levenshteinSimilarity d a b ≤ d.one := by
  rw [levenshteinSimilarity]
  split
  · exact ⟨hd.zero_le_one, le_refl _⟩
  · split
    · exact ⟨le_refl _, hd.zero_le_one⟩
    · next hne =>
        have hpos : 0 < max a.length b.length :=
          lt_max_of_lt_left (List.length_pos_iff.2 (not_or.1 hne).1)
        have hle : levenshteinDistance a b ≤ max a.length b.length := by
          rw [levenshteinDistance_eq_distance]
          exact distance_le_max a b
        have hlow := hd.complement_le _ _ (hd.ratio_le_one _ _ hpos hle)
        have hhigh := hd.complement_le _ _ (hd.zero_le_ratio (levenshteinDistance a b) _ hpos)
        rw [hd.complement_one] at hlow
        rw [hd.complement_zero] at hhigh
        exact ⟨hlow, hhigh⟩

/-- The loop returns the least number of edits, its numbers fit an `int`, and what follows
for the distance and for the similarity. -/
theorem levenshteinDistance_isLeast (d : Doubles) (hd : d.Rounded) (a b : Bytes)
    (ha : a.length < 2 ^ 30) (hb : b.length < 2 ^ 30) :
    IsLeast {n | Edits a b n} (levenshteinDistance a b) ∧
      (∀ i, ∀ e ∈ levenshteinRows b (a.take i) 0 (List.range (b.length + 1)),
        e + 1 < 2 ^ 31) ∧
      (levenshteinDistance a b = 0 ↔ a = b) ∧
      levenshteinDistance a b = levenshteinDistance b a ∧
      (∀ c : Bytes, c.length < 2 ^ 30 →
        levenshteinDistance a c ≤ levenshteinDistance a b + levenshteinDistance b c) ∧
      levenshteinDistance a b ≤ max a.length b.length ∧
      d.zero ≤ levenshteinSimilarity d a b ∧ levenshteinSimilarity d a b ≤ d.one := by
  refine ⟨?_, fun i e he => ?_, ?_, ?_, fun c _ => ?_, ?_, levenshteinSimilarity_mem hd a b⟩
  · rw [levenshteinDistance_eq_distance]
    exact isLeast_distance a b
  · have hle := entry_le he
    omega
  · rw [levenshteinDistance_eq_distance]
    exact distance_eq_zero
  · rw [levenshteinDistance_eq_distance, levenshteinDistance_eq_distance]
    exact distance_comm a b
  · simp only [levenshteinDistance_eq_distance]
    exact distance_triangle a b c
  · rw [levenshteinDistance_eq_distance]
    exact distance_le_max a b

/-- Fractions without rounding. -/
def rationals : Doubles where
  Score := ℚ
  order := inferInstance
  zero := 0
  half := 1 / 2
  one := 1
  ratio m n := m / n
  complement x := 1 - x
  weigh x y := 7 / 10 * x + 3 / 10 * y

theorem rationals_rounded : rationals.Rounded where
  zero_le_ratio m n _ := show (0 : ℚ) ≤ m / n from
    div_nonneg (Nat.cast_nonneg m) (Nat.cast_nonneg n)
  ratio_le_one m n hn hmn := show (m : ℚ) / n ≤ 1 from
    (div_le_one (Nat.cast_pos.2 hn)).2 (Nat.cast_le.2 hmn)
  complement_zero := show (1 : ℚ) - 0 = 1 from sub_zero 1
  complement_one := show (1 : ℚ) - 1 = 0 from sub_self 1
  complement_le := show ∀ x y : ℚ, x ≤ y → 1 - y ≤ 1 - x from
    fun _ _ h => sub_le_sub_left h 1
  zero_le_one := show (0 : ℚ) ≤ 1 from zero_le_one

theorem levenshteinDistance_isLeast_four :
    IsLeast {n | Edits (bytes "four") (bytes "fold") n} 2 ∧
      rationals.zero ≤ levenshteinSimilarity rationals (bytes "four") (bytes "fold") := by
  have h := levenshteinDistance_isLeast rationals rationals_rounded (bytes "four")
    (bytes "fold") (by decide) (by decide)
  have htwo : levenshteinDistance (bytes "four") (bytes "fold") = 2 := by decide +kernel
  rw [htwo] at h
  exact ⟨h.1, h.2.2.2.2.2.2.1⟩

end Nazg.Brain
