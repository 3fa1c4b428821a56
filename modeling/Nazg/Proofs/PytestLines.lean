import Nazg.Testsuite.Adapters

/-!
# What the adapter reads in a line of pytest

Behind the file of a node id the adapter takes the first status word with white space in
front of it. A name can hold one, and then it hides the status of the test.
-/

namespace Nazg.Testsuite

open Lib Capture

/-- The status word at the beginning of a text. -/
def wordAt (s : Bytes) : Option TestStatus :=
  if bytes "PASSED" <+: s then some .passed
  else if bytes "FAILED" <+: s then some .failed
  else if bytes "SKIPPED" <+: s then some .skipped
  else if bytes "ERROR" <+: s then some .error
  else none

/-- The status word at the beginning of a text, behind white space. -/
def statusAt : Bytes → Option TestStatus
  | [] => none
  | c :: s => if isSpace c then wordAt (s.dropWhile isSpace) else none

/-- The first status word behind white space. -/
def firstStatus : Bytes → Option TestStatus
  | [] => none
  | c :: s => (statusAt (c :: s)).or (firstStatus s)

namespace PytestAdapter

/-! ## The parts of the expression -/

theorem getD_tail (ps : List Bytes) (n : Nat) : ps.getD (n + 1) [] = ps.tail.getD n [] := by
  cases ps with
  | nil => rfl
  | cons p ps => rfl

theorem rests_partText {w : Bytes} (hw : w ≠ []) (s : Bytes) :
    (Part.text w).rests s = if w <+: s then [s.drop w.length] else [] := by
  cases w with
  | nil => exact absurd rfl hw
  | cons c w =>
      split
      · rename_i h
        obtain ⟨t, rfl⟩ := h
        rw [List.drop_left]
        exact Regex.rests_text c w t
      · rename_i h
        rw [List.eq_nil_iff_forall_not_mem]
        intro rest hrest
        obtain ⟨u, rfl, hu⟩ := Part.mem_rests hrest
        rw [Regex.matches_text hu] at h
        exact h (List.prefix_append _ _)

theorem rests_statusWord (s : Bytes) : (Part.regex statusWord).rests s =
    (Part.text (bytes "PASSED")).rests s ++ ((Part.text (bytes "FAILED")).rests s ++
      ((Part.text (bytes "SKIPPED")).rests s ++ (Part.text (bytes "ERROR")).rests s)) := rfl

/-- What is read where the word is matched. -/
theorem taken_of_prefix {w s : Bytes} (h : w <+: s) :
    s.take (s.length - (s.drop w.length).length) = w := by
  obtain ⟨t, rfl⟩ := h
  rw [List.drop_left, List.length_append, Nat.add_sub_cancel, List.take_left]

theorem matchAt_single (i : Part) (s : Bytes) : matchAt [i] s =
    (i.rests s).head?.map fun rest => [s.take (s.length - rest.length)] := by
  rw [matchAt, pieces]
  cases i.rests s with
  | nil => rfl
  | cons rest more => rfl

theorem status_matchAt_statusWord (s : Bytes) :
    (matchAt [.regex statusWord] s).map (fun ps => statusOf (ps.getD 0 [])) = wordAt s := by
  rw [matchAt_single, rests_statusWord, rests_partText (by decide), rests_partText (by decide),
    rests_partText (by decide), rests_partText (by decide), wordAt]
  by_cases hpassed : bytes "PASSED" <+: s
  · rw [if_pos hpassed, if_pos hpassed, List.cons_append, List.head?_cons, Option.map_some,
      taken_of_prefix hpassed]
    rfl
  rw [if_neg hpassed, if_neg hpassed, List.nil_append]
  by_cases hfailed : bytes "FAILED" <+: s
  · rw [if_pos hfailed, if_pos hfailed, List.cons_append, List.head?_cons, Option.map_some,
      taken_of_prefix hfailed]
    rfl
  rw [if_neg hfailed, if_neg hfailed, List.nil_append]
  by_cases hskipped : bytes "SKIPPED" <+: s
  · rw [if_pos hskipped, if_pos hskipped, List.cons_append, List.head?_cons, Option.map_some,
      taken_of_prefix hskipped]
    rfl
  rw [if_neg hskipped, if_neg hskipped, List.nil_append]
  by_cases herror : bytes "ERROR" <+: s
  · rw [if_pos herror, if_pos herror, List.head?_cons, Option.map_some, taken_of_prefix herror]
    rfl
  · rw [if_neg herror, if_neg herror]
    rfl

/-! ## White space in front of the word -/

theorem wordAt_of_isSpace {c : UInt8} (h : isSpace c = true) (s : Bytes) :
    wordAt (c :: s) = none := by
  have hne : ∀ w : Bytes, w ≠ [] → (∀ d ∈ w, isSpace d = false) → ¬ w <+: c :: s := by
    intro w hw hall hprefix
    obtain ⟨d, w, rfl⟩ := List.exists_cons_of_ne_nil hw
    obtain ⟨t, ht⟩ := hprefix
    obtain rfl : d = c := (List.cons.inj ht).1
    rw [hall d List.mem_cons_self] at h
    cases h
  rw [wordAt, if_neg (hne _ (by decide) (by decide)), if_neg (hne _ (by decide) (by decide)),
    if_neg (hne _ (by decide) (by decide)), if_neg (hne _ (by decide) (by decide))]

theorem findSome?_manyRests (s : Bytes) : (Regex.manyRests isSpace s).findSome? wordAt =
    statusAt s := by
  cases s with
  | nil => rfl
  | cons c s =>
      rw [Regex.manyRests, statusAt]
      by_cases hc : isSpace c = true
      · rw [if_pos hc, if_pos hc]
        clear hc
        induction s with
        | nil => rfl
        | cons d s ih =>
            rw [Regex.manyRests]
            by_cases hd : isSpace d = true
            · rw [if_pos hd, List.findSome?_append, ih, List.dropWhile_cons_of_pos hd,
                List.findSome?_singleton, wordAt_of_isSpace hd, Option.or_none]
            · rw [if_neg hd, List.nil_append, List.findSome?_singleton,
                List.dropWhile_cons_of_neg hd]
      · rw [if_neg hc, if_neg hc]
        rfl

theorem status_matchAt_space (s : Bytes) :
    (matchAt [Part.many isSpace, .regex statusWord] s).map (fun ps => statusOf (ps.getD 1 [])) =
      statusAt s := by
  have hone := map_matchAt_cons (Part.many isSpace) [.regex statusWord] s
    fun ps => statusOf (ps.getD 0 [])
  simp only [getD_tail]
  rw [hone, ← findSome?_manyRests]
  simp only [status_matchAt_statusWord]
  rfl

/-! ## The region behind the file -/

/-- A word does not go on over a blank. -/
theorem prefix_append_blank {w s x : Bytes} (hw : (32 : UInt8) ∉ w) :
    w <+: s ++ 32 :: x ↔ w <+: s := by
  constructor
  · rintro ⟨t, ht⟩
    have hne : ∀ c ∈ w, decide (c ≠ 32) = true := by
      intro c hc
      exact decide_eq_true fun h => hw (h ▸ hc)
    obtain ⟨s', rfl, -⟩ := run_before hne (by decide) ht.symm
    exact List.prefix_append _ _
  · exact fun h => h.trans (List.prefix_append _ _)

theorem wordAt_append_blank (s x : Bytes) : wordAt (s ++ 32 :: x) = wordAt s := by
  simp only [wordAt, prefix_append_blank (by decide : (32 : UInt8) ∉ bytes "PASSED"),
    prefix_append_blank (by decide : (32 : UInt8) ∉ bytes "FAILED"),
    prefix_append_blank (by decide : (32 : UInt8) ∉ bytes "SKIPPED"),
    prefix_append_blank (by decide : (32 : UInt8) ∉ bytes "ERROR")]

theorem wordAt_word (o : PytestOutcome) (x : Bytes) : wordAt (o.word ++ x) = some o.status := by
  cases o <;> rfl

theorem dropWhile_word (o : PytestOutcome) (x : Bytes) :
    (o.word ++ x).dropWhile isSpace = o.word ++ x := by
  cases o <;> rfl

theorem firstStatus_of_blank {s : Bytes} (h : s.dropWhile isSpace = []) :
    firstStatus s = none := by
  induction s with
  | nil => rfl
  | cons c s ih =>
      have hc : isSpace c = true := by
        by_contra hc
        rw [List.dropWhile_cons_of_neg hc] at h
        cases h
      rw [List.dropWhile_cons_of_pos hc] at h
      rw [firstStatus, statusAt, if_pos hc, h, ih h]
      rfl

/-- The first status word is one in the name, or the word behind it. -/
theorem findSome?_region (o : PytestOutcome) (x : Bytes) {s : Bytes}
    (hs : ∀ c ∈ s, isAny c = true) :
    (Part.lazyRests isAny (s ++ 32 :: (o.word ++ x))).findSome? statusAt =
      some ((firstStatus s).getD o.status) := by
  induction s with
  | nil =>
      have hblank : isSpace 32 = true := rfl
      rw [List.nil_append, Part.lazyRests, List.findSome?_cons, statusAt, if_pos hblank,
        dropWhile_word, wordAt_word]
      rfl
  | cons c s ih =>
      obtain ⟨hc, hs⟩ := List.forall_mem_cons.1 hs
      rw [List.cons_append, Part.lazyRests, if_pos hc, List.findSome?_cons, ih hs, firstStatus,
        statusAt, statusAt]
      by_cases hspace : isSpace c = true
      · rw [if_pos hspace, if_pos hspace, List.dropWhile_append]
        by_cases hblank : s.dropWhile isSpace = []
        · rw [hblank, List.isEmpty_nil, if_pos rfl, List.dropWhile_cons_of_pos rfl,
            dropWhile_word, wordAt_word, firstStatus_of_blank hblank]
          rfl
        · rw [if_neg (by simpa using hblank), wordAt_append_blank]
          cases wordAt (s.dropWhile isSpace) with
          | none => rfl
          | some st => rfl
      · rw [if_neg hspace, if_neg hspace]
        rfl

/-- What the expression reads behind two colons. -/
def statusBehind (s : Bytes) : Option TestStatus :=
  (Part.lazyRests isAny s).findSome? statusAt

def statusFromColons (s : Bytes) : Option TestStatus :=
  if bytes "::" <+: s then statusBehind (s.drop 2) else none

theorem status_matchAt_behind (s : Bytes) :
    (matchAt [.lazy isAny, Part.many isSpace, .regex statusWord] s).map
      (fun ps => statusOf (ps.getD 2 [])) = statusBehind s := by
  have hrest := map_matchAt_cons (.lazy isAny) [Part.many isSpace, .regex statusWord] s
    fun ps => statusOf (ps.getD 1 [])
  simp only [getD_tail _ 1]
  rw [hrest]
  simp only [status_matchAt_space]
  rfl

theorem status_matchAt_colons (s : Bytes) :
    (matchAt [Part.text (bytes "::"), .lazy isAny, Part.many isSpace, .regex statusWord] s).map
      (fun ps => statusOf (ps.getD 3 [])) = statusFromColons s := by
  have hrest := map_matchAt_cons (Part.text (bytes "::"))
    [.lazy isAny, Part.many isSpace, .regex statusWord] s fun ps => statusOf (ps.getD 2 [])
  simp only [getD_tail _ 2]
  rw [hrest, rests_partText (by decide), statusFromColons]
  simp only [status_matchAt_behind]
  split
  · rw [List.findSome?_singleton]
    rfl
  · rfl

theorem status_matchAt_file (s : Bytes) :
    (matchAt [.lazy isAny, Part.text (bytes "::"), .lazy isAny, Part.many isSpace,
      .regex statusWord] s).map (fun ps => statusOf (ps.getD 4 [])) =
      (Part.lazyRests isAny s).findSome? statusFromColons := by
  have hrest := map_matchAt_cons (.lazy isAny) [Part.text (bytes "::"), .lazy isAny,
    Part.many isSpace, .regex statusWord] s fun ps => statusOf (ps.getD 3 [])
  simp only [getD_tail _ 3]
  rw [hrest]
  simp only [status_matchAt_colons]
  rfl

/-- The first colons with something in front of them are those of the node id. -/
theorem findSome?_file (o : PytestOutcome) (x : Bytes) {s : Bytes} {n : Nat}
    (hs : ∀ c ∈ s, isAny c = true) (hn : find (bytes "::") s = some n) :
    (Part.lazyRests isAny (s ++ 32 :: (o.word ++ x))).findSome? statusFromColons =
      some ((firstStatus (s.drop (n + 2))).getD o.status) := by
  induction s generalizing n with
  | nil => cases hn
  | cons c s ih =>
      obtain ⟨hc, hrest⟩ := List.forall_mem_cons.1 hs
      rw [List.cons_append, Part.lazyRests, if_pos hc, List.findSome?_cons]
      rw [find] at hn
      by_cases hcolons : bytes "::" <+: c :: s
      · rw [if_pos hcolons] at hn
        obtain rfl := Option.some.inj hn
        have hlong : 2 ≤ (c :: s).length := hcolons.length_le
        have hdrop : ∀ d ∈ (c :: s).drop 2, isAny d = true :=
          fun d hd => hs d (List.mem_of_mem_drop hd)
        rw [← List.cons_append, statusFromColons, if_pos (hcolons.trans (List.prefix_append _ _)),
          List.drop_append_of_le_length hlong, statusBehind, findSome?_region o x hdrop]
      · rw [if_neg hcolons] at hn
        obtain ⟨m, hm, rfl⟩ := Option.map_eq_some_iff.1 hn
        have hnone : ¬ bytes "::" <+: c :: (s ++ 32 :: (o.word ++ x)) := by
          rw [← List.cons_append, prefix_append_blank (by decide)]
          exact hcolons
        rw [statusFromColons, if_neg hnone, ih hrest hm]
        rfl

/-- The status that is read in the line of a test. -/
theorem status_line (r : PytestResult) :
    (matchAt testLine r.line).map (fun ps => statusOf (ps.getD 5 [])) =
      some (((behindFile r.nodeId).bind firstStatus).getD r.outcome.status) := by
  have hrest := map_matchAt_cons (.regex (.one isAny)) [.lazy isAny, Part.text (bytes "::"),
    .lazy isAny, Part.many isSpace, .regex statusWord] r.line fun ps => statusOf (ps.getD 4 [])
  have hany : ∀ c ∈ r.nodeId, isAny c = true := by
    intro c hc
    rw [isAny, Bool.and_eq_true, decide_eq_true_eq, decide_eq_true_eq]
    exact ⟨fun h => r.oneLine.1 (h ▸ hc), fun h => r.oneLine.2.1 (h ▸ hc)⟩
  have hfile := r.hasFile
  rw [testLine]
  simp only [getD_tail _ 4]
  rw [hrest]
  simp only [status_matchAt_file]
  cases hid : r.nodeId with
  | nil =>
      rw [hid] at hfile
      cases hfile
  | cons c s =>
      rw [hid] at hfile hany
      obtain ⟨hc, hs⟩ := List.forall_mem_cons.1 hany
      rw [behindFile, Option.isSome_map] at hfile
      obtain ⟨n, hn⟩ := Option.isSome_iff_exists.1 hfile
      have hrests : (Part.regex (.one isAny)).rests (c :: (s ++ 32 :: (r.outcome.word ++ r.after))) =
          [s ++ 32 :: (r.outcome.word ++ r.after)] := by
        show (if isAny c then _ else _) = _
        rw [if_pos hc]
      rw [PytestResult.line, hid, List.cons_append, hrests, List.findSome?_singleton,
        findSome?_file r.outcome r.after hs hn, behindFile, hn]
      rfl

end PytestAdapter

end Nazg.Testsuite
