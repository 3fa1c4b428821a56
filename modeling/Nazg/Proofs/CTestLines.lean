import Nazg.Testsuite.Adapters

/-!
# What the adapter reads in a line of CTest

The expression for a line takes a name to be one word, a status to be one word behind
optional asterisks, and the time to follow at once. So a line with a name of several words is
not read, nor is one for a test that was not run or ended with an exception, unless the name
itself looks like a line of CTest: this takes a `#`, or the `sec` that a line ends with.
-/

namespace Nazg.Testsuite

open Lib Capture

/-! ## Parts -/

theorem first_partText {s : Bytes} (h : s ≠ []) (rest : Bytes) : First (Part.text s) s rest := by
  cases s with
  | nil => exact absurd rfl h
  | cons c s => exact first_text c s rest

theorem matches_partText {s u : Bytes} (h : s ≠ []) (hu : (Part.text s).Matches u) : u = s := by
  cases s with
  | nil => exact absurd rfl h
  | cons c s => exact Regex.matches_text hu

theorem first_star {p : UInt8 → Bool} {u rest : Bytes} (hu : ∀ c ∈ u, p c = true)
    (hrest : Stops p rest) : First (Part.star p) u rest := by
  by_cases hne : u = []
  · rw [hne]
    exact first_opt_nil (manyRests_of_stops hrest)
  · exact first_opt (first_many hne hu hrest)

/-- A text is stopped at where neither its run nor what follows goes on. -/
theorem stops_append {p : UInt8 → Bool} {u v : Bytes} (hu : ∀ c ∈ u, p c = false)
    (hv : Stops p v) : Stops p (u ++ v) := by
  cases u with
  | nil => exact hv
  | cons c u => exact stops_cons (hu c List.mem_cons_self)

theorem stops_of_ne_nil {p : UInt8 → Bool} {u v : Bytes} (hne : u ≠ [])
    (hu : ∀ c ∈ u, p c = false) : Stops p (u ++ v) := by
  cases u with
  | nil => exact absurd rfl hne
  | cons c u => exact stops_cons (hu c List.mem_cons_self)

theorem isSpace_of_mem_blanks {n : Nat} {c : UInt8} (h : c ∈ blanks n) : isSpace c = true := by
  rw [List.eq_of_mem_replicate h]
  rfl

theorem blanks_succ_ne_nil (n : Nat) : blanks (n + 1) ≠ [] := List.cons_ne_nil _ _

/-! ## Times -/

theorem pow_bound {n : Nat} (h : 7 ≤ n) : 10 ^ 2 ≤ 2 ^ n := by
  calc 10 ^ 2 ≤ 2 ^ 7 := by decide
    _ ≤ 2 ^ n := Nat.pow_le_pow_right Nat.two_pos h

theorem Seconds.stodAccepts_text (t : Seconds) : stodAccepts t.text = true := by
  have htake : t.text.takeWhile isDigit = t.whole := by
    rw [Seconds.text, List.takeWhile_append_of_pos t.wholeDigits.2, List.takeWhile_cons_of_neg
      (by decide), List.append_nil]
  have hdrop : t.text.dropWhile isDigit = 46 :: t.fraction := by
    rw [Seconds.text, List.dropWhile_append_of_pos t.wholeDigits.2, List.dropWhile_cons_of_neg
      (by decide)]
  have hfraction : t.fraction.takeWhile isDigit = t.fraction :=
    List.takeWhile_eq_self_iff.2 t.fractionDigits.2
  have hdot : isDot 46 = true := rfl
  rw [stodAccepts, htake, hdrop]
  simp only [hdot, if_true, hfraction, t.fractionDigits.1]
  have hne : t.whole ++ t.fraction ≠ [] := by
    intro h
    exact t.wholeDigits.1 (List.append_eq_nil_iff.1 h).1
  have hsmall : digitsValue (t.whole ++ t.fraction) = 0 ∨
      10 ^ 2 ≤ digitsValue (t.whole ++ t.fraction) * 2 ^ 1022 := by
    obtain h | h := Nat.eq_zero_or_pos (digitsValue (t.whole ++ t.fraction))
    · exact Or.inl h
    · refine Or.inr (Nat.le_trans ?_ (Nat.le_mul_of_pos_left _ h))
      exact pow_bound (by omega)
  simp only [Bool.and_eq_true, decide_eq_true_eq, Bool.or_eq_true]
  exact ⟨⟨hne, t.finite⟩, hsmall⟩

theorem Seconds.isNumeric_text (t : Seconds) : ∀ c ∈ t.text, isNumeric c = true := by
  intro c hc
  rw [isNumeric, Bool.or_eq_true]
  obtain hc | hc := List.mem_append.1 hc
  · exact Or.inl (t.wholeDigits.2 c hc)
  · obtain rfl | hc := List.mem_cons.1 hc
    · exact Or.inr rfl
    · exact Or.inl (t.fractionDigits.2 c hc)

theorem Seconds.text_ne_nil (t : Seconds) : t.text ≠ [] := by
  rw [Seconds.text]
  simp

/-! ## Lines that are read -/

/-- A name of one word; white space around it does no harm. -/
def OneWord (name : Bytes) : Prop :=
  ∃ lead word trail, name = lead ++ (word ++ trail) ∧ (∀ c ∈ lead, isSpace c = true) ∧
    word ≠ [] ∧ (∀ c ∈ word, isNotSpace c = true) ∧ ∀ c ∈ trail, isSpace c = true

theorem not_isSpace_of_isNotSpace {c : UInt8} (h : isNotSpace c = true) : isSpace c = false := by
  rwa [isNotSpace, Bool.not_eq_true'] at h

theorem isNotSpace_of_isSpace {c : UInt8} (h : isSpace c = true) : isNotSpace c = false := by
  rw [isNotSpace, h]
  rfl

def isStar (c : UInt8) : Bool := c = 42

/-- White space is in none of the other classes. -/
theorem classes_of_isSpace : ∀ c, isSpace c = true →
    isDot c = false ∧ isWordByte c = false ∧ isNumeric c = false :=
  forall_byte (by decide +kernel)

theorem classes_of_isWordByte : ∀ c, isWordByte c = true →
    isSpace c = false ∧ isDot c = false ∧ isStar c = false :=
  forall_byte (by decide +kernel)

theorem not_isSpace_of_isNumeric : ∀ c, isNumeric c = true → isSpace c = false :=
  forall_byte (by decide +kernel)

theorem isNotSpace_of_isDot : ∀ c, isDot c = true → isSpace c = false ∧ isNumeric c = true :=
  forall_byte (by decide +kernel)

/-- What stands behind the dots for the outcomes of one word. -/
structure Outcome.Words (o : Outcome) where
  lead : Bytes
  stars : Bytes
  word : Bytes
  text : o.text = lead ++ (stars ++ word)
  leadSpace : ∀ c ∈ lead, isSpace c = true
  starsOr : stars = [] ∨ stars = bytes "***"
  wordBytes : word ≠ [] ∧ ∀ c ∈ word, isWordByte c = true

namespace GTestAdapter

theorem notMem_progress (r : CTestResult) (count : Nat) : (84 : UInt8) ∉ r.progress count := by
  intro h
  have hdigit : ∀ n, (84 : UInt8) ∉ natDecimal n := fun n hn =>
    absurd (isDigit_of_mem_natDecimal hn) (by decide)
  rw [CTestResult.progress, List.mem_append, List.mem_append, List.mem_append, List.mem_cons] at h
  obtain ((h | h) | h | h) | h := h
  · have := List.eq_of_mem_replicate h
    revert this
    decide
  · exact hdigit _ h
  · revert h
    decide
  · exact hdigit _ h
  · revert h
    decide

theorem stars_first {stars rest : Bytes} (h : stars = [] ∨ stars = bytes "***")
    (hrest : Stops isStar rest) :
    First (.regex (.opt (.text 42 (bytes "**")))) stars rest := by
  obtain rfl | rfl := h
  · refine first_opt_nil ?_
    cases rest with
    | nil => rfl
    | cons c rest =>
        have hc : decide (c = 42) = false := hrest c rfl
        have hchar : (Regex.char 42).rests (c :: rest) = [] := by
          rw [Regex.char, Regex.rests, hc, if_neg Bool.false_ne_true]
        show ((Regex.char 42).rests (c :: rest)).flatMap _ = []
        rw [hchar, List.flatMap_nil]
  · exact first_opt (first_text 42 (bytes "**") rest)

theorem search_of_oneWord {r : CTestResult} (count : Nat) (hname : OneWord r.name)
    (words : r.outcome.Words) : ∃ ps, search testLine (r.line count) = some ps ∧
      ps.getD 11 [] = words.word ∧ ps.getD 13 [] = r.time.text := by
  obtain ⟨lead, word, trail, hsplit, hlead, hword, hnotSpace, htrail⟩ := hname
  have hline : r.line count = r.progress count ++ (bytes "Test" ++ (blanks (r.gap + 1) ++
      (bytes "#" ++ (natDecimal r.number ++ (bytes ":" ++ (32 :: lead ++ (word ++
        (trail ++ [32] ++ (List.replicate (r.dots + 1) 46 ++ (words.lead ++ (words.stars ++
          (words.word ++ (blanks (r.pad + 1) ++ (r.time.text ++ ([32] ++
            (bytes "sec" ++ [])))))))))))))))) := by
    rw [CTestResult.line, CTestResult.fromName, hsplit, words.text]
    simp only [List.append_assoc, List.cons_append, List.nil_append, List.append_nil]
    rfl
  have hspace : ∀ c ∈ (32 : UInt8) :: lead, isSpace c = true :=
    List.forall_mem_cons.2 ⟨rfl, hlead⟩
  have hbehind : ∀ c ∈ trail ++ [32], isSpace c = true := by
    intro c hc
    obtain hc | hc := List.mem_append.1 hc
    · exact htrail c hc
    · rw [List.mem_singleton.1 hc]
      rfl
  have hdots : ∀ c ∈ List.replicate (r.dots + 1) (46 : UInt8), isDot c = true := by
    intro c hc
    rw [List.eq_of_mem_replicate hc]
    rfl
  have hstars : ∀ c ∈ words.stars, isSpace c = false ∧ isDot c = false := by
    obtain h | h := words.starsOr
    · rw [h]
      exact List.forall_mem_nil _
    · rw [h]
      decide
  refine ⟨[bytes "Test", blanks (r.gap + 1), bytes "#", natDecimal r.number, bytes ":",
    32 :: lead, word, trail ++ [32], List.replicate (r.dots + 1) 46, words.lead, words.stars,
    words.word, blanks (r.pad + 1), r.time.text, [32], bytes "sec"], ?_, rfl, rfl⟩
  rw [hline, testLine]
  refine (search_skip (notMem_progress r count) _).trans (search_of_matchAt ?_)
  refine matchAt_cons (first_text 84 (bytes "est") _) ?_
  refine matchAt_cons (first_many (blanks_succ_ne_nil r.gap) (fun c => isSpace_of_mem_blanks)
    (stops_of_ne_nil (by decide) (by decide))) ?_
  refine matchAt_cons (first_partText (by decide) _) ?_
  refine matchAt_cons (first_many (natDecimal_ne_nil _) (fun c => isDigit_of_mem_natDecimal)
    (stops_of_ne_nil (by decide) (by decide))) ?_
  refine matchAt_cons (first_partText (by decide) _) ?_
  refine matchAt_cons (first_many (List.cons_ne_nil _ _) hspace (stops_of_ne_nil hword
    fun c hc => not_isSpace_of_isNotSpace (hnotSpace c hc))) ?_
  refine matchAt_cons (first_many hword hnotSpace (stops_of_ne_nil (by simp)
    fun c hc => isNotSpace_of_isSpace (hbehind c hc))) ?_
  refine matchAt_cons (first_many (by simp) hbehind (stops_of_ne_nil (List.cons_ne_nil _ _)
    fun c hc => (isNotSpace_of_isDot c (hdots c hc)).1)) ?_
  refine matchAt_cons (first_many (List.cons_ne_nil _ _) hdots (stops_append
    (fun c hc => (classes_of_isSpace c (words.leadSpace c hc)).1) (stops_append
      (fun c hc => (hstars c hc).2) (stops_of_ne_nil words.wordBytes.1
        fun c hc => (classes_of_isWordByte c (words.wordBytes.2 c hc)).2.1)))) ?_
  refine matchAt_cons (first_star words.leadSpace (stops_append
    (fun c hc => (hstars c hc).1) (stops_of_ne_nil words.wordBytes.1
      fun c hc => (classes_of_isWordByte c (words.wordBytes.2 c hc)).1))) ?_
  refine matchAt_cons (stars_first words.starsOr (stops_of_ne_nil words.wordBytes.1
    fun c hc => (classes_of_isWordByte c (words.wordBytes.2 c hc)).2.2)) ?_
  refine matchAt_cons (first_many words.wordBytes.1 words.wordBytes.2 (stops_of_ne_nil
    (blanks_succ_ne_nil _) fun c hc =>
      (classes_of_isSpace c (isSpace_of_mem_blanks hc)).2.1)) ?_
  refine matchAt_cons (first_many (blanks_succ_ne_nil _) (fun c => isSpace_of_mem_blanks)
    (stops_of_ne_nil r.time.text_ne_nil fun c hc =>
      not_isSpace_of_isNumeric c (r.time.isNumeric_text c hc))) ?_
  refine matchAt_cons (first_many r.time.text_ne_nil r.time.isNumeric_text
    (stops_of_ne_nil (by decide) (by decide))) ?_
  refine matchAt_cons (first_many (by decide) (by decide)
    (stops_of_ne_nil (by decide) (by decide))) ?_
  exact matchAt_cons (first_partText (by decide) _) rfl

/-! ## Lines that are not read -/

/-- What a match says of the text behind `#` and the number. -/
structure Reading (s : Bytes) where
  lead : Bytes
  word : Bytes
  behind : Bytes
  dots : Bytes
  space : Bytes
  stars : Bytes
  status : Bytes
  gap : Bytes
  time : Bytes
  gap' : Bytes
  rest : Bytes
  text : s = lead ++ (word ++ (behind ++ (dots ++ (space ++ (stars ++ (status ++ (gap ++ (time ++
    (gap' ++ (bytes "sec" ++ rest))))))))))
  leadSpace : lead ≠ [] ∧ ∀ c ∈ lead, isSpace c = true
  wordBytes : word ≠ [] ∧ ∀ c ∈ word, isNotSpace c = true
  behindSpace : behind ≠ [] ∧ ∀ c ∈ behind, isSpace c = true
  dotsOnly : dots ≠ [] ∧ ∀ c ∈ dots, isDot c = true
  spaceOnly : ∀ c ∈ space, isSpace c = true
  starsOnly : ∀ c ∈ stars, isStar c = true
  statusBytes : status ≠ [] ∧ ∀ c ∈ status, isWordByte c = true
  gapSpace : gap ≠ [] ∧ ∀ c ∈ gap, isSpace c = true
  timeBytes : time ≠ [] ∧ ∀ c ∈ time, isNumeric c = true
  gapSpace' : gap' ≠ [] ∧ ∀ c ∈ gap', isSpace c = true

theorem matches_star {p : UInt8 → Bool} {u : Bytes} (h : (Part.star p).Matches u) :
    ∀ c ∈ u, p c = true := by
  obtain rfl | h := h
  · exact List.forall_mem_nil _
  · exact h.2

/-- A match lies around a `#` and a number. -/
theorem reading_of_search {line : Bytes} {ps : List Bytes} (h : search testLine line = some ps) :
    ∃ a number s, line = a ++ 35 :: (number ++ 58 :: s) ∧
      (number ≠ [] ∧ ∀ c ∈ number, isDigit c = true) ∧ Nonempty (Reading s) := by
  obtain ⟨b, t, rfl, hall⟩ := search_spec h
  rw [testLine] at hall
  obtain _ | ⟨h0, _ | ⟨h1, _ | ⟨h2, _ | ⟨h3, _ | ⟨h4, _ | ⟨h5, _ | ⟨h6, _ | ⟨h7, _ | ⟨h8, _ | ⟨h9,
    _ | ⟨h10, _ | ⟨h11, _ | ⟨h12, _ | ⟨h13, _ | ⟨h14, _ | ⟨h15, _ | _⟩⟩⟩⟩⟩⟩⟩⟩⟩⟩⟩⟩⟩⟩⟩⟩ := hall
  rw [matches_partText (by decide) h2, matches_partText (by decide) h4,
    matches_partText (by decide) h15]
  rename_i u0 u1 u2 u3 u4 u5 u6 u7 u8 u9 u10 u11 u12 u13 u14 u15
  have hstars : ∀ c ∈ u10, isStar c = true := by
    obtain rfl | h10 := h10
    · exact List.forall_mem_nil _
    · rw [Regex.matches_text h10]
      decide
  refine ⟨b ++ (u0 ++ u1), u3, u5 ++ (u6 ++ (u7 ++ (u8 ++ (u9 ++ (u10 ++ (u11 ++ (u12 ++ (u13 ++
    (u14 ++ (bytes "sec" ++ t)))))))))), ?_, h3, ⟨u5, u6, u7, u8, u9, u10, u11, u12, u13, u14, t,
      rfl, h5, h6, h7, h8, matches_star h9, hstars, h11, h12, h13, h14⟩⟩
  simp only [List.flatten_cons, List.flatten_nil, List.append_assoc, List.append_nil]
  rfl

theorem append_cons_inj {x : UInt8} {a b c d : Bytes} (ha : x ∉ a) (hb : x ∉ b)
    (h : a ++ x :: b = c ++ x :: d) : a = c ∧ b = d := by
  obtain ⟨e, rfl, he⟩ | ⟨e, rfl, he⟩ := List.append_eq_append_iff.1 h
  · cases e with
    | nil =>
        rw [List.append_nil]
        exact ⟨rfl, (List.cons.inj he).2⟩
    | cons y e =>
        rw [List.cons_append] at he
        obtain ⟨rfl, rfl⟩ := List.cons.inj he
        exact absurd (List.mem_append_right _ List.mem_cons_self) hb
  · cases e with
    | nil =>
        rw [List.append_nil]
        exact ⟨rfl, (List.cons.inj he).2.symm⟩
    | cons y e =>
        rw [List.cons_append] at he
        obtain ⟨rfl, -⟩ := List.cons.inj he
        exact absurd (List.mem_append_right _ List.mem_cons_self) ha

/-! What stands behind the dots of a line. -/

theorem outcome_text {o : Outcome} (h : o.Printed) :
    (35 : UInt8) ∉ o.text ∧ (46 : UInt8) ∉ o.text ∧ (10 : UInt8) ∉ o.text := by
  cases o with
  | crashed exception =>
      have hplain : ∀ x, x = 35 ∨ x = 46 ∨ x = 10 → x ∉ bytes "***Exception: " ++ exception := by
        intro x hx hmem
        obtain hmem | hmem := List.mem_append.1 hmem
        · obtain rfl | rfl | rfl := hx <;> exact absurd hmem (by decide)
        · have hletter := h x hmem
          obtain rfl | rfl | rfl := hx <;> exact absurd hletter (by decide)
      exact ⟨hplain 35 (by simp), hplain 46 (by simp), hplain 10 (by simp)⟩
  | passed => decide
  | failed => decide
  | timedOut => decide
  | notRun => decide
  | skipped => decide

theorem outcome_text_head (o : Outcome) : ∃ c s, o.text = c :: s ∧ (c = 32 ∨ c = 42) := by
  cases o with
  | passed => exact ⟨32, _, rfl, Or.inl rfl⟩
  | crashed exception => exact ⟨42, _, rfl, Or.inr rfl⟩
  | failed => exact ⟨42, _, rfl, Or.inr rfl⟩
  | timedOut => exact ⟨42, _, rfl, Or.inr rfl⟩
  | notRun => exact ⟨42, _, rfl, Or.inr rfl⟩
  | skipped => exact ⟨42, _, rfl, Or.inr rfl⟩

def behindDots (r : CTestResult) : Bytes :=
  r.outcome.text ++ (blanks (r.pad + 1) ++ (r.time.text ++ bytes " sec"))

theorem fromName_eq (r : CTestResult) :
    r.fromName = r.name ++ 32 :: (List.replicate (r.dots + 1) 46 ++ behindDots r) := rfl

theorem stops_behindDots (r : CTestResult) {p : UInt8 → Bool} (hblank : p 32 = false)
    (hstar : p 42 = false) : Stops p (behindDots r) := by
  obtain ⟨c, s, hs, hc⟩ := outcome_text_head r.outcome
  rw [behindDots, hs, List.cons_append]
  refine stops_cons ?_
  obtain rfl | rfl := hc
  · exact hblank
  · exact hstar

theorem notMem_digits {x : UInt8} (hx : isDigit x = false) {u : Bytes}
    (hu : ∀ c ∈ u, isDigit c = true) : x ∉ u := by
  intro h
  rw [hu x h] at hx
  cases hx

/-- Behind white space there is no dot. -/
theorem no_dot_behind_space {r : CTestResult} {a y : Bytes} {x : UInt8}
    (h : List.replicate (r.dots + 1) 46 ++ behindDots r = a ++ x :: 46 :: y) :
    isSpace x = false := by
  by_contra hx
  rw [Bool.not_eq_false] at hx
  have hdots : ∀ c ∈ List.replicate (r.dots + 1) (46 : UInt8), isDot c = true := by
    intro c hc
    rw [List.eq_of_mem_replicate hc]
    rfl
  obtain ⟨a', -, hrest⟩ := run_before hdots (classes_of_isSpace x hx).1 h.symm
  have hfront : (46 : UInt8) ∉ r.outcome.text ++ (blanks (r.pad + 1) ++ r.time.whole) := by
    rw [List.mem_append, List.mem_append]
    rintro (hmem | hmem | hmem)
    · exact (outcome_text r.printed).2.1 hmem
    · exact absurd (List.eq_of_mem_replicate hmem) (by decide)
    · exact notMem_digits (by decide) r.time.wholeDigits.2 hmem
  have hback : (46 : UInt8) ∉ r.time.fraction ++ bytes " sec" := by
    rw [List.mem_append]
    rintro (hmem | hmem)
    · exact notMem_digits (by decide) r.time.fractionDigits.2 hmem
    · revert hmem
      decide
  have hline : (r.outcome.text ++ (blanks (r.pad + 1) ++ r.time.whole)) ++
      46 :: (r.time.fraction ++ bytes " sec") = (a' ++ [x]) ++ 46 :: y := by
    rw [List.append_assoc a', List.singleton_append, hrest, behindDots, Seconds.text]
    simp only [List.append_assoc, List.cons_append]
  obtain ⟨hends, -⟩ := append_cons_inj hfront hback hline
  have hlast := congrArg List.getLast? hends
  rw [← List.append_assoc, List.getLast?_append_of_ne_nil _ r.time.wholeDigits.1,
    List.getLast?_concat] at hlast
  have hdigit := r.time.wholeDigits.2 x (List.mem_of_getLast? hlast)
  rw [not_isDigit_of_isSpace hx] at hdigit
  cases hdigit

/-- A name in which a match cannot end. -/
def Innocent (name : Bytes) : Prop := (35 : UInt8) ∉ name ∧ ¬ bytes "sec" <:+: name

theorem behindDots_ne_sec {r : CTestResult} {gap rest : Bytes} (hne : gap ≠ [])
    (hgap : ∀ c ∈ gap, isSpace c = true) : gap ++ (bytes "sec" ++ rest) ≠ behindDots r := by
  intro h
  rw [behindDots] at h
  cases ho : r.outcome with
  | passed =>
      have htext : r.outcome.text = blanks 3 ++ bytes "Passed" := by rw [ho]; rfl
      rw [htext, List.append_assoc] at h
      have hrest := (run_inj hgap (fun c => isSpace_of_mem_blanks)
        (stops_of_ne_nil (by decide) (by decide)) (stops_of_ne_nil (by decide) (by decide)) h).2
      have hhead : some (115 : UInt8) = some 80 := congrArg List.head? hrest
      revert hhead
      decide
  | _ =>
      obtain ⟨c, gap, rfl⟩ := List.exists_cons_of_ne_nil hne
      rw [ho] at h
      have hc : c = 42 := (List.cons.inj h).1
      have hspace := hgap c List.mem_cons_self
      rw [hc] at hspace
      cases hspace

theorem stops_status {s : Bytes} (d : Reading s) (v : Bytes) :
    Stops isDot (d.stars ++ (d.status ++ v)) := by
  refine stops_append ?_ (stops_of_ne_nil d.statusBytes.1 fun x hx =>
    (classes_of_isWordByte x (d.statusBytes.2 x hx)).2.1)
  intro x hx
  rw [of_decide_eq_true (d.starsOnly x hx)]
  rfl

/-- What a match takes from the dots on cannot begin in the name. -/
theorem not_from_name {r : CTestResult} (hname : Innocent r.name) {s c : Bytes}
    (d : Reading s) (hc : c <:+ r.name) (h : c ++ 32 :: (List.replicate (r.dots + 1) 46 ++
      behindDots r) = d.dots ++ (d.space ++ (d.stars ++ (d.status ++ (d.gap ++ (d.time ++
        (d.gap' ++ (bytes "sec" ++ d.rest)))))))) : False := by
  have hstop : Stops isSpace (List.replicate (r.dots + 1) 46 ++ behindDots r) := stops_cons rfl
  obtain ⟨c1, rfl, h1⟩ := run_before d.dotsOnly.2 (by decide) h
  obtain ⟨c2, rfl, h2⟩ | h2 := run_before_or d.spaceOnly hstop h1
  swap
  · -- the status would begin with a dot
    have hdot := stops_status d _ 46 (by rw [h2]; rfl)
    cases hdot
  obtain ⟨c3, rfl, h3⟩ := run_before d.starsOnly (by decide) h2
  obtain ⟨c4, rfl, h4⟩ := run_before d.statusBytes.2 (by decide) h3
  obtain ⟨c5, rfl, h5⟩ | h5 := run_before_or d.gapSpace.2 hstop h4
  swap
  · -- the dots would be the time
    have hdots : ∀ x ∈ List.replicate (r.dots + 1) (46 : UInt8), isNumeric x = true := by
      intro x hx
      rw [List.eq_of_mem_replicate hx]
      rfl
    have hgap := (run_inj d.timeBytes.2 hdots (stops_of_ne_nil d.gapSpace'.1 fun x hx =>
      (classes_of_isSpace x (d.gapSpace'.2 x hx)).2.2) (stops_behindDots r rfl rfl) h5).2
    exact behindDots_ne_sec d.gapSpace'.1 d.gapSpace'.2 hgap
  obtain ⟨c6, rfl, h6⟩ := run_before d.timeBytes.2 (by decide) h5
  obtain ⟨c7, rfl, h7⟩ | h7 := run_before_or d.gapSpace'.2 hstop h6
  swap
  · have hhead : some (115 : UInt8) = some 46 := congrArg List.head? h7
    revert hhead
    decide
  have hsec : ∀ x ∈ bytes "sec", decide (x ≠ 32) = true := by decide
  obtain ⟨c8, rfl, -⟩ := run_before hsec (by decide) h7
  refine hname.2 (List.IsInfix.trans ⟨d.dots ++ (d.space ++ (d.stars ++ (d.status ++ (d.gap ++
    (d.time ++ d.gap'))))), c8, ?_⟩ hc.isInfix)
  simp only [List.append_assoc]

/-- So it begins with the dots of the line. -/
theorem reading_front {r : CTestResult} (hname : Innocent r.name)
    (d : Reading (32 :: r.fromName)) :
    d.lead ++ (d.word ++ d.behind) = 32 :: r.name ++ [32] := by
  have htext : (d.lead ++ (d.word ++ d.behind)) ++ (d.dots ++ (d.space ++ (d.stars ++ (d.status ++
      (d.gap ++ (d.time ++ (d.gap' ++ (bytes "sec" ++ d.rest)))))))) =
      (32 :: r.name ++ [32]) ++ (List.replicate (r.dots + 1) 46 ++ behindDots r) := by
    have := d.text
    simp only [List.append_assoc, List.cons_append, List.nil_append] at this ⊢
    rw [← this, fromName_eq]
  obtain ⟨lead, hlead⟩ : ∃ lead, d.lead = 32 :: lead := by
    obtain ⟨x, lead, hlead⟩ := List.exists_cons_of_ne_nil d.leadSpace.1
    have hx := d.text
    rw [hlead, List.cons_append] at hx
    exact ⟨lead, by rw [hlead, (List.cons.inj hx).1]⟩
  obtain ⟨e, hfront, hrest⟩ | ⟨e, hfront, hrest⟩ := List.append_eq_append_iff.1 htext
  · obtain rfl | ⟨c, x, rfl⟩ := List.eq_nil_or_concat e
    · rw [List.append_nil] at hfront
      exact hfront.symm
    · -- the name would go on with the dots of the match
      rw [List.concat_eq_append, ← List.append_assoc, hlead, List.cons_append, List.cons_append]
        at hfront
      obtain ⟨hsplit, hx⟩ := List.append_inj' (List.cons.inj hfront).2 rfl
      obtain rfl : 32 = x := (List.cons.inj hx).1
      refine (not_from_name hname d ⟨_, hsplit.symm⟩ ?_).elim
      rw [hrest, List.concat_eq_append, List.append_assoc, List.singleton_append]
  · obtain rfl | ⟨c, x, rfl⟩ := List.eq_nil_or_concat e
    · rw [List.append_nil] at hfront
      exact hfront
    · -- the dots of the match would stand behind white space in the dots of the line
      obtain ⟨y, dots, hdots⟩ := List.exists_cons_of_ne_nil d.dotsOnly.1
      obtain rfl : y = 46 :=
        of_decide_eq_true (d.dotsOnly.2 y (by rw [hdots]; exact List.mem_cons_self))
      rw [hdots, List.concat_eq_append, List.append_assoc, List.singleton_append,
        List.cons_append] at hrest
      have hx := no_dot_behind_space hrest
      have hlast := congrArg List.getLast? hfront
      rw [← List.append_assoc, List.getLast?_append_of_ne_nil _ d.behindSpace.1,
        List.concat_eq_append, ← List.append_assoc, List.getLast?_concat] at hlast
      rw [d.behindSpace.2 x (List.mem_of_getLast? hlast)] at hx
      cases hx

/-- The name is one word, and the match goes on with what stands behind the dots. -/
theorem reading_fromName {r : CTestResult} (hname : Innocent r.name)
    (d : Reading (32 :: r.fromName)) : OneWord r.name ∧
      d.space ++ (d.stars ++ (d.status ++ (d.gap ++ (d.time ++ (d.gap' ++ (bytes "sec" ++
        d.rest)))))) = behindDots r := by
  have hfront := reading_front hname d
  have hdots : ∀ x ∈ List.replicate (r.dots + 1) (46 : UInt8), isDot x = true := by
    intro x hx
    rw [List.eq_of_mem_replicate hx]
    rfl
  constructor
  · obtain ⟨x, lead, hlead⟩ := List.exists_cons_of_ne_nil d.leadSpace.1
    obtain h | ⟨trail, y, htrail⟩ := List.eq_nil_or_concat d.behind
    · exact absurd h d.behindSpace.1
    · rw [List.concat_eq_append] at htrail
      have hleadSpace := d.leadSpace.2
      have hbehindSpace := d.behindSpace.2
      rw [hlead] at hfront hleadSpace
      rw [htrail] at hfront hbehindSpace
      rw [← List.append_assoc d.word, ← List.append_assoc, List.cons_append,
        List.cons_append] at hfront
      have hname := (List.append_inj' (List.cons.inj hfront).2 rfl).1
      exact ⟨lead, d.word, trail, hname.symm, (List.forall_mem_cons.1 hleadSpace).2,
        d.wordBytes.1, d.wordBytes.2, fun c hc => hbehindSpace c (List.mem_append_left _ hc)⟩
  · have htext : (32 :: r.name ++ [32]) ++ (List.replicate (r.dots + 1) 46 ++ behindDots r) =
        (32 :: r.name ++ [32]) ++ (d.dots ++ (d.space ++ (d.stars ++ (d.status ++ (d.gap ++
          (d.time ++ (d.gap' ++ (bytes "sec" ++ d.rest)))))))) := by
      calc (32 :: r.name ++ [32]) ++ (List.replicate (r.dots + 1) 46 ++ behindDots r)
        _ = 32 :: r.fromName := by
            rw [fromName_eq, List.append_assoc, List.cons_append, List.singleton_append]
        _ = (d.lead ++ (d.word ++ d.behind)) ++ _ := by
            rw [List.append_assoc, List.append_assoc]
            exact d.text
        _ = _ := by rw [hfront]
    refine (run_inj hdots d.dotsOnly.2 (stops_behindDots r rfl rfl) (stops_append
      (fun x hx => (classes_of_isSpace x (d.spaceOnly x hx)).1) (stops_status d _))
        (List.append_cancel_left htext)).2.symm

/-- An outcome in two words is not read either. -/
theorem behindDots_ne_of_unread {r : CTestResult} {s : Bytes} (d : Reading s)
    (ho : r.outcome = .notRun ∨ ∃ exception, r.outcome = .crashed exception) :
    d.space ++ (d.stars ++ (d.status ++ (d.gap ++ (d.time ++ (d.gap' ++ (bytes "sec" ++
      d.rest)))))) ≠ behindDots r := by
  intro h
  obtain ⟨word, v, htext, hword, hv⟩ : ∃ word v, behindDots r = [] ++ (bytes "***" ++
      (word ++ v)) ∧ (word ≠ [] ∧ ∀ c ∈ word, isWordByte c = true) ∧
      (v.head? = some 58 ∨ ∃ w, v = [32] ++ 82 :: w) := by
    obtain ho | ⟨exception, ho⟩ := ho
    · exact ⟨bytes "Not", bytes " Run" ++ _, by rw [behindDots, ho]; rfl, by decide,
        Or.inr ⟨_, rfl⟩⟩
    · exact ⟨bytes "Exception", bytes ": " ++ exception ++ _, by
        rw [behindDots, ho, Outcome.text]
        simp only [List.append_assoc]
        rfl, by decide, Or.inl rfl⟩
  have hstars : ∀ c ∈ d.stars, isSpace c = false := by
    intro c hc
    rw [of_decide_eq_true (d.starsOnly c hc)]
    rfl
  have hstatus : ∀ c ∈ d.status, isSpace c = false ∧ isDot c = false ∧ isStar c = false :=
    fun c hc => classes_of_isWordByte c (d.statusBytes.2 c hc)
  have hgap : ∀ c ∈ d.gap, isDot c = false ∧ isWordByte c = false ∧ isNumeric c = false :=
    fun c hc => classes_of_isSpace c (d.gapSpace.2 c hc)
  rw [htext] at h
  obtain ⟨-, h⟩ := run_inj d.spaceOnly (List.forall_mem_nil _) (stops_append hstars
    (stops_of_ne_nil d.statusBytes.1 fun c hc => (hstatus c hc).1)) (stops_cons rfl) h
  have hthree : ∀ c ∈ bytes "***", isStar c = true := by decide
  obtain ⟨-, h⟩ := run_inj d.starsOnly hthree (stops_of_ne_nil d.statusBytes.1
    fun c hc => (hstatus c hc).2.2) (stops_of_ne_nil hword.1 fun c hc =>
      (classes_of_isWordByte c (hword.2 c hc)).2.2) h
  have hstop : Stops isWordByte v := by
    intro c hc
    obtain hv | ⟨w, rfl⟩ := hv
    · rw [hv] at hc
      rw [← Option.some.inj hc]
      rfl
    · rw [← Option.some.inj hc]
      rfl
  obtain ⟨-, h⟩ := run_inj d.statusBytes.2 hword.2 (stops_of_ne_nil d.gapSpace.1
    fun c hc => (hgap c hc).2.1) hstop h
  obtain ⟨x, gap, hx⟩ := List.exists_cons_of_ne_nil d.gapSpace.1
  obtain hv | ⟨w, rfl⟩ := hv
  · rw [← h, hx, List.cons_append, List.head?_cons] at hv
    have hspace := d.gapSpace.2 x (by rw [hx]; exact List.mem_cons_self)
    rw [Option.some.inj hv] at hspace
    cases hspace
  · obtain ⟨-, h⟩ := run_inj d.gapSpace.2 (by decide) (stops_of_ne_nil d.timeBytes.1
      fun c hc => not_isSpace_of_isNumeric c (d.timeBytes.2 c hc)) (stops_cons rfl) h
    obtain ⟨y, time, hy⟩ := List.exists_cons_of_ne_nil d.timeBytes.1
    rw [hy, List.cons_append] at h
    have hnumeric := d.timeBytes.2 y (by rw [hy]; exact List.mem_cons_self)
    rw [(List.cons.inj h).1] at hnumeric
    cases hnumeric

/-- A character that CTest puts into no line: the line break, and `#` but for the one in front
of the number. -/
abbrev Foreign (x : UInt8) : Prop := x = 10 ∨ x = 35

theorem Foreign.notMem_digits {x : UInt8} (hx : Foreign x) (n : Nat) : x ∉ natDecimal n := by
  intro h
  have hdigit := isDigit_of_mem_natDecimal h
  obtain rfl | rfl := hx <;> cases hdigit

theorem Foreign.notMem_replicate {x c : UInt8} (hx : Foreign x) (hc : ¬ Foreign c) (n : Nat) :
    x ∉ List.replicate n c := by
  intro h
  rw [List.eq_of_mem_replicate h] at hx
  exact hc hx

theorem Foreign.notMem {x : UInt8} (hx : Foreign x) {u : Bytes}
    (hu : (10 : UInt8) ∉ u ∧ (35 : UInt8) ∉ u) : x ∉ u := by
  obtain rfl | rfl := hx
  · exact hu.1
  · exact hu.2

theorem Foreign.notMem_front {x : UInt8} (hx : Foreign x) (r : CTestResult) (count : Nat) :
    x ∉ r.progress count ++ (bytes "Test" ++ blanks (r.gap + 1)) := by
  have hblank := hx.notMem_replicate (by decide : ¬ Foreign 32)
  rw [CTestResult.progress, List.mem_append, List.mem_append, List.mem_append, List.mem_append,
    List.mem_append, List.mem_cons]
  rintro ((((h | h) | h | h) | h) | h | h)
  · exact hblank _ h
  · exact hx.notMem_digits _ h
  · exact hx.notMem (u := [47]) (by decide) (List.mem_singleton.2 h)
  · exact hx.notMem_digits _ h
  · exact hx.notMem (by decide) h
  · exact hx.notMem (by decide) h
  · exact hblank _ h

theorem Foreign.notMem_fromName {x : UInt8} (hx : Foreign x) {r : CTestResult}
    (hname : x ∉ r.name) : x ∉ r.fromName := by
  have hblank := hx.notMem_replicate (by decide : ¬ Foreign 32)
  rw [CTestResult.fromName, List.mem_append, List.mem_cons, List.mem_append, List.mem_append,
    List.mem_append, List.mem_append]
  rintro (h | h | h | h | h | h | h)
  · exact hname h
  · exact hx.notMem (u := [32]) (by decide) (List.mem_singleton.2 h)
  · exact hx.notMem_replicate (by decide) _ h
  · exact hx.notMem ⟨(outcome_text r.printed).2.2, (outcome_text r.printed).1⟩ h
  · exact hblank _ h
  · have hnumeric := r.time.isNumeric_text x h
    obtain rfl | rfl := hx <;> cases hnumeric
  · exact hx.notMem (by decide) h

theorem line_eq (r : CTestResult) (count : Nat) :
    r.line count = (r.progress count ++ (bytes "Test" ++ blanks (r.gap + 1))) ++
      35 :: (natDecimal r.number ++ 58 :: 32 :: r.fromName) := by
  rw [CTestResult.line]
  simp only [List.append_assoc]
  rfl

theorem Foreign.notMem_number {x : UInt8} (hx : Foreign x) {r : CTestResult}
    (hname : x ∉ r.name) : x ∉ natDecimal r.number ++ 58 :: 32 :: r.fromName := by
  rw [List.mem_append, List.mem_cons, List.mem_cons]
  rintro (h | h | h | h)
  · exact hx.notMem_digits _ h
  · exact hx.notMem (u := [58]) (by decide) (List.mem_singleton.2 h)
  · exact hx.notMem (u := [32]) (by decide) (List.mem_singleton.2 h)
  · exact hx.notMem_fromName hname h

theorem lineBreak_notMem (r : CTestResult) (count : Nat) : (10 : UInt8) ∉ r.line count := by
  have hx : Foreign 10 := Or.inl rfl
  rw [line_eq, List.mem_append, List.mem_cons]
  rintro (h | h | h)
  · exact hx.notMem_front r count h
  · cases h
  · exact hx.notMem_number r.oneLine h

theorem search_eq_none {r : CTestResult} (count : Nat) (hname : Innocent r.name)
    (h : ¬ OneWord r.name ∨ r.outcome = .notRun ∨ ∃ exception, r.outcome = .crashed exception) :
    search testLine (r.line count) = none := by
  rw [Option.eq_none_iff_forall_ne_some]
  intro ps hps
  obtain ⟨a, number, s, htext, hnumber, ⟨d⟩⟩ := reading_of_search hps
  have hx : Foreign 35 := Or.inr rfl
  rw [line_eq] at htext
  obtain ⟨-, hnumbers⟩ := append_cons_inj (hx.notMem_front r count)
    (hx.notMem_number hname.1) htext
  obtain ⟨-, hs⟩ := run_inj (fun c => isDigit_of_mem_natDecimal) hnumber.2 (stops_cons rfl)
    (stops_cons rfl) hnumbers
  obtain rfl := (List.cons.inj hs).2
  obtain ⟨hone, hbehind⟩ := reading_fromName hname d
  obtain h | h := h
  · exact h hone
  · exact behindDots_ne_of_unread d h hbehind

end GTestAdapter

end Nazg.Testsuite
