import Mathlib.Data.List.DropRight
import Mathlib.Data.List.Induction
import Nazg.Tui.Render

/-!
# Every read adds the whole buffer

The lines of the buffer are added to the scrollback at every read, those that were added
before included. So the scrollback is right after one read, and again when the last buffer
alone fills it with whole lines; while there is room for all lines it is wrong after the
second read.
-/

namespace Nazg.Tui.Pane

open Lib

/-- The bytes that were read. -/
def output (reads : List Chunk) : Bytes := (reads.map Chunk.data).flatten

/-- The last lines of the output, as many as the scrollback takes. -/
def lastLines (text : Bytes) : List Bytes := (linesOf text).rtake maxScrollbackLines

/-- What is promised of a new pane after these reads. -/
def ScrollbackRight (reads : List Chunk) : Prop :=
  (update {} reads).scrollback = lastLines (output reads)

/-- The buffer after some reads. -/
def bufferAfter (buffer : Bytes) (reads : List Chunk) : Bytes :=
  reads.foldl (fun buffer chunk => keepManageable (buffer ++ chunk.data)) buffer

/-- The last lines of the output lie in the buffer whole, and fill the scrollback. -/
def FilledBy (text buffer : Bytes) : Prop :=
  ∃ before rest, text = before ++ rest ∧ (before = [] ∨ before.getLast? = some 10) ∧
    rest <:+ buffer ∧ maxScrollbackLines ≤ (linesOf rest).length

/-! ## The last entries of a list -/

variable {α : Type*}

theorem rtake_append_of_le {n : Nat} (l : List α) {l' : List α} (h : n ≤ l'.length) :
    (l ++ l').rtake n = l'.rtake n := by
  rw [List.rtake, List.rtake, List.length_append, List.drop_append,
    List.drop_of_length_le (by omega), List.nil_append]
  exact congrArg (fun k => l'.drop k) (by omega)

theorem exists_last {l : List α} (h : l ≠ []) : ∃ front last, l = front ++ [last] :=
  ⟨l.dropLast, l.getLast h, (List.dropLast_concat_getLast h).symm⟩

theorem rtake_of_length_le {n : Nat} {l : List α} (h : l.length ≤ n) : l.rtake n = l := by
  rw [List.rtake, Nat.sub_eq_zero_of_le h, List.drop_zero]

theorem length_rtake (n : Nat) (l : List α) : (l.rtake n).length = min n l.length := by
  rw [List.rtake, List.length_drop]
  omega

theorem rtake_rtake_append (n : Nat) (l l' : List α) :
    (l.rtake n ++ l').rtake n = (l ++ l').rtake n := by
  by_cases h : n ≤ l.length
  · have hsplit : l = l.take (l.length - n) ++ l.rtake n := (List.take_append_drop _ l).symm
    have hlength : n ≤ (l.rtake n ++ l').length := by
      rw [List.length_append, length_rtake]
      omega
    have hstep := rtake_append_of_le (l.take (l.length - n)) hlength
    rw [← List.append_assoc, ← hsplit] at hstep
    exact hstep.symm
  · rw [rtake_of_length_le (by omega : l.length ≤ n)]

/-! ## The scrollback is what all buffers add up to -/

/-- The buffers after each read. -/
def buffers (buffer : Bytes) : List Chunk → List Bytes
  | [] => []
  | chunk :: reads =>
      keepManageable (buffer ++ chunk.data) :: buffers (keepManageable (buffer ++ chunk.data)) reads

theorem suffix_keepManageable (buffer : Bytes) : keepManageable buffer <:+ buffer := by
  rw [keepManageable]
  split
  · exact List.drop_suffix _ _
  · exact List.suffix_refl _

/-- A read fits into what is kept. -/
theorem chunk_suffix_keepManageable (buffer : Bytes) (chunk : Chunk) :
    chunk.data <:+ keepManageable (buffer ++ chunk.data) := by
  have hlength := chunk.length_le
  rw [keepManageable]
  split
  · next hlarge =>
      simp only [maxBufferSize, List.length_append] at hlarge ⊢
      rw [List.drop_append_of_le_length (by omega)]
      exact List.suffix_append _ _
  · exact List.suffix_append _ _

theorem keepManageable_ne_nil (buffer : Bytes) (chunk : Chunk) :
    keepManageable (buffer ++ chunk.data) ≠ [] := by
  intro h
  have hsuffix := chunk_suffix_keepManageable buffer chunk
  rw [h, List.suffix_nil] at hsuffix
  exact chunk.ne_nil hsuffix

theorem processOutput_scrollback (p : Pane) (chunk : Chunk) :
    (p.processOutput chunk.data).scrollback =
      (p.scrollback ++ linesOf (keepManageable (p.buffer ++ chunk.data))).rtake
        maxScrollbackLines := by
  have hlines : linesOf (keepManageable (p.buffer ++ chunk.data)) ≠ [] :=
    getFields_ne_nil (keepManageable_ne_nil p.buffer chunk)
  rw [processOutput, updateScrollback]
  dsimp only
  rw [if_neg hlines]
  dsimp only
  split
  · rfl
  · next hsmall => rw [rtake_of_length_le (by omega)]

theorem processOutput_buffer (p : Pane) (data : Bytes) :
    (p.processOutput data).buffer = keepManageable (p.buffer ++ data) := by
  rw [processOutput, updateScrollback]
  dsimp only
  split <;> rfl

theorem update_scrollback (reads : List Chunk) {p : Pane}
    (hp : p.scrollback.length ≤ maxScrollbackLines) :
    (p.update reads).scrollback =
      (p.scrollback ++ (buffers p.buffer reads).flatMap linesOf).rtake maxScrollbackLines := by
  induction reads generalizing p with
  | nil =>
      rw [buffers, List.flatMap_nil, List.append_nil, rtake_of_length_le hp]
      rfl
  | cons chunk reads ih =>
      have hscrollback := processOutput_scrollback p chunk
      have hlength : (p.processOutput chunk.data).scrollback.length ≤ maxScrollbackLines := by
        rw [hscrollback, length_rtake]
        omega
      rw [update, List.foldl_cons]
      refine (ih hlength).trans ?_
      rw [hscrollback, rtake_rtake_append, processOutput_buffer, buffers, List.flatMap_cons,
        List.append_assoc]

theorem update_new (reads : List Chunk) :
    (update {} reads).scrollback =
      ((buffers [] reads).flatMap linesOf).rtake maxScrollbackLines := by
  rw [update_scrollback reads (Nat.zero_le _)]
  rfl

/-! ## When it is right -/

theorem output_cons (chunk : Chunk) (reads : List Chunk) :
    output (chunk :: reads) = chunk.data ++ output reads := rfl

theorem bufferAfter_cons (buffer : Bytes) (chunk : Chunk) (reads : List Chunk) :
    bufferAfter buffer (chunk :: reads) =
      bufferAfter (keepManageable (buffer ++ chunk.data)) reads := rfl

theorem bufferAfter_suffix (buffer : Bytes) (reads : List Chunk) :
    bufferAfter buffer reads <:+ buffer ++ output reads := by
  induction reads generalizing buffer with
  | nil =>
      rw [output, List.map_nil, List.flatten_nil, List.append_nil]
      exact List.suffix_refl _
  | cons chunk reads ih =>
      rw [bufferAfter_cons, output_cons, ← List.append_assoc]
      obtain ⟨dropped, hdropped⟩ := suffix_keepManageable (buffer ++ chunk.data)
      refine (ih (keepManageable (buffer ++ chunk.data))).trans ⟨dropped, ?_⟩
      rw [← List.append_assoc, hdropped]

theorem buffers_append_singleton (buffer : Bytes) (front : List Chunk) (last : Chunk) :
    buffers buffer (front ++ [last]) =
      buffers buffer front ++ [bufferAfter buffer (front ++ [last])] := by
  induction front generalizing buffer with
  | nil => rfl
  | cons chunk front ih =>
      rw [List.cons_append, buffers, buffers, ih, bufferAfter_cons, List.cons_append]

/-- The last of the buffers adds its lines behind those of the others. -/
theorem buffers_flatMap (buffer : Bytes) (front : List Chunk) (last : Chunk) :
    (buffers buffer (front ++ [last])).flatMap linesOf =
      (buffers buffer front).flatMap linesOf ++ linesOf (bufferAfter buffer (front ++ [last])) := by
  rw [buffers_append_singleton, List.flatMap_append]
  simp

theorem right_of_filled {reads : List Chunk}
    (h : FilledBy (output reads) (bufferAfter [] reads)) : ScrollbackRight reads := by
  obtain ⟨before, rest, htext, hbefore, ⟨kept, hkept⟩, hcount⟩ := h
  have hreads : reads ≠ [] := by
    rintro rfl
    have hnil : rest = [] := (List.append_eq_nil_iff.1 htext.symm).2
    rw [hnil] at hcount
    exact absurd hcount (by decide)
  obtain ⟨front, last, hfront⟩ := exists_last hreads
  -- What is kept before the last lines ends where a line ends.
  have hend : kept = [] ∨ kept.getLast? = some 10 := by
    obtain ⟨dropped, hdropped⟩ := bufferAfter_suffix [] reads
    rw [List.nil_append, htext, ← hkept, ← List.append_assoc] at hdropped
    have hsame : dropped ++ kept = before := List.append_cancel_right hdropped
    cases kept with
    | nil => exact .inl rfl
    | cons c kept =>
        refine .inr ?_
        rw [← hsame] at hbefore
        rcases hbefore with hnil | hlast
        · exact absurd (List.append_eq_nil_iff.1 hnil).2 (List.cons_ne_nil c kept)
        · rwa [List.getLast?_append_of_ne_nil _ (List.cons_ne_nil c kept)] at hlast
  have hlines : linesOf (bufferAfter [] reads) = linesOf kept ++ linesOf rest := by
    rw [← hkept]
    exact getFields_append_of_end hend rest
  have houtput : linesOf (output reads) = linesOf before ++ linesOf rest := by
    rw [htext]
    exact getFields_append_of_end hbefore rest
  have hbuffers := buffers_flatMap [] front last
  rw [← hfront, hlines, ← List.append_assoc] at hbuffers
  rw [ScrollbackRight, update_new, hbuffers, rtake_append_of_le _ hcount, lastLines, houtput,
    rtake_append_of_le _ hcount]

theorem right_of_one_read {reads : List Chunk} (h : reads.length ≤ 1) : ScrollbackRight reads := by
  cases reads with
  | nil => rfl
  | cons chunk reads =>
      have hnil : reads = [] := by
        rw [List.length_cons] at h
        exact List.eq_nil_of_length_eq_zero (by omega)
      subst hnil
      have hsmall : keepManageable chunk.data = chunk.data := by
        have hlength := chunk.length_le
        rw [keepManageable, if_neg (by rw [maxBufferSize]; omega)]
      rw [ScrollbackRight, update_new, lastLines]
      simp [buffers, output, hsmall]

/-! ## When it is not -/

/-- The buffers have at least as many lines as what was read. -/
theorem length_linesOf_le (text buffer : Bytes) (reads : List Chunk) :
    (linesOf (text ++ output reads)).length ≤
      (linesOf text).length + ((buffers buffer reads).flatMap linesOf).length := by
  induction reads generalizing text buffer with
  | nil => simp [output]
  | cons chunk reads ih =>
      have hrest := ih (text ++ chunk.data) (keepManageable (buffer ++ chunk.data))
      have hfirst := length_getFields_append_le 10 text chunk.data
      obtain ⟨kept, hkept⟩ := chunk_suffix_keepManageable buffer chunk
      have hchunk := length_getFields_le_append 10 kept chunk.data
      rw [hkept] at hchunk
      rw [output_cons, ← List.append_assoc, buffers, List.flatMap_cons, List.length_append]
      simp only [linesOf] at hrest ⊢
      omega

theorem length_lt_of_two_reads {reads : List Chunk} (h : 2 ≤ reads.length) :
    (linesOf (output reads)).length < ((buffers [] reads).flatMap linesOf).length := by
  cases reads with
  | nil => simp at h
  | cons first reads =>
      cases reads with
      | nil => simp at h
      | cons second reads =>
          have hfirst := first.length_le
          have hsecond := second.length_le
          have hkept : keepManageable first.data = first.data := by
            rw [keepManageable, if_neg (by rw [maxBufferSize]; omega)]
          have hkept' : keepManageable (first.data ++ second.data) = first.data ++ second.data := by
            rw [keepManageable, if_neg (by rw [maxBufferSize, List.length_append]; omega)]
          have hrest := length_linesOf_le (first.data ++ second.data)
            (first.data ++ second.data) reads
          have hone : 0 < (linesOf first.data).length :=
            List.length_pos_of_ne_nil (getFields_ne_nil first.ne_nil)
          rw [output_cons, output_cons, ← List.append_assoc]
          simp only [buffers, List.nil_append, hkept, hkept', List.flatMap_cons, List.length_append]
          omega

/-- With room for all lines, the second read adds some of them again. -/
theorem one_read_of_right {reads : List Chunk} (h : ScrollbackRight reads)
    (hroom : (linesOf (output reads)).length < maxScrollbackLines) : reads.length ≤ 1 := by
  by_contra htwo
  have hreads : 2 ≤ reads.length := by omega
  have hmore := length_lt_of_two_reads hreads
  rw [ScrollbackRight, update_new] at h
  have hlength := congrArg List.length h
  rw [length_rtake, lastLines, length_rtake] at hlength
  omega

/-- The line in front of what the buffer holds in the end is also the last line that the buffer
held before the last read. -/
def Repeats (reads : List Chunk) : Prop :=
  ∃ front last before, reads = front ++ [last] ∧ output reads = before ++ bufferAfter [] reads ∧
    (linesOf before).getLast? = (linesOf (bufferAfter [] front)).getLast?

theorem rtake_append {n : Nat} {l' : List α} (l : List α) (h : l'.length ≤ n) :
    (l ++ l').rtake n = l.rtake (n - l'.length) ++ l' := by
  by_cases hl : n - l'.length ≤ l.length
  · rw [List.rtake, List.rtake, List.length_append, List.drop_append_of_le_length (by omega)]
    exact congrArg (fun k => l.drop k ++ l') (by omega)
  · rw [rtake_of_length_le (by rw [List.length_append]; omega), rtake_of_length_le (by omega)]

/-- What stands in front of a common end that leaves room. -/
theorem eq_of_rtake_eq {n : Nat} {l₁ l₂ l' : List α} {x y : α} (h : l'.length < n)
    (heq : ((l₁ ++ [x]) ++ l').rtake n = ((l₂ ++ [y]) ++ l').rtake n) : x = y := by
  obtain ⟨k, hk⟩ : ∃ k, n - l'.length = k + 1 := ⟨n - l'.length - 1, by omega⟩
  rw [rtake_append (l₁ ++ [x]) (by omega), rtake_append (l₂ ++ [y]) (by omega), hk,
    List.rtake_concat_succ, List.rtake_concat_succ] at heq
  have hfront := List.append_cancel_right heq
  have hlast := congrArg List.getLast? hfront
  rw [List.getLast?_concat, List.getLast?_concat] at hlast
  exact Option.some.inj hlast

/-- A text ends within a line, which may be empty. -/
theorem exists_line_start (text : Bytes) :
    ∃ before line, text = before ++ line ∧ (10 : UInt8) ∉ line ∧
      (before = [] ∨ before.getLast? = some 10) := by
  induction text using List.reverseRecOn with
  | nil => exact ⟨[], [], rfl, List.not_mem_nil, .inl rfl⟩
  | append_singleton text c ih =>
      by_cases hc : c = 10
      · exact ⟨text ++ [c], [], by simp, List.not_mem_nil, .inr (by simp [hc])⟩
      · obtain ⟨before, line, htext, hline, hbefore⟩ := ih
        refine ⟨before, line ++ [c], by rw [htext, List.append_assoc], ?_, hbefore⟩
        rw [List.mem_append, List.mem_singleton, not_or]
        exact ⟨hline, Ne.symm hc⟩

/-- A buffer that begins within a line shows a line that the output does not have there. -/
theorem filled_of_cut {earlier : List Bytes} {text before line buffer : Bytes}
    (htext : text = (before ++ line) ++ buffer) (hbuffer : buffer ≠ []) (hline : line ≠ [])
    (hnewline : (10 : UInt8) ∉ line) (hbefore : before = [] ∨ before.getLast? = some 10)
    (heq : (earlier ++ linesOf buffer).rtake maxScrollbackLines = lastLines text) :
    FilledBy text buffer := by
  rw [htext, List.append_assoc, lastLines, linesOf, linesOf, getFields_append_of_end hbefore] at heq
  by_cases hmem : (10 : UInt8) ∈ buffer
  · obtain ⟨first, rest, hrest, hfirst⟩ := List.eq_append_cons_of_mem hmem
    refine ⟨before ++ line ++ first ++ [10], rest, ?_, .inr (by simp), ?_, ?_⟩
    · rw [htext, hrest]
      simp
    · exact ⟨first ++ [10], by rw [hrest]; simp⟩
    · by_contra hfew
      have hwhole : (10 : UInt8) ∉ line ++ first := by
        rw [List.mem_append, not_or]
        exact ⟨hnewline, hfirst⟩
      rw [hrest, ← List.append_assoc line, getFields_append_delim hfirst,
        getFields_append_delim hwhole] at heq
      have hsame := @eq_of_rtake_eq _ maxScrollbackLines earlier (getFields 10 before)
        (getFields 10 rest) first (line ++ first) (by simp only [linesOf] at hfew; omega)
        (by simpa using heq)
      exact hline (List.self_eq_append_left.1 hsame)
  · have hwhole : (10 : UInt8) ∉ line ++ buffer := by
      rw [List.mem_append, not_or]
      exact ⟨hnewline, hmem⟩
    rw [getFields_of_notMem hmem hbuffer,
      getFields_of_notMem hwhole (by simp [hbuffer])] at heq
    have hsame := @eq_of_rtake_eq _ maxScrollbackLines earlier (getFields 10 before) [] buffer
      (line ++ buffer) (by decide) (by simpa using heq)
    exact absurd (List.self_eq_append_left.1 hsame) hline

theorem bufferAfter_ne_nil {reads : List Chunk} (h : reads ≠ []) (buffer : Bytes) :
    bufferAfter buffer reads ≠ [] := by
  induction reads generalizing buffer with
  | nil => exact absurd rfl h
  | cons chunk reads ih =>
      rw [bufferAfter_cons]
      cases reads with
      | nil => exact keepManageable_ne_nil buffer chunk
      | cons chunk' reads => exact ih (List.cons_ne_nil chunk' reads) _

/-- With more lines than there is room for. -/
theorem filled_of_right {reads : List Chunk} (h : ScrollbackRight reads) (htwo : 2 ≤ reads.length)
    (hmany : maxScrollbackLines ≤ (linesOf (output reads)).length) (hrepeats : ¬ Repeats reads) :
    FilledBy (output reads) (bufferAfter [] reads) := by
  have hreads : reads ≠ [] := by
    rintro rfl
    simp at htwo
  obtain ⟨front, last, hfront⟩ := exists_last hreads
  have hfront' : front ≠ [] := by
    rintro rfl
    rw [hfront] at htwo
    simp at htwo
  have hbuffers := buffers_flatMap [] front last
  rw [← hfront] at hbuffers
  rw [ScrollbackRight, update_new, hbuffers] at h
  obtain ⟨before, hbefore⟩ := bufferAfter_suffix [] reads
  rw [List.nil_append] at hbefore
  obtain ⟨start, line, hsplit, hnewline, hstart⟩ := exists_line_start before
  by_cases hline : line = []
  · rw [hline, List.append_nil] at hsplit
    have hlines : linesOf (output reads) = linesOf before ++ linesOf (bufferAfter [] reads) := by
      rw [← hbefore]
      exact getFields_append_of_end (hsplit ▸ hstart) _
    by_cases hfull : maxScrollbackLines ≤ (linesOf (bufferAfter [] reads)).length
    · exact ⟨before, bufferAfter [] reads, hbefore.symm, hsplit ▸ hstart, List.suffix_refl _, hfull⟩
    · -- The line in front of the buffer would be the last line of the buffer before.
      refine absurd ?_ hrepeats
      rw [lastLines, hlines] at h
      have hbefore' : linesOf before ≠ [] := by
        intro hnone
        rw [hlines, hnone, List.nil_append] at hmany
        exact hfull hmany
      obtain ⟨lines, v, hv⟩ := exists_last hbefore'
      obtain ⟨front', last', hfront''⟩ := exists_last hfront'
      have hfields : linesOf (bufferAfter [] front) ≠ [] :=
        getFields_ne_nil (bufferAfter_ne_nil hfront' [])
      obtain ⟨lines', u, hu⟩ := exists_last hfields
      have hearlier := buffers_flatMap [] front' last'
      rw [← hfront'', hu,
        ← List.append_assoc] at hearlier
      rw [hearlier, hv] at h
      have hsame := eq_of_rtake_eq (by omega) h
      refine ⟨front, last, before, hfront, hbefore.symm, ?_⟩
      rw [hv, show linesOf (bufferAfter [] front) = lines' ++ [u] from hu, List.getLast?_concat,
        List.getLast?_concat, hsame]
  · rw [hsplit] at hbefore
    exact filled_of_cut hbefore.symm (bufferAfter_ne_nil hreads []) hline hnewline hstart h

/-! ## Both -/

/-- The scrollback is right after at most one read, and if the last buffer fills it with whole
lines. It is right only then while there is room for all lines of the output, and also
beyond, unless lines repeat. -/
theorem scrollbackRight_of_and_iff (reads : List Chunk) :
    (reads.length ≤ 1 ∨ FilledBy (output reads) (bufferAfter [] reads) → ScrollbackRight reads) ∧
      ((linesOf (output reads)).length < maxScrollbackLines ∨ ¬ Repeats reads →
        (ScrollbackRight reads ↔
          reads.length ≤ 1 ∨ FilledBy (output reads) (bufferAfter [] reads))) := by
  have hright : reads.length ≤ 1 ∨ FilledBy (output reads) (bufferAfter [] reads) →
      ScrollbackRight reads := fun h => h.elim right_of_one_read right_of_filled
  refine ⟨hright, fun hcase => ⟨fun h => ?_, hright⟩⟩
  by_cases hroom : (linesOf (output reads)).length < maxScrollbackLines
  · exact .inl (one_read_of_right h hroom)
  · by_cases htwo : reads.length ≤ 1
    · exact .inl htwo
    · exact .inr (filled_of_right h (by omega) (by omega) (hcase.resolve_left hroom))

/-- Two lines at once. -/
def atOnce : List Chunk := [⟨bytes "a\nb\n", by decide, by decide⟩]

/-- The same lines, one by one. -/
def oneByOne : List Chunk :=
  [⟨bytes "a\n", by decide, by decide⟩, ⟨bytes "b\n", by decide, by decide⟩]

theorem scrollbackRight_atOnce :
    ScrollbackRight atOnce ∧ (ScrollbackRight oneByOne ↔
      oneByOne.length ≤ 1 ∨ FilledBy (output oneByOne) (bufferAfter [] oneByOne)) :=
  ⟨(scrollbackRight_of_and_iff atOnce).1 (.inl (by decide)),
    (scrollbackRight_of_and_iff oneByOne).2 (.inl (by decide +kernel))⟩

/-- The first line is shown twice. -/
theorem oneByOne_not_right :
    output oneByOne = output atOnce ∧
      (update {} oneByOne).scrollback ≠ (update {} atOnce).scrollback ∧
      ¬ ScrollbackRight oneByOne := by
  refine ⟨by decide +kernel, by decide +kernel, ?_⟩
  rw [ScrollbackRight]
  decide +kernel

end Nazg.Tui.Pane
