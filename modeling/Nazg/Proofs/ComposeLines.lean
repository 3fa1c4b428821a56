import Nazg.Docker.ComposeText

/-!
# What the helpers read off a written line

The lines of a compose text, one shape at a time: the white space around a line does not
matter to `trim`, the key of a key line is read back, an item without its dash, a scalar
without its quotes, and noise is recognised as noise.
-/

namespace Nazg.Docker

open Lib

/-! ## Trimming -/

theorem rdropWhile_append_white {w : Bytes} (hw : White w) (x : Bytes) :
    (x ++ w).rdropWhile isLineEnd = x.rdropWhile isLineEnd := by
  rw [List.rdropWhile, List.rdropWhile, List.reverse_append,
    List.dropWhile_append_of_pos fun c hc => hw c (List.mem_reverse.1 hc)]

theorem trim_append_white {w : Bytes} (hw : White w) (x : Bytes) : trim (x ++ w) = trim x := by
  rw [trim, trim, List.dropWhile_append]
  split
  · next hx =>
      rw [List.isEmpty_iff.1 hx, List.rdropWhile_nil, List.rdropWhile_eq_nil_iff]
      exact fun c hc => hw c ((List.dropWhile_suffix _).subset hc)
  · exact rdropWhile_append_white hw _

theorem trim_spaces_append (n : Nat) (x : Bytes) : trim (spaces n ++ x) = trim x := by
  rw [trim, trim, spaces, List.dropWhile_append_of_pos]
  intro c hc
  rw [List.eq_of_mem_replicate hc]
  rfl

theorem rdropWhile_append_visible {d : UInt8} (hd : isLineEnd d = false) (a x : Bytes) :
    (a ++ d :: x).rdropWhile isLineEnd = a ++ d :: x.rdropWhile isLineEnd := by
  induction x using List.reverseRecOn with
  | nil =>
      rw [List.rdropWhile_nil, List.rdropWhile_concat_neg]
      simp [hd]
  | append_singleton x c ih =>
      by_cases hc : isLineEnd c = true
      · rw [← List.cons_append, ← List.append_assoc, List.rdropWhile_concat_pos _ _ _ hc,
          List.rdropWhile_concat_pos _ _ _ hc, ih]
      · rw [← List.cons_append, ← List.append_assoc, List.rdropWhile_concat_neg _ _ _ hc,
          List.rdropWhile_concat_neg _ _ _ hc, List.append_assoc, List.cons_append]

/-- A line is trimmed from its first visible byte on, a byte that is no line end keeping
everything before it. -/
theorem trim_visible {a x : Bytes} {c d : UInt8} (hc : isTabOrSpace c = false)
    (hd : isLineEnd d = false) (ha : (a ++ d :: x).head? = some c) :
    trim (a ++ d :: x) = a ++ d :: x.rdropWhile isLineEnd := by
  rw [trim]
  cases h : a ++ d :: x with
  | nil =>
      rw [h] at ha
      cases ha
  | cons b s =>
      rw [h, List.head?_cons, Option.some_inj] at ha
      rw [List.dropWhile_cons_of_neg (by rw [ha, hc]; exact Bool.false_ne_true), ← h]
      exact rdropWhile_append_visible hd a x

/-- The first byte of what is trimmed is visible. -/
theorem visible_of_trim_cons {c : UInt8} {s : Bytes} (h : trim (c :: s) = c :: s) :
    isTabOrSpace c = false := by
  by_contra hblank
  have hle : (trim (c :: s)).length ≤ s.length := by
    rw [trim, List.dropWhile_cons_of_pos (by simpa using hblank)]
    exact (List.rdropWhile_prefix _ _).length_le.trans (List.dropWhile_suffix _).length_le
  rw [h, List.length_cons] at hle
  omega

theorem trim_rdropWhile (x : Bytes) : trim (x.rdropWhile isLineEnd) = trim x := by
  have hsplit : x.rdropWhile isLineEnd ++ x.rtakeWhile isLineEnd = x :=
    List.rdropWhile_append_rtakeWhile
  have hwhite : White (x.rtakeWhile isLineEnd) := fun c hc => List.mem_rtakeWhile_imp hc
  rw [← trim_append_white hwhite, hsplit]

/-! ## Indentation -/

theorem getIndentLevel_spaces_append (n : Nat) (x : Bytes) :
    getIndentLevel (spaces n ++ x) = n + getIndentLevel x := by
  induction n with
  | zero => exact (Nat.zero_add _).symm
  | succ n ih =>
      rw [spaces, List.replicate_succ, List.cons_append, getIndentLevel, if_pos rfl]
      rw [spaces] at ih
      omega

theorem getIndentLevel_visible {c : UInt8} {s : Bytes} (hc : isTabOrSpace c = false) :
    getIndentLevel (c :: s) = 0 := by
  rw [isTabOrSpace, Bool.or_eq_false_iff, decide_eq_false_iff_not, decide_eq_false_iff_not] at hc
  rw [getIndentLevel, if_neg hc.1, if_neg hc.2]

/-- A line indented by spaces, from its first visible byte on. -/
theorem getIndentLevel_indented (n : Nat) {c : UInt8} {s : Bytes} (hc : isTabOrSpace c = false) :
    getIndentLevel (spaces n ++ c :: s) = n := by
  rw [getIndentLevel_spaces_append, getIndentLevel_visible hc, Nat.add_zero]

theorem head?_spaces_append {n : Nat} {c : UInt8} {s : Bytes} (hc : c ≠ hash) :
    (spaces n ++ c :: s).head? ≠ some hash := by
  cases n with
  | zero =>
      intro h
      exact hc (Option.some.inj h)
  | succ n => exact fun h => absurd (Option.some.inj h) (by decide)

/-! ## Key lines -/

/-- The first byte of a key: visible, and neither the mark of a comment nor of an item. -/
theorem KeyText.head {key : Bytes} (h : KeyText key) :
    ∃ c s, key = c :: s ∧ isTabOrSpace c = false ∧ c ≠ hash ∧ c ≠ dash := by
  obtain ⟨hne, htrim, -, hhash, hdash⟩ := h
  cases key with
  | nil => exact absurd rfl hne
  | cons c s =>
      refine ⟨c, s, rfl, visible_of_trim_cons htrim, ?_, ?_⟩
      · exact fun hc => hhash (by rw [hc]; rfl)
      · exact fun hc => hdash (by rw [hc]; rfl)

theorem trim_keyLine {key : Bytes} (h : KeyText key) (n : Nat) (after : Bytes) :
    trim (keyLine n key after) = key ++ colon :: after.rdropWhile isLineEnd := by
  obtain ⟨c, s, rfl, hvis, -, -⟩ := h.head
  rw [keyLine, trim_spaces_append, trim_visible hvis (by decide) rfl]

theorem getIndentLevel_keyLine {key : Bytes} (h : KeyText key) (n : Nat) (after : Bytes) :
    getIndentLevel (keyLine n key after) = n := by
  obtain ⟨c, s, rfl, hvis, -, -⟩ := h.head
  exact getIndentLevel_indented n hvis

theorem isNoise_keyLine {key : Bytes} (h : KeyText key) (n : Nat) (after : Bytes) :
    isNoise (keyLine n key after) = false := by
  obtain ⟨c, s, hkey, -, hhash, -⟩ := h.head
  rw [isNoise, trim_keyLine h, hkey]
  simp [hhash]

theorem isFlushNoise_keyLine {key : Bytes} (h : KeyText key) (n : Nat) (after : Bytes) :
    isFlushNoise (keyLine n key after) = false := by
  obtain ⟨c, s, rfl, -, hhash, -⟩ := h.head
  have hhead : (keyLine n (c :: s) after).head? ≠ some hash := head?_spaces_append hhash
  rw [isFlushNoise, trim_keyLine h]
  simp [hhead]

theorem isListItem_keyLine {key : Bytes} (h : KeyText key) (n : Nat) (after : Bytes) :
    isListItem (keyLine n key after) = false := by
  obtain ⟨c, s, hkey, -, -, hdash⟩ := h.head
  rw [isListItem, trim_keyLine h, hkey]
  simp [hdash]

theorem takeWhile_key {key : Bytes} (h : colon ∉ key) (x : Bytes) :
    (key ++ colon :: x).takeWhile (· ≠ colon) = key := by
  rw [List.takeWhile_append_of_pos]
  · simp
  · intro c hc
    simpa using fun hcolon : c = colon => h (hcolon ▸ hc)

theorem dropWhile_key {key : Bytes} (h : colon ∉ key) (x : Bytes) :
    (key ++ colon :: x).dropWhile (· ≠ colon) = colon :: x := by
  rw [List.dropWhile_append_of_pos]
  · simp
  · intro c hc
    simpa using fun hcolon : c = colon => h (hcolon ▸ hc)

/-- The key of a line is read back. -/
theorem extractKey_keyLine {key : Bytes} (h : KeyText key) (n : Nat) (after : Bytes) :
    extractKey (keyLine n key after) = key := by
  rw [extractKey, trim_keyLine h, if_pos (by simp), takeWhile_key h.2.2.1, h.2.1]

theorem extractValue_keyLine {key : Bytes} (h : KeyText key) (n : Nat) (after : Bytes) :
    extractValue (keyLine n key after) = unquote (trim after) := by
  rw [extractValue, trim_keyLine h, if_pos (by simp), dropWhile_key h.2.2.1, List.tail_cons,
    trim_rdropWhile]

theorem keyText_dependsOn : KeyText (bytes "depends_on") := by decide

theorem keyText_networkMode : KeyText (bytes "network_mode") := by decide

theorem keyText_services : KeyText (bytes "services") := by decide

/-! ## Scalars and items -/

theorem trim_quoted {q : UInt8} (hvis : isTabOrSpace q = false) (hend : isLineEnd q = false)
    (value : Bytes) : trim (q :: (value ++ [q])) = q :: (value ++ [q]) := by
  rw [← List.cons_append, trim_visible hvis hend rfl, List.rdropWhile_nil]

theorem getLast?_quoted (q : UInt8) (value : Bytes) :
    (q :: (value ++ [q])).getLast? = some q := by
  rw [← List.cons_append, List.getLast?_concat]

theorem trim_written {s : Scalar} (h : s.Written) : trim s.written = s.written := by
  obtain ⟨value, quoting⟩ := s
  cases quoting with
  | plain => exact h.2.1
  | single => exact trim_quoted (by decide) (by decide) value
  | double => exact trim_quoted (by decide) (by decide) value

/-- The quotes of a written scalar come off, and nothing else. -/
theorem unquote_written {s : Scalar} (h : s.Written) : unquote s.written = s.value := by
  obtain ⟨value, quoting⟩ := s
  cases quoting with
  | plain =>
      rw [unquote, if_neg]
      · rfl
      · rintro ⟨-, ⟨hq, -⟩ | ⟨hq, -⟩⟩
        · exact h.2.2.1 hq
        · exact h.2.2.2 hq
  | single =>
      rw [Scalar.written, unquote, if_pos]
      · simp
      · exact ⟨by simp, Or.inr ⟨rfl, getLast?_quoted _ _⟩⟩
  | double =>
      rw [Scalar.written, unquote, if_pos]
      · simp
      · exact ⟨by simp, Or.inl ⟨rfl, getLast?_quoted _ _⟩⟩

theorem trail_text_white {t : Trail} (hw : White t.white) (hc : t.comment = none) :
    White t.text := by
  rw [Trail.text, hc, Option.map_none, Option.getD_none, List.append_nil]
  exact hw

theorem trim_itemLine (n gap : Nat) (after : Bytes) :
    trim (itemLine n gap after) = dash :: (spaces (gap + 1) ++ after).rdropWhile isLineEnd := by
  rw [itemLine, trim_spaces_append]
  exact trim_visible (a := []) (d := dash) (by decide) (by decide) rfl

@[simp] theorem isListItem_itemLine (n gap : Nat) (after : Bytes) :
    isListItem (itemLine n gap after) = true := by
  rw [isListItem, trim_itemLine]
  rfl

@[simp] theorem isFlushNoise_itemLine (n gap : Nat) (after : Bytes) :
    isFlushNoise (itemLine n gap after) = false := by
  have hhead : (itemLine n gap after).head? ≠ some hash := head?_spaces_append (by decide)
  rw [isFlushNoise, trim_itemLine]
  simp [hhead]

@[simp] theorem getIndentLevel_itemLine (n gap : Nat) (after : Bytes) :
    getIndentLevel (itemLine n gap after) = n := getIndentLevel_indented n (by decide)

theorem extractListItem_itemLine (n gap : Nat) (after : Bytes) :
    extractListItem (itemLine n gap after) = trim after := by
  rw [extractListItem, trim_itemLine, if_pos List.head?_cons, List.tail_cons, trim_rdropWhile,
    trim_spaces_append]

/-! ## Noise -/

theorem trim_white {w : Bytes} (hw : White w) : trim w = [] := by
  rw [← List.nil_append w, trim_append_white hw]
  rfl

theorem trim_comment (n : Nat) (text : Bytes) :
    trim (spaces n ++ hash :: text) = hash :: text.rdropWhile isLineEnd := by
  rw [trim_spaces_append]
  exact trim_visible (a := []) (d := hash) (by decide) (by decide) rfl

theorem isNoise_line {x : Noise} (h : x.Written) : isNoise x.line = true := by
  cases x with
  | blank white =>
      rw [isNoise, show (Noise.blank white).line = white from rfl, trim_white h]
      rfl
  | comment n text =>
      rw [isNoise, Noise.line, trim_comment]
      rfl

theorem isFlushNoise_line {x : Noise} (h : x.Written) (hflush : x.Flush) :
    isFlushNoise x.line = true := by
  cases x with
  | blank white =>
      rw [isFlushNoise, show (Noise.blank white).line = white from rfl, trim_white h]
      rfl
  | comment n text =>
      obtain rfl : n = 0 := hflush
      rw [isFlushNoise, Noise.line, trim_comment]
      simp [spaces]

/-- A comment that stands apart is stepped over, or looked at and no item. -/
theorem apart_line {x : Noise} {indent : Nat} (h : x.Written) (hapart : x.Apart indent) :
    isFlushNoise x.line = true ∨ indent < getIndentLevel x.line ∧ isListItem x.line = false := by
  cases x with
  | blank white => exact Or.inl (isFlushNoise_line h trivial)
  | comment n text =>
      rcases hapart with rfl | hlt
      · exact Or.inl (isFlushNoise_line h rfl)
      · refine Or.inr ⟨?_, ?_⟩
        · rw [Noise.line, getIndentLevel_indented n (by decide)]
          exact hlt
        · rw [isListItem, Noise.line, trim_comment]
          rfl

/-- Noise is never taken for an item. -/
theorem isListItem_of_isNoise {l : Line} (h : isNoise l = true) : isListItem l = false := by
  rw [isNoise, Bool.or_eq_true, decide_eq_true_eq, decide_eq_true_eq] at h
  rw [isListItem]
  rcases h with h | h <;> rw [h] <;> decide

theorem isNoise_of_isFlushNoise {l : Line} (h : isFlushNoise l = true) : isNoise l = true := by
  rw [isFlushNoise, Bool.or_eq_true, decide_eq_true_eq, decide_eq_true_eq] at h
  rw [isNoise, Bool.or_eq_true, decide_eq_true_eq, decide_eq_true_eq]
  rcases h with h | h
  · exact Or.inl h
  · obtain ⟨s, rfl⟩ : ∃ s, l = hash :: s := by
      cases l with
      | nil => cases h
      | cons c s => exact ⟨s, by rw [Option.some.inj h]⟩
    exact Or.inr (by rw [show hash :: s = spaces 0 ++ hash :: s from rfl, trim_comment]; rfl)

end Nazg.Docker
