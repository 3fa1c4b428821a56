import Nazg.Lib.LineFill
import Nazg.Tui.Render

/-!
# Wrapped text

The lines of `wrap_text` are filled greedily, paragraph by paragraph, and wrapping them again
changes nothing. This holds as long as no size that is compared is changed by the cast to `int`: a
word of 2^31 bytes has a negative size then and goes onto a line as it is.
-/

namespace Nazg.Tui

open Lib Lib.LineFill

/-! ## What wrapping is to do -/

/-- What is not blank. -/
def isInk (c : UInt8) : Bool := !isSpace c

/-- The lines of a paragraph. -/
structure ParagraphLaid (maxWidth : Nat) (segment : Bytes) (lines : List Bytes) : Prop where
  empty : segment = [] → lines = [[]]
  filled : segment ≠ [] → Laid isInk maxWidth (getWords segment) lines

/-- The lines of a text; where no paragraph has any there is an empty one. -/
structure Wrapped (text : Bytes) (maxWidth : Nat) (lines : List Bytes) : Prop where
  short : ∀ l ∈ lines, l.length ≤ maxWidth
  content : lines.flatten.filter isInk = text.filter isInk
  paragraphs : ∃ parts, List.Forall₂ (ParagraphLaid maxWidth) (getFields 10 text) parts ∧
    lines = if parts.flatten = [] then [[]] else parts.flatten

/-- Each line followed by a line break. -/
def unlines (lines : List Bytes) : Bytes := lines.flatMap (· ++ [10])

/-- Sizes that are compared are the same as an `int`. -/
def FitsInt (maxWidth : Nat) (p : Page UInt8) (word : Bytes) : Prop :=
  (maxWidth ≤ word.length → (maxWidth : Int) ≤ castInt word.length) ∧
    (word.length < maxWidth → p.line ≠ [] → p.line.length + 1 + word.length < 2 ^ 31)

/-- In every paragraph, when its words are filled into lines one after the other. -/
def Fits (text : Bytes) (maxWidth : Nat) : Prop :=
  ∀ segment ∈ getFields 10 text,
    Runs.Always (Page.put 32 maxWidth) (FitsInt maxWidth) Page.empty (getWords segment)

/-! ## Words -/

theorem castInt_of_lt {n : Nat} (h : n < 2 ^ 31) : castInt n = n :=
  Int.bmod_eq_of_le_mul_two (by omega) (by omega)

theorem castInt_neg {n : Nat} (hlow : 2 ^ 31 ≤ n) (hhigh : n < 2 ^ 32) : castInt n < 0 := by
  have hdef : castInt n = if (n : Int) % 2 ^ 32 < (2 ^ 32 + 1) / 2 then (n : Int) % 2 ^ 32
      else (n : Int) % 2 ^ 32 - 2 ^ 32 := Int.bmod_def _ _
  omega

theorem chunksFrom_eq (maxWidth : Nat) (word : Bytes) (pos : Nat) :
    chunksFrom maxWidth word pos = pieces maxWidth (word.drop pos) := by
  induction pos using chunksFrom.induct maxWidth word with
  | case1 pos h ih =>
      have hne : word.drop pos ≠ [] := by
        rw [ne_eq, List.drop_eq_nil_iff]
        omega
      rw [chunksFrom, if_pos h, ih, pieces_of_ne_nil h.1 hne, List.drop_drop]
  | case2 pos h =>
      rw [chunksFrom, if_neg h]
      by_cases hwidth : 0 < maxWidth
      · rw [List.drop_eq_nil_of_le (by omega), pieces_nil]
      · rw [pieces, if_neg fun hne => hwidth hne.1]

/-- A page of a paragraph, below the lines of the ones before. -/
def onto (lines : List Bytes) (p : Page UInt8) : Wrapping := ⟨lines ++ p.lines, p.line⟩

theorem flush_onto (lines : List Bytes) (p : Page UInt8) :
    (onto lines p).flush = lines ++ p.close := by
  rw [Wrapping.flush, Page.close, onto]
  by_cases hline : p.line = []
  · rw [if_pos hline, if_pos hline]
  · rw [if_neg hline, if_neg hline, List.append_assoc]

section Width

variable {maxWidth : Nat} (hint : maxWidth < 2 ^ 31)

include hint

theorem addWord_onto {lines : List Bytes} {p : Page UInt8} {word : Bytes}
    (h : FitsInt maxWidth p word) :
    (onto lines p).addWord maxWidth word = onto lines (p.put 32 maxWidth word) := by
  have hlong : (maxWidth : Int) ≤ castInt word.length ↔ maxWidth ≤ word.length := by
    refine ⟨fun hle => ?_, h.1⟩
    by_contra hlt
    rw [castInt_of_lt (by omega)] at hle
    omega
  rw [Wrapping.addWord, Page.put]
  by_cases hword : maxWidth ≤ word.length
  · rw [if_pos (hlong.2 hword), if_pos hword, flush_onto, Int.toNat_natCast, chunksFrom_eq,
      List.drop_zero, List.append_assoc]
    rfl
  · rw [if_neg (fun hle => hword (hlong.1 hle)), if_neg hword]
    by_cases hline : p.line = []
    · rw [if_pos (show (onto lines p).currentLine = [] from hline), if_pos hline]
      rfl
    · have hsum := h.2 (by omega) hline
      have hfits : castInt ((onto lines p).currentLine.length + 1 + word.length) ≤ maxWidth ↔
          p.line.length + 1 + word.length ≤ maxWidth := by
        rw [show (onto lines p).currentLine = p.line from rfl, castInt_of_lt hsum]
        omega
      rw [if_neg (show ¬ (onto lines p).currentLine = [] from hline), if_neg hline]
      by_cases hle : p.line.length + 1 + word.length ≤ maxWidth
      · rw [if_pos (hfits.2 hle), if_pos hle]
        rfl
      · rw [if_neg (fun h => hle (hfits.1 h)), if_neg hle, onto, onto, List.append_assoc]

theorem foldl_addWord_onto {lines : List Bytes} {p : Page UInt8} {words : List Bytes}
    (h : Runs.Always (Page.put 32 maxWidth) (FitsInt maxWidth) p words) :
    words.foldl (Wrapping.addWord maxWidth) (onto lines p) =
      onto lines (Runs.run (Page.put 32 maxWidth) p words) := by
  induction words generalizing p with
  | nil => rfl
  | cons word words ih => rw [List.foldl_cons, addWord_onto hint h.1, ih h.2, Runs.run_cons]

/-! ## Lines that are too long -/

/-- A line is longer than the width. -/
def Wrapping.Overlong (maxWidth : Nat) (w : Wrapping) : Prop :=
  (∃ l ∈ w.lines, maxWidth < l.length) ∨ maxWidth < w.currentLine.length

omit hint in
theorem Wrapping.Overlong.flush {w : Wrapping} (h : w.Overlong maxWidth) :
    ∃ l ∈ w.flush, maxWidth < l.length := by
  rw [Wrapping.flush]
  rcases h with ⟨l, hl, hlength⟩ | hlength
  · split
    · exact ⟨l, hl, hlength⟩
    · exact ⟨l, List.mem_append_left _ hl, hlength⟩
  · have hne : ¬ w.currentLine = [] := List.length_pos_iff.1 (by omega)
    rw [if_neg hne]
    exact ⟨w.currentLine, List.mem_append_right _ (List.mem_singleton_self _), hlength⟩

omit hint in
theorem Wrapping.Overlong.addWord {w : Wrapping} (h : w.Overlong maxWidth) (word : Bytes) :
    (w.addWord maxWidth word).Overlong maxWidth := by
  rw [Wrapping.addWord]
  split
  · obtain ⟨l, hl, hlength⟩ := h.flush
    exact Or.inl ⟨l, List.mem_append_left _ hl, hlength⟩
  · split
    · next hline =>
        rcases h with h | hlength
        · exact Or.inl h
        · rw [hline] at hlength
          cases hlength
    · split
      · rcases h with h | hlength
        · exact Or.inl h
        · right
          simp only [List.length_append]
          omega
      · rcases h with ⟨l, hl, hlength⟩ | hlength
        · exact Or.inl ⟨l, List.mem_append_left _ hl, hlength⟩
        · exact Or.inl ⟨w.currentLine, List.mem_append_right _ (List.mem_singleton_self _), hlength⟩

omit hint in
theorem Wrapping.Overlong.foldl {w : Wrapping} (h : w.Overlong maxWidth) (words : List Bytes) :
    (words.foldl (Wrapping.addWord maxWidth) w).Overlong maxWidth := by
  induction words generalizing w with
  | nil => exact h
  | cons word words ih =>
      rw [List.foldl_cons]
      exact ih (h.addWord word)

/-- A size that the cast changes leaves a line that is too long. -/
theorem overlong_addWord_onto {lines : List Bytes} {p : Page UInt8} {word : Bytes}
    (h : ¬ FitsInt maxWidth p word) :
    ((onto lines p).addWord maxWidth word).Overlong maxWidth := by
  by_cases hover : maxWidth < p.line.length
  · exact Wrapping.Overlong.addWord (Or.inr hover) word
  · rw [FitsInt, not_and_or] at h
    rcases h with h | h
    · obtain ⟨hlong, hcast⟩ := Classical.not_imp.1 h
      have hne : word.length ≠ maxWidth := by
        intro heq
        rw [heq, castInt_of_lt hint] at hcast
        exact hcast (le_refl _)
      rw [Wrapping.addWord, if_neg hcast]
      split
      · right
        simp only
        omega
      · split
        · right
          simp only [List.length_append, List.length_cons]
          omega
        · right
          simp only
          omega
    · obtain ⟨hshort, h⟩ := Classical.not_imp.1 h
      obtain ⟨hline, hsum⟩ := Classical.not_imp.1 h
      have hneg : castInt ((onto lines p).currentLine.length + 1 + word.length) < 0 :=
        castInt_neg (show 2 ^ 31 ≤ p.line.length + 1 + word.length by omega)
          (show p.line.length + 1 + word.length < 2 ^ 32 by omega)
      have hword : ¬ (maxWidth : Int) ≤ castInt word.length := by
        rw [castInt_of_lt (by omega)]
        omega
      rw [Wrapping.addWord, if_neg hword,
        if_neg (show ¬ (onto lines p).currentLine = [] from hline), if_pos (by omega)]
      right
      show maxWidth < (p.line ++ 32 :: word).length
      rw [List.length_append, List.length_cons]
      omega

theorem overlong_foldl_onto {lines : List Bytes} {p : Page UInt8} {words : List Bytes}
    (h : ¬ Runs.Always (Page.put 32 maxWidth) (FitsInt maxWidth) p words) :
    (words.foldl (Wrapping.addWord maxWidth) (onto lines p)).Overlong maxWidth := by
  induction words generalizing p with
  | nil => exact absurd trivial h
  | cons word words ih =>
      rw [List.foldl_cons]
      by_cases hword : FitsInt maxWidth p word
      · rw [addWord_onto hint hword]
        exact ih fun hrest => h ⟨hword, hrest⟩
      · exact (overlong_addWord_onto hint hword).foldl words

/-! ## Paragraphs -/

omit hint in
/-- The lines a paragraph is to have. -/
def layout (maxWidth : Nat) (segment : Bytes) : List Bytes :=
  if segment = [] then [[]] else fill 32 maxWidth (getWords segment)

theorem wrapSegment_eq {segment : Bytes} (lines : List Bytes)
    (h : Runs.Always (Page.put 32 maxWidth) (FitsInt maxWidth) Page.empty (getWords segment)) :
    wrapSegment maxWidth lines segment = lines ++ layout maxWidth segment := by
  rw [wrapSegment, layout]
  split
  · rfl
  · have hstart : (⟨lines, []⟩ : Wrapping) = onto lines Page.empty := by
      rw [onto, Page.empty, List.append_nil]
    rw [hstart, foldl_addWord_onto hint h, flush_onto, fill]

theorem overlong_wrapSegment {segment : Bytes} (lines : List Bytes)
    (h : ¬ Runs.Always (Page.put 32 maxWidth) (FitsInt maxWidth) Page.empty (getWords segment)) :
    ∃ l ∈ wrapSegment maxWidth lines segment, maxWidth < l.length := by
  have hne : segment ≠ [] := by
    rintro rfl
    exact h trivial
  have hstart : (⟨lines, []⟩ : Wrapping) = onto lines Page.empty := by
    rw [onto, Page.empty, List.append_nil]
  rw [wrapSegment, if_neg hne, hstart]
  exact (overlong_foldl_onto hint h).flush

omit hint in
theorem overlong_segment_after {lines : List Bytes} (h : ∃ l ∈ lines, maxWidth < l.length)
    (segment : Bytes) : ∃ l ∈ wrapSegment maxWidth lines segment, maxWidth < l.length := by
  rw [wrapSegment]
  split
  · obtain ⟨l, hl, hlength⟩ := h
    exact ⟨l, List.mem_append_left _ hl, hlength⟩
  · have hover : (⟨lines, []⟩ : Wrapping).Overlong maxWidth := Or.inl h
    exact (hover.foldl _).flush

omit hint in
theorem overlong_segments_after {lines : List Bytes} (h : ∃ l ∈ lines, maxWidth < l.length)
    (segments : List Bytes) :
    ∃ l ∈ segments.foldl (wrapSegment maxWidth) lines, maxWidth < l.length := by
  induction segments generalizing lines with
  | nil => exact h
  | cons segment segments ih => exact ih (overlong_segment_after h segment)

theorem foldl_wrapSegment (lines : List Bytes) {segments : List Bytes}
    (h : ∀ segment ∈ segments,
      Runs.Always (Page.put 32 maxWidth) (FitsInt maxWidth) Page.empty (getWords segment)) :
    segments.foldl (wrapSegment maxWidth) lines = lines ++ segments.flatMap (layout maxWidth) := by
  induction segments generalizing lines with
  | nil => exact (List.append_nil _).symm
  | cons segment segments ih =>
      obtain ⟨hsegment, h⟩ := List.forall_mem_cons.1 h
      rw [List.foldl_cons, wrapSegment_eq hint lines hsegment, ih _ h, List.flatMap_cons,
        List.append_assoc]

theorem overlong_segments (lines : List Bytes) {segments : List Bytes}
    (h : ¬ ∀ segment ∈ segments,
      Runs.Always (Page.put 32 maxWidth) (FitsInt maxWidth) Page.empty (getWords segment)) :
    ∃ l ∈ segments.foldl (wrapSegment maxWidth) lines, maxWidth < l.length := by
  induction segments generalizing lines with
  | nil => exact absurd (fun segment hmem => absurd hmem List.not_mem_nil) h
  | cons segment segments ih =>
      rw [List.foldl_cons]
      by_cases hsegment :
          Runs.Always (Page.put 32 maxWidth) (FitsInt maxWidth) Page.empty (getWords segment)
      · exact ih _ fun hrest => h (List.forall_mem_cons.2 ⟨hsegment, hrest⟩)
      · exact overlong_segments_after (overlong_wrapSegment hint lines hsegment) segments

end Width

/-! ## Texts -/

/-- The lines that a text is to have. -/
def allLines (text : Bytes) (maxWidth : Nat) : List Bytes :=
  let lines := (getFields 10 text).flatMap (layout maxWidth)
  if lines = [] then [[]] else lines

theorem toInt_lt (maxWidth : Int32) : maxWidth.toInt.toNat < 2 ^ 31 := by
  have hlt := maxWidth.toInt_lt
  omega

theorem wrapText_eq {text : Bytes} {maxWidth : Int32} (hwidth : 1 ≤ maxWidth.toInt)
    (h : Fits text maxWidth.toInt.toNat) :
    wrapText text maxWidth = allLines text maxWidth.toInt.toNat := by
  have hcast : maxWidth.toInt = (maxWidth.toInt.toNat : Int) := by omega
  have hlines := foldl_wrapSegment (toInt_lt maxWidth) [] h
  rw [← hcast, List.nil_append] at hlines
  rw [wrapText, if_neg (by omega), hlines, allLines]

theorem overlong_wrapText {text : Bytes} {maxWidth : Int32} (hwidth : 1 ≤ maxWidth.toInt)
    (h : ¬ Fits text maxWidth.toInt.toNat) :
    ∃ l ∈ wrapText text maxWidth, maxWidth.toInt.toNat < l.length := by
  have hcast : maxWidth.toInt = (maxWidth.toInt.toNat : Int) := by omega
  have hover := overlong_segments (toInt_lt maxWidth) [] h
  rw [← hcast] at hover
  obtain ⟨l, hl, hlength⟩ := hover
  rw [wrapText, if_neg (by omega)]
  refine ⟨l, ?_, hlength⟩
  simp only
  rw [if_neg (List.ne_nil_of_mem hl)]
  exact hl

theorem inked_getWords {s w : Bytes} (hw : w ∈ getWords s) : Inked isInk w := by
  obtain ⟨hne, hword⟩ := of_mem_getWords hw
  exact ⟨hne, fun c hc => by rw [isInk, hword c hc]; rfl⟩

theorem paragraphLaid_layout {maxWidth : Nat} (hwidth : 0 < maxWidth) (segment : Bytes) :
    ParagraphLaid maxWidth segment (layout maxWidth segment) where
  empty := fun h => if_pos h
  filled := fun h => by
    rw [layout, if_neg h]
    exact laid_fill (by decide) hwidth fun w hw => inked_getWords hw

theorem ParagraphLaid.short {maxWidth : Nat} {segment : Bytes} {lines : List Bytes}
    (h : ParagraphLaid maxWidth segment lines) : ∀ l ∈ lines, l.length ≤ maxWidth := by
  by_cases hnil : segment = []
  · rw [h.empty hnil]
    simp
  · exact (h.filled hnil).short

theorem ParagraphLaid.content {maxWidth : Nat} {segment : Bytes} {lines : List Bytes}
    (h : ParagraphLaid maxWidth segment lines) :
    lines.flatten.filter isInk = segment.filter isInk := by
  by_cases hnil : segment = []
  · rw [h.empty hnil, hnil]
    rfl
  · rw [(h.filled hnil).content, flatten_getWords]
    rfl

theorem filter_getFields {p : UInt8 → Bool} (hp : p 10 = false) (text : Bytes) :
    (getFields 10 text).flatten.filter p = text.filter p := by
  induction text with
  | nil => rfl
  | cons c text ih =>
      rw [getFields]
      split
      · next hc =>
          rw [List.flatten_cons, List.nil_append, ih, List.filter_cons_of_neg]
          rw [hc, hp]
          exact Bool.false_ne_true
      · split
        · next hnil =>
            rw [hnil] at ih
            rw [List.flatten_singleton, List.filter_cons, List.filter_cons, ← ih]
            rfl
        · next hcons =>
            rw [hcons] at ih
            rw [List.flatten_cons, List.cons_append, List.filter_cons, List.filter_cons, ← ih]
            rfl

theorem wrapped_allLines (text : Bytes) {maxWidth : Nat} (hwidth : 0 < maxWidth) :
    Wrapped text maxWidth (allLines text maxWidth) := by
  have hparts : List.Forall₂ (ParagraphLaid maxWidth) (getFields 10 text)
      ((getFields 10 text).map (layout maxWidth)) := by
    induction getFields 10 text with
    | nil => exact List.Forall₂.nil
    | cons segment segments ih => exact List.Forall₂.cons (paragraphLaid_layout hwidth segment) ih
  have hlines : allLines text maxWidth =
      if ((getFields 10 text).map (layout maxWidth)).flatten = [] then [[]]
      else ((getFields 10 text).map (layout maxWidth)).flatten := by
    rw [allLines, List.flatMap_def]
  have hshort : ∀ l ∈ (getFields 10 text).flatMap (layout maxWidth), l.length ≤ maxWidth := by
    intro l hl
    obtain ⟨segment, -, hl⟩ := List.mem_flatMap.1 hl
    exact (paragraphLaid_layout hwidth segment).short l hl
  have hcontent : ((getFields 10 text).flatMap (layout maxWidth)).flatten.filter isInk =
      text.filter isInk := by
    rw [← filter_getFields (p := isInk) (by decide) text]
    induction getFields 10 text with
    | nil => rfl
    | cons segment segments ih =>
        rw [List.flatMap_cons, List.flatten_append, List.filter_append, ih, List.flatten_cons,
          List.filter_append, (paragraphLaid_layout hwidth segment).content]
  refine ⟨?_, ?_, _, hparts, hlines⟩
  · rw [allLines]
    split
    · simp
    · exact hshort
  · rw [← hcontent, allLines]
    split
    · next hnil => rw [hnil]; rfl
    · rfl

/-! ## Wrapping again -/

theorem getWords_joined {first : Bytes} {rest : List Bytes} (hfirst : Inked isInk first)
    (hrest : ∀ w ∈ rest, Inked isInk w) : getWords (joined 32 first rest) = first :: rest := by
  have hword : ∀ {w : Bytes}, Inked isInk w → ∀ c ∈ w, isSpace c = false := fun hw c hc => by
    simpa [isInk] using hw.2 c hc
  induction rest generalizing first with
  | nil =>
      have hlast := getWords_append hfirst.1 (hword hfirst) (s := []) (by simp)
      rw [List.append_nil] at hlast
      rw [joined_nil, hlast]
      rfl
  | cons w rest ih =>
      obtain ⟨hw, hrest⟩ := List.forall_mem_cons.1 hrest
      have hpieces : joined 32 first (w :: rest) = first ++ 32 :: joined 32 w rest := by
        simp [joined]
      have hspace : ∀ c ∈ ((32 : UInt8) :: joined 32 w rest).head?, isSpace c = true := by
        intro c hc
        cases hc
        rfl
      rw [hpieces, getWords_append hfirst.1 (hword hfirst) hspace, getWords_space (by decide),
        ih hw hrest]

/-- A line that is wrapped by itself. -/
structure Lasting (maxWidth : Nat) (l : Bytes) : Prop where
  oneLine : 10 ∉ l
  layout : layout maxWidth l = [l]
  fits : Runs.Always (Page.put 32 maxWidth) (FitsInt maxWidth) Page.empty (getWords l)

theorem fitsInt_of_hasRoom {maxWidth : Nat} (hint : maxWidth < 2 ^ 31) {p : Page UInt8}
    {word : Bytes} (h : p.HasRoom maxWidth word) : FitsInt maxWidth p word := by
  refine ⟨fun hle => ?_, fun _ hline => ?_⟩
  · have heq : word.length = maxWidth := Nat.le_antisymm h.1 hle
    rw [heq, castInt_of_lt hint]
  · have hroom := h.2 hline
    omega

theorem lasting_of_isLine {maxWidth : Nat} (hint : maxWidth < 2 ^ 31) {l : Bytes}
    (h : IsLine isInk 32 maxWidth l) : Lasting maxWidth l := by
  obtain ⟨hshort, first, rest, rfl, hfirst, hrest⟩ := h
  have hwords := getWords_joined hfirst hrest
  obtain ⟨hfill, hroom⟩ := fill_joined hfirst.1 (fun w hw => (hrest w hw).1) hshort
  have hne : joined 32 first rest ≠ [] := List.append_ne_nil_of_left_ne_nil hfirst.1 _
  refine ⟨?_, ?_, ?_⟩
  · intro hmem
    have hspace : ∀ {w : Bytes}, Inked isInk w → 10 ∉ w := fun hw hc =>
      absurd (hw.2 10 hc) (by decide)
    rcases List.mem_append.1 hmem with hmem | hmem
    · exact hspace hfirst hmem
    · obtain ⟨w, hw, hmem⟩ := List.mem_flatMap.1 hmem
      rcases List.mem_cons.1 hmem with hmem | hmem
      · cases hmem
      · exact hspace (hrest w hw) hmem
  · rw [layout, if_neg hne, hwords, hfill]
  · rw [hwords]
    exact Runs.always_mono (fun p w h => fitsInt_of_hasRoom hint h) hroom

theorem lasting_nil (maxWidth : Nat) : Lasting maxWidth [] := ⟨List.not_mem_nil, rfl, trivial⟩

theorem lasting_of_mem_allLines {maxWidth : Nat} (hint : maxWidth < 2 ^ 31) {text l : Bytes}
    (hl : l ∈ allLines text maxWidth) : Lasting maxWidth l := by
  rw [allLines] at hl
  split at hl
  · rw [List.mem_singleton.1 hl]
    exact lasting_nil maxWidth
  · obtain ⟨segment, -, hl⟩ := List.mem_flatMap.1 hl
    rw [layout] at hl
    split at hl
    · rw [List.mem_singleton.1 hl]
      exact lasting_nil maxWidth
    · exact lasting_of_isLine hint (isLine_of_mem_fill (fun w hw => inked_getWords hw) l hl)

theorem rewrap {lines : List Bytes} {maxWidth : Int32} (hwidth : 1 ≤ maxWidth.toInt)
    (hne : lines ≠ []) (h : ∀ l ∈ lines, Lasting maxWidth.toInt.toNat l) :
    wrapText (unlines lines) maxWidth = lines := by
  have hfields : getFields 10 (unlines lines) = lines := by
    have hall := getFields_flatMap_append (fun l hl => (h l hl).oneLine) []
    rwa [List.append_nil, getFields, List.append_nil] at hall
  have hlayout : lines.flatMap (layout maxWidth.toInt.toNat) = lines := by
    rw [List.flatMap_congr fun l hl => (h l hl).layout, List.flatMap_singleton']
  have hfits : Fits (unlines lines) maxWidth.toInt.toNat := by
    rw [Fits, hfields]
    exact fun l hl => (h l hl).fits
  rw [wrapText_eq hwidth hfits, allLines, hfields, hlayout, if_neg hne]

theorem allLines_ne_nil (text : Bytes) (maxWidth : Nat) : allLines text maxWidth ≠ [] := by
  rw [allLines]
  split
  · exact List.cons_ne_nil _ _
  · next h => exact h

/-- Text is wrapped as it is to be, and wrapping again changes nothing, exactly if the sizes are
compared as they are. -/
theorem wrapText_iff (text : Bytes) (maxWidth : Int32) (hwidth : 1 ≤ maxWidth.toInt) :
    Wrapped text maxWidth.toInt.toNat (wrapText text maxWidth) ∧
      wrapText (unlines (wrapText text maxWidth)) maxWidth = wrapText text maxWidth ↔
    Fits text maxWidth.toInt.toNat := by
  constructor
  · intro h
    by_contra hfits
    obtain ⟨l, hl, hlength⟩ := overlong_wrapText hwidth hfits
    exact absurd (h.1.short l hl) (by omega)
  · intro h
    rw [wrapText_eq hwidth h]
    exact ⟨wrapped_allLines text (by omega), rewrap hwidth (allLines_ne_nil _ _) fun l hl =>
      lasting_of_mem_allLines (toInt_lt maxWidth) hl⟩

theorem wrapText_iff_lines :
    wrapText (unlines (wrapText (bytes "line1\nline2 words") 10)) 10 =
      wrapText (bytes "line1\nline2 words") 10 :=
  ((wrapText_iff (bytes "line1\nline2 words") 10 (by decide)).2 (by
    have hfields : getFields 10 (bytes "line1\nline2 words") =
        [bytes "line1", bytes "line2 words"] := by decide
    have hfirst : getWords (bytes "line1") = [bytes "line1"] := by decide
    have hsecond : getWords (bytes "line2 words") = [bytes "line2", bytes "words"] := by decide
    rw [Fits, hfields, List.forall_mem_cons, List.forall_mem_singleton, hfirst, hsecond]
    refine ⟨⟨⟨by decide, by decide⟩, trivial⟩, ⟨by decide, by decide⟩, ⟨by decide, ?_⟩, trivial⟩
    intro hlength hline
    decide)).2

/-- A word whose size is less than the width as an `int` stays in one line. -/
theorem not_short_of_cast {n : Nat} (hn : 10 ≤ n) (hcast : castInt n < 10) :
    ∃ l ∈ wrapText (List.replicate n 97) 10, 10 < l.length := by
  have hne : List.replicate n (97 : UInt8) ≠ [] := by
    rw [ne_eq, List.replicate_eq_nil_iff]
    omega
  have hmem : ∀ c ∈ List.replicate n (97 : UInt8), c = 97 := fun c hc => List.eq_of_mem_replicate hc
  have hfields : getFields 10 (List.replicate n 97) = [List.replicate n 97] :=
    getFields_of_notMem (fun h => absurd (hmem 10 h) (by decide)) hne
  have hwords := getWords_append hne (s := []) (fun c hc => by rw [hmem c hc]; rfl) (by simp)
  rw [List.append_nil] at hwords
  have hwidth : 1 ≤ (10 : Int32).toInt := by decide
  refine overlong_wrapText hwidth fun hfits => ?_
  rw [Fits, hfields, List.forall_mem_singleton, hwords] at hfits
  have hcut := hfits.1.1
  rw [List.length_replicate] at hcut
  have hle : ((10 : Int32).toInt.toNat : Int) = 10 := by decide
  rw [hle] at hcut
  exact absurd (hcut hn) (by omega)

/-- A word of 2 GiB is not cut. -/
theorem long_word_kept :
    ¬ Wrapped (List.replicate (2 ^ 31) 97) 10 (wrapText (List.replicate (2 ^ 31) 97) 10) := by
  obtain ⟨l, hl, hlength⟩ := not_short_of_cast (n := 2 ^ 31) (by decide) (by decide)
  exact fun h => absurd (h.short l hl) (by omega)

end Nazg.Tui
