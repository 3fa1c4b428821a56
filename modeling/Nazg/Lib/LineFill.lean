import Mathlib.Data.List.Induction
import Nazg.Lib.Runs

/-!
# Filling lines with words

Words go into a line, with a separator between them, for as long as they fit. One that takes the
whole width or more gets lines of its own and is cut into pieces. `ink` tells the characters of
words from the separators.

What is filled has a break between two words only where they do not fit into one line
(`Laid.breaks`), and a line that words filled is filled by them again (`fill_joined`).
-/

namespace Nazg.Lib.LineFill

variable {α : Type*}

/-- Pieces of a word, all of them full but the last. -/
def pieces (width : Nat) (w : List α) : List (List α) :=
  if 0 < width ∧ w ≠ [] then w.take width :: pieces width (w.drop width) else []
termination_by w.length
decreasing_by
  next h => exact List.length_drop ▸ Nat.sub_lt (List.length_pos_iff.2 h.2) h.1

/-- The lines so far and the one that is open. -/
structure Page (α : Type*) where
  lines : List (List α)
  line : List α

namespace Page

def empty : Page α := ⟨[], []⟩

def close (p : Page α) : List (List α) := if p.line = [] then p.lines else p.lines ++ [p.line]

def put (sep : α) (width : Nat) (p : Page α) (w : List α) : Page α :=
  if width ≤ w.length then ⟨p.close ++ pieces width w, []⟩
  else if p.line = [] then ⟨p.lines, w⟩
  else if p.line.length + 1 + w.length ≤ width then ⟨p.lines, p.line ++ sep :: w⟩
  else ⟨p.lines ++ [p.line], w⟩

end Page

def fill (sep : α) (width : Nat) (words : List (List α)) : List (List α) :=
  (Runs.run (Page.put sep width) Page.empty words).close

/-- A line of words. -/
def joined (sep : α) (first : List α) (rest : List (List α)) : List α :=
  first ++ rest.flatMap (sep :: ·)

/-! ## Pieces -/

theorem pieces_nil (width : Nat) : pieces width ([] : List α) = [] := by
  rw [pieces, if_neg fun h => h.2 rfl]

theorem pieces_of_ne_nil {width : Nat} (hwidth : 0 < width) {w : List α} (hw : w ≠ []) :
    pieces width w = w.take width :: pieces width (w.drop width) := by
  rw [pieces, if_pos ⟨hwidth, hw⟩]

theorem pieces_of_length_eq {w : List α} (hw : w ≠ []) : pieces w.length w = [w] := by
  rw [pieces_of_ne_nil (List.length_pos_iff.2 hw) hw, List.take_length, List.drop_length,
    pieces_nil]

theorem flatten_pieces {width : Nat} (hwidth : 0 < width) (w : List α) :
    (pieces width w).flatten = w := by
  induction w using pieces.induct width with
  | case1 w h ih =>
      rw [pieces_of_ne_nil hwidth h.2, List.flatten_cons, ih, List.take_append_drop]
  | case2 w h =>
      have hnil : w = [] := by_contra fun hne => h ⟨hwidth, hne⟩
      rw [hnil, pieces_nil]
      rfl

theorem of_mem_pieces {width : Nat} {w l : List α} (hl : l ∈ pieces width w) :
    l ≠ [] ∧ l.length ≤ width ∧ ∀ c ∈ l, c ∈ w := by
  induction w using pieces.induct width with
  | case1 w h ih =>
      rw [pieces_of_ne_nil h.1 h.2] at hl
      rcases List.mem_cons.1 hl with rfl | hl
      · have hpos : 0 < (w.take width).length := by
          have hlength := List.length_pos_iff.2 h.2
          have hwidth := h.1
          rw [List.length_take]
          omega
        exact ⟨List.length_pos_iff.1 hpos, List.length_take_le _ _,
          fun c hc => List.mem_of_mem_take hc⟩
      · obtain ⟨hne, hlength, hmem⟩ := ih hl
        exact ⟨hne, hlength, fun c hc => List.mem_of_mem_drop (hmem c hc)⟩
  | case2 w h =>
      rw [pieces, if_neg h] at hl
      cases hl

/-! ## What lines are to be -/

/-- Between two words that fit into lines there is a break only where both and a separator do not
fit into the line that ends with the first. -/
def NeededBreaks (ink : α → Bool) (width : Nat) (words lines : List (List α)) : Prop :=
  ∀ before u after, lines = before ++ u :: after → ∀ x a b y, words = x ++ a :: b :: y →
    a.length ≤ width → b.length ≤ width →
      (before ++ [u]).flatten.filter ink = (x ++ [a]).flatten → width < u.length + 1 + b.length

/-- Words in lines. -/
structure Laid (ink : α → Bool) (width : Nat) (words lines : List (List α)) : Prop where
  short : ∀ l ∈ lines, l.length ≤ width
  content : lines.flatten.filter ink = words.flatten
  inked : ∀ l ∈ lines, l.filter ink ≠ []
  breaks : NeededBreaks ink width words lines

/-- Words that are not empty and have nothing but ink. -/
abbrev Inked (ink : α → Bool) (w : List α) : Prop := w ≠ [] ∧ ∀ c ∈ w, ink c = true

theorem Inked.filter_eq {ink : α → Bool} {w : List α} (h : Inked ink w) : w.filter ink = w :=
  List.filter_eq_self.2 h.2

/-- What holds of a page on which words stand. -/
structure Page.Holds (ink : α → Bool) (width : Nat) (p : Page α) (words : List (List α)) :
    Prop where
  short : ∀ l ∈ p.lines, l.length ≤ width
  content : p.lines.flatten.filter ink ++ p.line.filter ink = words.flatten
  inked : ∀ l ∈ p.lines, l.filter ink ≠ []
  breaks : NeededBreaks ink width words p.lines
  lineShort : p.line.length ≤ width
  lineInked : p.line ≠ [] → p.line.filter ink ≠ []
  /-- The open line is empty only behind a word that took lines of its own. -/
  last : p.line = [] → ∀ x a, words = x ++ [a] → a.length ≤ width →
    a.length = width ∧ ∃ ls, p.lines = ls ++ [a]

/-! ## What is filled -/

variable {ink : α → Bool} {sep : α} {width : Nat} {words : List (List α)} {p : Page α}

/-- An element of two lists stands in one of them. -/
theorem split_append {β : Type*} {l m before after : List β} {u : β}
    (h : l ++ m = before ++ u :: after) :
    (∃ rest, l = before ++ u :: rest) ∨ ∃ c, before = l ++ c ∧ m = c ++ u :: after := by
  rcases List.append_eq_append_iff.1 h with ⟨c, hbefore, hm⟩ | ⟨c, hl, hafter⟩
  · exact Or.inr ⟨c, hbefore, hm⟩
  · cases c with
    | nil =>
        rw [List.append_nil] at hl
        exact Or.inr ⟨[], by rw [hl, List.append_nil], hafter.symm⟩
    | cons d c =>
        obtain ⟨rfl, -⟩ := List.cons.inj hafter
        exact Or.inl ⟨c, hl⟩

/-- Two neighbours in a list with one more element: these are the last two, or they were neighbours
before. -/
theorem split_concat {β : Type*} {l x y : List β} {w a b : β} (h : l ++ [w] = x ++ a :: b :: y) :
    b = w ∧ l = x ++ [a] ∨ ∃ y', l = x ++ a :: b :: y' := by
  rcases List.eq_nil_or_concat y with rfl | ⟨y', z, rfl⟩
  · have hpieces : x ++ [a, b] = (x ++ [a]) ++ [b] := by rw [List.append_assoc]; rfl
    rw [hpieces] at h
    obtain ⟨hl, hw⟩ := List.append_inj' h rfl
    exact Or.inl ⟨(List.cons.inj hw).1.symm, hl⟩
  · have hpieces : x ++ a :: b :: (y' ++ [z]) = (x ++ a :: b :: y') ++ [z] := by
      rw [List.append_assoc]
      rfl
    rw [List.concat_eq_append, hpieces] at h
    exact Or.inr ⟨y', (List.append_inj' h rfl).1⟩

/-- Between two words there is not all the text. -/
theorem flatten_ne_of_split {x y : List (List α)} {a b : List α} (hwords : ∀ w ∈ words, w ≠ [])
    (hsplit : words = x ++ a :: b :: y) : words.flatten ≠ (x ++ [a]).flatten := by
  intro hcontent
  have hb := List.length_pos_iff.2 (hwords b (by simp [hsplit]))
  have hlength := congrArg List.length hcontent
  simp only [hsplit, List.flatten_append, List.flatten_cons, List.length_append,
    List.flatten_nil, List.length_nil] at hlength
  omega

theorem NeededBreaks.concat {lines : List (List α)} {line : List α}
    (h : NeededBreaks ink width words lines)
    (hlast : ∀ x a b y, words = x ++ a :: b :: y →
      (lines ++ [line]).flatten.filter ink = (x ++ [a]).flatten →
        width < line.length + 1 + b.length) :
    NeededBreaks ink width words (lines ++ [line]) := by
  intro before u after hlines x a b y hsplit ha hb hcontent
  rcases split_append hlines with ⟨rest, hold⟩ | ⟨c, rfl, hnew⟩
  · exact h before u rest hold x a b y hsplit ha hb hcontent
  · cases c with
    | nil =>
        obtain ⟨rfl, -⟩ := List.cons.inj hnew
        rw [List.append_nil] at hcontent
        exact hlast x a b y hsplit hcontent
    | cons d c => simp at hnew

theorem Page.holds_empty : Page.empty.Holds ink width ([] : List (List α)) where
  short := by simp [Page.empty]
  content := rfl
  inked := by simp [Page.empty]
  breaks := by simp [NeededBreaks, Page.empty]
  lineShort := Nat.zero_le _
  lineInked := fun h => absurd rfl h
  last := by simp

namespace Page.Holds

theorem content_close (h : p.Holds ink width words) :
    p.close.flatten.filter ink = words.flatten := by
  rw [← h.content, Page.close]
  split
  · next hnil => rw [hnil, List.filter_nil, List.append_nil]
  · rw [List.flatten_concat, List.filter_append]

theorem short_close (h : p.Holds ink width words) : ∀ l ∈ p.close, l.length ≤ width := by
  intro l hl
  rw [Page.close] at hl
  split at hl
  · exact h.short l hl
  · rcases List.mem_append.1 hl with hl | hl
    · exact h.short l hl
    · rw [List.mem_singleton.1 hl]
      exact h.lineShort

theorem inked_close (h : p.Holds ink width words) : ∀ l ∈ p.close, l.filter ink ≠ [] := by
  intro l hl
  rw [Page.close] at hl
  split at hl
  · exact h.inked l hl
  · next hne =>
      rcases List.mem_append.1 hl with hl | hl
      · exact h.inked l hl
      · rw [List.mem_singleton.1 hl]
        exact h.lineInked hne

/-- With one more word, of which there is nothing in the lines yet, a line with all the words
before ends with one of the full width. -/
theorem breaks_lines (h : p.Holds ink width words) {w : List α} :
    NeededBreaks ink width (words ++ [w]) p.lines := by
  intro before u after hlines x a b y hwords ha hb hcontent
  rcases split_concat hwords with ⟨rfl, hlast⟩ | ⟨y', hwords⟩
  · have hall := h.content
    rw [hlines, hlast, ← hcontent, List.flatten_append, List.flatten_cons, List.flatten_concat,
      List.filter_append, List.filter_append, List.filter_append, List.append_assoc,
      List.append_assoc] at hall
    have hnone := List.append_eq_nil_iff.1
      (List.append_right_eq_self.1 (List.append_cancel_left hall))
    have hline : p.line = [] := by_contra fun hne => h.lineInked hne hnone.2
    have hafter : after = [] := by
      cases after with
      | nil => rfl
      | cons v after =>
          have hv : v ∈ p.lines := by simp [hlines]
          rw [List.flatten_cons, List.filter_append] at hnone
          exact absurd (List.append_eq_nil_iff.1 hnone.1).1 (h.inked v hv)
    obtain ⟨hfull, ls, hend⟩ := h.last hline x a hlast ha
    rw [hlines, hafter] at hend
    have hua : u = a := (List.cons.inj (List.append_inj' hend rfl).2).1
    rw [hua]
    omega
  · exact h.breaks before u after hlines x a b y' hwords ha hb hcontent

/-- Closing the open line breaks before the new word. -/
theorem breaks_close (h : p.Holds ink width words) (hwords : ∀ w ∈ words, w ≠ []) {w : List α}
    (hneeded : p.line ≠ [] → width < p.line.length + 1 + w.length) :
    NeededBreaks ink width (words ++ [w]) p.close := by
  rw [Page.close]
  split
  · exact h.breaks_lines
  · next hne =>
      apply h.breaks_lines.concat
      intro x a b y hsplit hcontent
      rw [List.flatten_concat, List.filter_append, h.content] at hcontent
      rcases split_concat hsplit with ⟨rfl, -⟩ | ⟨y', hsplit⟩
      · exact hneeded hne
      · exact absurd hcontent (flatten_ne_of_split hwords hsplit)

/-- Lines behind all the words before the last begin inside of it. -/
theorem breaks_append {lines new : List (List α)} {w : List α}
    (h : NeededBreaks ink width (words ++ [w]) lines)
    (hcontent : lines.flatten.filter ink = words.flatten) (hnew : ∀ l ∈ new, l.filter ink ≠ []) :
    NeededBreaks ink width (words ++ [w]) (lines ++ new) := by
  intro before u after hlines x a b y hwords ha hb hsame
  rcases split_append hlines with ⟨rest, hold⟩ | ⟨c, rfl, hsplit⟩
  · exact h before u rest hold x a b y hwords ha hb hsame
  · exfalso
    have hu := List.length_pos_iff.2 (hnew u (by simp [hsplit]))
    have hbefore : (x ++ [a]).flatten.length ≤ words.flatten.length := by
      rcases split_concat hwords with ⟨-, hlast⟩ | ⟨y', hwords⟩
      · exact Nat.le_of_eq (by rw [hlast])
      · rw [hwords]
        simp only [List.flatten_append, List.flatten_cons, List.length_append, List.flatten_nil,
          List.length_nil]
        omega
    rw [← hsame, ← hcontent] at hbefore
    simp only [List.flatten_append, List.flatten_cons, List.filter_append, List.length_append,
      List.flatten_nil, List.filter_nil, List.length_nil] at hbefore
    omega

/-- Putting a word on a page. -/
theorem put (h : p.Holds ink width words) (hwords : ∀ w ∈ words, w ≠ []) (hsep : ink sep = false)
    (hwidth : 0 < width) {w : List α} (hw : Inked ink w) :
    (p.put sep width w).Holds ink width (words ++ [w]) := by
  have hflatten : (words ++ [w]).flatten = words.flatten ++ w := List.flatten_concat
  rw [Page.put]
  split
  · next hlong =>
      have hinked : ∀ l ∈ pieces width w, l.filter ink ≠ [] := by
        intro l hl
        obtain ⟨hne, -, hmem⟩ := of_mem_pieces hl
        rw [List.filter_eq_self.2 fun c hc => hw.2 c (hmem c hc)]
        exact hne
      exact
        { short := fun l hl => (List.mem_append.1 hl).elim (h.short_close l) fun hl =>
            (of_mem_pieces hl).2.1
          content := by
            rw [List.flatten_append, List.filter_append, h.content_close, flatten_pieces hwidth,
              hw.filter_eq, List.filter_nil, List.append_nil, hflatten]
          inked := fun l hl => (List.mem_append.1 hl).elim (h.inked_close l) (hinked l)
          breaks := breaks_append (h.breaks_close hwords fun _ => by omega) h.content_close hinked
          lineShort := Nat.zero_le _
          lineInked := fun hne => absurd rfl hne
          last := by
            intro _ x a hlast ha
            have hwa : w = a := (List.cons.inj (List.append_inj' hlast rfl).2).1
            subst hwa
            have hfull : w.length = width := by omega
            refine ⟨hfull, p.close, ?_⟩
            rw [← hfull, pieces_of_length_eq hw.1] }
  · next hshort =>
      split
      · next hnil =>
          have hcontent := h.content
          rw [hnil, List.filter_nil, List.append_nil] at hcontent
          exact
            { short := h.short
              content := by rw [hcontent, hw.filter_eq, hflatten]
              inked := h.inked
              breaks := h.breaks_lines
              lineShort := Nat.le_of_not_le hshort
              lineInked := fun _ => by rw [hw.filter_eq]; exact hw.1
              last := fun hline => absurd hline hw.1 }
      · next hne =>
          split
          · next hfits =>
              exact
                { short := h.short
                  content := by
                    rw [List.filter_append, List.filter_cons_of_neg (by rw [hsep]; exact
                      Bool.false_ne_true), hw.filter_eq, ← List.append_assoc, h.content, hflatten]
                  inked := h.inked
                  breaks := h.breaks_lines
                  lineShort := by
                    rw [List.length_append, List.length_cons]
                    omega
                  lineInked := fun _ => by
                    rw [List.filter_append]
                    exact List.append_ne_nil_of_left_ne_nil (h.lineInked hne) _
                  last := fun hline => absurd hline (List.append_ne_nil_of_left_ne_nil hne _) }
          · next hfull =>
              have hclose : p.lines ++ [p.line] = p.close := (if_neg hne).symm
              rw [hclose]
              exact
                { short := h.short_close
                  content := by rw [h.content_close, hw.filter_eq, hflatten]
                  inked := h.inked_close
                  breaks := h.breaks_close hwords fun _ => by omega
                  lineShort := Nat.le_of_not_le hshort
                  lineInked := fun _ => by rw [hw.filter_eq]; exact hw.1
                  last := fun hline => absurd hline hw.1 }

/-- Nothing of a later word is missing when the page is closed. -/
theorem laid (h : p.Holds ink width words) (hwords : ∀ w ∈ words, w ≠ []) :
    Laid ink width words p.close where
  short := h.short_close
  content := h.content_close
  inked := h.inked_close
  breaks := by
    rw [Page.close]
    split
    · exact h.breaks
    · apply h.breaks.concat
      intro x a b y hsplit hcontent
      rw [List.flatten_concat, List.filter_append, h.content] at hcontent
      exact absurd hcontent (flatten_ne_of_split hwords hsplit)

end Page.Holds

theorem Page.holds_run (hsep : ink sep = false) (hwidth : 0 < width)
    (hwords : ∀ w ∈ words, Inked ink w) :
    (Runs.run (Page.put sep width) Page.empty words).Holds ink width words := by
  induction words using List.reverseRecOn with
  | nil => exact Page.holds_empty
  | append_singleton words w ih =>
      rw [List.forall_mem_append, List.forall_mem_singleton] at hwords
      rw [Runs.run_append, Runs.run_cons, Runs.run_nil]
      exact (ih hwords.1).put (fun v hv => (hwords.1 v hv).1) hsep hwidth hwords.2

theorem laid_fill (hsep : ink sep = false) (hwidth : 0 < width)
    (hwords : ∀ w ∈ words, Inked ink w) : Laid ink width words (fill sep width words) :=
  (Page.holds_run hsep hwidth hwords).laid fun w hw => (hwords w hw).1

/-! ## What a line is -/

/-- A line that is as wide as its words together. -/
structure IsLine (ink : α → Bool) (sep : α) (width : Nat) (l : List α) : Prop where
  short : l.length ≤ width
  words : ∃ first rest, l = joined sep first rest ∧ Inked ink first ∧ ∀ w ∈ rest, Inked ink w

structure Page.Lined (ink : α → Bool) (sep : α) (width : Nat) (p : Page α) : Prop where
  lines : ∀ l ∈ p.lines, IsLine ink sep width l
  line : p.line ≠ [] → IsLine ink sep width p.line

theorem Page.Lined.close (h : p.Lined ink sep width) : ∀ l ∈ p.close, IsLine ink sep width l := by
  intro l hl
  rw [Page.close] at hl
  split at hl
  · exact h.lines l hl
  · next hne =>
      rcases List.mem_append.1 hl with hl | hl
      · exact h.lines l hl
      · rw [List.mem_singleton.1 hl]
        exact h.line hne

theorem isLine_of_short {w : List α} (hw : Inked ink w) (hshort : w.length ≤ width) :
    IsLine ink sep width w :=
  ⟨hshort, w, [], by simp [joined], hw, by simp⟩

theorem Page.Lined.put (h : p.Lined ink sep width) {w : List α} (hw : Inked ink w) :
    (p.put sep width w).Lined ink sep width := by
  rw [Page.put]
  split
  · refine ⟨fun l hl => (List.mem_append.1 hl).elim (h.close l) fun hl => ?_,
      fun hne => absurd rfl hne⟩
    obtain ⟨hne, hshort, hmem⟩ := of_mem_pieces hl
    exact isLine_of_short ⟨hne, fun c hc => hw.2 c (hmem c hc)⟩ hshort
  · next hshort =>
      have hword : IsLine ink sep width w := isLine_of_short hw (Nat.le_of_not_le hshort)
      split
      · exact ⟨h.lines, fun _ => hword⟩
      · next hne =>
          split
          · next hfits =>
              obtain ⟨-, first, rest, hline, hfirst, hrest⟩ := h.line hne
              refine ⟨h.lines, fun _ => ⟨?_, first, rest ++ [w], ?_, hfirst, ?_⟩⟩
              · rw [List.length_append, List.length_cons]
                omega
              · simp [hline, joined]
              · rw [List.forall_mem_append, List.forall_mem_singleton]
                exact ⟨hrest, hw⟩
          · have hclose : p.lines ++ [p.line] = p.close := (if_neg hne).symm
            rw [hclose]
            exact ⟨h.close, fun _ => hword⟩

/-- The lines that are filled are of this kind. -/
theorem isLine_of_mem_fill (hwords : ∀ w ∈ words, Inked ink w) :
    ∀ l ∈ fill sep width words, IsLine ink sep width l := by
  have hlined : (Runs.run (Page.put sep width) Page.empty words).Lined ink sep width := by
    induction words using List.reverseRecOn with
    | nil => exact ⟨by simp [Page.empty, Runs.run], fun hne => absurd rfl hne⟩
    | append_singleton words w ih =>
        rw [List.forall_mem_append, List.forall_mem_singleton] at hwords
        rw [Runs.run_append, Runs.run_cons, Runs.run_nil]
        exact (ih hwords.1).put hwords.2
  exact hlined.close

/-! ## Filling again -/

/-- The word goes into the line that is open. -/
def Page.HasRoom (width : Nat) (p : Page α) (w : List α) : Prop :=
  w.length ≤ width ∧ (p.line ≠ [] → p.line.length + 1 + w.length ≤ width)

@[simp] theorem joined_nil (sep : α) (first : List α) : joined sep first [] = first :=
  List.append_nil first

theorem joined_cons (sep : α) (first w : List α) (rest : List (List α)) :
    joined sep first (w :: rest) = joined sep (first ++ sep :: w) rest := by
  simp [joined]

theorem le_length_joined (sep : α) (first : List α) (rest : List (List α)) :
    first.length ≤ (joined sep first rest).length := by
  rw [joined, List.length_append]
  omega

theorem run_joined {p : Page α} (hline : p.line ≠ []) {rest : List (List α)}
    (hrest : ∀ w ∈ rest, w ≠ []) (hwidth : (joined sep p.line rest).length ≤ width) :
    Runs.run (Page.put sep width) p rest = ⟨p.lines, joined sep p.line rest⟩ ∧
      Runs.Always (Page.put sep width) (Page.HasRoom width) p rest := by
  induction rest generalizing p with
  | nil => exact ⟨by rw [Runs.run_nil, joined_nil], trivial⟩
  | cons w rest ih =>
      obtain ⟨hw, hrest⟩ := List.forall_mem_cons.1 hrest
      rw [joined_cons] at hwidth
      have hfits := Nat.le_trans (le_length_joined sep (p.line ++ sep :: w) rest) hwidth
      rw [List.length_append, List.length_cons] at hfits
      have hpos := List.length_pos_iff.2 hline
      have hput : p.put sep width w = ⟨p.lines, p.line ++ sep :: w⟩ := by
        rw [Page.put, if_neg (by omega), if_neg hline, if_pos (by omega)]
      have hnext : p.line ++ sep :: w ≠ [] := List.append_ne_nil_of_left_ne_nil hline _
      obtain ⟨hrun, halways⟩ := ih (p := ⟨p.lines, p.line ++ sep :: w⟩) hnext hrest hwidth
      rw [Runs.run_cons, Runs.Always, hput, joined_cons]
      exact ⟨hrun, ⟨by omega, fun _ => by omega⟩, halways⟩

/-- A line that words filled is filled by them again. -/
theorem fill_joined {first : List α} {rest : List (List α)} (hfirst : first ≠ [])
    (hrest : ∀ w ∈ rest, w ≠ []) (hwidth : (joined sep first rest).length ≤ width) :
    fill sep width (first :: rest) = [joined sep first rest] ∧
      Runs.Always (Page.put sep width) (Page.HasRoom width) Page.empty (first :: rest) := by
  have hshort := Nat.le_trans (le_length_joined sep first rest) hwidth
  have hroom : Page.empty.HasRoom width first := ⟨hshort, fun hne => absurd rfl hne⟩
  rw [fill, Runs.run_cons, Runs.Always]
  by_cases hlong : width ≤ first.length
  · cases rest with
    | nil =>
        have hfull : width = first.length := Nat.le_antisymm hlong hshort
        have hput : Page.empty.put sep width first = ⟨[first], []⟩ := by
          rw [Page.put, if_pos hlong, hfull, pieces_of_length_eq hfirst]
          rfl
        rw [hput]
        exact ⟨by rw [joined_nil]; rfl, hroom, trivial⟩
    | cons w rest =>
        rw [joined_cons] at hwidth
        have hnext := Nat.le_trans (le_length_joined sep (first ++ sep :: w) rest) hwidth
        rw [List.length_append, List.length_cons] at hnext
        omega
  · have hput : Page.empty.put sep width first = ⟨[], first⟩ := by
      have hnil : (Page.empty : Page α).line = [] := rfl
      rw [Page.put, if_neg hlong, if_pos hnil]
      rfl
    obtain ⟨hrun, halways⟩ := run_joined (p := ⟨[], first⟩) hfirst hrest hwidth
    have hne : joined sep first rest ≠ [] :=
      List.length_pos_iff.1
        (Nat.lt_of_lt_of_le (List.length_pos_iff.2 hfirst) (le_length_joined sep first rest))
    rw [hput, hrun, Page.close, if_neg hne]
    exact ⟨rfl, hroom, halways⟩

end Nazg.Lib.LineFill
