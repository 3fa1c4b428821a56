import Nazg.Lib.ShellWords

/-!
# Command lines that are read in no other way

The converse of what is known of lines of words. A line is read as its arguments only if all
those that stand in it as they are are plain (`parse_line_iff`), and a text in double quotes
is read as itself only if it has nothing that means something there (`selfQuoted_of_word`).

A quote that is read as a quote puts the reader ahead of the word: what the word still lacks
begins with a character that is taken out wherever it is not quoted, and the text gives it
none before the word is over (`lag`). A blank that is skipped is missed at the end, since all
the others are in words or between them (`cost_le`).
-/

namespace Nazg.Lib.Shell

/-! ## Blanks -/

def Token.item : Token → Item
  | .word w => .word (chars w)
  | .op o => .op o
  | .ioNumber n => .ioNumber n

theorem read_eq_some {due target : Bool} {ts : List Token} {items : List Item}
    (h : read due target ts = some items) :
    items = ts.map Token.item ∧ ∀ w, .word w ∈ ts → literal w = some (chars w) := by
  induction ts generalizing due target items with
  | nil =>
      cases h
      exact ⟨rfl, fun w hw => absurd hw List.not_mem_nil⟩
  | cons t ts ih =>
      cases t with
      | word w =>
          rw [read] at h
          split at h
          · cases h
          · obtain ⟨s, hs, hrest⟩ := Option.bind_eq_some_iff.1 h
            obtain ⟨rest, hread, rfl⟩ := Option.map_eq_some_iff.1 hrest
            obtain ⟨hitems, hwords⟩ := ih hread
            have hchars := literal_eq_some hs
            refine ⟨by rw [List.map_cons, ← hitems, Token.item, hchars], ?_⟩
            intro w' hw'
            rcases List.mem_cons.1 hw' with heq | hw'
            · cases heq
              rw [hs, hchars]
            · exact hwords w' hw'
      | op o =>
          obtain ⟨rest, hread, rfl⟩ := Option.map_eq_some_iff.1 h
          obtain ⟨hitems, hwords⟩ : rest = ts.map Token.item ∧
              ∀ w, .word w ∈ ts → literal w = some (chars w) := by
            split at hread
            · exact ih hread
            · exact ih hread
          refine ⟨by rw [List.map_cons, ← hitems, Token.item], ?_⟩
          intro w hw
          exact hwords w ((List.mem_cons.1 hw).resolve_left (by intro heq; cases heq))
      | ioNumber n =>
          obtain ⟨rest, hread, rfl⟩ := Option.map_eq_some_iff.1 h
          obtain ⟨hitems, hwords⟩ := ih hread
          refine ⟨by rw [List.map_cons, ← hitems, Token.item], ?_⟩
          intro w hw
          exact hwords w ((List.mem_cons.1 hw).resolve_left (by intro heq; cases heq))

/-- The blanks that a line needs: those in its words and one between two words, or between
a word and a number. -/
def cost : Bool → List Item → Nat
  | _, [] => 0
  | after, .word s :: is => s.countP isBlank + (if after then 1 else 0) + cost true is
  | after, .ioNumber _ :: is => (if after then 1 else 0) + cost false is
  | _, .op _ :: is => cost false is

theorem cost_false_le (is : List Item) : cost false is ≤ cost true is := by
  cases is with
  | nil => exact le_refl _
  | cons i is =>
      cases i with
      | word s => simp only [cost, Bool.false_eq_true, if_true, if_false]; omega
      | op o => exact le_refl _
      | ioNumber n => simp only [cost, Bool.false_eq_true, if_true, if_false]; omega

theorem cost_true_le (is : List Item) : cost true is ≤ cost false is + 1 := by
  cases is with
  | nil => exact Nat.zero_le _
  | cons i is =>
      cases i with
      | word s => simp only [cost, Bool.false_eq_true, if_true, if_false]; omega
      | op o => exact Nat.le_succ _
      | ioNumber n => simp only [cost, Bool.false_eq_true, if_true, if_false]; omega

/-- The blanks in a word that has begun. -/
def pending (cur : Option Word) : Nat := (chars (cur.getD [])).countP isBlank

theorem pending_extend (cur : Option Word) (ps : Word) :
    pending (extend cur ps) = pending cur + (chars ps).countP isBlank := by
  rw [pending, extend, Option.getD_some, chars_append, List.countP_append]
  rfl

/-- What a mode has promised of the blanks behind it: after an operator nothing has to be
between it and a word. -/
def Covers (cur : Option Word) (m : Mode) (n : Nat) (ts : List Token) : Prop :=
  cost false (ts.map Token.item) ≤ n + pending cur ∧
    ((∃ o, m = .operator o) → cost true (ts.map Token.item) ≤ n)

theorem cost_bareStep {cur cur' : Option Word} {m : Mode} {c : UInt8} {ts rest : List Token}
    {n : Nat} (h : bareStep cur c = some (ts, cur', m)) (hrest : Covers cur' m n rest) :
    cost false ((ts ++ rest).map Token.item) ≤ n + (if isBlank c then 1 else 0) + pending cur := by
  obtain ⟨hcost, hoperator⟩ := hrest
  have hle := cost_true_le (rest.map Token.item)
  have hflush : ∀ is : List Item,
      cost false ((flush cur).map Token.item ++ is) ≤ pending cur + cost true is := by
    intro is
    cases cur with
    | none => exact (cost_false_le is).trans (Nat.le_add_left _ _)
    | some w => simp [flush, Token.item, cost, pending]
  have hnone : pending none = 0 := rfl
  rw [List.map_append]
  rcases bareStep_cases h with ⟨hblank, rfl, rfl, rfl⟩ | ⟨-, rfl, rfl, rfl⟩ | ⟨-, rfl, rfl⟩ |
    ⟨-, rfl, rfl, -⟩ | ⟨-, -, rfl, rfl, -⟩ | ⟨-, rfl, rfl, rfl⟩ | ⟨-, -, rfl, rfl, -⟩
  · have hall := hflush (rest.map Token.item)
    rw [if_pos hblank]
    omega
  · have hall := hflush (.op [10] :: rest.map Token.item)
    rw [List.map_append, List.append_assoc]
    refine hall.trans ?_
    simp only [cost]
    omega
  · have hpending := pending_extend cur []
    have hzero : (chars []).countP isBlank = 0 := rfl
    simp only [List.map_nil, List.nil_append]
    omega
  · simp only [List.map_nil, List.nil_append]
    omega
  · simp only [List.map_nil, List.nil_append]
    omega
  · have hop := hoperator ⟨_, rfl⟩
    have hfalse := cost_false_le (rest.map Token.item)
    cases cur with
    | none =>
        simp only [flushAt, List.map_nil, List.nil_append]
        omega
    | some w =>
        have hw : pending (some w) = (chars w).countP isBlank := rfl
        rw [flushAt]
        split
        · simp only [List.map_cons, List.map_nil, Token.item, List.singleton_append, cost,
            Bool.false_eq_true, if_false]
          omega
        · simp only [List.map_cons, List.map_nil, Token.item, List.singleton_append, cost,
            Bool.false_eq_true, if_false]
          omega
  · have hpending := pending_extend cur [⟨false, c⟩]
    have hone : (chars [⟨false, c⟩]).countP isBlank = if isBlank c then 1 else 0 := by
      simp [chars, List.countP_cons]
    simp only [List.map_nil, List.nil_append]
    omega

theorem covers_of_extend {cur : Option Word} {ps : Word} {m : Mode} {c : UInt8} {n : Nat}
    {rest : List Token} (hcover : Covers (extend cur ps) m n rest)
    (hps : (chars ps).countP isBlank ≤ if isBlank c then 1 else 0) :
    cost false (rest.map Token.item) ≤ n + (if isBlank c then 1 else 0) + pending cur := by
  have hcost := hcover.1
  have hpending := pending_extend cur ps
  omega

/-- No line has fewer blanks than it needs. -/
theorem cost_le {s : Bytes} {cur : Option Word} {m : Mode} {ts : List Token}
    (h : tokens cur m s = some ts) : Covers cur m (s.countP isBlank) ts := by
  induction s generalizing cur m ts with
  | nil =>
      cases m with
      | bare =>
          cases h
          refine ⟨?_, by rintro ⟨o, ho⟩; cases ho⟩
          cases cur with
          | none => exact Nat.zero_le _
          | some w => simp [flush, Token.item, cost, pending]
      | comment =>
          cases h
          refine ⟨?_, by rintro ⟨o, ho⟩; cases ho⟩
          cases cur with
          | none => exact Nat.zero_le _
          | some w => simp [flush, Token.item, cost, pending]
      | operator o =>
          cases h
          exact ⟨Nat.zero_le _, fun _ => Nat.zero_le _⟩
      | escaped => cases h
      | single => cases h
      | double => cases h
      | doubleEscaped => cases h
  | cons c s ih =>
      obtain ⟨ts', cur', m', rest, hstep, htokens, rfl⟩ := tokens_cons_eq_some h
      have hcover : Covers cur' m' (s.countP isBlank) rest := ih htokens
      have hnone : pending none = 0 := rfl
      have hfalse := cost_false_le (rest.map Token.item)
      rw [List.countP_cons]
      cases m with
      | bare => exact ⟨cost_bareStep hstep hcover, by rintro ⟨o, ho⟩; cases ho⟩
      | escaped =>
          refine ⟨?_, by rintro ⟨o, ho⟩; cases ho⟩
          rw [step] at hstep
          split at hstep
          · cases hstep
            have hcost := hcover.1
            simp only [List.nil_append]
            omega
          · cases hstep
            exact covers_of_extend hcover (by simp [chars, List.countP_cons])
      | single =>
          refine ⟨?_, by rintro ⟨o, ho⟩; cases ho⟩
          rw [step] at hstep
          split at hstep
          · cases hstep
            have hcost := hcover.1
            simp only [List.nil_append]
            omega
          · cases hstep
            exact covers_of_extend hcover (by simp [chars, List.countP_cons])
      | double =>
          refine ⟨?_, by rintro ⟨o, ho⟩; cases ho⟩
          have hcost := hcover.1
          rw [step] at hstep
          split at hstep
          · cases hstep
            simp only [List.nil_append]
            omega
          split at hstep
          · cases hstep
            simp only [List.nil_append]
            omega
          split at hstep
          · cases hstep
          · cases hstep
            exact covers_of_extend hcover (by simp [chars, List.countP_cons])
      | doubleEscaped =>
          refine ⟨?_, by rintro ⟨o, ho⟩; cases ho⟩
          have hcost := hcover.1
          rw [step] at hstep
          split at hstep
          · cases hstep
            simp only [List.nil_append]
            omega
          split at hstep
          · cases hstep
            exact covers_of_extend hcover (by simp [chars, List.countP_cons])
          · cases hstep
            exact covers_of_extend hcover (by simp [chars, List.countP_cons, isBlank])
      | comment =>
          refine ⟨?_, by rintro ⟨o, ho⟩; cases ho⟩
          rw [step] at hstep
          split at hstep
          · have hall := cost_bareStep hstep hcover
            omega
          · cases hstep
            have hcost := hcover.1
            simp only [List.nil_append]
            omega
      | operator o =>
          rw [step] at hstep
          split at hstep
          · cases hstep
            have hcost := hcover.1
            have hop := hcover.2 ⟨_, rfl⟩
            simp only [List.nil_append]
            refine ⟨by omega, ?_⟩
            intro _
            omega
          · obtain ⟨⟨ts, cur'', m''⟩, hbare, heq⟩ := Option.map_eq_some_iff.1 hstep
            cases heq
            have hall := cost_bareStep hbare hcover
            rw [List.cons_append]
            refine ⟨?_, ?_⟩
            · change cost false ((ts ++ rest).map Token.item) ≤ _
              omega
            · intro _
              change cost false ((ts ++ rest).map Token.item) ≤ _
              omega

/-! ## The first word -/

/-- The modes in which a word is under way. -/
def Mode.InWord : Mode → Prop
  | .bare | .escaped | .single | .double | .doubleEscaped => True
  | .comment | .operator _ => False

/-- The characters that a shell may take out of a word: the quotes, the backslash and the end
of a line. -/
def removable : Bytes := [39, 34, 92, 10]

/-- What becomes of a word that has begun: it ends, the character is taken out of it or is
put into it, or a backslash that did not quote the character comes before it. -/
inductive WordStep (w : Word) (m : Mode) (c : UInt8) : List Token → Option Word → Mode → Prop
  | ends (ts cur' m') (h : ∀ w' rest rest', ts ++ rest = .word w' :: rest' → w' = w) :
      WordStep w m c ts cur' m'
  | removed (m') (h : c ∈ removable) (hm : m'.InWord) : WordStep w m c [] (some w) m'
  | kept (q m') (hm : m' = .bare ∨ m' = .double ∨ m' = .single ∧ m = .single) :
      WordStep w m c [] (some (w ++ [⟨q, c⟩])) m'
  | both (hm : m = .doubleEscaped) :
      WordStep w m c [] (some (w ++ [⟨true, 92⟩, ⟨true, c⟩])) .double

theorem inWord_of_kept {m m' : Mode}
    (h : m' = .bare ∨ m' = .double ∨ m' = .single ∧ m = .single) : m'.InWord := by
  rcases h with rfl | rfl | ⟨rfl, -⟩
  · trivial
  · trivial
  · trivial

theorem wordStep_of_step {w : Word} {m m' : Mode} {c : UInt8} {ts : List Token}
    {cur' : Option Word} (hm : m.InWord) (h : step (some w) m c = some (ts, cur', m')) :
    WordStep w m c ts cur' m' := by
  cases m with
  | comment => exact hm.elim
  | operator o => exact hm.elim
  | bare =>
      rcases bareStep_cases h with ⟨-, rfl, -, -⟩ | ⟨-, rfl, -, -⟩ | ⟨hquote, rfl, rfl⟩ |
        ⟨rfl, rfl, rfl, rfl⟩ | ⟨-, hnone, -⟩ | ⟨-, rfl, -, -⟩ | ⟨-, -, rfl, rfl, rfl⟩
      · refine .ends _ _ _ ?_
        intro w' rest rest' hts
        cases hts
        rfl
      · refine .ends _ _ _ ?_
        intro w' rest rest' hts
        cases hts
        rfl
      · rw [extend, Option.getD_some, List.append_nil]
        rcases hquote with ⟨rfl, rfl⟩ | ⟨rfl, rfl⟩
        · exact .removed _ (by decide) trivial
        · exact .removed _ (by decide) trivial
      · exact .removed _ (by decide) trivial
      · cases hnone
      · refine .ends _ _ _ ?_
        intro w' rest rest' hts
        rw [flushAt] at hts
        split at hts
        · cases hts
        · cases hts
          rfl
      · exact .kept false _ (.inl rfl)
  | escaped =>
      rw [step] at h
      split at h
      · next hc =>
          cases h
          exact .removed _ (by rw [hc]; decide) trivial
      · cases h
        exact .kept true _ (.inl rfl)
  | single =>
      rw [step] at h
      split at h
      · next hc =>
          cases h
          exact .removed _ (by rw [hc]; decide) trivial
      · cases h
        exact .kept true _ (.inr (.inr ⟨rfl, rfl⟩))
  | double =>
      rw [step] at h
      split at h
      · next hc =>
          cases h
          exact .removed _ (by rw [hc]; decide) trivial
      split at h
      · next hc =>
          cases h
          exact .removed _ (by rw [hc]; decide) trivial
      split at h
      · cases h
      · cases h
        exact .kept true _ (.inr (.inl rfl))
  | doubleEscaped =>
      rw [step] at h
      split at h
      · next hc =>
          cases h
          exact .removed _ (by rw [hc]; decide) trivial
      split at h
      · cases h
        exact .kept true _ (.inr (.inl rfl))
      · cases h
        exact .both rfl

/-- A word that has begun keeps its characters to its end. -/
theorem word_prefix {s : Bytes} {w w' : Word} {m : Mode} {ts : List Token} (hm : m.InWord)
    (h : tokens (some w) m s = some (.word w' :: ts)) : ∃ u, chars w' = chars w ++ u := by
  induction s generalizing w m ts with
  | nil =>
      cases m with
      | bare =>
          cases h
          exact ⟨[], (List.append_nil _).symm⟩
      | comment => exact hm.elim
      | operator o => exact hm.elim
      | escaped => cases h
      | single => cases h
      | double => cases h
      | doubleEscaped => cases h
  | cons c s ih =>
      obtain ⟨ts', cur', m', rest, hstep, htokens, hts⟩ := tokens_cons_eq_some h
      cases wordStep_of_step hm hstep with
      | ends _ _ _ hends =>
          rw [hends w' rest ts hts.symm]
          exact ⟨[], (List.append_nil _).symm⟩
      | removed _ _ hin =>
          rw [List.nil_append] at hts
          exact ih hin (hts ▸ htokens)
      | kept q _ hmode =>
          have hin := inWord_of_kept hmode
          rw [List.nil_append] at hts
          obtain ⟨u, hu⟩ := ih hin (hts ▸ htokens)
          exact ⟨c :: u, by rw [hu, chars_append, List.append_assoc]; rfl⟩
      | both _ =>
          rw [List.nil_append] at hts
          have hin : Mode.InWord .double := trivial
          obtain ⟨u, hu⟩ := ih hin (hts ▸ htokens)
          exact ⟨92 :: c :: u, by rw [hu, chars_append, List.append_assoc]; rfl⟩

theorem notMem_removable_of_isBlank {c : UInt8} (hc : isBlank c = true) : c ∉ removable := by
  intro hmem
  have hall : ∀ c ∈ removable, isBlank c = false := by decide
  rw [hall c hmem] at hc
  cases hc

/-- A character that is never taken out of a word ends it or goes into it: what the word
still lacks is not gained. -/
theorem lag_blank {b : UInt8} (hb : isBlank b = true) {rest : Bytes} {y : Bytes}
    (hy : ∀ c ∈ y, c ∈ removable) (hne : y ≠ []) {w w' : Word} {m : Mode} {ts : List Token}
    (hm : m.InWord) (h : tokens (some w) m (b :: rest) = some (.word w' :: ts)) :
    chars w' ≠ chars w ++ y := by
  intro hchars
  obtain ⟨ts', cur', m', rest', hstep, htokens, hts⟩ := tokens_cons_eq_some h
  cases wordStep_of_step hm hstep with
  | ends _ _ _ hends =>
      rw [hends w' rest' ts hts.symm] at hchars
      exact hne (List.append_right_eq_self.1 hchars.symm)
  | removed _ hmem _ => exact notMem_removable_of_isBlank hb hmem
  | kept q _ hmode =>
      rw [List.nil_append] at hts
      obtain ⟨u, hu⟩ := word_prefix (inWord_of_kept hmode) (hts ▸ htokens)
      rw [hchars, chars_append, List.append_assoc] at hu
      have hyb : y = b :: u := List.append_cancel_left hu
      exact notMem_removable_of_isBlank hb (hy b (hyb ▸ List.mem_cons_self))
  | both _ =>
      rw [List.nil_append] at hts
      have hin : Mode.InWord .double := trivial
      obtain ⟨u, hu⟩ := word_prefix hin (hts ▸ htokens)
      rw [hchars, chars_append, List.append_assoc] at hu
      have hyb : y = 92 :: b :: u := List.append_cancel_left hu
      have hmem : b ∈ y := hyb ▸ List.mem_cons_of_mem _ List.mem_cons_self
      exact notMem_removable_of_isBlank hb (hy b hmem)

theorem lag_ends {rest : Bytes} (hrest : Ends rest) {y : Bytes} (hy : ∀ c ∈ y, c ∈ removable)
    (hne : y ≠ []) {w w' : Word} {m : Mode} {ts : List Token} (hm : m.InWord)
    (h : tokens (some w) m rest = some (.word w' :: ts)) : chars w' ≠ chars w ++ y := by
  cases rest with
  | cons b rest => exact lag_blank (hrest b (by simp)) hy hne hm h
  | nil =>
      intro hchars
      cases m with
      | bare =>
          cases h
          exact hne (List.append_right_eq_self.1 hchars.symm)
      | comment => exact hm.elim
      | operator o => exact hm.elim
      | escaped => cases h
      | single => cases h
      | double => cases h
      | doubleEscaped => cases h

/-- How much a word lacks at least in a mode; in one that was entered behind a quote that is
not the first, `n`. -/
def Mode.least (n : Nat) : Mode → Nat
  | .doubleEscaped => 2
  | .single | .escaped => n
  | _ => 1

theorem Mode.one_le_least {n : Nat} (hn : 1 ≤ n) (m : Mode) : 1 ≤ m.least n := by
  cases m with
  | doubleEscaped => exact Nat.le_succ 1
  | single => exact hn
  | escaped => exact hn
  | bare => exact le_refl 1
  | double => exact le_refl 1
  | comment => exact le_refl 1
  | operator o => exact le_refl 1

theorem Mode.least_le_two {n : Nat} (hn : n ≤ 2) (m : Mode) : m.least n ≤ 2 := by
  cases m with
  | doubleEscaped => exact le_refl 2
  | single => exact hn
  | escaped => exact hn
  | bare => exact Nat.le_succ 1
  | double => exact Nat.le_succ 1
  | comment => exact Nat.le_succ 1
  | operator o => exact Nat.le_succ 1

/-- Once something has been taken out of a word, the word stays behind its text: what it
still lacks begins with a removable character, and no such character comes to be before the
text is over. -/
theorem lag {n : Nat} (hone : 1 ≤ n) (htwo : n ≤ 2) {rest : Bytes} {w' : Word}
    (hend : ∀ y w m ts, (∀ c ∈ y, c ∈ removable) → m.InWord → m.least n ≤ y.length →
      tokens (some w) m rest = some (.word w' :: ts) → chars w' ≠ chars w ++ y)
    {v y : Bytes} (hy : ∀ c ∈ y, c ∈ removable) {w : Word} {m : Mode} {ts : List Token}
    (hm : m.InWord) (hlen : m.least n ≤ y.length)
    (h : tokens (some w) m (v ++ rest) = some (.word w' :: ts)) :
    chars w' ≠ chars w ++ (y ++ v) := by
  induction v generalizing y w m ts with
  | nil =>
      rw [List.append_nil]
      exact hend y w m ts hy hm hlen h
  | cons c v ih =>
      intro hchars
      have hpos := Mode.one_le_least hone m
      have hne : y ≠ [] := by
        rintro rfl
        simp at hlen
        omega
      obtain ⟨ts', cur', m', rest', hstep, htokens, hts⟩ := tokens_cons_eq_some h
      cases wordStep_of_step hm hstep with
      | ends _ _ _ hends =>
          rw [hends w' rest' ts hts.symm] at hchars
          have hnil : y ++ c :: v = [] := List.append_right_eq_self.1 hchars.symm
          exact hne (List.append_eq_nil_iff.1 hnil).1
      | removed _ hmem hin =>
          -- what the word lacks has grown
          rw [List.nil_append] at hts
          have hle := Mode.least_le_two htwo m'
          refine ih (y := y ++ [c]) ?_ hin ?_ (hts ▸ htokens) (by rw [hchars]; simp)
          · intro d hd
            rcases List.mem_append.1 hd with hd | hd
            · exact hy d hd
            · exact List.mem_singleton.1 hd ▸ hmem
          · rw [List.length_append, List.length_singleton]
            omega
      | kept q _ hmode =>
          have hin := inWord_of_kept hmode
          rw [List.nil_append] at hts
          obtain ⟨u, hu⟩ := word_prefix hin (hts ▸ htokens)
          rw [hchars, chars_append, List.append_assoc] at hu
          have hyv : y ++ c :: v = c :: u := List.append_cancel_left hu
          have hle : m'.least n ≤ y.length := by
            rcases hmode with rfl | rfl | ⟨rfl, rfl⟩
            · exact hpos.trans hlen
            · exact hpos.trans hlen
            · exact hlen
          cases y with
          | nil => exact hne rfl
          | cons d y =>
              obtain ⟨rfl, -⟩ := List.cons.inj hyv
              refine ih (y := y ++ [d]) ?_ hin (by simpa using hle) (hts ▸ htokens) ?_
              · intro e he
                refine hy e ?_
                simpa [or_comm] using he
              · rw [hchars]
                simp [chars]
      | both hmode =>
          rw [List.nil_append] at hts
          have hin : Mode.InWord .double := trivial
          obtain ⟨u, hu⟩ := word_prefix hin (hts ▸ htokens)
          rw [hchars, chars_append, List.append_assoc] at hu
          have hyv : y ++ c :: v = 92 :: c :: u := List.append_cancel_left hu
          rw [hmode] at hlen
          cases y with
          | nil => exact hne rfl
          | cons d y =>
              cases y with
              | nil => simp [Mode.least] at hlen
              | cons e y =>
                  obtain ⟨hd, hyv⟩ := List.cons.inj hyv
                  obtain ⟨he, -⟩ := List.cons.inj hyv
                  refine ih (y := y ++ [e]) ?_ hin (by simp [Mode.least]) (hts ▸ htokens) ?_
                  · intro f hf
                    refine hy f ?_
                    have hor : f ∈ y ∨ f = e := by simpa using hf
                    rcases hor with hf | hf
                    · simp [hf]
                    · simp [hf]
                  · rw [hchars, hd, he]
                    simp [chars]

/-- A word out of which something has been taken is not its text, if the text ends there. -/
theorem ne_text_of_removed {v rest : Bytes} (hrest : Ends rest) {y : Bytes}
    (hy : ∀ c ∈ y, c ∈ removable) (hne : y ≠ []) {w w' : Word} {m : Mode} {ts : List Token}
    (hm : m.InWord) (hmode : m ≠ .doubleEscaped)
    (h : tokens (some w) m (v ++ rest) = some (.word w' :: ts)) :
    chars w' ≠ chars w ++ (y ++ v) := by
  have hpos := List.length_pos_iff.2 hne
  refine lag (le_refl 1) (Nat.le_succ 1) ?_ hy hm ?_ h
  · intro y w m ts hy hm hlen h
    have hleast := Mode.one_le_least (le_refl 1) m
    refine lag_ends hrest hy ?_ hm h
    rintro rfl
    simp at hlen
    omega
  · cases m with
    | doubleEscaped => exact absurd rfl hmode
    | single => exact hpos
    | escaped => exact hpos
    | bare => exact hpos
    | double => exact hpos
    | comment => exact hpos
    | operator o => exact hpos

/-- A word that is its text from here on has only ordinary characters left. -/
theorem ordinary_of_word {v rest : Bytes} (hrest : Ends rest) {w w' : Word} {ts : List Token}
    (h : tokens (some w) .bare (v ++ rest) = some (.word w' :: ts))
    (hchars : chars w' = chars w ++ v) : ∀ c ∈ v, isOrdinary c = true := by
  induction v generalizing w ts with
  | nil =>
      intro c hc
      exact absurd hc List.not_mem_nil
  | cons c v ih =>
      obtain ⟨ts', cur', m', rest', hstep, htokens, hts⟩ := tokens_cons_eq_some h
      have hshort : w' ≠ w := by
        intro heq
        rw [heq] at hchars
        exact absurd (List.append_right_eq_self.1 hchars.symm) (List.cons_ne_nil c v)
      have hbehind : c ∈ removable → ∀ m, m.InWord → m ≠ .doubleEscaped → ts' = [] →
          cur' = some w → m' = m → False := by
        intro hc m hm hne hnil hcur hmode
        rw [hnil, List.nil_append] at hts
        rw [hcur, hmode, ← hts] at htokens
        refine ne_text_of_removed hrest (y := [c]) ?_ (by simp) hm hne htokens hchars
        intro d hd
        rwa [List.mem_singleton.1 hd]
      have hextend : extend (some w) [] = some w := by
        rw [extend, Option.getD_some, List.append_nil]
      rcases bareStep_cases hstep with ⟨-, rfl, -, -⟩ | ⟨-, rfl, -, -⟩ | ⟨hquote, hnil, hcur⟩ |
        ⟨rfl, hnil, hcur, hmode⟩ | ⟨-, hnone, -⟩ | ⟨-, rfl, -, -⟩ | ⟨hordinary, -, rfl, rfl, rfl⟩
      · cases hts
        exact absurd rfl hshort
      · cases hts
        exact absurd rfl hshort
      · rw [hextend] at hcur
        rcases hquote with ⟨rfl, hmode⟩ | ⟨rfl, hmode⟩
        · exact (hbehind (by decide) .single trivial (by intro heq; cases heq) hnil hcur hmode).elim
        · exact (hbehind (by decide) .double trivial (by intro heq; cases heq) hnil hcur hmode).elim
      · exact (hbehind (by decide) .escaped trivial (by intro heq; cases heq) hnil hcur hmode).elim
      · cases hnone
      · rw [flushAt] at hts
        split at hts
        · cases hts
        · cases hts
          exact absurd rfl hshort
      · rw [List.nil_append] at hts
        rw [← hts] at htokens
        intro d hd
        rcases List.mem_cons.1 hd with rfl | hd
        · exact hordinary
        · refine ih htokens ?_ d hd
          rw [hchars]
          simp [chars]

theorem head_ne_word_of_operator {o s : Bytes} {w : Word} {ts : List Token} :
    tokens none (.operator o) s ≠ some (.word w :: ts) := by
  intro h
  induction s generalizing o with
  | nil => cases h
  | cons c s ih =>
      obtain ⟨ts', cur', m', rest, hstep, htokens, hts⟩ := tokens_cons_eq_some h
      rw [step] at hstep
      split at hstep
      · cases hstep
        rw [List.nil_append] at hts
        exact ih (hts ▸ htokens)
      · obtain ⟨r, -, heq⟩ := Option.map_eq_some_iff.1 hstep
        rw [← (Prod.mk.inj heq).1] at hts
        cases hts

theorem head_ne_word_of_comment {s : Bytes} {w : Word} {ts : List Token} :
    tokens none .comment s ≠ some (.word w :: ts) := by
  intro h
  induction s with
  | nil => cases h
  | cons c s ih =>
      obtain ⟨ts', cur', m', rest, hstep, htokens, hts⟩ := tokens_cons_eq_some h
      rw [step] at hstep
      split at hstep
      · next hc =>
          subst hc
          cases hstep
          cases hts
      · cases hstep
        rw [List.nil_append] at hts
        exact ih (hts ▸ htokens)

theorem tokens_escaped_none {c : UInt8} {s : Bytes} {w : Word} {ts : List Token} (hc : c ≠ 10)
    (h : tokens none .escaped (c :: s) = some (.word w :: ts)) :
    tokens (some [⟨true, c⟩]) .bare s = some (.word w :: ts) ∧ ∃ u, chars w = c :: u := by
  have hstep : step none .escaped c = some ([], some [⟨true, c⟩], .bare) := by
    rw [step, if_neg hc]
    rfl
  have hin : Mode.InWord .bare := trivial
  rw [tokens_of_step hstep] at h
  exact ⟨h, word_prefix hin h⟩

/-- A word that is all of a text, of which `y` has been taken out: nothing has, and the text
is ordinary; or a blank was skipped. -/
theorem ordinary_of_start {v rest : Bytes} (hrest : Ends rest) {y : Bytes}
    (hy : ∀ c ∈ y, c ∈ removable) {w' : Word} {ts : List Token}
    (h : tokens none .bare (v ++ rest) = some (.word w' :: ts)) (hchars : chars w' = y ++ v)
    (hcost : (v ++ rest).countP isBlank ≤ cost false ((Token.word w' :: ts).map Token.item)) :
    y = [] ∧ v ≠ [] ∧ v.head? ≠ some 35 ∧ ∀ c ∈ v, isOrdinary c = true := by
  have hskip : ∀ b s, isBlank b = true →
      tokens none .bare (b :: s) = some (.word w' :: ts) →
      (b :: s).countP isBlank ≤ cost false ((Token.word w' :: ts).map Token.item) → False := by
    intro b s hb hread hle
    rw [tokens_blank hb] at hread
    obtain ⟨rest', htokens, heq⟩ := Option.map_eq_some_iff.1 hread
    rw [flush, List.nil_append] at heq
    have hcovers := (cost_le (heq ▸ htokens)).1
    have hnone : pending none = 0 := rfl
    rw [List.countP_cons, if_pos hb] at hle
    omega
  induction hlen : v.length using Nat.strong_induction_on generalizing v y with
  | _ n ih =>
  cases v with
  | nil =>
      cases rest with
      | nil => cases h
      | cons b rest => exact (hskip b rest (hrest b (by simp)) h hcost).elim
  | cons c v =>
      obtain ⟨ts', cur', m', rest', hstep, htokens, hts⟩ := tokens_cons_eq_some h
      have hquoted : c ∈ removable → ∀ m, m.InWord → m ≠ .doubleEscaped → ts' = [] →
          cur' = some [] → m' = m → False := by
        intro hc m hm hne hnil hcur hmode
        rw [hnil, List.nil_append] at hts
        rw [hcur, hmode, ← hts] at htokens
        refine ne_text_of_removed hrest (y := y ++ [c]) ?_ (by simp) hm hne htokens ?_
        · intro d hd
          rcases List.mem_append.1 hd with hd | hd
          · exact hy d hd
          · rwa [List.mem_singleton.1 hd]
        · rw [hchars]
          simp [chars]
      rcases bareStep_cases hstep with ⟨hblank, -, -, -⟩ | ⟨-, rfl, -, -⟩ |
        ⟨hquote, hnil, hcur⟩ | ⟨rfl, rfl, rfl, rfl⟩ | ⟨-, -, rfl, rfl, rfl⟩ |
        ⟨-, rfl, rfl, rfl⟩ | ⟨hordinary, hhash, rfl, rfl, rfl⟩
      · exact (hskip c (v ++ rest) hblank h hcost).elim
      · cases hts
      · rcases hquote with ⟨rfl, hmode⟩ | ⟨rfl, hmode⟩
        · exact (hquoted (by decide) .single trivial (by intro heq; cases heq) hnil hcur hmode).elim
        · exact (hquoted (by decide) .double trivial (by intro heq; cases heq) hnil hcur hmode).elim
      · rw [List.nil_append] at hts
        rw [← hts] at htokens
        obtain ⟨e, z, hz⟩ := List.exists_cons_of_ne_nil (l := y ++ [92]) (by simp)
        have hez : ∀ x ∈ e :: z, x ∈ removable := by
          intro x hx
          rw [← hz] at hx
          rcases List.mem_append.1 hx with hx | hx
          · exact hy x hx
          · rw [List.mem_singleton.1 hx]
            decide
        have hword : chars w' = e :: (z ++ v) := by
          rw [hchars, ← List.cons_append, ← hz]
          simp
        cases v with
        | nil =>
            cases rest with
            | nil => cases htokens
            | cons b rest =>
                have hb := hrest b (by simp)
                have hline : b ≠ 10 := by
                  rintro rfl
                  cases hb
                obtain ⟨-, u, hu⟩ := tokens_escaped_none hline htokens
                rw [hword] at hu
                rw [(List.cons.inj hu).1] at hez
                exact absurd (hez b List.mem_cons_self) (notMem_removable_of_isBlank hb)
        | cons d v =>
            by_cases hline : d = 10
            · -- no word has begun yet
              subst hline
              have hnext : step none .escaped 10 = some ([], none, .bare) := rfl
              change tokens none .escaped (10 :: (v ++ rest)) = _ at htokens
              rw [tokens_of_step hnext] at htokens
              have hempty := (ih v.length (by simp at hlen; omega) (y := y ++ [92, 10]) ?_ htokens
                (by rw [hchars]; simp) ?_ rfl).1
              · simp at hempty
              · intro x hx
                rcases List.mem_append.1 hx with hx | hx
                · exact hy x hx
                · rcases List.mem_cons.1 hx with rfl | hx
                  · decide
                  · rw [List.mem_singleton.1 hx]
                    decide
              · simpa [isBlank] using hcost
            · change tokens none .escaped (d :: (v ++ rest)) = _ at htokens
              obtain ⟨hrest', u, hu⟩ := tokens_escaped_none hline htokens
              rw [hword] at hu
              obtain ⟨rfl, -⟩ := List.cons.inj hu
              have hin : Mode.InWord .bare := trivial
              have hbare : Mode.bare ≠ .doubleEscaped := by
                intro heq
                cases heq
              refine (ne_text_of_removed hrest (y := z ++ [e]) ?_ (by simp) hin hbare hrest' ?_).elim
              · intro x hx
                refine hez x ?_
                simpa [or_comm] using hx
              · rw [hword]
                simp [chars]
      · rw [List.nil_append] at hts
        exact absurd (hts ▸ htokens) head_ne_word_of_comment
      · rw [flushAt, List.nil_append] at hts
        exact absurd (hts ▸ htokens) head_ne_word_of_operator
      · rw [List.nil_append] at hts
        rw [← hts] at htokens
        cases y with
        | nil =>
            refine ⟨rfl, List.cons_ne_nil c v, ?_, ?_⟩
            · simpa using hhash
            · intro d hd
              rcases List.mem_cons.1 hd with rfl | hd
              · exact hordinary
              · refine ordinary_of_word hrest htokens ?_ d hd
                rw [hchars]
                rfl
        | cons d y =>
            have hin : Mode.InWord .bare := trivial
            obtain ⟨u, hu⟩ := word_prefix hin htokens
            rw [hchars] at hu
            obtain ⟨rfl, -⟩ := List.cons.inj hu
            have hall : ∀ e ∈ removable, isOrdinary e = false := by decide
            rw [hall d (hy d List.mem_cons_self)] at hordinary
            cases hordinary

/-! ## Lines -/

theorem faithful_head {a : Arg} {rest : Bytes} (hrest : Ends rest) {ts : List Token}
    {items : List Item} (h : tokens none .bare (a.text ++ rest) = some ts)
    (hts : ts.map Token.item = .word a.value :: items)
    (hliteral : ∀ w, .word w ∈ ts → literal w = some (chars w))
    (hcost : rest.countP isBlank ≤ cost true items) : a.Faithful := by
  cases a with
  | spelled text value => trivial
  | asIs v =>
      obtain ⟨t, ts, rfl⟩ := List.exists_cons_of_ne_nil (l := ts) (by
        rintro rfl
        cases hts)
      cases t with
      | op o => cases hts
      | ioNumber n => cases hts
      | word w =>
          obtain ⟨hitem, hitems⟩ := List.cons.inj hts
          have hchars : chars w = v := Item.word.inj hitem
          have hall : (v ++ rest).countP isBlank ≤
              cost false ((Token.word w :: ts).map Token.item) := by
            rw [hts, List.countP_append, cost]
            exact Nat.add_le_add_left hcost _
          obtain ⟨-, hne, hhash, hordinary⟩ :=
            ordinary_of_start hrest (v := v) (y := []) (by simp) h hchars hall
          refine ⟨hne, hhash, hordinary, ?_⟩
          change tokens none .bare (v ++ rest) = _ at h
          rw [tokens_ordinary_none hordinary hne hhash, tokens_ends hrest] at h
          obtain ⟨ts', -, heq⟩ := Option.map_eq_some_iff.1 h
          have hword := hliteral w List.mem_cons_self
          rwa [← Token.word.inj (List.cons.inj heq).1, chars_bare] at hword

theorem countP_argsText_le (as : List Arg) {s : Bytes} {items : List Item}
    (hcost : s.countP isBlank ≤ cost true items) : (argsText as ++ s).countP isBlank ≤
      cost true (as.map (fun b => .word b.value) ++ items) := by
  induction as with
  | nil => exact hcost
  | cons a as ih =>
      have hblanks : a.text.countP isBlank = a.value.countP isBlank := by
        cases a with
        | asIs a => rfl
        | spelled text value _ h => exact h
      have hsplit : argsText (a :: as) ++ s = 32 :: (a.text ++ (argsText as ++ s)) := by
        simp [argsText]
      have hspace : isBlank 32 = true := rfl
      rw [hsplit, List.countP_cons, if_pos hspace, List.countP_append, hblanks, List.map_cons,
        List.cons_append, cost, if_pos rfl]
      omega

/-- A line that is read as its arguments and then something that needs as many blanks as
there are behind them has only faithful ones. -/
theorem faithful_of_tokens {a : Arg} {as : List Arg} {s : Bytes} (hs : Ends s) {ts : List Token}
    {items : List Item} (h : tokens none .bare (a.text ++ (argsText as ++ s)) = some ts)
    (hts : ts.map Token.item = (a :: as).map (fun b => .word b.value) ++ items)
    (hliteral : ∀ w, .word w ∈ ts → literal w = some (chars w))
    (hcost : s.countP isBlank ≤ cost true items) : ∀ b ∈ a :: as, b.Faithful := by
  induction as generalizing a ts with
  | nil =>
      have ha := faithful_head (ends_argsText [] hs) h hts hliteral (countP_argsText_le [] hcost)
      intro b hb
      rwa [List.mem_singleton.1 hb]
  | cons b as ih =>
      have hends := ends_argsText (b :: as) hs
      have ha := faithful_head hends h hts hliteral (countP_argsText_le (b :: as) hcost)
      rw [ha.tokens hends] at h
      obtain ⟨ts, hrest, rfl⟩ := Option.map_eq_some_iff.1 h
      have hsplit : argsText (b :: as) ++ s = 32 :: (b.text ++ (argsText as ++ s)) := by
        simp [argsText]
      rw [hsplit, tokens_blank rfl] at hrest
      obtain ⟨ts, htokens, rfl⟩ := Option.map_eq_some_iff.1 hrest
      have hall := ih htokens (List.cons.inj hts).2
        fun w hw => hliteral w (List.mem_cons_of_mem _ hw)
      intro c hc
      rcases List.mem_cons.1 hc with rfl | hc
      · exact ha
      · exact hall c hc

/-- A line is read as its arguments and then what follows exactly if they are faithful and
the first is the name of a command. -/
theorem parse_line_iff {a : Arg} {as : List Arg} {s : Bytes} (hs : Ends s) {items : List Item}
    (hitems : (tokens none .bare s).bind (read false false) = some items)
    (hcost : s.countP isBlank ≤ cost true items) :
    parse (a.text ++ (argsText as ++ s)) = some ((a :: as).map (fun b => .word b.value) ++ items) ↔
      (∀ b ∈ a :: as, b.Faithful) ∧ isKeyword a.toWord = false := by
  constructor
  · intro h
    obtain ⟨ts, htokens, hread⟩ := Option.bind_eq_some_iff.1 h
    obtain ⟨hts, hliteral⟩ := read_eq_some hread
    have hall := faithful_of_tokens hs htokens hts.symm hliteral hcost
    refine ⟨hall, ?_⟩
    rw [lex, tokens_line hall hs] at htokens
    obtain ⟨ts, -, rfl⟩ := Option.map_eq_some_iff.1 htokens
    cases hkeyword : isKeyword a.toWord with
    | false => rfl
    | true =>
        rw [List.map_cons, List.cons_append, read, if_pos ⟨rfl, by simp, hkeyword⟩] at hread
        cases hread
  · rintro ⟨hall, hkeyword⟩
    rw [parse_faithful hall hkeyword hs, hitems, Option.map_some]

/-! ## Double quotes -/

/-- A word that has lost something does not gain it at a closing quote. -/
theorem lag_quote {rest : Bytes} (hrest : Ends rest) {y : Bytes} (hy : ∀ c ∈ y, c ∈ removable)
    {w w' : Word} {m : Mode} {ts : List Token} (hm : m.InWord) (hlen : m.least 2 ≤ y.length)
    (h : tokens (some w) m (34 :: rest) = some (.word w' :: ts)) : chars w' ≠ chars w ++ y := by
  have hne : y ≠ [] := by
    have hpos := Mode.one_le_least (n := 2) (by omega) m
    rintro rfl
    simp at hlen
    omega
  have hgoes : ∀ m', m'.InWord → step (some w) m 34 = some ([], some w, m') →
      chars w' ≠ chars w ++ y := by
    intro m' hin hstep
    rw [tokens_of_step hstep] at h
    exact lag_ends hrest hy hne hin h
  have hkeeps : ∀ m', m'.InWord → m.least 2 = 2 →
      step (some w) m 34 = some ([], some (w ++ [⟨true, 34⟩]), m') →
        chars w' ≠ chars w ++ y := by
    intro m' hin htwo hstep hchars
    rw [tokens_of_step hstep] at h
    obtain ⟨u, hu⟩ := word_prefix hin h
    rw [hchars, chars_append, List.append_assoc] at hu
    have hyu : y = 34 :: u := List.append_cancel_left hu
    have hune : u ≠ [] := by
      rintro rfl
      rw [htwo, hyu] at hlen
      simp at hlen
    have hyrest : ∀ c ∈ u, c ∈ removable := fun c hc => hy c (hyu ▸ List.mem_cons_of_mem _ hc)
    refine lag_ends hrest hyrest hune hin h ?_
    rw [hchars, hyu]
    simp [chars]
  cases m with
  | comment => exact hm.elim
  | operator o => exact hm.elim
  | bare =>
      refine hgoes .double trivial ?_
      change some ([], some (w ++ []), Mode.double) = _
      rw [List.append_nil]
  | double => exact hgoes .bare trivial rfl
  | escaped => exact hkeeps .bare trivial rfl rfl
  | single => exact hkeeps .single trivial rfl rfl
  | doubleEscaped => exact hkeeps .double trivial rfl rfl

/-- A word in double quotes is its text only if the quotes leave it as it is. -/
theorem selfQuoted_of_word {p rest : Bytes} (hrest : Ends rest) {w w' : Word} {ts : List Token}
    (h : tokens (some w) .double (p ++ 34 :: rest) = some (.word w' :: ts))
    (hchars : chars w' = chars w ++ p) : selfQuoted p = true := by
  have hlag : ∀ {y v : Bytes} {w : Word} {m : Mode} {ts : List Token},
      (∀ c ∈ y, c ∈ removable) → m.InWord → m.least 2 ≤ y.length →
        tokens (some w) m (v ++ 34 :: rest) = some (.word w' :: ts) →
          chars w' ≠ chars w ++ (y ++ v) := by
    intro y v w m ts hy hm hlen h
    refine lag (n := 2) (by omega) (le_refl 2) ?_ hy hm hlen h
    intro y w m ts hy hm hlen h
    exact lag_quote hrest hy hm hlen h
  have hdouble : Mode.InWord .double := trivial
  induction p generalizing w with
  | nil => rfl
  | cons c p ih =>
      rw [List.cons_append] at h
      rw [selfQuoted, Bool.and_eq_true]
      by_cases hescape : c = 92
      · subst hescape
        rw [tokens_of_step (step_double_92 w)] at h
        rw [if_pos rfl]
        cases p with
        | nil =>
            -- the backslash takes the closing quote
            have hstep : step (some w) .doubleEscaped 34 =
                some ([], some (w ++ [⟨true, 34⟩]), .double) := rfl
            rw [List.nil_append, tokens_of_step hstep] at h
            obtain ⟨u, hu⟩ := word_prefix hdouble h
            rw [hchars, chars_append, List.append_assoc] at hu
            cases List.append_cancel_left hu
        | cons d p =>
            rw [List.cons_append] at h
            cases hd : isEscapable d with
            | false =>
                rw [tokens_cons, step_doubleEscaped hd, ← tokens_cons] at h
                refine ⟨by simp [hd], ih h ?_⟩
                rw [hchars]
                simp [chars]
            | true =>
                exfalso
                by_cases hline : d = 10
                · subst hline
                  have hstep : step (some w) .doubleEscaped 10 = some ([], some w, .double) := rfl
                  rw [tokens_of_step hstep] at h
                  exact hlag (y := [92, 10]) (by decide) hdouble (by simp [Mode.least]) h hchars
                · have hstep : step (some w) .doubleEscaped d =
                      some ([], some (w ++ [⟨true, d⟩]), .double) := by
                    have hkept : isExpansion d = true ∨ d = 34 ∨ d = 92 := by
                      simpa [isEscapable, hline, or_assoc] using hd
                    rw [step, if_neg hline, if_pos hkept]
                    rfl
                  rw [tokens_of_step hstep] at h
                  obtain ⟨u, hu⟩ := word_prefix hdouble h
                  rw [hchars, chars_append, List.append_assoc] at hu
                  obtain ⟨hd92, -⟩ := List.cons.inj (List.append_cancel_left hu)
                  subst hd92
                  refine hlag (y := [92]) (by decide) hdouble (by simp [Mode.least]) h ?_
                  rw [hchars]
                  simp [chars]
      · rw [if_neg hescape]
        by_cases hquote : c = 34
        · exfalso
          subst hquote
          have hstep : step (some w) .double 34 = some ([], some w, .bare) := rfl
          have hbare : Mode.InWord .bare := trivial
          rw [tokens_of_step hstep] at h
          exact hlag (y := [34]) (by decide) hbare (by simp [Mode.least]) h hchars
        · cases hexpansion : isExpansion c with
          | true =>
              rw [tokens_cons, step, if_neg hquote, if_neg hescape, if_pos hexpansion] at h
              cases h
          | false =>
              rw [tokens_of_step (step_double hescape hquote hexpansion w)] at h
              refine ⟨by simp [hquote], ih h ?_⟩
              rw [hchars]
              simp [chars]

end Nazg.Lib.Shell
