import Mathlib.Data.List.Basic
import Nazg.Lib.Shell

/-!
# Command lines made of words

What a shell reads in a line of words with blanks between them. An argument can stand in
the line as it is, or be spelled in some way that is read as nothing but itself. If all
those that stand as they are are plain, the line is read as these words.
-/

namespace Nazg.Lib.Shell

/-! ## Reading on -/

@[simp] theorem chars_bare (s : Bytes) : chars (bare s) = s := by
  simp [chars, bare, Function.comp_def]

@[simp] theorem chars_quoted (s : Bytes) : chars (quoted s) = s := by
  simp [chars, quoted, Function.comp_def]

@[simp] theorem chars_append (w w' : Word) : chars (w ++ w') = chars w ++ chars w' :=
  List.map_append

theorem literal_eq_some {w : Word} {s : Bytes} (h : literal w = some s) : chars w = s := by
  rw [literal] at h
  split at h
  · cases h
  · exact Option.some.inj h

theorem isPattern_quoted (s : Bytes) : isPattern (quoted s) = false := by
  induction s with
  | nil => rfl
  | cons c s ih =>
      rw [quoted] at ih
      rw [quoted, List.map_cons, isPattern, ih]
      simp

theorem literal_quoted (s : Bytes) : literal (quoted s) = some s := by
  have htilde : (quoted s).head? ≠ some ⟨false, 126⟩ := by
    cases s with
    | nil => simp [quoted]
    | cons c s => simp [quoted]
  rw [literal, if_neg (by simp [htilde, isPattern_quoted]), chars_quoted]

theorem tokens_cons (cur : Option Word) (m : Mode) (c : UInt8) (s : Bytes) :
    tokens cur m (c :: s) = (step cur m c).bind fun r => (tokens r.2.1 r.2.2 s).map (r.1 ++ ·) :=
  rfl

theorem tokens_cons_eq_some {cur : Option Word} {m : Mode} {c : UInt8} {s : Bytes}
    {ts : List Token} (h : tokens cur m (c :: s) = some ts) : ∃ ts' cur' m' rest,
      step cur m c = some (ts', cur', m') ∧ tokens cur' m' s = some rest ∧ ts = ts' ++ rest := by
  obtain ⟨⟨ts', cur', m'⟩, hstep, hrest⟩ := Option.bind_eq_some_iff.1 h
  obtain ⟨rest, htokens, rfl⟩ := Option.map_eq_some_iff.1 hrest
  exact ⟨ts', cur', m', rest, hstep, htokens, rfl⟩

theorem tokens_of_step {cur cur' : Option Word} {m m' : Mode} {c : UInt8}
    (h : step cur m c = some ([], cur', m')) (s : Bytes) :
    tokens cur m (c :: s) = tokens cur' m' s := by
  rw [tokens_cons, h, Option.bind_some]
  simp

/-- Nothing that a shell looks at. -/
def isOrdinary (c : UInt8) : Bool :=
  !(isBlank c || c = 10 || c = 39 || c = 34 || c = 92 || isExpansion c || isOperatorChar c)

theorem bareStep_ordinary {cur : Option Word} {c : UInt8} (hc : isOrdinary c = true)
    (hhash : c ≠ 35 ∨ cur ≠ none) :
    bareStep cur c = some ([], extend cur [⟨false, c⟩], .bare) := by
  simp only [isOrdinary, Bool.not_eq_true', Bool.or_eq_false_iff, decide_eq_false_iff_not] at hc
  obtain ⟨⟨⟨⟨⟨⟨hblank, hline⟩, hsingle⟩, hdouble⟩, hescape⟩, hexpansion⟩, hoperator⟩ := hc
  have hcomment : ¬ (c = 35 ∧ cur = none) := by
    rintro ⟨rfl, rfl⟩
    simp at hhash
  rw [bareStep, if_neg (by simp [hblank]), if_neg hline, if_neg hsingle, if_neg hdouble,
    if_neg hescape, if_neg (by simp [hexpansion]), if_neg hcomment, if_neg (by simp [hoperator])]

/-- Everything that a character outside of quotes can do. -/
theorem bareStep_cases {cur cur' : Option Word} {m : Mode} {c : UInt8} {ts : List Token}
    (h : bareStep cur c = some (ts, cur', m)) :
    (isBlank c = true ∧ ts = flush cur ∧ cur' = none ∧ m = .bare) ∨
    (c = 10 ∧ ts = flush cur ++ [.op [10]] ∧ cur' = none ∧ m = .bare) ∨
    ((c = 39 ∧ m = .single ∨ c = 34 ∧ m = .double) ∧ ts = [] ∧ cur' = extend cur []) ∨
    (c = 92 ∧ ts = [] ∧ cur' = cur ∧ m = .escaped) ∨
    (c = 35 ∧ cur = none ∧ ts = [] ∧ cur' = none ∧ m = .comment) ∨
    (isOperatorChar c = true ∧ ts = flushAt c cur ∧ cur' = none ∧ m = .operator [c]) ∨
    (isOrdinary c = true ∧ (c ≠ 35 ∨ cur ≠ none) ∧ ts = [] ∧ cur' = extend cur [⟨false, c⟩] ∧
      m = .bare) := by
  rw [bareStep] at h
  by_cases hblank : isBlank c = true
  · rw [if_pos hblank] at h
    cases h
    exact .inl ⟨hblank, rfl, rfl, rfl⟩
  rw [if_neg hblank] at h
  refine .inr ?_
  by_cases hline : c = 10
  · rw [if_pos hline] at h
    cases h
    exact .inl ⟨hline, rfl, rfl, rfl⟩
  rw [if_neg hline] at h
  refine .inr ?_
  by_cases hsingle : c = 39
  · rw [if_pos hsingle] at h
    cases h
    exact .inl ⟨.inl ⟨hsingle, rfl⟩, rfl, rfl⟩
  rw [if_neg hsingle] at h
  by_cases hdouble : c = 34
  · rw [if_pos hdouble] at h
    cases h
    exact .inl ⟨.inr ⟨hdouble, rfl⟩, rfl, rfl⟩
  rw [if_neg hdouble] at h
  refine .inr ?_
  by_cases hescape : c = 92
  · rw [if_pos hescape] at h
    cases h
    exact .inl ⟨hescape, rfl, rfl, rfl⟩
  rw [if_neg hescape] at h
  refine .inr ?_
  by_cases hexpansion : isExpansion c = true
  · rw [if_pos hexpansion] at h
    cases h
  rw [if_neg hexpansion] at h
  by_cases hcomment : c = 35 ∧ cur = none
  · rw [if_pos hcomment] at h
    cases h
    exact .inl ⟨hcomment.1, hcomment.2, rfl, rfl, rfl⟩
  rw [if_neg hcomment] at h
  refine .inr ?_
  by_cases hoperator : isOperatorChar c = true
  · rw [if_pos hoperator] at h
    cases h
    exact .inl ⟨hoperator, rfl, rfl, rfl⟩
  rw [if_neg hoperator] at h
  cases h
  refine .inr ⟨?_, Decidable.not_and_iff_or_not.1 hcomment, rfl, rfl, rfl⟩
  simp [isOrdinary, hblank, hline, hsingle, hdouble, hescape, hexpansion, hoperator]

theorem tokens_ordinary {u : Bytes} (hu : ∀ c ∈ u, isOrdinary c = true) (w : Word) (s : Bytes) :
    tokens (some w) .bare (u ++ s) = tokens (some (w ++ bare u)) .bare s := by
  induction u generalizing w with
  | nil => simp [bare]
  | cons c u ih =>
      have hstep : step (some w) .bare c = some ([], some (w ++ [⟨false, c⟩]), .bare) :=
        bareStep_ordinary (hu c List.mem_cons_self) (.inr (Option.some_ne_none w))
      rw [List.cons_append, tokens_of_step hstep, ih fun d hd => hu d (List.mem_cons_of_mem _ hd)]
      simp [bare]

/-- A word of ordinary characters begins. -/
theorem tokens_ordinary_none {u : Bytes} (hu : ∀ c ∈ u, isOrdinary c = true) (hne : u ≠ [])
    (hhash : u.head? ≠ some 35) (s : Bytes) :
    tokens none .bare (u ++ s) = tokens (some (bare u)) .bare s := by
  cases u with
  | nil => exact absurd rfl hne
  | cons c u =>
      have hstep : step none .bare c = some ([], some [⟨false, c⟩], .bare) :=
        bareStep_ordinary (hu c List.mem_cons_self) (.inl (by simpa using hhash))
      rw [List.cons_append, tokens_of_step hstep,
        tokens_ordinary fun d hd => hu d (List.mem_cons_of_mem _ hd)]
      simp [bare]

theorem tokens_blank {b : UInt8} (hb : isBlank b = true) (cur : Option Word) (s : Bytes) :
    tokens cur .bare (b :: s) = (tokens none .bare s).map (flush cur ++ ·) := by
  rw [tokens_cons, step, bareStep, if_pos hb, Option.bind_some]

/-- The text ends here or goes on with a blank. -/
def Ends (s : Bytes) : Prop := ∀ c ∈ s.head?, isBlank c = true

theorem tokens_ends {s : Bytes} (hs : Ends s) (w : Word) :
    tokens (some w) .bare s = (tokens none .bare s).map (.word w :: ·) := by
  cases s with
  | nil => rfl
  | cons b s =>
      have hb := hs b (by simp)
      rw [tokens_blank hb, tokens_blank hb, Option.map_map]
      rfl

/-! ## Arguments -/

/-- Wherever no quote is open, the text is read as the value, all of it quoted. -/
def Spells (text value : Bytes) : Prop :=
  ∀ cur s, tokens cur .bare (text ++ s) = tokens (extend cur (quoted value)) .bare s

/-- An argument as it stands in a line. -/
inductive Arg where
  | asIs (a : Bytes)
  | spelled (text value : Bytes) (h : Spells text value)
      (blanks : text.countP isBlank = value.countP isBlank)

namespace Arg

def text : Arg → Bytes
  | asIs a => a
  | spelled text .. => text

def value : Arg → Bytes
  | asIs a => a
  | spelled _ value .. => value

def toWord : Arg → Word
  | asIs a => bare a
  | spelled _ value .. => quoted value

end Arg

/-- A text that is read as one word that is itself. -/
def Plain (a : Bytes) : Prop :=
  a ≠ [] ∧ a.head? ≠ some 35 ∧ (∀ c ∈ a, isOrdinary c = true) ∧ literal (bare a) = some a

instance : DecidablePred Plain := fun _ => inferInstanceAs (Decidable (_ ∧ _))

/-- A character that means nothing anywhere in a word. -/
def isSafe (c : UInt8) : Bool := isOrdinary c && !([35, 42, 63, 91, 126] : List UInt8).contains c

theorem plain_of_safe {a : Bytes} (hne : a ≠ []) (h : ∀ c ∈ a, isSafe c = true) : Plain a := by
  have hordinary : ∀ c ∈ a, isOrdinary c = true := by
    intro c hc
    exact (Bool.and_eq_true_iff.1 (h c hc)).1
  have hother : ∀ c ∈ a, c ∉ [35, 42, 63, 91, 126] := by
    intro c hc
    have hnot := (Bool.and_eq_true_iff.1 (h c hc)).2
    simpa using hnot
  have hhead : ∀ d ∈ [35, 42, 63, 91, 126], a.head? ≠ some d := by
    intro d hd heq
    exact hother d (List.mem_of_mem_head? heq) hd
  have hpattern : isPattern (bare a) = false := by
    clear hne hordinary hhead h
    induction a with
    | nil => rfl
    | cons c a ih =>
        have hc := hother c List.mem_cons_self
        have hrest := ih fun d hd => hother d (List.mem_cons_of_mem _ hd)
        simp only [List.mem_cons, List.not_mem_nil, or_false, not_or] at hc
        rw [bare, List.map_cons, isPattern]
        rw [bare] at hrest
        simp [hc, hrest]
  have htilde : (bare a).head? ≠ some ⟨false, 126⟩ := by
    intro heq
    rw [bare, List.head?_map] at heq
    obtain ⟨c, hc, hpiece⟩ := Option.map_eq_some_iff.1 heq
    cases hpiece
    exact hhead 126 (by simp) hc
  refine ⟨hne, hhead 35 (by simp), hordinary, ?_⟩
  rw [literal, if_neg (by simp [htilde, hpattern]), chars_bare]

def Arg.Faithful : Arg → Prop
  | .asIs a => Plain a
  | .spelled .. => True

def argsText (as : List Arg) : Bytes := as.flatMap fun a => 32 :: a.text

theorem ends_argsText (as : List Arg) {s : Bytes} (hs : Ends s) : Ends (argsText as ++ s) := by
  cases as with
  | nil => exact hs
  | cons a as =>
      intro c hc
      have hspace : c = 32 := by simpa [argsText] using hc.symm
      rw [hspace]
      rfl

theorem Arg.Faithful.tokens {a : Arg} (h : a.Faithful) {s : Bytes} (hs : Ends s) :
    tokens none .bare (a.text ++ s) = (tokens none .bare s).map (.word a.toWord :: ·) := by
  rw [← tokens_ends hs]
  cases a with
  | asIs a => exact tokens_ordinary_none h.2.2.1 h.1 h.2.1 s
  | spelled text value hspells =>
      rw [Arg.text, hspells]
      rfl

theorem Arg.Faithful.literal {a : Arg} (h : a.Faithful) : literal a.toWord = some a.value := by
  cases a with
  | asIs a => exact h.2.2.2
  | spelled text value => exact literal_quoted value

/-- A line of faithful arguments is these words and then what follows. -/
theorem tokens_line {a : Arg} {as : List Arg} (h : ∀ b ∈ a :: as, b.Faithful) {s : Bytes}
    (hs : Ends s) : tokens none .bare (a.text ++ (argsText as ++ s)) =
      (tokens none .bare s).map ((a :: as).map (fun b => .word b.toWord) ++ ·) := by
  induction as generalizing a with
  | nil => exact (h a List.mem_cons_self).tokens hs
  | cons b as ih =>
      rw [(h a List.mem_cons_self).tokens (ends_argsText (b :: as) hs)]
      have hspace : argsText (b :: as) ++ s = 32 :: (b.text ++ (argsText as ++ s)) := by
        simp [argsText]
      rw [hspace, tokens_blank rfl, ih fun c hc => h c (List.mem_cons_of_mem _ hc)]
      simp [flush, Function.comp_def]

/-! ## Lines -/

theorem read_words {as : List Arg} (h : ∀ b ∈ as, b.Faithful) (ts : List Token) :
    read false false (as.map (fun b => .word b.toWord) ++ ts) =
      (read false false ts).map (as.map (fun b => .word b.value) ++ ·) := by
  induction as with
  | nil => simp
  | cons a as ih =>
      rw [List.map_cons, List.cons_append, read, if_neg (by simp),
        (h a List.mem_cons_self).literal, Option.bind_some]
      change (read false false (as.map (fun b => Token.word b.toWord) ++ ts)).map _ = _
      rw [ih fun b hb => h b (List.mem_cons_of_mem _ hb), Option.map_map]
      rfl

theorem parse_faithful {a : Arg} {as : List Arg} (h : ∀ b ∈ a :: as, b.Faithful)
    (hkeyword : isKeyword a.toWord = false) {s : Bytes} (hs : Ends s) :
    parse (a.text ++ (argsText as ++ s)) = ((tokens none .bare s).bind (read false false)).map
      ((a :: as).map (fun b => .word b.value) ++ ·) := by
  rw [parse, lex, tokens_line h hs]
  cases tokens none .bare s with
  | none => rfl
  | some ts =>
      rw [Option.map_some, Option.bind_some, Option.bind_some, List.map_cons, List.cons_append,
        read, if_neg (by simp [hkeyword]), (h a List.mem_cons_self).literal, Option.bind_some]
      change (read false false (as.map (fun b => Token.word b.toWord) ++ ts)).map _ = _
      rw [read_words fun b hb => h b (List.mem_cons_of_mem _ hb), Option.map_map]
      rfl

/-- A pipe and `&&` stand between two lines. -/
def Joins (o : Bytes) : Prop :=
  isRedirection o = false ∧
    ∀ s, tokens none .bare (32 :: (o ++ 32 :: s)) = (tokens none .bare s).map (.op o :: ·)

theorem joins_and : Joins (bytes "&&") := by
  refine ⟨rfl, ?_⟩
  intro s
  have hblank : step none .bare 32 = some ([], none, .bare) := by decide
  have hfirst : step none .bare 38 = some ([], none, .operator (bytes "&")) := by decide
  have hsecond : step none (.operator (bytes "&")) 38 =
      some ([], none, .operator (bytes "&&")) := by decide
  have hend : step none (.operator (bytes "&&")) 32 =
      some ([.op (bytes "&&")], none, .bare) := by decide
  change tokens none .bare (32 :: 38 :: 38 :: 32 :: s) = _
  rw [tokens_of_step hblank, tokens_of_step hfirst, tokens_of_step hsecond, tokens_cons, hend]
  rfl

theorem joins_pipe : Joins (bytes "|") := by
  refine ⟨rfl, ?_⟩
  intro s
  have hblank : step none .bare 32 = some ([], none, .bare) := by decide
  have hfirst : step none .bare 124 = some ([], none, .operator (bytes "|")) := by decide
  have hend : step none (.operator (bytes "|")) 32 = some ([.op (bytes "|")], none, .bare) := by
    decide
  change tokens none .bare (32 :: 124 :: 32 :: s) = _
  rw [tokens_of_step hblank, tokens_of_step hfirst, tokens_cons, hend]
  rfl

theorem parse_join {a : Arg} {as : List Arg} (h : ∀ b ∈ a :: as, b.Faithful)
    (hkeyword : isKeyword a.toWord = false) {o : Bytes} (ho : Joins o) (s : Bytes) :
    parse (a.text ++ (argsText as ++ 32 :: (o ++ 32 :: s))) = (parse s).map fun items =>
      (a :: as).map (fun b => .word b.value) ++ .op o :: items := by
  have hs : Ends (32 :: (o ++ 32 :: s)) := by
    intro c hc
    cases hc
    rfl
  rw [parse_faithful h hkeyword hs, ho.2, parse, lex]
  cases tokens none .bare s with
  | none => rfl
  | some ts =>
      rw [Option.map_some, Option.bind_some, Option.bind_some, read, if_neg (by simp [ho.1]),
        Option.map_map]
      rfl

/-! ## Double quotes -/

/-- Behind a backslash in double quotes these lose it. -/
def isEscapable (c : UInt8) : Bool := isExpansion c || c = 34 || c = 92 || c = 10

/-- What double quotes around it leave as it is. -/
def selfQuoted : Bytes → Bool
  | [] => true
  | c :: s =>
      (if c = 92 then s.head?.any fun d => !isEscapable d else c ≠ 34 && !isExpansion c) &&
        selfQuoted s

theorem step_double_92 (w : Word) :
    step (some w) .double 92 = some ([], some w, .doubleEscaped) := rfl

theorem step_doubleEscaped {d : UInt8} (hd : isEscapable d = false) (w : Word) :
    step (some w) .doubleEscaped d = step (some (w ++ [⟨true, 92⟩])) .double d := by
  simp only [isEscapable, Bool.or_eq_false_iff, decide_eq_false_iff_not] at hd
  obtain ⟨⟨⟨hexpansion, hquote⟩, hescape⟩, hline⟩ := hd
  have hboth : step (some w) .doubleEscaped d =
      some ([], some (w ++ [⟨true, 92⟩, ⟨true, d⟩]), .double) := by
    rw [step, if_neg hline, if_neg (by simp [hexpansion, hquote, hescape])]
    rfl
  have hone : step (some (w ++ [⟨true, 92⟩])) .double d =
      some ([], some (w ++ [⟨true, 92⟩] ++ [⟨true, d⟩]), .double) := by
    rw [step, if_neg hquote, if_neg hescape, if_neg (by simp [hexpansion])]
    rfl
  rw [hboth, hone, List.append_assoc]
  rfl

theorem step_double {c : UInt8} (hescape : c ≠ 92) (hquote : c ≠ 34)
    (hexpansion : isExpansion c = false) (w : Word) :
    step (some w) .double c = some ([], some (w ++ [⟨true, c⟩]), .double) := by
  rw [step, if_neg hquote, if_neg hescape, if_neg (by simp [hexpansion])]
  rfl

theorem tokens_double {u : Bytes} (hu : selfQuoted u = true) (w : Word) (s : Bytes) :
    tokens (some w) .double (u ++ s) = tokens (some (w ++ quoted u)) .double s := by
  induction u generalizing w with
  | nil => simp [quoted]
  | cons c u ih =>
      rw [selfQuoted, Bool.and_eq_true] at hu
      obtain ⟨hc, hrest⟩ := hu
      have hquoted : w ++ quoted (c :: u) = w ++ [⟨true, c⟩] ++ quoted u := by simp [quoted]
      by_cases hescape : c = 92
      · rw [if_pos hescape] at hc
        cases u with
        | nil => cases hc
        | cons d u =>
            have hd : isEscapable d = false := by simpa using hc
            rw [hquoted, ← ih hrest, hescape, List.cons_append,
              tokens_of_step (step_double_92 w), List.cons_append, tokens_cons,
              step_doubleEscaped hd, ← tokens_cons]
      · rw [if_neg hescape] at hc
        have hother : c ≠ 34 ∧ isExpansion c = false := by simpa using hc
        rw [hquoted, ← ih hrest, List.cons_append,
          tokens_of_step (step_double hescape hother.1 hother.2 w)]

theorem spells_double {v : Bytes} (h : selfQuoted v = true) : Spells (34 :: (v ++ [34])) v := by
  intro cur s
  have hopen : step cur .bare 34 = some ([], extend cur [], .double) := rfl
  have hclose : ∀ w, step (some w) .double 34 = some ([], some w, .bare) := fun _ => rfl
  rw [List.cons_append, List.append_assoc, tokens_of_step hopen, extend, tokens_double h,
    List.singleton_append, tokens_of_step (hclose _), List.append_nil]
  rfl

/-- A value in double quotes as an argument. -/
def doubleArg (v : Bytes) (h : selfQuoted v = true) : Arg :=
  .spelled (34 :: (v ++ [34])) v (spells_double h) (by
    have hquote : isBlank 34 = false := rfl
    rw [List.countP_cons, List.countP_append]
    simp [hquote])

end Nazg.Lib.Shell
