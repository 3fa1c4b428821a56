import Nazg.Lib.ShellWords

/-!
# The value of an assignment in a `bash` script

What stands behind `name=` up to the first blank, operator or line break outside of quotes, with
the quotes and backslashes removed. There is no reading of a value that has an expansion in
it, that begins one outside of double quotes, or whose quotes stay open: what becomes of
these depends on variables, commands and files. In double quotes a dollar sign begins an
expansion only before a name, a digit, a special parameter or a bracket.

A value that is pasted between double quotes is read back if nothing in it ends the quotes,
begins an expansion or is escaped (`kept`), and only then: each character that the shell
takes for itself would have to be made up for by one that comes later.
-/

namespace Nazg.Lib.Bash

open Shell (isBlank isOperatorChar isNameByte isEscapable)

/-! ## Reading -/

inductive Mode where
  | bare
  | escaped
  | single
  | double
  | doubleEscaped
  | doubleDollar
  deriving DecidableEq

/-- What ends a word outside of quotes. -/
def isMeta (c : UInt8) : Bool := isBlank c || c = 10 || isOperatorChar c

/-- Names, digits, and each of `!`, `#`, `$`, `(`, `*`, `-`, `?`, `@`, `[` and the brace. -/
def startsExpansion (c : UInt8) : Bool :=
  isNameByte c || [33, 35, 36, 40, 42, 45, 63, 64, 91, 123].contains c

def doubleStep (c : UInt8) : Option (Bytes × Mode) :=
  if c = 34 then some ([], .bare)
  else if c = 92 then some ([], .doubleEscaped)
  else if c = 96 then none
  else if c = 36 then some ([], .doubleDollar)
  else some ([c], .double)

/-- What a character adds to the value, and the mode it leaves. -/
def step : Mode → UInt8 → Option (Bytes × Mode)
  | .bare, c =>
      if c = 39 then some ([], .single)
      else if c = 34 then some ([], .double)
      else if c = 92 then some ([], .escaped)
      else if c = 36 ∨ c = 96 ∨ c = 126 then none
      else some ([c], .bare)
  | .escaped, c => if c = 10 then some ([], .bare) else some ([c], .bare)
  | .single, c => if c = 39 then some ([], .bare) else some ([c], .single)
  | .double, c => doubleStep c
  | .doubleEscaped, c =>
      if c = 10 then some ([], .double)
      else if isEscapable c then some ([c], .double)
      else some ([92, c], .double)
  | .doubleDollar, c =>
      if startsExpansion c then none else (doubleStep c).map fun r => (36 :: r.1, r.2)

/-- The rest of the value, and the text from its end on. -/
def readWord : Mode → Bytes → Option (Bytes × Bytes)
  | m, [] => if m = .bare then some ([], []) else none
  | m, c :: s =>
      if m = .bare ∧ isMeta c then some ([], c :: s)
      else (step m c).bind fun r => (readWord r.2 s).map fun q => (r.1 ++ q.1, q.2)

/-- The word ends its line. -/
def endOfLine : Bytes × Bytes → Option (Bytes × Bytes)
  | (value, 10 :: rest) => some (value, rest)
  | _ => none

/-- A line that is an assignment to the name and nothing else. -/
def readAssignment (name s : Bytes) : Option (Bytes × Bytes) :=
  if name ++ [61] <+: s then (readWord .bare (s.drop (name.length + 1))).bind endOfLine else none

def readAssignments : List Bytes → Bytes → Option (List Bytes × Bytes)
  | [], s => some ([], s)
  | name :: names, s =>
      (readAssignment name s).bind fun r =>
        (readAssignments names r.2).map fun q => (r.1 :: q.1, q.2)

/-- A comment goes to the end of its line. -/
def skipComment (s : Bytes) : Bytes := (s.dropWhile (· ≠ 10)).drop 1

/-- What double quotes around it leave as it is. -/
def kept : Bytes → Bool
  | [] => true
  | c :: s =>
      (if c = 92 then s.head?.any fun d => !isEscapable d
        else if c = 36 then !s.head?.any startsExpansion
        else c ≠ 34 && c ≠ 96) && kept s

/-! ## Reading a value that is kept -/

theorem readWord_cons {m m' : Mode} {c : UInt8} {o : Bytes} (hword : ¬ (m = .bare ∧ isMeta c))
    (hstep : step m c = some (o, m')) (s : Bytes) :
    readWord m (c :: s) = (readWord m' s).map fun q => (o ++ q.1, q.2) := by
  rw [readWord, if_neg hword, hstep]
  rfl

theorem readWord_double_cons {m' : Mode} {c : UInt8} {o : Bytes}
    (hstep : doubleStep c = some (o, m')) (s : Bytes) :
    readWord .double (c :: s) = (readWord m' s).map fun q => (o ++ q.1, q.2) :=
  readWord_cons (m := .double) (by simp) hstep s

theorem doubleStep_plain {c : UInt8} (hquote : c ≠ 34) (hescape : c ≠ 92) (hback : c ≠ 96)
    (hdollar : c ≠ 36) : doubleStep c = some ([c], .double) := by
  rw [doubleStep, if_neg hquote, if_neg hescape, if_neg hback, if_neg hdollar]

/-- A backslash stays before a character that it does not escape. -/
theorem readWord_doubleEscaped {d : UInt8} (hd : isEscapable d = false) (s : Bytes) :
    readWord .doubleEscaped (d :: s) =
      (readWord .double (d :: s)).map fun q => (92 :: q.1, q.2) := by
  have hne : d ≠ 34 ∧ d ≠ 92 ∧ d ≠ 96 ∧ d ≠ 36 ∧ d ≠ 10 := by
    refine ⟨?_, ?_, ?_, ?_, ?_⟩ <;> rintro rfl <;> cases hd
  have hboth : step .doubleEscaped d = some ([92, d], .double) := by
    rw [step, if_neg hne.2.2.2.2, if_neg (by simp [hd])]
  rw [readWord_cons (by simp) hboth,
    readWord_double_cons (doubleStep_plain hne.1 hne.2.1 hne.2.2.1 hne.2.2.2.1), Option.map_map]
  rfl

/-- A dollar sign stays before a character that begins no expansion. -/
theorem readWord_doubleDollar {d : UInt8} (hd : startsExpansion d = false) (s : Bytes) :
    readWord .doubleDollar (d :: s) =
      (readWord .double (d :: s)).map fun q => (36 :: q.1, q.2) := by
  have hstep : step .doubleDollar d = (doubleStep d).map fun r => (36 :: r.1, r.2) := by
    rw [step, if_neg (by simp [hd])]
  rw [readWord, readWord, if_neg (by simp), if_neg (by simp), hstep]
  show _ = Option.map _ ((doubleStep d).bind _)
  cases doubleStep d with
  | none => rfl
  | some r => simp [Option.map_map, Function.comp_def]

theorem readWord_kept {t : Bytes} (h : kept t = true) (s : Bytes) :
    readWord .double (t ++ 34 :: s) = (readWord .bare s).map fun q => (t ++ q.1, q.2) := by
  induction t with
  | nil => exact readWord_double_cons rfl s
  | cons c t ih =>
      rw [kept, Bool.and_eq_true] at h
      obtain ⟨hc, hrest⟩ := h
      have hcons : (readWord .bare s).map (fun q => (c :: t ++ q.1, q.2)) =
          (readWord .double (t ++ 34 :: s)).map fun q => (c :: q.1, q.2) := by
        rw [ih hrest, Option.map_map]
        rfl
      rw [hcons, List.cons_append]
      by_cases hescape : c = 92
      · subst hescape
        cases t with
        | nil => cases hc
        | cons d t =>
            have hd : isEscapable d = false := by simpa using hc
            have hstep : doubleStep 92 = some ([], .doubleEscaped) := rfl
            rw [readWord_double_cons hstep, List.cons_append, readWord_doubleEscaped hd,
              Option.map_map]
            rfl
      · rw [if_neg hescape] at hc
        by_cases hdollar : c = 36
        · subst hdollar
          have hstep : doubleStep 36 = some ([], .doubleDollar) := rfl
          rw [readWord_double_cons hstep]
          cases t with
          | nil =>
              rw [List.nil_append, readWord_doubleDollar rfl, Option.map_map]
              rfl
          | cons d t =>
              have hd : startsExpansion d = false := by simpa using hc
              rw [List.cons_append, readWord_doubleDollar hd, Option.map_map]
              rfl
        · rw [if_neg hdollar] at hc
          have hother : c ≠ 34 ∧ c ≠ 96 := by simpa using hc
          exact readWord_double_cons (doubleStep_plain hother.1 hescape hother.2 hdollar) _

/-! ## A value that is not -/

/-- What a character of a word can do other than add itself to the value. -/
def isDroppable (c : UInt8) : Bool := c = 34 || c = 39 || c = 92 || c = 10 || c = 36

/-- Whether a character has been read that is still to be added. -/
def Mode.owed : Mode → Nat
  | .escaped | .doubleEscaped | .doubleDollar => 1
  | .bare | .single | .double => 0

theorem doubleStep_cases {c : UInt8} {o : Bytes} {m : Mode} (h : doubleStep c = some (o, m)) :
    isDroppable c = true ∧ o = [] ∧ m.owed ≤ 1 ∨ o = [c] ∧ m = .double := by
  rw [doubleStep] at h
  split at h
  · next hc =>
      subst hc
      cases h
      exact .inl ⟨rfl, rfl, Nat.zero_le 1⟩
  split at h
  · next hc =>
      subst hc
      cases h
      exact .inl ⟨rfl, rfl, Nat.le_refl 1⟩
  split at h
  · cases h
  split at h
  · next hc =>
      subst hc
      cases h
      exact .inl ⟨rfl, rfl, Nat.le_refl 1⟩
  · cases h
    exact .inr ⟨rfl, rfl⟩

/-- A step adds no more than was read, and drops a droppable character at most. -/
theorem step_adds {m m' : Mode} {c d : UInt8} {o : Bytes} (hd : isDroppable d = false)
    (h : step m c = some (o, m')) :
    o.length + m'.owed ≤ m.owed + 1 ∧ o.count d = [c].count d := by
  have hdrop : ∀ {x : UInt8}, isDroppable x = true → x ≠ d := by
    rintro x hx rfl
    rw [hx] at hd
    cases hd
  have hnone : ∀ {x : UInt8}, isDroppable x = true → ([] : Bytes).count d = [x].count d := by
    intro x hx
    rw [List.count_singleton, if_neg (by simpa using hdrop hx)]
    rfl
  have hfront : ∀ {x y : UInt8}, isDroppable x = true → [x, y].count d = [y].count d := by
    intro x y hx
    rw [List.count_cons, if_neg (by simpa using hdrop hx), Nat.add_zero]
  cases m with
  | bare =>
      rw [step] at h
      split at h
      · next hc =>
          cases h
          exact ⟨Nat.zero_le _, hnone (by rw [hc]; rfl)⟩
      split at h
      · next hc =>
          cases h
          exact ⟨Nat.zero_le _, hnone (by rw [hc]; rfl)⟩
      split at h
      · next hc =>
          cases h
          exact ⟨Nat.le_refl 1, hnone (by rw [hc]; rfl)⟩
      split at h
      · cases h
      · cases h
        exact ⟨Nat.le_refl 1, rfl⟩
  | escaped =>
      rw [step] at h
      split at h
      · next hc =>
          cases h
          exact ⟨Nat.zero_le _, hnone (by rw [hc]; rfl)⟩
      · cases h
        exact ⟨by simp [Mode.owed], rfl⟩
  | single =>
      rw [step] at h
      split at h
      · next hc =>
          cases h
          exact ⟨Nat.zero_le _, hnone (by rw [hc]; rfl)⟩
      · cases h
        exact ⟨Nat.le_refl 1, rfl⟩
  | double =>
      rcases doubleStep_cases h with ⟨hc, rfl, howed⟩ | ⟨rfl, rfl⟩
      · exact ⟨by simpa [Mode.owed] using howed, hnone hc⟩
      · exact ⟨Nat.le_refl 1, rfl⟩
  | doubleEscaped =>
      rw [step] at h
      split at h
      · next hc =>
          cases h
          exact ⟨Nat.zero_le _, hnone (by rw [hc]; rfl)⟩
      split at h
      · cases h
        exact ⟨by simp [Mode.owed], rfl⟩
      · cases h
        exact ⟨Nat.le_refl 2, hfront rfl⟩
  | doubleDollar =>
      rw [step] at h
      split at h
      · cases h
      obtain ⟨⟨o', m''⟩, hstep, hr⟩ := Option.map_eq_some_iff.1 h
      cases hr
      rcases doubleStep_cases hstep with ⟨hc, rfl, howed⟩ | ⟨rfl, rfl⟩
      · refine ⟨?_, (hnone rfl).symm.trans (hnone hc)⟩
        show 1 + m''.owed ≤ 1 + 1
        omega
      · exact ⟨Nat.le_refl 2, hfront rfl⟩

theorem readWord_cons_eq_some {m : Mode} {c : UInt8} {s out after : Bytes}
    (h : readWord m (c :: s) = some (out, after)) :
    out = [] ∧ m = .bare ∨ ∃ o m' out', step m c = some (o, m') ∧
      readWord m' s = some (out', after) ∧ out = o ++ out' := by
  rw [readWord] at h
  split at h
  · next hword =>
      cases h
      exact .inl ⟨rfl, hword.1⟩
  · obtain ⟨⟨o, m'⟩, hstep, h⟩ := Option.bind_eq_some_iff.1 h
    obtain ⟨⟨out', after'⟩, hrest, hr⟩ := Option.map_eq_some_iff.1 h
    cases hr
    exact .inr ⟨o, m', out', hstep, hrest, rfl⟩

/-- Such a text reaches a given character if it is read in quotes, and otherwise ends the word. -/
def Closes (d : UInt8) (s : Bytes) : Prop :=
  ∀ m out after, readWord m s = some (out, after) → out.length ≤ m.owed ∨ 0 < out.count d

/-- A value that was read with such a text behind it is no longer than what was read, or has
more of a character that no step drops. -/
theorem length_le_or_count_lt {d : UInt8} (hd : isDroppable d = false) {ctx : Bytes}
    (hctx : Closes d ctx) {s : Bytes} {m : Mode} {out after : Bytes}
    (h : readWord m (s ++ ctx) = some (out, after)) :
    out.length ≤ s.length + m.owed ∨ s.count d < out.count d := by
  induction s generalizing m out with
  | nil =>
      rcases hctx m out after h with hle | hlt
      · exact .inl (by simpa using hle)
      · exact .inr hlt
  | cons c s ih =>
      rcases readWord_cons_eq_some h with ⟨rfl, -⟩ | ⟨o, m', out', hstep, hrest, rfl⟩
      · exact .inl (Nat.zero_le _)
      · obtain ⟨hlength, hcount⟩ := step_adds hd hstep
        rw [List.length_append, List.length_cons, List.count_append, hcount,
          ← List.singleton_append, List.count_append]
        rcases ih hrest with hle | hlt
        · exact .inl (by omega)
        · exact .inr (by omega)

/-- So nothing that a step dropped is made up for. -/
theorem ne_of_dropped {d : UInt8} (hd : isDroppable d = false) {ctx : Bytes} (hctx : Closes d ctx)
    {s e out after : Bytes} {m : Mode} (h : readWord m (s ++ ctx) = some (out, after))
    (howed : m.owed = 0) (hne : e ≠ []) (he : ∀ c ∈ e, isDroppable c = true) : out ≠ e ++ s := by
  rintro rfl
  have hnone : e.count d = 0 := List.count_eq_zero.2 fun hmem => by
    rw [he d hmem] at hd
    cases hd
  have hpos := List.length_pos_of_ne_nil hne
  rcases length_le_or_count_lt hd hctx h with hle | hlt
  · rw [List.length_append] at hle
    omega
  · rw [List.count_append] at hlt
    omega

section

variable {d : UInt8} (hd : isDroppable d = false) {ctx : Bytes} (hctx : Closes d (34 :: ctx))

include hd hctx

/-- A backslash that is read back stands before a character that it does not escape. -/
theorem readWord_of_escaped {t after : Bytes}
    (h : readWord .doubleEscaped (t ++ 34 :: ctx) = some (92 :: t, after)) :
    (t.head?.any fun c => !isEscapable c) = true ∧
      readWord .double (t ++ 34 :: ctx) = some (t, after) := by
  cases t with
  | nil =>
      -- the backslash takes the closing quote
      obtain ⟨-, hbare⟩ | ⟨o, m, out, hstep, -, hout⟩ := readWord_cons_eq_some h
      · cases hbare
      · cases hstep
        cases hout
  | cons c t =>
      by_cases hc : isEscapable c = true
      · exfalso
        obtain ⟨-, hbare⟩ | ⟨o, m, out, hstep, hrest, hout⟩ := readWord_cons_eq_some h
        · cases hbare
        rw [step] at hstep
        by_cases hline : c = 10
        · rw [if_pos hline] at hstep
          cases hstep
          subst hline
          exact ne_of_dropped (e := [92, 10]) hd hctx hrest rfl (by simp) (by decide) hout.symm
        · rw [if_neg hline, if_pos hc] at hstep
          cases hstep
          obtain ⟨rfl, hout⟩ := List.cons.inj hout
          exact ne_of_dropped (e := [92]) hd hctx hrest rfl (by simp) (by decide) hout.symm
      · rw [Bool.not_eq_true] at hc
        rw [List.cons_append, readWord_doubleEscaped hc] at h
        obtain ⟨⟨out, after'⟩, hrest, hr⟩ := Option.map_eq_some_iff.1 h
        cases hr
        exact ⟨by simp [hc], hrest⟩

omit hd hctx in
/-- A dollar sign that is read back begins no expansion. -/
theorem readWord_of_dollar {t after : Bytes}
    (h : readWord .doubleDollar (t ++ 34 :: ctx) = some (36 :: t, after)) :
    (!t.head?.any startsExpansion) = true ∧
      readWord .double (t ++ 34 :: ctx) = some (t, after) := by
  have hback : ∀ {c : UInt8} {s : Bytes}, startsExpansion c = false →
      readWord .doubleDollar (c :: s) = some (36 :: t, after) →
        readWord .double (c :: s) = some (t, after) := by
    intro c s hc h
    rw [readWord_doubleDollar hc] at h
    obtain ⟨⟨out, after'⟩, hrest, hr⟩ := Option.map_eq_some_iff.1 h
    cases hr
    exact hrest
  cases t with
  | nil => exact ⟨rfl, hback rfl h⟩
  | cons c t =>
      have hc : startsExpansion c = false := by
        by_contra hstarts
        rw [Bool.not_eq_false] at hstarts
        obtain ⟨-, hbare⟩ | ⟨o, m, out, hstep, -, -⟩ := readWord_cons_eq_some h
        · cases hbare
        · rw [step, if_pos hstarts] at hstep
          cases hstep
      exact ⟨by simp [hc], hback hc h⟩

/-- A value that is read back in double quotes is kept by them. -/
theorem kept_of_readWord {t after : Bytes}
    (h : readWord .double (t ++ 34 :: ctx) = some (t, after)) : kept t = true := by
  induction t with
  | nil => rfl
  | cons c t ih =>
      obtain ⟨-, hbare⟩ | ⟨o, m, out, hstep, hrest, hout⟩ := readWord_cons_eq_some h
      · cases hbare
      rw [kept, Bool.and_eq_true]
      by_cases hquote : c = 34
      · subst hquote
        cases hstep
        exact absurd hout.symm
          (ne_of_dropped (e := [34]) hd hctx hrest rfl (by simp) (by decide))
      by_cases hescape : c = 92
      · subst hescape
        cases hstep
        rw [List.nil_append] at hout
        obtain ⟨hhead, hrest⟩ := readWord_of_escaped hd hctx (hout ▸ hrest)
        exact ⟨hhead, ih hrest⟩
      rw [if_neg hescape]
      by_cases hdollar : c = 36
      · subst hdollar
        cases hstep
        rw [List.nil_append] at hout
        obtain ⟨hhead, hrest⟩ := readWord_of_dollar (hout ▸ hrest)
        exact ⟨hhead, ih hrest⟩
      have hback : c ≠ 96 := by
        rintro rfl
        cases hstep
      have hplain : step .double c = some ([c], .double) :=
        doubleStep_plain hquote hescape hback hdollar
      rw [hplain] at hstep
      cases hstep
      obtain ⟨-, rfl⟩ := List.cons.inj hout
      rw [if_neg hdollar]
      exact ⟨by simp [hquote, hback], ih hrest⟩

/-- A value in double quotes is read back exactly if they keep all of it. -/
theorem exists_readWord_iff {t rest : Bytes} (hword : readWord .bare ctx = some ([], rest)) :
    (∃ after, readWord .double (t ++ 34 :: ctx) = some (t, after)) ↔ kept t = true := by
  constructor
  · rintro ⟨after, h⟩
    exact kept_of_readWord hd hctx h
  · intro h
    refine ⟨rest, ?_⟩
    rw [readWord_kept h, hword]
    simp

end

/-- In quotes of either kind the text is read as far as the character. -/
theorem count_pos_of_readWord {d : UInt8} {m : Mode} (hm : m ≠ .bare)
    (hline : step m 10 = some ([10], m)) (hd : step m d = some ([d], m)) {blank : Bytes}
    (hblank : ∀ c ∈ blank, c = 10) {rest out after : Bytes}
    (h : readWord m (blank ++ d :: rest) = some (out, after)) : 0 < out.count d := by
  induction blank generalizing out with
  | nil =>
      rw [List.nil_append, readWord_cons (by simp [hm]) hd] at h
      obtain ⟨q, -, hr⟩ := Option.map_eq_some_iff.1 h
      cases hr
      simp
  | cons c blank ih =>
      obtain ⟨hc, hrest⟩ := List.forall_mem_cons.1 hblank
      subst hc
      rw [List.cons_append, readWord_cons (by simp [hm]) hline] at h
      obtain ⟨q, hq, hr⟩ := Option.map_eq_some_iff.1 h
      cases hr
      rw [List.count_append]
      exact Nat.add_pos_right _ (ih hrest hq)

/-- After a value in quotes its line ends, and what comes behind the empty lines begins with a
character that no step drops. -/
theorem closes_line {d : UInt8} (hd : isDroppable d = false) (hback : d ≠ 96) {blank : Bytes}
    (hblank : ∀ c ∈ blank, c = 10) (rest : Bytes) :
    Closes d (34 :: 10 :: (blank ++ d :: rest)) := by
  have hne : d ≠ 34 ∧ d ≠ 92 ∧ d ≠ 36 ∧ d ≠ 39 := by
    refine ⟨?_, ?_, ?_, ?_⟩ <;> rintro rfl <;> cases hd
  have hdouble : step .double d = some ([d], .double) :=
    doubleStep_plain hne.1 hne.2.1 hback hne.2.2.1
  have hsingle : step .single d = some ([d], .single) := by
    rw [step, if_neg hne.2.2.2]
  have hblank' : ∀ c ∈ 10 :: blank, c = 10 := List.forall_mem_cons.2 ⟨rfl, hblank⟩
  have hquoted : ∀ {m : Mode} {out after : Bytes}, m ≠ .bare → step m 10 = some ([10], m) →
      step m d = some ([d], m) → readWord m (10 :: (blank ++ d :: rest)) = some (out, after) →
        0 < out.count d := by
    intro m out after hm hline hd' h
    exact count_pos_of_readWord hm hline hd' hblank' h
  -- outside of quotes the line break ends the word
  have hended : ∀ {out after : Bytes},
      readWord .bare (10 :: (blank ++ d :: rest)) = some (out, after) → out = [] := by
    intro out after h
    cases h
    rfl
  intro m out after h
  obtain ⟨rfl, -⟩ | ⟨o, m', out', hstep, hrest, rfl⟩ := readWord_cons_eq_some h
  · exact .inl (Nat.zero_le _)
  rw [List.length_append, List.count_append]
  cases m with
  | bare =>
      cases hstep
      exact .inr (by simpa using hquoted (by simp) rfl hdouble hrest)
  | escaped =>
      cases hstep
      rw [hended hrest]
      exact .inl (Nat.le_refl 1)
  | single =>
      cases hstep
      exact .inr (Nat.add_pos_right _ (hquoted (by simp) rfl hsingle hrest))
  | double =>
      cases hstep
      rw [hended hrest]
      exact .inl (Nat.le_refl 0)
  | doubleEscaped =>
      cases hstep
      exact .inr (Nat.add_pos_right _ (hquoted (by simp) rfl hdouble hrest))
  | doubleDollar =>
      cases hstep
      rw [hended hrest]
      exact .inl (Nat.le_refl 1)

end Nazg.Lib.Bash
