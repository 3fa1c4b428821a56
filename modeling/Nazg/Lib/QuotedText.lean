import Nazg.Lib.Bytes

/-!
# Texts around quotes

What is searched for in a text with quoted strings. A pattern without quotes is found between two of
them or not at all. A name in quotes is found where it is a key, if no string has a quote in it:
strings and what stands between them take turns, and only a key is followed by a colon.
-/

namespace Nazg.Lib

/-! ## A pattern without a separator -/

theorem prefix_append_cons {c : UInt8} {pat : Bytes} (h : c ∉ pat) (a b : Bytes) :
    pat <+: a ++ c :: b ↔ pat <+: a := by
  induction a generalizing pat with
  | nil =>
      cases pat with
      | nil => simp
      | cons d pat =>
          have hne : d ≠ c := fun heq => h (heq ▸ List.mem_cons_self)
          simp [List.cons_prefix_cons, hne]
  | cons x a ih =>
      cases pat with
      | nil => simp
      | cons d pat =>
          have hpat : c ∉ pat := fun hmem => h (List.mem_cons_of_mem _ hmem)
          rw [List.cons_append, List.cons_prefix_cons, List.cons_prefix_cons, ih hpat]

/-- A pattern without the separator is on one side of it. -/
theorem infix_append_cons {c : UInt8} {pat : Bytes} (h : c ∉ pat) (hne : pat ≠ []) (a b : Bytes) :
    pat <:+: a ++ c :: b ↔ pat <:+: a ∨ pat <:+: b := by
  induction a with
  | nil =>
      have hnil : ¬ pat <:+: [] := fun hin => hne (List.infix_nil.1 hin)
      have hcons : ¬ pat <+: c :: b := by
        have hbegins := prefix_append_cons h [] b
        rw [List.nil_append] at hbegins
        rw [hbegins, List.prefix_nil]
        exact hne
      rw [List.nil_append, List.infix_cons_iff]
      simp [hnil, hcons]
  | cons x a ih =>
      have hbegins := prefix_append_cons h (x :: a) b
      rw [List.cons_append] at hbegins
      rw [List.cons_append, List.infix_cons_iff, List.infix_cons_iff, hbegins, ih, or_assoc]

/-! ## From a pattern on -/

/-- The text from the first place of a pattern on. -/
def fromFirst (pat s : Bytes) : Option Bytes := (find pat s).map fun pos => s.drop pos

theorem fromFirst_cons (pat : Bytes) (c : UInt8) (s : Bytes) :
    fromFirst pat (c :: s) = if pat <+: c :: s then some (c :: s) else fromFirst pat s := by
  rw [fromFirst, find]
  split
  · rfl
  · rw [Option.map_map]
    rfl

theorem fromFirst_append {pat region rest : Bytes} (h : NoMatch pat region rest) :
    fromFirst pat (region ++ rest) = fromFirst pat rest := by
  rw [fromFirst, find_append h, Option.map_map, fromFirst]
  refine congrArg (fun f => (find pat rest).map f) (funext fun n => ?_)
  rw [Function.comp, Nat.add_comm, List.drop_length_add_append]

theorem fromFirst_of_prefix {pat s : Bytes} (hne : pat ≠ []) (h : pat <+: s) :
    fromFirst pat s = some s := by
  cases s with
  | nil => exact absurd (List.prefix_nil.1 h) hne
  | cons c s => rw [fromFirst_cons, if_pos h]

theorem prefix_of_fromFirst {pat s t : Bytes} (h : fromFirst pat s = some t) : pat <+: t := by
  induction s with
  | nil =>
      rw [fromFirst, find] at h
      split at h
      · next hnil =>
          rw [hnil]
          exact List.nil_prefix
      · cases h
  | cons c s ih =>
      rw [fromFirst_cons] at h
      split at h
      · next hpat =>
          cases h
          exact hpat
      · exact ih h

theorem suffix_of_fromFirst {pat s t : Bytes} (h : fromFirst pat s = some t) :
    t <:+ s := by
  obtain ⟨pos, -, rfl⟩ := Option.map_eq_some_iff.1 h
  exact List.drop_suffix pos s

/-- What is found in the beginning of a text is found in the text. -/
theorem fromFirst_append_of_eq {pat a t : Bytes} (hne : pat ≠ [])
    (h : fromFirst pat a = some t) (v : Bytes) : fromFirst pat (a ++ v) = some (t ++ v) := by
  induction a with
  | nil =>
      rw [fromFirst, find, if_neg hne] at h
      cases h
  | cons c a ih =>
      rw [fromFirst_cons] at h
      rw [List.cons_append, fromFirst_cons]
      split at h
      · next hpat =>
          cases h
          exact if_pos (hpat.trans (List.prefix_append (c :: a) v))
      · next hpat =>
          by_cases hlong : pat <+: c :: (a ++ v)
          · exfalso
            -- the pattern would have to end behind the beginning, but it is found in it
            obtain ⟨pos, hpos, rfl⟩ := Option.map_eq_some_iff.1 h
            have hin : pat <:+: a := isSome_find.1 (by rw [hpos]; rfl)
            have hlength := hin.length_le
            exact hpat (List.prefix_of_prefix_length_le hlong
              (List.prefix_append (c :: a) v) (by rw [List.length_cons]; omega))
          · rw [if_neg hlong]
            exact ih h

/-- What is found in the text as far as its beginning goes is found in that. -/
theorem fromFirst_of_append {pat a t v : Bytes} (hne : pat ≠ []) (hpat : pat <+: t)
    (h : fromFirst pat (a ++ v) = some (t ++ v)) : fromFirst pat a = some t := by
  induction a with
  | nil =>
      have hsuffix := (suffix_of_fromFirst h).length_le
      rw [List.nil_append, List.length_append] at hsuffix
      have ht : t = [] := List.length_eq_zero_iff.1 (by omega)
      subst ht
      exact absurd (List.prefix_nil.1 hpat) hne
  | cons c a ih =>
      rw [List.cons_append, fromFirst_cons] at h
      rw [fromFirst_cons]
      split at h
      · have ht : t = c :: a := by
          have heq := Option.some_inj.1 h
          rw [← List.cons_append] at heq
          exact (List.append_cancel_right heq).symm
        subst ht
        rw [if_pos hpat]
      · next hno =>
          rw [if_neg fun hshort => hno (hshort.trans (List.prefix_append (c :: a) v))]
          exact ih h

/-- What is found behind the beginning is not found in it. -/
theorem fromFirst_eq_none {pat a t v : Bytes} (hne : pat ≠ [])
    (h : fromFirst pat (a ++ v) = some t) (hlength : t.length ≤ v.length) :
    fromFirst pat a = none := by
  rw [Option.eq_none_iff_forall_ne_some]
  intro u hu
  rw [fromFirst_append_of_eq hne hu v, Option.some_inj] at h
  rw [← h, List.length_append] at hlength
  have hempty : u = [] := List.length_eq_zero_iff.1 (by omega)
  rw [hempty] at hu
  exact hne (List.prefix_nil.1 (prefix_of_fromFirst hu))

/-! ## Between separators -/

theorem splitOn_pieces {c : UInt8} {s y : Bytes} {ys : List Bytes} (h : s.splitOn c = y :: ys) :
    (c ∉ y ∧ y <+: s) ∧ ∀ z ∈ ys, c ∉ z ∧ z <:+: s := by
  induction s generalizing y ys with
  | nil =>
      rw [List.splitOn_nil] at h
      cases h
      exact ⟨⟨List.not_mem_nil, List.nil_prefix⟩, fun z hz => absurd hz List.not_mem_nil⟩
  | cons d s ih =>
      cases hs : s.splitOn c with
      | nil => exact absurd hs (List.splitOn_ne_nil c s)
      | cons z zs =>
          obtain ⟨⟨hz, hbegins⟩, hzs⟩ := ih hs
          have hlater : ∀ x ∈ zs, c ∉ x ∧ x <:+: d :: s := fun x hx =>
            ⟨(hzs x hx).1, (hzs x hx).2.trans (List.suffix_cons d s).isInfix⟩
          rw [List.splitOn_cons_eq_if_modifyHead, hs] at h
          split at h
          · cases h
            refine ⟨⟨List.not_mem_nil, List.nil_prefix⟩, fun x hx => ?_⟩
            rcases List.mem_cons.1 hx with rfl | hx
            · exact ⟨hz, hbegins.isInfix.trans (List.suffix_cons d s).isInfix⟩
            · exact hlater x hx
          · next hd =>
              rw [List.modifyHead_cons] at h
              cases h
              have hne : c ≠ d := fun heq => hd (beq_iff_eq.2 heq.symm)
              exact ⟨⟨by simp [hne, hz], (List.prefix_cons_inj d).2 hbegins⟩, hlater⟩

/-- A piece of a text has no separator, and the text has the piece. -/
theorem mem_splitOn {c : UInt8} {s x : Bytes} (h : x ∈ s.splitOn c) : c ∉ x ∧ x <:+: s := by
  cases hs : s.splitOn c with
  | nil => exact absurd hs (List.splitOn_ne_nil c s)
  | cons y ys =>
      obtain ⟨hy, hys⟩ := splitOn_pieces hs
      rw [hs] at h
      rcases List.mem_cons.1 h with rfl | hx
      · exact ⟨hy.1, hy.2.isInfix⟩
      · exact hys x hx
/-! ## Keys and values -/

/-- A string in quotes. -/
inductive Quoted where
  | key (k : Bytes)
  | value (v : Bytes)

def Quoted.text : Quoted → Bytes
  | key k => k
  | value v => v

/-- Strings in quotes, each with what stands before it, and what stands behind the last. -/
def quotedText : List (Bytes × Quoted) → Bytes → Bytes
  | [], rest => rest
  | (gap, q) :: l, rest => gap ++ 34 :: (q.text ++ 34 :: quotedText l rest)

theorem quotedText_append (l l' : List (Bytes × Quoted)) (rest : Bytes) :
    quotedText (l ++ l') rest = quotedText l (quotedText l' rest) := by
  induction l with
  | nil => rfl
  | cons p l ih => rw [List.cons_append, quotedText, quotedText, ih]

theorem quotedText_rest (l : List (Bytes × Quoted)) (a b : Bytes) :
    quotedText l a ++ b = quotedText l (a ++ b) := by
  induction l with
  | nil => rfl
  | cons p l ih =>
      rw [quotedText, quotedText, List.append_assoc, List.cons_append, List.append_assoc,
        List.cons_append, ih]

/-- A text that breaks off in a string, and what follows. -/
theorem quotedText_value (l l' : List (Bytes × Quoted)) (gap v rest : Bytes) :
    quotedText (l ++ (gap, .value v) :: l') rest =
      quotedText l (gap ++ 34 :: v) ++ 34 :: quotedText l' rest := by
  rw [quotedText_append, quotedText, quotedText_rest, List.append_assoc, List.cons_append]
  rfl

/-- What may follow a string that is no key. -/
def isSeparator (c : UInt8) : Bool := c = 10 || c = 44 || c = 93 || c = 125

/-- A colon follows a key, and a separator another string. -/
def Quoted.followed : Quoted → Bytes → Bool
  | key _, s => s.head? = some 58
  | value _, s => s.head?.any isSeparator

def alternates : List (Bytes × Quoted) → Bytes → Bool
  | [], _ => true
  | (_, q) :: l, rest => q.followed (quotedText l rest) && alternates l rest

/-- There is no other quote. -/
def Unquoted (l : List (Bytes × Quoted)) : Prop := ∀ p ∈ l, 34 ∉ p.1 ∧ 34 ∉ p.2.text

/-- What follows a key. -/
def locate (k : Bytes) : List (Bytes × Quoted) → Option (List (Bytes × Quoted))
  | [] => none
  | (_, .key k') :: l => if k' = k then some l else locate k l
  | (_, .value _) :: l => locate k l

/-- A name in quotes with what is to follow it. -/
def marker (k next : Bytes) : Bytes := 34 :: (k ++ 34 :: next)

theorem marker_append (k a b : Bytes) : marker k (a ++ b) = marker k a ++ b := by
  rw [marker, marker, List.cons_append, List.append_assoc, List.cons_append]

theorem marker_ne_nil (k next : Bytes) : marker k next ≠ [] := List.cons_ne_nil _ _

/-- Between two quotes a name stands as a whole or not at all. -/
theorem eq_of_prefix_quote {k s next rest : Bytes} (hk : 34 ∉ k) (hs : 34 ∉ s)
    (h : k ++ 34 :: next <+: s ++ 34 :: rest) : k = s ∧ next <+: rest := by
  obtain ⟨t, ht⟩ := h
  rw [List.append_assoc, List.cons_append] at ht
  have hcut := congrArg (cut 34) ht
  rw [cut_append hk, cut_append hs, Option.some_inj, Prod.mk.injEq] at hcut
  exact ⟨hcut.1, t, hcut.2⟩

/-- A name that no gap begins like. -/
def IsName (k : Bytes) : Prop :=
  34 ∉ k ∧ (k.head?.any fun c => c ≠ 58 && !isSeparator c) = true

instance (k : Bytes) : Decidable (IsName k) := inferInstanceAs (Decidable (_ ∧ _))

/-- Where a name is found in a text, if there are no quotes but those of its strings. -/
structure Located (k : Bytes) (l l' : List (Bytes × Quoted)) (rest : Bytes) : Prop where
  isName : IsName k
  alternates : alternates l rest = true
  plain : Unquoted l
  locate : locate k l = some l'

theorem fromFirst_quotedText {k next rest : Bytes} {l l' : List (Bytes × Quoted)}
    (h : Located k l l' rest) (hnext : 58 :: next <+: quotedText l' rest) :
    fromFirst (marker k (58 :: next)) (quotedText l rest) =
      some (marker k (quotedText l' rest)) := by
  obtain ⟨hk, halternates, hplain, hlocate⟩ := h
  induction l with
  | nil => cases hlocate
  | cons p l ih =>
      obtain ⟨gap, q⟩ := p
      obtain ⟨⟨hgap, hq⟩, hplain⟩ := List.forall_mem_cons.1 hplain
      rw [alternates, Bool.and_eq_true] at halternates
      obtain ⟨hfollowed, halternates⟩ := halternates
      have hskip : fromFirst (marker k (58 :: next)) (quotedText ((gap, q) :: l) rest) =
          fromFirst (marker k (58 :: next)) (34 :: (q.text ++ 34 :: quotedText l rest)) :=
        fromFirst_append (NoMatch.of_head_notMem _ hgap)
      by_cases hfound : q = .key k
      · subst hfound
        rw [locate, if_pos rfl] at hlocate
        cases hlocate
        rw [hskip]
        refine fromFirst_of_prefix (by simp [marker]) ?_
        rw [marker, Quoted.text, List.cons_prefix_cons]
        refine ⟨rfl, ?_⟩
        rw [List.prefix_append_right_inj, List.cons_prefix_cons]
        exact ⟨rfl, hnext⟩
      · have hrest : locate k l = some l' := by
          cases q with
          | key k' =>
              have hne : k' ≠ k := fun heq => hfound (congrArg Quoted.key heq)
              rwa [locate, if_neg hne] at hlocate
          | value v => exact hlocate
        obtain ⟨hquote, hfirst⟩ := hk
        obtain ⟨c, hhead, hc⟩ := (Option.any_eq_true _ _).1 hfirst
        obtain ⟨hcolon, hseparator⟩ : c ≠ 58 ∧ isSeparator c = false := by simpa using hc
        have hopening : ¬ marker k (58 :: next) <+: 34 :: (q.text ++ 34 :: quotedText l rest) := by
          rw [marker, List.cons_prefix_cons]
          rintro ⟨-, hbegins⟩
          obtain ⟨hname, hcolons⟩ := eq_of_prefix_quote hquote hq hbegins
          cases q with
          | key k' => exact hfound (congrArg Quoted.key hname.symm)
          | value v =>
              obtain ⟨u, hu⟩ := hcolons
              rw [Quoted.followed, ← hu] at hfollowed
              cases hfollowed
        have hclosing : ¬ marker k (58 :: next) <+: 34 :: quotedText l rest := by
          rw [marker, List.cons_prefix_cons]
          rintro ⟨-, hbegins⟩
          have hfirst : (quotedText l rest).head? = some c := by
            obtain ⟨u, hu⟩ := hbegins
            cases k with
            | nil => cases hhead
            | cons d k =>
                rw [← hu]
                exact hhead
          cases q with
          | key k' =>
              rw [Quoted.followed, hfirst] at hfollowed
              exact hcolon (by simpa using hfollowed)
          | value v =>
              rw [Quoted.followed, hfirst] at hfollowed
              simp [hseparator] at hfollowed
        -- neither of the two quotes opens the name, and there is no other
        have hregion : NoMatch (marker k (58 :: next)) (34 :: (q.text ++ [34]))
            (quotedText l rest) := by
          refine NoMatch.cons ?_ (NoMatch.append (NoMatch.of_head_notMem _ hq)
            (NoMatch.cons ?_ (NoMatch.nil _ _)))
          · simpa using hopening
          · exact hclosing
        have hpieces : 34 :: (q.text ++ 34 :: quotedText l rest) =
            34 :: (q.text ++ [34]) ++ quotedText l rest := by simp
        rw [hskip, hpieces, fromFirst_append hregion]
        exact ih halternates hplain hrest

end Nazg.Lib
