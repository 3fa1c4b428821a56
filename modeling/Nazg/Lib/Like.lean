import Mathlib.Data.List.Infix
import Nazg.Lib.Bytes

/-!
# The LIKE of SQLite

A text is matched character by character, and the characters are read from its bytes
without a check that they are proper UTF-8: any byte below `0xC0` where a character starts
is one by itself, and any byte from there on takes all the continuation bytes behind it. So
a character has more than one spelling (`readChars_respelled`), and two texts that differ
as bytes may be the same text to LIKE.

`Like` says what a pattern matches; `like` decides it.
-/

namespace Nazg.Lib.Sqlite

/-! ## Reading characters -/

def isContinuation (c : UInt8) : Bool := c &&& 0xC0 = 0x80

/-- The value bits of a first byte (`sqlite3Utf8Trans1`). -/
def leadValue (c : UInt8) : UInt32 :=
  if c < 0xE0 then (c &&& 0x1F).toUInt32
  else if c < 0xF0 then (c &&& 0x0F).toUInt32
  else if c < 0xF8 then (c &&& 0x07).toUInt32
  else if c < 0xFC then (c &&& 0x03).toUInt32
  else if c < 0xFE then (c &&& 0x01).toUInt32
  else 0

/-- The six bits of one more continuation byte. -/
def extend (v : UInt32) (c : UInt8) : UInt32 := (v <<< 6) + (c &&& 0x3F).toUInt32

/-- A value that is too small for its spelling, a surrogate or no character is replaced. -/
def proper (v : UInt32) : UInt32 :=
  if v < 0x80 ∨ v &&& 0xFFFFF800 = 0xD800 ∨ v &&& 0xFFFFFFFE = 0xFFFE then 0xFFFD else v

/-- `sqlite3Utf8Read` to the end of the text; in the middle of a character its value so
far is given. -/
def readFrom : Option UInt32 → Bytes → List UInt32
  | none, [] => []
  | some v, [] => [proper v]
  | none, c :: s =>
      if c < 0xC0 then c.toUInt32 :: readFrom none s
      else readFrom (some (leadValue c)) s
  | some v, c :: s =>
      if isContinuation c then readFrom (some (extend v c)) s
      else if c < 0xC0 then proper v :: c.toUInt32 :: readFrom none s
      else proper v :: readFrom (some (leadValue c)) s

def readChars (s : Bytes) : List UInt32 := readFrom none s

/-- A text that the character before it does not reach into. -/
def Apart (s : Bytes) : Prop := ∀ c ∈ s.head?, isContinuation c = false

theorem readFrom_some_of_apart (v : UInt32) {s : Bytes} (h : Apart s) :
    readFrom (some v) s = proper v :: readFrom none s := by
  cases s with
  | nil => rfl
  | cons c s =>
      have hc : isContinuation c = false := h c rfl
      simp only [readFrom, hc, Bool.false_eq_true, if_false]
      split <;> rfl

theorem readFrom_append (s : Bytes) {t : Bytes} (h : Apart t) (v : Option UInt32) :
    readFrom v (s ++ t) = readFrom v s ++ readFrom none t := by
  induction s generalizing v with
  | nil =>
      cases v with
      | none => rfl
      | some v => exact readFrom_some_of_apart v h
  | cons c s ih =>
      cases v with
      | none =>
          rw [List.cons_append, readFrom, readFrom, ih, ih]
          split <;> rfl
      | some v =>
          rw [List.cons_append, readFrom, readFrom, ih, ih, ih]
          split
          · rfl
          · split <;> rfl

theorem readChars_append (s : Bytes) {t : Bytes} (h : Apart t) :
    readChars (s ++ t) = readChars s ++ readChars t := readFrom_append s h none

theorem apart_cons {c : UInt8} (h : isContinuation c = false) (s : Bytes) : Apart (c :: s) := by
  intro d hd
  obtain rfl : c = d := Option.some.inj hd
  exact h

theorem isContinuation_eq (c : UInt8) :
    isContinuation c = decide (0x80 ≤ c ∧ c < 0xC0) :=
  forall_byte (p := fun c => isContinuation c = decide (0x80 ≤ c ∧ c < 0xC0)) (by decide +kernel) c

theorem readChars_cons_of_lt {c : UInt8} (h : c < 0xC0) (s : Bytes) :
    readChars (c :: s) = c.toUInt32 :: readChars s := by
  rw [readChars, readFrom, if_pos h, readChars]

/-- The value of a first byte may as well stand in a continuation byte behind `0xC0` or
`0xE0`, which have no value of their own. -/
theorem readChars_respelled {c : UInt8} (h : 0xC0 ≤ c) (s : Bytes) :
    ∃ d e, d ≠ c ∧ 0xC0 ≤ d ∧ e ≠ 0 ∧ readChars (d :: e :: s) = readChars (c :: s) := by
  have hfacts : isContinuation (0x80 + (leadValue c).toUInt8) = true ∧
      0x80 + (leadValue c).toUInt8 ≠ 0 ∧
      extend 0 (0x80 + (leadValue c).toUInt8) = leadValue c := by
    revert h
    exact forall_byte (p := fun c => 0xC0 ≤ c →
      isContinuation (0x80 + (leadValue c).toUInt8) = true ∧
      0x80 + (leadValue c).toUInt8 ≠ 0 ∧
      extend 0 (0x80 + (leadValue c).toUInt8) = leadValue c) (by decide +kernel) c
  obtain ⟨hcont, hzero, hext⟩ := hfacts
  have hread : ∀ d : UInt8, 0xC0 ≤ d → leadValue d = 0 →
      readChars (d :: (0x80 + (leadValue c).toUInt8) :: s) = readChars (c :: s) := by
    intro d hd hlead
    rw [readChars, readFrom, if_neg (not_lt.2 hd), hlead, readFrom, if_pos hcont, hext, readChars,
      readFrom, if_neg (not_lt.2 h)]
  by_cases hc : c = 0xC0
  · exact ⟨0xE0, _, by rw [hc]; decide, by decide, hzero, hread _ (by decide) (by decide)⟩
  · exact ⟨0xC0, _, Ne.symm hc, by decide, hzero, hread _ (by decide) (by decide)⟩

/-- A continuation byte by itself is the character that is spelled with `0xC2` before it. -/
theorem readChars_continuation {c : UInt8} (h : isContinuation c = true) {s : Bytes}
    (hs : Apart s) : readChars (0xC2 :: c :: s) = readChars (c :: s) := by
  have hfacts : ∀ c : UInt8, isContinuation c = true → c < 0xC0 ∧
      proper (extend (leadValue 0xC2) c) = c.toUInt32 :=
    fun c => forall_byte (p := fun c => isContinuation c = true → c < 0xC0 ∧
      proper (extend (leadValue 0xC2) c) = c.toUInt32) (by decide +kernel) c
  obtain ⟨hlt, hvalue⟩ := hfacts c h
  rw [readChars_cons_of_lt hlt, readChars, readFrom, if_neg (by decide), readFrom, if_pos h,
    readFrom_some_of_apart _ hs, hvalue, readChars]

theorem readFrom_some (v : UInt32) (s : Bytes) :
    ∃ w us, readFrom (some v) s = proper w :: us := by
  induction s generalizing v with
  | nil => exact ⟨v, [], rfl⟩
  | cons c s ih =>
      rw [readFrom]
      split
      · exact ih _
      · split <;> exact ⟨v, _, rfl⟩

theorem le_proper (v : UInt32) : 0x80 ≤ proper v := by
  rw [proper]
  split
  · decide
  · next h => exact UInt32.not_lt.1 fun hlt => h (.inl hlt)

theorem readChars_of_ascii {s : Bytes} (h : ∀ c ∈ s, c < 0x80) :
    readChars s = s.map UInt8.toUInt32 := by
  induction s with
  | nil => rfl
  | cons c s ih =>
      have hc := h c List.mem_cons_self
      rw [readChars_cons_of_lt (UInt8.lt_trans hc (by decide)), List.map_cons,
        ih fun d hd => h d (List.mem_cons_of_mem _ hd)]

/-- A character below `0x80` is read from its own byte only. -/
theorem eq_of_readChars {c : UInt8} (hc : c < 0x80) {d : UInt8} {s : Bytes} {us : List UInt32}
    (h : readChars (d :: s) = c.toUInt32 :: us) : d = c ∧ readChars s = us := by
  rcases UInt8.lt_or_le d 0xC0 with hd | hd
  · rw [readChars_cons_of_lt hd] at h
    obtain ⟨hhead, htail⟩ := List.cons.inj h
    exact ⟨UInt8.toUInt32_inj.1 hhead, htail⟩
  · obtain ⟨w, vs, hread⟩ := readFrom_some (leadValue d) s
    rw [readChars, readFrom, if_neg (UInt8.not_lt.2 hd), hread] at h
    have hle : 0x80 ≤ c.toUInt32 := (List.cons.inj h).1 ▸ le_proper w
    exact absurd hle (UInt32.not_le.2 (UInt8.toUInt32_lt.2 hc))

theorem prefix_of_readChars {s path : Bytes} (hs : ∀ c ∈ s, c < 0x80)
    (h : readChars s <+: readChars path) : s <+: path := by
  induction s generalizing path with
  | nil => exact List.nil_prefix
  | cons c s ih =>
      have hc := hs c List.mem_cons_self
      obtain ⟨us, hus⟩ := h
      rw [readChars_cons_of_lt (UInt8.lt_trans hc (by decide)), List.cons_append] at hus
      cases path with
      | nil => cases hus
      | cons d path =>
          obtain ⟨rfl, htail⟩ := eq_of_readChars hc hus.symm
          exact List.cons_prefix_cons.2 ⟨rfl, ih (fun e he => hs e (List.mem_cons_of_mem _ he))
            ⟨us, htail.symm⟩⟩

/-! ## Matching -/

abbrev percent : UInt32 := 0x25

abbrev underscore : UInt32 := 0x5F

def foldCase (c : UInt32) : UInt32 := if 0x41 ≤ c ∧ c ≤ 0x5A then c + 0x20 else c

/-- What a pattern matches: `%` stands for any run of characters, `_` for one character, and
any other character for itself, an ASCII letter in either case. -/
inductive Like : List UInt32 → List UInt32 → Prop
  | nil : Like [] []
  | run {p s t : List UInt32} (ht : s <:+ t) (h : Like p s) : Like (percent :: p) t
  | one (c : UInt32) {p s : List UInt32} (h : Like p s) : Like (underscore :: p) (c :: s)
  | char {c d : UInt32} {p s : List UInt32} (hc : c ≠ percent) (hcd : foldCase c = foldCase d)
      (h : Like p s) : Like (c :: p) (d :: s)

/-- `patternCompare`. -/
def like : List UInt32 → List UInt32 → Bool
  | [], s => s.isEmpty
  | c :: p, s =>
      if c = percent then s.tails.any (like p)
      else s.head?.any (fun d => c = underscore || foldCase c = foldCase d) && like p s.tail

theorem like_iff (p s : List UInt32) : like p s = true ↔ Like p s := by
  induction p generalizing s with
  | nil =>
      rw [like, List.isEmpty_iff]
      constructor
      · rintro rfl
        exact .nil
      · intro h
        cases h
        rfl
  | cons c p ih =>
      rw [like]
      split
      · next hc =>
          subst hc
          rw [List.any_eq_true]
          constructor
          · rintro ⟨t, ht, hlike⟩
            exact .run ((List.mem_tails _ _).1 ht) ((ih t).1 hlike)
          · intro h
            cases h with
            | run ht h => exact ⟨_, (List.mem_tails _ _).2 ht, (ih _).2 h⟩
            | char hc => exact absurd rfl hc
      · next hc =>
          cases s with
          | nil =>
              constructor
              · intro h
                cases h
              · intro h
                cases h with
                | run => exact absurd rfl hc
          | cons d s =>
              simp only [List.head?_cons, Option.any_some, List.tail_cons, Bool.and_eq_true,
                Bool.or_eq_true, decide_eq_true_eq, ih]
              constructor
              · rintro ⟨rfl | hcd, h⟩
                · exact .one d h
                · exact .char hc hcd h
              · intro h
                cases h with
                | run => exact absurd rfl hc
                | one _ h => exact ⟨.inl rfl, h⟩
                | char _ hcd h => exact ⟨.inr hcd, h⟩

instance (p s : List UInt32) : Decidable (Like p s) := decidable_of_iff _ (like_iff p s)

theorem Like.append {p s q t : List UInt32} (h : Like p s) (h' : Like q t) :
    Like (p ++ q) (s ++ t) := by
  induction h with
  | nil => exact h'
  | run ht _ ih => exact .run (List.suffix_append_self_iff.2 ht) ih
  | one c _ ih => exact .one c ih
  | char hc hcd _ ih => exact .char hc hcd ih

/-- Every text matches itself. -/
theorem Like.refl (p : List UInt32) : Like p p := by
  induction p with
  | nil => exact .nil
  | cons c p ih =>
      by_cases hc : c = percent
      · subst hc
        exact .run (List.suffix_cons _ _) ih
      · exact .char hc rfl ih

/-- One character of a text changed to one that stands for it. -/
theorem Like.replace (p : List UInt32) {c d : UInt32} (q : List UInt32)
    (h : c = percent ∨ c = underscore ∨ foldCase c = foldCase d) :
    Like (p ++ c :: q) (p ++ d :: q) := by
  refine (Like.refl p).append ?_
  by_cases hc : c = percent
  · subst hc
    exact .run (List.suffix_cons _ _) (.refl q)
  · rcases h with h | rfl | h
    · exact absurd h hc
    · exact .one d (.refl q)
    · exact .char hc h (.refl q)

/-- A final `%` takes any ending. -/
theorem Like.endless (p t : List UInt32) : Like (p ++ [percent]) (p ++ t) := by
  exact (Like.refl p).append (.run List.nil_suffix .nil)

/-- A pattern that has no wildcard and no letter before its final `%` matches what begins
with it. -/
theorem Like.begins {p s : List UInt32}
    (hp : ∀ c ∈ p, c ≠ percent ∧ c ≠ underscore ∧ ∀ d, foldCase c = foldCase d → d = c)
    (h : Like (p ++ [percent]) s) : p <+: s := by
  induction p generalizing s with
  | nil => exact List.nil_prefix
  | cons c p ih =>
      have hc := hp c List.mem_cons_self
      cases h with
      | run => exact absurd rfl hc.1
      | one => exact absurd rfl hc.2.1
      | char _ hcd h =>
          rw [hc.2.2 _ hcd]
          exact List.cons_prefix_cons.2 ⟨rfl, ih (fun d hd => hp d (List.mem_cons_of_mem _ hd)) h⟩

/-! ## Bytes that stand for themselves -/

/-- An ASCII byte that is no wildcard and no letter. -/
def Literal (c : UInt8) : Prop :=
  c < 0x80 ∧ c ≠ 0x25 ∧ c ≠ 0x5F ∧ ¬ (0x41 ≤ c ∧ c ≤ 0x5A) ∧ ¬ (0x61 ≤ c ∧ c ≤ 0x7A)

instance : DecidablePred Literal := fun _ => inferInstanceAs (Decidable (_ ∧ _))

theorem eq_of_foldCase {c d : UInt32} (hupper : ¬ (0x41 ≤ c ∧ c ≤ 0x5A))
    (hlower : ¬ (0x61 ≤ c ∧ c ≤ 0x7A)) (h : foldCase c = foldCase d) : d = c := by
  rw [foldCase, if_neg hupper, foldCase] at h
  split at h
  · next hd =>
      subst h
      simp only [UInt32.le_iff_toNat_le, UInt32.toNat_add, UInt32.reduceToNat] at hlower hd
      omega
  · exact h.symm

/-- A text of such bytes, with a final `%`, matches the texts that begin with it. -/
theorem prefix_of_like {s path : Bytes} (hs : ∀ c ∈ s, Literal c)
    (h : Like (readChars s ++ [percent]) (readChars path)) : s <+: path := by
  have hascii : ∀ c ∈ s, c < 0x80 := fun c hc => (hs c hc).1
  refine prefix_of_readChars hascii (h.begins fun u hu => ?_)
  rw [readChars_of_ascii hascii] at hu
  obtain ⟨c, hc, rfl⟩ := List.mem_map.1 hu
  obtain ⟨-, hpercent, hunderscore, hupper, hlower⟩ := hs c hc
  have hle : ∀ a b : UInt8, a.toUInt32 ≤ b.toUInt32 ↔ a ≤ b := fun _ _ => UInt8.toUInt32_le
  refine ⟨fun h => hpercent (UInt8.toUInt32_inj.1 h), fun h => hunderscore (UInt8.toUInt32_inj.1 h),
    fun d => eq_of_foldCase ?_ ?_⟩
  · rwa [← hle, ← hle] at hupper
  · rwa [← hle, ← hle] at hlower

theorem not_prefix_of_ne {a b s : Bytes} {c d : UInt8} (h : d ≠ c) :
    ¬ a ++ c :: b <+: a ++ d :: s := by
  rw [List.prefix_append_right_inj, List.cons_prefix_cons]
  exact fun heq => h heq.1.symm

/-- Another ASCII byte that the byte of a pattern takes, if it does not stand for itself. -/
theorem exists_taken {c : UInt8} (hascii : c < 0x80) (h : ¬ Literal c) :
    ∃ d : UInt8, d < 0x80 ∧ d ≠ c ∧ d ≠ 0 ∧ (c.toUInt32 = percent ∨ c.toUInt32 = underscore ∨
      foldCase c.toUInt32 = foldCase d.toUInt32) := by
  by_cases hupper : 0x41 ≤ c ∧ c ≤ 0x5A
  · refine ⟨c + 0x20, ?_⟩
    revert hupper
    exact forall_byte (p := fun c => 0x41 ≤ c ∧ c ≤ 0x5A → c + 0x20 < 0x80 ∧ c + 0x20 ≠ c ∧
      c + 0x20 ≠ 0 ∧ (c.toUInt32 = percent ∨ c.toUInt32 = underscore ∨
        foldCase c.toUInt32 = foldCase (c + 0x20).toUInt32)) (by decide +kernel) c
  · refine ⟨if c = 0x25 ∨ c = 0x5F then 0x78 else c - 0x20, ?_⟩
    revert hascii h hupper
    exact forall_byte (p := fun c => c < 0x80 → ¬ Literal c → ¬ (0x41 ≤ c ∧ c ≤ 0x5A) →
      (if c = 0x25 ∨ c = 0x5F then 0x78 else c - 0x20 : UInt8) < 0x80 ∧
      (if c = 0x25 ∨ c = 0x5F then 0x78 else c - 0x20 : UInt8) ≠ c ∧
      (if c = 0x25 ∨ c = 0x5F then 0x78 else c - 0x20 : UInt8) ≠ 0 ∧
      (c.toUInt32 = percent ∨ c.toUInt32 = underscore ∨ foldCase c.toUInt32 =
        foldCase (if c = 0x25 ∨ c = 0x5F then 0x78 else c - 0x20 : UInt8).toUInt32))
      (by decide +kernel) c

theorem readChars_append_of_lt {a : Bytes} (h : ∀ c ∈ a, c < 0xC0) (s : Bytes) :
    readChars (a ++ s) = readChars a ++ readChars s := by
  induction a with
  | nil => rfl
  | cons c a ih =>
      have hc := h c List.mem_cons_self
      rw [List.cons_append, readChars_cons_of_lt hc, readChars_cons_of_lt hc,
        ih fun d hd => h d (List.mem_cons_of_mem _ hd)]
      rfl

/-- The last continuation byte of a text. -/
theorem exists_last_continuation {s : Bytes} (h : ∃ c ∈ s, isContinuation c = true) :
    ∃ a c b, s = a ++ c :: b ∧ isContinuation c = true ∧ Apart b := by
  induction s with
  | nil => simp at h
  | cons c s ih =>
      by_cases hs : ∃ d ∈ s, isContinuation d = true
      · obtain ⟨a, d, b, rfl, hd, hb⟩ := ih hs
        exact ⟨c :: a, d, b, rfl, hd, hb⟩
      · obtain ⟨d, hd, hcont⟩ := h
        rcases List.mem_cons.1 hd with rfl | hd
        · refine ⟨[], d, s, rfl, hcont, fun e he => ?_⟩
          exact Bool.eq_false_of_not_eq_true fun h => hs ⟨e, List.mem_of_mem_head? he, h⟩
        · exact absurd ⟨d, hd, hcont⟩ hs

/-- A text with any other byte is a pattern for texts that do not begin with it too. -/
theorem exists_like_not_prefix {s : Bytes} (hzero : 0 ∉ s) (h : ∃ c ∈ s, ¬ Literal c) :
    ∃ path, path ≠ [] ∧ 0 ∉ path ∧ Like (readChars s) (readChars path) ∧ ¬ s <+: path := by
  by_cases hascii : ∃ c ∈ s, c < 0x80 ∧ ¬ Literal c
  · obtain ⟨c, hc, hlt, hliteral⟩ := hascii
    obtain ⟨d, hd, hne, hnul, htakes⟩ := exists_taken hlt hliteral
    obtain ⟨a, b, rfl⟩ := List.append_of_mem hc
    have hread : ∀ e : UInt8, e < 0x80 →
        readChars (a ++ e :: b) = readChars a ++ e.toUInt32 :: readChars b := by
      intro e he
      have hcont : isContinuation e = false := by
        rw [isContinuation_eq, decide_eq_false_iff_not]
        exact fun h => UInt8.not_le.2 he h.1
      rw [readChars_append a (apart_cons hcont b),
        readChars_cons_of_lt (UInt8.lt_trans he (by decide))]
    refine ⟨a ++ d :: b, by simp, ?_, ?_, not_prefix_of_ne hne⟩
    · simp only [List.mem_append, List.mem_cons, not_or] at hzero ⊢
      exact ⟨hzero.1, Ne.symm hnul, hzero.2.2⟩
    · rw [hread c hlt, hread d hd]
      exact .replace _ _ htakes
  by_cases hlead : ∃ c ∈ s, 0xC0 ≤ c
  · -- the character in the spelling of another first byte
    obtain ⟨c, hc, hle⟩ := hlead
    obtain ⟨a, b, rfl⟩ := List.append_of_mem hc
    obtain ⟨d, e, hne, hd, he, hread⟩ := readChars_respelled hle b
    have hapart : ∀ {e : UInt8}, 0xC0 ≤ e → isContinuation e = false := by
      intro e he
      rw [isContinuation_eq, decide_eq_false_iff_not]
      exact fun h => UInt8.not_lt.2 he h.2
    refine ⟨a ++ d :: e :: b, by simp, ?_, ?_, not_prefix_of_ne hne⟩
    · simp only [List.mem_append, List.mem_cons, not_or] at hzero ⊢
      refine ⟨hzero.1, ?_, Ne.symm he, hzero.2.2⟩
      rintro rfl
      exact absurd hd (by decide)
    · rw [readChars_append a (apart_cons (hapart hle) _), readChars_append a
        (apart_cons (hapart hd) _), hread]
      exact .refl _
  · -- only continuation bytes are left, each a character by itself
    have hlt : ∀ c ∈ s, c < 0xC0 := fun c hc => UInt8.not_le.1 fun hle => hlead ⟨c, hc, hle⟩
    have hcont : ∃ c ∈ s, isContinuation c = true := by
      obtain ⟨c, hc, hliteral⟩ := h
      refine ⟨c, hc, ?_⟩
      rw [isContinuation_eq, decide_eq_true_iff]
      exact ⟨UInt8.not_lt.1 fun hlow => hascii ⟨c, hc, hlow, hliteral⟩, hlt c hc⟩
    obtain ⟨a, c, b, rfl, hc, hb⟩ := exists_last_continuation hcont
    have hlow : ∀ d ∈ a, d < 0xC0 := fun d hd => hlt d (List.mem_append_left _ hd)
    refine ⟨a ++ 0xC2 :: c :: b, by simp, ?_, ?_, not_prefix_of_ne fun h => ?_⟩
    · simp only [List.mem_append, List.mem_cons, not_or] at hzero ⊢
      exact ⟨hzero.1, by decide, hzero.2⟩
    · rw [readChars_append_of_lt hlow, readChars_append_of_lt hlow, readChars_continuation hc hb]
      exact .refl _
    · exact absurd (hlt c (List.mem_append_right _ List.mem_cons_self)) (h ▸ by decide)

end Nazg.Lib.Sqlite
