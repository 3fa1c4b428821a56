import Nazg.Lib.Hex

/-!
# Strings of JSON

What stands between the quotes of a JSON string, read by the grammar: a byte stands for
itself unless it is a quote, a backslash or a control character, a backslash begins one of
the escapes, and `\u` a UTF-16 unit in four digits, which has to be half of a pair if it is
a surrogate. The text has to be UTF-8.

An escape function that works byte by byte is right for the texts whose bytes are each read
back (`unescape_flatMap`).
-/

namespace Nazg.Lib.Json

/-- The bytes of some characters. -/
def IsUtf8 (s : Bytes) : Prop := ∃ cs : List Char, s = cs.flatMap String.utf8EncodeChar

def IsAscii (s : Bytes) : Prop := ∀ c ∈ s, c < 128

/-- One place of a string: a byte, or a unit that is spelled out. -/
inductive Item where
  | byte (c : UInt8)
  | unit (u : Nat)

/-- Inside of what the reader is: of an escape, or of one in digits, with their value so far
and how many are left after the next. -/
inductive Reading where
  | text
  | escape
  | hex (u left : Nat)

def simpleEscape (c : UInt8) : Option UInt8 :=
  if c = quote ∨ c = backslash ∨ c = 47 then some c
  else if c = 98 then some 8
  else if c = 102 then some 12
  else if c = 110 then some 10
  else if c = 114 then some 13
  else if c = 116 then some 9
  else none

def readItems : Reading → Bytes → Option (List Item)
  | .text, [] => some []
  | .escape, [] => none
  | .hex _ _, [] => none
  | .text, c :: s =>
      if c = backslash then readItems .escape s
      else if c = quote ∨ c < 32 then none
      else (readItems .text s).map (.byte c :: ·)
  | .escape, c :: s =>
      if c = 117 then readItems (.hex 0 3) s
      else (simpleEscape c).bind fun d => (readItems .text s).map (.byte d :: ·)
  | .hex u left, c :: s =>
      (hexValue c).bind fun d =>
        match left with
        | 0 => (readItems .text s).map (.unit (16 * u + d) :: ·)
        | left + 1 => readItems (.hex (16 * u + d) left) s

def isHighSurrogate (u : Nat) : Bool := 0xD800 ≤ u && u < 0xDC00

def isLowSurrogate (u : Nat) : Bool := 0xDC00 ≤ u && u < 0xE000

/-- The scalar value of a pair of surrogates. -/
def pairValue (u v : Nat) : Nat := 0x10000 + 1024 * (u - 0xD800) + (v - 0xDC00)

/-- The bytes of the items, if no surrogate stands alone; behind the first of a pair, given
that one. -/
def joinItems : Option Nat → List Item → Option Bytes
  | none, [] => some []
  | some _, [] => none
  | none, .byte c :: is => (joinItems none is).map (c :: ·)
  | some _, .byte _ :: _ => none
  | none, .unit u :: is =>
      if isHighSurrogate u then joinItems (some u) is
      else if isLowSurrogate u then none
      else (joinItems none is).map (String.utf8EncodeChar (Char.ofNat u) ++ ·)
  | some u, .unit v :: is =>
      if isLowSurrogate v then
        (joinItems none is).map (String.utf8EncodeChar (Char.ofNat (pairValue u v)) ++ ·)
      else none

/-- The string that a text between quotes stands for. -/
def unescape (text : Bytes) : Option Bytes := (readItems .text text).bind (joinItems none)

/-- The text is what a JSON decoder takes for the string. -/
def DecodesTo (text s : Bytes) : Prop := IsUtf8 text ∧ unescape text = some s

/-! ## Writing a string

As C++ programs do it: the common escapes by name, the other control characters in the
program's own way. What is a control character depends on whether a `char` has a sign. -/

def namedEscape (c : UInt8) : Option Bytes :=
  if c = quote then some (bytes "\\\"")
  else if c = backslash then some (bytes "\\\\")
  else if c = 8 then some (bytes "\\b")
  else if c = 12 then some (bytes "\\f")
  else if c = 10 then some (bytes "\\n")
  else if c = 13 then some (bytes "\\r")
  else if c = 9 then some (bytes "\\t")
  else none

def escapeWith (signed : Bool) (control : UInt8 → Bytes) (c : UInt8) : Bytes :=
  (namedEscape c).getD (if charValue signed c < 32 then control c else [c])

/-! ## Texts byte by byte -/

theorem unescape_items {u : Bytes} {f : List Item → List Item}
    (hread : ∀ t, readItems .text (u ++ t) = (readItems .text t).map f) {v : Bytes}
    (hjoin : ∀ is, joinItems none (f is) = (joinItems none is).map (v ++ ·)) (t : Bytes) :
    unescape (u ++ t) = (unescape t).map (v ++ ·) := by
  rw [unescape, hread, unescape]
  cases readItems .text t with
  | none => rfl
  | some is => exact hjoin is

/-- A byte that may stand for itself. -/
theorem unescape_byte {c : UInt8} (hback : c ≠ backslash) (hquote : c ≠ quote) (hc : ¬ c < 32)
    (t : Bytes) : unescape ([c] ++ t) = (unescape t).map ([c] ++ ·) := by
  refine unescape_items (f := (.byte c :: ·)) (fun t => ?_) (fun is => rfl) t
  rw [List.singleton_append, readItems, if_neg hback, if_neg (not_or.2 ⟨hquote, hc⟩)]

theorem unescape_simple {c d : UInt8} (h : simpleEscape c = some d) (hc : c ≠ 117) (t : Bytes) :
    unescape ([backslash, c] ++ t) = (unescape t).map ([d] ++ ·) := by
  refine unescape_items (f := (.byte d :: ·)) (fun t => ?_) (fun is => rfl) t
  rw [List.cons_append, List.singleton_append, readItems, if_pos rfl, readItems, if_neg hc, h]
  rfl

/-- The unit of four digits. -/
def hexUnit (a b c d : UInt8) : Option Nat :=
  (hexValue a).bind fun i => (hexValue b).bind fun j => (hexValue c).bind fun k =>
    (hexValue d).map fun l => 16 * (16 * (16 * i + j) + k) + l

theorem unescape_unit {a b c d : UInt8} {u : Nat} (h : hexUnit a b c d = some u)
    (hhigh : isHighSurrogate u = false) (hlow : isLowSurrogate u = false) (t : Bytes) :
    unescape ([backslash, 117, a, b, c, d] ++ t) =
      (unescape t).map (String.utf8EncodeChar (Char.ofNat u) ++ ·) := by
  obtain ⟨i, ha, h⟩ := Option.bind_eq_some_iff.1 h
  obtain ⟨j, hb, h⟩ := Option.bind_eq_some_iff.1 h
  obtain ⟨k, hc, h⟩ := Option.bind_eq_some_iff.1 h
  obtain ⟨l, hd, hu⟩ := Option.map_eq_some_iff.1 h
  refine unescape_items (f := (.unit u :: ·)) (fun t => ?_) (fun is => ?_) t
  · simp only [List.cons_append, List.nil_append, readItems, ha, hb, hc, hd, Option.bind_some,
      Nat.mul_zero, Nat.zero_add, hu]
    rfl
  · rw [joinItems, hhigh, hlow]
    rfl

/-- The text is one of the ways to write the byte, an ASCII character if it is spelled out. -/
def Spells : Bytes → UInt8 → Prop
  | [e], c => e = c ∧ e ≠ backslash ∧ e ≠ quote ∧ ¬ e < 32
  | [e, d], c => e = backslash ∧ simpleEscape d = some c ∧ d ≠ 117
  | [e, f, w, x, y, z], c => (e = backslash ∧ f = 117) ∧ hexUnit w x y z = some c.toNat ∧ c < 128
  | _, _ => False

instance (text : Bytes) (c : UInt8) : Decidable (Spells text c) := by
  unfold Spells
  split <;> infer_instance

theorem unescape_flatMap {e f : UInt8 → Bytes} {s : Bytes}
    (h : ∀ c ∈ s, ∀ t, unescape (e c ++ t) = (unescape t).map (f c ++ ·)) :
    unescape (s.flatMap e) = some (s.flatMap f) := by
  induction s with
  | nil => rfl
  | cons c s ih =>
      rw [List.flatMap_cons, List.flatMap_cons, h c List.mem_cons_self,
        ih fun d hd => h d (List.mem_cons_of_mem _ hd)]
      rfl

/-- Texts that come out longer are not read back. -/
theorem unescape_flatMap_ne {e f : UInt8 → Bytes} {s : Bytes}
    (h : ∀ c ∈ s, ∀ t, unescape (e c ++ t) = (unescape t).map (f c ++ ·))
    (hle : ∀ c ∈ s, 1 ≤ (f c).length) (hlt : ∃ c ∈ s, 2 ≤ (f c).length) :
    unescape (s.flatMap e) ≠ some s := by
  have hlength : ∀ s : Bytes, (∀ c ∈ s, 1 ≤ (f c).length) → s.length ≤ (s.flatMap f).length := by
    intro s hs
    induction s with
    | nil => exact Nat.le_refl 0
    | cons c s ih =>
        have hc := hs c List.mem_cons_self
        have hrest := ih fun d hd => hs d (List.mem_cons_of_mem _ hd)
        rw [List.flatMap_cons, List.length_append, List.length_cons]
        omega
  obtain ⟨c, hc, hlonger⟩ := hlt
  obtain ⟨a, b, rfl⟩ := List.append_of_mem hc
  have ha := hlength a fun d hd => hle d (List.mem_append_left _ hd)
  have hb := hlength b fun d hd => hle d (List.mem_append_right _ (List.mem_cons_of_mem _ hd))
  rw [unescape_flatMap h]
  intro heq
  have hlen := congrArg List.length (Option.some.inj heq)
  simp only [List.flatMap_append, List.flatMap_cons, List.length_append, List.length_cons] at hlen
  omega

/-! ## UTF-8 -/

theorem isUtf8_nil : IsUtf8 [] := ⟨[], rfl⟩

theorem IsUtf8.append {s t : Bytes} (hs : IsUtf8 s) (ht : IsUtf8 t) : IsUtf8 (s ++ t) := by
  obtain ⟨cs, rfl⟩ := hs
  obtain ⟨ds, rfl⟩ := ht
  exact ⟨cs ++ ds, List.flatMap_append.symm⟩

theorem isUtf8_char (c : Char) : IsUtf8 (String.utf8EncodeChar c) :=
  ⟨[c], (List.flatMap_singleton _ _).symm⟩

theorem utf8EncodeChar_of_ascii (c : UInt8) (h : c < 128) :
    String.utf8EncodeChar (Char.ofNat c.toNat) = [c] := by
  revert h
  exact forall_byte (p := fun c => c < 128 → String.utf8EncodeChar (Char.ofNat c.toNat) = [c])
    (by decide +kernel) c

theorem IsAscii.isUtf8 {s : Bytes} (h : IsAscii s) : IsUtf8 s := by
  induction s with
  | nil => exact isUtf8_nil
  | cons c s ih =>
      have hc := utf8EncodeChar_of_ascii c (h c List.mem_cons_self)
      have happend := (isUtf8_char (Char.ofNat c.toNat)).append
        (ih fun d hd => h d (List.mem_cons_of_mem _ hd))
      rwa [hc] at happend

theorem le_utf8Byte (n : Nat) {m k : Nat} (hm : 0 < m) (hlow : 128 ≤ k) (hhigh : m + k ≤ 256) :
    (128 : UInt8) ≤ UInt8.ofNat (n % m + k) := by
  have hlt := Nat.mod_lt n hm
  rw [UInt8.le_iff_toNat_le, UInt8.toNat_ofNat', Nat.mod_eq_of_lt (by omega)]
  show 128 ≤ n % m + k
  omega

theorem Spells.unescape {text : Bytes} {c : UInt8} (h : Spells text c) (t : Bytes) :
    unescape (text ++ t) = (unescape t).map ([c] ++ ·) := by
  unfold Spells at h
  split at h
  · obtain ⟨rfl, hback, hquote, hc⟩ := h
    exact unescape_byte hback hquote hc t
  · obtain ⟨rfl, hsimple, hd⟩ := h
    exact unescape_simple hsimple hd t
  · obtain ⟨⟨rfl, rfl⟩, hunit, hc⟩ := h
    have hlt : c.toNat < 128 := hc
    rw [unescape_unit hunit (by simp [isHighSurrogate]; omega) (by simp [isLowSurrogate]; omega),
      utf8EncodeChar_of_ascii c hc]
  · exact h.elim

/-- The bytes of a character are one of ASCII, or none of them is. -/
theorem utf8EncodeChar_cases (ch : Char) : IsAscii (String.utf8EncodeChar ch) ∨
    ∀ c ∈ String.utf8EncodeChar ch, 128 ≤ c := by
  fun_cases String.utf8EncodeChar ch with
  | case1 v h =>
      refine .inl fun c hc => ?_
      rw [List.mem_singleton.1 hc, UInt8.lt_iff_toNat_lt, UInt8.toNat_ofNat',
        Nat.mod_eq_of_lt (by omega)]
      exact Nat.lt_succ_of_le h
  | case2 v h =>
      right
      simp only [List.forall_mem_cons]
      exact ⟨le_utf8Byte _ (by decide) (by decide) (by decide),
        le_utf8Byte _ (by decide) (by decide) (by decide), by simp⟩
  | case3 v h =>
      right
      simp only [List.forall_mem_cons]
      exact ⟨le_utf8Byte _ (by decide) (by decide) (by decide),
        le_utf8Byte _ (by decide) (by decide) (by decide),
        le_utf8Byte _ (by decide) (by decide) (by decide), by simp⟩
  | case4 v h =>
      right
      simp only [List.forall_mem_cons]
      exact ⟨le_utf8Byte _ (by decide) (by decide) (by decide),
        le_utf8Byte _ (by decide) (by decide) (by decide),
        le_utf8Byte _ (by decide) (by decide) (by decide),
        le_utf8Byte _ (by decide) (by decide) (by decide), by simp⟩
/-- Bytewise replacement of ASCII by ASCII keeps a text UTF-8. -/
theorem IsUtf8.flatMap {s : Bytes} (h : IsUtf8 s) {e : UInt8 → Bytes}
    (hascii : ∀ c, c < 128 → IsAscii (e c)) (hother : ∀ c, 128 ≤ c → e c = [c]) :
    IsUtf8 (s.flatMap e) := by
  obtain ⟨cs, rfl⟩ := h
  induction cs with
  | nil => exact isUtf8_nil
  | cons ch cs ih =>
      rw [List.flatMap_cons, List.flatMap_append]
      refine IsUtf8.append ?_ ih
      rcases utf8EncodeChar_cases ch with h | h
      · refine IsAscii.isUtf8 fun c hc => ?_
        obtain ⟨d, hd, hc⟩ := List.mem_flatMap.1 hc
        exact hascii d (h d hd) c hc
      · have hsame : (String.utf8EncodeChar ch).flatMap e = String.utf8EncodeChar ch := by
          rw [List.flatMap_congr (g := fun c => [c]) fun c hc => hother c (h c hc),
            List.flatMap_singleton']
        rw [hsame]
        exact isUtf8_char ch

end Nazg.Lib.Json
