import Nazg.Agent.Scanner
import Nazg.Docker.Client

/-!
# Finding a value again in the payload

The text side of the scan codec. A quoted string of the payload is read back up to
its closing quote, still escaped (`stringBody_escapeJson`). A key is found where it
was written: its pattern is a quote, a name and a quote with a colon, and no quote
inside an escaped string begins one, because the quotes there follow a backslash
and a closing quote is never followed by a colon (`noMatch_jsonString`).

The objects and arrays are cut out by counting delimiters over the raw text. The
escapes add no delimiter and hide none, so what counts is the original strings.
-/

namespace Nazg.Docker

open Lib Agent

/-! ## Escapes -/

/-- A byte the encoder leaves as it is: printable ASCII but the quote and the backslash. -/
def isPlainByte (c : UInt8) : Bool := 32 ≤ c && c < 128 && c ≠ quote && c ≠ backslash

/-- No byte of the string needs an escape. -/
def Plain (s : Bytes) : Prop := ∀ c ∈ s, isPlainByte c = true

instance (s : Bytes) : Decidable (Plain s) := inferInstanceAs (Decidable (∀ c ∈ s, _))

theorem escapeByte_eq_iff (c : UInt8) : escapeByte c = [c] ↔ isPlainByte c = true :=
  forall_byte (p := fun c => escapeByte c = [c] ↔ isPlainByte c = true) (by decide +kernel) c

/-- A byte is written as itself or as a backslash with something after it; a quote
is the last thing an escape writes. -/
theorem escapeByte_cases (c : UInt8) :
    (escapeByte c = [c] ∧ c ≠ quote ∧ c ≠ backslash) ∨
      ∃ d ds, escapeByte c = backslash :: d :: ds ∧ quote ∉ ds ∧ backslash ∉ ds ∧
        (d = quote → ds = []) := by
  have hcheck : ∀ c : UInt8,
      (match escapeByte c with
      | [x] => decide (x = c ∧ c ≠ quote ∧ c ≠ backslash)
      | b :: d :: ds =>
          decide (b = backslash ∧ quote ∉ ds ∧ backslash ∉ ds ∧ (d = quote → ds = []))
      | [] => false) = true :=
    forall_byte (by decide +kernel)
  have h := hcheck c
  split at h
  · next x hx =>
      obtain ⟨rfl, hq, hb⟩ := of_decide_eq_true h
      exact Or.inl ⟨hx, hq, hb⟩
  · next b d ds hx =>
      obtain ⟨rfl, hq, hb, hlast⟩ := of_decide_eq_true h
      exact Or.inr ⟨d, ds, hx, hq, hb, hlast⟩
  · cases h

@[simp] theorem escapeJson_nil : escapeJson [] = [] := rfl

@[simp] theorem escapeJson_cons (c : UInt8) (s : Bytes) :
    escapeJson (c :: s) = escapeByte c ++ escapeJson s := rfl

theorem length_le_escapeJson (s : Bytes) : s.length ≤ (escapeJson s).length := by
  induction s with
  | nil => exact Nat.le_refl 0
  | cons c s ih =>
      rw [escapeJson_cons, List.length_append, List.length_cons]
      rcases escapeByte_cases c with ⟨h, -, -⟩ | ⟨d, ds, h, -, -, -⟩
      · rw [h, List.length_singleton]
        omega
      · rw [h, List.length_cons]
        omega

/-- Escaping changes every string that needs it. -/
theorem escapeJson_eq_self {s : Bytes} : escapeJson s = s ↔ Plain s := by
  induction s with
  | nil => simp [Plain]
  | cons c s ih =>
      rw [escapeJson_cons, Plain, List.forall_mem_cons, ← escapeByte_eq_iff]
      constructor
      · intro h
        rcases escapeByte_cases c with ⟨hc, -, -⟩ | ⟨d, ds, hc, -, -, -⟩
        · rw [hc] at h
          exact ⟨hc, ih.1 (List.cons.inj h).2⟩
        · -- an escape makes the text longer than the string
          have hlen := congrArg List.length h
          have hle := length_le_escapeJson s
          rw [hc] at hlen
          simp only [List.length_append, List.length_cons] at hlen
          omega
      · rintro ⟨hc, hs⟩
        rw [hc, ih.2 hs]
        rfl

theorem escapeJson_ne_nil {s : Bytes} (h : s ≠ []) : escapeJson s ≠ [] := by
  intro he
  have hlen := length_le_escapeJson s
  rw [he] at hlen
  exact h (List.eq_nil_of_length_eq_zero (Nat.le_zero.1 hlen))

/-- A string is read back, escapes and all, up to its closing quote. -/
theorem stringBody_escapeJson (s rest : Bytes) :
    stringBody (escapeJson s ++ quote :: rest) = escapeJson s := by
  have htail : ∀ ds t : Bytes, quote ∉ ds → backslash ∉ ds →
      stringBody (ds ++ t) = ds ++ stringBody t := by
    intro ds t hq hb
    induction ds with
    | nil => rfl
    | cons d ds ih =>
        obtain ⟨hdq, hq⟩ := not_or.1 (List.mem_cons.not.1 hq)
        obtain ⟨hdb, hb⟩ := not_or.1 (List.mem_cons.not.1 hb)
        rw [List.cons_append, stringBody_cons (Ne.symm hdq) (Ne.symm hdb), ih hq hb]
        rfl
  induction s with
  | nil => rw [escapeJson_nil, List.nil_append, stringBody_quote]
  | cons c s ih =>
      rw [escapeJson_cons]
      rcases escapeByte_cases c with ⟨hc, hq, hb⟩ | ⟨d, ds, hc, hq, hb, -⟩
      · rw [hc, List.singleton_append, List.cons_append, stringBody_cons hq hb, ih]
      · rw [hc]
        simp only [List.cons_append, List.append_assoc]
        rw [stringBody_backslash, htail ds _ hq hb, ih]

/-! ## Delimiters -/

section

variable {opening closing : UInt8}

/-- Escaping keeps the delimiters of a string, and adds none. -/
theorem filter_escapeJson {p : UInt8 → Bool}
    (hp : ∀ c, (escapeByte c).filter p = [c].filter p) (s : Bytes) :
    (escapeJson s).filter p = s.filter p := by
  induction s with
  | nil => rfl
  | cons c s ih => rw [escapeJson_cons, List.filter_append, hp, ih, ← List.filter_append]; rfl

def isBracket (c : UInt8) : Bool := c = openBracket || c = closeBracket

def isBrace (c : UInt8) : Bool := c = openBrace || c = closeBrace

theorem escapeByte_brackets (c : UInt8) : (escapeByte c).filter isBracket = [c].filter isBracket :=
  forall_byte (p := fun c => (escapeByte c).filter isBracket = [c].filter isBracket)
    (by decide +kernel) c

theorem escapeByte_braces (c : UInt8) : (escapeByte c).filter isBrace = [c].filter isBrace :=
  forall_byte (p := fun c => (escapeByte c).filter isBrace = [c].filter isBrace)
    (by decide +kernel) c

end

/-! ## Keys -/

/-- A key of the format: lower-case letters and underscores. -/
def isKeyByte (c : UInt8) : Bool := (97 ≤ c && c ≤ 122) || c = 95

/-- Names that a pattern is made from. -/
def IsKey (key : Bytes) : Prop := key ≠ [] ∧ ∀ c ∈ key, isKeyByte c = true

instance (key : Bytes) : Decidable (IsKey key) := inferInstanceAs (Decidable (_ ∧ _))

/-- What may follow a value: a comma or a line break. -/
def EndsValue (rest : Bytes) : Prop := ∃ c t, rest = c :: t ∧ (c = 44 ∨ c = 10 ∨ c = closeBracket)

theorem keyPattern_eq (key : Bytes) : keyPattern key = quote :: (key ++ [quote, 58]) := by
  rw [keyPattern, show bytes "\":" = [quote, 58] by decide]

/-- A byte that is no key byte does not begin a key. -/
theorem not_prefix_of_head {key rest : Bytes} (hkey : IsKey key) {c : UInt8}
    (hc : isKeyByte c = false) (tail : Bytes) : ¬ key ++ tail <+: c :: rest := by
  intro h
  cases key with
  | nil => exact hkey.1 rfl
  | cons k ks =>
      have hk := hkey.2 k List.mem_cons_self
      rw [(List.cons_prefix_cons.1 h).1, hc] at hk
      cases hk

/-- What follows a value begins no key. -/
theorem EndsValue.not_prefix {key rest : Bytes} (h : EndsValue rest) (hkey : IsKey key)
    (tail : Bytes) : ¬ key ++ tail <+: rest := by
  obtain ⟨c, t, rfl, hc⟩ := h
  refine not_prefix_of_head hkey ?_ tail
  rcases hc with rfl | rfl | rfl
  · decide
  · decide
  · decide

/-- The rest of a pattern does not stand before the end of an escaped string. -/
theorem not_prefix_escapeJson {key rest : Bytes} (hkey : ∀ c ∈ key, isKeyByte c = true)
    (hrest : EndsValue rest) (s : Bytes) :
    ¬ key ++ [quote, 58] <+: escapeJson s ++ quote :: rest := by
  induction s generalizing key with
  | nil =>
      intro h
      cases key with
      | nil =>
          obtain ⟨c, t, rfl, hc⟩ := hrest
          have h58 := (List.cons_prefix_cons.1 (List.cons_prefix_cons.1 h).2).1
          rcases hc with rfl | rfl | rfl <;> exact absurd h58 (by decide)
      | cons k ks =>
          have hk := hkey k List.mem_cons_self
          rw [(List.cons_prefix_cons.1 h).1] at hk
          exact absurd hk (by decide)
  | cons c s ih =>
      intro h
      rw [escapeJson_cons, List.append_assoc] at h
      rcases escapeByte_cases c with ⟨hc, hq, -⟩ | ⟨d, ds, hc, -, -, -⟩
      · rw [hc] at h
        cases key with
        | nil => exact hq (List.cons_prefix_cons.1 h).1.symm
        | cons k ks =>
            exact ih (fun x hx => hkey x (List.mem_cons_of_mem _ hx)) (List.cons_prefix_cons.1 h).2
      · rw [hc] at h
        cases key with
        | nil => exact absurd (List.cons_prefix_cons.1 h).1 (by decide)
        | cons k ks =>
            have hk := hkey k List.mem_cons_self
            rw [(List.cons_prefix_cons.1 h).1] at hk
            exact absurd hk (by decide)

section

variable {key : Bytes} (hkey : IsKey key)

include hkey

omit hkey in
/-- A region without quotes holds no pattern. -/
theorem noMatch_of_no_quote {region : Bytes} (h : quote ∉ region) (rest : Bytes) :
    NoMatch (keyPattern key) region rest :=
  NoMatch.of_head_notMem rest h

theorem noMatch_escapeJson {rest : Bytes} (hrest : EndsValue rest) (s : Bytes) :
    NoMatch (keyPattern key) (escapeJson s ++ [quote]) rest := by
  have hhead : ∀ {c : UInt8} {t : Bytes}, c ≠ quote → ¬ keyPattern key <+: c :: t :=
    fun hc h => hc (List.cons_prefix_cons.1 h).1.symm
  induction s with
  | nil =>
      refine NoMatch.cons (fun h => ?_) (NoMatch.nil _ _)
      rw [keyPattern_eq] at h
      exact hrest.not_prefix hkey _ (List.cons_prefix_cons.1 h).2
  | cons c s ih =>
      rw [escapeJson_cons]
      rcases escapeByte_cases c with ⟨hc, hq, -⟩ | ⟨d, ds, hc, hq, -, hlast⟩
      · rw [hc]
        exact NoMatch.cons (hhead hq) ih
      · rw [hc]
        simp only [List.cons_append, List.append_assoc]
        refine NoMatch.cons (hhead (by decide)) (NoMatch.cons ?_ ?_)
        · by_cases hd : d = quote
          · -- the quote of an escape: what follows is the rest of the same string
            rw [hd, hlast hd, keyPattern_eq]
            intro h
            have h' := (List.cons_prefix_cons.1 h).2
            rw [List.nil_append, List.append_assoc] at h'
            exact not_prefix_escapeJson hkey.2 hrest s h'
          · exact hhead hd
        · exact NoMatch.append (noMatch_of_no_quote hq _) ih

/-- No pattern begins in a quoted string. -/
theorem noMatch_jsonString {rest : Bytes} (hrest : EndsValue rest) (s : Bytes) :
    NoMatch (keyPattern key) (jsonString s) rest := by
  refine NoMatch.cons (fun h => ?_) (noMatch_escapeJson hkey hrest s)
  rw [keyPattern_eq] at h
  have h' := (List.cons_prefix_cons.1 h).2
  rw [List.append_assoc] at h'
  exact not_prefix_escapeJson hkey.2 hrest s h'

theorem noMatch_servicesArray (rest : Bytes) (names : List Bytes) :
    NoMatch (keyPattern key) (servicesArray names) rest := by
  cases names with
  | nil => exact noMatch_of_no_quote (by decide) _
  | cons name names =>
      have hclose : EndsValue ([closeBracket] ++ rest) := ⟨closeBracket, rest, rfl, by simp⟩
      have hends : ∀ (names : List Bytes) (t : Bytes), EndsValue t →
          EndsValue ((names.flatMap fun n => bytes "," ++ jsonString n) ++ t) := by
        intro names t ht
        cases names with
        | nil => exact ht
        | cons n names => exact ⟨44, _, rfl, by simp⟩
      have htail : ∀ names : List Bytes, NoMatch (keyPattern key)
          (names.flatMap fun n => bytes "," ++ jsonString n) ([closeBracket] ++ rest) := by
        intro names
        induction names with
        | nil => exact NoMatch.nil _ _
        | cons n names ih =>
            rw [List.flatMap_cons, List.append_assoc]
            exact NoMatch.append (noMatch_of_no_quote (by decide) _)
              (NoMatch.append (noMatch_jsonString hkey (hends names _ hclose) n) ih)
      refine NoMatch.cons (fun h => ?_) (NoMatch.append (NoMatch.append ?_ (htail names)) ?_)
      · exact absurd (List.cons_prefix_cons.1 h).1 (by decide)
      · exact noMatch_jsonString hkey (hends names _ hclose) name
      · exact noMatch_of_no_quote (by decide) _

/-- The pattern of one key does not match another. -/
theorem noMatch_keyPattern {k : Bytes} (hk : IsKey k) (hne : k ≠ key) (rest : Bytes) :
    NoMatch (keyPattern key) (keyPattern k) rest := by
  have hquote : quote ∉ k := fun h => absurd (hk.2 _ h) (by decide)
  have hsame : ∀ {a b : Bytes} {x y : Bytes}, (∀ c ∈ a, isKeyByte c = true) →
      (∀ c ∈ b, isKeyByte c = true) → a ++ quote :: x <+: b ++ quote :: y → a = b := by
    intro a
    induction a with
    | nil =>
        intro b x y _ hb h
        cases b with
        | nil => rfl
        | cons c b =>
            have hc := hb c List.mem_cons_self
            rw [← (List.cons_prefix_cons.1 h).1] at hc
            exact absurd hc (by decide)
    | cons c a ih =>
        intro b x y ha hb h
        cases b with
        | nil =>
            have hc := ha c List.mem_cons_self
            rw [(List.cons_prefix_cons.1 h).1] at hc
            exact absurd hc (by decide)
        | cons d b =>
            obtain ⟨rfl, htail⟩ := List.cons_prefix_cons.1 h
            rw [ih (fun x hx => ha x (List.mem_cons_of_mem _ hx))
              (fun x hx => hb x (List.mem_cons_of_mem _ hx)) htail]
  rw [keyPattern_eq k]
  refine NoMatch.cons (fun h => ?_) (NoMatch.append (noMatch_of_no_quote hquote _) ?_)
  · rw [keyPattern_eq] at h
    have h' := (List.cons_prefix_cons.1 h).2
    rw [List.append_assoc] at h'
    exact hne (hsame hkey.2 hk.2 h').symm
  · refine NoMatch.cons (fun h => ?_) (noMatch_of_no_quote (by decide) _)
    rw [keyPattern_eq] at h
    exact not_prefix_of_head hkey (by decide) _ (List.cons_prefix_cons.1 h).2

end

/-- Where a key's pattern stands first, what follows it is found. -/
theorem afterKey_region {key region : Bytes} (rest : Bytes)
    (h : NoMatch (keyPattern key) region (keyPattern key ++ rest)) :
    afterKey (region ++ (keyPattern key ++ rest)) key = some rest := by
  rw [afterKey, find_region h, Option.map_some, ← List.append_assoc,
    List.drop_left' (List.length_append ..)]

/-! ## The lines of an object -/

/-- Raw text stands in the payload only as an array of names. -/
def Legible : FieldValue → Prop
  | .raw text => ∃ names, text = servicesArray names
  | _ => True

/-- The lines of an object carry keys, and values the decoder can pass over. -/
def LegibleFields (fields : List (Bytes × FieldValue)) : Prop :=
  ∀ f ∈ fields, IsKey f.1 ∧ Legible f.2

/-- What ends a line. -/
def lineEnd (last : Bool) : Bytes := if last then bytes "\n" else bytes ",\n"

theorem endsValue_lineEnd (last : Bool) (rest : Bytes) : EndsValue (lineEnd last ++ rest) := by
  cases last
  · exact ⟨44, 10 :: rest, rfl, by simp⟩
  · exact ⟨10, rest, rfl, by simp⟩

theorem renderField_eq (last : Bool) (field : Bytes × FieldValue) :
    renderField last field =
      bytes "      " ++ (keyPattern field.1 ++ 32 :: (field.2.render ++ lineEnd last)) := by
  rw [renderField, keyPattern_eq, show bytes "      \"" = bytes "      " ++ [quote] by decide,
    show bytes "\": " = [quote, 58, 32] by decide]
  simp [lineEnd]

section

variable {key : Bytes} (hkey : IsKey key)

include hkey

theorem noMatch_render {v : FieldValue} (hv : Legible v) {rest : Bytes} (hrest : EndsValue rest) :
    NoMatch (keyPattern key) v.render rest := by
  cases v with
  | string s => exact noMatch_jsonString hkey hrest s
  | integer i =>
      exact noMatch_of_no_quote (fun h => absurd (lt_of_mem_decimal h) (by decide)) _
  | raw text =>
      obtain ⟨names, rfl⟩ := hv
      exact noMatch_servicesArray hkey rest names

theorem noMatch_renderField {field : Bytes × FieldValue} (hk : IsKey field.1)
    (hv : Legible field.2) (hne : field.1 ≠ key) (last : Bool) (rest : Bytes) :
    NoMatch (keyPattern key) (renderField last field) rest := by
  rw [renderField_eq]
  refine NoMatch.append (noMatch_of_no_quote (by decide) _)
    (NoMatch.append (noMatch_keyPattern hkey hk hne _) ?_)
  refine NoMatch.cons (fun h => absurd (List.cons_prefix_cons.1 h).1 (by decide))
    (NoMatch.append (noMatch_render hkey hv (endsValue_lineEnd last rest)) ?_)
  cases last <;> exact noMatch_of_no_quote (by decide) _

theorem noMatch_renderFields {fields : List (Bytes × FieldValue)} (h : LegibleFields fields)
    (hne : ∀ f ∈ fields, f.1 ≠ key) (rest : Bytes) :
    NoMatch (keyPattern key) (renderFields fields) rest := by
  induction fields with
  | nil => exact NoMatch.nil _ _
  | cons f fields ih =>
      obtain ⟨hk, hv⟩ := h f List.mem_cons_self
      have hf := hne f List.mem_cons_self
      cases fields with
      | nil => exact noMatch_renderField hkey hk hv hf true rest
      | cons g fields =>
          exact NoMatch.append (noMatch_renderField hkey hk hv hf false _)
            (ih (fun x hx => h x (List.mem_cons_of_mem _ hx))
              fun x hx => hne x (List.mem_cons_of_mem _ hx))

end

theorem renderFields_append (pre : List (Bytes × FieldValue)) (f : Bytes × FieldValue)
    (post : List (Bytes × FieldValue)) :
    renderFields (pre ++ f :: post) =
      pre.flatMap (renderField false) ++ (renderField post.isEmpty f ++ renderFields post) := by
  induction pre with
  | nil =>
      cases post with
      | nil => simp [renderFields]
      | cons g post => rfl
  | cons g pre ih =>
      rw [List.flatMap_cons, List.append_assoc, ← ih]
      cases pre <;> rfl

/-- An object as the decoder cuts it out: from brace to brace. -/
def objectText (fields : List (Bytes × FieldValue)) : Bytes :=
  openBrace :: (bytes "\n" ++ renderFields fields ++ bytes "    " ++ [closeBrace])

/-- A key of an object leads to the value of its line. -/
theorem afterKey_objectText {fields : List (Bytes × FieldValue)} (h : LegibleFields fields)
    {key : Bytes} {v : FieldValue} (hfind : fields.find? (fun f => f.1 = key) = some (key, v)) :
    ∃ tail, EndsValue tail ∧ afterKey (objectText fields) key = some (32 :: (v.render ++ tail)) := by
  obtain ⟨-, pre, post, rfl, hpre⟩ := List.find?_eq_some_iff_append.1 hfind
  have hkey : IsKey key := (h (key, v) (by simp)).1
  refine ⟨lineEnd post.isEmpty ++ (renderFields post ++ bytes "    " ++ [closeBrace]),
    endsValue_lineEnd _ _, ?_⟩
  have htext : objectText (pre ++ (key, v) :: post) =
      ([openBrace] ++ bytes "\n" ++ pre.flatMap (renderField false) ++ bytes "      ") ++
        (keyPattern key ++ 32 :: (v.render ++
          (lineEnd post.isEmpty ++ (renderFields post ++ bytes "    " ++ [closeBrace])))) := by
    rw [objectText, renderFields_append, renderField_eq]
    simp
  rw [htext]
  refine afterKey_region _ (NoMatch.append (NoMatch.append (noMatch_of_no_quote (by decide) _) ?_)
    (noMatch_of_no_quote (by decide) _))
  have hlines : ∀ (pre : List (Bytes × FieldValue)) (rest : Bytes), LegibleFields pre →
      (∀ f ∈ pre, f.1 ≠ key) → NoMatch (keyPattern key) (pre.flatMap (renderField false)) rest := by
    intro pre rest
    induction pre with
    | nil => intro _ _; exact NoMatch.nil _ _
    | cons f pre ih =>
        intro hl hne
        obtain ⟨hk, hv⟩ := hl f List.mem_cons_self
        rw [List.flatMap_cons]
        exact NoMatch.append (noMatch_renderField hkey hk hv (hne f List.mem_cons_self) false _)
          (ih (fun x hx => hl x (List.mem_cons_of_mem _ hx))
            fun x hx => hne x (List.mem_cons_of_mem _ hx))
  refine hlines pre _ (fun f hf => h f (List.mem_append_left _ hf)) fun f hf hfk => ?_
  simpa [hfk] using hpre f hf

/-! ## The values of an object -/

section

variable {fields : List (Bytes × FieldValue)} (h : LegibleFields fields) (key : Bytes)

include h

/-- A string is found as it was escaped. -/
theorem extractJsonString_objectText (s : Bytes)
    (hfind : fields.find? (fun f => f.1 = key) = some (key, .string s)) :
    extractJsonString (objectText fields) key = escapeJson s := by
  obtain ⟨tail, -, hafter⟩ := afterKey_objectText h hfind
  have hskip : (32 :: (jsonString s ++ tail)).dropWhile isBlank =
      quote :: (escapeJson s ++ quote :: tail) := by
    rw [List.dropWhile_cons_of_pos (by decide), jsonString, List.cons_append,
      List.dropWhile_cons_of_neg (by decide), List.append_assoc]
    rfl
  rw [extractJsonString, hafter]
  simp only [Option.map_some, FieldValue.render, hskip, if_true]
  exact stringBody_escapeJson s tail

/-- A number is found unless it is negative; its sign is no digit. -/
theorem extractJsonInt_objectText (i : Int64)
    (hfind : fields.find? (fun f => f.1 = key) = some (key, .integer i)) :
    extractJsonInt (objectText fields) key = if i.toInt < 0 then 0 else i.toInt := by
  obtain ⟨tail, htail, hafter⟩ := afterKey_objectText h hfind
  rw [extractJsonInt, hafter]
  simp only [Option.map_some, FieldValue.render]
  rw [List.dropWhile_cons_of_pos (by decide)]
  have hhi : i.toInt ≤ 2 ^ 63 - 1 := by
    have := Int64.toInt_lt i
    omega
  cases hi : i.toInt with
  | ofNat n =>
      have hhead : ((natDecimal n) ++ tail).dropWhile isBlank = natDecimal n ++ tail := by
        cases hd : natDecimal n with
        | nil => exact absurd hd (natDecimal_ne_nil n)
        | cons c s =>
            have hc : isDigit c = true := natDecimal_head (n := n) (by rw [hd]; rfl)
            have hblank : ∀ c, isDigit c = true → isBlank c = false :=
              forall_byte (by decide +kernel)
            rw [List.cons_append, List.dropWhile_cons_of_neg (by simp [hblank c hc])]
      have hdigits : (natDecimal n ++ tail).takeWhile isDigit = natDecimal n := by
        refine takeWhile_natDecimal n fun c hc => ?_
        obtain ⟨d, t, rfl, hd⟩ := htail
        obtain rfl : d = c := by simpa using hc
        rcases hd with rfl | rfl | rfl <;> decide
      have hlo : (-2 ^ 63 : Int) ≤ Int.ofNat n := by
        have := Int.natCast_nonneg n
        simp only [Int.ofNat_eq_natCast]
        omega
      have hvalue : stoll (natDecimal n) = some (Int.ofNat n) :=
        parseInteger_decimal hlo (hi ▸ hhi)
      simp only [decimal, hhead, hdigits, if_neg (natDecimal_ne_nil n), hvalue, Option.getD_some]
      rw [if_neg (by simp)]
  | negSucc n =>
      have hdigits : ((45 :: (natDecimal (n + 1) ++ tail)).dropWhile isBlank).takeWhile isDigit =
          [] := by
        rw [List.dropWhile_cons_of_neg (by decide), List.takeWhile_cons_of_neg (by decide)]
      simp only [decimal, List.cons_append, hdigits, if_true, Int.negSucc_lt_zero n]

end

/-! ## Delimiters of an object and of an array -/

/-- The text a value contributes that may hold delimiters. -/
def content : FieldValue → Bytes
  | .string s => s
  | .integer _ => []
  | .raw text => text

/-- The contents of an object, one value after the other. -/
def contents (fields : List (Bytes × FieldValue)) : Bytes := fields.flatMap fun f => content f.2

/-- A set of bytes that the layout, the keys and the numbers never use, and that
escaping keeps. -/
structure IsDelimiterSet (p : UInt8 → Bool) : Prop where
  escape : ∀ c, (escapeByte c).filter p = [c].filter p
  key : ∀ c, isKeyByte c = true → p c = false
  number : ∀ c, isDigit c = true ∨ c = 45 → p c = false
  layout : ∀ c ∈ [quote, 10, 32, 44, 58], p c = false

theorem isDelimiterSet_bracket : IsDelimiterSet isBracket where
  escape := escapeByte_brackets
  key := forall_byte (by decide +kernel)
  number := forall_byte (by decide +kernel)
  layout := by decide

theorem isDelimiterSet_brace : IsDelimiterSet isBrace where
  escape := escapeByte_braces
  key := forall_byte (by decide +kernel)
  number := forall_byte (by decide +kernel)
  layout := by decide

section

variable {p : UInt8 → Bool} (hp : IsDelimiterSet p)

include hp

theorem IsDelimiterSet.filter_layout {s : Bytes} (h : ∀ c ∈ s, c ∈ [quote, 10, 32, 44, 58]) :
    s.filter p = [] :=
  List.filter_eq_nil_iff.2 fun c hc => by simp [hp.layout c (h c hc)]

theorem IsDelimiterSet.filter_keyPattern {key : Bytes} (hkey : IsKey key) :
    (keyPattern key).filter p = [] := by
  refine List.filter_eq_nil_iff.2 fun c hc => ?_
  rw [keyPattern_eq] at hc
  have hcase : isKeyByte c = true ∨ c ∈ [quote, 10, 32, 44, 58] := by
    rcases List.mem_cons.1 hc with rfl | hc
    · exact Or.inr (by decide)
    · rcases List.mem_append.1 hc with hc | hc
      · exact Or.inl (hkey.2 c hc)
      · refine Or.inr ?_
        simp only [List.mem_cons, List.not_mem_nil, or_false] at hc ⊢
        tauto
  rcases hcase with h | h
  · simp [hp.key c h]
  · simp [hp.layout c h]

theorem IsDelimiterSet.filter_jsonString (s : Bytes) : (jsonString s).filter p = s.filter p := by
  have hq : p quote = false := hp.layout quote (by decide)
  rw [jsonString, List.filter_cons_of_neg (by simp [hq]), List.filter_append,
    filter_escapeJson hp.escape, List.filter_cons_of_neg (by simp [hq]), List.filter_nil,
    List.append_nil]

theorem IsDelimiterSet.filter_render (v : FieldValue) :
    v.render.filter p = (content v).filter p := by
  cases v with
  | string s => exact hp.filter_jsonString s
  | integer i =>
      refine List.filter_eq_nil_iff.2 fun c hc => ?_
      have hnum : isDigit c = true ∨ c = 45 := by
        simp only [FieldValue.render, decimal] at hc
        split at hc
        · exact Or.inl (isDigit_of_mem_natDecimal hc)
        · rcases List.mem_cons.1 hc with rfl | hc
          · exact Or.inr rfl
          · exact Or.inl (isDigit_of_mem_natDecimal hc)
      simp [hp.number c hnum]
  | raw text => rfl

theorem IsDelimiterSet.filter_renderField {field : Bytes × FieldValue} (hk : IsKey field.1)
    (last : Bool) : (renderField last field).filter p = (content field.2).filter p := by
  have hend : (lineEnd last).filter p = [] := by
    refine hp.filter_layout ?_
    cases last <;> decide
  rw [renderField_eq, List.filter_append, List.filter_append, hp.filter_keyPattern hk,
    hp.filter_layout (by decide),
    List.filter_cons_of_neg (by simp [hp.layout 32 (by decide)]), List.filter_append,
    hp.filter_render, hend, List.append_nil]
  rfl

theorem IsDelimiterSet.filter_renderFields {fields : List (Bytes × FieldValue)}
    (h : LegibleFields fields) :
    (renderFields fields).filter p = (contents fields).filter p := by
  induction fields with
  | nil => rfl
  | cons f fields ih =>
      have hf := fun last => hp.filter_renderField (h f List.mem_cons_self).1 last
      have htail := ih fun x hx => h x (List.mem_cons_of_mem _ hx)
      cases fields with
      | nil => simpa [renderFields, contents] using hf true
      | cons g fields =>
          rw [renderFields, List.filter_append, hf, htail, ← List.filter_append]
          · rfl
          · simp

theorem IsDelimiterSet.filter_objectLines {fields : List (Bytes × FieldValue)}
    (h : LegibleFields fields) :
    (bytes "\n" ++ renderFields fields ++ bytes "    ").filter p = (contents fields).filter p := by
  have hbreak : (bytes "\n").filter p = [] := hp.filter_layout (by decide)
  have hindent : (bytes "    ").filter p = [] := hp.filter_layout (by decide)
  rw [List.filter_append, List.filter_append, hp.filter_renderFields h, hbreak, hindent,
    List.nil_append, List.append_nil]

end

end Nazg.Docker
