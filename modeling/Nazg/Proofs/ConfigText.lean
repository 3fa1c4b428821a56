import Mathlib.Data.List.Nodup
import Nazg.Proofs.Expansion

/-!
# Writing a configuration that loads

Sections and keys can be written down so that loading gives them back: a line for the name of each
section, and below it one for each key with its value between quotes. Values are free but for line
breaks, since only the outermost quotes are taken off and nothing in a value is looked at.
-/

namespace Nazg.Config.Store

open Lib

/-! ## The text of a configuration -/

/-- Sections with their keys and values, in the order in which they are written. -/
abbrev Sections := List (Bytes × List (Bytes × Bytes))

def headerLine (name : Bytes) : Bytes := bytes "[" ++ (name ++ bytes "]")

def pairLine (pair : Bytes × Bytes) : Bytes :=
  pair.1 ++ (bytes " = \"" ++ (pair.2 ++ bytes "\""))

def sectionLines (s : Bytes × List (Bytes × Bytes)) : List Bytes :=
  headerLine s.1 :: s.2.map pairLine

def render (m : Sections) : Bytes := (m.flatMap sectionLines).flatMap (· ++ [10])

/-- The value of a key in a section. -/
def Sections.value (m : Sections) (sec key : Bytes) : Option Bytes :=
  (m.lookup sec).bind fun pairs => pairs.lookup key

/-- No white space at either end. -/
structure Trimmed (s : Bytes) : Prop where
  head : ∀ c ∈ s.head?, isLineBlank c = false
  last : ∀ c ∈ s.getLast?, isLineBlank c = false

theorem Trimmed.of_ends {s : Bytes} (hhead : s.head?.all (fun c => !isLineBlank c) = true)
    (hlast : s.getLast?.all (fun c => !isLineBlank c) = true) : Trimmed s := by
  rw [Option.all_eq_true] at hhead hlast
  exact ⟨fun c hc => by simpa using hhead c hc, fun c hc => by simpa using hlast c hc⟩

structure IsSectionName (name : Bytes) : Prop where
  ne_nil : name ≠ []
  trimmed : Trimmed name
  oneLine : 10 ∉ name

structure IsKey (key : Bytes) : Prop where
  ne_nil : key ≠ []
  trimmed : Trimmed key
  oneLine : 10 ∉ key
  noEquals : 61 ∉ key
  noComment : key.head? ≠ some 35
  noHeader : key.head? ≠ some 91

/-- A section has its keys, each once, and a value for each. -/
structure IsSection (s : Bytes × List (Bytes × Bytes)) : Prop where
  name : IsSectionName s.1
  ne_nil : s.2 ≠ []
  nodup : (s.2.map Prod.fst).Nodup
  keys : ∀ pair ∈ s.2, IsKey pair.1
  values : ∀ pair ∈ s.2, 10 ∉ pair.2

structure IsConfig (m : Sections) : Prop where
  nodup : (m.map Prod.fst).Nodup
  sections : ∀ s ∈ m, IsSection s

/-! ## Lines -/

theorem trim_eq_self {p : UInt8 → Bool} {s : Bytes} (hhead : ∀ c ∈ s.head?, p c = false)
    (hlast : ∀ c ∈ s.getLast?, p c = false) : trim p s = s := by
  have hfront : s.dropWhile p = s := by
    cases s with
    | nil => rfl
    | cons c s =>
        rw [List.dropWhile_cons_of_neg]
        rw [hhead c rfl]
        exact Bool.false_ne_true
  rw [trim, hfront, List.rdropWhile_eq_self_iff]
  intro hne
  rw [hlast _ (List.getLast?_eq_some_getLast hne)]
  exact Bool.false_ne_true

theorem isBlank_of_isLineBlank {c : UInt8} (h : isLineBlank c = false) : isBlank c = false := by
  simp only [isLineBlank, Bool.or_eq_false_iff] at h
  rw [isBlank, h.1.1.1, h.1.1.2]
  rfl

/-- A text between two visible characters has no white space at its ends. -/
theorem trim_between {p : UInt8 → Bool} {c d : UInt8} (hc : p c = false) (hd : p d = false)
    (s : Bytes) : trim p (c :: (s ++ [d])) = c :: (s ++ [d]) := by
  refine trim_eq_self ?_ ?_
  · rintro _ ⟨⟩
    exact hc
  · intro x hx
    rw [← List.cons_append, List.getLast?_concat] at hx
    cases hx
    exact hd

theorem readLine_headerLine {name : Bytes} (h : IsSectionName name) :
    readLine (headerLine name) = .header name := by
  have hline : trim isLineBlank (headerLine name) = headerLine name :=
    trim_between (by decide) (by decide) name
  have hlast : (headerLine name).getLast? = some 93 := by
    have hconcat : headerLine name = (91 :: name) ++ [93] := rfl
    rw [hconcat, List.getLast?_concat]
  have hinner : ((headerLine name).drop 1).dropLast = name := List.dropLast_concat
  have hname : trim isBlank name = name :=
    trim_eq_self (fun c hc => isBlank_of_isLineBlank (h.trimmed.head c hc))
      fun c hc => isBlank_of_isLineBlank (h.trimmed.last c hc)
  have hfirst : ¬ (headerLine name = [] ∨ (headerLine name).head? = some 35) := by
    rintro (hnil | hcomment)
    · cases hnil
    · cases hcomment
  rw [readLine, hline, if_neg hfirst, if_pos ⟨rfl, hlast⟩, hinner, sectionName, hname,
    if_neg h.ne_nil]

theorem trim_key {key : Bytes} (h : IsKey key) : trim isBlank (key ++ [32]) = key := by
  have hfront : (key ++ [32]).dropWhile isBlank = key ++ [32] := by
    cases hkey : key with
    | nil => exact absurd hkey h.ne_nil
    | cons c s =>
        have hc := isBlank_of_isLineBlank (h.trimmed.head c (by rw [hkey]; rfl))
        rw [List.cons_append, List.dropWhile_cons_of_neg]
        rw [hc]
        exact Bool.false_ne_true
  have hback : (key ++ [32]).rdropWhile isBlank = key.rdropWhile isBlank :=
    List.rdropWhile_concat_pos _ _ _ rfl
  rw [trim, hfront, hback, List.rdropWhile_eq_self_iff]
  intro hne
  rw [isBlank_of_isLineBlank (h.trimmed.last _ (List.getLast?_eq_some_getLast hne))]
  exact Bool.false_ne_true

theorem unquote_quoted (v : Bytes) : unquote (34 :: (v ++ [34])) = v := by
  have hlast : (34 :: (v ++ [(34 : UInt8)])).getLast? = some 34 := by
    rw [← List.cons_append, List.getLast?_concat]
  rw [unquote, if_pos ⟨by simp, Or.inl ⟨rfl, hlast⟩⟩]
  exact List.dropLast_concat

theorem readLine_pairLine {pair : Bytes × Bytes} (h : IsKey pair.1) :
    readLine (pairLine pair) = .entry pair.1 pair.2 := by
  obtain ⟨key, v⟩ := pair
  have hpieces : pairLine (key, v) = (key ++ [32]) ++ 61 :: 32 :: 34 :: (v ++ [34]) := by
    rw [List.append_assoc]
    rfl
  cases hkey : key with
  | nil => exact absurd hkey h.ne_nil
  | cons c s =>
      have hhead : (pairLine (key, v)).head? = some c := by
        rw [hpieces, hkey]
        rfl
      have hline : trim isLineBlank (pairLine (key, v)) = pairLine (key, v) := by
        refine trim_eq_self ?_ ?_
        · intro d hd
          rw [hhead] at hd
          exact h.trimmed.head d (by rw [hkey]; exact hd)
        · intro d hd
          have hconcat : pairLine (key, v) = (key ++ (bytes " = \"" ++ v)) ++ [34] := by
            simp only [pairLine, List.append_assoc]
            rfl
          rw [hconcat, List.getLast?_concat] at hd
          cases hd
          rfl
      have hequals : ∀ x ∈ key ++ [32], (x ≠ 61 : Bool) = true := by
        intro x hx
        have hne : x ≠ 61 := by
          rcases List.mem_append.1 hx with hx | hx
          · exact fun heq => h.noEquals (heq ▸ hx)
          · rw [List.mem_singleton.1 hx]
            decide
        exact decide_eq_true hne
      have htake : (pairLine (key, v)).takeWhile (· ≠ 61) = key ++ [32] := by
        rw [hpieces, List.takeWhile_append_of_pos hequals, List.takeWhile_cons_of_neg (by decide),
          List.append_nil]
      have hdrop : ((pairLine (key, v)).dropWhile (· ≠ 61)).drop 1 = 32 :: 34 :: (v ++ [34]) := by
        rw [hpieces, List.dropWhile_append_of_pos hequals, List.dropWhile_cons_of_neg (by decide)]
        rfl
      have hvalue : trim isBlank (32 :: 34 :: (v ++ [34])) = 34 :: (v ++ [34]) := by
        have hspace : trim isBlank (32 :: 34 :: (v ++ [34])) =
            trim isBlank (34 :: (v ++ [34])) := rfl
        rw [hspace, trim_between (by decide) (by decide)]
      have hfirst : ¬ (pairLine (key, v) = [] ∨ (pairLine (key, v)).head? = some 35) := by
        rintro (hnil | hcomment)
        · rw [hnil] at hhead
          cases hhead
        · rw [hhead] at hcomment
          exact h.noComment (by rw [hkey]; exact hcomment)
      have hheader : ¬ ((pairLine (key, v)).head? = some openBracket ∧
          (pairLine (key, v)).getLast? = some closeBracket) := by
        rintro ⟨hopen, -⟩
        rw [hhead] at hopen
        exact h.noHeader (by rw [hkey]; exact hopen)
      have hmem : (61 : UInt8) ∈ pairLine (key, v) := by
        rw [hpieces]
        simp
      rw [← hkey, readLine, hline]
      simp only
      rw [if_neg hfirst, if_neg hheader, if_pos hmem, htake, hdrop, hvalue, unquote_quoted,
        trim_key h]

/-! ## Entries -/

def entriesOf (s : Bytes × List (Bytes × Bytes)) : List Entry :=
  s.2.map fun pair => ⟨s.1, pair.1, pair.2⟩

theorem entriesFrom_pairs {sec : Bytes} (hsec : sec ≠ []) {pairs : List (Bytes × Bytes)}
    (h : ∀ pair ∈ pairs, IsKey pair.1) (lines : List Bytes) :
    entriesFrom sec (pairs.map pairLine ++ lines) =
      entriesOf (sec, pairs) ++ entriesFrom sec lines := by
  induction pairs with
  | nil => rfl
  | cons pair pairs ih =>
      obtain ⟨hpair, h⟩ := List.forall_mem_cons.1 h
      rw [List.map_cons, List.cons_append, entriesFrom, readLine_pairLine hpair]
      simp only
      rw [if_neg hsec, ih h]
      rfl

/-- Every section is read below its own name, whatever stood before it. -/
theorem entriesFrom_sections {m : Sections} (h : ∀ s ∈ m, IsSection s) (sec : Bytes) :
    entriesFrom sec (m.flatMap sectionLines) = m.flatMap entriesOf := by
  induction m generalizing sec with
  | nil => rfl
  | cons s m ih =>
      obtain ⟨hs, h⟩ := List.forall_mem_cons.1 h
      rw [List.flatMap_cons, List.flatMap_cons, sectionLines, List.cons_append, entriesFrom,
        readLine_headerLine hs.name]
      simp only
      rw [entriesFrom_pairs hs.name.ne_nil hs.keys, ih h]

theorem oneLine_of_mem {m : Sections} (h : ∀ s ∈ m, IsSection s) {l : Bytes}
    (hl : l ∈ m.flatMap sectionLines) : 10 ∉ l := by
  obtain ⟨s, hs, hl⟩ := List.mem_flatMap.1 hl
  rcases List.mem_cons.1 hl with rfl | hl
  · have hname := (h s hs).name.oneLine
    intro hmem
    rcases List.mem_append.1 hmem with hmem | hmem
    · exact absurd hmem (by decide)
    · rcases List.mem_append.1 hmem with hmem | hmem
      · exact hname hmem
      · exact absurd hmem (by decide)
  · obtain ⟨pair, hpair, rfl⟩ := List.mem_map.1 hl
    intro hmem
    rcases List.mem_append.1 hmem with hmem | hmem
    · exact ((h s hs).keys pair hpair).oneLine hmem
    · rcases List.mem_append.1 hmem with hmem | hmem
      · exact absurd hmem (by decide)
      · rcases List.mem_append.1 hmem with hmem | hmem
        · exact (h s hs).values pair hpair hmem
        · exact absurd hmem (by decide)

theorem entries_render {m : Sections} (h : ∀ s ∈ m, IsSection s) :
    entries (render m) = m.flatMap entriesOf := by
  have hlines : getFields 10 (render m) = m.flatMap sectionLines := by
    have hfields := getFields_flatMap_append (fun l hl => oneLine_of_mem h hl) []
    rw [List.append_nil] at hfields
    rw [render, hfields]
    exact List.append_nil _
  rw [entries, hlines, entriesFrom_sections h]

/-! ## Values -/

theorem lookup_eq_some_of_nodup {β : Type} {l : List (Bytes × β)} (h : (l.map Prod.fst).Nodup)
    {a : Bytes} {b : β} : l.lookup a = some b ↔ (a, b) ∈ l := by
  induction l with
  | nil => simp
  | cons x l ih =>
      obtain ⟨c, d⟩ := x
      rw [List.map_cons, List.nodup_cons] at h
      rw [List.lookup_cons, List.mem_cons, Prod.mk.injEq]
      by_cases hac : a = c
      · subst hac
        have hnot : (a, b) ∉ l := fun hmem =>
          h.1 (List.mem_map.2 ⟨(a, b), hmem, rfl⟩)
        simp [hnot, eq_comm]
      · have hne : (a == c) = false := beq_false_of_ne hac
        rw [hne]
        simp only [hac, false_and, false_or]
        exact ih h.2

theorem findRev?_eq_find?_reverse {α : Type} (p : α → Bool) (l : List α) :
    l.findRev? p = l.reverse.find? p := by
  rw [List.findRev?_eq_findRev?TR]
  rfl

theorem mem_entriesOf {m : Sections} {e : Entry} :
    e ∈ m.flatMap entriesOf ↔ ∃ pairs, (e.sec, pairs) ∈ m ∧ (e.key, e.value) ∈ pairs := by
  rw [List.mem_flatMap]
  constructor
  · rintro ⟨s, hs, he⟩
    obtain ⟨pair, hpair, rfl⟩ := List.mem_map.1 he
    exact ⟨s.2, hs, hpair⟩
  · rintro ⟨pairs, hs, hpair⟩
    exact ⟨(e.sec, pairs), hs, List.mem_map.2 ⟨(e.key, e.value), hpair, rfl⟩⟩

theorem value_eq_some {m : Sections} (h : IsConfig m) {sec key v : Bytes} :
    m.value sec key = some v ↔ ∃ pairs, (sec, pairs) ∈ m ∧ (key, v) ∈ pairs := by
  rw [Sections.value, Option.bind_eq_some_iff]
  constructor
  · rintro ⟨pairs, hpairs, hv⟩
    have hmem := (lookup_eq_some_of_nodup h.nodup).1 hpairs
    exact ⟨pairs, hmem, (lookup_eq_some_of_nodup (h.sections _ hmem).nodup).1 hv⟩
  · rintro ⟨pairs, hmem, hv⟩
    exact ⟨pairs, (lookup_eq_some_of_nodup h.nodup).2 hmem,
      (lookup_eq_some_of_nodup (h.sections _ hmem).nodup).2 hv⟩

theorem valueOf_render {m : Sections} (h : IsConfig m) (sec key : Bytes) :
    valueOf (render m) sec key = m.value sec key := by
  have hfound : ∀ e, (m.flatMap entriesOf).findRev? (fun e => e.sec = sec ∧ e.key = key) = some e →
      m.value sec key = some e.value := by
    intro e he
    rw [findRev?_eq_find?_reverse] at he
    have hmem := mem_entriesOf.1 (List.mem_reverse.1 (List.mem_of_find?_eq_some he))
    have hkey : e.sec = sec ∧ e.key = key := by simpa using List.find?_some he
    rw [hkey.1, hkey.2] at hmem
    exact (value_eq_some h).2 hmem
  rw [valueOf, entries_render h.sections]
  cases hfind : (m.flatMap entriesOf).findRev? fun e => e.sec = sec ∧ e.key = key with
  | some e => rw [hfound e hfind, Option.map_some]
  | none =>
      rw [findRev?_eq_find?_reverse] at hfind
      rw [Option.map_none, eq_comm, Option.eq_none_iff_forall_ne_some]
      intro v hv
      have hmem : (⟨sec, key, v⟩ : Entry) ∈ (m.flatMap entriesOf).reverse :=
        List.mem_reverse.2 (mem_entriesOf.2 ((value_eq_some h).1 hv))
      exact List.find?_eq_none.1 hfind _ hmem (by simp)

/-- A configuration comes back as it was written, whatever the order of its sections and keys. Of
any text the last assignments count, and an unchanged file loads as before. -/
theorem load_render :
    (∀ m : Sections, IsConfig m → ∀ sec key, load (some (render m)) sec key = m.value sec key) ∧
      (∀ text sec key, load (some text) sec key = valueOf text sec key) ∧
      ∀ file, reload (load file) file = load file := by
  refine ⟨fun m h sec key => ?_, fun text sec key => load_eq_valueOf text sec key, fun _ => rfl⟩
  rw [load_eq_valueOf, valueOf_render h]

/-- Two sections, with a value that has a quote and a bracket in it. -/
def sample : Sections :=
  [(bytes "nexus", [(bytes "db_path", bytes "/var/\"nazg\"/[db]"), (bytes "mode", bytes "")]),
    (bytes "bots", [(bytes "doctor", bytes "# = on")])]

theorem load_render_sample :
    load (some (render sample)) (bytes "nexus") (bytes "db_path") =
      some (bytes "/var/\"nazg\"/[db]") := by
  have hpath : IsKey (bytes "db_path") :=
    ⟨by decide, .of_ends (by decide) (by decide), by decide, by decide, by decide, by decide⟩
  have hmode : IsKey (bytes "mode") :=
    ⟨by decide, .of_ends (by decide) (by decide), by decide, by decide, by decide, by decide⟩
  have hdoctor : IsKey (bytes "doctor") :=
    ⟨by decide, .of_ends (by decide) (by decide), by decide, by decide, by decide, by decide⟩
  have hnexus : IsSection (bytes "nexus",
      [(bytes "db_path", bytes "/var/\"nazg\"/[db]"), (bytes "mode", bytes "")]) :=
    ⟨⟨by decide, .of_ends (by decide) (by decide), by decide⟩, by decide, by decide,
      by simp [hpath, hmode], by decide⟩
  have hbots : IsSection (bytes "bots", [(bytes "doctor", bytes "# = on")]) :=
    ⟨⟨by decide, .of_ends (by decide) (by decide), by decide⟩, by decide, by decide,
      by simp [hdoctor], by decide⟩
  have hconfig : IsConfig sample := ⟨by decide, by simp [sample, hnexus, hbots]⟩
  exact load_render.1 sample hconfig (bytes "nexus") (bytes "db_path")

end Nazg.Config.Store
