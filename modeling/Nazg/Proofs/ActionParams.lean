import Nazg.Brain.Recovery
import Nazg.Proofs.RecoveryRestore

/-!
# The parameters of an action

An action keeps its parameters as a text that looks like JSON. The writer escapes nothing.
The reader drops every brace and every quote, and cuts at every comma and at the first colon
of what is left.

`recordedParams_iff` says which parameters come back, and when the command that was recorded is
the one that is run.
-/

namespace Nazg.Brain

open Lib Lib.Sqlite Nexus Workspace

/-! ## What a parameter may consist of -/

/-- `" \t\n\r"` -/
def isBlank (c : UInt8) : Bool := decide (c = 32 ∨ c = 9 ∨ c = 10 ∨ c = 13)

/-- Nothing that the reader drops, and no comma. -/
structure Bare (s : Bytes) : Prop where
  plain : ∀ c ∈ s, c ≠ 34 ∧ c ≠ 44 ∧ c ≠ 123 ∧ c ≠ 125
  head : ∀ c ∈ s.head?, isBlank c = false
  last : ∀ c ∈ s.getLast?, isBlank c = false

structure Readable (e : Bytes × Bytes) : Prop where
  name : Bare e.1
  noColon : (58 : UInt8) ∉ e.1
  value : Bare e.2

/-- A C string has the whole of it. -/
def NulFree (e : Bytes × Bytes) : Prop := (0 : UInt8) ∉ e.1 ∧ (0 : UInt8) ∉ e.2

instance : DecidablePred NulFree := fun _ => inferInstanceAs (Decidable (_ ∧ _))

theorem head?_dropWhile (p : UInt8 → Bool) (s : Bytes) :
    ∀ c ∈ (s.dropWhile p).head?, p c = false := by
  have h := List.head?_dropWhile_not p s
  intro c hc
  rw [Option.mem_def.1 hc] at h
  exact h

theorem dropWhile_of_head? {p : UInt8 → Bool} {s : Bytes} (h : ∀ c ∈ s.head?, p c = false) :
    s.dropWhile p = s := by
  cases s with
  | nil => rfl
  | cons c s => rw [List.dropWhile_cons, h c rfl, if_neg Bool.false_ne_true]

theorem trim_eq (s : Bytes) :
    trim s = ((s.dropWhile isBlank).reverse.dropWhile isBlank).reverse := rfl

theorem trim_of_ends {s : Bytes} (hhead : ∀ c ∈ s.head?, isBlank c = false)
    (hlast : ∀ c ∈ s.getLast?, isBlank c = false) : trim s = s := by
  rw [trim_eq, dropWhile_of_head? hhead, dropWhile_of_head?, List.reverse_reverse]
  rwa [List.head?_reverse]

theorem getLast?_trim (s : Bytes) : ∀ c ∈ (trim s).getLast?, isBlank c = false := by
  rw [trim_eq, List.getLast?_reverse]
  exact head?_dropWhile _ _

theorem trim_isPrefix (s : Bytes) : trim s <+: s.dropWhile isBlank := by
  rw [trim_eq, ← List.reverse_suffix, List.reverse_reverse]
  exact List.dropWhile_suffix _

theorem head?_trim (s : Bytes) : ∀ c ∈ (trim s).head?, isBlank c = false := by
  intro c hc
  obtain ⟨rest, hrest⟩ := trim_isPrefix s
  refine head?_dropWhile isBlank s c ?_
  rw [← hrest, List.head?_append, Option.mem_def.1 hc]
  rfl

theorem mem_of_mem_trim {c : UInt8} {s : Bytes} (h : c ∈ trim s) : c ∈ s :=
  (List.dropWhile_sublist _).subset ((trim_isPrefix s).subset h)

/-! ## The reader -/

/-- A name or a value, as it is taken over. -/
def unquoted (s : Bytes) : Bytes := trim (s.filter fun c => c ≠ 34)

/-- What one piece between commas adds. -/
def addPair (params : OrdMap Bytes Bytes) (pair : Bytes) : OrdMap Bytes Bytes :=
  match cut 58 pair with
  | some (key, value) => params.insert (unquoted key) (unquoted value)
  | none => params

def withoutBraces (s : Bytes) : Bytes := s.filter fun c => c ≠ 123 ∧ c ≠ 125

theorem jsonToParams_eq {json : Bytes} (h : json ≠ []) (hbraces : json ≠ bytes "\x7b\x7d") :
    jsonToParams json = (getFields 44 (withoutBraces json)).foldl addPair .empty :=
  if_neg (not_or.2 ⟨h, hbraces⟩)

theorem bare_unquoted {s : Bytes} (h : ∀ c ∈ s, c ≠ 44 ∧ c ≠ 123 ∧ c ≠ 125) :
    Bare (unquoted s) where
  plain := by
    intro c hc
    obtain ⟨hmem, hquote⟩ := List.mem_filter.1 (mem_of_mem_trim hc)
    exact ⟨of_decide_eq_true hquote, h c hmem⟩
  head := head?_trim _
  last := getLast?_trim _

theorem unquoted_of_bare {s : Bytes} (h : Bare s) : unquoted s = s := by
  have hfilter : s.filter (fun c => c ≠ 34) = s :=
    List.filter_eq_self.2 fun c hc => decide_eq_true (h.plain c hc).1
  rw [unquoted, hfilter, trim_of_ends h.head h.last]

theorem unquoted_sublist (s : Bytes) : ∀ c ∈ unquoted s, c ∈ s := fun _ hc =>
  List.mem_of_mem_filter (mem_of_mem_trim hc)

theorem readable_addPair {params : OrdMap Bytes Bytes} {pair : Bytes}
    (hpair : ∀ c ∈ pair, c ≠ 44 ∧ c ≠ 123 ∧ c ≠ 125) (h : ∀ e ∈ params.entries, Readable e) :
    ∀ e ∈ (addPair params pair).entries, Readable e := by
  rw [addPair]
  split
  · next key value hcut =>
      obtain ⟨rfl, hcolon⟩ := eq_of_cut hcut
      intro e he
      rcases OrdMap.mem_put he with rfl | he
      · exact {
          name := bare_unquoted fun c hc => hpair c (List.mem_append_left _ hc)
          noColon := fun hc => hcolon (unquoted_sublist _ _ hc)
          value := bare_unquoted fun c hc =>
            hpair c (List.mem_append_right _ (List.mem_cons_of_mem _ hc)) }
      · exact h e he
  · exact h

theorem readable_foldl {pairs : List Bytes} {params : OrdMap Bytes Bytes}
    (hpairs : ∀ pair ∈ pairs, ∀ c ∈ pair, c ≠ 44 ∧ c ≠ 123 ∧ c ≠ 125)
    (h : ∀ e ∈ params.entries, Readable e) :
    ∀ e ∈ (pairs.foldl addPair params).entries, Readable e := by
  induction pairs generalizing params with
  | nil => exact h
  | cons pair pairs ih =>
      obtain ⟨hpair, hpairs⟩ := List.forall_mem_cons.1 hpairs
      rw [List.foldl_cons]
      exact ih hpairs (readable_addPair hpair h)

/-- Whatever text is read, its parameters are readable. -/
theorem readable_jsonToParams (json : Bytes) : ∀ e ∈ (jsonToParams json).entries, Readable e := by
  by_cases hempty : json = [] ∨ json = bytes "\x7b\x7d"
  · rw [jsonToParams, if_pos hempty]
    exact fun e he => absurd he List.not_mem_nil
  · obtain ⟨hnil, hbraces⟩ := not_or.1 hempty
    rw [jsonToParams_eq hnil hbraces]
    refine readable_foldl (fun pair hpair c hc => ?_) fun e he => absurd he List.not_mem_nil
    obtain ⟨hdelim, hmem⟩ := mem_getFields hpair hc
    exact ⟨hdelim, of_decide_eq_true (List.mem_filter.1 hmem).2⟩

/-! ## The writer -/

theorem paramText_eq (e : Bytes × Bytes) :
    paramText e = 34 :: (e.1 ++ 34 :: 58 :: 34 :: (e.2 ++ [34])) := by
  simp only [paramText, List.append_assoc]
  rfl

theorem mem_paramText {e : Bytes × Bytes} {c : UInt8} (h : c ∈ paramText e) :
    c ∈ e.1 ∨ c ∈ e.2 ∨ c = 34 ∨ c = 58 := by
  rw [paramText_eq] at h
  simp only [List.mem_cons, List.mem_append, List.not_mem_nil, or_false] at h
  rcases h with h | h | h | h | h | h | h
  · exact .inr (.inr (.inl h))
  · exact .inl h
  · exact .inr (.inr (.inl h))
  · exact .inr (.inr (.inr h))
  · exact .inr (.inr (.inl h))
  · exact .inr (.inl h)
  · exact .inr (.inr (.inl h))

/-- A comma ends a field, and no brace is dropped. -/
theorem Readable.notMem {e : Bytes × Bytes} (h : Readable e) :
    ∀ c ∈ paramText e, c ≠ 44 ∧ c ≠ 123 ∧ c ≠ 125 := by
  intro c hc
  rcases mem_paramText hc with hname | hvalue | rfl | rfl
  · exact (h.name.plain c hname).2
  · exact (h.value.plain c hvalue).2
  · decide
  · decide

/-- A written entry whose value goes on with anything. -/
theorem addPair_written {k : Bytes} (hk : Bare k) (hcolon : (58 : UInt8) ∉ k)
    (params : OrdMap Bytes Bytes) (rest : Bytes) :
    addPair params (34 :: (k ++ 34 :: 58 :: 34 :: rest)) = params.insert k (unquoted rest) := by
  have hshape : 34 :: (k ++ 34 :: 58 :: 34 :: rest) = (34 :: k ++ [34]) ++ 58 :: 34 :: rest := by
    simp
  have hnot : (58 : UInt8) ∉ 34 :: k ++ [34] := by
    simp [hcolon]
  have hname : unquoted (34 :: k ++ [34]) = unquoted k := by
    simp [unquoted]
  have hrest : unquoted (34 :: rest) = unquoted rest := by
    simp [unquoted]
  rw [addPair, hshape, cut_append hnot]
  dsimp only
  rw [hname, hrest, unquoted_of_bare hk]

theorem addPair_paramText {e : Bytes × Bytes} (h : Readable e) (params : OrdMap Bytes Bytes) :
    addPair params (paramText e) = params.insert e.1 e.2 := by
  have hvalue : unquoted (e.2 ++ [34]) = unquoted e.2 := by
    simp [unquoted]
  rw [paramText_eq, addPair_written h.name h.noColon, hvalue, unquoted_of_bare h.value]

theorem foldl_addPair {es : List (Bytes × Bytes)} (h : ∀ e ∈ es, Readable e)
    (params : OrdMap Bytes Bytes) :
    (es.map paramText).foldl addPair params =
      es.foldl (fun m e => m.insert e.1 e.2) params := by
  induction es generalizing params with
  | nil => rfl
  | cons e es ih =>
      obtain ⟨he, hes⟩ := List.forall_mem_cons.1 h
      rw [List.map_cons, List.foldl_cons, List.foldl_cons, addPair_paramText he, ih hes]

/-- Entries with a comma behind each. -/
def commaEnded (es : List (Bytes × Bytes)) : Bytes := (es.map paramText).flatMap (· ++ [44])

theorem intercalate_eq (es : List (Bytes × Bytes)) (e : Bytes × Bytes)
    (post : List (Bytes × Bytes)) :
    ∃ rest, (bytes ",").intercalate ((es ++ e :: post).map paramText) =
      commaEnded es ++ (paramText e ++ rest) ∧ (post = [] → rest = []) := by
  induction es with
  | nil =>
      cases post with
      | nil => exact ⟨[], by simp [commaEnded], fun _ => rfl⟩
      | cons x post =>
          refine ⟨bytes "," ++ (bytes ",").intercalate ((x :: post).map paramText), ?_, nofun⟩
          simp [commaEnded, List.intercalate_cons_cons]
  | cons x es ih =>
      obtain ⟨rest, hrest, hpost⟩ := ih
      refine ⟨rest, ?_, hpost⟩
      obtain ⟨y, ys, hys⟩ : ∃ y ys, (es ++ e :: post).map paramText = y :: ys :=
        List.exists_cons_of_ne_nil (by simp)
      rw [List.cons_append, List.map_cons, hys, List.intercalate_cons_cons, ← hys, hrest]
      have hcomma : bytes "," = [44] := rfl
      simp [commaEnded, hcomma]

/-- A text of whole entries and the beginning of a further one. -/
theorem read_commaEnded {es : List (Bytes × Bytes)} (h : ∀ e ∈ es, Readable e) {tail : Bytes}
    (htail : ∀ c ∈ tail, c ≠ 44 ∧ c ≠ 123 ∧ c ≠ 125) (hne : tail ≠ []) {after : Bytes}
    (hafter : after = [] ∨ after = bytes "\x7d") :
    jsonToParams (bytes "\x7b" ++ commaEnded es ++ tail ++ after) =
      addPair (es.foldl (fun m e => m.insert e.1 e.2) .empty) tail := by
  have hes : ∀ c ∈ commaEnded es, c ≠ 123 ∧ c ≠ 125 := by
    intro c hc
    obtain ⟨l, hl, hc⟩ := List.mem_flatMap.1 hc
    obtain ⟨e, he, rfl⟩ := List.mem_map.1 hl
    rcases List.mem_append.1 hc with hc | hc
    · exact ((h e he).notMem c hc).2
    · rw [List.mem_singleton.1 hc]
      decide
  have hbraces : withoutBraces (bytes "\x7b" ++ commaEnded es ++ tail ++ after) =
      commaEnded es ++ tail := by
    have hkeep : ∀ s : Bytes, (∀ c ∈ s, c ≠ 123 ∧ c ≠ 125) → withoutBraces s = s :=
      fun s hs => List.filter_eq_self.2 fun c hc => decide_eq_true (hs c hc)
    have hdrop : withoutBraces (bytes "\x7b") = [] ∧ withoutBraces after = [] := by
      refine ⟨by decide, ?_⟩
      rcases hafter with rfl | rfl <;> decide
    rw [withoutBraces, List.filter_append, List.filter_append, List.filter_append,
      ← withoutBraces, ← withoutBraces, ← withoutBraces, ← withoutBraces, hdrop.1, hdrop.2,
      hkeep _ hes, hkeep _ fun c hc => (htail c hc).2, List.nil_append, List.append_nil]
  obtain ⟨c, tail, rfl⟩ := List.exists_cons_of_ne_nil hne
  rw [jsonToParams_eq (by simp [bytes]), hbraces, commaEnded,
    getFields_flatMap_append, getFields_of_notMem (fun hc => (htail _ hc).1 rfl) hne,
    List.foldl_append, foldl_addPair h]
  · rfl
  · intro l hl hc
    obtain ⟨e, he, rfl⟩ := List.mem_map.1 hl
    exact ((h e he).notMem _ hc).1 rfl
  · -- The text has more than the two braces.
    intro heq
    have hkept := congrArg withoutBraces heq
    rw [hbraces] at hkept
    exact absurd (List.append_eq_nil_iff.1 hkept).2 hne

theorem jsonToParams_paramsToJson {m : OrdMap Bytes Bytes} (h : ∀ e ∈ m.entries, Readable e) :
    jsonToParams (paramsToJson m) = m := by
  rcases List.eq_nil_or_concat' m.entries with hnil | ⟨es, e, hes⟩
  · have hm : m = .empty := by
      cases m
      cases hnil
      rfl
    rw [hm]
    rfl
  · obtain ⟨rest, hrest, hpost⟩ := intercalate_eq es e []
    rw [hes] at h
    have he : Readable e := h e (by simp)
    have hread := read_commaEnded (fun x hx => h x (List.mem_append_left _ hx)) he.notMem
      (by simp [paramText, bytes]) (.inr rfl)
    rw [paramsToJson, if_neg (by simp [hes]), hes, hrest, hpost rfl, List.append_nil,
      ← List.append_assoc, hread, addPair_paramText he]
    refine OrdMap.ext_find? fun k => ?_
    have hfold := OrdMap.find?_foldl_insert m.keys_nodup .empty k
    rw [hes, List.foldl_append] at hfold
    have hfind : m.find? k = OrdMap.lookup k (es ++ [e]) := congrArg (OrdMap.lookup k) hes
    rw [hfind]
    simpa using hfold

/-! ## The store -/

/-- The parameters, read from the text that the store has. -/
def storedParams (m : OrdMap Bytes Bytes) : OrdMap Bytes Bytes :=
  jsonToParams (cstr (paramsToJson m))

def fromEntries (es : List (Bytes × Bytes)) : OrdMap Bytes Bytes :=
  es.foldl (fun m e => m.insert e.1 e.2) .empty

theorem notMem_commaEnded {es : List (Bytes × Bytes)} (h : ∀ e ∈ es, NulFree e) :
    (0 : UInt8) ∉ commaEnded es := by
  intro hc
  obtain ⟨l, hl, hc⟩ := List.mem_flatMap.1 hc
  obtain ⟨e, he, rfl⟩ := List.mem_map.1 hl
  rcases List.mem_append.1 hc with hc | hc
  · rcases mem_paramText hc with hc | hc | hc | hc
    · exact (h e he).1 hc
    · exact (h e he).2 hc
    · exact absurd hc (by decide)
    · exact absurd hc (by decide)
  · exact absurd (List.mem_singleton.1 hc) (by decide)

/-- An entry that is cut off. -/
theorem addPair_cstr {e : Bytes × Bytes} (h : Readable e) (hnul : ¬ NulFree e)
    (params : OrdMap Bytes Bytes) :
    addPair params (cstr (paramText e)) =
      if (0 : UInt8) ∈ e.1 then params else params.insert e.1 (unquoted (cstr e.2)) := by
  have hquote : (0 : UInt8) ∉ [(34 : UInt8)] := by decide
  rw [paramText_eq]
  split
  · next hname =>
      have htext : cstr (34 :: (e.1 ++ 34 :: 58 :: 34 :: (e.2 ++ [34]))) = 34 :: cstr e.1 :=
        (cstr_append hquote _).trans (congrArg ([34] ++ ·) (cstr_append_of_mem hname _))
      have hcut : cut 58 (34 :: cstr e.1) = none := by
        cases hcut : cut 58 (34 :: cstr e.1) with
        | none => rfl
        | some found =>
            have hcolon : (58 : UInt8) ∈ 34 :: cstr e.1 := by
              rw [(eq_of_cut hcut).1]
              exact List.mem_append_right _ List.mem_cons_self
            rcases List.mem_cons.1 hcolon with hcolon | hcolon
            · exact absurd hcolon (by decide)
            · exact absurd ((List.takeWhile_prefix _).subset hcolon) h.noColon
      rw [htext, addPair, hcut]
  · next hname =>
      have hvalue : (0 : UInt8) ∈ e.2 := not_not.1 fun hvalue => hnul ⟨hname, hvalue⟩
      have hmiddle : (0 : UInt8) ∉ [(34 : UInt8), 58, 34] := by decide
      have htext : cstr (34 :: (e.1 ++ 34 :: 58 :: 34 :: (e.2 ++ [34]))) =
          34 :: (e.1 ++ 34 :: 58 :: 34 :: cstr e.2) := by
        refine (cstr_append hquote _).trans (congrArg ([34] ++ ·) ?_)
        refine (cstr_append hname _).trans (congrArg (e.1 ++ ·) ?_)
        exact (cstr_append hmiddle _).trans (congrArg ([34, 58, 34] ++ ·)
          (cstr_append_of_mem hvalue _))
      rw [htext, addPair_written h.name h.noColon]

theorem storedParams_of_nulFree {m : OrdMap Bytes Bytes} (h : ∀ e ∈ m.entries, NulFree e) :
    storedParams m = jsonToParams (paramsToJson m) := by
  refine congrArg jsonToParams (cstr_eq_self.2 ?_)
  rcases List.eq_nil_or_concat' m.entries with hnil | ⟨es, e, hes⟩
  · rw [paramsToJson, if_pos hnil]
    decide
  · obtain ⟨rest, hrest, hpost⟩ := intercalate_eq es e []
    rw [hes] at h
    have hnot := notMem_commaEnded h
    rw [commaEnded, List.map_append, List.flatMap_append, ← commaEnded] at hnot
    rw [paramsToJson, if_neg (by simp [hes]), hes, hrest, hpost rfl]
    have hbraces : (0 : UInt8) ∉ bytes "\x7b" ∧ (0 : UInt8) ∉ bytes "\x7d" := by decide
    simp only [List.map_cons, List.map_nil, List.flatMap_cons, List.flatMap_nil, List.mem_append,
      not_or] at hnot ⊢
    exact ⟨⟨hbraces.1, hnot.1, hnot.2.1.1, List.not_mem_nil⟩, hbraces.2⟩

/-- The first entry with a terminator in it is the last that is stored. -/
theorem storedParams_of_nul {m : OrdMap Bytes Bytes} {pre post : List (Bytes × Bytes)}
    {e : Bytes × Bytes} (hm : m.entries = pre ++ e :: post) (h : ∀ e ∈ m.entries, Readable e)
    (hpre : ∀ e ∈ pre, NulFree e) (hnul : ¬ NulFree e) :
    storedParams m = if (0 : UInt8) ∈ e.1 then fromEntries pre
      else (fromEntries pre).insert e.1 (unquoted (cstr e.2)) := by
  obtain ⟨rest, hrest, -⟩ := intercalate_eq pre e post
  rw [hm] at h
  have he : Readable e := h e (by simp)
  have hzero : (0 : UInt8) ∈ paramText e := by
    rw [paramText_eq]
    rcases not_and_or.1 hnul with hname | hvalue
    · simp [not_not.1 hname]
    · simp [not_not.1 hvalue]
  have hstart : (0 : UInt8) ∉ bytes "\x7b" ++ commaEnded pre := by
    rw [List.mem_append, not_or]
    exact ⟨by decide, notMem_commaEnded hpre⟩
  have htext : cstr (paramsToJson m) =
      bytes "\x7b" ++ commaEnded pre ++ cstr (paramText e) ++ [] := by
    rw [paramsToJson, if_neg (by simp [hm]), hm, hrest, ← List.append_assoc, ← List.append_assoc,
      List.append_assoc, List.append_assoc, cstr_append hstart, cstr_append_of_mem hzero,
      List.append_nil]
  have hne : cstr (paramText e) ≠ [] := by
    rw [paramText_eq]
    exact List.cons_ne_nil _ _
  have htail : ∀ c ∈ cstr (paramText e), c ≠ 44 ∧ c ≠ 123 ∧ c ≠ 125 :=
    fun c hc => he.notMem c ((List.takeWhile_prefix _).subset hc)
  rw [storedParams, htext, read_commaEnded (fun x hx => h x (List.mem_append_left _ hx)) htail hne
    (.inl rfl), addPair_cstr he hnul, fromEntries]

/-! ## The command that is run -/

/-- The command of an action, nothing if there is none. -/
def commandOf (params : OrdMap Bytes Bytes) : Bytes := (params.find? (bytes "command")).getD []

/-- The command reaches the store: no terminator stands before its end. -/
def CommandStored (m : OrdMap Bytes Bytes) : Prop :=
  ∀ c, (bytes "command", c) ∈ m.entries → c ≠ [] →
    ∀ e ∈ m.entries, e.1 ≤ bytes "command" → NulFree e

theorem notMem_unquoted_cstr (s : Bytes) : (0 : UInt8) ∉ unquoted (cstr s) := fun h =>
  zero_notMem_cstr s (unquoted_sublist _ _ h)

theorem find?_fromEntries {es : List (Bytes × Bytes)} (h : (es.map Prod.fst).Nodup) (k : Bytes) :
    (fromEntries es).find? k = OrdMap.lookup k es := by
  rw [fromEntries, OrdMap.find?_foldl_insert h, OrdMap.find?_empty, Option.or_none]

theorem mem_entries_of_commandOf {m : OrdMap Bytes Bytes} {c : Bytes} (h : commandOf m = c)
    (hc : c ≠ []) : (bytes "command", c) ∈ m.entries := by
  rw [commandOf] at h
  cases hfind : m.find? (bytes "command") with
  | none => exact absurd (h.symm.trans (by rw [hfind]; rfl)) hc
  | some c' =>
      rw [hfind] at h
      cases h
      exact OrdMap.mem_entries.2 hfind

theorem commandOf_of_mem {m : OrdMap Bytes Bytes} {c : Bytes}
    (h : (bytes "command", c) ∈ m.entries) : commandOf m = c := by
  rw [commandOf, OrdMap.mem_entries.1 h]
  rfl

section

variable {m : OrdMap Bytes Bytes} {pre post : List (Bytes × Bytes)} {e : Bytes × Bytes}

theorem find?_append (hm : m.entries = pre ++ e :: post) (k : Bytes) :
    m.find? k = (OrdMap.lookup k pre).or (OrdMap.lookup k (e :: post)) :=
  (congrArg (OrdMap.lookup k) hm).trans (OrdMap.lookup_append k pre (e :: post))

/-- The keys of the entries before and after one. -/
theorem keys_of_split (hm : m.entries = pre ++ e :: post) :
    (pre.map Prod.fst).Nodup ∧ (∀ x ∈ pre, x.1 < e.1) ∧ ∀ x ∈ post, e.1 < x.1 := by
  have hsorted := m.sorted
  rw [hm] at hsorted
  obtain ⟨hfirst, hlast, hcross⟩ := List.pairwise_append.1 hsorted
  exact ⟨List.pairwise_map.2 (hfirst.imp ne_of_lt),
    fun x hx => hcross x hx e List.mem_cons_self, (List.pairwise_cons.1 hlast).1⟩

variable (hm : m.entries = pre ++ e :: post) (h : ∀ e ∈ m.entries, Readable e)
  (hpre : ∀ e ∈ pre, NulFree e) (hnul : ¬ NulFree e)

include hm h hpre hnul

/-- The command stands before the first terminator. -/
theorem command_of_lt (hlt : bytes "command" < e.1) :
    commandOf (storedParams m) = commandOf m ∧ CommandStored m := by
  obtain ⟨hnodup, -, hafter⟩ := keys_of_split hm
  have hlater : ∀ x ∈ e :: post, bytes "command" < x.1 :=
    List.forall_mem_cons.2 ⟨hlt, fun x hx => hlt.trans (hafter x hx)⟩
  constructor
  · have hnone : OrdMap.lookup (bytes "command") (e :: post) = none := by
      rw [OrdMap.lookup_eq_none, List.mem_map]
      rintro ⟨x, hx, heq⟩
      exact ne_of_gt (hlater x hx) heq
    rw [commandOf, commandOf, find?_append hm, hnone, Option.or_none,
      storedParams_of_nul hm h hpre hnul]
    split
    · rw [find?_fromEntries hnodup]
    · rw [OrdMap.find?_insert, if_neg (ne_of_lt hlt), find?_fromEntries hnodup]
  · intro c _ _ x hx hle
    rw [hm] at hx
    rcases List.mem_append.1 hx with hx | hx
    · exact hpre x hx
    · exact absurd hle (not_le_of_gt (hlater x hx))

/-- The command has the first terminator. -/
theorem command_of_eq (heq : bytes "command" = e.1) :
    commandOf (storedParams m) ≠ commandOf m ∧ ¬ CommandStored m := by
  have hname : (0 : UInt8) ∉ e.1 := heq ▸ by decide
  have hvalue : (0 : UInt8) ∈ e.2 := not_not.1 fun hvalue => hnul ⟨hname, hvalue⟩
  have hentry : (bytes "command", e.2) ∈ m.entries := by
    rw [hm, heq]
    simp
  constructor
  · have hread : commandOf (storedParams m) = unquoted (cstr e.2) := by
      rw [commandOf, storedParams_of_nul hm h hpre hnul, if_neg hname, OrdMap.find?_insert,
        if_pos heq]
      rfl
    rw [hread, commandOf_of_mem hentry]
    intro hsame
    have hnot := notMem_unquoted_cstr e.2
    rw [hsame] at hnot
    exact hnot hvalue
  · intro hstored
    exact hnul (hstored e.2 hentry (List.ne_nil_of_mem hvalue) e (hm ▸ by simp) heq.ge)

/-- The command stands behind the first terminator. -/
theorem command_of_gt (hgt : e.1 < bytes "command") :
    commandOf (storedParams m) = commandOf m ↔ CommandStored m := by
  obtain ⟨hnodup, hbefore, -⟩ := keys_of_split hm
  have hread : commandOf (storedParams m) = [] := by
    have hnone : OrdMap.lookup (bytes "command") pre = none := by
      rw [OrdMap.lookup_eq_none, List.mem_map]
      rintro ⟨x, hx, heq⟩
      exact ne_of_lt ((hbefore x hx).trans hgt) heq
    rw [commandOf, storedParams_of_nul hm h hpre hnul]
    split
    · rw [find?_fromEntries hnodup, hnone]
      rfl
    · rw [OrdMap.find?_insert, if_neg (ne_of_gt hgt), find?_fromEntries hnodup, hnone]
      rfl
  rw [hread]
  constructor
  · intro hnone c hc hne
    exact absurd (hnone.trans (commandOf_of_mem hc)).symm hne
  · intro hstored
    by_contra hne
    have hentry := mem_entries_of_commandOf rfl (Ne.symm hne)
    exact hnul (hstored _ hentry (Ne.symm hne) e (hm ▸ by simp) hgt.le)

end

theorem commandOf_storedParams_iff {m : OrdMap Bytes Bytes} (h : ∀ e ∈ m.entries, Readable e) :
    commandOf (storedParams m) = commandOf m ↔ CommandStored m := by
  by_cases hall : ∀ e ∈ m.entries, NulFree e
  · rw [storedParams_of_nulFree hall, jsonToParams_paramsToJson h]
    exact iff_of_true rfl fun _ _ _ e he _ => hall e he
  · -- the first entry with a terminator in it
    obtain ⟨e, he⟩ : ∃ e, (m.entries.find? fun e => ¬ NulFree e) = some e := by
      rw [← Option.isSome_iff_exists, List.find?_isSome]
      push Not at hall
      obtain ⟨e, he, hnul⟩ := hall
      exact ⟨e, he, decide_eq_true hnul⟩
    obtain ⟨hnul, pre, post, hm, hpre⟩ := List.find?_eq_some_iff_append.1 he
    replace hnul : ¬ NulFree e := of_decide_eq_true hnul
    replace hpre : ∀ x ∈ pre, NulFree x := fun x hx => by simpa using hpre x hx
    rcases lt_trichotomy (bytes "command") e.1 with hlt | heq | hgt
    · have hkept := command_of_lt hm h hpre hnul hlt
      exact iff_of_true hkept.1 hkept.2
    · have hlost := command_of_eq hm h hpre hnul heq
      exact iff_of_false hlost.1 hlost.2
    · exact command_of_gt hm h hpre hnul hgt

/-! ## Recording a command and running it -/

/-- The row of a custom command with these parameters. -/
def Records {Score : Type} (m : OrdMap Bytes Bytes) (row : RecoveryActionRow Score) : Prop :=
  row.actionType.bytes = bytes "custom_command" ∧
    row.actionParamsJson = some (.ofCStr (paramsToJson m))

/-- Whatever else the row has, the action read from it is run as one with these parameters. -/
def RunsRecorded (d : Scores) (m : OrdMap Bytes Bytes) : Prop :=
  ∀ (id : Int) (row : RecoveryActionRow d.Score) (action : RecoveryAction d.Score),
    Records m row → parseAction d (readRecoveryAction (id, row)) = some action →
      ∀ (host : ExecuteHost) (projectId : Int64) (w : Project),
        executeRecovery host projectId action false w =
          executeRecovery host projectId { action with params := m } false w

theorem executeRecovery_custom {Score : Type} {host : ExecuteHost} {projectId : Int64}
    {action : RecoveryAction Score} {w : Project} (h : action.type = .customCommand) :
    executeRecovery host projectId action false w = some (executeCustomCommand host action w) := by
  rw [executeRecovery, if_neg Bool.false_ne_true, h]

theorem executeCustomCommand_eq {Score : Type}
    {executor : Bytes → FileTree → ShellResult × FileTree} (host : ExecuteHost)
    (hexecutor : host.executor = some executor) (action : RecoveryAction Score) (w : Project) :
    executeCustomCommand host action w =
      if commandOf action.params = [] then
        (.failed (bytes "No command specified in action params"), w)
      else
        executeShell executor (commandOf action.params)
          (bytes "Ran command: " ++ commandOf action.params)
          (bytes "Command failed with exit code ") w := by
  rw [executeCustomCommand, hexecutor, commandOf]
  dsimp only
  cases action.params.find? (bytes "command") with
  | none => rfl
  | some command =>
      cases command with
      | nil => rfl
      | cons c command => rfl

/-- Only the command matters. -/
theorem executeCustomCommand_congr {Score : Type} {a b : RecoveryAction Score}
    (h : commandOf a.params = commandOf b.params) (host : ExecuteHost) (w : Project) :
    executeCustomCommand host a w = executeCustomCommand host b w := by
  cases hexecutor : host.executor with
  | none => rw [executeCustomCommand, executeCustomCommand, hexecutor]
  | some executor =>
      rw [executeCustomCommand_eq host hexecutor, executeCustomCommand_eq host hexecutor, h]

theorem parseAction_records {d : Scores} {m : OrdMap Bytes Bytes} {id : Int}
    {row : RecoveryActionRow d.Score} {action : RecoveryAction d.Score} (hrow : Records m row)
    (hparse : parseAction d (readRecoveryAction (id, row)) = some action) :
    action.type = .customCommand ∧ action.params = storedParams m := by
  rw [parseAction] at hparse
  split at hparse
  · cases hparse
    constructor
    · show ActionType.ofText row.actionType.bytes = .customCommand
      rw [hrow.1]
      decide +kernel
    · show jsonToParams ((row.actionParamsJson.map Text.bytes).getD []) = storedParams m
      rw [hrow.2]
      rfl
  · cases hparse

/-- A row is read if its counts fit an `int`. -/
theorem exists_parseAction (d : Scores) (row : RecoveryActionRow d.Score) (id : Int)
    (hsuccess : row.successCount < 2 ^ 31) (hfailure : row.failureCount < 2 ^ 31) :
    ∃ action, parseAction d (readRecoveryAction (id, row)) = some action := by
  have hcount : ∀ n : Nat, n < 2 ^ 31 → stoi (decimal n) = some (n : Int) := by
    intro n hn
    exact stoi_decimal (by omega) (by omega)
  simp only [parseAction, readRecoveryAction, hcount _ hsuccess, hcount _ hfailure]
  exact ⟨_, rfl⟩

/-- A custom command that was not tried yet. -/
def freshRow (d : Scores) (m : OrdMap Bytes Bytes) : RecoveryActionRow d.Score where
  patternId := none
  actionType := .ofCStr (bytes "custom_command")
  actionParamsJson := some (.ofCStr (paramsToJson m))
  actionDescription := none
  confidenceScore := d.zero

/-- A shell that runs everything. -/
def anyShell : ExecuteHost := ⟨none, some fun _ tree => (⟨true, 0, []⟩, tree)⟩

theorem runsRecorded_iff (d : Scores) (m : OrdMap Bytes Bytes) :
    RunsRecorded d m ↔ commandOf (storedParams m) = commandOf m := by
  constructor
  · intro hruns
    have hrow : Records m (freshRow d m) := ⟨cstr_eq_self.2 (by decide), rfl⟩
    obtain ⟨action, hparse⟩ := exists_parseAction d (freshRow d m) 1 (Nat.two_pow_pos _)
      (Nat.two_pow_pos _)
    obtain ⟨htype, hparams⟩ := parseAction_records hrow hparse
    have hsame := hruns 1 _ action hrow hparse anyShell 1 Project.oneFile
    have htype' : ({ action with params := m } : RecoveryAction d.Score).type = .customCommand :=
      htype
    rw [executeRecovery_custom htype, executeRecovery_custom htype',
      executeCustomCommand_eq anyShell rfl, executeCustomCommand_eq anyShell rfl, hparams] at hsame
    have htaken := congrArg (fun r => r.1.actionsTaken) (Option.some.inj hsame)
    dsimp only at htaken
    split at htaken
    · next hnil =>
        split at htaken
        · next hnil' => rw [hnil, hnil']
        · cases htaken
    · split at htaken
      · cases htaken
      · exact List.append_cancel_left (List.singleton_inj.1 htaken)
  · intro hsame id row action hrow hparse host projectId w
    obtain ⟨htype, hparams⟩ := parseAction_records hrow hparse
    have htype' : ({ action with params := m } : RecoveryAction d.Score).type = .customCommand :=
      htype
    rw [executeRecovery_custom htype, executeRecovery_custom htype']
    exact congrArg some (executeCustomCommand_congr (hparams ▸ hsame) host w)

/-- The parameters come back, and the command is the one that was recorded, exactly if nothing
in them means something to the reader and no terminator cuts the command off. -/
theorem recordedParams_iff (d : Scores) (m : OrdMap Bytes Bytes) :
    (jsonToParams (paramsToJson m) = m ∧ RunsRecorded d m) ↔
      (∀ e ∈ m.entries, Readable e) ∧ CommandStored m := by
  rw [runsRecorded_iff]
  constructor
  · rintro ⟨hback, hruns⟩
    have hreadable : ∀ e ∈ m.entries, Readable e := hback ▸ readable_jsonToParams _
    exact ⟨hreadable, (commandOf_storedParams_iff hreadable).1 hruns⟩
  · rintro ⟨hreadable, hstored⟩
    exact ⟨jsonToParams_paramsToJson hreadable,
      (commandOf_storedParams_iff hreadable).2 hstored⟩

/-- `echo "a, b"` -/
def echoParams : OrdMap Bytes Bytes :=
  OrdMap.empty.insert (bytes "command") (bytes "echo \"a, b\"")

/-- What is run is `echo a`. -/
theorem echo_not_roundTrip :
    jsonToParams (paramsToJson echoParams) ≠ echoParams ∧
      ¬ RunsRecorded exactScores echoParams := by
  constructor
  · decide +kernel
  · rw [runsRecorded_iff]
    decide +kernel

end Nazg.Brain
