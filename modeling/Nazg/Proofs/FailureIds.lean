import Nazg.Brain.PatternMatcher

/-!
# Lists of failures as text

A pattern keeps the ids of its failures as a JSON array. The reader drops the brackets, wherever
they are, and takes what is left from comma to comma; this reads every array of integers, with
any white space between its tokens, and so what the writer makes.
-/

namespace Nazg.Brain

open Lib

/-! ## Arrays of integers -/

/-- White space of JSON. -/
def isJsonSpace (c : UInt8) : Bool := c = 32 || c = 9 || c = 10 || c = 13

abbrev JsonSpace (s : Bytes) : Prop := ∀ c ∈ s, isJsonSpace c = true

/-- An integer as it is written: a sign or none, and digits. -/
structure JsonInt (s : Bytes) (n : Int) : Prop where
  digits : ∃ ds, ds ≠ [] ∧ (∀ c ∈ ds, isDigit c = true) ∧
    (s = ds ∧ n = digitsValue ds ∨ s = 45 :: ds ∧ n = -(digitsValue ds : Int))
  lower : -2 ^ 63 ≤ n
  upper : n ≤ 2 ^ 63 - 1

/-- What stands between the brackets of an array with elements. -/
inductive JsonElements : Bytes → List Int → Prop where
  | last {u s v : Bytes} {n : Int} (hu : JsonSpace u) (hs : JsonInt s n) (hv : JsonSpace v) :
      JsonElements (u ++ (s ++ v)) [n]
  | cons {u s v rest : Bytes} {n : Int} {ns : List Int} (hu : JsonSpace u) (hs : JsonInt s n)
      (hv : JsonSpace v) (hrest : JsonElements rest ns) :
      JsonElements (u ++ (s ++ (v ++ 44 :: rest))) (n :: ns)

inductive JsonArray : Bytes → List Int → Prop where
  | empty {u w v : Bytes} (hu : JsonSpace u) (hw : JsonSpace w) (hv : JsonSpace v) :
      JsonArray (u ++ 91 :: (w ++ 93 :: v)) []
  | elements {u s v : Bytes} {ns : List Int} (hu : JsonSpace u) (hs : JsonElements s ns)
      (hv : JsonSpace v) : JsonArray (u ++ 91 :: (s ++ 93 :: v)) ns

/-! ## Reading one integer -/

theorem JsonInt.ne_nil {s : Bytes} {n : Int} (h : JsonInt s n) : s ≠ [] := by
  obtain ⟨ds, hne, -, ⟨rfl, -⟩ | ⟨rfl, -⟩⟩ := h.digits
  · exact hne
  · exact List.cons_ne_nil _ _

/-- Signs and digits are no separators. -/
theorem JsonInt.plain {s : Bytes} {n : Int} (h : JsonInt s n) {c : UInt8} (hc : c ∈ s) :
    c ≠ 44 ∧ c ≠ 91 ∧ c ≠ 93 ∧ isJsonSpace c = false ∧ isSpace c = false := by
  have hdigit : isDigit c = true ∨ c = 45 := by
    obtain ⟨ds, -, hdigits, ⟨rfl, -⟩ | ⟨rfl, -⟩⟩ := h.digits
    · exact Or.inl (hdigits c hc)
    · rcases List.mem_cons.1 hc with rfl | hc
      · exact Or.inr rfl
      · exact Or.inl (hdigits c hc)
  revert hdigit
  exact forall_byte (p := fun c => isDigit c = true ∨ c = 45 →
    c ≠ 44 ∧ c ≠ 91 ∧ c ≠ 93 ∧ isJsonSpace c = false ∧ isSpace c = false) (by decide +kernel) c

theorem stoll_of_jsonInt {s : Bytes} {n : Int} (h : JsonInt s n) : stoll s = some n := by
  have hspace : s.dropWhile isSpace = s := by
    cases s with
    | nil => rfl
    | cons c s =>
        have hc := (h.plain (c := c) List.mem_cons_self).2.2.2.2
        rw [List.dropWhile_cons_of_neg (by rw [hc]; exact Bool.false_ne_true)]
  obtain ⟨ds, hne, hdigits, hs⟩ := h.digits
  have htake : ds.takeWhile isDigit = ds := List.takeWhile_eq_self_iff.2 hdigits
  have hlow := h.lower
  have hhigh := h.upper
  rw [stoll, parseInteger, hspace, parseSigned]
  rcases hs with ⟨rfl, rfl⟩ | ⟨rfl, rfl⟩
  · have hsign : s.head? ≠ some 45 ∧ s.head? ≠ some 43 := by
      cases s with
      | nil => simp
      | cons c s =>
          have hc := hdigits c List.mem_cons_self
          constructor
          · rintro ⟨⟩
            cases hc
          · rintro ⟨⟩
            cases hc
    have hstrip : stripSign s = s := if_neg (not_or.2 hsign)
    simp only [hstrip, htake, if_neg hne, if_neg hsign.1, if_pos (And.intro hlow hhigh)]
  · simp only [stripSign_neg, htake, if_neg hne, List.head?_cons, if_true,
      if_pos (And.intro hlow hhigh)]

/-! ## Reading the list -/

/-- What is trimmed is the white space of JSON. -/
theorem trim_jsonSpace (s : Bytes) :
    trim s = ((s.dropWhile isJsonSpace).reverse.dropWhile isJsonSpace).reverse := by
  have hblank : (fun c : UInt8 => decide (c = 32 ∨ c = 9 ∨ c = 10 ∨ c = 13)) = isJsonSpace := by
    funext c
    simp [isJsonSpace, Bool.or_assoc]
  rw [trim, hblank]

theorem trim_space {u : Bytes} (hu : JsonSpace u) : trim u = [] := by
  rw [trim_jsonSpace, List.dropWhile_eq_nil_iff.2 hu]
  rfl

/-- Neither end of an integer is white space. -/
theorem dropWhile_digits {s t : Bytes} {n : Int} (hs : JsonInt s n) (ht : ∀ c ∈ t, c ∈ s)
    (hne : t ≠ []) (w : Bytes) : (t ++ w).dropWhile isJsonSpace = t ++ w := by
  cases t with
  | nil => exact absurd rfl hne
  | cons c t =>
      have hc := (hs.plain (ht c List.mem_cons_self)).2.2.2.1
      rw [List.cons_append, List.dropWhile_cons_of_neg (by rw [hc]; exact Bool.false_ne_true)]

theorem trim_padded {u s v : Bytes} {n : Int} (hu : JsonSpace u) (hs : JsonInt s n)
    (hv : JsonSpace v) : trim (u ++ (s ++ v)) = s := by
  have hback : ∀ c ∈ v.reverse, isJsonSpace c = true := fun c hc => hv c (List.mem_reverse.1 hc)
  have hreverse := dropWhile_digits hs (t := s.reverse) (fun c hc => List.mem_reverse.1 hc)
    (List.reverse_eq_nil_iff.not.2 hs.ne_nil) []
  rw [List.append_nil] at hreverse
  rw [trim_jsonSpace, List.dropWhile_append_of_pos hu,
    dropWhile_digits hs (fun c hc => hc) hs.ne_nil, List.reverse_append,
    List.dropWhile_append_of_pos hback, hreverse, List.reverse_reverse]

/-- The ids between the commas of a text without brackets. -/
def readIds (numbers : Bytes) : Option (List Int) :=
  (((getFields 44 numbers).map trim).filter fun s => s ≠ []).mapM stoll

/-- The two texts that are looked for at first need no reading of their own. -/
theorem parseFailureIdsJson_eq (json : Bytes) :
    parseFailureIdsJson json = readIds (json.filter fun c => c ≠ 91 ∧ c ≠ 93) := by
  rw [parseFailureIdsJson]
  split
  · next h =>
      rcases h with rfl | rfl
      · rfl
      · rfl
  · rfl

theorem readIds_space {u : Bytes} (hu : JsonSpace u) : readIds u = some [] := by
  have hcomma : 44 ∉ u := fun h => absurd (hu 44 h) (by decide)
  rw [readIds]
  by_cases hnil : u = []
  · rw [hnil]
    rfl
  · rw [getFields_of_notMem hcomma hnil, List.map_singleton, trim_space hu]
    rfl

/-- The first element of a list is read by itself. -/
theorem readIds_cons {u s v rest : Bytes} {n : Int} (hu : JsonSpace u) (hs : JsonInt s n)
    (hv : JsonSpace v) :
    readIds (u ++ (s ++ (v ++ 44 :: rest))) = (readIds rest).map (n :: ·) := by
  have hcomma : 44 ∉ u ++ (s ++ v) := by
    rw [List.mem_append, List.mem_append, not_or, not_or]
    exact ⟨fun h => absurd (hu 44 h) (by decide), fun h => (hs.plain h).1 rfl,
      fun h => absurd (hv 44 h) (by decide)⟩
  have hpieces : u ++ (s ++ (v ++ 44 :: rest)) = (u ++ (s ++ v)) ++ 44 :: rest := by
    rw [List.append_assoc, List.append_assoc]
  rw [hpieces, readIds, getFields_append_delim hcomma, List.map_cons, trim_padded hu hs hv,
    List.filter_cons_of_pos (by simpa using hs.ne_nil), List.mapM_cons, stoll_of_jsonInt hs,
    readIds]
  cases (((getFields 44 rest).map trim).filter fun s => s ≠ []).mapM stoll with
  | none => rfl
  | some ns => rfl

theorem readIds_last {u s v : Bytes} {n : Int} (hu : JsonSpace u) (hs : JsonInt s n)
    (hv : JsonSpace v) : readIds (u ++ (s ++ v)) = some [n] := by
  have hcomma : 44 ∉ u ++ (s ++ v) := by
    rw [List.mem_append, List.mem_append, not_or, not_or]
    exact ⟨fun h => absurd (hu 44 h) (by decide), fun h => (hs.plain h).1 rfl,
      fun h => absurd (hv 44 h) (by decide)⟩
  have hne : u ++ (s ++ v) ≠ [] := by simp [hs.ne_nil]
  rw [readIds, getFields_of_notMem hcomma hne, List.map_singleton, trim_padded hu hs hv,
    List.filter_cons_of_pos (by simpa using hs.ne_nil), List.mapM_cons, stoll_of_jsonInt hs]
  rfl

theorem JsonSpace.append {u v : Bytes} (hu : JsonSpace u) (hv : JsonSpace v) :
    JsonSpace (u ++ v) := fun c hc => (List.mem_append.1 hc).elim (hu c) (hv c)

/-- White space around the elements belongs to the first and the last of them. -/
theorem readIds_elements {s : Bytes} {ns : List Int} (h : JsonElements s ns) {u v : Bytes}
    (hu : JsonSpace u) (hv : JsonSpace v) : readIds (u ++ (s ++ v)) = some ns := by
  induction h generalizing u with
  | @last u' s v' n hu' hs hv' =>
      have hpieces : u ++ ((u' ++ (s ++ v')) ++ v) = (u ++ u') ++ (s ++ (v' ++ v)) := by
        simp only [List.append_assoc]
      rw [hpieces]
      exact readIds_last (hu.append hu') hs (hv'.append hv)
  | @cons u' s v' rest n ns hu' hs hv' hrest ih =>
      have hpieces : u ++ ((u' ++ (s ++ (v' ++ 44 :: rest))) ++ v) =
          (u ++ u') ++ (s ++ (v' ++ 44 :: (rest ++ v))) := by
        simp only [List.append_assoc, List.cons_append]
      have hempty : readIds ([] ++ (rest ++ v)) = some ns :=
        ih fun c hc => absurd hc List.not_mem_nil
      rw [List.nil_append] at hempty
      rw [hpieces, readIds_cons (hu.append hu') hs hv', hempty]
      rfl

/-- Brackets stand at the ends only. -/
theorem filter_brackets {s : Bytes} (h : ∀ c ∈ s, c ≠ 91 ∧ c ≠ 93) :
    (s.filter fun c => c ≠ 91 ∧ c ≠ 93) = s :=
  List.filter_eq_self.2 fun c hc => decide_eq_true (h c hc)

theorem JsonSpace.noBrackets {u : Bytes} (hu : JsonSpace u) : ∀ c ∈ u, c ≠ 91 ∧ c ≠ 93 := by
  intro c hc
  have hspace := hu c hc
  constructor
  · rintro rfl
    cases hspace
  · rintro rfl
    cases hspace

theorem JsonInt.noBrackets {s : Bytes} {n : Int} (h : JsonInt s n) : ∀ c ∈ s, c ≠ 91 ∧ c ≠ 93 :=
  fun _ hc => ⟨(h.plain hc).2.1, (h.plain hc).2.2.1⟩

theorem JsonElements.noBrackets {s : Bytes} {ns : List Int} (h : JsonElements s ns) :
    ∀ c ∈ s, c ≠ 91 ∧ c ≠ 93 := by
  induction h with
  | last hu hs hv =>
      intro c hc
      rcases List.mem_append.1 hc with hc | hc
      · exact hu.noBrackets c hc
      · rcases List.mem_append.1 hc with hc | hc
        · exact hs.noBrackets c hc
        · exact hv.noBrackets c hc
  | cons hu hs hv hrest ih =>
      intro c hc
      rcases List.mem_append.1 hc with hc | hc
      · exact hu.noBrackets c hc
      · rcases List.mem_append.1 hc with hc | hc
        · exact hs.noBrackets c hc
        · rcases List.mem_append.1 hc with hc | hc
          · exact hv.noBrackets c hc
          · rcases List.mem_cons.1 hc with rfl | hc
            · decide
            · exact ih c hc

theorem filter_array {u s v : Bytes} (hu : ∀ c ∈ u, c ≠ 91 ∧ c ≠ 93)
    (hs : ∀ c ∈ s, c ≠ 91 ∧ c ≠ 93) (hv : ∀ c ∈ v, c ≠ 91 ∧ c ≠ 93) :
    ((u ++ 91 :: (s ++ 93 :: v)).filter fun c => c ≠ 91 ∧ c ≠ 93) = u ++ (s ++ v) := by
  rw [List.filter_append, filter_brackets hu, List.filter_cons_of_neg (by decide),
    List.filter_append, filter_brackets hs, List.filter_cons_of_neg (by decide),
    filter_brackets hv]

theorem parseFailureIdsJson_array {text : Bytes} {ns : List Int} (h : JsonArray text ns) :
    parseFailureIdsJson text = some ns := by
  rw [parseFailureIdsJson_eq]
  cases h with
  | empty hu hw hv =>
      rw [filter_array hu.noBrackets hw.noBrackets hv.noBrackets]
      exact readIds_space (hu.append (hw.append hv))
  | elements hu hs hv =>
      rw [filter_array hu.noBrackets hs.noBrackets hv.noBrackets]
      exact readIds_elements hs hu hv

/-! ## What is written -/

theorem jsonInt_decimal (id : Int64) : JsonInt (decimal id.toInt) id.toInt where
  digits := by
    cases id.toInt with
    | ofNat n =>
        exact ⟨natDecimal n, natDecimal_ne_nil n, fun _ hc => isDigit_of_mem_natDecimal hc,
          Or.inl ⟨rfl, by rw [digitsValue_natDecimal]; rfl⟩⟩
    | negSucc n =>
        exact ⟨natDecimal (n + 1), natDecimal_ne_nil _, fun _ hc => isDigit_of_mem_natDecimal hc,
          Or.inr ⟨rfl, by rw [digitsValue_natDecimal]; rfl⟩⟩
  lower := id.le_toInt
  upper := by
    have hlt := id.toInt_lt
    omega

theorem jsonElements_intercalate (id : Int64) (ids : List Int64) :
    JsonElements ([44].intercalate ((id :: ids).map fun i => decimal i.toInt))
      ((id :: ids).map Int64.toInt) := by
  have hnone : JsonSpace [] := fun c hc => absurd hc List.not_mem_nil
  induction ids generalizing id with
  | nil =>
      have hlast := JsonElements.last hnone (jsonInt_decimal id) hnone
      simpa using hlast
  | cons next ids ih =>
      have hcons := JsonElements.cons hnone (jsonInt_decimal id) hnone (ih next)
      simpa [List.intercalate_cons_cons] using hcons

theorem jsonArray_failureIdsToJson (ids : List Int64) :
    JsonArray (failureIdsToJson ids) (ids.map Int64.toInt) := by
  have hnone : JsonSpace [] := fun c hc => absurd hc List.not_mem_nil
  cases ids with
  | nil => exact JsonArray.empty hnone hnone hnone
  | cons id ids => exact JsonArray.elements hnone (jsonElements_intercalate id ids) hnone

/-- What is written is read back, and so is every other array of integers. -/
theorem failureIds_read :
    (∀ ids : List Int64, parseFailureIdsJson (failureIdsToJson ids) = some (ids.map Int64.toInt)) ∧
      ∀ (text : Bytes) (ns : List Int), JsonArray text ns → parseFailureIdsJson text = some ns :=
  ⟨fun ids => parseFailureIdsJson_array (jsonArray_failureIdsToJson ids),
    fun _ _ h => parseFailureIdsJson_array h⟩

theorem failureIds_read_spaced :
    parseFailureIdsJson (failureIdsToJson [7, -12]) = some [7, -12] ∧
      parseFailureIdsJson (bytes " [ 7 ,-12\n]") = some [7, -12] := by
  have hseven : JsonInt (bytes "7") 7 :=
    ⟨⟨bytes "7", by decide, by decide, Or.inl ⟨rfl, rfl⟩⟩, by decide, by decide⟩
  have htwelve : JsonInt (bytes "-12") (-12) :=
    ⟨⟨bytes "12", by decide, by decide, Or.inr ⟨rfl, rfl⟩⟩, by decide, by decide⟩
  have helements : JsonElements (bytes " 7 ,-12\n") [7, -12] :=
    JsonElements.cons (u := bytes " ") (v := bytes " ") (by decide) hseven (by decide)
      (JsonElements.last (u := []) (v := bytes "\n") (by decide) htwelve (by decide))
  exact ⟨failureIds_read.1 [7, -12], failureIds_read.2 _ _
    (JsonArray.elements (u := bytes " ") (v := []) (by decide) helements (by decide))⟩

end Nazg.Brain
