import Mathlib.Data.Set.Finite.Lemmas
import Nazg.Brain.PatternMatcher

/-!
# Which stored patterns are found

A failure is looked up in a listing of the patterns of its project. The listing does not
select the regular expressions, so none of them is ever tried: a pattern is found by its
signature or not at all, and only if it is among the thousand most frequent.

`lookupComplete_iff` says when that makes no difference.
-/

namespace Nazg.Brain

open Lib Lib.Sqlite Nexus

section

variable (engine : RegexEngine) (read : Bool) (projectId : Int64)
  (errorSignature failureType errorMessage : Bytes) (db : BrainDb)

/-- A stored pattern that a failure is to be matched with. -/
def Expected (r : PatternRow) : Prop :=
  r.projectId = projectId ∧ r.failureType.bytes = failureType ∧
    (r.patternSignature.bytes = errorSignature ∨
      matchesErrorPattern engine errorMessage r.errorRegex.bytes = true)

/-- Exactly these are returned, in whatever order the engine finds the rows. -/
def LookupComplete : Prop :=
  ∀ o : RowOrder, ∃ ps, findMatchingPatterns engine o read projectId errorSignature failureType
    errorMessage db = some ps ∧
    ∀ id, id ∈ ps.map Pattern.id ↔
      ∃ r, (id, r) ∈ db.patterns.table.rows ∧
        Expected engine projectId errorSignature failureType errorMessage r

/-- The patterns of the project. -/
def projectRows : List (Int × PatternRow) :=
  db.patterns.table.rows.filter fun x => x.2.projectId = projectId

/-- The patterns that occurred at least as often, and those that occurred more often. -/
def atLeast (r : PatternRow) : Nat :=
  (projectRows projectId db).countP fun x => r.occurrenceCount ≤ x.2.occurrenceCount

def moreThan (r : PatternRow) : Nat :=
  (projectRows projectId db).countP fun x => r.occurrenceCount < x.2.occurrenceCount

/-- What has to hold of the stored patterns. -/
structure Findable : Prop where
  /-- The counts fit an `int`. -/
  countsFit : read = true → ∀ x ∈ projectRows projectId db, x.2.occurrenceCount < 2 ^ 31
  /-- No regular expression is needed. -/
  bySignature : ∀ x ∈ projectRows projectId db,
    Expected engine projectId errorSignature failureType errorMessage x.2 →
      x.2.patternSignature.bytes = errorSignature
  /-- The rows can be read, and the pattern is among the most frequent. -/
  listed : ∀ x ∈ projectRows projectId db,
    Expected engine projectId errorSignature failureType errorMessage x.2 →
      read = true ∧ atLeast projectId db x.2 ≤ 1000
  /-- Without a type no pattern of another type has the signature, as far as it is listed. -/
  typed : failureType = [] → read = true → ∀ x ∈ projectRows projectId db,
    x.2.patternSignature.bytes = errorSignature → x.2.failureType.bytes ≠ [] →
      1000 ≤ moreThan projectId db x.2

end

/-! ## The listing -/

/-- A pattern as a listing has it. -/
def listed (x : Int × PatternRow) : Pattern where
  id := x.1
  signature := x.2.patternSignature.bytes
  name := x.2.patternName.bytes
  failureType := x.2.failureType.bytes
  errorRegex := []
  occurrenceCount := x.2.occurrenceCount
  firstSeen := x.2.firstSeen.toInt
  lastSeen := x.2.lastSeen.toInt
  failureIds := []
  triggerConditionsJson := []
  resolutionStrategiesJson := []

/-- A conversion of all the rows of a result. -/
theorem mapM_eq_ite {α β : Type} {f : α → Option β} {g : α → β} {p : α → Prop} [DecidablePred p]
    (l : List α) (h : ∀ x, f x = if p x then some (g x) else none) :
    l.mapM f = if ∀ x ∈ l, p x then some (l.map g) else none := by
  induction l with
  | nil => rfl
  | cons x l ih =>
      rw [List.mapM_cons, h, ih]
      by_cases hx : p x
      · by_cases hl : ∀ y ∈ l, p y
        · rw [if_pos hx, if_pos hl, if_pos (List.forall_mem_cons.2 ⟨hx, hl⟩)]
          rfl
        · rw [if_pos hx, if_neg hl, if_neg fun hall => hl (List.forall_mem_cons.1 hall).2]
          rfl
      · rw [if_neg hx, if_neg fun hall => hx (List.forall_mem_cons.1 hall).1]
        rfl

theorem parsePattern_listedPattern (x : Int × PatternRow) :
    parsePattern (listedPattern x) =
      if x.2.occurrenceCount < 2 ^ 31 then some (listed x) else none := by
  have hids : parseFailureIdsJson ((listedPattern x).failureIdsJson.getD []) = some [] := rfl
  have hcount : stoi (listedPattern x).occurrenceCount =
      if x.2.occurrenceCount < 2 ^ 31 then some (x.2.occurrenceCount : Int) else none :=
    stoi_decimal_natCast x.2.occurrenceCount
  rw [parsePattern, hcount, hids]
  by_cases hfits : x.2.occurrenceCount < 2 ^ 31
  · rw [if_pos hfits, if_pos hfits]
    rfl
  · rw [if_neg hfits, if_neg hfits]

section

variable {engine : RegexEngine} {read : Bool} {projectId : Int64}
  {errorSignature failureType errorMessage : Bytes} {db : BrainDb} {o : RowOrder}

theorem mapM_parsePattern {rows : List (Int × PatternRow)} :
    (rows.map listedPattern).mapM parsePattern =
      if ∀ x ∈ rows, x.2.occurrenceCount < 2 ^ 31 then some (rows.map listed) else none := by
  rw [List.mapM_map]
  exact mapM_eq_ite rows parsePattern_listedPattern

/-- The rows that a lookup goes over. -/
def lookedAt (o : RowOrder) (read : Bool) (projectId : Int64) (db : BrainDb) :
    List (Int × PatternRow) :=
  if read then listedRows o projectId 1000 db.patterns else []

/-- A row that a lookup returns. -/
def kept (errorSignature failureType : Bytes) (r : PatternRow) : Bool :=
  (failureType = [] || r.failureType.bytes = failureType) &&
    r.patternSignature.bytes = errorSignature

/-- The regular expressions are not there to be tried. -/
theorem findMatchingPatterns_eq :
    findMatchingPatterns engine o read projectId errorSignature failureType errorMessage db =
      if ∀ x ∈ lookedAt o read projectId db, x.2.occurrenceCount < 2 ^ 31 then
        some (((lookedAt o read projectId db).filter fun x =>
          kept errorSignature failureType x.2).map listed)
      else none := by
  have hrows : (if read then Nexus.listPatterns o projectId 1000 db.patterns else []) =
      (lookedAt o read projectId db).map listedPattern := by
    rw [lookedAt]
    split <;> rfl
  rw [findMatchingPatterns, PatternMatcher.listPatterns, hrows, mapM_parsePattern]
  split
  · rw [Option.map_some, List.filter_map]
    refine congrArg some (congrArg (List.map listed) (List.filter_congr fun x _ => ?_))
    rw [Bool.eq_iff_iff]
    simp only [Function.comp, kept, Bool.and_eq_true, Bool.or_eq_true, decide_eq_true_eq]
    simp [listed]
  · rfl

theorem mem_lookedAt {x : Int × PatternRow} (h : x ∈ lookedAt o read projectId db) :
    x ∈ projectRows projectId db := by
  rw [lookedAt] at h
  split at h
  · exact (o.orderBy_perm _ _).mem_iff.1 (List.mem_of_mem_take h)
  · cases h

theorem nodup_projectRows : (projectRows projectId db).Nodup := by
  refine List.Nodup.filter _ ?_
  exact (List.pairwise_map.1 db.patterns.wf.increasing).imp fun hlt heq =>
    absurd (congrArg Prod.fst heq) (ne_of_lt hlt)

/-- Which rows are looked at whatever the order of the rows. -/
theorem forall_mem_lookedAt {x : Int × PatternRow} (hx : x ∈ projectRows projectId db) :
    (∀ o, x ∈ lookedAt o read projectId db) ↔ read = true ∧ atLeast projectId db x.2 ≤ 1000 := by
  have hiff := RowOrder.forall_mem_take_iff
    (fun x : Int × PatternRow => -(x.2.occurrenceCount : Int)) nodup_projectRows hx 1000
  have hcount : (projectRows projectId db).countP (fun y =>
      -(y.2.occurrenceCount : Int) ≤ -(x.2.occurrenceCount : Int)) = atLeast projectId db x.2 := by
    refine List.countP_congr fun y _ => ?_
    simp
  rw [hcount] at hiff
  rw [← hiff]
  cases read with
  | false => simp [lookedAt]
  | true => simp [lookedAt, listedRows, projectRows]

/-- And which whatever the order are not. -/
theorem forall_notMem_lookedAt {x : Int × PatternRow} (hx : x ∈ projectRows projectId db) :
    (∀ o, x ∉ lookedAt o read projectId db) ↔
      (read = true → 1000 ≤ moreThan projectId db x.2) := by
  have hiff := RowOrder.forall_notMem_take_iff
    (fun x : Int × PatternRow => -(x.2.occurrenceCount : Int)) nodup_projectRows hx 1000
  have hcount : (projectRows projectId db).countP (fun y =>
      -(y.2.occurrenceCount : Int) < -(x.2.occurrenceCount : Int)) = moreThan projectId db x.2 := by
    refine List.countP_congr fun y _ => ?_
    simp
  rw [hcount] at hiff
  rw [← hiff]
  cases read with
  | false => simp [lookedAt]
  | true => simp [lookedAt, listedRows, projectRows]

/-- The most frequent pattern can always come first. -/
theorem exists_mem_lookedAt (hread : read = true) {x : Int × PatternRow}
    (hx : x ∈ projectRows projectId db)
    (hmost : ∀ y ∈ projectRows projectId db, y.2.occurrenceCount ≤ x.2.occurrenceCount) :
    ∃ o, x ∈ lookedAt o read projectId db := by
  by_contra hnone
  have hmore := (forall_notMem_lookedAt hx).1 (fun o ho => hnone ⟨o, ho⟩) hread
  have hzero : moreThan projectId db x.2 = 0 :=
    List.countP_eq_zero.2 fun y hy => by simpa using hmost y hy
  omega

/-- No lookup throws exactly if every count fits. -/
theorem forall_counts_iff :
    (∀ o, ∀ x ∈ lookedAt o read projectId db, x.2.occurrenceCount < 2 ^ 31) ↔
      (read = true → ∀ x ∈ projectRows projectId db, x.2.occurrenceCount < 2 ^ 31) := by
  constructor
  · intro h hread x hx
    obtain ⟨m, hm, hmost⟩ := Set.exists_max_image { y | y ∈ projectRows projectId db }
      (fun y => y.2.occurrenceCount) (List.finite_toSet _) ⟨x, hx⟩
    obtain ⟨o, ho⟩ := exists_mem_lookedAt hread hm hmost
    exact (hmost x hx).trans_lt (h o m ho)
  · intro h o x hx
    cases read with
    | false => simp [lookedAt] at hx
    | true => exact h rfl x (mem_lookedAt hx)

/-- The same row by row. -/
theorem lookupComplete_iff_forall :
    LookupComplete engine read projectId errorSignature failureType errorMessage db ↔
      (∀ o, ∀ x ∈ lookedAt o read projectId db, x.2.occurrenceCount < 2 ^ 31) ∧
        ∀ o, ∀ x ∈ projectRows projectId db,
          (x ∈ lookedAt o read projectId db ∧ kept errorSignature failureType x.2 = true ↔
            Expected engine projectId errorSignature failureType errorMessage x.2) := by
  have hunique : ∀ {x y : Int × PatternRow}, x ∈ db.patterns.table.rows →
      y ∈ db.patterns.table.rows → x.1 = y.1 → x = y := by
    intro x y hx hy hid
    have hgx := Table.get?_of_mem db.patterns.wf hx
    have hgy := Table.get?_of_mem db.patterns.wf hy
    rw [hid] at hgx
    exact Prod.ext hid (Option.some.inj (hgx.symm.trans hgy))
  have hids : ∀ o, (∀ id, id ∈ (((lookedAt o read projectId db).filter fun x =>
      kept errorSignature failureType x.2).map listed).map Pattern.id ↔
        ∃ r, (id, r) ∈ db.patterns.table.rows ∧
          Expected engine projectId errorSignature failureType errorMessage r) ↔
      ∀ x ∈ projectRows projectId db,
        (x ∈ lookedAt o read projectId db ∧ kept errorSignature failureType x.2 = true ↔
          Expected engine projectId errorSignature failureType errorMessage x.2) := by
    intro o
    have hmem : ∀ id, id ∈ (((lookedAt o read projectId db).filter fun x =>
        kept errorSignature failureType x.2).map listed).map Pattern.id ↔
          ∃ x ∈ lookedAt o read projectId db,
            kept errorSignature failureType x.2 = true ∧ x.1 = id := by
      intro id
      simp only [List.map_map, List.mem_map, List.mem_filter, and_assoc]
      exact Iff.rfl
    simp only [hmem]
    constructor
    · intro h x hx
      have hrow := (List.mem_filter.1 hx).1
      constructor
      · rintro ⟨hlisted, hkept⟩
        obtain ⟨r, hr, hexpected⟩ := (h x.1).1 ⟨x, hlisted, hkept, rfl⟩
        rwa [hunique hrow hr rfl]
      · intro hexpected
        obtain ⟨y, hlisted, hkept, hid⟩ := (h x.1).2 ⟨x.2, hrow, hexpected⟩
        have heq := hunique (List.mem_filter.1 (mem_lookedAt hlisted)).1 hrow hid
        exact heq ▸ ⟨hlisted, hkept⟩
    · intro h id
      constructor
      · rintro ⟨x, hlisted, hkept, rfl⟩
        have hx := mem_lookedAt hlisted
        exact ⟨x.2, (List.mem_filter.1 hx).1, (h x hx).1 ⟨hlisted, hkept⟩⟩
      · rintro ⟨r, hr, hexpected⟩
        have hx : (id, r) ∈ projectRows projectId db :=
          List.mem_filter.2 ⟨hr, decide_eq_true hexpected.1⟩
        obtain ⟨hlisted, hkept⟩ := (h _ hx).2 hexpected
        exact ⟨(id, r), hlisted, hkept, rfl⟩
  rw [LookupComplete, ← forall_and]
  refine forall_congr' fun o => ?_
  rw [findMatchingPatterns_eq, ← hids o]
  by_cases hcounts : ∀ x ∈ lookedAt o read projectId db, x.2.occurrenceCount < 2 ^ 31
  · rw [if_pos hcounts]
    constructor
    · rintro ⟨ps, hps, h⟩
      cases hps
      exact ⟨hcounts, h⟩
    · rintro ⟨-, h⟩
      exact ⟨_, rfl, h⟩
  · rw [if_neg hcounts]
    constructor
    · rintro ⟨ps, hps, -⟩
      cases hps
    · rintro ⟨h, -⟩
      exact absurd h hcounts

end

/-- A lookup returns what it is to return exactly under these conditions. -/
theorem lookupComplete_iff (engine : RegexEngine) (read : Bool) (projectId : Int64)
    (errorSignature failureType errorMessage : Bytes) (db : BrainDb) :
    LookupComplete engine read projectId errorSignature failureType errorMessage db ↔
      Findable engine read projectId errorSignature failureType errorMessage db := by
  have hkept : ∀ r : PatternRow, kept errorSignature failureType r = true ↔
      (failureType = [] ∨ r.failureType.bytes = failureType) ∧
        r.patternSignature.bytes = errorSignature := by
    intro r
    simp [kept]
  rw [lookupComplete_iff_forall, forall_counts_iff]
  constructor
  · rintro ⟨hcounts, hrows⟩
    refine ⟨hcounts, fun x hx hexpected => ?_, fun x hx hexpected => ?_, ?_⟩
    · exact ((hkept _).1 ((hrows .byId x hx).2 hexpected).2).2
    · exact (forall_mem_lookedAt hx).1 fun o => ((hrows o x hx).2 hexpected).1
    · intro htype hread x hx hsignature hother
      refine (forall_notMem_lookedAt hx).1 (fun o ho => ?_) hread
      have hexpected := (hrows o x hx).1 ⟨ho, (hkept _).2 ⟨.inl htype, hsignature⟩⟩
      exact hother (hexpected.2.1.trans htype)
  · intro h
    refine ⟨h.countsFit, fun o x hx => ?_⟩
    constructor
    · rintro ⟨hlisted, hk⟩
      obtain ⟨htype, hsignature⟩ := (hkept _).1 hk
      have hproject : x.2.projectId = projectId := by simpa using (List.mem_filter.1 hx).2
      have hread : read = true := by
        cases read with
        | false => simp [lookedAt] at hlisted
        | true => rfl
      refine ⟨hproject, ?_, .inl hsignature⟩
      rcases htype with htype | htype
      · by_contra hother
        have hmore := h.typed htype hread x hx hsignature (htype ▸ hother)
        exact (forall_notMem_lookedAt hx).2 (fun _ => hmore) o hlisted
      · exact htype
    · intro hexpected
      refine ⟨(forall_mem_lookedAt hx).2 (h.listed x hx hexpected) o, (hkept _).2 ?_⟩
      exact ⟨.inr hexpected.2.1, h.bySignature x hx hexpected⟩

/-! ## A pattern with a regular expression -/

/-- An engine that reads a pattern of plain characters. -/
def plainEngine : RegexEngine := fun pattern text =>
  some (find (pattern.map lowerByte) (text.map lowerByte)).isSome

def linkerPattern : PatternRow where
  projectId := 1
  patternSignature := .ofCStr (bytes "5bacc06637e5da59")
  patternName := .ofCStr (bytes "Undefined Reference")
  failureType := .ofCStr (bytes "link")
  errorRegex := .ofCStr (bytes "undefined reference")
  triggerConditionsJson := .ofCStr (bytes "\x7b\x7d")
  firstSeen := 1700000000
  lastSeen := 1700000000

def linkerDb : BrainDb where
  failures := .empty
  patterns :=
    { table := Table.empty.insertRow linkerPattern
      wf := Table.wf_empty.insertRow _
      unique := List.pairwise_singleton _ _ }
  failuresWf := Table.wf_empty

/-- It is not found by its regular expression. -/
theorem regex_not_found : ¬ LookupComplete plainEngine true 1 (bytes "0") (bytes "link")
    (bytes "main.o: undefined reference to f") linkerDb := by
  intro h
  have hrows := (lookupComplete_iff_forall.1 h).2 .byId (1, linkerPattern) List.mem_cons_self
  have hexpected : Expected plainEngine 1 (bytes "0") (bytes "link")
      (bytes "main.o: undefined reference to f") linkerPattern :=
    ⟨rfl, by decide +kernel, .inr (by decide +kernel)⟩
  have hkept : kept (bytes "0") (bytes "link") linkerPattern = false := by decide +kernel
  rw [← hrows] at hexpected
  exact absurd hexpected.2 (by rw [hkept]; exact Bool.false_ne_true)

end Nazg.Brain
