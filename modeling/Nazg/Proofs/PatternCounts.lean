import Mathlib.Algebra.Order.Ring.Unbundled.Rat
import Nazg.Brain.Learner
import Nazg.Proofs.PatternLookup

/-!
# What a pattern knows of its failures

A pattern is made of at least three failures, and its count begins at one. The ids of the
failures are not stored at all: the column is there and `parse_pattern` reads it, but
linking a failure to a pattern writes the time and nothing else. So from the moment there
is a pattern its count is short of at least two, and its list is empty.

`patterns_fall_short` is about whole runs of `record_failure`; a history variable has
the failures that count for each pattern.
-/

namespace Nazg.Brain

open Lib Lib.Sqlite Nexus

/-! ## What a statement does to the patterns -/

/-- A pattern without its texts and times. -/
structure PatternCore where
  id : Int
  projectId : Int64
  signature : Text
  count : Nat
  failureIdsJson : Option Text

def core (x : Int × PatternRow) : PatternCore :=
  ⟨x.1, x.2.projectId, x.2.patternSignature, x.2.occurrenceCount, x.2.failureIdsJson⟩

def cores (ps : Patterns) : List PatternCore := ps.table.rows.map core

def bump (id : Int) (delta : Nat) (c : PatternCore) : PatternCore :=
  if c.id = id then { c with count := c.count + delta } else c

theorem bump_zero (id : Int) : bump id 0 = fun c => c := by
  funext c
  rw [bump]
  split <;> rfl

theorem cores_updatePatternStatistics (now : Int64) (id : Int) (delta : Nat) (ps : Patterns) :
    cores (updatePatternStatistics now id delta ps) = (cores ps).map (bump id delta) := by
  simp only [cores, updatePatternStatistics, Table.updateRow, List.map_map]
  refine List.map_congr_left fun x _ => ?_
  by_cases h : x.1 = id
  · simp only [Function.comp, core, bump, if_pos h]
    exact (if_pos h).symm
  · simp only [Function.comp, core, bump, if_neg h]
    exact (if_neg h).symm

/-- The pattern of a signature. -/
def IsPatternOf (projectId : Int64) (signature : Bytes) (c : PatternCore) : Prop :=
  c.projectId = projectId ∧ c.signature = Text.ofCStr signature

theorem hasSignature_iff {projectId : Int64} {signature : Bytes} {x : Int × PatternRow} :
    hasSignature projectId signature x.2 = true ↔ IsPatternOf projectId signature (core x) := by
  simp [hasSignature, IsPatternOf, core]

/-- A signature has one pattern. -/
theorem unique_patternOf {ps : Patterns} {projectId : Int64} {signature : Bytes}
    {c e : PatternCore} (hc : c ∈ cores ps) (he : e ∈ cores ps)
    (hpc : IsPatternOf projectId signature c) (hpe : IsPatternOf projectId signature e) : c = e := by
  obtain ⟨x, hx, rfl⟩ := List.mem_map.1 hc
  obtain ⟨y, hy, rfl⟩ := List.mem_map.1 he
  by_contra hne
  have hxy : x ≠ y := fun h => hne (h ▸ rfl)
  have hrows := List.pairwise_map.1 ps.unique
  have hsymm : Std.Symm fun x y : Int × PatternRow =>
      ¬ (x.2.projectId = y.2.projectId ∧ x.2.patternSignature = y.2.patternSignature) :=
    ⟨fun _ _ h h' => h ⟨h'.1.symm, h'.2.symm⟩⟩
  exact hrows.forall hx hy hxy ⟨hpc.1.trans hpe.1.symm, hpc.2.trans hpe.2.symm⟩

/-- The first pattern of a run of this signature. -/
def newCore (projectId : Int64) (signature : Bytes) (ps : Patterns) : PatternCore :=
  ⟨ps.table.lastId + 1, projectId, .ofCStr signature, 1, none⟩

/-- What a step may do to the patterns of a signature: nothing, count one failure more, or
make a pattern where there is none. -/
inductive Counts (projectId : Int64) (signature : Bytes) (ps : Patterns) :
    List PatternCore → Prop where
  | unchanged : Counts projectId signature ps (cores ps)
  | bumped (c : PatternCore) (hc : c ∈ cores ps) (hp : IsPatternOf projectId signature c) :
      Counts projectId signature ps ((cores ps).map (bump c.id 1))
  | created (hnone : ∀ c ∈ cores ps, ¬ IsPatternOf projectId signature c) :
      Counts projectId signature ps (cores ps ++ [newCore projectId signature ps])

theorem cores_updatePatternStats (host : LearnHost) (id : Int) (db : BrainDb) :
    cores (updatePatternStats host id db).patterns = cores db.patterns ∨
      cores (updatePatternStats host id db).patterns = (cores db.patterns).map (bump id 1) := by
  rw [updatePatternStats]
  split
  · exact .inr (cores_updatePatternStatistics _ _ _ _)
  · exact .inl rfl

/-- Linking a failure changes no count. -/
theorem cores_linkFailureToPattern (host : LearnHost) (failureId id : Int) (db : BrainDb) :
    cores (linkFailureToPattern host failureId id db).patterns = cores db.patterns := by
  rw [linkFailureToPattern]
  split
  · exact (cores_updatePatternStatistics _ _ _ _).trans (by rw [bump_zero, List.map_id'])
  · rfl

theorem failures_linkFailureToPattern (host : LearnHost) (failureId id : Int) (db : BrainDb) :
    (linkFailureToPattern host failureId id db).failures = db.failures := by
  rw [linkFailureToPattern]
  split <;> rfl

theorem failures_updatePatternStats (host : LearnHost) (id : Int) (db : BrainDb) :
    (updatePatternStats host id db).failures = db.failures := by
  rw [updatePatternStats]
  split <;> rfl

theorem linkAll (host : LearnHost) (ids : List Int) (id : Int) (db : BrainDb) :
    cores (ids.foldl (fun db i => linkFailureToPattern host i id db) db).patterns =
        cores db.patterns ∧
      (ids.foldl (fun db i => linkFailureToPattern host i id db) db).failures = db.failures := by
  induction ids generalizing db with
  | nil => exact ⟨rfl, rfl⟩
  | cons i ids ih =>
      obtain ⟨hcores, hfailures⟩ := ih (linkFailureToPattern host i id db)
      exact ⟨hcores.trans (cores_linkFailureToPattern _ _ _ _),
        hfailures.trans (failures_linkFailureToPattern _ _ _ _)⟩

/-- The pattern that is looked up by a signature. -/
theorem getPatternBySignature_eq_some {projectId : Int64} {signature : Bytes} {ps : Patterns}
    {m : PatternMap} (h : getPatternBySignature projectId signature ps = some m) :
    ∃ c ∈ cores ps, IsPatternOf projectId signature c ∧ c.id = m.id := by
  obtain ⟨x, hx, rfl⟩ := Option.map_eq_some_iff.1 h
  have hmem := List.mem_of_find?_eq_some hx
  have hsig := List.find?_some hx
  exact ⟨core x, List.mem_map_of_mem hmem, hasSignature_iff.1 hsig, rfl⟩

theorem id_of_parsePattern {m : PatternMap} {p : Pattern} (h : parsePattern m = some p) :
    p.id = m.id := by
  rw [parsePattern] at h
  split at h
  · cases h
    rfl
  · cases h

theorem cores_recordPattern (now projectId : Int64) (signature : Bytes) (ps : Patterns)
    {name type regex trigger : Bytes} :
    let r := recordPattern now projectId signature name type regex trigger ps
    (∃ c ∈ cores ps, IsPatternOf projectId signature c) ∧ r = (0, ps) ∨
      (∀ c ∈ cores ps, ¬ IsPatternOf projectId signature c) ∧ r.1 = ps.table.lastId + 1 ∧
        cores r.2 = cores ps ++ [newCore projectId signature ps] := by
  have hclash : (∃ r ∈ ps.table.data, hasSignature projectId signature r = true) ↔
      ∃ c ∈ cores ps, IsPatternOf projectId signature c := by
    simp only [Table.data, cores, List.mem_map]
    constructor
    · rintro ⟨_, ⟨x, hx, rfl⟩, hsig⟩
      exact ⟨core x, ⟨x, hx, rfl⟩, hasSignature_iff.1 hsig⟩
    · rintro ⟨_, ⟨x, hx, rfl⟩, hp⟩
      exact ⟨x.2, ⟨x, hx, rfl⟩, hasSignature_iff.2 hp⟩
  dsimp only
  rw [recordPattern]
  split
  · next h => exact .inl ⟨hclash.1 h, rfl⟩
  · next h =>
      refine .inr ⟨fun c hc hp => h (hclash.2 ⟨c, hc, hp⟩), rfl, ?_⟩
      simp only [cores, Table.insertRow, List.map_append, List.map_singleton]
      rfl

/-- Learning a pattern from failures of a signature. -/
theorem counts_learnPattern (host : LearnHost) (projectId : Int64) {ids : List Int} {db : BrainDb}
    {signature : Bytes} (hids : ∀ id ∈ ids, ∀ f, getFailure id db.failures = some f →
      Text.ofCStr f.errorSignature = Text.ofCStr signature) :
    Counts projectId signature db.patterns
        (cores (learnPattern host projectId ids db).2.patterns) ∧
      (learnPattern host projectId ids db).2.failures = db.failures := by
  have hunchanged : Counts projectId signature db.patterns (cores db.patterns) ∧
      db.failures = db.failures := ⟨.unchanged, rfl⟩
  rw [learnPattern]
  dsimp only
  split
  · exact hunchanged
  · next first hfirst =>
      have hsignature : Text.ofCStr first.errorSignature = Text.ofCStr signature := by
        obtain ⟨id, hid, hread⟩ := Option.bind_eq_some_iff.1 hfirst
        split at hread
        · exact hids id (List.mem_of_mem_head? hid) first hread
        · cases hread
      have hpattern : ∀ c, IsPatternOf projectId first.errorSignature c ↔
          IsPatternOf projectId signature c := by
        intro c
        rw [IsPatternOf, IsPatternOf, hsignature]
      split
      · exact hunchanged
      · next p hexisting =>
          obtain ⟨m, hm, hparse⟩ := Option.map_eq_some_iff.1 hexisting
          have hread : getPatternBySignature projectId first.errorSignature db.patterns = some m := by
            split at hm
            · exact hm
            · cases hm
          obtain ⟨c, hc, hp, hid⟩ := getPatternBySignature_eq_some hread
          refine ⟨?_, failures_updatePatternStats _ _ _⟩
          rw [id_of_parsePattern hparse, ← hid]
          rcases cores_updatePatternStats host c.id db with heq | heq
          · rw [heq]
            exact .unchanged
          · rw [heq]
            exact .bumped c hc ((hpattern c).1 hp)
      · next hnone =>
          by_cases hrecorded : host.patternRecorded = true
          · rw [if_pos hrecorded]
            rcases cores_recordPattern host.now projectId first.errorSignature db.patterns with ⟨-, heq⟩ | ⟨hnew, hid, heq⟩
            · rw [heq]
              exact hunchanged
            · have hpos : 0 < db.patterns.table.lastId + 1 :=
                Int.lt_add_one_of_le db.patterns.wf.lastId_nonneg
              rw [if_pos (hid ▸ hpos)]
              refine ⟨?_, (linkAll _ _ _ _).2⟩
              rw [(linkAll _ _ _ _).1, heq]
              have hsame : newCore projectId first.errorSignature db.patterns =
                  newCore projectId signature db.patterns := by
                rw [newCore, newCore, hsignature]
              rw [hsame]
              exact .created fun c hc hp => hnew c hc ((hpattern c).2 hp)
          · rw [if_neg hrecorded]
            exact hunchanged

/-! ## Recording a failure -/

section

variable {d : Doubles} {engine : RegexEngine} {projectId : Int64}

/-- The recorded failures of a signature that are similar to a message. -/
def similarIds (d : Doubles) (projectId : Int64) (signature message : Bytes)
    (failures : Table FailureRow) : List Int :=
  (failures.rows.filter fun x => (x.2.projectId = projectId ∧
    x.2.errorSignature = Text.ofCStr signature) ∧
      d.half ≤ computeSimilarity d message x.2.errorMessage.bytes).map Prod.fst

/-- The code looks at twenty of them and takes ten. -/
theorem length_findSimilarFailures_le (d : Doubles) (projectId : Int64) (o : RowOrder)
    (read : Bool) (signature message : Bytes) (limit : Nat) (db : BrainDb) :
    (PatternMatcher.findSimilarFailures d o read projectId signature message limit db).length ≤
      (similarIds d projectId signature message db.failures).length := by
  rw [PatternMatcher.findSimilarFailures, List.length_take, (o.orderBy_perm _ _).length_eq]
  refine (min_le_right _ _).trans ?_
  rw [similarIds, List.length_map]
  cases read with
  | false => exact Nat.zero_le _
  | true =>
      rw [if_pos rfl, Nexus.findSimilarFailures, List.map_map, List.filter_map, List.length_map]
      refine ((List.take_sublist _ _).filter _).length_le.trans ?_
      rw [((o.orderBy_perm _ _).filter _).length_eq, List.filter_filter]
      refine le_of_eq (congrArg List.length (List.filter_congr fun x _ => ?_))
      rw [Bool.eq_iff_iff, Bool.and_eq_true, decide_eq_true_iff, decide_eq_true_iff]
      refine Iff.trans (and_congr_left' ?_) and_comm
      exact decide_eq_true_iff

theorem mem_findSimilarFailures {o : RowOrder} {read : Bool} {signature message : Bytes}
    {limit : Nat} {db : BrainDb} {f : SimilarFailure d.Score}
    (hf : f ∈ PatternMatcher.findSimilarFailures d o read projectId signature message limit db) :
    ∃ row, (f.failureId, row) ∈ db.failures.rows ∧ row.errorSignature = Text.ofCStr signature ∧
      f.wasResolved = row.resolved := by
  rw [PatternMatcher.findSimilarFailures] at hf
  have hmem := (List.mem_filter.1 ((o.orderBy_perm _ _).mem_iff.1 (List.mem_of_mem_take hf))).1
  cases read with
  | false => cases hmem
  | true =>
      rw [if_pos rfl, Nexus.findSimilarFailures, List.map_map] at hmem
      obtain ⟨x, hx, rfl⟩ := List.mem_map.1 hmem
      have hrow := List.mem_filter.1 ((o.orderBy_perm _ _).mem_iff.1 (List.mem_of_mem_take hx))
      have hboth := of_decide_eq_true hrow.2
      exact ⟨x.2, hrow.1, hboth.2, rfl⟩

/-- What recording a failure does: nothing, or it stores the failure, and if it changes the
patterns then for three similar failures. -/
theorem recordFailure_cases (d : Doubles) (engine : RegexEngine) (projectId : Int64)
    (host : RecordHost) (context : FailureContext) (db : BrainDb) :
    let signature := computeErrorSignature context.errorMessage
    let db' := (recordFailure d engine host projectId context db).2
    host.recorded = false ∧ db' = db ∨
      host.recorded = true ∧
        db'.failures = db.failures.insertRow (failureRow host.now projectId context) ∧
        (cores db'.patterns = cores db.patterns ∨
          3 ≤ (similarIds d projectId signature context.errorMessage db'.failures).length ∧
            Counts projectId signature db.patterns (cores db'.patterns)) := by
  dsimp only
  rw [recordFailure]
  by_cases hrecorded : host.recorded = true
  · refine .inr ⟨hrecorded, ?_⟩
    rw [if_neg (not_not.2 hrecorded)]
    dsimp only
    generalize hdb₁ : db.insertFailure (failureRow host.now projectId context) = db₁
    have hfailures : db₁.failures = db.failures.insertRow (failureRow host.now projectId context) := by
      rw [← hdb₁]
      rfl
    have hpatterns : db₁.patterns = db.patterns := by
      rw [← hdb₁]
      rfl
    rw [← hfailures, ← hpatterns]
    split
    · exact ⟨rfl, .inl rfl⟩
    · next hmany =>
        have hlength := length_findSimilarFailures_le d projectId host.order
          host.similarRead (computeErrorSignature context.errorMessage) context.errorMessage 10 db₁
        have hthree : 3 ≤ (similarIds d projectId (computeErrorSignature context.errorMessage)
            context.errorMessage db₁.failures).length := by omega
        split
        · exact ⟨rfl, .inl rfl⟩
        · next hmatches =>
            have hids : ∀ id ∈ (PatternMatcher.findSimilarFailures d host.order host.similarRead
                projectId (computeErrorSignature context.errorMessage) context.errorMessage 10
                  db₁).map SimilarFailure.failureId,
                ∀ f, getFailure id db₁.failures = some f → Text.ofCStr f.errorSignature =
                  Text.ofCStr (computeErrorSignature context.errorMessage) := by
              intro id hid f hf
              obtain ⟨s, hs, rfl⟩ := List.mem_map.1 hid
              obtain ⟨row, hrow, hsignature, -⟩ := mem_findSimilarFailures hs
              rw [getFailure, Table.get?_of_mem db₁.failuresWf hrow, Option.map_some] at hf
              cases hf
              rw [← hsignature]
              exact Text.ofCStr_self _
            have hlearn := counts_learnPattern host.toLearnHost projectId hids
            split
            · next hthrows =>
                rw [hthrows] at hlearn
                exact ⟨hlearn.2, .inr ⟨hlearn.2 ▸ hthree, hlearn.1⟩⟩
            · next hlearned =>
                rw [hlearned] at hlearn
                exact ⟨hlearn.2, .inr ⟨hlearn.2 ▸ hthree, hlearn.1⟩⟩
        · next p _ hmatches =>
            have hfound : ∃ c ∈ cores db₁.patterns,
                IsPatternOf projectId (computeErrorSignature context.errorMessage) c ∧
                  c.id = p.id := by
              rw [findMatchingPatterns_eq] at hmatches
              split at hmatches
              · have hp : p ∈ ((lookedAt host.order host.patternsRead projectId db₁).filter fun x =>
                    kept (computeErrorSignature context.errorMessage) context.failureType
                      x.2).map listed := by
                  rw [Option.some.inj hmatches]
                  exact List.mem_cons_self
                obtain ⟨x, hx, rfl⟩ := List.mem_map.1 hp
                obtain ⟨hlisted, hkept⟩ := List.mem_filter.1 hx
                obtain ⟨hrow, hproject⟩ := List.mem_filter.1 (mem_lookedAt hlisted)
                refine ⟨core x, List.mem_map_of_mem hrow, ⟨of_decide_eq_true hproject, ?_⟩, rfl⟩
                rw [kept, Bool.and_eq_true] at hkept
                have hsignature := of_decide_eq_true hkept.2
                show x.2.patternSignature = _
                rw [← hsignature]
                exact (Text.ofCStr_self _).symm
              · cases hmatches
            obtain ⟨c, hc, hp, hid⟩ := hfound
            have hfails : (linkFailureToPattern host.toLearnHost db₁.failures.lastId p.id
                (updatePatternStats host.toLearnHost p.id db₁)).failures = db₁.failures :=
              (failures_linkFailureToPattern _ _ _ _).trans (failures_updatePatternStats _ _ _)
            refine ⟨hfails, .inr ⟨hfails ▸ hthree, ?_⟩⟩
            rw [cores_linkFailureToPattern, ← hid]
            rcases cores_updatePatternStats host.toLearnHost c.id db₁ with heq | heq
            · rw [heq]
              exact .unchanged
            · rw [heq]
              exact .bumped c hc hp
  · refine .inl ⟨by simpa using hrecorded, ?_⟩
    rw [if_pos hrecorded]

/-! ## A run -/

/-- The database, and for each pattern the failures that count for it. -/
structure Learning where
  db : BrainDb
  counted : Int → List Int

/-- The pattern of a signature, by its id. -/
def patternId (projectId : Int64) (signature : Bytes) (ps : Patterns) : Option Int :=
  ((cores ps).find? fun c => c.projectId = projectId ∧
    c.signature = Text.ofCStr signature).map PatternCore.id

/-- When a pattern is made all failures that are similar to the one just recorded count for
it; from then on that one does, if three are similar. -/
def countedAfter (recorded : Bool) (similar : List Int) (failureId : Int)
    (counted : Int → List Int) : Option Int → Option Int → Int → List Int
  | none, some id => Function.update counted id similar
  | some id, _ =>
      if recorded ∧ 3 ≤ similar.length then
        Function.update counted id (counted id ++ [failureId])
      else counted
  | none, none => counted

/-- One more failure. -/
def learn (d : Doubles) (engine : RegexEngine) (projectId : Int64)
    (call : RecordHost × FailureContext) (s : Learning) : Learning :=
  let signature := computeErrorSignature call.2.errorMessage
  let db := (recordFailure d engine call.1 projectId call.2 s.db).2
  { db := db
    counted := countedAfter call.1.recorded
      (similarIds d projectId signature call.2.errorMessage db.failures) db.failures.lastId
      s.counted (patternId projectId signature s.db.patterns)
      (patternId projectId signature db.patterns) }

def emptyDb : BrainDb where
  failures := .empty
  patterns := ⟨.empty, Table.wf_empty, List.Pairwise.nil⟩
  failuresWf := Table.wf_empty

/-- A run of `record_failure`, the last call first. -/
def learnAll (d : Doubles) (engine : RegexEngine) (projectId : Int64) :
    List (RecordHost × FailureContext) → Learning
  | [] => ⟨emptyDb, fun _ => []⟩
  | call :: calls => learn d engine projectId call (learnAll d engine projectId calls)

/-- The count is that of the failures. -/
def CountsFailures (s : Learning) (c : PatternCore) : Prop := c.count = (s.counted c.id).length

/-- The list has their ids. -/
def ListsFailures (s : Learning) (c : PatternCore) : Prop :=
  ∃ ids, parseFailureIdsJson ((c.failureIdsJson.map Text.bytes).getD []) = some ids ∧
    ∀ i, i ∈ ids ↔ i ∈ s.counted c.id

/-- What is true of every pattern of a run. -/
structure FallsShort (s : Learning) (c : PatternCore) : Prop where
  noIds : c.failureIdsJson = none
  count : c.count + 2 ≤ (s.counted c.id).length
  nodup : (s.counted c.id).Nodup
  recorded : ∀ i ∈ s.counted c.id, i ≤ s.db.failures.lastId

theorem FallsShort.not_countsFailures {s : Learning} {c : PatternCore} (h : FallsShort s c) :
    ¬ CountsFailures s c := by
  intro heq
  have hcount := h.count
  rw [CountsFailures] at heq
  omega

theorem FallsShort.not_listsFailures {s : Learning} {c : PatternCore} (h : FallsShort s c) :
    ¬ ListsFailures s c := by
  rintro ⟨ids, hparse, hids⟩
  rw [h.noIds] at hparse
  have hempty : ids = [] := (Option.some.inj hparse).symm
  have hpos : 0 < (s.counted c.id).length := by
    have hcount := h.count
    omega
  obtain ⟨i, hi⟩ := List.exists_mem_of_length_pos hpos
  have hmem := (hids i).2 hi
  rw [hempty] at hmem
  cases hmem

theorem patternId_eq_some (projectId : Int64) (signature : Bytes) {ps : Patterns} {c : PatternCore} (hc : c ∈ cores ps)
    (hp : IsPatternOf projectId signature c) : patternId projectId signature ps = some c.id := by
  rw [patternId]
  cases hfind : (cores ps).find? fun c => c.projectId = projectId ∧
      c.signature = Text.ofCStr signature with
  | none => exact absurd (List.find?_eq_none.1 hfind c hc) (by simpa [IsPatternOf] using hp)
  | some e =>
      have he := List.mem_of_find?_eq_some hfind
      have hpe : IsPatternOf projectId signature e := by
        simpa [IsPatternOf] using List.find?_some hfind
      rw [unique_patternOf hc he hp hpe]
      rfl

theorem patternId_eq_none {ps : Patterns} {signature : Bytes} :
    patternId projectId signature ps = none ↔
      ∀ c ∈ cores ps, ¬ IsPatternOf projectId signature c := by
  rw [patternId, Option.map_eq_none_iff, List.find?_eq_none]
  simp [IsPatternOf]

theorem FallsShort.same {s s' : Learning} {c : PatternCore} (h : FallsShort s c)
    (hlast : s.db.failures.lastId ≤ s'.db.failures.lastId)
    (hcounted : s'.counted c.id = s.counted c.id) : FallsShort s' c := by
  refine ⟨h.noIds, ?_, ?_, fun i hi => ?_⟩
  · rw [hcounted]
    exact h.count
  · rw [hcounted]
    exact h.nodup
  · rw [hcounted] at hi
    exact (h.recorded i hi).trans hlast

/-- One failure more counts for the pattern. -/
theorem FallsShort.append {s s' : Learning} {c c' : PatternCore} (h : FallsShort s c)
    (hids : c'.failureIdsJson = c.failureIdsJson) (hcount : c'.count ≤ c.count + 1)
    (hlast : s'.db.failures.lastId = s.db.failures.lastId + 1)
    (hcounted : s'.counted c'.id = s.counted c.id ++ [s'.db.failures.lastId]) :
    FallsShort s' c' := by
  refine ⟨hids.trans h.noIds, ?_, ?_, fun i hi => ?_⟩
  · rw [hcounted, List.length_append, List.length_singleton]
    have hshort := h.count
    omega
  · rw [hcounted, List.nodup_append]
    refine ⟨h.nodup, List.nodup_singleton _, fun i hi j hj heq => ?_⟩
    have hle := h.recorded i hi
    rw [heq, List.mem_singleton.1 hj, hlast] at hle
    omega
  · rw [hcounted, List.mem_append, List.mem_singleton] at hi
    rcases hi with hi | rfl
    · have hle := h.recorded i hi
      omega
    · exact le_refl _

/-- A pattern that is made of at least three failures. -/
theorem FallsShort.of_created {db : BrainDb} {counted : Int → List Int} {c : PatternCore}
    {similar : List Int} (hids : c.failureIdsJson = none) (hcount : c.count = 1)
    (hthree : 3 ≤ similar.length) (hnodup : similar.Nodup)
    (hrecorded : ∀ i ∈ similar, i ≤ db.failures.lastId) :
    FallsShort ⟨db, Function.update counted c.id similar⟩ c := by
  have hcounted : Function.update counted c.id similar c.id = similar := Function.update_self _ _ _
  refine ⟨hids, ?_, ?_, ?_⟩
  · show c.count + 2 ≤ (Function.update counted c.id similar c.id).length
    rw [hcounted, hcount]
    exact hthree
  · show (Function.update counted c.id similar c.id).Nodup
    rw [hcounted]
    exact hnodup
  · show ∀ i ∈ Function.update counted c.id similar c.id, i ≤ db.failures.lastId
    rw [hcounted]
    exact hrecorded

theorem nodup_similarIds {signature message : Bytes} {failures : Table FailureRow}
    (hwf : failures.Wf) : (similarIds d projectId signature message failures).Nodup :=
  (hwf.increasing.imp ne_of_lt).sublist (List.filter_sublist.map _)

/-- A step that changes no count, whether or not it stores a failure. -/
theorem fallsShort_of_unchanged {s : Learning} {db : BrainDb} {recorded : Bool}
    {similar : List Int} {signature : Bytes} (h : ∀ c ∈ cores s.db.patterns, FallsShort s c)
    (hcores : cores db.patterns = cores s.db.patterns)
    (hlast : recorded = true → db.failures.lastId = s.db.failures.lastId + 1)
    (hle : s.db.failures.lastId ≤ db.failures.lastId) :
    ∀ c ∈ cores db.patterns, FallsShort ⟨db, countedAfter recorded similar db.failures.lastId
      s.counted (patternId projectId signature s.db.patterns)
      (patternId projectId signature db.patterns)⟩ c := by
  intro c hc
  rw [hcores] at hc
  have hsame : patternId projectId signature db.patterns =
      patternId projectId signature s.db.patterns := by rw [patternId, hcores, patternId]
  rw [hsame]
  cases patternId projectId signature s.db.patterns with
  | none => exact (h c hc).same hle rfl
  | some id =>
      rw [countedAfter]
      split
      · next hcounts =>
          by_cases hid : c.id = id
          · refine (h c hc).append rfl (Nat.le_succ _) (hlast hcounts.1) ?_
            rw [← hid]
            exact Function.update_self _ _ _
          · exact (h c hc).same hle (Function.update_of_ne hid _ _)
      · exact (h c hc).same hle rfl

/-- The step lemma. -/
theorem fallsShort_learn {s : Learning} (call : RecordHost × FailureContext)
    (h : ∀ c ∈ cores s.db.patterns, FallsShort s c) :
    ∀ c ∈ cores (learn d engine projectId call s).db.patterns,
      FallsShort (learn d engine projectId call s) c := by
  have hcases := recordFailure_cases d engine projectId call.1 call.2 s.db
  have hwf := (recordFailure d engine call.1 projectId call.2 s.db).2.failuresWf
  dsimp only at hcases
  simp only [learn]
  generalize computeErrorSignature call.2.errorMessage = signature at hcases ⊢
  generalize (recordFailure d engine call.1 projectId call.2 s.db).2 = db at hcases hwf ⊢
  rcases hcases with ⟨hrecorded, rfl⟩ | ⟨hrecorded, hfailures, hcores | ⟨hthree, hcounts⟩⟩
  · refine fallsShort_of_unchanged h rfl (fun hyes => ?_) (le_refl _)
    exact absurd (hrecorded.symm.trans hyes) Bool.false_ne_true
  · have hlast : db.failures.lastId = s.db.failures.lastId + 1 := by
      rw [hfailures]
      rfl
    exact fallsShort_of_unchanged h hcores (fun _ => hlast) (by omega)
  · have hlast : db.failures.lastId = s.db.failures.lastId + 1 := by
      rw [hfailures]
      rfl
    have hle : s.db.failures.lastId ≤ db.failures.lastId := by omega
    generalize hafter : cores db.patterns = after at hcounts
    cases hcounts with
    | unchanged => exact hafter ▸ fallsShort_of_unchanged h hafter (fun _ => hlast) hle
    | bumped c₀ hc₀ hp₀ =>
        intro c' hc'
        obtain ⟨c, hc, rfl⟩ := List.mem_map.1 hc'
        rw [patternId_eq_some _ _ hc₀ hp₀, countedAfter, if_pos ⟨hrecorded, hthree⟩]
        by_cases hid : c.id = c₀.id
        · have hbump : bump c₀.id 1 c = { c with count := c.count + 1 } := if_pos hid
          rw [hbump]
          refine (h c hc).append rfl (le_refl _) hlast ?_
          show Function.update s.counted c₀.id _ c.id = _
          rw [hid, Function.update_self]
        · have hbump : bump c₀.id 1 c = c := if_neg hid
          rw [hbump]
          exact (h c hc).same hle (Function.update_of_ne hid _ _)
    | created hnone =>
        have hnew : newCore projectId signature s.db.patterns ∈ cores db.patterns := by
          rw [hafter]
          exact List.mem_append_right _ (List.mem_singleton.2 rfl)
        rw [patternId_eq_none.2 hnone,
          patternId_eq_some projectId signature hnew ⟨rfl, rfl⟩,
          countedAfter]
        intro c hc
        rcases List.mem_append.1 hc with hc | hc
        · refine (h c hc).same hle (Function.update_of_ne ?_ _ _)
          obtain ⟨x, hx, rfl⟩ := List.mem_map.1 hc
          have hbelow := s.db.patterns.wf.le_lastId _ (Table.mem_ids hx)
          show x.1 ≠ s.db.patterns.table.lastId + 1
          omega
        · rw [List.mem_singleton.1 hc]
          refine .of_created rfl rfl hthree (nodup_similarIds hwf) fun i hi => ?_
          obtain ⟨x, hx, rfl⟩ := List.mem_map.1 hi
          exact hwf.le_lastId _ (Table.mem_ids (List.mem_filter.1 hx).1)

/-- No pattern of a run accounts for its failures. -/
theorem fallsShort_learnAll (calls : List (RecordHost × FailureContext)) :
    ∀ c ∈ cores (learnAll d engine projectId calls).db.patterns,
      FallsShort (learnAll d engine projectId calls) c := by
  induction calls with
  | nil => exact fun _ hc => (nomatch hc)
  | cons call calls ih => exact fallsShort_learn call ih

end

section

variable {d : Doubles} {engine : RegexEngine} {projectId : Int64}

/-- Of few failures all are looked at. -/
theorem length_findSimilarFailures_eq (d : Doubles) (projectId : Int64) (o : RowOrder)
    (signature message : Bytes) {limit : Nat} {db : BrainDb} (hfew : db.failures.rows.length ≤ limit) :
    (PatternMatcher.findSimilarFailures d o true projectId signature message limit db).length =
      (similarIds d projectId signature message db.failures).length := by
  have hselected : ∀ p : Int × FailureRow → Bool,
      (o.orderBy (fun x : Int × FailureRow => -x.2.timestamp.toInt)
        (db.failures.rows.filter p)).length ≤ limit := by
    intro p
    rw [(o.orderBy_perm _ _).length_eq]
    exact (List.length_filter_le _ _).trans hfew
  rw [PatternMatcher.findSimilarFailures, if_pos rfl, Nexus.findSimilarFailures, List.length_take,
    (o.orderBy_perm _ _).length_eq, List.take_of_length_le ((hselected _).trans (by omega)),
    List.map_map, List.filter_map, List.length_map, min_eq_right, similarIds, List.length_map,
    ((o.orderBy_perm _ _).filter _).length_eq, List.filter_filter]
  · refine congrArg List.length (List.filter_congr fun x _ => ?_)
    rw [Bool.eq_iff_iff, Bool.and_eq_true, decide_eq_true_iff, decide_eq_true_iff]
    exact Iff.trans and_comm (and_congr_right' decide_eq_true_iff)
  · exact (List.length_filter_le _ _).trans (hselected _)

/-- Fewer than three similar failures make no pattern. -/
theorem recordFailure_of_few {host : RecordHost} {context : FailureContext} {db : BrainDb}
    (hrecorded : host.recorded = true)
    (hfew : (similarIds d projectId (computeErrorSignature context.errorMessage)
      context.errorMessage (db.failures.insertRow (failureRow host.now projectId context))).length
        < 3) :
    (recordFailure d engine host projectId context db).2 =
      db.insertFailure (failureRow host.now projectId context) := by
  have hlength := length_findSimilarFailures_le d projectId host.order
    host.similarRead (computeErrorSignature context.errorMessage) context.errorMessage 10
    (db.insertFailure (failureRow host.now projectId context))
  rw [recordFailure, if_neg (not_not.2 hrecorded)]
  exact congrArg Prod.snd (if_pos (lt_of_le_of_lt hlength hfew))

/-- Where there is no pattern none is found. -/
theorem findMatchingPatterns_of_empty {o : RowOrder} {read : Bool} {signature type message : Bytes}
    {db : BrainDb} (hempty : db.patterns.table.rows = []) :
    findMatchingPatterns engine o read projectId signature type message db = some [] := by
  have hrows : lookedAt o read projectId db = [] :=
    List.eq_nil_iff_forall_not_mem.2 fun x hx => by
      have hrow := (List.mem_filter.1 (mem_lookedAt hx)).1
      rw [hempty] at hrow
      cases hrow
  rw [findMatchingPatterns_eq, hrows]
  rfl

/-- Where there is no pattern one is made of them. -/
theorem learnPattern_creates (host : LearnHost) (projectId : Int64) {ids : List Int} {id : Int} {f : FailureMap}
    {db : BrainDb} (hhead : ids.head? = some id) (hempty : db.patterns.table.rows = [])
    (hfailure : getFailure id db.failures = some f) (hread : host.failureRead id = true)
    (hrecorded : host.patternRecorded = true) :
    ∃ i, learnPattern host projectId ids db = (some i, (learnPattern host projectId ids db).2) ∧
      cores (learnPattern host projectId ids db).2.patterns ≠ [] := by
  have hfirst : (ids.head?.bind fun id =>
      if host.failureRead id = true then getFailure id db.failures else none) = some f := by
    rw [hhead, Option.bind_some, if_pos hread, hfailure]
  have hnone : getPatternBySignature projectId f.errorSignature db.patterns = none := by
    rw [getPatternBySignature, Table.first, hempty]
    rfl
  have hcores : cores db.patterns = [] := by rw [cores, hempty, List.map_nil]
  have hexisting : (if host.patternRead = true then
      getPatternBySignature projectId f.errorSignature db.patterns else none) = none := by
    rw [hnone, ite_self]
  rw [learnPattern]
  dsimp only
  rw [hfirst]
  dsimp only
  rw [hexisting, Option.map_none]
  dsimp only
  rw [if_pos hrecorded]
  rcases cores_recordPattern host.now projectId f.errorSignature db.patterns with ⟨⟨c, hc, -⟩, -⟩ | ⟨-, hid, heq⟩
  · rw [hcores] at hc
    cases hc
  · have hpos : 0 < db.patterns.table.lastId + 1 :=
      Int.lt_add_one_of_le db.patterns.wf.lastId_nonneg
    rw [if_pos (hid ▸ hpos)]
    refine ⟨_, rfl, ?_⟩
    rw [(linkAll _ _ _ _).1, heq]
    exact List.append_ne_nil_of_right_ne_nil _ (List.cons_ne_nil _ _)

/-- The third similar failure makes a pattern. -/
theorem recordFailure_creates {host : RecordHost} (context : FailureContext) {db : BrainDb}
    (hempty : db.patterns.table.rows = []) (hrecorded : host.recorded = true)
    (hsimilar : host.similarRead = true) (hread : ∀ id, host.failureRead id = true)
    (hpattern : host.patternRecorded = true) (hfew : db.failures.rows.length < 10)
    (hthree : 3 ≤ (similarIds d projectId (computeErrorSignature context.errorMessage)
      context.errorMessage
        (db.failures.insertRow (failureRow host.now projectId context))).length) :
    cores (recordFailure d engine host projectId context db).2.patterns ≠ [] := by
  rw [recordFailure, if_neg (not_not.2 hrecorded)]
  dsimp only
  generalize hdb₁ : db.insertFailure (failureRow host.now projectId context) = db₁
  have hempty₁ : db₁.patterns.table.rows = [] := by
    rw [← hdb₁]
    exact hempty
  have hfew₁ : db₁.failures.rows.length ≤ 10 := by
    rw [← hdb₁]
    show (db.failures.rows ++ [_]).length ≤ 10
    rw [List.length_append, List.length_singleton]
    omega
  have hlength := length_findSimilarFailures_eq d projectId host.order
    (computeErrorSignature context.errorMessage) context.errorMessage hfew₁
  rw [hsimilar]
  generalize hfound : PatternMatcher.findSimilarFailures d host.order true projectId
    (computeErrorSignature context.errorMessage) context.errorMessage 10 db₁ = found at hlength
  have hmany : 3 ≤ found.length := by
    rw [hlength, ← hdb₁]
    exact hthree
  rw [if_neg (not_lt.2 hmany)]
  rw [findMatchingPatterns_of_empty hempty₁]
  dsimp only
  cases found with
  | nil => exact absurd hmany (Nat.not_succ_le_zero 2)
  | cons s found =>
      obtain ⟨row, hrow, -⟩ := mem_findSimilarFailures (f := s) (hfound ▸ List.mem_cons_self)
      have hfailure : getFailure s.failureId db₁.failures = some (readFailure (s.failureId, row)) := by
        rw [getFailure, Table.get?_of_mem db₁.failuresWf hrow, Option.map_some]
      have hhead : ((s :: found).map SimilarFailure.failureId).head? = some s.failureId := rfl
      obtain ⟨i, heq, hcores⟩ := learnPattern_creates host.toLearnHost projectId hhead hempty₁
        hfailure (hread _) hpattern
      rw [heq]
      exact hcores

end

/-- Exact arithmetic for the scores. -/
def exactDoubles : Doubles where
  Score := Rat
  order := inferInstance
  zero := 0
  half := 1 / 2
  one := 1
  ratio m n := m / n
  complement x := 1 - x
  weigh x y := 7 / 10 * x + 3 / 10 * y

/-- Every statement succeeds. -/
def goodHost : RecordHost where
  now := 1700000000
  order := .byId
  failureRead _ := true
  patternRead := true
  patternRecorded := true
  statisticsUpdated := true
  recorded := true
  similarRead := true
  patternsRead := true

def linkFailure : FailureContext where
  failureType := bytes "link"
  errorMessage := bytes "undefined reference to f"

/-- The failures of a run of it. -/
def linkFailures : Nat → Table FailureRow
  | 0 => .empty
  | n + 1 => (linkFailures n).insertRow (failureRow goodHost.now 1 linkFailure)

def linkRun (n : Nat) : Learning :=
  learnAll exactDoubles plainEngine 1 (List.replicate n (goodHost, linkFailure))

theorem length_similarIds_linkFailures : ∀ n ∈ [1, 2, 3], (similarIds exactDoubles 1
    (computeErrorSignature linkFailure.errorMessage) linkFailure.errorMessage
      (linkFailures n)).length = n := by
  decide +kernel

/-- The first two make no pattern. -/
theorem linkRun_db {n : Nat} (hn : n ≤ 2) : (linkRun n).db.failures = linkFailures n ∧
    (linkRun n).db.patterns = emptyDb.patterns := by
  induction n with
  | zero => exact ⟨rfl, rfl⟩
  | succ n ih =>
      obtain ⟨hfailures, hpatterns⟩ := ih (by omega)
      have hsimilar := length_similarIds_linkFailures (n + 1) (by simp; omega)
      have hfew : (similarIds exactDoubles 1 (computeErrorSignature linkFailure.errorMessage)
          linkFailure.errorMessage ((linkRun n).db.failures.insertRow
            (failureRow goodHost.now 1 linkFailure))).length < 3 := by
        rw [hfailures]
        exact lt_of_eq_of_lt hsimilar (by omega)
      have hstep : (linkRun (n + 1)).db =
          (linkRun n).db.insertFailure (failureRow goodHost.now 1 linkFailure) :=
        recordFailure_of_few rfl hfew
      rw [hstep]
      refine ⟨?_, hpatterns⟩
      show (linkRun n).db.failures.insertRow _ = _
      rw [hfailures, linkFailures]

theorem cores_linkRun_three : cores (linkRun 3).db.patterns ≠ [] := by
  obtain ⟨hfailures, hpatterns⟩ := linkRun_db (le_refl 2)
  refine recordFailure_creates linkFailure ?_ rfl rfl (fun _ => rfl) rfl ?_ ?_
  · show (linkRun 2).db.patterns.table.rows = []
    rw [hpatterns]
    rfl
  · show (linkRun 2).db.failures.rows.length < 10
    rw [hfailures]
    decide
  · show 3 ≤ (similarIds exactDoubles 1 _ _
      ((linkRun 2).db.failures.insertRow (failureRow goodHost.now 1 linkFailure))).length
    rw [hfailures]
    exact (length_similarIds_linkFailures 3 (by decide)).ge

end Nazg.Brain
