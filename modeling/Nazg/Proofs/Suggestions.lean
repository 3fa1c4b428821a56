import Nazg.Proofs.RecoveryRestore

/-!
# Which suggestions come first

What the matched patterns, the similar failures and the type of a failure suggest is put
into one list, which is sorted by confidence and cut at the limit. Before the sort a comment
says that duplicates are removed, but nothing removes them: two suggestions that do the same
are both returned if there is room for both.

`suggestsBest_iff` says when there is not.
-/

namespace Nazg.Brain

open Lib Lib.Sqlite Nexus

/-- Two actions that do the same. -/
def RecoveryAction.Alike {Score : Type} (a b : RecoveryAction Score) : Prop :=
  a.type = b.type ∧ a.params = b.params

theorem RecoveryAction.Alike.symm {Score : Type} {a b : RecoveryAction Score} (h : a.Alike b) :
    b.Alike a :=
  ⟨h.1.symm, h.2.symm⟩

section

variable {Score : Type} [LinearOrder Score]

/-- The key of the sort. -/
abbrev byConfidence (a : RecoveryAction Score) : Scoreᵒᵈ := OrderDual.toDual a.confidenceScore

/-- Of what is proposed the most confident are returned, none of them twice. -/
structure Best (limit : Nat) (proposed as : List (RecoveryAction Score)) : Prop where
  few : as.length ≤ limit
  ranked : as.Pairwise fun a b => b.confidenceScore ≤ a.confidenceScore
  distinct : as.Pairwise fun a b => ¬ a.Alike b
  leading : ∀ c ∈ proposed, c ∉ as → ∀ a ∈ as, c.confidenceScore ≤ a.confidenceScore

/-- Of two proposals that do the same, the less confident has so many others before it that
not both are returned. -/
def SetApart (limit : Nat) (proposed : List (RecoveryAction Score)) : Prop :=
  ∀ a b others, (a :: b :: others).Perm proposed → a.Alike b →
    b.confidenceScore ≤ a.confidenceScore →
      limit < others.countP (fun c => b.confidenceScore < c.confidenceScore) + 2

/-- Sorting and cutting is right but for the duplicates. -/
theorem forall_best_iff {limit : Nat} {proposed cs : List (RecoveryAction Score)}
    (hperm : cs.Perm proposed) :
    (∀ ties : RowOrder, Best limit proposed ((ties.orderBy byConfidence cs).take limit)) ↔
      SetApart limit proposed := by
  have hapart := RowOrder.forall_pairwise_take_iff byConfidence
    (R := fun a b => ¬ a.Alike b) (fun a b h hab => h hab.symm) cs limit
  simp only [not_not, OrderDual.toDual_le_toDual, OrderDual.toDual_lt_toDual] at hapart
  have hcut : (∀ ties : RowOrder,
      Best limit proposed ((ties.orderBy byConfidence cs).take limit)) ↔
      ∀ ties : RowOrder, ((ties.orderBy byConfidence cs).take limit).Pairwise
        fun a b => ¬ a.Alike b := by
    refine forall_congr' fun ties => ⟨Best.distinct, fun hdistinct => ?_⟩
    have hsorted := ties.orderBy_pairwise byConfidence cs
    refine ⟨List.length_take_le _ _, hsorted.sublist (List.take_sublist _ _), hdistinct, ?_⟩
    intro c hc hleft a ha
    have hmem := ((ties.orderBy_perm byConfidence cs).trans hperm).mem_iff.2 hc
    rw [← List.take_append_drop limit (ties.orderBy _ cs)] at hmem hsorted
    exact (List.pairwise_append.1 hsorted).2.2 a ha c ((List.mem_append.1 hmem).resolve_left hleft)
  rw [hcut, hapart, SetApart]
  constructor
  · intro h a b others hothers halike hle
    exact h a b others (hothers.trans hperm.symm) hle halike
  · intro h a b others hothers hle halike
    exact h a b others (hothers.trans hperm) halike hle

end

/-! ## What is proposed -/

section

variable (d : Scores) (host : SuggestHost) (projectId : Int64) (db : RecoveryDb d)

/-- The failure that suggestions are for. -/
def failureAsked (failureId : Int) : Option FailureMap :=
  if host.failureRead then getFailure failureId db.failures else none

/-- The patterns that it matches. -/
def matchedRows (f : FailureMap) : List (Int × PatternRow) :=
  (lookedAt host.order host.patternsRead projectId db.toBrainDb).filter fun x =>
    kept f.errorSignature f.failureType x.2

/-- The stored actions of a pattern. -/
def actionRows (patternId : Int) : List (Int × RecoveryActionRow d.Score) :=
  if host.actionsRead patternId then
    db.actions.rows.filter fun x => x.2.patternId = some patternId
  else []

/-- A stored action with its counts. -/
def storedAction (x : Int × RecoveryActionRow d.Score) : RecoveryAction d.Score where
  id := x.1
  type := .ofText x.2.actionType.bytes
  description := (x.2.actionDescription.map Text.bytes).getD []
  params := jsonToParams ((x.2.actionParamsJson.map Text.bytes).getD [])
  confidenceScore := d.reread x.2.confidenceScore
  successCount := x.2.successCount
  failureCount := x.2.failureCount
  avgExecutionTimeMs := x.2.avgExecutionTimeMs.getD 0
  requiresConfirmation := x.2.requiresUserConfirmation

/-- The failures that a pattern lists, if they can be read. -/
def failuresOf (r : PatternRow) : Option (List Int) :=
  parseFailureIdsJson ((r.failureIdsJson.map Text.bytes).getD [])

/-- What a pattern proposes: its actions, or what resolved one of its failures. -/
def proposedBy (x : Int × PatternRow) : List (RecoveryAction d.Score) :=
  match actionRows d host db x.1 with
  | a :: rows => (a :: rows).map (storedAction d)
  | [] =>
      if host.patternRead x.1 then
        (((failuresOf x.2).getD []).findSome? fun id =>
          (getRelated d host id db).bind (restoreThatResolved d x.2.occurrenceCount)).toList
      else []

/-- All proposals for a failure. -/
def proposals (f : FailureMap) : List (RecoveryAction d.Score) :=
  (matchedRows d host projectId db f).flatMap (proposedBy d host db) ++
    generateFromSimilarFailures d host projectId f.errorSignature f.errorMessage db ++
      generateGenericSuggestions d f

/-- The counts of the actions of a pattern fit an `int`; if there are none, its failures can
be read. -/
structure PatternLegible (x : Int × PatternRow) : Prop where
  attempts : ∀ a ∈ actionRows d host db x.1, a.2.successCount < 2 ^ 31 ∧ a.2.failureCount < 2 ^ 31
  failures : actionRows d host db x.1 = [] → host.patternRead x.1 = true →
    (failuresOf x.2).isSome = true

/-- No text of the history throws when it is converted. -/
structure Legible (f : FailureMap) : Prop where
  occurrences : ∀ x ∈ lookedAt host.order host.patternsRead projectId db.toBrainDb,
    x.2.occurrenceCount < 2 ^ 31
  patterns : ∀ x ∈ matchedRows d host projectId db f, PatternLegible d host db x

/-- The best of what is proposed is returned, however the sort leaves the equally
confident. -/
def SuggestsBest (engine : RegexEngine) (failureId : Int) (maxSuggestions : Nat) : Prop :=
  ∀ ties : RowOrder, ∃ as,
    suggestRecovery d { host with ties := ties } engine projectId failureId maxSuggestions db =
      some as ∧
    Best maxSuggestions ((failureAsked d host db failureId).elim [] (proposals d host projectId db))
      as

end

section

variable {d : Scores} {host : SuggestHost} {projectId : Int64} {db : RecoveryDb d}

theorem parseAction_readRecoveryAction (x : Int × RecoveryActionRow d.Score) :
    parseAction d (readRecoveryAction x) =
      if x.2.successCount < 2 ^ 31 ∧ x.2.failureCount < 2 ^ 31 then some (storedAction d x)
      else none := by
  rw [parseAction]
  simp only [readRecoveryAction, stoi_decimal_natCast]
  by_cases hsuccess : x.2.successCount < 2 ^ 31
  · by_cases hfailure : x.2.failureCount < 2 ^ 31
    · rw [if_pos hsuccess, if_pos hfailure, if_pos ⟨hsuccess, hfailure⟩]
      rfl
    · rw [if_pos hsuccess, if_neg hfailure, if_neg fun h => hfailure h.2]
  · have hboth : ¬ (x.2.successCount < 2 ^ 31 ∧ x.2.failureCount < 2 ^ 31) := fun h =>
      hsuccess h.1
    rw [if_neg hsuccess, if_neg hboth]

/-- The rows of the actions, as the engine finds them. -/
def sortedActionRows (d : Scores) (host : SuggestHost) (db : RecoveryDb d) (patternId : Int) :
    List (Int × RecoveryActionRow d.Score) :=
  host.order.orderBy
    (fun x : Int × RecoveryActionRow d.Score => OrderDual.toDual x.2.confidenceScore)
    (actionRows d host db patternId)

theorem sortedActionRows_perm (patternId : Int) :
    (sortedActionRows d host db patternId).Perm (actionRows d host db patternId) :=
  host.order.orderBy_perm _ _

theorem getActionsForPattern_eq (patternId : Int) :
    getActionsForPattern d host patternId db =
      if ∀ a ∈ actionRows d host db patternId,
          a.2.successCount < 2 ^ 31 ∧ a.2.failureCount < 2 ^ 31 then
        some ((sortedActionRows d host db patternId).map (storedAction d))
      else none := by
  have hrows : (if host.actionsRead patternId then
      getRecoveryActionsForPattern host.order patternId db.actions else []) =
      (sortedActionRows d host db patternId).map readRecoveryAction := by
    rw [sortedActionRows, actionRows]
    split
    · rfl
    · rw [((host.order.orderBy_perm _ []).eq_nil)]
      rfl
  rw [getActionsForPattern, hrows, List.mapM_map]
  refine (mapM_eq_ite _ parseAction_readRecoveryAction).trans (if_congr ?_ rfl rfl)
  exact forall_congr' fun a => imp_congr_left (sortedActionRows_perm patternId).mem_iff

theorem parsePattern_wholePattern {x : Int × PatternRow} (hcount : x.2.occurrenceCount < 2 ^ 31) :
    parsePattern (wholePattern x) = (failuresOf x.2).map fun ids =>
      { listed x with
        errorRegex := x.2.errorRegex.bytes
        failureIds := ids
        triggerConditionsJson := x.2.triggerConditionsJson.bytes
        resolutionStrategiesJson := (x.2.resolutionStrategiesJson.map Text.bytes).getD [] } := by
  have hread : stoi (wholePattern x).occurrenceCount = some (x.2.occurrenceCount : Int) :=
    (stoi_decimal_natCast _).trans (if_pos hcount)
  have hids : parseFailureIdsJson ((wholePattern x).failureIdsJson.getD []) = failuresOf x.2 := rfl
  rw [parsePattern, hread, hids]
  cases failuresOf x.2 <;> rfl

/-- What a pattern proposes is suggested, unless something throws. -/
theorem generateFromPattern_spec {x : Int × PatternRow} (hx : x ∈ db.patterns.table.rows)
    (hcount : x.2.occurrenceCount < 2 ^ 31) :
    (PatternLegible d host db x → ∃ as, generateFromPattern d host x.1 db = some as ∧
      as.Perm (proposedBy d host db x)) ∧
    (¬ PatternLegible d host db x → generateFromPattern d host x.1 db = none) := by
  have hperm := @sortedActionRows_perm d host db x.1
  rw [generateFromPattern, getActionsForPattern_eq]
  by_cases hattempts : ∀ a ∈ actionRows d host db x.1,
      a.2.successCount < 2 ^ 31 ∧ a.2.failureCount < 2 ^ 31
  · rw [if_pos hattempts, proposedBy]
    cases hrows : actionRows d host db x.1 with
    | cons a rows =>
        rw [hrows] at hperm
        cases hsorted : sortedActionRows d host db x.1 with
        | nil => exact absurd (hsorted ▸ hperm).symm.eq_nil (List.cons_ne_nil _ _)
        | cons b sorted =>
            have hlegible : PatternLegible d host db x :=
              ⟨hattempts, fun hnil => absurd (hrows.symm.trans hnil) (List.cons_ne_nil _ _)⟩
            exact ⟨fun _ => ⟨_, rfl, (hsorted ▸ hperm).map _⟩, fun h => absurd hlegible h⟩
    | nil =>
        rw [hrows] at hperm
        rw [hperm.eq_nil, List.map_nil]
        dsimp only
        have hget : getPattern x.1 db.patterns = some (wholePattern x) := by
          rw [getPattern, Table.get?_of_mem db.patterns.wf hx, Option.map_some]
        by_cases hread : host.patternRead x.1 = true
        · rw [if_pos hread, if_pos hread, hget, Option.map_some, parsePattern_wholePattern hcount]
          cases hids : failuresOf x.2 with
          | none =>
              refine ⟨fun h => ?_, fun _ => rfl⟩
              have hsome := h.failures hrows hread
              rw [hids] at hsome
              cases hsome
          | some ids =>
              refine ⟨fun _ => ⟨_, rfl, .refl _⟩, fun h => absurd ⟨hattempts, fun _ _ => ?_⟩ h⟩
              rw [hids]
              rfl
        · rw [if_neg hread, if_neg hread]
          exact ⟨fun _ => ⟨_, rfl, .refl _⟩,
            fun h => absurd ⟨hattempts, fun _ hread' => absurd hread' hread⟩ h⟩
  · rw [if_neg hattempts]
    exact ⟨fun h => absurd h.attempts hattempts, fun _ => rfl⟩

theorem generateFromPatterns_spec {rows : List (Int × PatternRow)}
    (hrows : ∀ x ∈ rows, x ∈ db.patterns.table.rows ∧ x.2.occurrenceCount < 2 ^ 31) :
    ((∀ x ∈ rows, PatternLegible d host db x) →
      ∃ as, generateFromPatterns d host (rows.map listed) db = some as ∧
        as.Perm (rows.flatMap (proposedBy d host db))) ∧
    ((¬ ∀ x ∈ rows, PatternLegible d host db x) →
      generateFromPatterns d host (rows.map listed) db = none) := by
  induction rows with
  | nil => exact ⟨fun _ => ⟨[], rfl, .refl _⟩, fun h => absurd (fun _ hx => nomatch hx) h⟩
  | cons x rows ih =>
      obtain ⟨⟨hx, hcount⟩, htail⟩ := List.forall_mem_cons.1 hrows
      obtain ⟨hsome, hnone⟩ := @generateFromPattern_spec d host db x hx hcount
      obtain ⟨hsomes, hnones⟩ := ih htail
      have hstep : generateFromPatterns d host ((x :: rows).map listed) db =
          (generateFromPattern d host x.1 db).bind fun as =>
            (generateFromPatterns d host (rows.map listed) db).map fun bs => as ++ bs := by
        rw [generateFromPatterns, generateFromPatterns, List.map_cons, List.mapM_cons]
        show Option.map _ (Option.bind (generateFromPattern d host x.1 db) _) = _
        cases generateFromPattern d host x.1 db with
        | none => rfl
        | some as =>
            cases (rows.map listed).mapM fun p => generateFromPattern d host p.id db with
            | none => rfl
            | some lists => rfl
      rw [hstep]
      constructor
      · intro h
        obtain ⟨hhead, hall⟩ := List.forall_mem_cons.1 h
        obtain ⟨as, has, hperm⟩ := hsome hhead
        obtain ⟨bs, hbs, hperms⟩ := hsomes hall
        rw [has, hbs]
        exact ⟨as ++ bs, rfl, hperm.append hperms⟩
      · intro h
        by_cases hhead : PatternLegible d host db x
        · rw [hnones fun hall => h (List.forall_mem_cons.2 ⟨hhead, hall⟩)]
          cases generateFromPattern d host x.1 db <;> rfl
        · rw [hnone hhead, Option.bind_none]

/-- What the sort is given. -/
theorem suggestRecovery_spec {engine : RegexEngine} {failureId : Int} {f : FailureMap}
    (hasked : failureAsked d host db failureId = some f) :
    (Legible d host projectId db f → ∃ cs, cs.Perm (proposals d host projectId db f) ∧
      ∀ (ties : RowOrder) (maxSuggestions : Nat),
        suggestRecovery d { host with ties := ties } engine projectId failureId maxSuggestions db =
          some ((ties.orderBy byConfidence cs).take maxSuggestions)) ∧
    (¬ Legible d host projectId db f → ∀ (ties : RowOrder) (maxSuggestions : Int),
      suggestRecovery d { host with ties := ties } engine projectId failureId maxSuggestions db =
        none) := by
  have hmatching : findMatchingPatterns engine host.order host.patternsRead projectId
      f.errorSignature f.failureType f.errorMessage db.toBrainDb =
      if ∀ x ∈ lookedAt host.order host.patternsRead projectId db.toBrainDb,
        x.2.occurrenceCount < 2 ^ 31 then
        some ((matchedRows d host projectId db f).map listed)
      else none := findMatchingPatterns_eq
  have hrun : ∀ (ties : RowOrder) (maxSuggestions : Int),
      suggestRecovery d { host with ties := ties } engine projectId failureId maxSuggestions db =
        (Option.bind (findMatchingPatterns engine host.order host.patternsRead projectId
          f.errorSignature f.failureType f.errorMessage db.toBrainDb) fun patterns =>
            generateFromPatterns d host patterns db).map fun ofPatterns =>
          let sorted := ties.orderBy byConfidence
            (ofPatterns ++ generateFromSimilarFailures d host projectId f.errorSignature
              f.errorMessage db ++ generateGenericSuggestions d f)
          if maxSuggestions < 0 then sorted else sorted.take maxSuggestions.toNat := by
    intro ties maxSuggestions
    rw [failureAsked] at hasked
    rw [suggestRecovery, hasked]
    rfl
  by_cases hcounts : ∀ x ∈ lookedAt host.order host.patternsRead projectId db.toBrainDb,
      x.2.occurrenceCount < 2 ^ 31
  · rw [if_pos hcounts] at hmatching
    have hrows : ∀ x ∈ matchedRows d host projectId db f,
        x ∈ db.patterns.table.rows ∧ x.2.occurrenceCount < 2 ^ 31 := by
      intro x hx
      have hlooked := (List.mem_filter.1 hx).1
      exact ⟨(List.mem_filter.1 (mem_lookedAt hlooked)).1, hcounts x hlooked⟩
    obtain ⟨hsome, hnone⟩ := @generateFromPatterns_spec d host db _ hrows
    constructor
    · intro h
      obtain ⟨as, has, hperm⟩ := hsome h.patterns
      refine ⟨_, (hperm.append_right _).append_right _, fun ties maxSuggestions => ?_⟩
      rw [hrun, hmatching, Option.bind_some, has, Option.map_some]
      dsimp only
      rw [if_neg (by omega), Int.toNat_natCast]
    · intro h ties maxSuggestions
      rw [hrun, hmatching, Option.bind_some, hnone fun hall => h ⟨hcounts, hall⟩, Option.map_none]
  · rw [if_neg hcounts] at hmatching
    refine ⟨fun h => absurd h.occurrences hcounts, fun _ ties maxSuggestions => ?_⟩
    rw [hrun, hmatching, Option.bind_none, Option.map_none]

/-- For a failure that is found. -/
theorem suggestsBest_iff_of_asked {engine : RegexEngine} {failureId : Int} {maxSuggestions : Nat}
    {f : FailureMap} (hasked : failureAsked d host db failureId = some f) :
    SuggestsBest d host projectId db engine failureId maxSuggestions ↔
      Legible d host projectId db f ∧
        SetApart maxSuggestions (proposals d host projectId db f) := by
  obtain ⟨hsome, hnone⟩ := @suggestRecovery_spec d host projectId db engine failureId f hasked
  rw [SuggestsBest, hasked]
  by_cases hlegible : Legible d host projectId db f
  · obtain ⟨cs, hperm, hrun⟩ := hsome hlegible
    rw [and_iff_right hlegible, ← forall_best_iff hperm]
    refine forall_congr' fun ties => ?_
    rw [hrun ties maxSuggestions]
    constructor
    · rintro ⟨as, has, hbest⟩
      cases has
      exact hbest
    · exact fun hbest => ⟨_, rfl, hbest⟩
  · refine ⟨fun h => ?_, fun h => absurd h.1 hlegible⟩
    obtain ⟨as, has, -⟩ := h .byId
    rw [hnone hlegible] at has
    cases has

end

/-- The best suggestions are returned exactly if nothing throws and of two proposals that do
the same the less confident has enough others before it. -/
theorem suggestsBest_iff (d : Scores) (host : SuggestHost) (projectId : Int64) (db : RecoveryDb d)
    (engine : RegexEngine) (failureId : Int) (maxSuggestions : Nat) :
    SuggestsBest d host projectId db engine failureId maxSuggestions ↔
      ∀ f, failureAsked d host db failureId = some f →
        Legible d host projectId db f ∧
          SetApart maxSuggestions (proposals d host projectId db f) := by
  cases hasked : failureAsked d host db failureId with
  | none =>
      refine ⟨fun _ f hf => absurd hf.symm (Option.some_ne_none f),
        fun _ ties => ⟨[], ?_, ?_⟩⟩
      · rw [failureAsked] at hasked
        rw [suggestRecovery, hasked]
      · rw [hasked]
        exact ⟨Nat.zero_le _, List.Pairwise.nil, List.Pairwise.nil,
          fun c hc => absurd hc List.not_mem_nil⟩
  | some f =>
      rw [suggestsBest_iff_of_asked hasked]
      constructor
      · rintro h f' hf
        cases hf
        exact h
      · exact fun h => h f rfl

/-! ## A test that failed before -/

/-- It failed, and restoring the snapshot helped. -/
def restoredTest : FailureRow :=
  { failureWith (bytes "test") (bytes "expected 1") with
    resolved := true
    resolutionType := some (.ofCStr (bytes "restore"))
    resolutionSnapshotId := some 1 }

theorem wf_noActions : (Table.empty : Table (RecoveryActionRow exactScores.Score)).Wf :=
  Table.wf_empty

/-- That was so twice, and it fails again. -/
def failsAgain : RecoveryDb exactScores where
  failures := ((Table.empty.insertRow restoredTest).insertRow restoredTest).insertRow
    (failureWith (bytes "test") (bytes "expected 1"))
  patterns := emptyDb.patterns
  failuresWf := ((Table.wf_empty.insertRow _).insertRow _).insertRow _
  actions := .empty
  actionsWf := wf_noActions
  integers := by
    have hone : ∀ r ∈ [restoredTest, restoredTest, failureWith (bytes "test") (bytes "expected 1")],
        r.beforeSnapshotId.getD 1 = 1 ∧ r.resolutionSnapshotId.getD 1 = 1 := by
      decide +kernel
    intro r hr id hid
    obtain ⟨hbefore, hresolution⟩ := hone r hr
    rcases hid with hid | hid
    · rw [hid, Option.getD_some] at hbefore
      omega
    · rw [hid, Option.getD_some] at hresolution
      omega

def testAgain : FailureMap :=
  readFailure (3, failureWith (bytes "test") (bytes "expected 1"))

/-- The restore, as it is suggested for each of the earlier failures. -/
def restoreAgain : RecoveryAction exactScores.Score :=
  { createRestoreSnapshotAction exactScores 1
      (bytes "Similar failure was fixed by restoring this snapshot") with
    confidenceScore := exactScores.discount (1 : Rat) }

/-- Rows in order stay as they are. -/
theorem orderBy_byId {ρ κ : Type} [LinearOrder κ] {key : ρ → κ} {rows : List ρ}
    (h : rows.Pairwise fun x y => key x ≤ key y) : RowOrder.byId.orderBy key rows = rows :=
  List.mergeSort_of_pairwise (h.imp decide_eq_true)

theorem proposals_failsAgain : proposals exactScores suggestHost 1 failsAgain testAgain =
    [restoreAgain, restoreAgain,
      { createRestoreSnapshotAction exactScores 1 (bytes "Restore to last known passing state") with
        confidenceScore := exactScores.tenths 6 }] := by
  have hmatched : matchedRows exactScores suggestHost 1 failsAgain testAgain = [] := by
    rw [matchedRows, lookedAt]
    exact congrArg (List.filter _) (congrArg (List.take 1000) (orderBy_byId List.Pairwise.nil))
  have hexact : Nexus.findSimilarFailures .byId 1 testAgain.errorSignature (5 * 2)
      failsAgain.failures = failsAgain.failures.rows.map readFailure := by
    have hrows : (failsAgain.failures.rows.filter fun x => x.2.projectId = 1 ∧
        x.2.errorSignature = Text.ofCStr testAgain.errorSignature) = failsAgain.failures.rows :=
      List.filter_eq_self.2 (by decide +kernel)
    rw [Nexus.findSimilarFailures, hrows, orderBy_byId (by decide +kernel)]
    rfl
  have hscore : computeSimilarity exactDoubles testAgain.errorMessage testAgain.errorMessage =
      exactDoubles.one :=
    le_antisymm (by decide +kernel) (by decide +kernel)
  have hsimilar : PatternMatcher.findSimilarFailures exactDoubles .byId true 1
      testAgain.errorSignature testAgain.errorMessage 5 failsAgain.toBrainDb =
      (failsAgain.failures.rows.map readFailure).map fun m =>
        { failureId := m.id
          similarityScore := exactDoubles.one
          errorMessage := m.errorMessage
          errorSignature := m.errorSignature
          timestamp := m.timestamp
          wasResolved := m.resolved
          resolutionType := m.resolutionType } := by
    have hscores : ∀ m ∈ failsAgain.failures.rows.map readFailure,
        computeSimilarity exactDoubles testAgain.errorMessage m.errorMessage =
          exactDoubles.one := by
      intro m hm
      have hmessage : m.errorMessage = testAgain.errorMessage := by
        revert m hm
        decide +kernel
      rw [hmessage]
      exact hscore
    have hmap := List.map_congr_left fun m hm => congrArg (fun score =>
      (⟨m.id, score, m.errorMessage, m.errorSignature, m.timestamp, m.resolved,
        m.resolutionType⟩ : SimilarFailure exactDoubles.Score)) (hscores m hm)
    rw [PatternMatcher.findSimilarFailures, if_pos rfl, hexact, hmap,
      List.filter_eq_self.2 (by decide +kernel), orderBy_byId (by decide +kernel)]
    rfl
  rw [proposals, hmatched, generateFromSimilarFailures]
  erw [hsimilar]
  rfl

/-- The same restore is suggested twice, in the same words. -/
theorem test_not_suggestsBest :
    ¬ SuggestsBest exactScores suggestHost 1 failsAgain plainEngine 3 5 := by
  intro h
  have hasked : failureAsked exactScores suggestHost failsAgain 3 = some testAgain := rfl
  have hapart := ((suggestsBest_iff_of_asked hasked).1 h).2
  rw [proposals_failsAgain] at hapart
  have hmany := hapart restoreAgain restoreAgain _ (.refl _) ⟨rfl, rfl⟩ (le_refl _)
  exact absurd hmany (by decide +kernel)

end Nazg.Brain
