import Mathlib.Algebra.BigOperators.Group.List.Basic
import Mathlib.Algebra.Order.Group.Unbundled.Int
import Nazg.Nexus.References

/-!
# The statistics of recovery actions

The counts and the score of an action are exact after any sequence of calls. The average
is not kept at all: it starts as NULL, every value that is written to it is computed from
it, and so it is NULL for ever and read as zero. That is the mean only where the mean
rounds to zero.
-/

namespace Nazg.Nexus

open Lib Lib.Sqlite

/-- A call of one of the two functions. -/
inductive ActionCall where
  | add (now : Int) (patternId failureId : Int64)
      (actionType actionParamsJson description : Bytes) (requiresConfirmation : Bool)
  | update (now actionId : Int) (success : Bool) (executionTimeMs : Int64)

/-- What was reported of an attempt: whether it succeeded, and the time it took. -/
abbrev RecoveryAttempt := Bool × Int64

/-- The database, and for each action that was added the attempts reported since. -/
structure ActionHistory (Score : Type) where
  db : ActionDb Score
  reported : Int → Option (List RecoveryAttempt)

section

variable {Score : Type} (ratio : Int → Int → Score) (zero : Score)

def ActionHistory.step (s : ActionHistory Score) : ActionCall → ActionHistory Score
  | .add now patternId failureId actionType params description confirm =>
      let r := s.db.add zero now patternId failureId actionType params description confirm
      ⟨r.2, if r.1 = 0 then s.reported else Function.update s.reported r.1 (some [])⟩
  | .update now actionId success ms =>
      ⟨s.db.updateStats ratio now actionId success ms,
        Function.update s.reported actionId
          ((s.reported actionId).map fun attempts => attempts ++ [(success, ms)])⟩

/-- A run of calls on a database, on any actions and in any order. -/
def ActionHistory.run (db : ActionDb Score) (calls : List ActionCall) : ActionHistory Score :=
  calls.foldl (ActionHistory.step ratio zero) ⟨db, fun _ => none⟩

/-- The rows of the actions. -/
def ActionHistory.actions (s : ActionHistory Score) : Table Row := s.db.tables .brainRecoveryActions

/-! ## What the columns are to say -/

def successes (attempts : List RecoveryAttempt) : Nat := attempts.countP (·.1)

/-- The sum of the reported times. -/
def totalMs (attempts : List RecoveryAttempt) : Int := (attempts.map fun a => a.2.toInt).sum

/-- An integer that the mean of the times is rounded to: less than one apart from it. -/
def RoundsMean (avg : Int) (attempts : List RecoveryAttempt) : Prop :=
  attempts ≠ [] → |avg * attempts.length - totalMs attempts| < attempts.length

/-- The counts of a row and its score are those of the attempts. -/
structure Counted (r : Row) (score : Option Score) (attempts : List RecoveryAttempt) : Prop where
  attempted : r "attempted_count" = .int attempts.length
  success : r "success_count" = .int (successes attempts)
  failure : r "failure_count" = .int (attempts.length - successes attempts)
  confidence : attempts ≠ [] → score = some (ratio (successes attempts) attempts.length)

/-- The statistics of an action are those of its attempts. -/
structure StatsExact (r : Row) (score : Option Score) (attempts : List RecoveryAttempt) : Prop
    extends Counted ratio r score attempts where
  mean : RoundsMean (readAvg r) attempts

/-! ## One row -/

variable {ratio zero}

theorem plus_int (i : Int) (flag : Bool) :
    plus (.int i) (flagText flag) = some (i + flag.toNat) := by
  have hflag : operand (bindText (flagText flag)) = some (flag.toNat : Int) := by
    cases flag
    · decide
    · decide
  rw [plus, hflag]
  rfl

theorem plus_one (i : Int) : plus (.int i) (bytes "1") = some (i + 1) := plus_int i true

theorem insertInto_eq_some {table : TableName} {params : List (String × Bytes)}
    {tables after : Tables} {id : Int}
    (h : insertInto schema table params tables = some (id, after)) :
    id = (tables table).lastId + 1 ∧
      after = Function.update tables table
        ((tables table).insertRow (newRow (schema table) params)) := by
  rw [insertInto] at h
  split at h
  · obtain ⟨rfl, rfl⟩ := Prod.mk.inj (Option.some.inj h)
    exact ⟨rfl, rfl⟩
  · cases h

/-- The columns of a new action. -/
theorem counted_new {params : List (String × Bytes)} (score : Option Score)
    (h : ∀ name ∈ ["attempted_count", "success_count", "failure_count"],
      params.lookup name = none) :
    Counted ratio (newRow (schema .brainRecoveryActions) params) score [] := by
  have hattempted := h "attempted_count" (by simp)
  have hsuccess := h "success_count" (by simp)
  have hfailure := h "failure_count" (by simp)
  refine ⟨?_, ?_, ?_, fun hne => absurd rfl hne⟩
  · simp [newRow, bindRow, schema, reference, Column.bind, hattempted]
  · simp [newRow, bindRow, schema, reference, Column.bind, hsuccess, successes]
  · simp [newRow, bindRow, schema, reference, Column.bind, hfailure, successes]

theorem newRow_avg {params : List (String × Bytes)}
    (h : params.lookup "avg_execution_time_ms" = none) :
    newRow (schema .brainRecoveryActions) params "avg_execution_time_ms" = .null := by
  simp [newRow, bindRow, schema, reference, textColumns, integerColumns, Column.bind, h]

theorem successes_append (attempts : List RecoveryAttempt) (success : Bool) (ms : Int64) :
    successes (attempts ++ [(success, ms)]) = successes attempts + success.toNat := by
  have hlast : successes [(success, ms)] = success.toNat := by cases success <;> rfl
  rw [← hlast]
  exact List.countP_append ..

/-- One attempt more. -/
theorem Counted.attempt {r : Row} {score : Option Score} {attempts : List RecoveryAttempt}
    (h : Counted ratio r score attempts) (now : Int) (success : Bool) (ms : Int64) :
    Counted ratio (attemptRow now success ms r) (attemptScore ratio success r)
      (attempts ++ [(success, ms)]) where
  attempted := by
    simp only [attemptRow, if_pos, h.attempted, plus_one, result, List.length_append,
      List.length_singleton]
    rfl
  success := by
    simp only [attemptRow, reduceIte, String.reduceEq, h.success, plus_int, result,
      successes_append]
    rfl
  failure := by
    have hone : ((!success).toNat : Int) = 1 - success.toNat := by cases success <;> rfl
    simp only [attemptRow, reduceIte, String.reduceEq, h.failure, plus_int, result,
      successes_append, hone, List.length_append, List.length_singleton, Nat.cast_add,
      Nat.cast_one, Value.int.injEq]
    omega
  confidence _ := by
    simp only [attemptScore, h.success, h.attempted, plus_int, plus_one, successes_append,
      List.length_append, List.length_singleton, Nat.cast_add, Nat.cast_one]
    rfl

/-- The average stays what it is. -/
theorem attemptRow_avg {r : Row} (h : r "avg_execution_time_ms" = .null) (now : Int)
    (success : Bool) (ms : Int64) :
    attemptRow now success ms r "avg_execution_time_ms" = .null := by
  simp only [attemptRow, reduceIte, String.reduceEq, h]
  rfl

/-! ## Runs -/

/-- The invariant: each action that was added has its row, with the counts of its attempts
and no average. -/
structure Kept (ratio : Int → Int → Score) (t : Table Row) (confidence : Int → Option Score)
    (reported : Int → Option (List RecoveryAttempt)) : Prop where
  wf : t.Wf
  kept : ∀ id attempts, reported id = some attempts → ∃ r, t.get? id = some r ∧
    Counted ratio r (confidence id) attempts ∧ r "avg_execution_time_ms" = .null

def ActionHistory.Kept (ratio : Int → Int → Score) (s : ActionHistory Score) : Prop :=
  Nexus.Kept ratio s.actions s.db.confidence s.reported

theorem get?_insertRow_of_some {t : Table Row} {i : Int} {r : Row} (h : t.get? i = some r)
    (x : Row) : (t.insertRow x).get? i = some r := by
  obtain ⟨y, hy, rfl⟩ := Option.map_eq_some_iff.1 h
  rw [Table.get?, Table.insertRow, List.find?_append, hy]
  rfl

theorem get?_updateRow {t : Table Row} {i : Int} {r : Row} (h : t.get? i = some r) (j : Int)
    (f : Row → Row) : (t.updateRow j f).get? i = some (if i = j then f r else r) := by
  obtain ⟨x, hx, rfl⟩ := Option.map_eq_some_iff.1 h
  have hid : ((fun x : Int × Row => decide (x.1 = i)) ∘
      fun x => if x.1 = j then (x.1, f x.2) else x) = fun x => decide (x.1 = i) := by
    funext x
    simp only [Function.comp]
    split <;> rfl
  have hi : x.1 = i := by simpa using List.find?_some hx
  rw [Table.get?, Table.updateRow, List.find?_map, hid, hx, Option.map_some, Option.map_some, hi]
  split <;> rfl

section

variable {t : Table Row} {confidence : Int → Option Score}
  {reported : Int → Option (List RecoveryAttempt)}

/-- The new id is above all others, so their rows and attempts are as before. -/
theorem Kept.insert (h : Kept ratio t confidence reported) {r : Row}
    (hr : ∀ score : Option Score, Counted ratio r score [])
    (havg : r "avg_execution_time_ms" = .null) (score : Option Score) :
    Kept ratio (t.insertRow r) (Function.update confidence (t.lastId + 1) score)
      (Function.update reported (t.lastId + 1) (some [])) where
  wf := h.wf.insertRow r
  kept id attempts hid := by
    by_cases hnew : id = t.lastId + 1
    · subst hnew
      rw [Function.update_self] at hid
      rw [← Option.some.inj hid]
      exact ⟨r, Table.get?_of_mem (h.wf.insertRow r)
        (List.mem_append_right _ (List.mem_singleton.2 rfl)), hr _, havg⟩
    · rw [Function.update_of_ne hnew] at hid ⊢
      obtain ⟨r', hget, hcounted⟩ := h.kept id attempts hid
      exact ⟨r', get?_insertRow_of_some hget r, hcounted⟩

theorem Kept.update (h : Kept ratio t confidence reported) (now actionId : Int)
    (success : Bool) (ms : Int64) :
    Kept ratio (t.updateRow actionId (attemptRow now success ms))
      (fun id =>
        match t.get? id with
        | some r => if id = actionId then attemptScore ratio success r else confidence id
        | none => confidence id)
      (Function.update reported actionId
        ((reported actionId).map fun attempts => attempts ++ [(success, ms)])) where
  wf := h.wf.updateRow actionId _
  kept id attempts hid := by
    by_cases hsame : id = actionId
    · subst hsame
      rw [Function.update_self] at hid
      obtain ⟨before, hbefore, rfl⟩ := Option.map_eq_some_iff.1 hid
      obtain ⟨r, hget, hcounted, havg⟩ := h.kept id before hbefore
      refine ⟨_, get?_updateRow hget id _, ?_⟩
      rw [hget]
      dsimp only
      rw [if_pos rfl, if_pos rfl]
      exact ⟨hcounted.attempt now success ms, attemptRow_avg havg now success ms⟩
    · rw [Function.update_of_ne hsame] at hid
      obtain ⟨r, hget, hcounted⟩ := h.kept id attempts hid
      refine ⟨_, get?_updateRow hget actionId _, ?_⟩
      rw [hget]
      dsimp only
      rw [if_neg hsame, if_neg hsame]
      exact hcounted

end

variable (ratio zero) in
/-- A new action is refused or gets an id of its own. -/
theorem add_cases (db : ActionDb Score) (now : Int) (patternId failureId : Int64)
    (actionType params description : Bytes) (confirm : Bool) :
    db.add zero now patternId failureId actionType params description confirm = (0, db) ∨
      ∃ r, (∀ score : Option Score, Counted ratio r score []) ∧
        r "avg_execution_time_ms" = .null ∧
        db.add zero now patternId failureId actionType params description confirm =
          ((db.tables .brainRecoveryActions).lastId + 1,
            ⟨Function.update db.tables .brainRecoveryActions
                ((db.tables .brainRecoveryActions).insertRow r),
              Function.update db.confidence ((db.tables .brainRecoveryActions).lastId + 1)
                (some zero)⟩) := by
  rw [ActionDb.add]
  cases hadd : addRecoveryAction now db.tables patternId failureId actionType params description
    confirm with
  | none => exact Or.inl rfl
  | some added =>
      obtain ⟨id, tables⟩ := added
      obtain ⟨rfl, rfl⟩ := insertInto_eq_some hadd
      exact Or.inr ⟨_, fun score => counted_new score (by simp), newRow_avg (by simp), rfl⟩

theorem ActionHistory.Kept.step {s : ActionHistory Score} (h : s.Kept ratio)
    (call : ActionCall) : (s.step ratio zero call).Kept ratio := by
  cases call with
  | add now patternId failureId actionType params description confirm =>
      rcases add_cases ratio zero s.db now patternId failureId actionType params
        description confirm with heq | ⟨r, hr, havg, heq⟩
      · rw [ActionHistory.step, heq]
        exact h
      · have hnonneg := h.wf.lastId_nonneg
        have hne : (s.db.tables .brainRecoveryActions).lastId + 1 ≠ 0 :=
          ne_of_gt (Int.lt_add_one_of_le hnonneg)
        have hkept := Nexus.Kept.insert h hr havg (some zero)
        rw [ActionHistory.step, heq, ActionHistory.Kept, ActionHistory.actions]
        dsimp only
        rw [Function.update_self, if_neg hne]
        exact hkept
  | update now actionId success ms =>
      have hkept := Nexus.Kept.update h now actionId success ms
      rw [ActionHistory.step, ActionHistory.Kept, ActionHistory.actions, ActionDb.updateStats]
      dsimp only
      rw [Function.update_self]
      exact hkept

variable (ratio zero) in
theorem kept_run {db : ActionDb Score} (hdb : (db.tables .brainRecoveryActions).Wf)
    (calls : List ActionCall) : (ActionHistory.run ratio zero db calls).Kept ratio := by
  have hfold : ∀ s : ActionHistory Score, s.Kept ratio →
      (calls.foldl (ActionHistory.step ratio zero) s).Kept ratio := by
    induction calls with
    | nil => exact fun s h => h
    | cons call calls ih => exact fun s h => ih _ (h.step call)
  exact hfold _ ⟨hdb, fun _ _ h => by cases h⟩

/-- Zero is the mean where the times add up to less than there are attempts. -/
theorem roundsMean_zero {attempts : List RecoveryAttempt} :
    RoundsMean 0 attempts ↔ (attempts ≠ [] → |totalMs attempts| < attempts.length) := by
  rw [RoundsMean, zero_mul, zero_sub, abs_neg]

variable (ratio zero) in
/-- Of the statistics of an action in any run everything is exact but the average, which
is read as zero. -/
theorem statsExact_iff {db : ActionDb Score} (hdb : (db.tables .brainRecoveryActions).Wf)
    (calls : List ActionCall) (id : Int) (attempts : List RecoveryAttempt)
    (hadded : (ActionHistory.run ratio zero db calls).reported id = some attempts) :
    ∃ r, (ActionHistory.run ratio zero db calls).actions.get? id = some r ∧
      Counted ratio r ((ActionHistory.run ratio zero db calls).db.confidence id) attempts ∧
      (StatsExact ratio r ((ActionHistory.run ratio zero db calls).db.confidence id) attempts ↔
        (attempts ≠ [] → |totalMs attempts| < attempts.length)) := by
  obtain ⟨r, hget, hcounted, havg⟩ := (kept_run ratio zero hdb calls).kept id attempts hadded
  refine ⟨r, hget, hcounted, ?_⟩
  have hread : readAvg r = 0 := by
    rw [readAvg, havg]
    rfl
  rw [← roundsMean_zero, ← hread]
  exact ⟨fun hexact => hexact.mean, fun hmean => ⟨hcounted, hmean⟩⟩

end

/-- An action is added for a pattern and a failure, and one attempt is reported. -/
def oneAttempt (executionTimeMs : Int64) : List ActionCall :=
  [.add 0 1 1 (bytes "clean_build") (bytes "\x7b\x7d") [] true,
    .update 1 1 true executionTimeMs]

/-- One pattern, one failure and no actions. -/
def freshDb : ActionDb (Int × Int) where
  tables name :=
    if name = .brainFailurePatterns ∨ name = .workspaceFailures then
      Table.empty.insertRow fun _ => .null
    else .empty
  confidence _ := none

theorem freshDb_wf : (freshDb.tables .brainRecoveryActions).Wf := Table.wf_empty

/-- The run of that, a quotient kept as the pair of its numbers. -/
def oneAttemptRun (executionTimeMs : Int64) : ActionHistory (Int × Int) :=
  ActionHistory.run Prod.mk (0, 0) freshDb (oneAttempt executionTimeMs)

theorem statsExact_iff_atOnce : ∃ r, (oneAttemptRun 0).actions.get? 1 = some r ∧
    StatsExact Prod.mk r ((oneAttemptRun 0).db.confidence 1) [(true, 0)] := by
  obtain ⟨r, hget, -, hiff⟩ := statsExact_iff Prod.mk (0, 0) freshDb_wf (oneAttempt 0) 1
    [(true, 0)] (by rfl)
  exact ⟨r, hget, hiff.2 fun _ => by decide⟩

/-- An attempt that took five milliseconds leaves an average of zero. -/
theorem oneAttempt_not_exact : (oneAttemptRun 5).reported 1 = some [(true, 5)] ∧
    ∀ r, (oneAttemptRun 5).actions.get? 1 = some r →
      ¬ StatsExact Prod.mk r ((oneAttemptRun 5).db.confidence 1) [(true, 5)] := by
  have hkept := kept_run Prod.mk (0, 0) freshDb_wf (oneAttempt 5)
  have hadded : (oneAttemptRun 5).reported 1 = some [(true, 5)] := by rfl
  refine ⟨hadded, fun r hget h => ?_⟩
  obtain ⟨r', hget', -, havg⟩ := hkept.kept 1 [(true, 5)] hadded
  have hr : r' = r := Option.some.inj (hget'.symm.trans hget)
  have hmean := h.mean (List.cons_ne_nil _ _)
  rw [← hr, readAvg, havg] at hmean
  exact absurd hmean (by decide)

end Nazg.Nexus
