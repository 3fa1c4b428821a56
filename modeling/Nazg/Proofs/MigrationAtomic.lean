import Nazg.Nexus.Migrator

/-!
# What a failing migration leaves behind

Every script brings its own BEGIN and COMMIT, and nobody brings a ROLLBACK. A statement
that fails between them leaves its transaction open, unless the error is of the kind on
which the engine rolls it back; the connection then sees changes that are not committed,
and no later script can begin.
-/

namespace Nazg.Nexus

open Lib

variable {σ : Type} {faults : Nat → Nat → Option Fault}

/-! ## The scripts that are run -/

/-- The scripts that a call runs if none fails. -/
def pending (current target : Int) (ss : List (ScriptFile σ)) : List (ScriptFile σ) :=
  (ss.filter fun s => current < s.version).takeWhile fun s => s.version ≤ target

/-- The first script to fail, with the statement and the error. -/
def firstFailure (faults : Nat → Nat → Option Fault) :
    Nat → List (ScriptFile σ) → Option (ScriptFile σ × Nat × Fault)
  | _, [] => none
  | k, s :: ss =>
      match firstFault (faults k) s.transaction.statements.length with
      | some (j, f) => some (s, j, f)
      | none => firstFailure faults (k + 1) ss

/-- The scripts whose COMMIT is executed. -/
def completed (faults : Nat → Nat → Option Fault) :
    Nat → List (ScriptFile σ) → List (ScriptFile σ)
  | _, [] => []
  | k, s :: ss =>
      match firstFault (faults k) s.transaction.statements.length with
      | some (j, _) => if s.transaction.commitAt < j then [s] else []
      | none => s :: completed faults (k + 1) ss

/-- The contents after some scripts. -/
def afterAll (ss : List (ScriptFile σ)) (x : Contents σ) : Contents σ :=
  ss.foldl (fun x s => s.transaction.apply x) x

/-- The connection is outside any transaction, and the contents are those after the last
migration that completed. -/
def Atomic (faults : Nat → Nat → Option Fault) (ss : List (ScriptFile σ)) (x : Contents σ)
    (c : Connection (Contents σ)) : Prop :=
  c = ⟨afterAll (completed faults 0 ss) x, none⟩

/-- A failing statement does no harm before or at the BEGIN, behind the COMMIT, and when
the engine rolls back. -/
def Harmless (s : ScriptFile σ) (j : Nat) (f : Fault) : Prop :=
  j ≤ s.transaction.before ∨ s.transaction.commitAt < j ∨ f = .rollback

/-- What the failing statement leaves, and which scripts count as completed. -/
theorem migrateLoop_fails {current target : Int} {k : Nat} {ss : List (ScriptFile σ)}
    {x : Contents σ}
    (h : (migrateLoop faults current target k (ss.map ScriptFile.migration) ⟨x, none⟩).ok = false) :
    ∃ (done : List (ScriptFile σ)) (s : ScriptFile σ) (j : Nat) (f : Fault),
      firstFailure faults k (pending current target ss) = some (s, j, f) ∧
      j < s.transaction.statements.length ∧
      completed faults k (pending current target ss) =
        (if s.transaction.commitAt < j then done ++ [s] else done) ∧
      (migrateLoop faults current target k (ss.map ScriptFile.migration) ⟨x, none⟩).conn =
        (s.transaction.reached j (afterAll done x)).fail f := by
  induction ss generalizing k x with
  | nil => cases h
  | cons s ss ih =>
      rw [List.map_cons, migrateLoop] at h ⊢
      by_cases hskip : s.version ≤ current
      · have hpending : pending current target (s :: ss) = pending current target ss := by
          rw [pending, List.filter_cons_of_neg (by simpa using hskip), ← pending]
        have hversion : s.migration.version ≤ current := hskip
        rw [if_pos hversion] at h ⊢
        rw [hpending]
        exact ih h
      · have hversion : ¬ s.migration.version ≤ current := hskip
        rw [if_neg hversion] at h ⊢
        by_cases hbeyond : target < s.version
        · have hbeyond' : target < s.migration.version := hbeyond
          rw [if_pos hbeyond'] at h
          cases h
        · have hbeyond' : ¬ target < s.migration.version := hbeyond
          have hpending : pending current target (s :: ss) = s :: pending current target ss := by
            rw [pending, List.filter_cons_of_pos (by simpa using hskip),
              List.takeWhile_cons_of_pos (by simpa using hbeyond), ← pending]
          have hrun := s.transaction.run_eq (faults k) x
          rw [if_neg hbeyond'] at h ⊢
          rw [hpending, firstFailure, completed]
          simp only [applyMigration, ScriptFile.migration] at h ⊢
          cases hfault : firstFault (faults k) s.transaction.statements.length with
          | some p =>
              obtain ⟨j, f⟩ := p
              rw [hfault] at hrun
              refine ⟨[], s, j, f, rfl, (firstFault_eq_some hfault).1, rfl, ?_⟩
              rw [hrun]
              rfl
          | none =>
              rw [hfault] at hrun
              simp only [hrun] at h ⊢
              obtain ⟨done, s', j, f, hfailure, hj, hcompleted, hconn⟩ := ih h
              refine ⟨s :: done, s', j, f, hfailure, hj, ?_, hconn⟩
              rw [hcompleted]
              split <;> rfl

/-- After a call that fails, migration was atomic exactly if the statement that failed does
no harm. -/
theorem atomic_iff (ss : List (ScriptFile σ)) (target : Int) (x : Contents σ)
    (h : (migrateTo faults (ss.map ScriptFile.migration) target ⟨x, none⟩).ok = false) :
    Atomic faults (pending x.getSchemaVersion target ss) x
        (migrateTo faults (ss.map ScriptFile.migration) target ⟨x, none⟩).conn ↔
      ∀ s j f, firstFailure faults 0 (pending x.getSchemaVersion target ss) = some (s, j, f) →
        Harmless s j f := by
  have hcurrent : (⟨x, none⟩ : Connection (Contents σ)).current = x := rfl
  simp only [migrateTo, hcurrent] at h ⊢
  split at h
  · cases h
  · next hbehind =>
      obtain ⟨done, s, j, f, hfailure, hj, hcompleted, hconn⟩ := migrateLoop_fails h
      have hafter : afterAll (done ++ [s]) x = s.transaction.apply (afterAll done x) := by
        rw [afterAll, List.foldl_append]
        rfl
      rw [if_neg hbehind, hconn, hfailure, Atomic, hcompleted]
      simp only [Option.some.injEq, Prod.mk.injEq, and_imp, Harmless, Transaction.reached]
      constructor
      · rintro hatomic _ _ _ rfl rfl rfl
        by_contra hharm
        simp only [not_or, not_le, not_lt] at hharm
        obtain ⟨hbegun, hopen, hf⟩ := hharm
        cases f with
        | rollback => exact hf rfl
        | statement =>
            rw [if_neg (by omega), if_pos hopen] at hatomic
            exact absurd (congrArg Connection.working hatomic) (by simp [Connection.fail])
      · intro hharmless
        rcases hharmless s j f rfl rfl rfl with hbefore | hcommitted | rfl
        · have hnot : ¬ s.transaction.commitAt < j := by
            rw [Transaction.commitAt]
            omega
          rw [if_pos hbefore, if_neg hnot]
          cases f <;> rfl
        · have hbefore : ¬ j ≤ s.transaction.before := by
            rw [Transaction.commitAt] at hcommitted
            omega
          rw [if_neg hbefore, if_neg (by omega), if_pos hcommitted, hafter]
          cases f <;> rfl
        · by_cases hbefore : j ≤ s.transaction.before
          · have hnot : ¬ s.transaction.commitAt < j := by
              rw [Transaction.commitAt]
              omega
            rw [if_pos hbefore, if_neg hnot]
            rfl
          · by_cases hcommitted : s.transaction.commitAt < j
            · rw [if_neg hbefore, if_neg (by omega), if_pos hcommitted, hafter]
              rfl
            · rw [if_neg hbefore, if_pos (by omega), if_neg hcommitted]
              rfl

/-! ## A transaction that stays open -/

/-- A script cannot begin inside a transaction, whatever else goes wrong. -/
theorem runScript_of_open {α : Type} {faults : Nat → Option Fault} {i n : Nat}
    {ss : List (Statement α)} {c : Connection α} (hopen : c.working.isSome = true) :
    (Connection.runScript faults i
      (List.replicate n .pragma ++ .beginTransaction :: ss) c).1 = false := by
  obtain ⟨w, hw⟩ := Option.isSome_iff_exists.1 hopen
  induction n generalizing i with
  | zero =>
      rw [List.replicate_zero, List.nil_append, Connection.runScript]
      split
      · rfl
      · simp only [Connection.execute, hw]
  | succ n ih =>
      rw [List.replicate_succ, List.cons_append, Connection.runScript]
      split
      · rfl
      · exact ih

theorem migrateLoop_of_open {current target : Int} {k : Nat} {ss : List (ScriptFile σ)}
    {c : Connection (Contents σ)} (hopen : c.working.isSome = true)
    (hpending : pending current target ss ≠ []) :
    (migrateLoop faults current target k (ss.map ScriptFile.migration) c).ok = false := by
  induction ss with
  | nil => exact absurd rfl hpending
  | cons s ss ih =>
      rw [List.map_cons, migrateLoop]
      by_cases hskip : s.version ≤ current
      · have hversion : s.migration.version ≤ current := hskip
        rw [pending, List.filter_cons_of_neg (by simpa using hskip), ← pending] at hpending
        rw [if_pos hversion]
        exact ih hpending
      · have hversion : ¬ s.migration.version ≤ current := hskip
        rw [pending, List.filter_cons_of_pos (by simpa using hskip), List.takeWhile_cons] at hpending
        have hreached : ¬ target < s.migration.version := by
          intro hbeyond
          have hbeyond' : ¬ s.version ≤ target := not_le.2 hbeyond
          rw [decide_eq_false hbeyond'] at hpending
          exact hpending rfl
        have hrun : (applyMigration (faults k) s.migration c).1 = false := runScript_of_open hopen
        rw [if_neg hversion, if_neg hreached]
        cases happly : applyMigration (faults k) s.migration c with
        | mk ok d =>
            rw [happly] at hrun
            cases hrun
            rfl

/-- A connection left in a transaction does not migrate any further. -/
theorem migrateTo_of_open {ss : List (ScriptFile σ)} {target : Int} {c : Connection (Contents σ)}
    (hopen : c.working.isSome = true)
    (hpending : pending c.current.getSchemaVersion target ss ≠ []) :
    (migrateTo faults (ss.map ScriptFile.migration) target c).ok = false := by
  rw [migrateTo]
  split
  · next hdone =>
      refine absurd ?_ hpending
      rw [pending, List.takeWhile_eq_nil_iff]
      intro hlen
      have hahead := of_decide_eq_true (List.mem_filter.1 (List.getElem_mem hlen)).2
      simpa using hdone.trans_lt hahead
  · exact migrateLoop_of_open hopen hpending

/-! ## Two errors -/

/-- A first migration: the version table and one other. -/
def initScript : ScriptFile (List String) where
  version := 1
  before := 1
  body := [fun x => { x with schemaVersion := some (x.schemaVersion.getD []) },
    fun x => { x with rest := x.rest ++ ["projects"] }]
  after := 0

def emptyDatabase : Contents (List String) := ⟨none, []⟩

/-- The statement that creates the second table fails. -/
def failsAtTable (f : Fault) : Nat → Nat → Option Fault := fun _ j => if j = 3 then some f else none

/-- On a full disk the engine rolls back. -/
theorem atomic_iff_fullDisk : Atomic (failsAtTable .rollback) (pending 0 1 [initScript])
    emptyDatabase (migrateTo (failsAtTable .rollback) ([initScript].map ScriptFile.migration) 1
      ⟨emptyDatabase, none⟩).conn := by
  refine (atomic_iff [initScript] 1 emptyDatabase rfl).2 fun s j f h => Or.inr (Or.inr ?_)
  cases h
  rfl

/-- After an error in the SQL the transaction is open, and the next attempt fails at its
BEGIN although nothing is wrong any more. -/
theorem sqlError_stays_open :
    (migrateTo (failsAtTable .statement) ([initScript].map ScriptFile.migration) 1
      ⟨emptyDatabase, none⟩).ok = false ∧
    ¬ Atomic (failsAtTable .statement) (pending 0 1 [initScript]) emptyDatabase
      (migrateTo (failsAtTable .statement) ([initScript].map ScriptFile.migration) 1
        ⟨emptyDatabase, none⟩).conn ∧
    (migrateTo (fun _ _ => none) ([initScript].map ScriptFile.migration) 1
      (migrateTo (failsAtTable .statement) ([initScript].map ScriptFile.migration) 1
        ⟨emptyDatabase, none⟩).conn).ok = false := by
  refine ⟨rfl, fun h => ?_, rfl⟩
  have hworking := congrArg (fun c => c.working.isSome) h
  exact absurd hworking (by decide)

end Nazg.Nexus
