import Mathlib.Data.List.Basic

/-!
# Scripts on a connection with transactions

A connection has its committed contents and, inside a transaction, a working copy. A
script is run statement by statement up to the first error, and nothing is done about the
error: what it leaves is what the engine leaves. Most errors undo the statement that met
them and leave the transaction open; with some (a full disk, an I/O error) the engine
rolls the transaction back.

Which statement meets an error is up to an oracle. `runScript_completes` and
`runScript_fails` reduce a run to `play`, the run without errors; `Transaction.run_eq`
does the rest for a script that is one transaction between pragmas.
-/

namespace Nazg.Lib

/-- An error: it ends the statement, or the transaction with it. -/
inductive Fault where
  | statement
  | rollback
  deriving DecidableEq

inductive Statement (α : Type*) where
  | pragma
  | beginTransaction
  | commit
  | exec (f : α → α)

structure Connection (α : Type*) where
  committed : α
  working : Option α := none

namespace Connection

variable {α : Type*}

/-- What a statement on the connection sees. -/
def current (c : Connection α) : α := c.working.getD c.committed

/-- What an error leaves. -/
def fail (c : Connection α) : Fault → Connection α
  | .statement => c
  | .rollback => { c with working := none }

/-- A statement that meets no error of the engine. A transaction cannot be opened inside
another, nor closed outside one. -/
def execute (c : Connection α) : Statement α → Option (Connection α)
  | .pragma => some c
  | .beginTransaction =>
      match c.working with
      | none => some { c with working := some c.committed }
      | some _ => none
  | .commit => c.working.map fun x => ⟨x, none⟩
  | .exec f =>
      match c.working with
      | none => some ⟨f c.committed, none⟩
      | some x => some { c with working := some (f x) }

/-- The statements one after the other, without errors. -/
def play (c : Connection α) (ss : List (Statement α)) : Option (Connection α) :=
  ss.foldlM execute c

/-- `sqlite3_exec` on a script: whether it went through, and what it left. -/
def runScript (faults : Nat → Option Fault) : Nat → List (Statement α) → Connection α →
    Bool × Connection α
  | _, [], c => (true, c)
  | i, s :: ss, c =>
      match faults i with
      | some f => (false, c.fail f)
      | none =>
          match c.execute s with
          | some c => runScript faults (i + 1) ss c
          | none => (false, c)

/-- The error that ends a script, where errors say more of themselves than what they end;
`refusal` is the one of the engine itself. -/
def scriptError {ε : Type*} (refusal : Statement α → ε) (errors : Nat → Option ε) :
    Nat → List (Statement α) → Connection α → Option ε
  | _, [], _ => none
  | i, s :: ss, c =>
      match errors i with
      | some e => some e
      | none =>
          match c.execute s with
          | some c => scriptError refusal errors (i + 1) ss c
          | none => some (refusal s)

theorem runScript_fst {ε : Type*} (refusal : Statement α → ε) (fault : ε → Fault)
    (errors : Nat → Option ε) (i : Nat) (ss : List (Statement α)) (c : Connection α) :
    (runScript (fun i => (errors i).map fault) i ss c).1 =
      (scriptError refusal errors i ss c).isNone := by
  induction ss generalizing i c with
  | nil => rfl
  | cons s ss ih =>
      rw [runScript, scriptError]
      cases errors i with
      | some e => rfl
      | none =>
          cases h : c.execute s with
          | some d => simpa only [Option.map_none, h] using ih (i + 1) d
          | none => simp only [Option.map_none, Option.isNone_some]

theorem play_append (c : Connection α) (ss ts : List (Statement α)) :
    c.play (ss ++ ts) = (c.play ss).bind fun c => c.play ts := by
  rw [play, List.foldlM_append]
  rfl

theorem play_pragmas (c : Connection α) (n : Nat) :
    c.play (List.replicate n .pragma) = some c := by
  induction n with
  | zero => rfl
  | succ n ih => exact ih

theorem play_execs (c x : α) (fs : List (α → α)) :
    (⟨c, some x⟩ : Connection α).play (fs.map .exec) =
      some ⟨c, some (fs.foldl (fun x f => f x) x)⟩ := by
  induction fs generalizing x with
  | nil => rfl
  | cons f fs ih => exact ih (f x)

/-- A run that meets no error. -/
theorem runScript_completes {faults : Nat → Option Fault} {ss : List (Statement α)} {i : Nat}
    {c c' : Connection α} (hnone : ∀ k < ss.length, faults (i + k) = none)
    (hplay : c.play ss = some c') : runScript faults i ss c = (true, c') := by
  induction ss generalizing i c with
  | nil =>
      cases hplay
      rfl
  | cons s ss ih =>
      obtain ⟨d, hd, hplay⟩ := Option.bind_eq_some_iff.1 hplay
      have h0 : faults i = none := hnone 0 (Nat.succ_pos _)
      simp only [runScript, h0, hd]
      refine ih (fun k hk => ?_) hplay
      rw [Nat.add_right_comm, Nat.add_assoc]
      exact hnone (k + 1) (Nat.succ_lt_succ hk)

/-- A run that went through met none. -/
theorem play_of_runScript {faults : Nat → Option Fault} {ss : List (Statement α)} {i : Nat}
    {c c' : Connection α} (h : runScript faults i ss c = (true, c')) : c.play ss = some c' := by
  induction ss generalizing i c with
  | nil =>
      cases h
      rfl
  | cons s ss ih =>
      rw [runScript] at h
      split at h
      · cases h
      · split at h
        · next d hd => exact Option.bind_eq_some_iff.2 ⟨d, hd, ih h⟩
        · cases h

/-- A run whose first error is met by the statement `j`. -/
theorem runScript_fails {faults : Nat → Option Fault} {ss : List (Statement α)} {i j : Nat}
    {f : Fault} {c c' : Connection α} (hj : j < ss.length)
    (hnone : ∀ k < j, faults (i + k) = none) (hf : faults (i + j) = some f)
    (hplay : c.play (ss.take j) = some c') : runScript faults i ss c = (false, c'.fail f) := by
  induction ss generalizing i j c with
  | nil => cases hj
  | cons s ss ih =>
      cases j with
      | zero =>
          cases hplay
          rw [Nat.add_zero] at hf
          simp only [runScript, hf]
      | succ j =>
          obtain ⟨d, hd, hplay⟩ := Option.bind_eq_some_iff.1 hplay
          have h0 : faults i = none := hnone 0 (Nat.succ_pos _)
          simp only [runScript, h0, hd]
          refine ih (Nat.lt_of_succ_lt_succ hj) (fun k hk => ?_) ?_ hplay
          · rw [Nat.add_right_comm, Nat.add_assoc]
            exact hnone (k + 1) (Nat.succ_lt_succ hk)
          · rw [Nat.add_right_comm, Nat.add_assoc]
            exact hf

end Connection

/-- The first statement to meet an error, of the first `n`. -/
def firstFault (faults : Nat → Option Fault) (n : Nat) : Option (Nat × Fault) :=
  (List.range n).findSome? fun i => (faults i).map fun f => (i, f)

theorem firstFault_eq_none {faults : Nat → Option Fault} {n : Nat} (h : firstFault faults n = none) :
    ∀ k < n, faults k = none := by
  intro k hk
  have hnone := List.findSome?_eq_none_iff.1 h k (List.mem_range.2 hk)
  simpa using hnone

theorem firstFault_eq_some {faults : Nat → Option Fault} {n j : Nat} {f : Fault}
    (h : firstFault faults n = some (j, f)) :
    j < n ∧ faults j = some f ∧ ∀ k < j, faults k = none := by
  induction n with
  | zero => cases h
  | succ n ih =>
      rw [firstFault, List.range_succ, List.findSome?_append, ← firstFault] at h
      cases hn : firstFault faults n with
      | some p =>
          rw [hn] at h
          cases h
          obtain ⟨hj, hrest⟩ := ih hn
          exact ⟨Nat.lt_succ_of_lt hj, hrest⟩
      | none =>
          rw [hn] at h
          cases hf : faults n with
          | none => simp [hf] at h
          | some g =>
              have heq : (n, g) = (j, f) := by simpa [hf] using h
              cases heq
              exact ⟨Nat.lt_succ_self _, hf, firstFault_eq_none hn⟩

/-- A transaction between pragmas. -/
structure Transaction (α : Type*) where
  before : Nat
  body : List (α → α)
  after : Nat

namespace Transaction

variable {α : Type*} (s : Transaction α)

/-- What follows the BEGIN. -/
def rest : List (Statement α) :=
  s.body.map .exec ++ .commit :: List.replicate s.after .pragma

def statements : List (Statement α) :=
  List.replicate s.before .pragma ++ .beginTransaction :: s.rest

/-- The position of the COMMIT. -/
def commitAt : Nat := s.before + 1 + s.body.length

/-- What the transaction does when it completes. -/
def apply (x : α) : α := s.body.foldl (fun x f => f x) x

/-- What is there before the statement at a position. -/
def reached (j : Nat) (x : α) : Connection α :=
  if j ≤ s.before then ⟨x, none⟩
  else if j ≤ s.commitAt then
    ⟨x, some ((s.body.take (j - s.before - 1)).foldl (fun x f => f x) x)⟩
  else ⟨s.apply x, none⟩

theorem length_statements : s.statements.length = s.commitAt + 1 + s.after := by
  simp [statements, rest, commitAt]
  omega

theorem play_take (j : Nat) (x : α) :
    (⟨x, none⟩ : Connection α).play (s.statements.take j) = some (s.reached j x) := by
  rw [statements, reached]
  by_cases hbefore : j ≤ s.before
  · rw [if_pos hbefore, List.take_append_of_le_length (by simpa using hbefore),
      List.take_replicate]
    exact Connection.play_pragmas _ _
  · obtain ⟨k, rfl⟩ : ∃ k, j = s.before + (k + 1) := ⟨j - s.before - 1, by omega⟩
    have htake : (List.replicate s.before Statement.pragma ++ Statement.beginTransaction ::
        s.rest).take (s.before + (k + 1)) =
          List.replicate s.before Statement.pragma ++ Statement.beginTransaction ::
            s.rest.take k := by
      rw [List.take_append]
      simp
    have hopen : ∀ ts, (⟨x, none⟩ : Connection α).play (List.replicate s.before Statement.pragma ++
        Statement.beginTransaction :: ts) = (⟨x, some x⟩ : Connection α).play ts := by
      intro ts
      rw [Connection.play_append, Connection.play_pragmas]
      rfl
    have hk : s.before + (k + 1) - s.before - 1 = k := by omega
    rw [if_neg hbefore, htake, hopen, hk, rest]
    by_cases hcommit : k ≤ s.body.length
    · rw [if_pos (by rw [commitAt]; omega), List.take_append_of_le_length (by simpa using hcommit),
        ← List.map_take]
      exact Connection.play_execs _ _ _
    · obtain ⟨m, rfl⟩ : ∃ m, k = s.body.length + (m + 1) := ⟨k - s.body.length - 1, by omega⟩
      have htake : (s.body.map Statement.exec ++ Statement.commit ::
          List.replicate s.after .pragma).take (s.body.length + (m + 1)) =
            s.body.map Statement.exec ++ Statement.commit ::
              (List.replicate s.after Statement.pragma).take m := by
        rw [List.take_append, List.take_of_length_le (by simp)]
        simp
      rw [if_neg (by rw [commitAt]; omega), htake, Connection.play_append, Connection.play_execs,
        Option.bind_some, List.take_replicate]
      exact Connection.play_pragmas _ _

/-- A run outside any transaction, by its first error. -/
theorem run_eq (faults : Nat → Option Fault) (x : α) :
    Connection.runScript faults 0 s.statements ⟨x, none⟩ =
      match firstFault faults s.statements.length with
      | none => (true, ⟨s.apply x, none⟩)
      | some (j, f) => (false, (s.reached j x).fail f) := by
  cases h : firstFault faults s.statements.length with
  | none =>
      have hplay := s.play_take s.statements.length x
      have hend : s.reached s.statements.length x = ⟨s.apply x, none⟩ := by
        have hlength := s.length_statements
        have hcommit : s.commitAt = s.before + 1 + s.body.length := rfl
        rw [reached, if_neg (by omega), if_neg (by omega)]
      rw [List.take_length, hend] at hplay
      refine Connection.runScript_completes (fun k hk => ?_) hplay
      rw [Nat.zero_add]
      exact firstFault_eq_none h k hk
  | some p =>
      obtain ⟨j, f⟩ := p
      obtain ⟨hj, hf, hnone⟩ := firstFault_eq_some h
      refine Connection.runScript_fails hj (fun k hk => ?_) ?_ (s.play_take j x)
      · rw [Nat.zero_add]
        exact hnone k hk
      · rw [Nat.zero_add]
        exact hf

end Transaction

end Nazg.Lib

/-!
## A database file and its write-ahead log

What a database in WAL mode holds is its file with the committed transactions of the log
played over it. The two are files of their own: to take the database away leaves the log,
and played over a new file of the same name it would bring pages back. It is not played:
a connection that finds the file missing or empty deletes the log next to it.
-/

namespace Nazg.Lib

/-- A committed transaction of the log: the pages it writes and the size it leaves. -/
structure Commit (Page : Type*) where
  frames : List (Nat × Page)
  size : Nat

structure DbFiles (Page : Type*) where
  /-- The file itself, if it is there. -/
  main : Option (List Page)
  log : List (Commit Page)

variable {Page : Type*} [Inhabited Page]

def Commit.apply (pages : List Page) (c : Commit Page) : List Page :=
  (List.range c.size).map fun n => (c.frames.lookup n).getD (pages.getD n default)

namespace DbFiles

/-- The file with its log played over it. -/
def pages (f : DbFiles Page) : List Page := f.log.foldl Commit.apply (f.main.getD [])

/-- What a connection finds when it first reads. -/
def attach (f : DbFiles Page) : DbFiles Page :=
  match f.main with
  | none | some [] => ⟨some [], []⟩
  | some _ => f

/-- The log is moved into the file. -/
def checkpoint (f : DbFiles Page) : DbFiles Page := ⟨some f.pages, []⟩

/-- The file is removed, and only the file. -/
def unlink (f : DbFiles Page) : DbFiles Page := { f with main := none }

@[simp] theorem pages_checkpoint (f : DbFiles Page) : f.checkpoint.pages = f.pages := rfl

/-- Nothing of the log comes back. -/
@[simp] theorem pages_attach_unlink (f : DbFiles Page) : f.unlink.attach.pages = [] := rfl

omit [Inhabited Page] in
theorem main_attach (f : DbFiles Page) : f.attach.main.isSome := by
  rw [attach]
  split
  · rfl
  · rfl
  · next h => rw [h]; rfl

end DbFiles

end Nazg.Lib
