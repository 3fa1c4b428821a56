import Mathlib.Data.List.ReduceOption
import Nazg.Lib.Decimal
import Nazg.Lib.System
import Nazg.Lib.Transaction

/-!
# The migrator

A migration is a file whose name begins with its version. The migrator loads the files of
a directory, in whatever order they are listed, sorts them, and runs those above the
version of the database up to the target, each as one script. The version of the database
is the greatest in its table `schema_version`, into which a migration enters its own.

Of a database nothing matters but that table; the rest is any type. The effect of a
statement is a function on the contents, and which statement meets an error is for the
oracle to say.
-/

namespace Nazg.Nexus

open Lib

/-- The table `schema_version`, if it is there, and everything else. -/
structure Contents (σ : Type) where
  schemaVersion : Option (List Int)
  rest : σ

variable {σ : Type}

/-- The versions that are recorded. -/
def Contents.versions (x : Contents σ) : List Int := x.schemaVersion.getD []

/-- `get_schema_version`. -/
def Contents.getSchemaVersion (x : Contents σ) : Int := x.versions.max?.getD 0

/-- `INSERT OR IGNORE INTO schema_version`. -/
def insertVersion (version : Int) (x : Contents σ) : Contents σ :=
  { x with schemaVersion := x.schemaVersion.map fun vs =>
      if version ∈ vs then vs else vs ++ [version] }

structure Migration (σ : Type) where
  version : Int
  sql : List (Statement (Contents σ))

/-! ## Loading -/

structure DirEntry (σ : Type) where
  filename : Bytes
  isRegularFile : Bool
  /-- The script in the file, if it can be opened. -/
  sql : Option (List (Statement (Contents σ)))

/-- `std::regex_match` with `(\d+)_.*\.sql`: the digits. -/
def versionDigits (filename : Bytes) : Option Bytes :=
  let digits := filename.takeWhile isDigit
  match filename.dropWhile isDigit with
  | 95 :: rest =>
      if digits ≠ [] ∧ bytes ".sql" <:+ rest ∧ ∀ c ∈ rest, c ≠ 10 ∧ c ≠ 13 then some digits
      else none
  | _ => none

/-- One turn of the loop over the directory: the migration, if the entry is one. Outside
is the exception of `std::stoi`. -/
def DirEntry.read (e : DirEntry σ) : Option (Option (Migration σ)) :=
  if ¬ e.isRegularFile then some none
  else
    match versionDigits e.filename with
    | none => some none
    | some digits =>
        match stoi digits with
        | none => none
        | some version => some (e.sql.map fun sql => ⟨version, sql⟩)

/-- `load_migrations`, of a directory that is there. -/
def loadMigrations (entries : List (DirEntry σ)) : Option (List (Migration σ)) :=
  (entries.mapM DirEntry.read).map fun ms =>
    ms.reduceOption.mergeSort fun a b => a.version ≤ b.version

def latestVersion (ms : List (Migration σ)) : Int := (ms.getLast?.map Migration.version).getD 0

/-! ## Migrating -/

/-- What a call of the migrator returned, what it left, and the versions it logged as
applied. -/
structure MigrationRun (σ : Type) where
  ok : Bool
  conn : Connection (Contents σ)
  applied : List Int

/-- `apply_migration`. -/
def applyMigration (faults : Nat → Option Fault) (m : Migration σ)
    (c : Connection (Contents σ)) : Bool × Connection (Contents σ) :=
  Connection.runScript faults 0 m.sql c

/-- The loop of `migrate_to`; the oracle is asked about the scripts in the order they are
run. -/
def migrateLoop (faults : Nat → Nat → Option Fault) (current target : Int) :
    Nat → List (Migration σ) → Connection (Contents σ) → MigrationRun σ
  | _, [], c => ⟨true, c, []⟩
  | k, m :: ms, c =>
      if m.version ≤ current then migrateLoop faults current target k ms c
      else if target < m.version then ⟨true, c, []⟩
      else
        match applyMigration (faults k) m c with
        | (false, c) => ⟨false, c, []⟩
        | (true, c) =>
            let run := migrateLoop faults current target (k + 1) ms c
            { run with applied := m.version :: run.applied }

/-- `migrate_to`. -/
def migrateTo (faults : Nat → Nat → Option Fault) (ms : List (Migration σ)) (target : Int)
    (c : Connection (Contents σ)) : MigrationRun σ :=
  let current := c.current.getSchemaVersion
  if target ≤ current then ⟨true, c, []⟩ else migrateLoop faults current target 0 ms c

/-- `migrate`. -/
def migrate (faults : Nat → Nat → Option Fault) (ms : List (Migration σ))
    (c : Connection (Contents σ)) : MigrationRun σ :=
  migrateTo faults ms (latestVersion ms) c

/-! ## Runs -/

/-- A database, the migrator on it, and the versions applied so far, in order. -/
structure MigratorState (σ : Type) where
  conn : Connection (Contents σ)
  migrations : List (Migration σ)
  applied : List Int

inductive MigratorEvent (σ : Type) where
  /-- Another connection, which knows nothing of an open transaction, and another migrator,
  which loads what is there now. -/
  | restart (entries : List (DirEntry σ))
  | migrateTo (target : Int) (faults : Nat → Nat → Option Fault)
  | migrate (faults : Nat → Nat → Option Fault)

namespace MigratorState

def version (s : MigratorState σ) : Int := s.conn.current.getSchemaVersion

/-- The state after a call. -/
def after (s : MigratorState σ) (run : MigrationRun σ) : MigratorState σ :=
  { s with conn := run.conn, applied := s.applied ++ run.applied }

def step (s : MigratorState σ) : MigratorEvent σ → Option (MigratorState σ)
  | .restart entries => (loadMigrations entries).map fun ms =>
      { s with conn := { s.conn with working := none }, migrations := ms }
  | .migrateTo target faults => some (s.after (Nexus.migrateTo faults s.migrations target s.conn))
  | .migrate faults => some (s.after (Nexus.migrate faults s.migrations s.conn))

/-- A database without a version table, before any migrator. -/
def system (rest : σ) : System (MigratorState σ) (MigratorEvent σ) :=
  ⟨⟨⟨⟨none, rest⟩, none⟩, [], []⟩, step⟩

end MigratorState

/-! ## Scripts of the repository's form -/

/-- Pragmas, a transaction that ends with the insertion of the version, pragmas. -/
structure ScriptFile (σ : Type) where
  version : Int
  before : Nat
  body : List (Contents σ → Contents σ)
  after : Nat

namespace ScriptFile

def transaction (s : ScriptFile σ) : Transaction (Contents σ) :=
  ⟨s.before, s.body ++ [insertVersion s.version], s.after⟩

def migration (s : ScriptFile σ) : Migration σ := ⟨s.version, s.transaction.statements⟩

end ScriptFile

end Nazg.Nexus
