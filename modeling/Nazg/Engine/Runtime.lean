import Nazg.Lib.Transaction
import Nazg.Nexus.Migrator

/-!
# How `initialize` fails

`Store::initialize` migrates the database and keeps a text of what went wrong in
`last_init_error_`. The text is all it keeps: whether SQLite reported the file itself as
damaged, or a statement of a migration failed on a sound one, cannot be told from it.

How contents lie in the pages of a file is up to the engine. A file whose pages hold no
database is a malformed one; there SQLite may report anything.
-/

namespace Nazg.Nexus

open Lib

/-- An error of a statement. -/
structure SqlError where
  /-- What it ends. -/
  fault : Fault
  /-- `err_msg` of `sqlite3_exec`, which may be null. -/
  errMsg : Option Text

/-- What `execute_script` makes of the message. -/
def lastError (errMsg : Option Text) : Bytes :=
  match errMsg with
  | some msg => msg.bytes
  | none => bytes "Unknown error"

/-- What cannot be executed for the state the connection is in. -/
def refusal {α : Type} : Statement α → SqlError
  | .beginTransaction =>
      ⟨.statement, some (.ofCStr (bytes "cannot start a transaction within a transaction"))⟩
  | .commit => ⟨.statement, some (.ofCStr (bytes "cannot commit - no transaction is active"))⟩
  | _ => ⟨.statement, none⟩

inductive Failure where
  | notConnected
  /-- A statement of a migration failed. -/
  | sql (e : SqlError)
  /-- SQLite reported the file itself (`SQLITE_CORRUPT`, `SQLITE_NOTADB`). -/
  | corrupt (errMsg : Option Text)

/-- `last_init_error_`. -/
def Failure.lastInitError : Failure → Bytes
  | .notConnected => bytes "Database connection not established"
  | .sql e => bytes "Migration failed: " ++ lastError e.errMsg
  | .corrupt errMsg => bytes "Migration failed: " ++ lastError errMsg

section

variable {σ : Type}

/-- The error that ends the loop of `migrate_to`. -/
def migrateError (errors : Nat → Nat → Option SqlError) (current target : Int) :
    Nat → List (Migration σ) → Connection (Contents σ) → Option SqlError
  | _, [], _ => none
  | k, m :: ms, c =>
      if m.version ≤ current then migrateError errors current target k ms c
      else if target < m.version then none
      else
        match Connection.scriptError refusal (errors k) 0 m.sql c with
        | some e => some e
        | none =>
            migrateError errors current target (k + 1) ms
              (applyMigration (fun i => (errors k i).map SqlError.fault) m c).2

/-- There is such an error exactly if the migration fails. -/
theorem migrateLoop_ok (errors : Nat → Nat → Option SqlError) (current target : Int) (k : Nat)
    (ms : List (Migration σ)) (c : Connection (Contents σ)) :
    (migrateLoop (fun k i => (errors k i).map SqlError.fault) current target k ms c).ok =
      (migrateError errors current target k ms c).isNone := by
  induction ms generalizing k c with
  | nil => rfl
  | cons m ms ih =>
      rw [migrateLoop, migrateError]
      split
      · exact ih k c
      · split
        · rfl
        · have hscript : (applyMigration (fun i => (errors k i).map SqlError.fault) m c).1 = _ :=
            Connection.runScript_fst refusal SqlError.fault (errors k) 0 m.sql c
          cases herr : Connection.scriptError refusal (errors k) 0 m.sql c with
          | some e =>
              rw [herr] at hscript
              split
              · rfl
              · next happly => rw [happly] at hscript; cases hscript
          | none =>
              rw [herr] at hscript
              split
              · next happly => rw [happly] at hscript; cases hscript
              · next d happly =>
                  rw [happly]
                  exact ih (k + 1) d

end

/-! ## The store on its files -/

section

variable (σ : Type) (Page : Type) [Inhabited Page]

/-- How the engine keeps contents in pages. -/
structure Engine where
  /-- A new database. -/
  blank : σ
  decode : List Page → Option (Contents σ)
  decode_nil : decode [] = some ⟨none, blank⟩
  /-- The files once these contents are committed. -/
  save : Contents σ → DbFiles Page → DbFiles Page
  decode_save : ∀ x f, decode (save x f).pages = some x
  main_save : ∀ x f, (save x f).main.isSome

/-- What a call of `initialize` meets. -/
structure Attempt where
  /-- The directory of the migrations. -/
  entries : List (DirEntry σ)
  /-- Which statement of which script meets an error. -/
  errors : Nat → Nat → Option SqlError
  /-- What happens on a malformed file. -/
  damage : Option Failure

structure Store where
  connected : Bool
  files : DbFiles Page

end

inductive InitResult where
  | ok
  | failed (failure : Failure)
  /-- An exception of `load_migrations`. -/
  | threw

namespace Store

variable {σ Page : Type} [Inhabited Page]

/-- `Store::create`. -/
def create (opens : Bool) (f : DbFiles Page) : Option (Store Page) :=
  if opens then some ⟨true, f.attach⟩ else none

/-- `Store::initialize`, up to the salt, for which it cannot fail. -/
def initializeStore (engine : Engine σ Page) (a : Attempt σ) (s : Store Page) :
    InitResult × Store Page :=
  if ¬ s.connected then (.failed .notConnected, s)
  else
    match loadMigrations a.entries, engine.decode s.files.pages with
    | none, _ => (.threw, s)
    | some _, none =>
        match a.damage with
        | none => (.ok, s)
        | some failure => (.failed failure, s)
    | some ms, some x =>
        let current := x.getSchemaVersion
        if latestVersion ms ≤ current then (.ok, s)
        else
          let run := migrate (fun k i => (a.errors k i).map SqlError.fault) ms ⟨x, none⟩
          let s := { s with files := engine.save run.conn.committed s.files }
          match migrateError a.errors current (latestVersion ms) 0 ms ⟨x, none⟩ with
          | none => (.ok, s)
          | some e => (.failed (.sql e), s)

/-- The last connection to a database moves its log into the file. -/
def close (last : Bool) (s : Store Page) : DbFiles Page :=
  if last then s.files.checkpoint else s.files

theorem pages_close (last : Bool) (s : Store Page) : (s.close last).pages = s.files.pages := by
  rw [close]
  split
  · exact DbFiles.pages_checkpoint _
  · rfl

end Store

end Nazg.Nexus

/-!
## The start of the database

`runtime::init_nexus` opens the store and initializes it. When that fails it looks for two
words in the text of the failure, and if one is there it takes the database for corrupted:
it closes it, removes the file and begins again with a new one.
-/

namespace Nazg.Engine

open Lib Nexus

def looksCorrupted (error : Bytes) : Bool :=
  (find (bytes "corrupt") error).isSome || (find (bytes "malformed") error).isSome ||
    (find (bytes "database disk image is malformed") error).isSome

/-- What the calls of `init_nexus` meet. -/
structure Host (σ : Type) where
  opens : Bool
  first : Attempt σ
  /-- Whether no other process has the database open when it is closed. -/
  last : Bool
  /-- Whether `std::filesystem::remove` throws. -/
  removeThrows : Bool
  reopens : Bool
  second : Attempt σ

structure Started (Page : Type) where
  files : DbFiles Page
  /-- Whether `nexus()` has a store. -/
  hasStore : Bool
  removed : Bool
  /-- The pages that the store created after a removal begins with. -/
  recreatedOn : Option (List Page)

section

variable {σ Page : Type} [Inhabited Page] (engine : Nexus.Engine σ Page) (host : Host σ)

/-- From the removal of the database on. -/
def recreate (f : DbFiles Page) : Started Page :=
  match Store.create host.reopens f.unlink with
  | none => ⟨f.unlink, false, true, none⟩
  | some store =>
      match store.initializeStore engine host.second with
      | (.failed _, failed) => ⟨failed.close host.last, false, true, some store.files.pages⟩
      | (_, started) => ⟨started.files, true, true, some store.files.pages⟩

/-- `init_nexus`, once the configuration is loaded. -/
def initNexus (f : DbFiles Page) : Started Page :=
  match Store.create host.opens f with
  | none => ⟨f, false, false, none⟩
  | some store =>
      match store.initializeStore engine host.first with
      | (.failed failure, store) =>
          let closed := store.close host.last
          if looksCorrupted failure.lastInitError then
            if host.removeThrows then ⟨closed, false, false, none⟩
            else recreate engine host closed
          else ⟨closed, false, false, none⟩
      | (_, store) => ⟨store.files, true, false, none⟩

end

end Nazg.Engine
