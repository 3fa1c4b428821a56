import Mathlib.Logic.Function.Basic
import Nazg.Lib.System
import Nazg.Nexus.GitServers

/-!
# Stores on one database

Several processes, each with its store, work on one database. `initialize` migrates, looks
for the salt, and if it holds none makes one up and inserts it: three steps between which
anything else may happen. A `reset_database` drops every table and initializes again, in a
process that already holds a salt. What a statement does is one step, a statement that
fails is none, except for the two of `initialize` whose failure goes unnoticed.

Whether the migration of a process creates a table depends on what the others have done,
so the step says which it creates.
-/

namespace Nazg.Nexus

open Lib Lib.Sqlite

/-- How far the `initialize` of a store has come. -/
inductive Stage where
  | idle
  | migrated
  | loaded
  | ready
  deriving DecidableEq

structure Stores where
  /-- The table `nazg_metadata`, if it is there, and in it the value for `encryption_salt`. -/
  metadata : Option (Option Text)
  /-- The table `git_servers`. -/
  gitServers : Option (Table Row)
  stage : Nat → Stage
  /-- `encryption_salt_` of each store. -/
  encryptionSalt : Nat → Bytes
  /-- The token last saved under a label, since the last reset. No process looks here. -/
  saved : Text → Option Bytes

/-- Sixteen numbers `rd() & 0xFF`. -/
abbrev RandomSalt := { r : Bytes // r.length = 16 }

inductive StoreEvent where
  /-- A store enters `initialize` and migrates. -/
  | migrate (p : Nat) (servers metadata completes : Bool)
  /-- The query for the salt, which may fail. -/
  | loadSalt (p : Nat) (ok : Bool)
  /-- The rest of `initialize`, where the insertion may fail. -/
  | createSalt (p : Nat) (random : RandomSalt) (ok : Bool)
  /-- `reset_database` before it initializes again. -/
  | dropTables (p : Nat)
  /-- The process ends, and another may take its number. -/
  | close (p : Nat)
  | upsertGitServer (p : Nat) (now : Int) (draw : Option Iv) (server : GitServer)
  | updateGitServerAdminToken (p : Nat) (now : Int) (draw : Option Iv) (label token : Bytes)

namespace Stores

/-- The salt in the database. -/
def stored (s : Stores) : Option Bytes := s.metadata.join.map Text.bytes

/-- `INSERT OR IGNORE` of a salt. -/
def insertSalt (salt : Bytes) : Option (Option Text) → Option (Option Text)
  | some none => some (some (Text.ofCStr salt))
  | metadata => metadata

section

variable (evp : Evp) (secret : Nat → Bytes)

/-- The handling of tokens by a store. -/
def context (s : Stores) (p : Nat) : TokenContext := ⟨evp, secret p, s.encryptionSalt p⟩

def step (s : Stores) : StoreEvent → Option Stores
  | .migrate p servers metadata completes =>
      if s.stage p = .idle ∨ s.stage p = .ready then
        some { s with
          gitServers := if servers then some (s.gitServers.getD .empty) else s.gitServers
          metadata := if metadata then some (s.metadata.getD none) else s.metadata
          stage := Function.update s.stage p (if completes then .migrated else .idle) }
      else none
  | .loadSalt p ok =>
      if s.stage p = .migrated then
        some { s with
          encryptionSalt :=
            if ok then Function.update s.encryptionSalt p (s.stored.getD (s.encryptionSalt p))
            else s.encryptionSalt
          stage := Function.update s.stage p .loaded }
      else none
  | .createSalt p random ok =>
      if s.stage p = .loaded then
        if s.encryptionSalt p = [] then
          let salt := toHex random
          some { s with
            encryptionSalt := Function.update s.encryptionSalt p salt
            metadata := if ok then insertSalt salt s.metadata else s.metadata
            stage := Function.update s.stage p .ready }
        else some { s with stage := Function.update s.stage p .ready }
      else none
  | .dropTables p =>
      if s.stage p = .idle ∨ s.stage p = .ready then
        some { s with
          metadata := none
          gitServers := none
          stage := Function.update s.stage p .idle
          saved := fun _ => none }
      else none
  | .close p =>
      some { s with
        encryptionSalt := Function.update s.encryptionSalt p []
        stage := Function.update s.stage p .idle }
  | .upsertGitServer p now draw server =>
      match s.gitServers with
      | none => none
      | some t =>
          if s.stage p = .ready then
            some { s with
              gitServers := some (Nexus.upsertGitServer (s.context evp secret p) now draw server t)
              saved := Function.update s.saved (Text.ofCStr server.label) (some server.adminToken) }
          else none
  | .updateGitServerAdminToken p now draw label token =>
      match s.gitServers with
      | none => none
      | some t =>
          if s.stage p = .ready then
            some { s with
              gitServers := some
                (Nexus.updateGitServerAdminToken (s.context evp secret p) now draw label token t)
              saved := Function.update s.saved (Text.ofCStr label)
                ((rawToken label t).map fun _ => token) }
          else none

/-- The stores of any number of processes, none of them initialized, on a database as it
is found. -/
def start (metadata : Option (Option Text)) (gitServers : Option (Table Row)) : Stores where
  metadata := metadata
  gitServers := gitServers
  stage := fun _ => .idle
  encryptionSalt := fun _ => []
  saved := fun _ => none

def system (metadata : Option (Option Text)) (gitServers : Option (Table Row)) :
    System Stores StoreEvent :=
  ⟨start metadata gitServers, step evp secret⟩

end

end Stores

end Nazg.Nexus
