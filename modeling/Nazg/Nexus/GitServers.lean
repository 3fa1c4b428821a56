import Nazg.Lib.Columns
import Nazg.Lib.FileTree
import Nazg.Lib.Like
import Nazg.Lib.Query
import Nazg.Nexus.Crypto

/-!
# Git servers

A git server is a row under its label. The admin token goes into the row encrypted with
the salt that the store holds in memory, and comes out of it decrypted with that salt; on
the way out a token that does not decrypt is the empty string.

Every statement binds every NOT NULL column and the table references no other, so what is
left to fail is the statement as a whole: a missing table, a busy database, a full disk.
-/

namespace Nazg.Nexus

open Lib Lib.Sqlite

structure GitServer where
  id : Int := 0
  label : Bytes := []
  type : Bytes := []
  host : Bytes := []
  port : Int := 0
  sshPort : Int := 22
  sshUser : Bytes := []
  repoBasePath : Bytes := []
  configPath : Bytes := []
  webUrl : Bytes := []
  status : Bytes := []
  installedAt : Int := 0
  lastCheck : Int := 0
  configHash : Bytes := []
  configModified : Int := 0
  createdAt : Int := 0
  updatedAt : Int := 0
  adminToken : Bytes := []
  deriving DecidableEq

/-- The columns of `git_servers` besides its id. -/
def gitServerColumns : List (Column Empty) :=
  [{ name := "label", notNull := true }, { name := "type", notNull := true },
    { name := "host", notNull := true },
    { name := "port", affinity := .integer, default := .int 80 },
    { name := "ssh_port", affinity := .integer, default := .int 22 }, { name := "ssh_user" },
    { name := "repo_base_path" }, { name := "config_path" }, { name := "web_url" },
    { name := "status" }, { name := "installed_at", affinity := .integer },
    { name := "last_check", affinity := .integer }, { name := "config_hash" },
    { name := "config_modified", affinity := .integer },
    { name := "created_at", affinity := .integer, notNull := true },
    { name := "updated_at", affinity := .integer }, { name := "admin_token" }]

/-- `WHERE label = ?`. -/
def hasLabel (label : Bytes) (row : Row) : Bool := row "label" = bindText label

/-- What a store and its process bring to the handling of a token. -/
structure TokenContext where
  evp : Evp
  secret : Bytes
  encryptionSalt : Bytes

/-- What a token is stored as. -/
def TokenContext.storedToken (c : TokenContext) (draw : Option Iv) (token : Bytes) : Bytes :=
  if token = [] then [] else encryptToken c.evp c.secret draw token c.encryptionSalt

/-- `static_cast<int>` of an `int64_t`. -/
def narrow (i : Int) : Int := i.bmod (2 ^ 32)

section

variable (c : TokenContext)

/-- The record of a row. -/
def readGitServer (x : Int × Row) : GitServer :=
  let text := fun name => (x.2 name).getText.getD []
  let int := fun name default => ((x.2 name).getInt.getD default : Int)
  { id := x.1
    label := text "label"
    type := text "type"
    host := text "host"
    port := narrow (int "port" 0)
    sshPort := narrow (int "ssh_port" 22)
    sshUser := text "ssh_user"
    repoBasePath := text "repo_base_path"
    configPath := text "config_path"
    webUrl := text "web_url"
    status := text "status"
    installedAt := int "installed_at" 0
    lastCheck := int "last_check" 0
    configHash := text "config_hash"
    configModified := int "config_modified" 0
    createdAt := int "created_at" 0
    updatedAt := int "updated_at" 0
    adminToken := (decryptToken c.evp c.secret (text "admin_token") c.encryptionSalt).getD [] }

/-- `Store::get_git_server`, when the query succeeds. -/
def getGitServer (label : Bytes) (t : Table Row) : Option GitServer :=
  (t.first (hasLabel label)).map (readGitServer c)

/-- The columns an upsert rewrites: all but the label and the time of creation. -/
def upsertedColumns : List String :=
  ["type", "host", "port", "ssh_port", "ssh_user", "repo_base_path", "config_path", "web_url",
    "status", "installed_at", "last_check", "config_hash", "config_modified", "updated_at",
    "admin_token"]

/-- `Store::upsert_git_server`, when the statement succeeds. -/
def upsertGitServer (now : Int) (draw : Option Iv) (server : GitServer) (t : Table Row) :
    Table Row :=
  let created := if server.createdAt ≠ 0 then server.createdAt else now
  let updated := if server.updatedAt ≠ 0 then server.updatedAt else now
  let configModified := if server.configModified ≠ 0 then server.configModified else now
  let row := newRow gitServerColumns
    [("label", server.label), ("type", server.type), ("host", server.host),
      ("port", decimal server.port), ("ssh_port", decimal server.sshPort),
      ("ssh_user", server.sshUser), ("repo_base_path", server.repoBasePath),
      ("config_path", server.configPath), ("web_url", server.webUrl), ("status", server.status),
      ("installed_at", decimal server.installedAt), ("last_check", decimal server.lastCheck),
      ("config_hash", server.configHash), ("config_modified", decimal configModified),
      ("created_at", decimal created), ("updated_at", decimal updated),
      ("admin_token", c.storedToken draw server.adminToken)]
  t.upsertRow (hasLabel server.label) (excluded upsertedColumns row) row

/-- `Store::update_git_server_admin_token`, when the statement succeeds; a label that is
not there is no error. -/
def updateGitServerAdminToken (now : Int) (draw : Option Iv) (label token : Bytes)
    (t : Table Row) : Table Row :=
  t.updateWhere (hasLabel label) (setRow gitServerColumns
    [("admin_token", c.storedToken draw token), ("updated_at", decimal now)])

end

/-! ## The token of a row -/

/-- The admin token as it is stored under a label. -/
def rawToken (label : Bytes) (t : Table Row) : Option Bytes :=
  (t.first (hasLabel label)).map fun x => (x.2 "admin_token").getText.getD []

/-- A label is looked up as far as its terminator. -/
theorem rawToken_ofCStr (label : Bytes) (t : Table Row) :
    rawToken (Text.ofCStr label).bytes t = rawToken label t := by
  have hbind : bindText (Text.ofCStr label).bytes = bindText label :=
    congrArg Value.text (Text.ofCStr_self _)
  have hlabel : hasLabel (Text.ofCStr label).bytes = hasLabel label := by
    funext row
    rw [hasLabel, hasLabel, hbind]
  rw [rawToken, rawToken, hlabel]

section

variable (c : TokenContext)

theorem getGitServer_adminToken (label : Bytes) (t : Table Row) :
    (getGitServer c label t).map GitServer.adminToken = (rawToken label t).map fun raw =>
      (decryptToken c.evp c.secret raw c.encryptionSalt).getD [] := by
  rw [getGitServer, rawToken, Option.map_map, Option.map_map]
  rfl

theorem cstr_storedToken (draw : Option Iv) (token : Bytes) :
    cstr (c.storedToken draw token) = c.storedToken draw token := by
  rw [TokenContext.storedToken]
  split
  · rfl
  · exact cstr_encryptToken

/-- What an upsert stores for its label, whether the row is new or not. -/
theorem rawToken_upsertGitServer (now : Int) (draw : Option Iv) (server : GitServer)
    (t : Table Row) : rawToken server.label (upsertGitServer c now draw server t) =
      some (c.storedToken draw server.adminToken) := by
  have hself := fun row hrow =>
    t.first_upsertRow_self (hasLabel server.label) (excluded upsertedColumns row) (r := row) hrow
      fun x hx => hx
  have htoken := cstr_storedToken c draw server.adminToken
  rw [rawToken, upsertGitServer]
  rw [hself _ (by exact decide_eq_true rfl)]
  cases t.first (hasLabel server.label) with
  | none => exact congrArg some htoken
  | some x => exact congrArg some htoken

theorem rawToken_upsertGitServer_ne (now : Int) (draw : Option Iv) (server : GitServer)
    (t : Table Row) {label : Bytes} (h : cstr label ≠ cstr server.label) :
    rawToken label (upsertGitServer c now draw server t) = rawToken label t := by
  have hne : bindText server.label ≠ bindText label := by
    intro heq
    exact h (Text.ext_iff.1 (Value.text.inj heq)).symm
  have hother : ∀ row : Row, hasLabel server.label row = true → hasLabel label row = false := by
    intro row hrow
    rw [hasLabel, of_decide_eq_true hrow]
    exact decide_eq_false hne
  rw [rawToken, upsertGitServer, Table.first_upsertRow_ne, rawToken]
  · exact decide_eq_false hne
  · exact fun x hx => ⟨hother x hx, hother x hx⟩

/-- What an update stores, if the label is there. -/
theorem rawToken_updateGitServerAdminToken (now : Int) (draw : Option Iv) (label token : Bytes)
    (t : Table Row) : rawToken label (updateGitServerAdminToken c now draw label token t) =
      (rawToken label t).map fun _ => c.storedToken draw token := by
  have htoken := cstr_storedToken c draw token
  rw [rawToken, updateGitServerAdminToken, Table.first_updateWhere, rawToken]
  · cases h : t.first (hasLabel label) with
    | none => rfl
    | some x =>
        have hx : hasLabel label x.2 = true := by simpa using List.find?_some h
        rw [Option.map_some, if_pos hx]
        exact congrArg some htoken
  · exact fun row _ => rfl

theorem rawToken_updateGitServerAdminToken_ne (now : Int) (draw : Option Iv)
    {label label' : Bytes} (token : Bytes) (t : Table Row) (h : cstr label' ≠ cstr label) :
    rawToken label' (updateGitServerAdminToken c now draw label token t) = rawToken label' t := by
  rw [rawToken, updateGitServerAdminToken, Table.first_updateWhere, rawToken]
  · cases hfirst : t.first (hasLabel label') with
    | none => rfl
    | some x =>
        have hx : hasLabel label' x.2 = true := by simpa using List.find?_some hfirst
        have hno : hasLabel label x.2 ≠ true := by
          intro hlabel
          have heq := (of_decide_eq_true hx).symm.trans (of_decide_eq_true hlabel)
          exact h (Text.ext_iff.1 (Value.text.inj heq))
        rw [Option.map_some, if_neg hno]
  · exact fun row _ => rfl

end

end Nazg.Nexus

/-!
## Paths of bare repositories

The store finds the repositories below a directory by their paths on the server, with a
LIKE pattern made of the name of the directory.
-/

namespace Nazg.Nexus

open Lib Lib.Sqlite

/-- What is read of a row of `bare_repos`, a column of TEXT affinity. -/
structure BareRepoRow where
  serverPath : Option Text

/-- `SQLITE_MAX_LIKE_PATTERN_LENGTH`. -/
def maxLikePatternLength : Nat := 50000

def likePattern (serverPathPrefix : Bytes) : Bytes :=
  if serverPathPrefix.getLast? = some slash then serverPathPrefix ++ bytes "%"
  else serverPathPrefix ++ bytes "/%"

/-- Comparing with NULL gives NULL, and a pattern that is too long is an error. -/
def listBareRepoPathsWithPrefix (o : RowOrder) (serverPathPrefix : Bytes)
    (t : Table BareRepoRow) : List Bytes :=
  if serverPathPrefix = [] then []
  else
    let pattern := (Text.ofCStr (likePattern serverPathPrefix)).bytes
    if pattern.length ≤ maxLikePatternLength then
      let paths := (t.data.filterMap BareRepoRow.serverPath).map Text.bytes
      (o.orderBy id (paths.filter fun s => like (readChars pattern) (readChars s))).filter (· ≠ [])
    else []

end Nazg.Nexus
