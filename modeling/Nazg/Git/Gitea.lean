import Nazg.Git.ServerRegistry
import Nazg.Lib.Decimal
import Nazg.Lib.JsonString
import Nazg.Lib.Stdio
import Nazg.System.Process

/-!
# The interface of Gitea

What is sent to Gitea is put together as JSON text. Every call is one request, and what its
caller learns of the answer is a text: the body, or nothing at all if the status is an error.

The transfer itself is a parameter. Lists and single records that are read from an answer are
not modelled.
-/

namespace Nazg.Git

open Lib Lib.Json

namespace GiteaAPI

/-- One byte of `escape_json_impl`, for a `char` with a sign or without. -/
def escapeByte (signed : Bool) : UInt8 → Bytes :=
  escapeWith signed fun c => bytes "\\u" ++ hex4 (UInt32.ofInt (charValue signed c))

def escapeJsonImpl (signed : Bool) (s : Bytes) : Bytes := s.flatMap (escapeByte signed)

end GiteaAPI

/-! ## Requests -/

inductive HttpMethod where
  | get
  | post
  | delete
  | patch
  deriving DecidableEq

/-- What curl is told. The fields of a request end at a terminator. -/
structure HttpRequest where
  method : HttpMethod
  url : Bytes
  headers : List Bytes
  postFields : Option Bytes

/-- What curl reports of a request. -/
inductive CurlResult where
  /-- There is no handle. -/
  | notInitialized
  | failed
  | performed (httpCode : Int) (response : Bytes)

abbrev Curl := HttpRequest → CurlResult

structure GiteaAPI where
  baseUrl : Bytes
  token : Bytes
  deriving DecidableEq

namespace GiteaAPI

/-- The constructor, which drops a slash at the end. -/
def make (baseUrl token : Bytes) : GiteaAPI where
  baseUrl := if baseUrl.getLast? = some 47 then baseUrl.dropLast else baseUrl
  token := token

/-- The request of `http_request`. -/
def httpRequestOf (api : GiteaAPI) (method : HttpMethod) (endpoint body : Bytes) : HttpRequest where
  method := method
  url := cstr (api.baseUrl ++ endpoint)
  headers := [cstr (bytes "Authorization: token " ++ api.token),
    bytes "Content-Type: application/json", bytes "Accept: application/json"]
  postFields :=
    if body ≠ [] ∧ (method = .post ∨ method = .patch) then some (cstr body) else none

section

variable (curl : Curl) (api : GiteaAPI)

/-- `http_request`, unless it throws. -/
def httpRequest (method : HttpMethod) (endpoint body : Bytes) : Option Bytes :=
  match curl (api.httpRequestOf method endpoint body) with
  | .performed httpCode response => some (if 400 ≤ httpCode then [] else response)
  | .failed | .notInitialized => none

def httpPost (endpoint body : Bytes) : Option Bytes := api.httpRequest curl .post endpoint body

def httpDelete (endpoint : Bytes) : Option Bytes := api.httpRequest curl .delete endpoint []

/-- `return !response.empty()`, and false if the request throws. -/
def posted (endpoint body : Bytes) : Bool :=
  match api.httpPost curl endpoint body with
  | some response => response ≠ []
  | none => false

/-- `return true`, and false if the request throws. -/
def deleted (endpoint : Bytes) : Bool := (api.httpDelete curl endpoint).isSome

end

/-! ## Records -/

structure User where
  username : Bytes
  email : Bytes
  fullName : Bytes

structure Organization where
  username : Bytes
  fullName : Bytes
  description : Bytes
  website : Bytes

structure Repository where
  name : Bytes
  description : Bytes
  isPrivate : Bool := true

structure Webhook where
  type : Bytes
  url : Bytes
  contentType : Bytes
  events : List Bytes
  active : Bool := true

section

variable (signed : Bool)

/-- A name with a string. -/
def field (name value : Bytes) : Bytes :=
  bytes "\"" ++ name ++ bytes "\":\"" ++ escapeJsonImpl signed value ++ bytes "\""

/-- The field, unless its value is empty. -/
def optionalField (name value : Bytes) : Bytes :=
  if value = [] then [] else bytes "," ++ field signed name value

def boolText (b : Bool) : Bytes := if b then bytes "true" else bytes "false"

/-- `user_to_json`. -/
def userToJson (user : User) (password : Bytes) : Bytes :=
  bytes "\x7b" ++ field signed (bytes "username") user.username ++ bytes "," ++
    field signed (bytes "email") user.email ++ bytes "," ++
    field signed (bytes "password") password ++
    optionalField signed (bytes "full_name") user.fullName ++
    bytes ",\"must_change_password\":false\x7d"

/-- `org_to_json`. -/
def orgToJson (org : Organization) : Bytes :=
  bytes "\x7b" ++ field signed (bytes "username") org.username ++
    optionalField signed (bytes "full_name") org.fullName ++
    optionalField signed (bytes "description") org.description ++
    optionalField signed (bytes "website") org.website ++ bytes "\x7d"

/-- `repo_to_json`. -/
def repoToJson (repo : Repository) : Bytes :=
  bytes "\x7b" ++ field signed (bytes "name") repo.name ++
    optionalField signed (bytes "description") repo.description ++
    bytes ",\"private\":" ++ boolText repo.isPrivate ++ bytes ",\"auto_init\":false\x7d"

/-- `webhook_to_json`. -/
def webhookToJson (hook : Webhook) : Bytes :=
  bytes "\x7b" ++ field signed (bytes "type") hook.type ++ bytes ",\"config\":\x7b" ++
    field signed (bytes "url") hook.url ++ bytes "," ++
    field signed (bytes "content_type") hook.contentType ++ bytes "\x7d,\"events\":[" ++
    (bytes ",").intercalate (hook.events.map fun event =>
      bytes "\"" ++ escapeJsonImpl signed event ++ bytes "\"") ++
    bytes "],\"active\":" ++ boolText hook.active ++ bytes "\x7d"

/-- The body of `mirror_repo`. -/
def mirrorToJson (remoteUrl name : Bytes) (isPrivate : Bool) : Bytes :=
  bytes "\x7b" ++ field signed (bytes "clone_addr") remoteUrl ++ bytes "," ++
    field signed (bytes "repo_name") name ++ bytes ",\"mirror\":true,\"private\":" ++
    boolText isPrivate ++ bytes "\x7d"

/-- The body of `add_ssh_key`. -/
def sshKeyToJson (title key : Bytes) : Bytes :=
  bytes "\x7b" ++ field signed (bytes "title") title ++ bytes "," ++
    field signed (bytes "key") key ++ bytes "\x7d"

end

/-! ## Calls -/

def reposEndpoint (owner : Bytes) : Bytes :=
  if owner = [] ∨ owner = bytes "~" ∨ owner = bytes "admin" then bytes "/user/repos"
  else bytes "/org/" ++ owner ++ bytes "/repos"

def repoEndpoint (owner repo : Bytes) : Bytes := bytes "/repos/" ++ owner ++ bytes "/" ++ repo

def hooksEndpoint (owner repo : Bytes) : Bytes := repoEndpoint owner repo ++ bytes "/hooks"

section

variable (signed : Bool) (curl : Curl) (api : GiteaAPI)

def createUser (user : User) (password : Bytes) : Bool :=
  api.posted curl (bytes "/admin/users") (userToJson signed user password)

def createOrg (org : Organization) : Bool :=
  api.posted curl (bytes "/orgs") (orgToJson signed org)

def createRepo (owner : Bytes) (repo : Repository) : Bool :=
  api.posted curl (reposEndpoint owner) (repoToJson signed repo)

def createWebhook (owner repo : Bytes) (hook : Webhook) : Bool :=
  api.posted curl (hooksEndpoint owner repo) (webhookToJson signed hook)

def mirrorRepo (remoteUrl name : Bytes) (isPrivate : Bool) : Bool :=
  api.posted curl (bytes "/repos/migrate") (mirrorToJson signed remoteUrl name isPrivate)

def addSshKey (title key : Bytes) : Bool :=
  api.posted curl (bytes "/user/keys") (sshKeyToJson signed title key)

def deleteRepo (owner repo : Bytes) : Bool := api.deleted curl (repoEndpoint owner repo)

def deleteWebhook (owner repo : Bytes) (hookId : Int64) : Bool :=
  api.deleted curl (hooksEndpoint owner repo ++ bytes "/" ++ decimal hookId.toInt)

def deleteSshKey (keyId : Int64) : Bool :=
  api.deleted curl (bytes "/user/keys/" ++ decimal keyId.toInt)

end

end GiteaAPI

end Nazg.Git

/-!
## A server with Gitea

Commands are sent to the server through `ssh`, and what they print comes back as one text.
The token of the administrator is cut out of such a text.

The password of the administrator, the installation and the log are not modelled.
-/

namespace Nazg.Git

open Lib Process

/-- What a command line prints, if a shell can be started. -/
abbrev Popen := Bytes → Option Bytes

/-- The server as it is known, with the token in each of its places. -/
structure GiteaServer where
  config : ServerConfig
  api : Option GiteaAPI
  adminToken : Bytes

namespace GiteaServer

def trim (s : Bytes) : Bytes :=
  let isBlank := fun c : UInt8 => decide (c = 32 ∨ c = 9 ∨ c = 10 ∨ c = 13)
  (s.dropWhile isBlank).rdropWhile isBlank

def sshConnection (s : GiteaServer) : Bytes := s.config.sshUser ++ bytes "@" ++ s.config.host

def getApiUrl (s : GiteaServer) : Bytes := s.config.webUrl ++ bytes "/api/v1"

section

variable (popen : Popen)

/-- `exec_output`. -/
def execOutput (cmd : Bytes) : Bytes :=
  match popen (cstr cmd) with
  | some printed => readPipe 256 printed
  | none => []

/-- `ssh_exec`, of a caller that asks for the output. The status of the command is not looked
at. -/
def sshExec (cmd : Bytes) (s : GiteaServer) : Bool × Bytes :=
  (true, execOutput popen
    (bytes "ssh -o StrictHostKeyChecking=accept-new -p " ++ decimal s.config.sshPort ++
      bytes " " ++ shellQuote s.sshConnection ++ bytes " " ++ shellQuote cmd ++ bytes " 2>&1"))

def accessTokenCommand : Bytes :=
  bytes "cd /var/lib/gitea && sudo -u git /usr/local/bin/gitea admin user generate-access-token " ++
    bytes "--username admin --token-name nazg-management " ++
    bytes "--scopes write:admin,write:repository,write:organization,write:user 2>&1"

/-- A token takes its three places. -/
def withToken (token : Bytes) (s : GiteaServer) : GiteaServer where
  adminToken := token
  config := { s.config with adminToken := token }
  api := some (GiteaAPI.make s.getApiUrl token)

/-- `create_admin_token`. -/
def createAdminToken (s : GiteaServer) : Option Bytes × GiteaServer :=
  let executed := s.sshExec popen accessTokenCommand
  if executed.1 = false then (none, s)
  else
    let output := executed.2
    let pos :=
      match find (bytes "created:") output with
      | some pos => some pos
      | none => find (bytes ":") output
    match pos with
    | some pos =>
        let token := trim (output.drop (pos + 1))
        (some token, s.withToken token)
    | none => (none, s)

end

end GiteaServer

end Nazg.Git
