import Nazg.Git.Gitea

/-!
# What a call to Gitea reports

A failed request and one without a body come back as the same text. The calls that create
something take the empty text for a failure, those that delete something take every text for
a success.

`reportsAccepted_iff` says for which answers the report is right.
-/

namespace Nazg.Git

open Lib

/-- The server took the request. -/
def CurlResult.Accepted : CurlResult → Prop
  | .performed httpCode _ => httpCode < 400
  | .failed | .notInitialized => False

namespace GiteaAPI

/-- A call with what it is given. -/
inductive Call where
  | createUser (user : User) (password : Bytes)
  | createOrg (org : Organization)
  | createRepo (owner : Bytes) (repo : Repository)
  | createWebhook (owner repo : Bytes) (hook : Webhook)
  | mirrorRepo (remoteUrl name : Bytes) (isPrivate : Bool)
  | addSshKey (title key : Bytes)
  | deleteRepo (owner repo : Bytes)
  | deleteWebhook (owner repo : Bytes) (hookId : Int64)
  | deleteSshKey (keyId : Int64)

def Call.run (signed : Bool) (curl : Curl) (api : GiteaAPI) : Call → Bool
  | createUser user password => api.createUser signed curl user password
  | createOrg org => api.createOrg signed curl org
  | createRepo owner repo => api.createRepo signed curl owner repo
  | createWebhook owner repo hook => api.createWebhook signed curl owner repo hook
  | mirrorRepo remoteUrl name isPrivate => api.mirrorRepo signed curl remoteUrl name isPrivate
  | addSshKey title key => api.addSshKey signed curl title key
  | deleteRepo owner repo => api.deleteRepo curl owner repo
  | deleteWebhook owner repo hookId => api.deleteWebhook curl owner repo hookId
  | deleteSshKey keyId => api.deleteSshKey curl keyId

/-- The one request that the call makes. -/
def Call.request (signed : Bool) (api : GiteaAPI) : Call → HttpRequest
  | createUser user password =>
      api.httpRequestOf .post (bytes "/admin/users") (userToJson signed user password)
  | createOrg org => api.httpRequestOf .post (bytes "/orgs") (orgToJson signed org)
  | createRepo owner repo => api.httpRequestOf .post (reposEndpoint owner) (repoToJson signed repo)
  | createWebhook owner repo hook =>
      api.httpRequestOf .post (hooksEndpoint owner repo) (webhookToJson signed hook)
  | mirrorRepo remoteUrl name isPrivate =>
      api.httpRequestOf .post (bytes "/repos/migrate")
        (mirrorToJson signed remoteUrl name isPrivate)
  | addSshKey title key =>
      api.httpRequestOf .post (bytes "/user/keys") (sshKeyToJson signed title key)
  | deleteRepo owner repo => api.httpRequestOf .delete (repoEndpoint owner repo) []
  | deleteWebhook owner repo hookId =>
      api.httpRequestOf .delete (hooksEndpoint owner repo ++ bytes "/" ++ decimal hookId.toInt) []
  | deleteSshKey keyId =>
      api.httpRequestOf .delete (bytes "/user/keys/" ++ decimal keyId.toInt) []

def Call.deletes : Call → Bool
  | deleteRepo .. | deleteWebhook .. | deleteSshKey .. => true
  | _ => false

/-- The answers that are taken for what they are not: a success without a body where something
is created, a failure where something is deleted. -/
def Call.Misread (call : Call) : CurlResult → Prop
  | .performed httpCode response =>
      if call.deletes then 400 ≤ httpCode else httpCode < 400 ∧ response = []
  | .failed | .notInitialized => False

section

variable {curl : Curl} {api : GiteaAPI} {endpoint body : Bytes}

theorem posted_iff : api.posted curl endpoint body = true ↔
    ∃ httpCode response, curl (api.httpRequestOf .post endpoint body) =
      .performed httpCode response ∧ httpCode < 400 ∧ response ≠ [] := by
  rw [posted, httpPost, httpRequest]
  cases curl (api.httpRequestOf .post endpoint body) with
  | notInitialized => simp
  | failed => simp
  | performed httpCode response =>
      by_cases hcode : 400 ≤ httpCode
      · simp [hcode]
      · simp [hcode, not_le.1 hcode]

theorem deleted_iff : api.deleted curl endpoint = true ↔
    ∃ httpCode response, curl (api.httpRequestOf .delete endpoint []) =
      .performed httpCode response := by
  rw [deleted, httpDelete, httpRequest]
  cases curl (api.httpRequestOf .delete endpoint []) with
  | notInitialized => simp
  | failed => simp
  | performed httpCode response => simp

theorem posted_accepted_iff : (api.posted curl endpoint body = true ↔
      (curl (api.httpRequestOf .post endpoint body)).Accepted) ↔
    ¬ ∃ httpCode response, curl (api.httpRequestOf .post endpoint body) =
      .performed httpCode response ∧ httpCode < 400 ∧ response = [] := by
  rw [posted_iff]
  cases curl (api.httpRequestOf .post endpoint body) with
  | notInitialized => simp [CurlResult.Accepted]
  | failed => simp [CurlResult.Accepted]
  | performed httpCode response =>
      by_cases hcode : httpCode < 400
      · simp [CurlResult.Accepted, hcode]
      · simp [CurlResult.Accepted, hcode]

theorem deleted_accepted_iff : (api.deleted curl endpoint = true ↔
      (curl (api.httpRequestOf .delete endpoint [])).Accepted) ↔
    ¬ ∃ httpCode response, curl (api.httpRequestOf .delete endpoint []) =
      .performed httpCode response ∧ 400 ≤ httpCode := by
  rw [deleted_iff]
  cases curl (api.httpRequestOf .delete endpoint []) with
  | notInitialized => simp [CurlResult.Accepted]
  | failed => simp [CurlResult.Accepted]
  | performed httpCode response => simp [CurlResult.Accepted]

end

theorem Call.misread_of_creates {call : Call} (h : call.deletes = false) (answer : CurlResult) :
    call.Misread answer ↔ ∃ httpCode response, answer = .performed httpCode response ∧
      httpCode < 400 ∧ response = [] := by
  cases answer with
  | notInitialized => simp [Misread]
  | failed => simp [Misread]
  | performed httpCode response => simp [Misread, h, and_comm]

theorem Call.misread_of_deletes {call : Call} (h : call.deletes = true) (answer : CurlResult) :
    call.Misread answer ↔ ∃ httpCode response, answer = .performed httpCode response ∧
      400 ≤ httpCode := by
  cases answer with
  | notInitialized => simp [Misread]
  | failed => simp [Misread]
  | performed httpCode response => simp [Misread, h]

/-- A call reports that the server took its request, and nothing else, exactly if the answer is
not one of those it misreads. -/
theorem reportsAccepted_iff (signed : Bool) (curl : Curl) (api : GiteaAPI) (call : Call) :
    (call.run signed curl api = true ↔ (curl (call.request signed api)).Accepted) ↔
      ¬ call.Misread (curl (call.request signed api)) := by
  cases call with
  | createUser | createOrg | createRepo | createWebhook | mirrorRepo | addSshKey =>
      exact posted_accepted_iff.trans (not_congr (Call.misread_of_creates rfl _).symm)
  | deleteRepo | deleteWebhook | deleteSshKey =>
      exact deleted_accepted_iff.trans (not_congr (Call.misread_of_deletes rfl _).symm)

/-- A server that says the same to everything. -/
def saying (httpCode : Int) (response : String) : Curl := fun _ =>
  .performed httpCode (bytes response)

def hostedApi : GiteaAPI := make (bytes "http://git.example.org/api/v1") (bytes "key")

/-- A repository that is not there counts as deleted, and an organization that was created
without a word counts as a failure. -/
theorem missingRepo_not_reported :
    ¬ ((Call.deleteRepo (bytes "ada") (bytes "engine")).run true (saying 404 "not found")
        hostedApi = true ↔ CurlResult.Accepted (.performed 404 (bytes "not found"))) ∧
      ¬ ((Call.createOrg ⟨bytes "ada", [], [], []⟩).run true (saying 204 "") hostedApi = true ↔
        CurlResult.Accepted (.performed 204 [])) := by
  constructor
  · intro hreport
    exact absurd (hreport.1 rfl) (show ¬ (404 : Int) < 400 by decide)
  · intro hreport
    exact absurd (hreport.2 (show (204 : Int) < 400 by decide)) (by decide)

end GiteaAPI

end Nazg.Git
