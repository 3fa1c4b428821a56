import Nazg.Git.ServerRegistry

/-!
# Tokens that are lost

Encryption answers a failure with the empty string, a read answers a token it cannot
decrypt with the empty string, and a record without a token is written with the empty
string. So a call that is given a token keeps it exactly if it can be encrypted, and a call
that reads a record and writes it back keeps the token exactly if it can be decrypted and
encrypted again: with another key, or another salt, an unrelated change destroys it.
-/

namespace Nazg.Git

open Lib Lib.Sqlite Nexus

/-! ## Tokens that are stored -/

/-- The token can be encrypted and is not longer than the library takes. -/
def Storable (c : TokenContext) (draw : Option Iv) (token : Bytes) : Prop :=
  token.length < 2 ^ 31 ∧ Encryptable c.evp c.secret draw token c.encryptionSalt

/-- A value is stored under the label, and it decrypts to the token. -/
def Holds (c : TokenContext) (label token : Bytes) (t : Table Row) : Prop :=
  ∃ raw, rawToken label t = some raw ∧
    decryptToken c.evp c.secret raw c.encryptionSalt = some token

theorem holds_stored_iff {c : TokenContext} (hevp : c.evp.Lawful) {draw : Option Iv}
    {label token : Bytes} (htoken : token ≠ []) {t : Table Row}
    (h : rawToken label t = some (c.storedToken draw token)) :
    Holds c label token t ↔ Storable c draw token := by
  rw [Holds, h, Storable, and_comm, ← decrypt_encrypt_iff hevp htoken, TokenContext.storedToken,
    if_neg htoken]
  constructor
  · rintro ⟨_, hraw, hdec⟩
    cases hraw
    exact hdec
  · exact fun hdec => ⟨_, rfl, hdec⟩

/-! ## Tokens that are written back -/

/-- What is stored decrypts to the same value as before. If the present key and salt did
not decrypt it, those that did still do. -/
def SameToken (c : TokenContext) (raw raw' : Bytes) : Prop :=
  match decryptToken c.evp c.secret raw c.encryptionSalt with
  | some v => decryptToken c.evp c.secret raw' c.encryptionSalt = some v
  | none => ∀ secret salt v, decryptToken c.evp secret raw salt = some v →
      decryptToken c.evp secret raw' salt = some v

/-- A stored token survives being read and written back: it is decrypted and can be
encrypted again, or there is nothing to lose. -/
def Keepable (c : TokenContext) (draw : Option Iv) (ok : Bool) (raw : Bytes) : Prop :=
  match decryptToken c.evp c.secret raw c.encryptionSalt with
  | some v => v = [] ∨ (ok = true ∧ Storable c draw v)
  | none => ∀ secret salt v, decryptToken c.evp secret raw salt = some v → v = []

/-- The token of the record that was read, if any was. -/
def tokenRead (c : TokenContext) (ok : Bool) (label : Bytes) (t : Table Row) : Bytes :=
  ((ServerRegistry.readServer c ok label t).map GitServer.adminToken).getD []

theorem sameToken_refl (c : TokenContext) (raw : Bytes) : SameToken c raw raw := by
  rw [SameToken]
  split
  · next h => exact h
  · exact fun _ _ _ h => h

theorem tokenRead_eq {c : TokenContext} {label raw : Bytes} {t : Table Row} (ok : Bool)
    (h : rawToken label t = some raw) : tokenRead c ok label t =
      if ok then (decryptToken c.evp c.secret raw c.encryptionSalt).getD [] else [] := by
  cases ok with
  | false => rfl
  | true =>
      simp only [tokenRead, ServerRegistry.readServer, if_true, getGitServer_adminToken, h,
        Option.map_some, Option.getD_some]

@[simp] theorem decryptToken_nil (evp : Evp) (secret salt : Bytes) :
    decryptToken evp secret [] salt = some [] := by
  rw [decryptToken, if_pos rfl]

theorem sameToken_storedToken_iff {c : TokenContext} (hevp : c.evp.Lawful) {draw : Option Iv}
    {ok : Bool} {raw : Bytes} :
    SameToken c raw (c.storedToken draw
        (if ok then (decryptToken c.evp c.secret raw c.encryptionSalt).getD [] else [])) ↔
      Keepable c draw ok raw := by
  have hnil : c.storedToken draw [] = [] := if_pos rfl
  rw [SameToken, Keepable]
  cases decryptToken c.evp c.secret raw c.encryptionSalt with
  | none => simp [hnil, eq_comm]
  | some v =>
      by_cases hv : v = []
      · simp [hv, hnil]
      · cases ok with
        | false => simp [hv, hnil, eq_comm]
        | true =>
            simp only [if_true, Option.getD_some, hv, false_or, true_and, Storable,
              TokenContext.storedToken, if_false]
            rw [decrypt_encrypt_iff hevp hv, and_comm]

/-- Every server keeps its token. -/
def TokensKept (c : TokenContext) (t t' : Table Row) : Prop :=
  ∀ label raw, rawToken label t = some raw → ∃ raw', rawToken label t' = some raw' ∧
    SameToken c raw raw'

namespace ServerRegistry

variable {r : ServerRegistry} {env : Conditions} {label : Bytes} {t : Table Row}

/-- A label is the same up to its terminator. -/
theorem rawToken_congr {label label' : Bytes} (h : cstr label = cstr label') (t : Table Row) :
    rawToken label t = rawToken label' t := by
  rw [← rawToken_ofCStr label, ← rawToken_ofCStr label', Text.ofCStr_bytes, Text.ofCStr_bytes, h]

theorem readServer_label {c : TokenContext} {ok : Bool} {server : GitServer}
    (h : readServer c ok label t = some server) : cstr server.label = cstr label := by
  rw [readServer] at h
  split at h
  · obtain ⟨x, hx, rfl⟩ := Option.map_eq_some_iff.1 h
    have hx : hasLabel label x.2 = true := by simpa using List.find?_some hx
    have hlabel : x.2 "label" = bindText label := of_decide_eq_true hx
    simp only [readGitServer, hlabel, bindText, Value.getText, Option.getD_some,
      Text.ofCStr_bytes, cstr_cstr]
  · cases h

theorem rawToken_writeServer {record : GitServer} (hlabel : cstr record.label = cstr label)
    (hw : env.writes = true) : rawToken label (r.writeServer env record t).2 =
      some (r.store.storedToken env.draw record.adminToken) := by
  rw [writeServer, if_pos hw, rawToken_congr hlabel.symm]
  exact rawToken_upsertGitServer _ _ _ _ _

theorem rawToken_writeServer_ne {record : GitServer} (hlabel : cstr record.label = cstr label)
    {label' : Bytes} (hne : cstr label' ≠ cstr label) :
    rawToken label' (r.writeServer env record t).2 = rawToken label' t := by
  rw [writeServer]
  split
  · exact rawToken_upsertGitServer_ne _ _ _ _ _ (hlabel ▸ hne)
  · rfl

/-- A record written with the token that was read for it. -/
theorem tokensKept_writeServer_iff (hevp : r.store.evp.Lawful) {record : GitServer} {ok : Bool}
    (hlabel : cstr record.label = cstr label)
    (htoken : record.adminToken = tokenRead r.store ok label t) :
    TokensKept r.store t (r.writeServer env record t).2 ↔
      (env.writes = true → ∀ raw, rawToken label t = some raw →
        Keepable r.store env.draw ok raw) := by
  constructor
  · intro hkept hw raw hraw
    obtain ⟨raw', hraw', hsame⟩ := hkept label raw hraw
    rw [rawToken_writeServer hlabel hw, htoken, tokenRead_eq ok hraw] at hraw'
    cases hraw'
    exact (sameToken_storedToken_iff hevp).1 hsame
  · intro hkeep label' raw hraw
    by_cases hne : cstr label' = cstr label
    · rw [rawToken_congr hne] at hraw ⊢
      cases hw : env.writes with
      | false => exact ⟨raw, by simpa [writeServer, hw] using hraw, sameToken_refl _ _⟩
      | true =>
          refine ⟨_, rawToken_writeServer hlabel hw, ?_⟩
          rw [htoken, tokenRead_eq ok hraw]
          exact (sameToken_storedToken_iff hevp).2 (hkeep hw raw hraw)
    · exact ⟨raw, (rawToken_writeServer_ne hlabel hne).trans hraw, sameToken_refl _ _⟩

/-! ## The two writes of the registry -/

/-- An addition writes the token it is given, and the one it has read if it is given none. -/
theorem addServer_eq (env : Conditions) {cfg : ServerConfig} (hcfg : ¬ (cfg.type = [] ∨ cfg.host = [])) :
    ∃ record : GitServer, cstr record.label = cstr label ∧
      record.adminToken = orElse cfg.adminToken (tokenRead r.store (env.reads 0) label t) ∧
      r.addServer env label cfg t = r.writeServer env record t := by
  rw [addServer, if_neg hcfg]
  dsimp only
  cases hread : readServer r.store (env.reads 0) label t with
  | none =>
      refine ⟨_, rfl, ?_, rfl⟩
      rw [tokenRead, hread, orElse]
      split
      · next h => exact h
      · rfl
  | some existing =>
      refine ⟨_, rfl, ?_, rfl⟩
      rw [tokenRead, hread]
      rfl

/-- A synchronization writes if the configuration has changed and nobody objects. -/
def SyncWrites (r : ServerRegistry) (env : Conditions) (label : Bytes) (prompt : Option Bool)
    (t : Table Row) : Prop :=
  (∃ entry, r.getServer env label t = some entry ∧ entry.hasConfigChanges = true) ∧
    prompt ≠ some false

theorem syncConfigToDatabase_eq {prompt : Option Bool} (h : SyncWrites r env label prompt t) :
    ∃ record : GitServer, cstr record.label = cstr label ∧
      record.adminToken = tokenRead r.store (env.reads 1) label t ∧
      r.syncConfigToDatabase env label prompt t = r.writeServer env record t := by
  obtain ⟨⟨entry, hentry, hchanged⟩, hprompt⟩ := h
  simp only [syncConfigToDatabase, hentry, hchanged, not_true, if_false, if_neg hprompt]
  refine ⟨_, ?_, ?_, rfl⟩
  · cases hread : readServer r.store (env.reads 1) label t with
    | none => rfl
    | some existing =>
        have hlabel := readServer_label hread
        exact hlabel
  · rw [tokenRead]
    cases readServer r.store (env.reads 1) label t <;> rfl

theorem syncConfigToDatabase_of_not {prompt : Option Bool}
    (h : ¬ SyncWrites r env label prompt t) :
    (r.syncConfigToDatabase env label prompt t).2 = t := by
  rw [syncConfigToDatabase]
  split
  · rfl
  · next entry hentry =>
      split
      · rfl
      · next hchanged =>
          split
          · rfl
          · next hprompt =>
              exact absurd ⟨⟨entry, hentry, by simpa using hchanged⟩, hprompt⟩ h

end ServerRegistry

/-! ## The calls -/

/-- The calls that write a token. -/
inductive TokenCall where
  | upsertGitServer (server : GitServer)
  | updateGitServerAdminToken (label token : Bytes)
  | addServer (label : Bytes) (cfg : ServerConfig)
  | syncConfigToDatabase (label : Bytes) (prompt : Option Bool)

namespace TokenCall

variable (r : ServerRegistry) (env : Conditions) (t : Table Row)

def run : TokenCall → Bool × Table Row
  | upsertGitServer server => r.writeServer env server t
  | updateGitServerAdminToken label token =>
      if env.writes then
        (true, Nexus.updateGitServerAdminToken r.store env.now env.draw label token t)
      else (false, t)
  | addServer label cfg => r.addServer env label cfg t
  | syncConfigToDatabase label prompt => r.syncConfigToDatabase env label prompt t

/-- The other servers keep theirs as it is. -/
def OthersKept (label : Bytes) (t t' : Table Row) : Prop :=
  ∀ label', cstr label' ≠ cstr label → rawToken label' t' = rawToken label' t

/-- No token is destroyed: a call that is given one and returns true has stored it, and a
call that is given none has left every server its own. -/
def Spares : TokenCall → Prop
  | upsertGitServer server => server.adminToken ≠ [] →
      ((upsertGitServer server).run r env t).1 = true →
        Holds r.store server.label server.adminToken ((upsertGitServer server).run r env t).2
  | updateGitServerAdminToken label token => token ≠ [] →
      ((updateGitServerAdminToken label token).run r env t).1 = true →
        Holds r.store label token ((updateGitServerAdminToken label token).run r env t).2
  | addServer label cfg =>
      if cfg.adminToken = [] then TokensKept r.store t ((addServer label cfg).run r env t).2
      else OthersKept label t ((addServer label cfg).run r env t).2 ∧
        (((addServer label cfg).run r env t).1 = true →
          Holds r.store label cfg.adminToken ((addServer label cfg).run r env t).2)
  | syncConfigToDatabase label prompt =>
      TokensKept r.store t ((syncConfigToDatabase label prompt).run r env t).2

/-- If the call writes, the token it is given can be stored, under a label that is there
where it is an update; and the one it writes back survives that. -/
def Harmless : TokenCall → Prop
  | upsertGitServer server => server.adminToken ≠ [] → env.writes = true →
      Storable r.store env.draw server.adminToken
  | updateGitServerAdminToken label token => token ≠ [] → env.writes = true →
      (rawToken label t).isSome = true ∧ Storable r.store env.draw token
  | addServer label cfg => ¬ (cfg.type = [] ∨ cfg.host = []) → env.writes = true →
      if cfg.adminToken = [] then
        ∀ raw, rawToken label t = some raw → Keepable r.store env.draw (env.reads 0) raw
      else Storable r.store env.draw cfg.adminToken
  | syncConfigToDatabase label prompt => r.SyncWrites env label prompt t → env.writes = true →
      ∀ raw, rawToken label t = some raw → Keepable r.store env.draw (env.reads 1) raw

variable {r env t}

theorem holds_writeServer_iff (hevp : r.store.evp.Lawful) {record : GitServer} {label : Bytes}
    (hlabel : cstr record.label = cstr label) (htoken : record.adminToken ≠ []) :
    ((r.writeServer env record t).1 = true →
      Holds r.store label record.adminToken (r.writeServer env record t).2) ↔
        (env.writes = true → Storable r.store env.draw record.adminToken) := by
  have hresult : (r.writeServer env record t).1 = env.writes := by
    rw [ServerRegistry.writeServer]
    cases env.writes <;> rfl
  rw [hresult]
  exact forall_congr' fun hw =>
    holds_stored_iff hevp htoken (ServerRegistry.rawToken_writeServer hlabel hw)

/-- A call destroys no token exactly if it is harmless. -/
theorem spares_iff (hevp : r.store.evp.Lawful) (call : TokenCall) :
    call.Spares r env t ↔ call.Harmless r env t := by
  cases call with
  | upsertGitServer server =>
      exact forall_congr' fun htoken => holds_writeServer_iff hevp rfl htoken
  | updateGitServerAdminToken label token =>
      refine forall_congr' fun htoken => ?_
      cases hw : env.writes with
      | false => simp [run, hw]
      | true =>
          have hraw := rawToken_updateGitServerAdminToken r.store env.now env.draw label token t
          simp only [run, hw, if_true, true_imp_iff]
          cases h : rawToken label t with
          | none =>
              rw [h, Option.map_none] at hraw
              simp [Holds, hraw]
          | some raw =>
              rw [h, Option.map_some] at hraw
              rw [holds_stored_iff hevp htoken hraw]
              simp
  | addServer label cfg =>
      rw [Spares, Harmless]
      by_cases hcfg : cfg.type = [] ∨ cfg.host = []
      · have hrun : (addServer label cfg).run r env t = (false, t) := if_pos hcfg
        rw [hrun]
        split
        · exact iff_of_true (fun _ raw hraw => ⟨raw, hraw, sameToken_refl _ _⟩)
            (fun h => absurd hcfg h)
        · exact iff_of_true ⟨fun _ _ => rfl, fun h => nomatch h⟩ (fun h => absurd hcfg h)
      · obtain ⟨record, hlabel, htoken, hrun⟩ := r.addServer_eq (t := t) env hcfg
        have hrun' : (addServer label cfg).run r env t = r.writeServer env record t := hrun
        rw [hrun', imp_iff_right hcfg]
        by_cases hgiven : cfg.adminToken = []
        · rw [orElse, if_pos hgiven] at htoken
          simp only [if_pos hgiven]
          exact ServerRegistry.tokensKept_writeServer_iff hevp hlabel htoken
        · rw [orElse, if_neg hgiven] at htoken
          rw [← htoken] at hgiven ⊢
          simp only [if_neg hgiven]
          have hothers : OthersKept label t (r.writeServer env record t).2 :=
            fun _ hne => ServerRegistry.rawToken_writeServer_ne hlabel hne
          rw [and_iff_right hothers]
          exact holds_writeServer_iff hevp hlabel hgiven
  | syncConfigToDatabase label prompt =>
      rw [Spares, Harmless, run]
      by_cases hwrites : r.SyncWrites env label prompt t
      · obtain ⟨record, hlabel, htoken, hrun⟩ := ServerRegistry.syncConfigToDatabase_eq hwrites
        rw [hrun, imp_iff_right hwrites]
        exact ServerRegistry.tokensKept_writeServer_iff hevp hlabel htoken
      · rw [ServerRegistry.syncConfigToDatabase_of_not hwrites]
        exact iff_of_true (fun _ raw hraw => ⟨raw, hraw, sameToken_refl _ _⟩)
          (fun h => absurd h hwrites)

/-! ## A key that has changed -/

/-- A store on the sample library, for a machine. -/
def sampleStore (machine : Machine) : TokenContext :=
  ⟨sampleEvp, machine.secret, toHex sampleSalt⟩

def sampleRegistry (machine : Machine) : ServerRegistry where
  cfg := none
  sha256 := fun _ => []
  store := sampleStore machine

/-- Every statement succeeds. -/
def calm : Conditions := ⟨1700000000, some sampleIv, fun _ => true, true⟩

/-- The database after the token of a server was saved on a machine without a secret of
its own. -/
def labTable : Table Row :=
  Nexus.upsertGitServer (sampleStore {}) 1690000000 (some sampleIv)
    { label := bytes "lab", type := bytes "gitea", host := bytes "10.0.0.4",
      adminToken := sampleToken } .empty

/-- The server moves to another address. -/
def moveLab : TokenCall :=
  addServer (bytes "lab") { type := bytes "gitea", host := bytes "10.0.0.5" }

/-- On the same machine it keeps its token. -/
theorem spares_iff_moveLab : moveLab.Spares (sampleRegistry {}) calm labTable := by
  refine (spares_iff (r := sampleRegistry {}) sampleEvp_lawful _).2 fun _ _ raw hraw => ?_
  have hdec : decryptToken sampleEvp ({} : Machine).secret raw (toHex sampleSalt) =
      some sampleToken := by
    have hlab : (rawToken (bytes "lab") labTable).bind (fun raw =>
        decryptToken sampleEvp ({} : Machine).secret raw (toHex sampleSalt)) = some sampleToken := by
      decide +kernel
    rwa [hraw] at hlab
  simp only [Keepable, sampleRegistry, sampleStore, hdec]
  exact Or.inr ⟨rfl, by decide, by decide, _, _, _, rfl, rfl, rfl⟩

/-- With another key its token is destroyed: the key that decrypted it finds nothing. -/
theorem moveLab_destroys :
    ¬ moveLab.Spares (sampleRegistry { tokenKey := some (bytes "other") }) calm labTable := by
  intro hkept
  obtain ⟨raw, hraw⟩ : ∃ raw, rawToken (bytes "lab") labTable = some raw := ⟨_, rfl⟩
  obtain ⟨raw', hraw', hsame⟩ := hkept (bytes "lab") raw hraw
  have hlost : rawToken (bytes "lab") (moveLab.run
      (sampleRegistry { tokenKey := some (bytes "other") }) calm labTable).2 = some [] := by
    decide +kernel
  cases hlost.symm.trans hraw'
  have hkeys : (rawToken (bytes "lab") labTable).map (fun raw =>
      (decryptToken sampleEvp (bytes "other") raw (toHex sampleSalt),
        decryptToken sampleEvp ({} : Machine).secret raw (toHex sampleSalt))) =
      some (none, some sampleToken) := by
    decide +kernel
  rw [hraw, Option.map_some] at hkeys
  obtain ⟨hother, hown⟩ := Prod.mk.inj (Option.some.inj hkeys)
  simp only [SameToken, sampleRegistry, sampleStore] at hsame
  have hsecret : Machine.secret { tokenKey := some (bytes "other") } = bytes "other" := rfl
  rw [hsecret, hother] at hsame
  have hnow := hsame _ _ _ hown
  rw [decryptToken_nil] at hnow
  exact absurd hnow (by decide)

end TokenCall

end Nazg.Git
