import Nazg.Nexus.Initialize

/-!
# Agreement on the salt

Stores that run one after the other agree on the salt. Two that look for it before either
has inserted one do not: the second insertion is ignored, and nobody reads the salt again.
Nor does a reset by a store that holds a salt: the salt in memory hides that the table it
came from is gone, and nothing is inserted in its place.
-/

namespace Nazg.Nexus.Stores

open Lib Lib.Sqlite

variable {evp : Evp} {secret : Nat → Bytes}

/-- Every initialized store holds the salt of the database, and reads every token that was
saved. -/
structure Agreed (evp : Evp) (secret : Nat → Bytes) (s : Stores) : Prop where
  salts : ∀ p, s.stage p = .ready → s.stored = some (s.encryptionSalt p)
  tokens : ∀ label token, s.saved label = some token → ∀ p, s.stage p = .ready →
    ∃ t server, s.gitServers = some t ∧
      getGitServer (s.context evp secret p) label.bytes t = some server ∧
      server.adminToken = token

/-- The token can be encrypted, and every process decrypts with the secret it is encrypted
with. -/
def Savable (evp : Evp) (secret : Nat → Bytes) (s : Stores) (p : Nat) (draw : Option Iv)
    (token : Bytes) : Prop :=
  token = [] ∨ token.length < 2 ^ 31 ∧
    Encryptable evp (secret p) draw token (s.encryptionSalt p) ∧ ∀ q, secret q = secret p

/-- The steps that keep the agreement: an initialization that ends with the salt of the
database in memory, a reset while no other store is initialized, and a token that can be
saved. -/
def Keeping (evp : Evp) (secret : Nat → Bytes) (s : Stores) : StoreEvent → Prop
  | .migrate .. | .loadSalt .. | .close _ => True
  | .createSalt p _ ok =>
      if s.encryptionSalt p = [] then ok = true ∧ s.metadata = some none
      else s.stored = some (s.encryptionSalt p)
  | .dropTables p => ∀ q, q ≠ p → s.stage q ≠ .ready
  | .upsertGitServer p _ draw server => Savable evp secret s p draw server.adminToken
  | .updateGitServerAdminToken p _ draw _ token => Savable evp secret s p draw token

/-! ## The invariant -/

/-- A saved token is stored so that every process decrypts it with the salt of the
database. -/
structure Inv (evp : Evp) (secret : Nat → Bytes) (s : Stores) : Prop where
  salts : ∀ p, s.stage p = .ready → s.stored = some (s.encryptionSalt p)
  tokens : ∀ label token, s.saved label = some token → ∃ salt t raw, s.stored = some salt ∧
    s.gitServers = some t ∧ rawToken label.bytes t = some raw ∧
    ∀ q, (decryptToken evp (secret q) raw salt).getD [] = token

theorem Inv.agreed {s : Stores} (h : Inv evp secret s) : Agreed evp secret s := by
  refine ⟨h.salts, fun label token hsaved p hp => ?_⟩
  obtain ⟨salt, t, raw, hsalt, ht, hraw, hdec⟩ := h.tokens label token hsaved
  have hmem : s.encryptionSalt p = salt := Option.some.inj ((h.salts p hp).symm.trans hsalt)
  have hget := getGitServer_adminToken (s.context evp secret p) label.bytes t
  rw [hraw, Option.map_some, Option.map_eq_some_iff] at hget
  obtain ⟨server, hserver, htoken⟩ := hget
  refine ⟨t, server, ht, hserver, htoken.trans ?_⟩
  simp only [context, hmem]
  exact hdec p

/-- A step of one store that adds no initialized store keeps the invariant, if it leaves
the salt and the rows where they are. -/
theorem Inv.frame {s s' : Stores} (h : Inv evp secret s) (hstored : s'.stored = s.stored)
    (hservers : ∀ t, s.gitServers = some t → s'.gitServers = some t) (hsaved : s'.saved = s.saved)
    (hready : ∀ p, s'.stage p = .ready →
      s.stage p = .ready ∧ s'.encryptionSalt p = s.encryptionSalt p) : Inv evp secret s' := by
  refine ⟨fun p hp => ?_, fun label token hlabel => ?_⟩
  · obtain ⟨hp, hmem⟩ := hready p hp
    rw [hstored, hmem]
    exact h.salts p hp
  · rw [hsaved] at hlabel
    obtain ⟨salt, t, raw, hsalt, ht, hrest⟩ := h.tokens label token hlabel
    exact ⟨salt, t, raw, hstored.trans hsalt, hservers t ht, hrest⟩

/-- What a store with the salt of the database stores for a token is decrypted to it. -/
theorem decrypt_storedToken (hevp : evp.Lawful) {s : Stores} {p : Nat} {draw : Option Iv}
    {token : Bytes} (h : Savable evp secret s p draw token) (q : Nat) :
    (decryptToken evp (secret q) ((s.context evp secret p).storedToken draw token)
      (s.encryptionSalt p)).getD [] = token := by
  rw [TokenContext.storedToken]
  by_cases htoken : token = []
  · rw [if_pos htoken, htoken]
    rfl
  · obtain ⟨hlt, henc, hsecret⟩ := h.resolve_left htoken
    have hdec := (decrypt_encrypt_iff hevp htoken).2 ⟨henc, hlt⟩
    rw [if_neg htoken, hsecret q]
    simp only [context, hdec, Option.getD_some]

/-- One label is written, with what every process decrypts to the token; the others are
not touched. -/
theorem Inv.save {s : Stores} (h : Inv evp secret s) {p : Nat} (hp : s.stage p = .ready)
    {t t' : Table Row} (ht : s.gitServers = some t) {label raw token : Bytes}
    (hdec : ∀ q, (decryptToken evp (secret q) raw (s.encryptionSalt p)).getD [] = token)
    (hother : ∀ label', cstr label' ≠ cstr label → rawToken label' t' = rawToken label' t)
    {saved : Option Bytes} (hsaved : ∀ token', saved = some token' →
      token' = token ∧ rawToken label t' = some raw) :
    Inv evp secret { s with
      gitServers := some t'
      saved := Function.update s.saved (Text.ofCStr label) saved } := by
  refine ⟨h.salts, fun label' token' hlabel => ?_⟩
  simp only at hlabel
  by_cases heq : label' = Text.ofCStr label
  · subst heq
    rw [Function.update_self] at hlabel
    obtain ⟨rfl, hraw⟩ := hsaved _ hlabel
    exact ⟨_, t', raw, h.salts p hp, rfl, (rawToken_ofCStr label t').trans hraw, hdec⟩
  · rw [Function.update_of_ne heq] at hlabel
    obtain ⟨salt, t₀, raw', hsalt, ht₀, hraw', hdec'⟩ := h.tokens label' token' hlabel
    cases ht.symm.trans ht₀
    have hne : cstr label'.bytes ≠ cstr label := by
      intro hc
      exact heq (Text.ext (by rw [Text.ofCStr_bytes, ← hc, Text.cstr_bytes]))
    exact ⟨salt, t', raw', hsalt, rfl, (hother _ hne).trans hraw', hdec'⟩

/-- Who is initialized after a store has gone to another stage is another, and was so
before. -/
theorem ready_of_update {s : Stores} {p q : Nat} {st : Stage} (hst : st ≠ .ready)
    (hq : Function.update s.stage p st q = .ready) : q ≠ p ∧ s.stage q = .ready := by
  by_cases heq : q = p
  · subst heq
    rw [Function.update_self] at hq
    exact absurd hq hst
  · rw [Function.update_of_ne heq] at hq
    exact ⟨heq, hq⟩

theorem stored_createTable (s : Stores) (metadata : Bool) :
    (if metadata then some (s.metadata.getD none) else s.metadata).join = s.metadata.join := by
  cases metadata with
  | false => rfl
  | true => cases s.metadata <;> rfl

/-- An initialization that ends ends with the salt of the database. -/
theorem inv_createSalt {s s' : Stores} (h : Inv evp secret s) {p : Nat} {random : RandomSalt}
    {ok : Bool} (hkeep : Keeping evp secret s (.createSalt p random ok))
    (hs : s.step evp secret (.createSalt p random ok) = some s') : Inv evp secret s' := by
  rw [Keeping] at hkeep
  rw [step] at hs
  split at hs
  · split at hs
    · next hempty =>
        rw [if_pos hempty] at hkeep
        obtain ⟨rfl, hmeta⟩ := hkeep
        -- no salt in the database: nobody is initialized and nothing is saved
        have hstored : s.stored = none := by rw [stored, hmeta]; rfl
        have hcstr : cstr (toHex random) = toHex random :=
          cstr_eq_self.2 fun hz => (of_mem_toHex hz).2 rfl
        cases hs
        refine ⟨fun q hq => ?_, fun label token hsaved => ?_⟩
        · simp only [stored, hmeta, insertSalt, if_true, Option.join_some, Option.map_some,
            Text.ofCStr_bytes, hcstr]
          by_cases heq : q = p
          · rw [heq, Function.update_self]
          · simp only [Function.update_of_ne heq] at hq
            have hnone := h.salts q hq
            rw [hstored] at hnone
            cases hnone
        · obtain ⟨salt, _, _, hsalt, -⟩ := h.tokens label token hsaved
          rw [hstored] at hsalt
          cases hsalt
    · next hheld =>
        rw [if_neg hheld] at hkeep
        cases hs
        refine ⟨fun q hq => ?_, h.tokens⟩
        by_cases heq : q = p
        · rw [heq]
          exact hkeep
        · simp only [Function.update_of_ne heq] at hq
          exact h.salts q hq
  · cases hs

theorem inv_step (hevp : evp.Lawful) {s s' : Stores} {e : StoreEvent} (h : Inv evp secret s)
    (hkeep : Keeping evp secret s e) (hs : s.step evp secret e = some s') : Inv evp secret s' := by
  cases e with
  | migrate p servers metadata completes =>
      rw [step] at hs
      split at hs
      · cases hs
        refine h.frame ?_ ?_ rfl ?_
        · rw [stored, stored_createTable, stored]
        · intro t ht
          simp only [ht]
          split <;> rfl
        · intro q hq
          exact ⟨(ready_of_update (by split <;> decide) hq).2, rfl⟩
      · cases hs
  | loadSalt p ok =>
      rw [step] at hs
      split at hs
      · cases hs
        refine h.frame rfl (fun _ ht => ht) rfl fun q hq => ?_
        obtain ⟨hne, hq⟩ := ready_of_update (by decide) hq
        refine ⟨hq, ?_⟩
        split
        · exact Function.update_of_ne hne _ _
        · rfl
      · cases hs
  | createSalt p random ok => exact inv_createSalt h hkeep hs
  | dropTables p =>
      rw [step] at hs
      split at hs
      · cases hs
        refine ⟨fun q hq => ?_, fun label token hsaved => ?_⟩
        · obtain ⟨hne, hq⟩ := ready_of_update (by decide) hq
          exact absurd hq (hkeep q hne)
        · cases hsaved
      · cases hs
  | close p =>
      rw [step] at hs
      cases hs
      refine h.frame rfl (fun _ ht => ht) rfl fun q hq => ?_
      obtain ⟨hne, hq⟩ := ready_of_update (by decide) hq
      exact ⟨hq, Function.update_of_ne hne _ _⟩
  | upsertGitServer p now draw server =>
      rw [step] at hs
      split at hs
      · cases hs
      · next t ht =>
          split at hs
          · next hp =>
              cases hs
              refine h.save hp ht (decrypt_storedToken hevp hkeep) ?_ ?_
              · exact fun label' hne => rawToken_upsertGitServer_ne _ now draw server t hne
              · intro token' htoken
                cases htoken
                exact ⟨rfl, rawToken_upsertGitServer _ now draw server t⟩
          · cases hs
  | updateGitServerAdminToken p now draw label token =>
      rw [step] at hs
      split at hs
      · cases hs
      · next t ht =>
          split at hs
          · next hp =>
              cases hs
              refine h.save hp ht (decrypt_storedToken hevp hkeep) ?_ ?_
              · exact fun label' hne =>
                  rawToken_updateGitServerAdminToken_ne _ now draw token t hne
              · intro token' htoken
                obtain ⟨_, hraw, rfl⟩ := Option.map_eq_some_iff.1 htoken
                refine ⟨rfl, ?_⟩
                rw [rawToken_updateGitServerAdminToken, hraw, Option.map_some]
          · cases hs

theorem inv_start (metadata : Option (Option Text)) (gitServers : Option (Table Row)) :
    Inv evp secret (start metadata gitServers) :=
  ⟨fun _ hp => (nomatch hp), fun _ _ hsaved => (nomatch hsaved)⟩

/-- In a run whose steps all keep the agreement, every initialized store holds the salt of
the database and reads every saved token. -/
theorem agreed_of_keeping (hevp : evp.Lawful) (metadata : Option (Option Text))
    (gitServers : Option (Table Row)) {s : Stores}
    (h : (system evp secret metadata gitServers).ReachableBy (Keeping evp secret) s) :
    Agreed evp secret s :=
  (h.invariant (inv_start metadata gitServers) fun _ _ _ => inv_step hevp).agreed

/-! ## Runs -/

/-- The steps of an `initialize` in which every statement succeeds. -/
def initSteps (p : Nat) (random : RandomSalt) : List StoreEvent :=
  [.migrate p true true true, .loadSalt p true, .createSalt p random true]

/-- A reset by a store that holds a salt, undisturbed and without a failure, ends with no
salt in the database. -/
theorem reset_stores_no_salt {metadata : Option (Option Text)} {gitServers : Option (Table Row)}
    {s : Stores} {p : Nat} (hp : s.stage p = .ready) (hheld : s.encryptionSalt p ≠ [])
    (random : RandomSalt) :
    ∃ s', (system evp secret metadata gitServers).run s (.dropTables p :: initSteps p random) =
        some s' ∧ s'.stage p = .ready ∧ s'.stored = none := by
  simp only [initSteps, System.run, system, step, hp, or_true, if_true, Function.update_self,
    true_or, stored, Option.getD_none, Option.join_some, Option.map_none, hheld, if_false]
  exact ⟨_, rfl, by simp, rfl⟩

/-- The stores on a fresh database, on a machine without a secret of its own. -/
def fresh : System Stores StoreEvent :=
  system sampleEvp (fun _ => ({} : Machine).secret) none none

def labServer : GitServer where
  label := bytes "lab"
  type := bytes "gitea"
  host := bytes "10.0.0.4"
  adminToken := sampleToken

/-- One process saves a token, and a later one is initialized. -/
theorem agreed_of_keeping_twoProcesses : ∃ s : Stores,
    s.stage 1 = .ready ∧ s.saved (Text.ofCStr (bytes "lab")) = some sampleToken ∧
      Agreed sampleEvp (fun _ => ({} : Machine).secret) s := by
  have hrun : fresh.ReachableBy (Keeping sampleEvp fun _ => ({} : Machine).secret) _ :=
    .step (e := .createSalt 1 ⟨sampleSalt, rfl⟩ true)
      (.step (e := .loadSalt 1 true)
        (.step (e := .migrate 1 true true true)
          (.step (e := .upsertGitServer 0 1700000000 (some sampleIv) labServer)
            (.step (e := .createSalt 0 ⟨sampleSalt, rfl⟩ true)
              (.step (e := .loadSalt 0 true)
                (.step (e := .migrate 0 true true true) .init trivial rfl) trivial rfl)
              ⟨rfl, rfl⟩ rfl)
            (Or.inr ⟨by decide, ⟨by decide, _, _, _, rfl, rfl, rfl⟩, fun _ => rfl⟩) rfl)
          trivial rfl)
        trivial rfl)
      rfl rfl
  exact ⟨_, rfl, rfl, agreed_of_keeping sampleEvp_lawful none none hrun⟩

/-- Two processes look for a salt before either has inserted one, and the second saves a
token. -/
def race : List StoreEvent :=
  [.migrate 0 true true true, .migrate 1 true true true, .loadSalt 0 true, .loadSalt 1 true,
    .createSalt 0 ⟨List.replicate 16 0, rfl⟩ true, .createSalt 1 ⟨sampleSalt, rfl⟩ true,
    .upsertGitServer 1 1700000000 (some sampleIv) labServer]

/-- The second salt is only in memory, and the first process cannot read the token. -/
theorem race_disagrees : ∃ s : Stores, fresh.Reachable s ∧
    s.stage 0 = .ready ∧ s.stage 1 = .ready ∧ s.stored ≠ some (s.encryptionSalt 1) ∧
    s.saved (Text.ofCStr (bytes "lab")) = some sampleToken ∧
    (s.gitServers.bind (getGitServer (s.context sampleEvp (fun _ => ({} : Machine).secret) 0)
      (bytes "lab"))).map GitServer.adminToken = some [] ∧
    ¬ Agreed sampleEvp (fun _ => ({} : Machine).secret) s := by
  obtain ⟨s, hs⟩ : ∃ s, fresh.run fresh.init race = some s := ⟨_, rfl⟩
  have hstored : s.stored ≠ some (s.encryptionSalt 1) := by
    cases hs
    decide
  refine ⟨s, System.Reachable.run .init hs, ?_, ?_, hstored, ?_, ?_, fun h => ?_⟩
  · cases hs
    rfl
  · cases hs
    rfl
  · cases hs
    rfl
  · cases hs
    decide +kernel
  · refine hstored (h.salts 1 ?_)
    cases hs
    rfl

end Nazg.Nexus.Stores
