import Nazg.Git.ServerRegistry
import Nazg.Lib.System

/-!
# The drift of configured servers

The registry notices that a configuration has changed by the hash of its fields, written one
after the other with bars between them. A bar in a field is not told from one between two. A
label that is configured and not stored is taken for one without changes.
-/

namespace Nazg.Git

open Lib Lib.Sqlite Nexus

/-! ## Fields between bars -/

section

variable {α : Type*} [DecidableEq α] {sep : α}

theorem append_cons_inj {a b x y : List α} (hcount : a.count sep = b.count sep)
    (h : a ++ sep :: x = b ++ sep :: y) : a = b ∧ x = y := by
  have hnil : ∀ {u v c w z : List α}, u.count sep = v.count sep → v = u ++ c →
      sep :: w = c ++ sep :: z → c = [] := by
    intro u v c w z hcount hv hw
    cases c with
    | nil => rfl
    | cons d c =>
        obtain rfl : sep = d := (List.cons.inj hw).1
        rw [hv, List.count_append, List.count_cons_self] at hcount
        omega
  rcases List.append_eq_append_iff.1 h with ⟨c, hb, hx⟩ | ⟨c, ha, hy⟩
  · obtain rfl := hnil hcount hb hx
    rw [List.append_nil] at hb
    rw [List.nil_append] at hx
    exact ⟨hb.symm, (List.cons.inj hx).2⟩
  · obtain rfl := hnil hcount.symm ha hy
    rw [List.append_nil] at ha
    rw [List.nil_append] at hy
    exact ⟨ha, (List.cons.inj hy).2.symm⟩

/-- Joined texts with as many separators in each are equal only if they are equal themselves. -/
theorem intercalate_inj {xs ys : List (List α)}
    (hcount : xs.map (List.count sep) = ys.map (List.count sep))
    (h : [sep].intercalate xs = [sep].intercalate ys) : xs = ys := by
  induction xs generalizing ys with
  | nil => exact (List.map_eq_nil_iff.1 hcount.symm).symm
  | cons x xs ih =>
      cases ys with
      | nil => cases hcount
      | cons y ys =>
          obtain ⟨hhead, htail⟩ := List.cons.inj hcount
          cases xs with
          | nil =>
              obtain rfl := List.map_eq_nil_iff.1 htail.symm
              simpa using h
          | cons x' xs =>
              cases ys with
              | nil => cases htail
              | cons y' ys =>
                  rw [List.intercalate_cons_cons, List.intercalate_cons_cons, List.append_assoc,
                    List.append_assoc] at h
                  obtain ⟨rfl, hrest⟩ := append_cons_inj hhead h
                  rw [ih htail hrest]

end

/-! ## What is hashed -/

/-- The same but for the token. -/
def SameSettings (a b : ServerConfig) : Prop :=
  { a with adminToken := [] } = { b with adminToken := [] }

def hashedFields (cfg : ServerConfig) : List Bytes :=
  [cfg.type, cfg.host, cfg.sshUser, decimal cfg.sshPort, decimal cfg.port, cfg.repoBasePath,
    cfg.configPath, cfg.webUrl]

def hashedText (cfg : ServerConfig) : Bytes := (bytes "|").intercalate (hashedFields cfg)

/-- Each field of the one has as many bars as that of the other. -/
def SameBars (a b : ServerConfig) : Prop :=
  (hashedFields a).map (List.count 124) = (hashedFields b).map (List.count 124)

instance (a b : ServerConfig) : Decidable (SameBars a b) :=
  inferInstanceAs (Decidable (_ = _))

theorem sameSettings_iff {a b : ServerConfig} :
    SameSettings a b ↔ hashedFields a = hashedFields b := by
  constructor
  · intro h
    have hfields : hashedFields { a with adminToken := [] } =
        hashedFields { b with adminToken := [] } := congrArg hashedFields h
    exact hfields
  · intro h
    simp only [hashedFields, List.cons.injEq, decimal_injective.eq_iff] at h
    obtain ⟨htype, hhost, huser, hssh, hport, hbase, hpath, hurl, -⟩ := h
    rw [SameSettings, htype, hhost, huser, hssh, hport, hbase, hpath, hurl]

theorem hashedText_eq_iff {a b : ServerConfig} (h : SameBars a b) :
    hashedText a = hashedText b ↔ SameSettings a b := by
  rw [sameSettings_iff]
  exact ⟨fun heq => intercalate_inj h heq, congrArg _⟩

theorem SameSettings.sameBars {a b : ServerConfig} (h : SameSettings a b) : SameBars a b :=
  congrArg (List.map (List.count 124)) (sameSettings_iff.1 h)

theorem SameSettings.hashedText_eq {a b : ServerConfig} (h : SameSettings a b) :
    hashedText a = hashedText b := (hashedText_eq_iff h.sameBars).2 h

theorem computeConfigHash_eq_iff {r : ServerRegistry} (hsha : Function.Injective r.sha256)
    {a b : ServerConfig} :
    r.computeConfigHash a = r.computeConfigHash b ↔ hashedText a = hashedText b := by
  constructor
  · intro h
    have hsum := congrArg fromHex h
    simp only [ServerRegistry.computeConfigHash, fromHex_toHex] at hsum
    exact hsha hsum
  · intro h
    exact congrArg (fun s => toHex (r.sha256 s)) h

theorem cstr_computeConfigHash (r : ServerRegistry) (cfg : ServerConfig) :
    cstr (r.computeConfigHash cfg) = r.computeConfigHash cfg :=
  cstr_eq_self.2 fun h => (of_mem_toHex h).2 rfl

/-! ## What is stored -/

theorem narrow_toInteger {n : Int} (h : FitsInt n) (default : Int) :
    narrow (((bindText (decimal n)).toInteger).getInt.getD default) = n := by
  obtain ⟨hlo, hhi⟩ := h
  rw [toInteger_decimal (by omega) (by omega), getInt_int (by omega) (by omega), Option.getD_some,
    narrow, Int.bmod_eq_of_le_mul_two (by omega) (by omega)]

section

variable (c : TokenContext)

theorem getGitServer_ofCStr {label label' : Bytes}
    (h : Text.ofCStr label = Text.ofCStr label') (t : Table Row) :
    getGitServer c label t = getGitServer c label' t := by
  have hlabel : hasLabel label = hasLabel label' := by
    funext row
    rw [hasLabel, hasLabel, bindText, bindText, h]
  rw [getGitServer, getGitServer, hlabel]

/-- What is found under a label after an upsert of it. -/
theorem getGitServer_upsert (now : Int) (draw : Option Iv) (server : GitServer) (t : Table Row) :
    ∃ record, getGitServer c server.label (upsertGitServer c now draw server t) = some record ∧
      record.type = cstr server.type ∧ record.host = cstr server.host ∧
      record.sshUser = cstr server.sshUser ∧ record.repoBasePath = cstr server.repoBasePath ∧
      record.configPath = cstr server.configPath ∧ record.webUrl = cstr server.webUrl ∧
      record.configHash = cstr server.configHash ∧
      (FitsInt server.port → record.port = server.port) ∧
      (FitsInt server.sshPort → record.sshPort = server.sshPort) := by
  have hself := fun row hrow =>
    t.first_upsertRow_self (hasLabel server.label) (excluded upsertedColumns row) (r := row) hrow
      fun x hx => hx
  rw [getGitServer, upsertGitServer, hself _ (by exact decide_eq_true rfl), Option.map_some]
  refine ⟨_, rfl, ?_⟩
  cases t.first (hasLabel server.label) with
  | none =>
      exact ⟨rfl, rfl, rfl, rfl, rfl, rfl, rfl, fun h => narrow_toInteger h 0,
        fun h => narrow_toInteger h 22⟩
  | some x =>
      exact ⟨rfl, rfl, rfl, rfl, rfl, rfl, rfl, fun h => narrow_toInteger h 0,
        fun h => narrow_toInteger h 22⟩

theorem getGitServer_upsert_ne (now : Int) (draw : Option Iv) (server : GitServer) (t : Table Row)
    {label : Bytes} (h : Text.ofCStr label ≠ Text.ofCStr server.label) :
    getGitServer c label (upsertGitServer c now draw server t) = getGitServer c label t := by
  have hne : bindText server.label ≠ bindText label := by
    intro heq
    exact h (Value.text.inj heq).symm
  have hother : ∀ row : Row, hasLabel server.label row = true → hasLabel label row = false := by
    intro row hrow
    rw [hasLabel, of_decide_eq_true hrow]
    exact decide_eq_false hne
  rw [getGitServer, upsertGitServer, Table.first_upsertRow_ne, getGitServer]
  · exact decide_eq_false hne
  · exact fun x hx => ⟨hother x hx, hother x hx⟩

/-- A row is read without terminators. -/
theorem zero_notMem_getText (v : Value) : (0 : UInt8) ∉ v.getText.getD [] := by
  cases v with
  | null => exact List.not_mem_nil
  | int i =>
      intro h
      exact absurd (lt_of_mem_decimal h) (by decide)
  | text t => exact t.nulFree

end

/-- The settings of a record. -/
def storedSettings (record : GitServer) : ServerConfig where
  type := record.type
  host := record.host
  port := record.port
  sshPort := record.sshPort
  sshUser := record.sshUser
  repoBasePath := record.repoBasePath
  configPath := record.configPath
  webUrl := record.webUrl

/-- The label has a row, with these settings. -/
def Carries (c : TokenContext) (label : Bytes) (cfg : ServerConfig) (t : Table Row) : Prop :=
  ∃ record, getGitServer c label t = some record ∧ SameSettings (storedSettings record) cfg

def textFields (cfg : ServerConfig) : List Bytes :=
  [cfg.type, cfg.host, cfg.sshUser, cfg.repoBasePath, cfg.configPath, cfg.webUrl]

def NulFree (cfg : ServerConfig) : Prop := ∀ s ∈ textFields cfg, (0 : UInt8) ∉ s

instance (cfg : ServerConfig) : Decidable (NulFree cfg) :=
  inferInstanceAs (Decidable (∀ s ∈ textFields cfg, (0 : UInt8) ∉ s))

theorem SameSettings.textFields_eq {a b : ServerConfig} (h : SameSettings a b) :
    textFields a = textFields b := by
  have hfields : textFields { a with adminToken := [] } = textFields { b with adminToken := [] } :=
    congrArg textFields h
  exact hfields

theorem Carries.nulFree {c : TokenContext} {label : Bytes} {cfg : ServerConfig} {t : Table Row}
    (h : Carries c label cfg t) : NulFree cfg := by
  obtain ⟨record, hrecord, hsame⟩ := h
  obtain ⟨x, -, rfl⟩ := Option.map_eq_some_iff.1 hrecord
  rw [NulFree, ← hsame.textFields_eq]
  simp only [textFields, storedSettings, readGitServer, List.forall_mem_cons]
  exact ⟨zero_notMem_getText _, zero_notMem_getText _, zero_notMem_getText _,
    zero_notMem_getText _, zero_notMem_getText _, zero_notMem_getText _,
    fun s hs => absurd hs List.not_mem_nil⟩

/-- An upsert stores the settings of its record if no text of them is cut. -/
theorem carries_upsert_iff (c : TokenContext) (now : Int) (draw : Option Iv) {server : GitServer}
    {cfg : ServerConfig} (hsame : SameSettings (storedSettings server) cfg)
    (hport : FitsInt cfg.port) (hssh : FitsInt cfg.sshPort) (t : Table Row) :
    Carries c server.label cfg (upsertGitServer c now draw server t) ↔ NulFree cfg := by
  refine ⟨Carries.nulFree, ?_⟩
  intro hfree
  obtain ⟨record, hrecord, htype, hhost, huser, hbase, hpath, hurl, -, hstored, hstored'⟩ :=
    getGitServer_upsert c now draw server t
  refine ⟨record, hrecord, ?_⟩
  simp only [SameSettings, storedSettings, ServerConfig.mk.injEq] at hsame ⊢
  obtain ⟨stype, shost, sport, sssh, suser, sbase, spath, surl, -⟩ := hsame
  simp only [NulFree, textFields, List.forall_mem_cons] at hfree
  obtain ⟨ntype, nhost, nuser, nbase, npath, nurl, -⟩ := hfree
  rw [htype, hhost, huser, hbase, hpath, hurl, hstored (sport ▸ hport), hstored' (sssh ▸ hssh), stype,
    shost, sport, sssh, suser, sbase, spath, surl]
  exact ⟨cstr_eq_self.2 ntype, cstr_eq_self.2 nhost, rfl, rfl, cstr_eq_self.2 nuser,
    cstr_eq_self.2 nbase, cstr_eq_self.2 npath, cstr_eq_self.2 nurl, trivial⟩

theorem loadFromConfig_fitsInt {r : ServerRegistry} {label : Bytes} {cfg : ServerConfig}
    (h : r.loadFromConfig label = some cfg) : FitsInt cfg.port ∧ FitsInt cfg.sshPort := by
  rw [ServerRegistry.loadFromConfig] at h
  split at h
  · cases h
  · simp only [Option.ite_none_left_eq_some, Option.some.injEq] at h
    · obtain ⟨-, -, rfl⟩ := h
      refine ⟨ServerRegistry.fitsInt_getInt _ _ _ ?_, ServerRegistry.fitsInt_getInt _ _ _ ?_⟩
      · split <;> constructor <;> omega
      · constructor <;> omega

/-! ## What the calls do -/

theorem getGitServer_label {c : TokenContext} {label : Bytes} {t : Table Row} {record : GitServer}
    (h : getGitServer c label t = some record) : Text.ofCStr record.label = Text.ofCStr label := by
  obtain ⟨x, hx, rfl⟩ := Option.map_eq_some_iff.1 h
  have hfound : hasLabel label x.2 = true := by simpa using List.find?_some hx
  have hlabel : x.2 "label" = bindText label := of_decide_eq_true hfound
  have htext : (readGitServer c x).label = (Text.ofCStr label).bytes := by
    rw [readGitServer]
    simp only [hlabel, bindText, Value.getText, Option.getD_some]
  rw [htext]
  exact Text.ofCStr_self _

namespace ServerRegistry

variable {r : ServerRegistry} {env : Conditions} {label : Bytes} {t : Table Row}

/-- `add_server` fails, or writes these settings and their hash. -/
theorem addServer_cases (r : ServerRegistry) (env : Conditions) (label : Bytes)
    (cfg : ServerConfig) (t : Table Row) : r.addServer env label cfg t = (false, t) ∨
      ∃ record : GitServer, Text.ofCStr record.label = Text.ofCStr label ∧
        record.configHash = r.computeConfigHash cfg ∧
        r.addServer env label cfg t = (true, upsertGitServer r.store env.now env.draw record t) := by
  rw [addServer]
  split
  · exact .inl rfl
  · cases readServer r.store (env.reads 0) label t with
    | none =>
        simp only [writeServer]
        split
        · exact .inr ⟨_, rfl, rfl, rfl⟩
        · exact .inl rfl
    | some existing =>
        simp only [writeServer]
        split
        · exact .inr ⟨_, rfl, rfl, rfl⟩
        · exact .inl rfl

theorem hasConfigChanges_getServer {cfg : ServerConfig} {record : GitServer}
    (hcfg : r.loadFromConfig label = some cfg)
    (hrecord : readServer r.store (env.reads 0) label t = some record) :
    ∃ entry, r.getServer env label t = some entry ∧
      (entry.hasConfigChanges = true ↔ record.configHash ≠ r.computeConfigHash cfg) ∧
      SameSettings entry.config cfg := by
  rw [getServer, hcfg, hrecord]
  refine ⟨_, rfl, ?_, rfl⟩
  exact decide_eq_true_iff

theorem getServer_unread {cfg : ServerConfig} (hcfg : r.loadFromConfig label = some cfg)
    (hrecord : readServer r.store (env.reads 0) label t = none) :
    ∃ entry, r.getServer env label t = some entry ∧ entry.hasConfigChanges = false := by
  rw [getServer, hcfg, hrecord]
  exact ⟨_, rfl, rfl⟩

/-- Without a configuration, or without a row that could be read, nothing is done. -/
theorem sync_unread {prompt : Option Bool}
    (h : r.loadFromConfig label = none ∨ readServer r.store (env.reads 0) label t = none) :
    r.syncConfigToDatabase env label prompt t = (true, t) := by
  rw [syncConfigToDatabase, getServer]
  rcases h with h | h
  · rw [h]
    cases readServer r.store (env.reads 0) label t with
    | none => rfl
    | some record => rfl
  · rw [h]
    cases r.loadFromConfig label with
    | none => rfl
    | some cfg => rfl

theorem sync_same {prompt : Option Bool} {cfg : ServerConfig} {record : GitServer}
    (hcfg : r.loadFromConfig label = some cfg)
    (hrecord : readServer r.store (env.reads 0) label t = some record)
    (hhash : record.configHash = r.computeConfigHash cfg) :
    r.syncConfigToDatabase env label prompt t = (true, t) := by
  obtain ⟨entry, hentry, hchanges, -⟩ := hasConfigChanges_getServer hcfg hrecord
  rw [syncConfigToDatabase, hentry]
  exact if_pos fun h => hchanges.1 h hhash

/-- With changes `sync_config_to_database` is declined, fails, or writes these settings and
their hash. -/
theorem sync_cases {prompt : Option Bool} {cfg : ServerConfig} {record : GitServer}
    (hcfg : r.loadFromConfig label = some cfg)
    (hrecord : readServer r.store (env.reads 0) label t = some record)
    (hhash : record.configHash ≠ r.computeConfigHash cfg) :
    (prompt = some false ∨ env.writes = false) ∧
      r.syncConfigToDatabase env label prompt t = (false, t) ∨
    ¬ (prompt = some false ∨ env.writes = false) ∧
      ∃ written : GitServer, Text.ofCStr written.label = Text.ofCStr label ∧
        written.configHash = r.computeConfigHash cfg ∧
        SameSettings (storedSettings written) cfg ∧
        r.syncConfigToDatabase env label prompt t =
          (true, upsertGitServer r.store env.now env.draw written t) := by
  obtain ⟨entry, hentry, hchanges, hsame⟩ := hasConfigChanges_getServer hcfg hrecord
  have hsettings : hashedText entry.config = hashedText cfg :=
    congrArg (bytes "|").intercalate (sameSettings_iff.1 hsame)
  have hconfig : r.computeConfigHash entry.config = r.computeConfigHash cfg :=
    congrArg (fun s => toHex (r.sha256 s)) hsettings
  rw [syncConfigToDatabase, hentry]
  simp only [hchanges.2 hhash, not_true_eq_false, if_false]
  by_cases hprompt : prompt = some false
  · rw [if_pos hprompt]
    exact .inl ⟨.inl hprompt, rfl⟩
  · rw [if_neg hprompt]
    cases hwrites : env.writes with
    | false => exact .inl ⟨.inr rfl, by simp [writeServer, hwrites]⟩
    | true =>
        refine .inr ⟨by simp [hprompt], ?_⟩
        simp only [writeServer, hwrites, if_true]
        refine ⟨_, ?_, hconfig, ?_, rfl⟩
        · cases hread : readServer r.store (env.reads 1) label t with
          | none => rfl
          | some existing =>
              rw [readServer] at hread
              split at hread
              · have hlabel : Text.ofCStr existing.label = Text.ofCStr label :=
                  getGitServer_label hread
                exact hlabel
              · cases hread
        · exact sameSettings_iff.2 (sameSettings_iff.1 hsame)

end ServerRegistry

/-! ## Runs -/

/-- The configuration file, the table, and for each label the settings of the last call that
saved it, or found on comparing that there was nothing to save. -/
structure RegistryState where
  cfg : Option (Bytes → Bytes → Option Bytes)
  table : Table Row
  last : Text → Option ServerConfig

inductive RegistryEvent where
  | edit (cfg : Option (Bytes → Bytes → Option Bytes))
  | addServer (env : Conditions) (label : Bytes) (cfg : ServerConfig)
  | syncConfigToDatabase (env : Conditions) (label : Bytes) (prompt : Option Bool)

namespace RegistryState

variable (r : ServerRegistry) (s : RegistryState)

/-- The registry on the present configuration. -/
def registry : ServerRegistry := { r with cfg := s.cfg }

def configured (label : Bytes) : Option ServerConfig := (s.registry r).loadFromConfig label

def known (label : Bytes) : Option ServerConfig := s.last (Text.ofCStr label)

def add (env : Conditions) (label : Bytes) (cfg : ServerConfig) : Bool × Table Row :=
  (s.registry r).addServer env label cfg s.table

def sync (env : Conditions) (label : Bytes) (prompt : Option Bool) : Bool × Table Row :=
  (s.registry r).syncConfigToDatabase env label prompt s.table

/-- The settings that a call ended with. -/
def note (ended : Bool) (label : Bytes) (cfg : Option ServerConfig) : Text → Option ServerConfig :=
  if ended ∧ cfg.isSome then Function.update s.last (Text.ofCStr label) cfg else s.last

def step : RegistryEvent → RegistryState
  | .edit cfg => { s with cfg }
  | .addServer env label cfg =>
      let added := s.add r env label cfg
      { s with table := added.2, last := s.note added.1 label (some cfg) }
  | .syncConfigToDatabase env label prompt =>
      let synced := s.sync r env label prompt
      let compared := env.reads 0 ∧ (getGitServer r.store label s.table).isSome
      { s with
        table := synced.2
        last := s.note (synced.1 ∧ compared) label (s.configured r label) }

/-- From an empty database. -/
def system (cfg : Option (Bytes → Bytes → Option Bytes)) : System RegistryState RegistryEvent where
  init := ⟨cfg, .empty, fun _ => none⟩
  step s e := some (s.step r e)

/-- What `get_server` says about changes is right, if the label is stored and configured. -/
def Reports (env : Conditions) (label : Bytes) : Prop :=
  ∀ entry cfg last, (s.registry r).getServer env label s.table = some entry →
    s.configured r label = some cfg → s.known label = some last →
    (entry.hasConfigChanges = true ↔ ¬ SameSettings cfg last)

/-- If the call succeeds, the label is stored as it is configured. -/
def Syncs (env : Conditions) (label : Bytes) (prompt : Option Bool) : Prop :=
  ∀ cfg, s.configured r label = some cfg → (s.sync r env label prompt).1 = true →
    Carries r.store label cfg (s.sync r env label prompt).2

/-- The hash of a stored label is that of the settings it ended with last. -/
def Inv : Prop :=
  ∀ label, (getGitServer r.store label s.table).map GitServer.configHash =
    (s.known label).map r.computeConfigHash

variable {r s}

theorem inv_upsert (h : s.Inv r) {now : Int} {draw : Option Iv} {server : GitServer}
    {label : Bytes} {cfg : ServerConfig} (hlabel : Text.ofCStr server.label = Text.ofCStr label)
    (hhash : server.configHash = r.computeConfigHash cfg) :
    Inv r { s with
      table := upsertGitServer r.store now draw server s.table
      last := Function.update s.last (Text.ofCStr label) (some cfg) } := by
  intro label'
  by_cases heq : Text.ofCStr label' = Text.ofCStr label
  · obtain ⟨record, hrecord, -, -, -, -, -, -, hstored, -⟩ :=
      getGitServer_upsert r.store now draw server s.table
    rw [hhash, cstr_computeConfigHash] at hstored
    simp only [known, heq, Function.update_self, Option.map_some]
    rw [getGitServer_ofCStr r.store (heq.trans hlabel.symm), hrecord, Option.map_some, hstored]
  · have hne : Text.ofCStr label' ≠ Text.ofCStr server.label := hlabel ▸ heq
    simp only [known, Function.update_of_ne heq]
    rw [getGitServer_upsert_ne r.store now draw server s.table hne]
    exact h label'

theorem readServer_eq_some {env : Conditions} {label : Bytes} {t : Table Row}
    {record : GitServer} : ServerRegistry.readServer r.store (env.reads 0) label t = some record ↔
      env.reads 0 = true ∧ getGitServer r.store label t = some record := by
  rw [ServerRegistry.readServer]
  cases env.reads 0 <;> simp

theorem inv_note (h : s.Inv r) {label : Bytes} {ended : Bool} {cfg : Option ServerConfig}
    (hsame : ended = true → ∀ settings, cfg = some settings → ∃ last, s.known label = some last ∧
      r.computeConfigHash settings = r.computeConfigHash last) :
    Inv r { s with last := s.note ended label cfg } := by
  intro label'
  rw [h label']
  simp only [known, note]
  split
  · next hended =>
      obtain ⟨settings, rfl⟩ := Option.isSome_iff_exists.1 hended.2
      obtain ⟨last, hlast, hhash⟩ := hsame hended.1 settings rfl
      by_cases heq : Text.ofCStr label' = Text.ofCStr label
      · rw [known] at hlast
        rw [heq, Function.update_self, hlast, Option.map_some, Option.map_some, hhash]
      · rw [Function.update_of_ne heq]
  · rfl

theorem inv_step (h : s.Inv r) (e : RegistryEvent) : (s.step r e).Inv r := by
  cases e with
  | edit cfg => exact h
  | addServer env label cfg =>
      rw [step]
      rcases ServerRegistry.addServer_cases (s.registry r) env label cfg s.table with
        hadd | ⟨record, hlabel, hhash, hadd⟩
      · simp only [add, hadd]
        exact inv_note h fun hended => by cases hended
      · simp only [add, hadd, note, Option.isSome_some, and_self, if_true]
        exact inv_upsert h hlabel hhash
  | syncConfigToDatabase env label prompt =>
      rw [step]
      cases hcfg : s.configured r label with
      | none =>
          have hsync : s.sync r env label prompt = (true, s.table) :=
            ServerRegistry.sync_unread (.inl hcfg)
          simp only [hsync, note, Option.isSome_none, Bool.false_eq_true, and_false, if_false]
          exact h
      | some cfg =>
          cases hread : ServerRegistry.readServer r.store (env.reads 0) label s.table with
          | none =>
              have hcompared : ¬ (env.reads 0 = true ∧
                  (getGitServer r.store label s.table).isSome = true) := by
                rintro ⟨hok, hstored⟩
                rw [ServerRegistry.readServer, if_pos hok] at hread
                rw [hread] at hstored
                cases hstored
              have hsync : s.sync r env label prompt = (true, s.table) :=
                ServerRegistry.sync_unread (.inr hread)
              simp only [hsync, hcompared, and_false, decide_false]
              exact inv_note h fun hended => by cases hended
          | some record =>
              obtain ⟨hok, hstored⟩ := readServer_eq_some.1 hread
              by_cases hhash : record.configHash = (s.registry r).computeConfigHash cfg
              · simp only [sync, ServerRegistry.sync_same hcfg hread hhash]
                refine inv_note h ?_
                rintro - settings ⟨⟩
                have hinv := h label
                rw [hstored, Option.map_some] at hinv
                obtain ⟨last, hlast, heq⟩ := Option.map_eq_some_iff.1 hinv.symm
                exact ⟨last, hlast, hhash.symm.trans heq.symm⟩
              · rcases @ServerRegistry.sync_cases _ _ _ _ prompt _ _ hcfg hread hhash with
                  ⟨-, hsync⟩ | ⟨-, written, hlabel, hwritten, -, hsync⟩
                · simp only [sync, hsync]
                  exact inv_note h fun hended => by simp at hended
                · simp only [sync, hsync, hok, hstored, note, Option.isSome_some]
                  exact inv_upsert h hlabel hwritten

theorem inv_reachable {cfg : Option (Bytes → Bytes → Option Bytes)}
    (h : (system r cfg).Reachable s) : s.Inv r := by
  refine h.invariant (p := fun s => s.Inv r) ?_ ?_
  · intro label
    rfl
  · intro s e s' hinv hstep
    cases hstep
    exact inv_step hinv e

/-- The query finds the row, unless there is nothing to see, and the hash tells the two
settings apart: no bar has moved from one field to another. -/
def Visible (s : RegistryState) (r : ServerRegistry) (env : Conditions) (label : Bytes) : Prop :=
  ∀ cfg last, s.configured r label = some cfg → s.known label = some last →
    (env.reads 0 = true ∨ SameSettings cfg last) ∧
      (SameBars cfg last ∨ hashedText cfg ≠ hashedText last)

/-- The label is stored, and either as it is configured already, or the query finds the row,
its hash differs from that of the configuration, and nothing that is then written is cut. -/
def Savable (s : RegistryState) (r : ServerRegistry) (env : Conditions) (label : Bytes)
    (prompt : Option Bool) : Prop :=
  ∀ cfg, s.configured r label = some cfg → Carries r.store label cfg s.table ∨
    ∃ last, s.known label = some last ∧ env.reads 0 = true ∧ hashedText cfg ≠ hashedText last ∧
      (prompt = some false ∨ env.writes = false ∨ NulFree cfg)

/-- Changes are reported if the row is read and its hash is another. -/
theorem hasConfigChanges_iff (hsha : Function.Injective r.sha256) (hinv : s.Inv r)
    (env : Conditions) {label : Bytes} {cfg last : ServerConfig}
    (hcfg : s.configured r label = some cfg) (hlast : s.known label = some last) :
    ∃ entry, (s.registry r).getServer env label s.table = some entry ∧
      (entry.hasConfigChanges = true ↔
        env.reads 0 = true ∧ hashedText cfg ≠ hashedText last) := by
  have hstored := hinv label
  rw [hlast, Option.map_some] at hstored
  obtain ⟨record, hrecord, hhash⟩ := Option.map_eq_some_iff.1 hstored
  cases hok : env.reads 0 with
  | false =>
      have hread : ServerRegistry.readServer r.store (env.reads 0) label s.table = none := by
        rw [ServerRegistry.readServer, hok]
        rfl
      obtain ⟨entry, hentry, hchanges⟩ := ServerRegistry.getServer_unread hcfg hread
      exact ⟨entry, hentry, by simp [hchanges]⟩
  | true =>
      obtain ⟨entry, hentry, hchanges, -⟩ := ServerRegistry.hasConfigChanges_getServer hcfg
        (readServer_eq_some.2 ⟨hok, hrecord⟩)
      have hdiffer : record.configHash ≠ r.computeConfigHash cfg ↔
          hashedText cfg ≠ hashedText last := by
        rw [hhash, Ne, computeConfigHash_eq_iff hsha, eq_comm]
      exact ⟨entry, hentry, hchanges.trans (hdiffer.trans (by simp))⟩

theorem reports_iff (hsha : Function.Injective r.sha256) (hinv : s.Inv r) {env : Conditions}
    {label : Bytes} : s.Reports r env label ↔ s.Visible r env label := by
  rw [Reports, forall_comm]
  refine forall_congr' fun cfg => ?_
  rw [forall_comm]
  refine forall_congr' fun last => ?_
  have hright : ∀ hcfg : s.configured r label = some cfg, ∀ hlast : s.known label = some last,
      (env.reads 0 = true ∧ hashedText cfg ≠ hashedText last ↔ ¬ SameSettings cfg last) ↔
        (env.reads 0 = true ∨ SameSettings cfg last) ∧
          (SameBars cfg last ∨ hashedText cfg ≠ hashedText last) := by
    intro hcfg hlast
    have hbars := @SameSettings.sameBars cfg last
    have htext := @SameSettings.hashedText_eq cfg last
    have hapart := @hashedText_eq_iff cfg last
    tauto
  constructor
  · intro h hcfg hlast
    obtain ⟨entry, hentry, hchanges⟩ := hasConfigChanges_iff hsha hinv env hcfg hlast
    exact (hright hcfg hlast).1 (hchanges.symm.trans (h entry hentry hcfg hlast))
  · intro h entry hentry hcfg hlast
    obtain ⟨entry', hentry', hchanges⟩ := hasConfigChanges_iff hsha hinv env hcfg hlast
    obtain rfl := Option.some.inj (hentry.symm.trans hentry')
    exact hchanges.trans ((hright hcfg hlast).2 (h hcfg hlast))

theorem syncs_iff (hsha : Function.Injective r.sha256) (hinv : s.Inv r) {env : Conditions}
    {label : Bytes} {prompt : Option Bool} :
    s.Syncs r env label prompt ↔ s.Savable r env label prompt := by
  refine forall_congr' fun cfg => forall_congr' fun hcfg => ?_
  cases hread : ServerRegistry.readServer r.store (env.reads 0) label s.table with
  | none =>
      have hsync : s.sync r env label prompt = (true, s.table) :=
        ServerRegistry.sync_unread (.inr hread)
      rw [hsync]
      refine ⟨fun h => .inl (h rfl), ?_⟩
      rintro (hcarries | ⟨last, hlast, hok, -⟩) -
      · exact hcarries
      · have hstored := hinv label
        rw [ServerRegistry.readServer, if_pos hok] at hread
        rw [hlast, hread] at hstored
        cases hstored
  | some record =>
      obtain ⟨hok, hstored⟩ := readServer_eq_some.1 hread
      have hhash := hinv label
      rw [hstored, Option.map_some] at hhash
      obtain ⟨last, hlast, hlasthash⟩ := Option.map_eq_some_iff.1 hhash.symm
      have hdiffer : record.configHash = r.computeConfigHash cfg ↔
          hashedText cfg = hashedText last := by
        rw [← hlasthash, computeConfigHash_eq_iff hsha, eq_comm]
      by_cases hsame : record.configHash = r.computeConfigHash cfg
      · have hsync : s.sync r env label prompt = (true, s.table) :=
          ServerRegistry.sync_same hcfg hread hsame
        rw [hsync]
        refine ⟨fun h => .inl (h rfl), ?_⟩
        rintro (hcarries | ⟨last', hlast', -, hne, -⟩) -
        · exact hcarries
        · obtain rfl := Option.some.inj (hlast.symm.trans hlast')
          exact absurd (hdiffer.1 hsame) hne
      · have hne : hashedText cfg ≠ hashedText last := fun h => hsame (hdiffer.2 h)
        rcases @ServerRegistry.sync_cases _ _ _ _ prompt _ _ hcfg hread hsame with
          ⟨hfails, hsync⟩ | ⟨hruns, written, hlabel, -, hsettings, hsync⟩
        · have hsync' : s.sync r env label prompt = (false, s.table) := hsync
          rw [hsync']
          refine iff_of_true (fun h => by cases h) (.inr ⟨last, hlast, hok, hne, ?_⟩)
          exact hfails.imp_right .inl
        · obtain ⟨hport, hssh⟩ := loadFromConfig_fitsInt hcfg
          have hcarries := carries_upsert_iff r.store env.now env.draw hsettings hport hssh s.table
          rw [Carries, getGitServer_ofCStr r.store hlabel] at hcarries
          have hsync' : s.sync r env label prompt =
              (true, upsertGitServer r.store env.now env.draw written s.table) := hsync
          rw [hsync']
          constructor
          · intro h
            exact .inr ⟨last, hlast, hok, hne, .inr (.inr (hcarries.1 (h rfl)))⟩
          · rintro (hbefore | ⟨-, -, -, -, hfree⟩) -
            · exact hcarries.2 hbefore.nulFree
            · refine hcarries.2 ?_
              rcases hfree with hno | hno | hfree
              · exact absurd (.inl hno) hruns
              · exact absurd (.inr hno) hruns
              · exact hfree

/-- In every state that edits, additions and syncs lead to: what is said about changes, and
what a sync leaves, is right exactly under these conditions. -/
theorem drift_iff (hsha : Function.Injective r.sha256)
    {cfg : Option (Bytes → Bytes → Option Bytes)} (h : (system r cfg).Reachable s)
    (env : Conditions) (label : Bytes) (prompt : Option Bool) :
    (s.Reports r env label ↔ s.Visible r env label) ∧
      (s.Syncs r env label prompt ↔ s.Savable r env label prompt) :=
  ⟨reports_iff hsha (inv_reachable h), syncs_iff hsha (inv_reachable h)⟩

/-! ## A label without a row, and a bar that moves -/

/-- A configuration with one server in it. -/
def oneServer (entries : List (Bytes × Bytes)) : Bytes → Bytes → Option Bytes := fun sec key =>
  if sec = bytes "git.servers.lab" then entries.lookup key else none

def withUser (host sshUser : String) : Bytes → Bytes → Option Bytes :=
  oneServer [(bytes "type", bytes "cgit"), (bytes "host", bytes host),
    (bytes "ssh_user", bytes sshUser), (bytes "web_url", bytes "http://git")]

/-- A registry whose hash is the text itself. -/
def plainRegistry : ServerRegistry where
  cfg := none
  sha256 := id
  store := ⟨sampleEvp, bytes "secret", toHex sampleSalt⟩

def working : Conditions := ⟨1700000000, none, fun _ => true, true⟩

/-- The server is added with one user, and then configured with another. -/
def edited : RegistryState :=
  let configured : ServerConfig :=
    { type := bytes "cgit", host := bytes "a|b", sshUser := bytes "c",
      configPath := bytes "/etc/cgitrc", webUrl := bytes "http://git" }
  let added := (system plainRegistry (some (withUser "a|b" "c"))).init.step plainRegistry
    (.addServer working (bytes "lab") configured)
  added.step plainRegistry (.edit (some (withUser "a" "b|c")))

theorem drift_iff_edited :
    (edited.Reports plainRegistry working (bytes "lab") ↔
      edited.Visible plainRegistry working (bytes "lab")) ∧
    (edited.Syncs plainRegistry working (bytes "lab") none ↔
      edited.Savable plainRegistry working (bytes "lab") none) :=
  @drift_iff plainRegistry _ Function.injective_id (some (withUser "a|b" "c"))
    (.step (.step .init rfl) rfl) working (bytes "lab") none

/-- The server has other settings now, which nobody is told; and a server that is only
configured has no row after a sync that succeeds. -/
theorem edited_not_reported :
    ¬ edited.Reports plainRegistry working (bytes "lab") ∧
    ¬ (system plainRegistry (some (withUser "a" "c"))).init.Syncs plainRegistry working
      (bytes "lab") none := by
  refine ⟨?_, ?_⟩
  · intro h
    have hconfigured : (edited.configured plainRegistry (bytes "lab")).map ServerConfig.host =
        some (bytes "a") := by decide +kernel
    have hknown : (edited.known (bytes "lab")).map ServerConfig.host = some (bytes "a|b") := by
      decide +kernel
    have hchanges : ((edited.registry plainRegistry).getServer working (bytes "lab")
        edited.table).map ServerEntry.hasConfigChanges = some false := by decide +kernel
    obtain ⟨cfg, hcfg, hhost⟩ := Option.map_eq_some_iff.1 hconfigured
    obtain ⟨last, hlast, hhost'⟩ := Option.map_eq_some_iff.1 hknown
    obtain ⟨entry, hentry, hno⟩ := Option.map_eq_some_iff.1 hchanges
    have hsame : SameSettings cfg last := by
      by_contra hnot
      rw [(h entry cfg last hentry hcfg hlast).2 hnot] at hno
      cases hno
    have hequal := sameSettings_iff.1 hsame
    simp only [hashedFields, List.cons.injEq, hhost, hhost'] at hequal
    replace hequal := hequal.2.1
    exact absurd hequal (by decide)
  · intro h
    obtain ⟨record, hrecord, -⟩ := h _ rfl rfl
    cases hrecord

end RegistryState

end Nazg.Git
