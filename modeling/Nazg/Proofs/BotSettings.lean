import Nazg.Lib.System
import Nazg.Proofs.SshConfigText

/-!
# Whose settings a bot runs with

Of the three places that write the settings of a host only `manage` writes them so that they
can be read back, whatever the key. A bot runs with what is in the configuration, whatever is
stored; and there the configuration goes before the command line.
-/

namespace Nazg.Bot

open Lib Git

/-! ## No terminators -/

theorem mem_of_mem_readJsonString {c : UInt8} {s : Bytes} (h : c ∈ readJsonString s) : c ∈ s := by
  fun_induction readJsonString s with
  | case1 => exact h
  | case2 => cases h
  | case3 c hc => exact h
  | case4 d rest ih =>
      rcases List.mem_cons.1 h with rfl | h
      · exact List.mem_cons_of_mem _ List.mem_cons_self
      · exact List.mem_cons_of_mem _ (List.mem_cons_of_mem _ (ih h))
  | case5 => cases h
  | case6 c d rest hback hquote ih =>
      rcases List.mem_cons.1 h with rfl | h
      · exact List.mem_cons_self
      · exact List.mem_cons_of_mem _ (ih h)

theorem mem_of_mem_token {c : UInt8} {json key : Bytes} (h : c ∈ extractJsonToken json key) :
    c ∈ json := by
  rw [extractJsonToken] at h
  split at h
  · cases h
  · next pos _ =>
      split at h
      · cases h
      · next d rest hrest =>
          have hsub : ∀ x ∈ rest, x ∈ json := by
            intro x hx
            have hmem : x ∈ (json.drop pos).dropWhile (· ≠ colon) := by
              rw [hrest]
              exact List.mem_cons_of_mem _ hx
            exact List.mem_of_mem_drop ((List.dropWhile_sublist _).subset hmem)
          refine hsub c ((List.dropWhile_sublist isSpace).subset ?_)
          rw [readJsonValue] at h
          split at h
          · cases h
          · next e tail htail =>
              rw [htail]
              split at h
              · exact List.mem_cons_of_mem _ (mem_of_mem_readJsonString h)
              · exact (List.takeWhile_sublist _).subset h

theorem zero_notMem_decimal (n : Int) : (0 : UInt8) ∉ decimal n :=
  fun h => absurd (lt_of_mem_decimal h) (by decide)

theorem cstr_setupJson {key : Bytes} (hkey : (0 : UInt8) ∉ key) (port : Int) :
    cstr (setupJson key port) = setupJson key port := by
  rw [cstr_eq_self]
  simp only [setupJson, List.mem_append, not_or]
  exact ⟨⟨⟨⟨by decide, hkey⟩, by decide⟩, zero_notMem_decimal _⟩, by decide⟩

theorem cstr_build {cfg : SshConfigFields} (hkey : (0 : UInt8) ∉ cfg.key) :
    cstr (buildSshConfigJson cfg) = buildSshConfigJson cfg := by
  have hescape : (0 : UInt8) ∉ escapeJsonString cfg.key := by
    intro h
    obtain ⟨c, hc, hzero⟩ := List.mem_flatMap.1 h
    split at hzero
    · rcases List.mem_cons.1 hzero with hback | hself
      · exact absurd hback (by decide)
      · exact hkey (List.mem_singleton.1 hself ▸ hc)
    · exact hkey (List.mem_singleton.1 hzero ▸ hc)
  rw [cstr_eq_self]
  simp only [buildSshConfigJson, List.mem_append, not_or]
  exact ⟨⟨⟨⟨⟨⟨by decide, hescape⟩, by decide⟩, zero_notMem_decimal _⟩, by decide⟩,
    zero_notMem_decimal _⟩, by decide⟩

/-! ## What a host was given -/

structure Settings where
  address : Bytes
  key : Bytes
  port : Int
  agentPort : Int
  deriving DecidableEq

/-- The settings in a row. -/
def BotHost.settings (host : BotHost) : Settings :=
  let cfg := parseSshConfigJson host.sshConfig.bytes
  ⟨host.address.bytes, cfg.key, cfg.port, cfg.agentPort⟩

/-- The rows, and what each label was given by the last `setup` or `manage` that succeeded. -/
structure HostState where
  hosts : BotHosts
  given : Text → Option Settings

inductive HostEvent where
  | setup (env : SetupHost) (args : List Text)
  | manage (label : Text) (action : ManageAction)
  | spawn (cfg : Config) (inserts : Bool) (args : List Text)

/-- The last value of an option that the usage of `setup` has and its loop does not know. -/
def agentPortOption (port : Int) : List Bytes → Option Int
  | [] => some port
  | [_] => some port
  | arg :: value :: rest =>
      if arg = bytes "--agent-port" then (stoi value).bind fun port => agentPortOption port rest
      else if arg ∈ [bytes "--host", bytes "--label", bytes "--password", bytes "--key",
          bytes "--port"] then agentPortOption port rest
      else agentPortOption port (value :: rest)

namespace HostState

variable (s : HostState)

/-- What a `setup` gives to its label. -/
def setupSettings (env : SetupHost) (args : List Text) : Option (Text × Settings) :=
  (env.host (args.map Text.bytes)).bind fun host =>
    (agentPortOption 7070 (args.map Text.bytes)).map fun agentPort =>
      (.ofCStr host.label, ⟨host.address, host.sshKey, host.sshPort, agentPort⟩)

/-- What an action of `manage` makes of the settings of its label. -/
def manageSettings (label : Text) (settings : Settings) :
    ManageAction → Text → Option Settings
  | .label newLabel _ => Function.update (Function.update s.given label none) newLabel (some settings)
  | .address newAddress _ =>
      Function.update s.given label (some { settings with address := newAddress.bytes })
  | .ssh newKey portStr agentStr _ =>
      let cfg := enterSshConfig newKey portStr agentStr
        ⟨settings.key, settings.port, settings.agentPort⟩
      Function.update s.given label (some ⟨settings.address, cfg.key, cfg.port, cfg.agentPort⟩)
  | .delete _ => Function.update s.given label none

def step : HostEvent → HostState
  | .setup env args =>
      ⟨(setup env (args.map Text.bytes) s.hosts).2,
        match setupSettings env args with
        | none => s.given
        | some (label, settings) => Function.update s.given label (some settings)⟩
  | .manage label action =>
      let managed := manage label s.hosts action
      ⟨managed.2,
        if managed.1 then
          match s.given label, s.hosts label with
          | some settings, _ => s.manageSettings label settings action
          | none, some host => s.manageSettings label host.settings action
          | none, none => s.given
        else s.given⟩
  | .spawn cfg inserts args => ⟨(spawn cfg inserts (args.map Text.bytes) s.hosts).2, s.given⟩

def system : System HostState HostEvent where
  init := ⟨fun _ => none, fun _ => none⟩
  step s e := some (s.step e)

/-- Every label that was given settings has a row with them. -/
def Stored : Prop := ∀ label settings, s.given label = some settings →
  ∃ host, s.hosts label = some host ∧ host.settings = settings

/-- The commands whose settings arrive: a `setup` of a new label, with a plain key and without
an agent port, whose insert succeeds, or of a label that has these settings; and any action of
`manage`, except that a key which ends with the name of the agent port hides it. -/
def Arrives (s : HostState) : HostEvent → Prop
  | .setup env args => ∀ label settings, setupSettings env args = some (label, settings) →
      (∃ host, s.hosts label = some host ∧ host.settings = settings) ∨
        s.hosts label = none ∧ env.inserts = true ∧ PlainKey settings.key ∧
          bytes "--agent-port" ∉ args.map Text.bytes
  | .manage label (.ssh newKey portStr agentStr _) => ∀ host, s.hosts label = some host →
      let cfg := enterSshConfig newKey portStr agentStr (parseSshConfigJson host.sshConfig.bytes)
      quote :: bytes "agent_port" <:+ quote :: cfg.key → cfg.port = cfg.agentPort
  | .manage _ _ => True
  | .spawn .. => True

variable {s}

theorem stored_addBotHost (h : s.Stored) (ok : Bool) (label address sshConfig : Bytes) :
    Stored ⟨addBotHost ok label address sshConfig s.hosts, s.given⟩ := by
  intro label' settings hgiven
  obtain ⟨host, hhost, hsettings⟩ := h label' settings hgiven
  refine ⟨host, ?_, hsettings⟩
  simp only [addBotHost]
  split
  · next hnew =>
      rw [Function.update_of_ne]
      · exact hhost
      · rintro rfl
        rw [hhost] at hnew
        cases hnew.2
  · exact hhost

theorem stored_spawn (h : s.Stored) (cfg : Config) (inserts : Bool) (args : List Bytes) :
    Stored ⟨(spawn cfg inserts args s.hosts).2, s.given⟩ := by
  rw [spawn]
  split
  · exact h
  · split
    · exact h
    · split
      · exact h
      · exact stored_addBotHost h _ _ _ _

theorem stored_give (h : s.Stored) {label : Text} {settings : Settings}
    (hlabel : ∃ host, s.hosts label = some host ∧ host.settings = settings) :
    Stored ⟨s.hosts, Function.update s.given label (some settings)⟩ := by
  intro label' settings' hgiven
  by_cases heq : label' = label
  · subst heq
    obtain rfl : settings = settings' := by simpa using hgiven
    exact hlabel
  · exact h label' settings' ((Function.update_of_ne heq _ _).symm.trans hgiven)

/-- A row of a label and what it was given are changed together. -/
theorem stored_set (h : s.Stored) (label : Text) (host : Option BotHost) :
    Stored ⟨Function.update s.hosts label host,
      Function.update s.given label (host.map BotHost.settings)⟩ := by
  intro label' settings hgiven
  by_cases heq : label' = label
  · subst heq
    simp only [Function.update_self] at hgiven ⊢
    exact Option.map_eq_some_iff.1 hgiven
  · simp only [Function.update_of_ne heq] at hgiven ⊢
    exact h label' settings hgiven

theorem parseSetupArgs_spec {args : List Bytes} {host host' : HostConfig}
    (hargs : ∀ arg ∈ args, (0 : UInt8) ∉ arg) (haddress : (0 : UInt8) ∉ host.address)
    (hkey : (0 : UInt8) ∉ host.sshKey) (hport : FitsInt host.sshPort)
    (h : parseSetupArgs host args = some host') :
    (0 : UInt8) ∉ host'.address ∧ (0 : UInt8) ∉ host'.sshKey ∧ FitsInt host'.sshPort := by
  fun_induction parseSetupArgs host args with
  | case1 host =>
      cases h
      exact ⟨haddress, hkey, hport⟩
  | case2 host =>
      cases h
      exact ⟨haddress, hkey, hport⟩
  | case3 host value rest ih =>
      simp only [List.forall_mem_cons] at hargs
      exact ih hargs.2.2 hargs.2.1 hkey hport h
  | case4 host value rest _ ih | case5 host value rest _ _ ih =>
      simp only [List.forall_mem_cons] at hargs
      exact ih hargs.2.2 haddress hkey hport h
  | case6 host value rest _ _ _ ih =>
      simp only [List.forall_mem_cons] at hargs
      exact ih hargs.2.2 haddress hargs.2.1 hport h
  | case7 => cases h
  | case8 host value rest port hport' _ _ _ _ ih =>
      simp only [List.forall_mem_cons] at hargs
      exact ih hargs.2.2 haddress hkey (fitsInt_stoi hport') h
  | case9 host arg value rest _ _ _ _ _ ih =>
      exact ih (List.forall_mem_cons.1 hargs).2 haddress hkey hport h

theorem agentPortOption_eq {args : List Bytes} (h : bytes "--agent-port" ∉ args) (port : Int) :
    agentPortOption port args = some port := by
  fun_induction agentPortOption port args with
  | case1 => rfl
  | case2 => rfl
  | case3 => simp at h
  | case4 port arg value rest _ _ ih => exact ih fun hmem => h (by simp [hmem])
  | case5 port arg value rest _ _ ih => exact ih fun hmem => h (List.mem_cons_of_mem _ hmem)

/-- What a `setup` gives has no terminators, and its port is one. -/
theorem setupSettings_spec {env : SetupHost} {args : List Text} {host : HostConfig}
    (h : env.host (args.map Text.bytes) = some host) :
    (0 : UInt8) ∉ host.address ∧ (0 : UInt8) ∉ host.sshKey ∧ FitsInt host.sshPort := by
  rw [SetupHost.host] at h
  obtain ⟨parsed, hparsed, h⟩ := Option.bind_eq_some_iff.1 h
  have hargs : ∀ arg ∈ args.map Text.bytes, (0 : UInt8) ∉ arg := by
    intro arg harg
    obtain ⟨t, -, rfl⟩ := List.mem_map.1 harg
    exact t.nulFree
  obtain ⟨haddress, hkey, hport⟩ := parseSetupArgs_spec hargs List.not_mem_nil List.not_mem_nil
    (by decide) hparsed
  split at h
  · cases h
  · obtain ⟨sshKey, hsshKey, h⟩ := Option.bind_eq_some_iff.1 h
    simp only at h
    split at h
    · cases h
      refine ⟨haddress, ?_, hport⟩
      split at hsshKey
      · obtain ⟨home, -, rfl⟩ := Option.map_eq_some_iff.1 hsshKey
        rw [List.mem_append, not_or]
        exact ⟨home.nulFree, by decide⟩
      · cases hsshKey
        exact hkey
    · cases h

theorem stored_setup (h : s.Stored) {env : SetupHost} {args : List Text}
    (harrives : s.Arrives (.setup env args)) : (s.step (.setup env args)).Stored := by
  rw [step]
  cases hhost : env.host (args.map Text.bytes) with
  | none =>
      simp only [setup, setupSettings, hhost, Option.bind_none]
      exact h
  | some host =>
      obtain ⟨haddress, hkey, hport⟩ := setupSettings_spec hhost
      cases hagent : agentPortOption 7070 (args.map Text.bytes) with
      | none =>
          simp only [setup, setupSettings, hhost, Option.bind_some, hagent, Option.map_none]
          split
          · exact h
          · exact stored_addBotHost h _ _ _ _
      | some agentPort =>
          have hgives : setupSettings env args = some (.ofCStr host.label,
              ⟨host.address, host.sshKey, host.sshPort, agentPort⟩) := by
            simp only [setupSettings, hhost, Option.bind_some, hagent, Option.map_some]
          rcases harrives _ _ hgives with ⟨row, hrow, hsettings⟩ | ⟨hnew, hinserts, hplain, hno⟩
          · have hsetup : (setup env (args.map Text.bytes) s.hosts).2 = s.hosts := by
              simp only [setup, hhost, hrow, Option.isSome_some, if_true]
            simp only [hsetup, hgives]
            exact stored_give h ⟨row, hrow, hsettings⟩
          · have hdefault : agentPort = 7070 := by
              rw [agentPortOption_eq hno] at hagent
              exact (Option.some.inj hagent).symm
            have hset := stored_set h (.ofCStr host.label)
              (some ⟨.ofCStr host.address, .ofCStr (setupJson host.sshKey host.sshPort)⟩)
            simp only [Option.map_some, BotHost.settings, Text.ofCStr_bytes,
              cstr_setupJson hkey, cstr_eq_self.2 haddress, parse_setup hport hplain] at hset
            rw [hdefault] at hgives
            simp only [setup, hhost, hnew, Option.isSome_none, Bool.false_eq_true, if_false,
              addBotHost, hinserts, and_self, if_true, hgives]
            exact hset

theorem fitsInt_enterPort {entered : Text} {port : Int} (h : FitsInt port) :
    FitsInt (enterPort entered port) := by
  rw [enterPort]
  split
  · exact h
  · next p hp =>
      split
      · exact fitsInt_stoi hp
      · exact h

/-- What is entered over the fields of a row is read back from what is written then. -/
theorem parse_enter (host : BotHost) (newKey portStr agentStr : Text) {cfg : SshConfigFields}
    (hcfg : cfg = enterSshConfig newKey portStr agentStr (parseSshConfigJson host.sshConfig.bytes))
    (hkey : quote :: bytes "agent_port" <:+ quote :: cfg.key → cfg.port = cfg.agentPort) :
    parseSshConfigJson (cstr (buildSshConfigJson cfg)) = cfg := by
  have hports : ∀ json, FitsInt (parseSshConfigJson json).port ∧
      FitsInt (parseSshConfigJson json).agentPort := by
    have hread : ∀ token : Bytes, ∀ n, FitsInt n →
        FitsInt (if token = [] then n else (stoi token).getD n) := by
      intro token n hn
      split
      · exact hn
      · cases htoken : stoi token with
        | none => exact hn
        | some m => exact fitsInt_stoi htoken
    intro json
    rw [parseSshConfigJson]
    split
    · exact ⟨by decide, by decide⟩
    · exact ⟨hread _ _ (by decide), hread _ _ (by decide)⟩
  have hfree : (0 : UInt8) ∉ (parseSshConfigJson host.sshConfig.bytes).key := by
    rw [parseSshConfigJson]
    split
    · exact List.not_mem_nil
    · exact fun hzero => host.sshConfig.nulFree (mem_of_mem_token hzero)
  obtain ⟨hport, hagent⟩ := hports host.sshConfig.bytes
  have hzero : (0 : UInt8) ∉ cfg.key := by
    rw [hcfg]
    simp only [enterSshConfig]
    split
    · exact hfree
    · exact newKey.nulFree
  rw [cstr_build hzero]
  refine parse_build ?_ ?_ hkey
  · rw [hcfg]
    exact fitsInt_enterPort hport
  · rw [hcfg]
    exact fitsInt_enterPort hagent

theorem stored_manage (h : s.Stored) {label : Text} {action : ManageAction}
    (harrives : s.Arrives (.manage label action)) : (s.step (.manage label action)).Stored := by
  rw [step]
  cases hhost : s.hosts label with
  | none =>
      have hmanage : manage label s.hosts action = (false, s.hosts) := by
        cases action <;> simp only [manage, hhost]
      simp only [hmanage, Bool.false_eq_true, if_false]
      exact h
  | some host =>
      have hgiven : (if (manage label s.hosts action).1 then
          match s.given label, some host with
          | some settings, _ => s.manageSettings label settings action
          | none, some host => s.manageSettings label host.settings action
          | none, none => s.given
        else s.given) = if (manage label s.hosts action).1 then
          s.manageSettings label host.settings action else s.given := by
        cases hgiven : s.given label with
        | none => rfl
        | some settings =>
            obtain ⟨host', hhost', hsettings⟩ := h label settings hgiven
            obtain rfl := Option.some.inj (hhost.symm.trans hhost')
            rw [← hsettings]
      simp only [hgiven]
      cases action with
      | label newLabel ok =>
          simp only [manage, hhost, manageSettings]
          split
          · exact h
          · split
            · exact stored_set (stored_set h label none) newLabel (some host)
            · exact h
      | address newAddress ok =>
          simp only [manage, hhost, manageSettings]
          split
          · exact h
          · split
            · exact stored_set h label (some { host with address := newAddress })
            · exact h
      | ssh newKey portStr agentStr ok =>
          have hparse := parse_enter host newKey portStr agentStr rfl (harrives host hhost)
          simp only [manage, hhost, manageSettings]
          split
          · have hset := stored_set h label (some { host with
              sshConfig := .ofCStr (buildSshConfigJson (enterSshConfig newKey portStr agentStr
                (parseSshConfigJson host.sshConfig.bytes))) })
            simp only [Option.map_some, BotHost.settings, Text.ofCStr_bytes, hparse] at hset
            exact hset
          · exact h
      | delete ok =>
          simp only [manage, hhost, manageSettings]
          split
          · exact stored_set h label none
          · exact h

theorem stored_reachable (h : system.ReachableBy Arrives s) : s.Stored := by
  refine h.invariant (p := Stored) ?_ ?_
  · intro label settings hgiven
    cases hgiven
  · intro s e s' hstored harrives hstep
    cases hstep
    cases e with
    | setup env args => exact stored_setup hstored harrives
    | manage label action => exact stored_manage hstored harrives
    | spawn cfg inserts args => exact stored_spawn hstored cfg inserts _

end HostState

/-! ## What a spawn runs with -/

/-- The options that are on a command line. -/
structure BotOptions where
  host : Option Bytes := none
  label : Option Bytes := none
  key : Option Bytes := none
  port : Option Int := none
  agentPort : Option Int := none
  services : List Bytes := []

def explicitOptions (o : BotOptions) : List Bytes → Option BotOptions
  | [] => some o
  | [_] => some o
  | arg :: value :: rest =>
      if arg = bytes "--host" then explicitOptions { o with host := some value } rest
      else if arg = bytes "--label" then explicitOptions { o with label := some value } rest
      else if arg = bytes "--key" then explicitOptions { o with key := some value } rest
      else if arg = bytes "--port" then
        match stoi value with
        | none => none
        | some port => explicitOptions { o with port := some port } rest
      else if arg = bytes "--service" then
        explicitOptions { o with services := o.services ++ [value] } rest
      else if arg = bytes "--agent-port" then
        match stoi value with
        | none => none
        | some port => explicitOptions { o with agentPort := some port } rest
      else explicitOptions o (value :: rest)

/-- The host that the options alone describe. -/
def BotOptions.toHost (o : BotOptions) : HostConfig :=
  { HostConfig.blank with
    label := o.label.getD []
    address := o.host.getD []
    sshKey := o.key.getD []
    sshPort := o.port.getD 22
    agentPort := o.agentPort.getD 7070
    services := o.services }

theorem parseHostArgs_eq (o : BotOptions) (args : List Bytes) :
    parseHostArgs o.toHost args = (explicitOptions o args).map BotOptions.toHost := by
  fun_induction explicitOptions o args with
  | case1 | case2 => rfl
  | case3 _ _ _ ih => exact ih
  | case4 _ _ _ _ ih => exact ih
  | case5 _ _ _ _ _ ih => exact ih
  | case6 o value rest hport =>
      rw [parseHostArgs, if_neg (by decide), if_neg (by decide), if_neg (by decide), if_pos rfl, hport]
      rfl
  | case7 o value rest port hport _ _ _ ih =>
      rw [parseHostArgs, if_neg (by decide), if_neg (by decide), if_neg (by decide), if_pos rfl, hport]
      exact ih
  | case8 _ _ _ _ _ _ _ ih => exact ih
  | case9 o value rest hport =>
      rw [parseHostArgs, if_neg (by decide), if_neg (by decide), if_neg (by decide),
        if_neg (by decide), if_neg (by decide), if_pos rfl, hport]
      rfl
  | case10 o value rest port hport _ _ _ _ _ ih =>
      rw [parseHostArgs, if_neg (by decide), if_neg (by decide), if_neg (by decide),
        if_neg (by decide), if_neg (by decide), if_pos rfl, hport]
      exact ih
  | case11 o arg value rest hhost hlabel hkey hport hservice hagent ih =>
      rw [parseHostArgs, if_neg hhost, if_neg hlabel, if_neg hkey, if_neg hport, if_neg hservice,
        if_neg hagent]
      exact ih

/-- A text that is not empty. -/
def nonempty (value : Option Bytes) : Option Bytes :=
  value.bind fun s => if s = [] then none else some s

/-- A number that can be read. -/
def number (value : Option Bytes) : Option Int :=
  value.bind fun s => if s = [] then none else stoi s

/-- The values that concern all bots. -/
def globalSection (cfg : Config) (key : String) : Option Bytes :=
  cfg.bind fun data => data (bytes "bots") (bytes key)

/-- The values that concern one host, if it has an address there. -/
def hostSection (cfg : Config) (label : Bytes) (key : String) : Option Bytes :=
  cfg.bind fun data =>
    if (data (bytes "bots.hosts." ++ label) (bytes "address")).isSome then
      data (bytes "bots.hosts." ++ label) (bytes key)
    else none

def BotOptions.hostLabel (o : BotOptions) : Bytes := orElse (o.label.getD []) (o.host.getD [])

/-- The host as the precedence has it: the options, what the label was given, its section, what
concerns all bots. -/
def promised (given : Option Settings) (cfg : Config) (o : BotOptions) : HostConfig :=
  let section_ := hostSection cfg o.hostLabel
  { HostConfig.blank with
    label := o.hostLabel
    address := ((nonempty o.host).or ((given.map Settings.address).or
      (nonempty (section_ "address")))).getD []
    sshKey := ((nonempty o.key).or ((given.map Settings.key).or
      ((nonempty (section_ "ssh_key")).or (nonempty (globalSection cfg "ssh_key"))))).getD []
    sshPort := (o.port.or (given.map Settings.port)).getD 22
    agentPort := (o.agentPort.or ((given.map Settings.agentPort).or
      ((number (section_ "agent_port")).or (number (globalSection cfg "agent_port"))))).getD 7070
    services :=
      if o.services = [] then splitServices ((section_ "services").getD []) else o.services }

/-- The host as the code has it. -/
def resolved (cfg : Config) (o : BotOptions) : HostConfig :=
  let section_ := hostSection cfg o.hostLabel
  { HostConfig.blank with
    label := o.hostLabel
    address := ((nonempty o.host).or (nonempty (section_ "address"))).getD []
    sshKey := ((nonempty ((section_ "ssh_key").or o.key)).or
      (nonempty (globalSection cfg "ssh_key"))).getD []
    sshPort := o.port.getD 22
    agentPort := ((number (globalSection cfg "agent_port")).or
      ((number (section_ "agent_port")).or o.agentPort)).getD 7070
    services := o.services ++ splitServices ((section_ "services").getD []) }

theorem getInt_eq (data : Bytes → Bytes → Option Bytes) (sec key : Bytes) (default : Int) :
    ServerRegistry.getInt data sec key default = (number (data sec key)).getD default := by
  rw [ServerRegistry.getInt, ServerRegistry.getString, number]
  cases data sec key with
  | none => simp
  | some s =>
      simp only [Option.getD_some, Option.bind_some]
      split
      · rfl
      · rfl

theorem getD_nonempty (s : Option Bytes) : (nonempty s).getD [] = s.getD [] := by
  cases s with
  | none => rfl
  | some s => 
      rw [nonempty, Option.bind_some]
      split
      · next h => simp [h]
      · rfl

/-- The first of two texts that is not empty. -/
theorem ite_getD (s t : Option Bytes) : (if s.getD [] = [] then t.getD [] else s.getD []) =
    ((nonempty s).or (nonempty t)).getD [] := by
  rw [← getD_nonempty s, ← getD_nonempty t]
  cases h : nonempty s with
  | none => rfl
  | some v =>
      have hne : v ≠ [] := by
        rintro rfl
        obtain ⟨u, -, hu⟩ := Option.bind_eq_some_iff.1 h
        split at hu
        · cases hu
        · next hnil => exact hnil (Option.some.inj hu)
      rw [Option.getD_some, if_neg hne]
      rfl

theorem applyConfig_eq (cfg : Config) (o : BotOptions) :
    applyConfig cfg { o.toHost with label := o.hostLabel } = resolved cfg o := by
  have hservices : o.services ++ splitServices [] = o.services := List.append_nil _
  have hnone : nonempty none = none := rfl
  have hnumber : number none = none := rfl
  cases cfg with
  | none =>
      simp only [applyConfig, resolved, hostSection, globalSection, Option.bind_none,
        Option.none_or, Option.or_none, hnone, hnumber, getD_nonempty, Option.getD_none, hservices]
      rfl
  | some data =>
      simp only [applyConfig, applyHostSection, resolved, hostSection, globalSection,
        Option.bind_some]
      cases haddress : (data (bytes "bots.hosts." ++ o.hostLabel) (bytes "address")).isSome with
      | false =>
          simp only [Bool.false_eq_true, if_false, applyGlobal, getInt_eq, Option.none_or,
            Option.or_none, hnone, hnumber, getD_nonempty, Option.getD_none, hservices, Option.getD_or,
            HostConfig.mk.injEq]
          refine ⟨rfl, trivial, rfl, ?_, rfl, rfl, rfl, rfl⟩
          rw [← getD_nonempty (data _ _), ← Option.getD_or, ← ite_getD]
          rfl
      | true =>
          simp only [if_true, applyGlobal, getInt_eq, Option.getD_or, HostConfig.mk.injEq]
          refine ⟨rfl, trivial, ?_, ?_, rfl, rfl, rfl, rfl⟩
          · rw [← Option.getD_or, ← ite_getD]
            rfl
          · rw [← Option.getD_or, ← ite_getD, Option.getD_or]
            rfl

theorem parseHostConfig_eq (cfg : Config) (args : List Bytes) :
    parseHostConfig cfg args = (explicitOptions {} args).map (resolved cfg) := by
  have hblank : HostConfig.blank = BotOptions.toHost {} := rfl
  rw [parseHostConfig, hblank, parseHostArgs_eq, Option.map_map]
  exact congrArg (Option.map · _) (funext fun o => applyConfig_eq cfg o)

namespace HostState

variable (s : HostState) (cfg : Config) (args : List Text)

/-- What a command line promises. -/
def promise (o : BotOptions) : HostConfig :=
  promised (s.given (.ofCStr o.hostLabel)) cfg o

/-- A `spawn` runs, with the settings that it promises, unless it has no address. -/
def Honoured : Prop := ∀ o, explicitOptions {} (args.map Text.bytes) = some o →
  (s.promise cfg o).address ≠ [] → ∀ inserts, ∃ host,
    (spawn cfg inserts (args.map Text.bytes) s.hosts).1 = some host ∧
      host.address = (s.promise cfg o).address ∧ host.sshKey = (s.promise cfg o).sshKey ∧
      host.sshPort = (s.promise cfg o).sshPort ∧ host.agentPort = (s.promise cfg o).agentPort ∧
      host.services = (s.promise cfg o).services

/-- Where the code goes by something else than the options, what it goes by is what is
promised. -/
def Agrees : Prop := ∀ o, explicitOptions {} (args.map Text.bytes) = some o →
  (s.promise cfg o).address ≠ [] →
    let section_ := hostSection cfg o.hostLabel
    let agentPort := (number (globalSection cfg "agent_port")).or (number (section_ "agent_port"))
    ((nonempty o.host).isSome ∨ (s.promise cfg o).address = (section_ "address").getD []) ∧
    (∀ key, nonempty (section_ "ssh_key") = some key → (s.promise cfg o).sshKey = key) ∧
    (nonempty (section_ "ssh_key") = none →
      section_ "ssh_key" = none ∧ (nonempty o.key).isSome ∨
        (s.promise cfg o).sshKey = (globalSection cfg "ssh_key").getD []) ∧
    (o.port.isSome ∨ (s.promise cfg o).sshPort = 22) ∧
    (∀ port, agentPort = some port → (s.promise cfg o).agentPort = port) ∧
    (agentPort = none → o.agentPort.isSome ∨ (s.promise cfg o).agentPort = 7070) ∧
    (o.services = [] ∨ splitServices ((section_ "services").getD []) = [])

variable {s cfg args}

theorem address_iff (o : BotOptions) : (resolved cfg o).address = (s.promise cfg o).address ↔
    (nonempty o.host).isSome ∨
      (s.promise cfg o).address = (hostSection cfg o.hostLabel "address").getD [] := by
  cases h : nonempty o.host with
  | some v => simp [resolved, promise, promised, h]
  | none =>
      have hresolved : (resolved cfg o).address =
          (hostSection cfg o.hostLabel "address").getD [] := by
        simp only [resolved, h, Option.none_or, getD_nonempty]
      rw [hresolved, eq_comm]
      simp

theorem key_iff (o : BotOptions) : (resolved cfg o).sshKey = (s.promise cfg o).sshKey ↔
    (∀ key, nonempty (hostSection cfg o.hostLabel "ssh_key") = some key →
      (s.promise cfg o).sshKey = key) ∧
    (nonempty (hostSection cfg o.hostLabel "ssh_key") = none →
      hostSection cfg o.hostLabel "ssh_key" = none ∧ (nonempty o.key).isSome ∨
        (s.promise cfg o).sshKey = (globalSection cfg "ssh_key").getD []) := by
  have hresolved : (resolved cfg o).sshKey =
      ((nonempty ((hostSection cfg o.hostLabel "ssh_key").or o.key)).or
        (nonempty (globalSection cfg "ssh_key"))).getD [] := rfl
  cases hsection : hostSection cfg o.hostLabel "ssh_key" with
  | some value =>
      rw [hsection, Option.some_or] at hresolved
      cases hvalue : nonempty (some value) with
      | some key =>
          rw [hvalue, Option.some_or, Option.getD_some] at hresolved
          rw [hresolved]
          refine ⟨fun h => ⟨?_, fun hno => by cases hno⟩, fun h => (h.1 key rfl).symm⟩
          rintro _ ⟨⟩
          exact h.symm
      | none =>
          rw [hvalue, Option.none_or, getD_nonempty] at hresolved
          rw [hresolved]
          refine ⟨fun h => ⟨?_, ?_⟩, fun h => ?_⟩
          · rintro _ ⟨⟩
          · intro
            exact .inr h.symm
          · rcases h.2 rfl with ⟨hno, -⟩ | hglobal
            · cases hno
            · exact hglobal.symm
  | none =>
      have hnone : nonempty none = none := rfl
      rw [hsection, Option.none_or] at hresolved
      cases hkey : nonempty o.key with
      | some key =>
          have hpromised : (s.promise cfg o).sshKey = key := by
            simp [promise, promised, hkey]
          rw [hkey, Option.some_or, Option.getD_some] at hresolved
          simp [hresolved, hpromised, hnone]
      | none =>
          rw [hkey, Option.none_or, getD_nonempty] at hresolved
          rw [hresolved, hnone]
          simp [eq_comm]

theorem port_iff (o : BotOptions) : (resolved cfg o).sshPort = (s.promise cfg o).sshPort ↔
    o.port.isSome ∨ (s.promise cfg o).sshPort = 22 := by
  cases h : o.port with
  | some port => simp [resolved, promise, promised, h]
  | none =>
      have hresolved : (resolved cfg o).sshPort = 22 := by simp only [resolved, h, Option.getD_none]
      rw [hresolved, eq_comm]
      simp

theorem agentPort_iff (o : BotOptions) : (resolved cfg o).agentPort = (s.promise cfg o).agentPort ↔
    (∀ port, (number (globalSection cfg "agent_port")).or
        (number (hostSection cfg o.hostLabel "agent_port")) = some port →
      (s.promise cfg o).agentPort = port) ∧
    ((number (globalSection cfg "agent_port")).or
        (number (hostSection cfg o.hostLabel "agent_port")) = none →
      o.agentPort.isSome ∨ (s.promise cfg o).agentPort = 7070) := by
  have hresolved : (resolved cfg o).agentPort = (((number (globalSection cfg "agent_port")).or
      (number (hostSection cfg o.hostLabel "agent_port"))).or o.agentPort).getD 7070 := by
    rw [Option.or_assoc]
    rfl
  cases hconfig : (number (globalSection cfg "agent_port")).or
      (number (hostSection cfg o.hostLabel "agent_port")) with
  | some port =>
      rw [hconfig, Option.some_or, Option.getD_some] at hresolved
      rw [hresolved]
      refine ⟨fun h => ⟨?_, fun hno => by cases hno⟩, fun h => (h.1 port rfl).symm⟩
      rintro _ ⟨⟩
      exact h.symm
  | none =>
      rw [hconfig, Option.none_or] at hresolved
      cases h : o.agentPort with
      | some port =>
          have hpromised : (s.promise cfg o).agentPort = port := by
            simp [promise, promised, h]
          rw [h, Option.getD_some] at hresolved
          simp [hresolved, hpromised]
      | none =>
          rw [h, Option.getD_none] at hresolved
          rw [hresolved]
          simp [eq_comm]

theorem services_iff (o : BotOptions) : (resolved cfg o).services = (s.promise cfg o).services ↔
    o.services = [] ∨
      splitServices ((hostSection cfg o.hostLabel "services").getD []) = [] := by
  by_cases h : o.services = []
  · simp [resolved, promise, promised, h]
  · simp [resolved, promise, promised, h]

theorem honoured_iff : s.Honoured cfg args ↔ s.Agrees cfg args := by
  refine forall_congr' fun o => forall_congr' fun ho => forall_congr' fun haddress => ?_
  simp only
  rw [← address_iff, ← port_iff, ← services_iff]
  have hkey := @key_iff s cfg o
  have hagent := @agentPort_iff s cfg o
  have hspawn : ∀ inserts, (spawn cfg inserts (args.map Text.bytes) s.hosts).1 =
      if (resolved cfg o).address = [] then none else some (resolved cfg o) := by
    intro inserts
    rw [spawn, parseHostConfig_eq, ho, Option.map_some]
    simp only
    split
    · rfl
    · split
      · rfl
      · rfl
  constructor
  · intro h
    obtain ⟨host, hhost, haddress', hkey', hport, hagent', hservices⟩ := h true
    rw [hspawn] at hhost
    split at hhost
    · cases hhost
    · cases hhost
      exact ⟨haddress', (hkey.1 hkey').1, (hkey.1 hkey').2, hport, (hagent.1 hagent').1,
        (hagent.1 hagent').2, hservices⟩
  · rintro ⟨haddress', hset, hunset, hport, hconfig, hdefault, hservices⟩ inserts
    refine ⟨resolved cfg o, ?_, haddress', hkey.2 ⟨hset, hunset⟩, hport,
      hagent.2 ⟨hconfig, hdefault⟩, hservices⟩
    rw [hspawn, if_neg (haddress' ▸ haddress)]

/-- If all settings have arrived so far, every label that was given settings has a row with
them, and a `spawn` runs with what it promises exactly if the configuration agrees. -/
theorem settings_kept (h : system.ReachableBy Arrives s) :
    s.Stored ∧ ∀ cfg args, s.Honoured cfg args ↔ s.Agrees cfg args :=
  ⟨stored_reachable h, fun _ _ => honoured_iff⟩

/-! ## A second setup -/

def argv (words : List String) : List Text := words.map fun word => .ofCStr (bytes word)

/-- Everything that `setup` needs is there. -/
def preparedHost : SetupHost := ⟨some (.ofCStr (bytes "/home/dev")), fun _ => true, true⟩

def setupLab (address : String) : HostEvent :=
  .setup preparedHost
    (argv ["--host", address, "--label", "lab", "--key", "/home/dev/.ssh/lab", "--port", "2222"])

def labState : HostState := HostState.step ⟨fun _ => none, fun _ => none⟩ (setupLab "dev@10.0.0.4")

theorem arrives_lab : Arrives ⟨fun _ => none, fun _ => none⟩ (setupLab "dev@10.0.0.4") := by
  intro label settings hgives
  have hlab : setupSettings preparedHost (argv ["--host", "dev@10.0.0.4", "--label", "lab", "--key",
      "/home/dev/.ssh/lab", "--port", "2222"]) = some (.ofCStr (bytes "lab"),
        ⟨bytes "dev@10.0.0.4", bytes "/home/dev/.ssh/lab", 2222, 7070⟩) := by decide +kernel
  rw [hlab] at hgives
  cases hgives
  exact .inr ⟨rfl, rfl, by decide +kernel, by decide +kernel⟩

theorem settings_kept_lab : labState.Stored ∧
    ∀ cfg args, labState.Honoured cfg args ↔ labState.Agrees cfg args :=
  settings_kept (.step .init arrives_lab rfl)

/-- The address of a second setup is not stored, and without a configuration a bot does not even
start by the label of the first. -/
theorem second_setup_not_kept : ¬ (labState.step (setupLab "dev@10.0.0.5")).Stored ∧
    ¬ labState.Honoured none (argv ["--label", "lab"]) := by
  refine ⟨?_, ?_⟩
  · intro h
    have hgiven : ((labState.step (setupLab "dev@10.0.0.5")).given (.ofCStr (bytes "lab"))).map
        Settings.address = some (bytes "dev@10.0.0.5") := by decide +kernel
    have hrow : ((labState.step (setupLab "dev@10.0.0.5")).hosts (.ofCStr (bytes "lab"))).map
        (fun host => host.settings.address) = some (bytes "dev@10.0.0.4") := by decide +kernel
    obtain ⟨settings, hsettings, hnew⟩ := Option.map_eq_some_iff.1 hgiven
    obtain ⟨host, hhost, rfl⟩ := h _ _ hsettings
    rw [hhost, Option.map_some, hnew] at hrow
    exact absurd hrow (by decide +kernel)
  · intro h
    have hoptions : (explicitOptions {} ((argv ["--label", "lab"]).map Text.bytes)).map
        (fun o => (labState.promise none o).address) = some (bytes "dev@10.0.0.4") := by
      decide +kernel
    obtain ⟨o, ho, haddress⟩ := Option.map_eq_some_iff.1 hoptions
    obtain ⟨host, hhost, -⟩ := h o ho (by rw [haddress]; decide) true
    have hrefused : ((spawn none true ((argv ["--label", "lab"]).map Text.bytes)
        labState.hosts).1).isSome = false := by decide +kernel
    rw [hhost] at hrefused
    cases hrefused

end HostState

end Nazg.Bot
