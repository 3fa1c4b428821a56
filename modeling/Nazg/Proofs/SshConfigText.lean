import Nazg.Bot.Hosts

/-!
# The text of a host's settings

The key and the ports of a host are written as a JSON text in three places and read in one.
`manage` escapes the key; `spawn` and `setup` write it as it is, and `setup` writes no agent
port. The reader looks for the name of a field in quotes wherever it stands first, so a key that
ends with such a name can be taken for the field.

`parse_text_iff` says of each of the three when what is read is what was to be stored.
-/

namespace Nazg.Bot

open Lib Git

/-! ## The JSON text read back -/

/-- What follows the key where it is first found, from the next colon on. -/
def seek (pat : Bytes) : Bytes → Bytes
  | [] => []
  | c :: s => if pat <+: c :: s then (c :: s).dropWhile (· ≠ colon) else seek pat s

theorem seek_eq {pat : Bytes} (hpat : pat ≠ []) (s : Bytes) :
    seek pat s = match find pat s with
      | none => []
      | some pos => (s.drop pos).dropWhile (· ≠ colon) := by
  induction s with
  | nil => simp [seek, find, hpat]
  | cons c s ih =>
      rw [seek, find]
      split
      · rfl
      · rw [ih]
        cases find pat s with
        | none => rfl
        | some pos => rfl

theorem extractJsonToken_eq (json key : Bytes) : extractJsonToken json key =
    match seek (quote :: key ++ [quote]) json with
      | [] => []
      | _ :: rest => readJsonValue rest := by
  rw [extractJsonToken, seek_eq (by simp)]
  cases find (quote :: key ++ [quote]) json with
  | none => rfl
  | some pos => rfl

theorem seek_skip {pat a : Bytes} (h : quote ∉ a) (s : Bytes) :
    seek (quote :: pat) (a ++ s) = seek (quote :: pat) s := by
  induction a with
  | nil => rfl
  | cons c a ih =>
      obtain ⟨hne, ha⟩ := not_or.1 (mt List.mem_cons.2 h)
      rw [List.cons_append, seek, if_neg, ih ha]
      intro hpre
      exact hne (List.cons_prefix_cons.1 hpre).1

/-- A name without quotes and backslashes stands in front of the end of a written string only
if it is all of the string. -/
theorem eq_of_prefix_escape {name value rest : Bytes} (hname : quote ∉ name ∧ backslash ∉ name)
    (h : name ++ [quote] <+: escapeJsonString value ++ quote :: rest) : value = name := by
  induction name generalizing value with
  | nil =>
      cases value with
      | nil => rfl
      | cons c value =>
          rw [escapeJsonString, List.flatMap_cons] at h
          split at h
          · have hhead : quote = backslash := (List.cons_prefix_cons.1 h).1
            exact absurd hhead (by decide)
          · next hc =>
              have hhead : quote = c := (List.cons_prefix_cons.1 h).1
              exact absurd (.inl hhead.symm) hc
  | cons n name ih =>
      obtain ⟨⟨hquote, hquotes⟩, hback, hbacks⟩ :
          (quote ≠ n ∧ quote ∉ name) ∧ backslash ≠ n ∧ backslash ∉ name := by
        simpa using hname
      cases value with
      | nil =>
          have hhead : n = quote := (List.cons_prefix_cons.1 h).1
          exact absurd hhead.symm hquote
      | cons c value =>
          rw [escapeJsonString, List.flatMap_cons] at h
          split at h
          · have hhead : n = backslash := (List.cons_prefix_cons.1 h).1
            exact absurd hhead.symm hback
          · obtain ⟨hhead, htail⟩ := List.cons_prefix_cons.1 h
            rw [ih ⟨hquotes, hbacks⟩ htail, hhead]

theorem escapeJsonString_plain {value : Bytes} (h : quote ∉ value ∧ backslash ∉ value) :
    escapeJsonString value = value := by
  have hself : ∀ c ∈ value, (if c = quote ∨ c = backslash then [backslash, c] else [c]) = [c] := by
    intro c hc
    refine if_neg ?_
    rintro (rfl | rfl)
    · exact h.1 hc
    · exact h.2 hc
  rw [escapeJsonString, List.flatMap_congr hself, List.flatMap_singleton']

section

variable {name rest : Bytes} (hname : quote ∉ name ∧ backslash ∉ name)

include hname

/-- The search from a quote in front of a written string. -/
theorem seek_quote (value : Bytes) :
    seek (quote :: (name ++ [quote])) (quote :: (escapeJsonString value ++ quote :: rest)) =
      if value = name then (quote :: (name ++ quote :: rest)).dropWhile (· ≠ colon)
      else seek (quote :: (name ++ [quote])) (escapeJsonString value ++ quote :: rest) := by
  rw [seek]
  by_cases hvalue : value = name
  · rw [if_pos hvalue, hvalue, escapeJsonString_plain hname, if_pos]
    exact ⟨rest, by simp⟩
  · rw [if_neg hvalue, if_neg]
    exact fun hpre => hvalue (eq_of_prefix_escape hname (List.cons_prefix_cons.1 hpre).2)

/-- The search through a written string: the name is found there only at the end. -/
theorem seek_escape (value : Bytes) :
    seek (quote :: (name ++ [quote])) (escapeJsonString value ++ quote :: rest) =
      if quote :: name <:+ value then (quote :: (name ++ quote :: rest)).dropWhile (· ≠ colon)
      else seek (quote :: (name ++ [quote])) (quote :: rest) := by
  induction value with
  | nil =>
      rw [if_neg (by simp)]
      rfl
  | cons c value ih =>
      have hsplit : escapeJsonString (c :: value) ++ quote :: rest =
          (if c = quote ∨ c = backslash then [backslash, c] else [c]) ++
            (escapeJsonString value ++ quote :: rest) := by
        rw [escapeJsonString, List.flatMap_cons, List.append_assoc]
        rfl
      have hskip : ∀ d s, quote ≠ d → seek (quote :: (name ++ [quote])) (d :: s) =
          seek (quote :: (name ++ [quote])) s := by
        intro d s hd
        exact seek_skip (a := [d]) (by simpa using hd) s
      have hlater : c ≠ quote → (quote :: name <:+ c :: value ↔ quote :: name <:+ value) := by
        intro hc
        rw [List.suffix_cons_iff]
        exact or_iff_right fun heq => hc (List.cons.inj heq).1.symm
      rw [hsplit]
      by_cases hc : c = quote
      · subst hc
        have hself : quote :: name <:+ quote :: value ↔ value = name ∨ quote :: name <:+ value := by
          rw [List.suffix_cons_iff, List.cons.injEq, eq_comm (a := name)]
          exact or_congr_left (and_iff_right rfl)
        rw [if_pos (.inl rfl), List.cons_append, List.singleton_append, hskip _ _ (by decide),
          seek_quote hname, ih]
        by_cases hvalue : value = name
        · rw [if_pos hvalue, if_pos (hself.2 (.inl hvalue))]
        · rw [if_neg hvalue]
          exact if_congr (hself.trans (or_iff_right hvalue)).symm rfl rfl
      · rw [if_congr (hlater hc) rfl rfl, ← ih]
        split
        · rw [List.cons_append, List.singleton_append, hskip _ _ (by decide),
            hskip _ _ (Ne.symm hc)]
        · rw [List.singleton_append, hskip _ _ (Ne.symm hc)]

end

theorem readJsonString_quote (s : Bytes) : readJsonString (quote :: s) = [] := by
  cases s <;> rfl

theorem readJsonString_cons {c : UInt8} (hquote : c ≠ quote) (hback : c ≠ backslash) (s : Bytes) :
    readJsonString (c :: s) = c :: readJsonString s := by
  cases s with
  | nil => simp [readJsonString, hquote]
  | cons d s => rw [readJsonString, if_neg hback, if_neg hquote]

/-- A written string is read back. -/
theorem readJsonString_escape (value rest : Bytes) :
    readJsonString (escapeJsonString value ++ quote :: rest) = value := by
  induction value with
  | nil => exact readJsonString_quote rest
  | cons c value ih =>
      rw [escapeJsonString, List.flatMap_cons]
      split
      · exact congrArg (c :: ·) ih
      · next hplain =>
          rw [not_or] at hplain
          exact (readJsonString_cons hplain.1 hplain.2 _).trans (congrArg (c :: ·) ih)

/-- A number in front of something else is read back. -/
theorem readJsonValue_decimal {n : Int} (hn : FitsInt n) {rest : Bytes} {c : UInt8}
    (hc : isNumeral c = false) : readJsonValue (decimal n ++ c :: rest) = decimal n := by
  have hall : ∀ d ∈ decimal n, isNumeral d = true := by
    intro d hd
    cases n with
    | ofNat n => simp [isNumeral, isDigit_of_mem_natDecimal hd]
    | negSucc n =>
        rcases List.mem_cons.1 hd with rfl | hd
        · rfl
        · simp [isNumeral, isDigit_of_mem_natDecimal hd]
  obtain ⟨d, digits, hd⟩ : ∃ d digits, decimal n = d :: digits := by
    cases h : decimal n with
    | nil =>
        have hround := stoi_decimal hn.1 hn.2
        rw [h] at hround
        cases hround
    | cons d digits => exact ⟨d, digits, rfl⟩
  have hhead : 44 < d := lt_of_mem_decimal (hd ▸ List.mem_cons_self)
  have hspace : ∀ d : UInt8, 44 < d → isSpace d = false := forall_byte (by decide +kernel)
  have hquote : d ≠ quote := by
    rintro rfl
    exact absurd hhead (by decide)
  have htake := @List.takeWhile_append_of_pos _ _ _ (c :: rest) hall
  rw [List.takeWhile_cons_of_neg (by simp [hc]), List.append_nil] at htake
  rw [hd] at htake ⊢
  rw [readJsonValue, List.cons_append, List.dropWhile_cons_of_neg (by simp [hspace d hhead])]
  simp only [if_neg hquote]
  exact htake

/-- The text of a key and what follows it. -/
def writtenJson (key rest : Bytes) : Bytes :=
  bytes "\x7b\"key\":\"" ++ escapeJsonString key ++ quote :: rest

/-- The port and what follows it. -/
def portText (port : Int) (rest : Bytes) : Bytes := bytes ",\"port\":" ++ decimal port ++ rest

def agentText (agentPort : Int) : Bytes :=
  bytes ",\"agent_port\":" ++ decimal agentPort ++ bytes "\x7d"

theorem buildSshConfigJson_eq (cfg : SshConfigFields) :
    buildSshConfigJson cfg = writtenJson cfg.key (portText cfg.port (agentText cfg.agentPort)) := by
  simp only [buildSshConfigJson, writtenJson, portText, agentText, List.append_assoc]
  rfl

theorem token_key (key rest : Bytes) :
    extractJsonToken (writtenJson key rest) (bytes "key") = key := by
  have hseek : seek (quote :: bytes "key" ++ [quote]) (writtenJson key rest) =
      colon :: quote :: (escapeJsonString key ++ quote :: rest) := rfl
  rw [extractJsonToken_eq, hseek]
  exact readJsonString_escape key rest

/-- The search for another name than that of the key. -/
theorem seek_written {name rest : Bytes} (hname : quote ∉ name ∧ backslash ∉ name)
    (hkey : bytes "key" ≠ name) (hcolon : [colon] ≠ name) (key : Bytes) :
    seek (quote :: (name ++ [quote])) (writtenJson key rest) =
      if quote :: name <:+ quote :: key then
        (quote :: (name ++ quote :: rest)).dropWhile (· ≠ colon)
      else seek (quote :: (name ++ [quote])) (quote :: rest) := by
  have hskip := @seek_skip (name ++ [quote])
  have hstart : writtenJson key rest = [123] ++ quote :: (bytes "key" ++ quote ::
      ([colon] ++ quote :: (escapeJsonString key ++ quote :: rest))) := by
    simp only [writtenJson, List.append_assoc]
    rfl
  have hfirst : ¬ quote :: (name ++ [quote]) <+: quote :: (bytes "key" ++ quote ::
      ([colon] ++ quote :: (escapeJsonString key ++ quote :: rest))) := by
    intro hpre
    exact hkey (eq_of_prefix_escape hname (List.cons_prefix_cons.1 hpre).2)
  have hsecond : ∀ s, ¬ quote :: (name ++ [quote]) <+: quote :: ([colon] ++ quote :: s) := by
    intro s hpre
    exact hcolon (eq_of_prefix_escape hname (List.cons_prefix_cons.1 hpre).2)
  have hends : quote :: name <:+ quote :: key ↔ key = name ∨ quote :: name <:+ key := by
    rw [List.suffix_cons_iff, List.cons.injEq, eq_comm (a := name)]
    exact or_congr_left (and_iff_right rfl)
  rw [hstart, hskip (by decide), seek, if_neg hfirst, hskip (by decide), seek, if_neg (hsecond _),
    hskip (by decide), seek_quote hname, seek_escape hname, if_congr hends rfl rfl]
  by_cases hvalue : key = name
  · rw [if_pos hvalue, if_pos (.inl hvalue)]
  · rw [if_neg hvalue]
    exact if_congr (or_iff_right hvalue).symm rfl rfl

/-- The value at the place where a search ends. -/
def valueAt : Bytes → Bytes
  | [] => []
  | _ :: rest => readJsonValue rest

theorem extractJsonToken_seek (json key : Bytes) :
    extractJsonToken json key = valueAt (seek (quote :: (key ++ [quote])) json) :=
  extractJsonToken_eq json key

theorem token_port (key : Bytes) {port : Int} (hport : FitsInt port) {rest : Bytes} {c : UInt8}
    (hc : isNumeral c = false) :
    extractJsonToken (writtenJson key (portText port (c :: rest))) (bytes "port") =
      decimal port := by
  have hvalue : valueAt (colon :: (decimal port ++ c :: rest)) = decimal port :=
    readJsonValue_decimal hport hc
  rw [extractJsonToken_seek, seek_written (by decide) (by decide) (by decide)]
  split
  · exact hvalue
  · exact hvalue

theorem seek_agent (port : Int) (rest : Bytes) :
    seek (quote :: (bytes "agent_port" ++ [quote])) (quote :: portText port rest) =
      seek (quote :: (bytes "agent_port" ++ [quote])) rest := by
  have hdecimal : quote ∉ decimal port := fun h => absurd (lt_of_mem_decimal h) (by decide)
  have hport : seek (quote :: (bytes "agent_port" ++ [quote])) (quote :: portText port rest) =
      seek (quote :: (bytes "agent_port" ++ [quote])) (decimal port ++ rest) := by
    rw [portText, List.append_assoc]
    rfl
  rw [hport, seek_skip hdecimal]

/-- The agent port is looked for at the end of the key first, and there it is the port. -/
theorem token_agent (key : Bytes) {port : Int} (hport : FitsInt port) {rest : Bytes} {c : UInt8}
    (hc : isNumeral c = false) :
    extractJsonToken (writtenJson key (portText port (c :: rest))) (bytes "agent_port") =
      if quote :: bytes "agent_port" <:+ quote :: key then decimal port
      else valueAt (seek (quote :: (bytes "agent_port" ++ [quote])) (c :: rest)) := by
  have hvalue : valueAt (colon :: (decimal port ++ c :: rest)) = decimal port :=
    readJsonValue_decimal hport hc
  rw [extractJsonToken_seek, seek_written (by decide) (by decide) (by decide), seek_agent]
  split
  · exact hvalue
  · rfl

theorem decimal_ne_nil {n : Int} (h : FitsInt n) : decimal n ≠ [] := by
  intro hnil
  have hround := stoi_decimal h.1 h.2
  rw [hnil] at hround
  cases hround

/-- What is read of a written text whose end is `rest`. -/
theorem parse_written (key : Bytes) {port : Int} (hport : FitsInt port) {rest : Bytes} {c : UInt8}
    (hc : isNumeral c = false) {agentPort : Int}
    (hagent : valueAt (seek (quote :: (bytes "agent_port" ++ [quote])) (c :: rest)) = [] ∧
        agentPort = 7070 ∨
      valueAt (seek (quote :: (bytes "agent_port" ++ [quote])) (c :: rest)) = decimal agentPort ∧
        FitsInt agentPort) :
    parseSshConfigJson (writtenJson key (portText port (c :: rest))) =
      { key
        port
        agentPort :=
          if quote :: bytes "agent_port" <:+ quote :: key then port else agentPort } := by
  have hread : ∀ {n : Int} (default : Int), FitsInt n →
      (if decimal n = [] then default else (stoi (decimal n)).getD default) = n := by
    intro n default hn
    rw [if_neg (decimal_ne_nil hn), stoi_decimal hn.1 hn.2, Option.getD_some]
  rw [parseSshConfigJson, if_neg (by intro h; cases h)]
  simp only [token_key, token_port key hport hc, token_agent key hport hc, hread 22 hport]
  congr 1
  split
  · exact hread 7070 hport
  · rcases hagent with ⟨hnone, rfl⟩ | ⟨hsome, hfits⟩
    · rw [hnone]
      rfl
    · rw [hsome]
      exact hread 7070 hfits

theorem parse_buildSshConfigJson {cfg : SshConfigFields} (hport : FitsInt cfg.port)
    (hagent : FitsInt cfg.agentPort) :
    parseSshConfigJson (buildSshConfigJson cfg) =
      { cfg with
        agentPort :=
          if quote :: bytes "agent_port" <:+ quote :: cfg.key then cfg.port
          else cfg.agentPort } := by
  have hvalue : valueAt (colon :: (decimal cfg.agentPort ++ bytes "\x7d")) =
      decimal cfg.agentPort :=
    readJsonValue_decimal hagent rfl
  rw [buildSshConfigJson_eq]
  exact parse_written cfg.key hport rfl (.inr ⟨hvalue, hagent⟩)

/-- What `manage` writes is read back, unless the key ends with the name of the agent port. -/
theorem parse_build {cfg : SshConfigFields} (hport : FitsInt cfg.port)
    (hagent : FitsInt cfg.agentPort)
    (hkey : quote :: bytes "agent_port" <:+ quote :: cfg.key → cfg.port = cfg.agentPort) :
    parseSshConfigJson (buildSshConfigJson cfg) = cfg := by
  rw [parse_buildSshConfigJson hport hagent]
  obtain ⟨key, port, agentPort⟩ := cfg
  split
  · next h =>
      obtain rfl : port = agentPort := hkey h
      rfl
  · rfl

/-- The key of a text that is written without care. -/
def PlainKey (key : Bytes) : Prop :=
  quote ∉ key ∧ backslash ∉ key ∧ key ≠ bytes "agent_port"

instance (key : Bytes) : Decidable (PlainKey key) := inferInstanceAs (Decidable (_ ∧ _ ∧ _))

/-- What `setup` writes. -/
def setupJson (key : Bytes) (port : Int) : Bytes :=
  bytes "\x7b\"key\":\"" ++ key ++ bytes "\",\"port\":" ++ decimal port ++ bytes "\x7d"

/-- A name at the end of a key without quotes is all of the key. -/
theorem suffix_quote_iff {name key : Bytes} (hkey : quote ∉ key) :
    quote :: name <:+ quote :: key ↔ key = name := by
  rw [List.suffix_cons_iff, List.cons.injEq, eq_comm (a := name)]
  constructor
  · rintro (⟨-, heq⟩ | hsuffix)
    · exact heq
    · exact absurd (hsuffix.subset List.mem_cons_self) hkey
  · exact fun heq => .inl ⟨rfl, heq⟩

theorem parse_setupJson {key : Bytes} {port : Int} (hport : FitsInt port)
    (hkey : quote ∉ key ∧ backslash ∉ key) :
    parseSshConfigJson (setupJson key port) =
      { key, port, agentPort := if key = bytes "agent_port" then port else 7070 } := by
  have hjson : setupJson key port = writtenJson key (portText port (bytes "\x7d")) := by
    simp only [setupJson, writtenJson, portText, List.append_assoc, escapeJsonString_plain hkey]
    rfl
  rw [hjson]
  refine (parse_written key hport rfl (.inl ⟨rfl, rfl⟩)).trans ?_
  rw [if_congr (suffix_quote_iff hkey.1) rfl rfl]

theorem parse_setup {key : Bytes} {port : Int} (hport : FitsInt port) (hkey : PlainKey key) :
    parseSshConfigJson (setupJson key port) = { key, port } := by
  obtain ⟨hquote, hback, hname⟩ := hkey
  rw [parse_setupJson hport ⟨hquote, hback⟩, if_neg hname]

/-- What `spawn` writes. -/
def spawnJson (key : Bytes) (port agentPort : Int) : Bytes :=
  bytes "\x7b\"key\":\"" ++ key ++ bytes "\",\"port\":" ++ decimal port ++
    bytes ",\"agent_port\":" ++ decimal agentPort ++ bytes "\x7d"

/-- Without quotes and backslashes `spawn` writes what `manage` does. -/
theorem spawnJson_plain {key : Bytes} (hkey : quote ∉ key ∧ backslash ∉ key)
    (port agentPort : Int) :
    spawnJson key port agentPort = buildSshConfigJson ⟨key, port, agentPort⟩ := by
  rw [spawnJson, buildSshConfigJson, escapeJsonString_plain hkey]

/-! ## Keys that are not escaped -/

/-- Text with backslashes in front of it is not what is read for it. -/
theorem plain_of_readJsonString (rest : Bytes) : ∀ (key : Bytes) (n : Nat),
    readJsonString (key ++ quote :: rest) = List.replicate n backslash ++ key →
      n = 0 ∧ quote ∉ key ∧ backslash ∉ key
  | [], n, h => by
      rw [List.nil_append, readJsonString_quote] at h
      have hlength := congrArg List.length h
      simp only [List.length_nil, List.append_nil, List.length_replicate] at hlength
      exact ⟨hlength.symm, List.not_mem_nil, List.not_mem_nil⟩
  | c :: key, n, h => by
      rw [List.cons_append] at h
      by_cases hquote : c = quote
      · rw [hquote, readJsonString_quote] at h
        exact absurd h.symm (by simp)
      · by_cases hback : c = backslash
        · -- the backslash is dropped, so one more would have to come from behind it
          have hmore : ∀ l : Bytes, List.replicate n backslash ++ backslash :: l =
              backslash :: (List.replicate n backslash ++ l) := by
            intro l
            rw [List.append_cons, ← List.replicate_succ', List.replicate_succ, List.cons_append]
          subst hback
          rw [hmore] at h
          cases key with
          | nil =>
              have hhead : quote = backslash := (List.cons.inj h).1
              exact absurd hhead (by decide)
          | cons d key =>
              obtain ⟨rfl, htail⟩ : d = backslash ∧ readJsonString (key ++ quote :: rest) =
                  List.replicate n backslash ++ d :: key := List.cons.inj h
              rw [hmore, ← List.cons_append, ← List.replicate_succ] at htail
              exact absurd (plain_of_readJsonString rest key (n + 1) htail).1 (Nat.succ_ne_zero n)
        · rw [readJsonString_cons hquote hback] at h
          cases n with
          | zero =>
              obtain ⟨-, hquotes, hbacks⟩ :=
                plain_of_readJsonString rest key 0 (List.cons.inj h).2
              refine ⟨rfl, ?_, ?_⟩
              · rw [List.mem_cons, not_or]
                exact ⟨Ne.symm hquote, hquotes⟩
              · rw [List.mem_cons, not_or]
                exact ⟨Ne.symm hback, hbacks⟩
          | succ n => exact absurd (List.cons.inj h).1 hback

theorem readJsonString_iff {key rest : Bytes} :
    readJsonString (key ++ quote :: rest) = key ↔ quote ∉ key ∧ backslash ∉ key := by
  constructor
  · exact fun h => (plain_of_readJsonString rest key 0 h).2
  · intro h
    have hread := readJsonString_escape key rest
    rwa [escapeJsonString_plain h] at hread

/-! ## The three writers -/

inductive Writer where
  | manage
  | spawn
  | setup

def Writer.text (cfg : SshConfigFields) : Writer → Bytes
  | manage => buildSshConfigJson cfg
  | spawn => spawnJson cfg.key cfg.port cfg.agentPort
  | setup => setupJson cfg.key cfg.port

/-- What has to hold of the settings for them to be read back. -/
def Writer.Keeps (cfg : SshConfigFields) : Writer → Prop
  | manage => quote :: bytes "agent_port" <:+ quote :: cfg.key → cfg.port = cfg.agentPort
  | spawn => (quote ∉ cfg.key ∧ backslash ∉ cfg.key) ∧
      (cfg.key = bytes "agent_port" → cfg.port = cfg.agentPort)
  | setup => (quote ∉ cfg.key ∧ backslash ∉ cfg.key) ∧
      cfg.agentPort = if cfg.key = bytes "agent_port" then cfg.port else 7070

/-- `spawn` hands its text over for a label that is not there. -/
theorem spawn_writes {cfg : Config} {inserts : Bool} {args : List Bytes} {hosts : BotHosts}
    {host : HostConfig} (hhost : parseHostConfig cfg args = some host)
    (haddress : host.address ≠ []) (hnew : hosts (.ofCStr host.label) = none) :
    (spawn cfg inserts args hosts).2 = addBotHost inserts host.label host.address
      (Writer.spawn.text ⟨host.sshKey, host.sshPort, host.agentPort⟩) hosts := by
  rw [spawn, hhost]
  simp only [if_neg haddress, hnew]
  rfl

/-- And so does `setup`. -/
theorem setup_writes {env : SetupHost} {args : List Bytes} {hosts : BotHosts} {host : HostConfig}
    (hhost : env.host args = some host) (hnew : hosts (.ofCStr host.label) = none) :
    (setup env args hosts).2 = addBotHost env.inserts host.label host.address
      (Writer.setup.text ⟨host.sshKey, host.sshPort, host.agentPort⟩) hosts := by
  rw [setup, hhost]
  simp only [hnew]
  rfl

/-- The key of a text that is not escaped. -/
theorem parse_raw_key (key rest : Bytes) :
    (parseSshConfigJson (bytes "\x7b\"key\":\"" ++ (key ++ quote :: rest))).key =
      readJsonString (key ++ quote :: rest) := by
  have hseek : seek (quote :: bytes "key" ++ [quote])
      (bytes "\x7b\"key\":\"" ++ (key ++ quote :: rest)) =
        colon :: quote :: (key ++ quote :: rest) := rfl
  rw [parseSshConfigJson, if_neg (by intro h; cases h)]
  simp only [extractJsonToken_eq, hseek]
  rfl

theorem plain_of_parse_raw {cfg : SshConfigFields} {rest : Bytes}
    (h : parseSshConfigJson (bytes "\x7b\"key\":\"" ++ (cfg.key ++ quote :: rest)) = cfg) :
    quote ∉ cfg.key ∧ backslash ∉ cfg.key := by
  have hkey := congrArg SshConfigFields.key h
  rw [parse_raw_key] at hkey
  exact readJsonString_iff.1 hkey

theorem with_agentPort_eq_iff {cfg : SshConfigFields} {agentPort : Int} :
    { cfg with agentPort := agentPort } = cfg ↔ agentPort = cfg.agentPort :=
  ⟨fun h => congrArg SshConfigFields.agentPort h, fun h => by rw [h]⟩

theorem parse_build_iff {cfg : SshConfigFields} (hport : FitsInt cfg.port)
    (hagent : FitsInt cfg.agentPort) :
    parseSshConfigJson (buildSshConfigJson cfg) = cfg ↔
      (quote :: bytes "agent_port" <:+ quote :: cfg.key → cfg.port = cfg.agentPort) := by
  rw [parse_buildSshConfigJson hport hagent, with_agentPort_eq_iff, ite_eq_right_iff]

theorem parse_spawn_iff {cfg : SshConfigFields} (hport : FitsInt cfg.port)
    (hagent : FitsInt cfg.agentPort) :
    parseSshConfigJson (spawnJson cfg.key cfg.port cfg.agentPort) = cfg ↔
      (quote ∉ cfg.key ∧ backslash ∉ cfg.key) ∧
        (cfg.key = bytes "agent_port" → cfg.port = cfg.agentPort) := by
  have hraw : spawnJson cfg.key cfg.port cfg.agentPort = bytes "\x7b\"key\":\"" ++
      (cfg.key ++ quote :: portText cfg.port (agentText cfg.agentPort)) := by
    simp only [spawnJson, portText, agentText, List.append_assoc]
    rfl
  have hsame : ∀ hkey : quote ∉ cfg.key ∧ backslash ∉ cfg.key,
      parseSshConfigJson (spawnJson cfg.key cfg.port cfg.agentPort) = cfg ↔
        (cfg.key = bytes "agent_port" → cfg.port = cfg.agentPort) := by
    intro hkey
    rw [spawnJson_plain hkey, parse_build_iff hport hagent, suffix_quote_iff hkey.1]
  constructor
  · intro h
    have hkey := plain_of_parse_raw (hraw ▸ h)
    exact ⟨hkey, (hsame hkey).1 h⟩
  · exact fun h => (hsame h.1).2 h.2

theorem parse_setup_iff {cfg : SshConfigFields} (hport : FitsInt cfg.port) :
    parseSshConfigJson (setupJson cfg.key cfg.port) = cfg ↔
      (quote ∉ cfg.key ∧ backslash ∉ cfg.key) ∧
        cfg.agentPort = if cfg.key = bytes "agent_port" then cfg.port else 7070 := by
  have hraw : setupJson cfg.key cfg.port = bytes "\x7b\"key\":\"" ++
      (cfg.key ++ quote :: portText cfg.port (bytes "\x7d")) := by
    simp only [setupJson, portText, List.append_assoc]
    rfl
  have hsame : ∀ hkey : quote ∉ cfg.key ∧ backslash ∉ cfg.key,
      parseSshConfigJson (setupJson cfg.key cfg.port) = cfg ↔
        cfg.agentPort = if cfg.key = bytes "agent_port" then cfg.port else 7070 := by
    intro hkey
    rw [parse_setupJson hport hkey, eq_comm (a := cfg.agentPort)]
    exact with_agentPort_eq_iff
  constructor
  · intro h
    have hkey := plain_of_parse_raw (hraw ▸ h)
    exact ⟨hkey, (hsame hkey).1 h⟩
  · exact fun h => (hsame h.1).2 h.2

/-- The settings are read back exactly if these conditions hold. -/
theorem parse_text_iff (w : Writer) (cfg : SshConfigFields) (hport : FitsInt cfg.port)
    (hagent : FitsInt cfg.agentPort) :
    parseSshConfigJson (w.text cfg) = cfg ↔ w.Keeps cfg := by
  cases w with
  | manage => exact parse_build_iff hport hagent
  | spawn => exact parse_spawn_iff hport hagent
  | setup => exact parse_setup_iff hport

/-- A key as it usually is. -/
theorem parse_text_iff_lab :
    parseSshConfigJson (Writer.setup.text ⟨bytes "/home/dev/.ssh/lab", 2222, 7070⟩) =
      ⟨bytes "/home/dev/.ssh/lab", 2222, 7070⟩ :=
  (parse_text_iff .setup ⟨bytes "/home/dev/.ssh/lab", 2222, 7070⟩ ⟨by decide, by decide⟩
    ⟨by decide, by decide⟩).2 ⟨by decide +kernel, by decide +kernel⟩

/-- `spawn` does not escape a quote. -/
theorem quoted_not_read : ¬ ∀ (w : Writer) (cfg : SshConfigFields), FitsInt cfg.port →
    FitsInt cfg.agentPort → parseSshConfigJson (w.text cfg) = cfg := by
  intro h
  have hspawn := h .spawn ⟨bytes "/home/dev/\"lab\".pem", 22, 7070⟩ ⟨by decide, by decide⟩
    ⟨by decide, by decide⟩
  exact absurd hspawn (by decide +kernel)

end Nazg.Bot
