import Nazg.Docker.Client
import Nazg.Lib.Writes
import Nazg.Proofs.AgentAuth
import Nazg.Proofs.ScanText

/-!
# What an agent is registered as

One call of `register_agent` against one connection of the agent, each side being shown a part of
what the other has sent. If the texts that the agent puts into its answer have no quote in them,
the row of the server says afterwards what the agent said, or that the agent is offline.
-/

namespace Nazg.Docker

open Lib Lib.Sqlite Agent
open Nazg.Bot (Network Socket Session HostConfig extractHost sendOnce)

/-! ## The text of the answer -/

/-- A line of the answer: a key with a text. -/
def textLine (indent key text sep : Bytes) : Bytes :=
  indent ++ (keyPattern key ++ 32 :: quote :: (text ++ quote :: sep))

/-- The rest of a pattern does not stand before the end of a text without quotes. -/
theorem not_prefix_quoteFree {key text rest : Bytes} (hkey : quote ∉ key) (htext : quote ∉ text)
    (hrest : EndsValue rest) : ¬ key ++ [quote, 58] <+: text ++ quote :: rest := by
  induction text generalizing key with
  | nil =>
      intro h
      cases key with
      | nil =>
          obtain ⟨c, t, rfl, hc⟩ := hrest
          have h58 := (List.cons_prefix_cons.1 (List.cons_prefix_cons.1 h).2).1
          rcases hc with rfl | rfl | rfl <;> exact absurd h58 (by decide)
      | cons k ks => exact hkey ((List.cons_prefix_cons.1 h).1 ▸ List.mem_cons_self)
  | cons c text ih =>
      intro h
      cases key with
      | nil => exact htext ((List.cons_prefix_cons.1 h).1 ▸ List.mem_cons_self)
      | cons k ks =>
          exact ih (fun hmem => hkey (List.mem_cons_of_mem _ hmem))
            (fun hmem => htext (List.mem_cons_of_mem _ hmem)) (List.cons_prefix_cons.1 h).2

theorem IsKey.quote_notMem {key : Bytes} (h : IsKey key) : quote ∉ key := fun hmem =>
  absurd (h.2 _ hmem) (by decide)

/-- No pattern of another key begins in a line. -/
theorem noMatch_textLine {key k indent text sep : Bytes} (hkey : IsKey key) (hk : IsKey k)
    (hne : k ≠ key) (hindent : quote ∉ indent) (htext : quote ∉ text) (hsep : quote ∉ sep)
    (hends : ∀ rest, EndsValue (sep ++ rest)) (rest : Bytes) :
    NoMatch (keyPattern key) (textLine indent k text sep) rest := by
  refine NoMatch.append (noMatch_of_no_quote hindent _)
    (NoMatch.append (noMatch_keyPattern hkey hk hne _) ?_)
  have hopen : ¬ keyPattern key <+: quote :: ((text ++ quote :: sep) ++ rest) := by
    intro h
    rw [keyPattern_eq, List.append_assoc] at h
    exact not_prefix_quoteFree hkey.quote_notMem htext (hends rest) (List.cons_prefix_cons.1 h).2
  have hclose : ¬ keyPattern key <+: quote :: (sep ++ rest) := by
    intro h
    rw [keyPattern_eq] at h
    exact EndsValue.not_prefix (hends rest) hkey _ (List.cons_prefix_cons.1 h).2
  have hblank : ¬ keyPattern key <+: 32 :: (quote :: (text ++ quote :: sep) ++ rest) := by
    intro h
    exact absurd (List.cons_prefix_cons.1 h).1 (by decide)
  exact NoMatch.cons hblank (NoMatch.cons hopen
    (NoMatch.append (noMatch_of_no_quote htext _)
      (NoMatch.cons hclose (noMatch_of_no_quote hsep _))))

theorem endsValue_cons {c : UInt8} (hc : c = 44 ∨ c = 10 ∨ c = closeBracket) (s : Bytes) :
    EndsValue (c :: s) := ⟨c, s, rfl, hc⟩

/-- The first line. -/
def labelLine (rt : Runtime) : Bytes :=
  textLine (bytes "  ") (bytes "server_label") rt.opts.serverLabel (bytes ",\n")

def versionLine : Bytes :=
  textLine (bytes "  ") (bytes "agent_version") (bytes "0.1.0") (bytes ",\n")

/-- What stands between the version and the capabilities. -/
def systemLines (rt : Runtime) (info : SystemInfo) : Bytes :=
  if rt.scanner then
    textLine (bytes "  ") (bytes "hostname") info.hostname (bytes ",\n") ++
      (bytes "  " ++ keyPattern (bytes "system_info") ++ [32, openBrace, 10] ++
        textLine (bytes "    ") (bytes "os") info.os (bytes ",\n") ++
        textLine (bytes "    ") (bytes "arch") info.arch (bytes ",\n") ++
        textLine (bytes "    ") (bytes "docker_version") info.dockerVersion (bytes ",\n") ++
        textLine (bytes "    ") (bytes "compose_version") info.composeVersion (bytes "\n") ++
        (bytes "  " ++ [closeBrace] ++ bytes ",\n"))
  else textLine (bytes "  ") (bytes "hostname") (bytes "unknown") (bytes ",\n")

/-- The capabilities that an agent announces. -/
def announced (rt : Runtime) (info : SystemInfo) (dockerAvailable : Bool) : Bytes :=
  if rt.scanner then capabilities info dockerAvailable else []

theorem buildRegistrationResponse_eq (rt : Runtime) (info : SystemInfo) (dockerAvailable : Bool) :
    buildRegistrationResponse rt info dockerAvailable =
      [openBrace, 10] ++ labelLine rt ++ versionLine ++ systemLines rt info ++ bytes "  " ++
        (keyPattern (bytes "capabilities") ++ 32 :: openBracket ::
          (announced rt info dockerAvailable ++ closeBracket :: 10 :: closeBrace :: [10])) := by
  have hlabel : bytes "\n  \"server_label\": \"" =
      10 :: (bytes "  " ++ (keyPattern (bytes "server_label") ++ [32, quote])) := by decide
  have hversion : bytes "  \"agent_version\": \"0.1.0\",\n" =
      bytes "  " ++ (keyPattern (bytes "agent_version") ++
        32 :: quote :: (bytes "0.1.0" ++ quote :: bytes ",\n")) := by decide
  have hhostname : bytes "  \"hostname\": \"" =
      bytes "  " ++ (keyPattern (bytes "hostname") ++ [32, quote]) := by decide
  have hunknown : bytes "  \"hostname\": \"unknown\",\n" =
      bytes "  " ++ (keyPattern (bytes "hostname") ++
        32 :: quote :: (bytes "unknown" ++ quote :: bytes ",\n")) := by decide
  have hsystem : bytes "  \"system_info\": " =
      bytes "  " ++ (keyPattern (bytes "system_info") ++ [32]) := by decide
  have hos : bytes "    \"os\": \"" =
      bytes "    " ++ (keyPattern (bytes "os") ++ [32, quote]) := by decide
  have harch : bytes "    \"arch\": \"" =
      bytes "    " ++ (keyPattern (bytes "arch") ++ [32, quote]) := by decide
  have hdocker : bytes "    \"docker_version\": \"" =
      bytes "    " ++ (keyPattern (bytes "docker_version") ++ [32, quote]) := by decide
  have hcompose : bytes "    \"compose_version\": \"" =
      bytes "    " ++ (keyPattern (bytes "compose_version") ++ [32, quote]) := by decide
  have hcapabilities : bytes "  \"capabilities\": [" =
      bytes "  " ++ (keyPattern (bytes "capabilities") ++ [32, openBracket]) := by decide
  have hempty : bytes "  \"capabilities\": []\n" =
      bytes "  " ++ (keyPattern (bytes "capabilities") ++ [32, openBracket, closeBracket, 10]) := by
    decide
  have hcomma : bytes "\",\n" = quote :: bytes ",\n" := by decide
  have hend : bytes "\"\n" = quote :: bytes "\n" := by decide
  have hclose : bytes "]\n" = [closeBracket, 10] := by decide
  have hline : bytes "\n" = [10] := by decide
  cases hscanner : rt.scanner with
  | false =>
      simp only [buildRegistrationResponse, labelLine, versionLine, systemLines, announced,
        textLine, hscanner, Bool.false_eq_true, if_false, hlabel, hversion, hunknown, hempty,
        hcomma, hline, List.append_assoc, List.cons_append, List.nil_append]
  | true =>
      simp only [buildRegistrationResponse, labelLine, versionLine, systemLines, announced,
        textLine, hscanner, if_true, hlabel, hversion, hhostname, hsystem, hos, harch, hdocker,
        hcompose, hcapabilities, hcomma, hend, hclose, hline, List.append_assoc,
        List.cons_append, List.nil_append]

/-- What an agent puts into its answer has no quote in it. -/
structure Unquoted (rt : Runtime) (info : SystemInfo) : Prop where
  label : quote ∉ rt.opts.serverLabel
  hostname : quote ∉ info.hostname
  os : quote ∉ info.os
  arch : quote ∉ info.arch
  dockerVersion : quote ∉ info.dockerVersion
  composeVersion : quote ∉ info.composeVersion

theorem endsValue_comma (rest : Bytes) : EndsValue (bytes ",\n" ++ rest) :=
  ⟨44, 10 :: rest, rfl, .inl rfl⟩

theorem endsValue_newline (rest : Bytes) : EndsValue (bytes "\n" ++ rest) :=
  ⟨10, rest, rfl, .inr (.inl rfl)⟩

theorem extractJsonString_region {key region text tail : Bytes}
    (h : ∀ rest, NoMatch (keyPattern key) region rest) :
    extractJsonString
        (region ++ (keyPattern key ++ 32 :: quote :: (escapeJson text ++ quote :: tail))) key =
      escapeJson text := by
  have hskip : (32 :: quote :: (escapeJson text ++ quote :: tail)).dropWhile isBlank =
      quote :: (escapeJson text ++ quote :: tail) := by
    rw [List.dropWhile_cons_of_pos (by decide), List.dropWhile_cons_of_neg (by decide)]
  rw [extractJsonString, afterKey_region _ (h _)]
  simp only [Option.map_some, hskip, if_true]
  exact stringBody_escapeJson text tail

theorem extractJsonArray_region {key region inner tail : Bytes}
    (h : ∀ rest, NoMatch (keyPattern key) region rest) (hopen : openBracket ∉ inner)
    (hclose : closeBracket ∉ inner) :
    extractJsonArray
        (region ++ (keyPattern key ++ 32 :: openBracket :: (inner ++ closeBracket :: tail))) key =
      openBracket :: (inner ++ [closeBracket]) := by
  have hskip : (32 :: openBracket :: (inner ++ closeBracket :: tail)).dropWhile
      (fun c => isBlank c || c = 10) = openBracket :: (inner ++ closeBracket :: tail) := by
    rw [List.dropWhile_cons_of_pos (by decide), List.dropWhile_cons_of_neg (by decide)]
  have hspan : span openBracket closeBracket 1 (inner ++ closeBracket :: tail) =
      (inner ++ [closeBracket], tail, 0) :=
    span_closing (by decide) (depthIn_of_notMem (by decide) hopen hclose) tail
  rw [extractJsonArray, afterKey_region _ (h _)]
  simp only [Option.map_some, hskip, if_true, hspan]

theorem brackets_notMem_announced (rt : Runtime) (info : SystemInfo) (dockerAvailable : Bool) :
    openBracket ∉ announced rt info dockerAvailable ∧
      closeBracket ∉ announced rt info dockerAvailable := by
  rw [announced, capabilities]
  split_ifs <;> decide

section

variable {rt : Runtime} {info : SystemInfo} (h : Unquoted rt info) (dockerAvailable : Bool)

include h

theorem noMatch_labelLine {key : Bytes} (hkey : IsKey key) (hne : bytes "server_label" ≠ key)
    (rest : Bytes) : NoMatch (keyPattern key) ([openBrace, 10] ++ labelLine rt) rest :=
  NoMatch.append (noMatch_of_no_quote (by decide) _)
    (noMatch_textLine hkey (by decide) hne (by decide) h.label (by decide) endsValue_comma _)

theorem extract_version :
    extractJsonString (buildRegistrationResponse rt info dockerAvailable) (bytes "agent_version") =
      bytes "0.1.0" := by
  have hregion : ∀ rest, NoMatch (keyPattern (bytes "agent_version"))
      ([openBrace, 10] ++ labelLine rt ++ bytes "  ") rest := fun rest =>
    NoMatch.append (noMatch_labelLine h (by decide) (by decide) _)
      (noMatch_of_no_quote (by decide) _)
  have hplain : escapeJson (bytes "0.1.0") = bytes "0.1.0" := by decide
  have hprefix : [openBrace, 10] ++ labelLine rt ++ versionLine <+:
      buildRegistrationResponse rt info dockerAvailable := by
    rw [buildRegistrationResponse_eq]
    exact (List.prefix_append _ _).trans
      ((List.prefix_append _ _).trans (List.prefix_append _ _))
  obtain ⟨tail, htail⟩ := hprefix
  have htext : buildRegistrationResponse rt info dockerAvailable =
      [openBrace, 10] ++ labelLine rt ++ bytes "  " ++ (keyPattern (bytes "agent_version") ++
        32 :: quote :: (escapeJson (bytes "0.1.0") ++ quote :: (bytes ",\n" ++ tail))) := by
    rw [← htail, hplain, versionLine, textLine]
    simp only [List.append_assoc, List.cons_append]
  rw [htext, extractJsonString_region hregion, hplain]

theorem noMatch_systemLines (rest : Bytes) :
    NoMatch (keyPattern (bytes "capabilities")) (systemLines rt info) rest := by
  have hline : ∀ {k indent text : Bytes}, IsKey k → k ≠ bytes "capabilities" → quote ∉ indent →
      quote ∉ text → ∀ rest, NoMatch (keyPattern (bytes "capabilities"))
        (textLine indent k text (bytes ",\n")) rest := fun hk hne hindent htext rest =>
    noMatch_textLine (by decide) hk hne hindent htext (by decide) endsValue_comma rest
  rw [systemLines]
  split
  · refine NoMatch.append (hline (by decide) (by decide) (by decide) h.hostname _) ?_
    refine NoMatch.append (NoMatch.append (NoMatch.append (NoMatch.append (NoMatch.append
      (NoMatch.append (NoMatch.append ?_ ?_) ?_) ?_) ?_) ?_) ?_) ?_
    · exact noMatch_of_no_quote (by decide) _
    · exact noMatch_keyPattern (by decide) (by decide) (by decide) _
    · exact noMatch_of_no_quote (by decide) _
    · exact hline (by decide) (by decide) (by decide) h.os _
    · exact hline (by decide) (by decide) (by decide) h.arch _
    · exact hline (by decide) (by decide) (by decide) h.dockerVersion _
    · exact noMatch_textLine (by decide) (by decide) (by decide) (by decide) h.composeVersion
        (by decide) endsValue_newline _
    · exact noMatch_of_no_quote (by decide) _
  · exact hline (by decide) (by decide) (by decide) (by decide) _

theorem extract_capabilities :
    extractJsonArray (buildRegistrationResponse rt info dockerAvailable) (bytes "capabilities") =
      openBracket :: (announced rt info dockerAvailable ++ [closeBracket]) := by
  have hregion : ∀ rest, NoMatch (keyPattern (bytes "capabilities"))
      ([openBrace, 10] ++ labelLine rt ++ versionLine ++ systemLines rt info ++ bytes "  ") rest :=
    fun rest => by
      refine NoMatch.append (NoMatch.append (NoMatch.append
        (noMatch_labelLine h (by decide) (by decide) _) ?_) (noMatch_systemLines h _))
        (noMatch_of_no_quote (by decide) _)
      exact noMatch_textLine (by decide) (by decide) (by decide) (by decide) (by decide)
        (by decide) endsValue_comma _
  obtain ⟨hopen, hclose⟩ := brackets_notMem_announced rt info dockerAvailable
  rw [buildRegistrationResponse_eq, extractJsonArray_region hregion hopen hclose]

end

/-! ## The agent's side -/

def registerMessage : Message := ⟨.Register, []⟩

/-- The answer to a registration. -/
def registerAck (rt : Runtime) (ans : Answers) : Message :=
  ⟨.RegisterAck, buildRegistrationResponse rt ans.systemInfo ans.dockerAvailable⟩

theorem checkHello_of_no_token {rt : Runtime} (htoken : rt.opts.authToken = []) :
    rt.checkHello Bot.AgentTransport.helloMessage = (true, [.sent helloAck]) := by
  rw [Runtime.checkHello, if_neg (by decide), if_neg fun h => h.1 htoken]

/-- On the beginning of a hello and a registration the agent says nothing, refuses, or
acknowledges the hello; it answers the registration if that came. -/
theorem handleClient_register {rt : Runtime} {env : Nat → Answers} {t : List Arrival}
    {p₀ p₁ : Padding} (hflow : Flowing t)
    (hpre : available t <+: Bot.AgentTransport.helloMessage.frame p₀ ++ registerMessage.frame p₁) :
    rt.handleClient env t = [] ∨ rt.handleClient env t = [.sent authenticationFailed] ∨
      rt.opts.authToken = [] ∧ (rt.handleClient env t = [.sent helloAck] ∨
        rt.handleClient env t = [.sent helloAck, .sent (registerAck rt (env 0))]) := by
  rw [Runtime.handleClient]
  cases hread : Runtime.readMessage t with
  | none => exact .inl rfl
  | some r =>
      obtain ⟨m, s⟩ := r
      obtain ⟨rfl, -, hrest, hflow'⟩ := readFrame_of_prefix hflow hpre (by decide) hread
      dsimp only
      by_cases htoken : rt.opts.authToken = []
      · rw [checkHello_of_no_token htoken]
        by_cases hnone : messages Runtime.readMessage s = []
        · rw [hnone]
          exact .inr (.inr ⟨htoken, .inl rfl⟩)
        · obtain ⟨hmessages, -⟩ := messages_of_prefix hflow' hrest (by decide) hnone
          rw [show messages Runtime.readMessage s = _ from hmessages]
          exact .inr (.inr ⟨htoken, .inr rfl⟩)
      · rw [checkHello_helloMessage htoken]
        exact .inr (.inl rfl)

/-- An agent without a token that is sent the hello acknowledges it. -/
theorem handleClient_of_hello {rt : Runtime} (htoken : rt.opts.authToken = [])
    (env : Nat → Answers) {t : List Arrival} {p₀ : Padding} {rest : Bytes}
    (hs : Splits t (Bot.AgentTransport.helloMessage.frame p₀ ++ rest)) :
    ∃ s, Splits s rest ∧
      rt.handleClient env t =
        .sent helloAck :: rt.handleMessages env (messages Runtime.readMessage s) := by
  obtain ⟨hflow, hstall, havail⟩ := hs
  obtain ⟨s, hread, hrest, hflow', hstall'⟩ := readFrame_of_frame hflow havail
    (show Bot.AgentTransport.helloMessage.payload.length ≤ maxPayloadSize.toNat by decide)
  refine ⟨s, ⟨hflow', hstall' hstall, hrest⟩, ?_⟩
  rw [Runtime.handleClient, show Runtime.readMessage t = _ from hread]
  simp only [checkHello_of_no_token htoken]
  rfl

theorem messages_register {s : List Arrival} {p₁ : Padding}
    (hs : Splits s (registerMessage.frame p₁)) :
    messages Runtime.readMessage s = [registerMessage] := by
  have hwire : Splits s (wire [(p₁, registerMessage)]) := by
    rw [wire, List.flatMap_cons, List.flatMap_nil, List.append_nil]
    exact hs
  refine (messages_wire_iff hwire).2 fun f hf => ?_
  rw [List.mem_singleton.1 hf]
  exact Nat.zero_le _

/-! ## The client's side -/

section

variable {net : Network} {host : HostConfig} {pad : Nat → Padding} {sock : Socket}
  (hsock : net (extractHost host.address) host.agentPort = some sock)

include hsock

/-- A registration is answered if an acknowledgement and a reply that is no error can be read,
and both sends take something. -/
theorem register_result_iff {text : Bytes} :
    (Client.sendMessageToAgent net host pad .Register [] []).result = some text ↔
      sock.writable ≠ 0 ∧ ∃ ack s, readFrame maxPayloadSize sock.arrivals = some (ack, s) ∧
        ack.type = .HelloAck ∧
        sock.writable - (Bot.AgentTransport.helloMessage.frame (pad 0)).length ≠ 0 ∧
        ∃ reply s', readFrame maxPayloadSize s = some (reply, s') ∧ reply.type ≠ .Error ∧
          reply.payload = text := by
  rw [Client.sendMessageToAgent, hsock]
  simp only [sendOnce, client_readMessage_nil]
  by_cases hopen : sock.writable = 0
  · simp [hopen]
  · simp only [if_neg hopen]
    cases hack : readFrame maxPayloadSize sock.arrivals with
    | none => simp
    | some r =>
        obtain ⟨ack, s⟩ := r
        by_cases htype : ack.type = .HelloAck
        · by_cases hroom : sock.writable - (Bot.AgentTransport.helloMessage.frame (pad 0)).length = 0
          · simp [htype, hroom]
          · cases hreply : readFrame maxPayloadSize s with
            | none => simp [htype, hroom, hreply]
            | some r =>
                obtain ⟨reply, s'⟩ := r
                by_cases herror : reply.type = .Error
                · simp [htype, hroom, hreply, herror]
                · simp [htype, hroom, hreply, herror, hopen]
        · simp [htype]

/-- A call hands over the hello and, after an acknowledgement, the request, as far as the socket
takes them. -/
theorem register_sent (pad : Nat → Padding) :
    (Client.sendMessageToAgent net host pad .Register [] []).sent =
        (Bot.AgentTransport.helloMessage.frame (pad 0)).take sock.writable ∧
      (sock.writable = 0 ∨
        ∀ ack s, readFrame maxPayloadSize sock.arrivals = some (ack, s) → ack.type ≠ .HelloAck) ∨
    (Client.sendMessageToAgent net host pad .Register [] []).sent =
      (Bot.AgentTransport.helloMessage.frame (pad 0) ++ registerMessage.frame (pad 1)).take
        sock.writable := by
  rw [Client.sendMessageToAgent, hsock]
  simp only [sendOnce, client_readMessage_nil]
  by_cases hopen : sock.writable = 0
  · simp only [if_pos hopen]
    exact .inl ⟨trivial, .inl hopen⟩
  · simp only [if_neg hopen]
    cases hack : readFrame maxPayloadSize sock.arrivals with
    | none => exact .inl ⟨rfl, .inr fun _ _ h => absurd h (by simp)⟩
    | some r =>
        obtain ⟨ack, s⟩ := r
        by_cases htype : ack.type = .HelloAck
        · refine .inr ?_
          rw [List.take_append]
          simp only [htype, ne_eq, not_true_eq_false, if_false]
          by_cases hroom : sock.writable - (Bot.AgentTransport.helloMessage.frame (pad 0)).length = 0
          · simp only [if_pos hroom]
            rfl
          · simp only [if_neg hroom]
            rfl
        · simp only [ne_eq, htype, not_false_eq_true, if_true]
          refine .inl ⟨trivial, .inr fun ack' s' h => ?_⟩
          obtain ⟨rfl, -⟩ := Prod.mk.inj (Option.some.inj h)
          exact htype

theorem register_sent_initial :
    (Client.sendMessageToAgent net host pad .Register [] []).sent <+:
      Bot.AgentTransport.helloMessage.frame (pad 0) ++ registerMessage.frame (pad 1) := by
  rcases register_sent hsock pad with ⟨hsent, -⟩ | hsent
  · rw [hsent]
    exact (List.take_prefix _ _).trans (List.prefix_append _ _)
  · rw [hsent]
    exact List.take_prefix _ _

end

/-! ## A registration -/

/-- One call for a server that is in the store, against one connection of its agent. What either
side receives before a stall is the beginning of what the other side has sent. -/
structure Registration where
  rt : Runtime
  env : Nat → Answers
  net : Network
  pad : Nat → Padding
  agentPad : Nat → Padding
  now : Int64
  label : Bytes
  servers : Table ServerRow
  id : Int64
  row : ServerRow
  found : getServerId label servers = some id
  stored : getServerById id servers = some row
  sock : Socket
  connected : net (extractHost row.host.bytes) 7070 = some sock
  toAgent : List Arrival
  toAgent_flowing : Flowing toAgent
  toAgent_prefix : available toAgent <+:
    (Client.sendMessageToAgent net (Client.serverHost label row) pad .Register [] []).sent
  fromAgent_flowing : Flowing sock.arrivals
  fromAgent_prefix :
    available sock.arrivals <+: packetBytes agentPad (rt.handleClient env toAgent)

namespace Registration

variable (r : Registration)

def session : Session (Option Bytes) :=
  Client.sendMessageToAgent r.net (Client.serverHost r.label r.row) r.pad .Register [] []

def call : Bool × Table ServerRow := Client.registerAgent r.net r.pad r.now r.label r.servers

/-- What the agent says of itself. -/
def response : Bytes :=
  buildRegistrationResponse r.rt (r.env 0).systemInfo (r.env 0).dockerAvailable

/-- Everything that is sent goes through, and no receive times out before. -/
structure Delivered : Prop where
  room : (Bot.AgentTransport.helloMessage.frame (r.pad 0)).length +
    (registerMessage.frame (r.pad 1)).length ≤ r.sock.writable
  toAgent : Splits r.toAgent r.session.sent
  fromAgent : Splits r.sock.arrivals (packetBytes r.agentPad (r.rt.handleClient r.env r.toAgent))

theorem host_connected :
    r.net (extractHost (Client.serverHost r.label r.row).address)
      (Client.serverHost r.label r.row).agentPort = some r.sock := r.connected

variable {r}

theorem call_eq : r.call =
    match r.session.result with
    | none => (false, updateServerStatus r.id (bytes "offline") r.servers)
    | some response => (true, Client.parseAndStoreRegistration r.now r.id response r.servers) := by
  rw [call, Client.registerAgent, r.found]
  simp only [r.stored]
  rfl

/-- Whatever part of the answer arrives, a call that succeeds has what the agent said. -/
theorem result_sound (hlen : r.response.length < 2 ^ 32) {text : Bytes}
    (h : r.session.result = some text) : r.rt.opts.authToken = [] ∧ text = r.response := by
  obtain ⟨-, ack, s, hack, htype, -, reply, s', hreply, -, rfl⟩ :=
    (register_result_iff r.host_connected).1 h
  have hpre := r.fromAgent_prefix
  rcases handleClient_register r.toAgent_flowing
      (r.toAgent_prefix.trans (register_sent_initial r.host_connected)) with
    hactions | hactions | ⟨htoken, hactions | hactions⟩
  · rw [hactions] at hpre
    rw [readFrame_of_available_nil r.fromAgent_flowing (List.prefix_nil.1 hpre)] at hack
    cases hack
  · rw [hactions] at hpre
    obtain ⟨rfl, -⟩ := readFrame_of_prefix r.fromAgent_flowing hpre (by decide) hack
    exact absurd htype (by decide)
  · rw [hactions] at hpre
    obtain ⟨-, -, hrest, hflow⟩ := readFrame_of_prefix r.fromAgent_flowing hpre (by decide) hack
    rw [readFrame_of_available_nil hflow (List.prefix_nil.1 hrest)] at hreply
    cases hreply
  · rw [hactions] at hpre
    obtain ⟨-, -, hrest, hflow⟩ := readFrame_of_prefix r.fromAgent_flowing hpre (by decide) hack
    obtain ⟨rfl, -⟩ := readFrame_of_prefix hflow hrest hlen hreply
    exact ⟨htoken, rfl⟩

/-- Once everything arrives, an agent without a token is registered if its answer is within the
limit of the reader. -/
theorem result_of_delivered (hdel : r.Delivered) (htoken : r.rt.opts.authToken = [])
    (hlen : r.response.length ≤ 16 * 1024 * 1024) : r.session.result = some r.response := by
  have hroom := hdel.room
  have hhello := Message.length_frame Bot.AgentTransport.helloMessage (r.pad 0)
  have hrequest := Message.length_frame registerMessage (r.pad 1)
  have hsplit := hdel.toAgent
  obtain ⟨hflow, hstall, havail⟩ := hdel.fromAgent
  have hack : helloAck.payload.length ≤ maxPayloadSize.toNat := by decide
  rcases register_sent r.host_connected r.pad with
    ⟨hsent, hno⟩ | hsent
  · rw [session, hsent, List.take_of_length_le (by omega), ← List.append_nil (Message.frame _ _)]
      at hsplit
    obtain ⟨s, hs, hactions⟩ := handleClient_of_hello htoken r.env hsplit
    rw [available_eq_nil hs] at hactions
    rw [hactions] at havail
    obtain ⟨s', hread, -⟩ := readFrame_of_frame hflow havail hack
    rcases hno with hzero | hno
    · omega
    · exact absurd rfl (hno _ _ hread)
  · have hwhole : (Bot.AgentTransport.helloMessage.frame (r.pad 0) ++
        registerMessage.frame (r.pad 1)).length ≤ r.sock.writable := by
      rw [List.length_append]
      exact hroom
    rw [session, hsent, List.take_of_length_le hwhole] at hsplit
    obtain ⟨s, hs, hactions⟩ := handleClient_of_hello htoken r.env hsplit
    rw [messages_register hs] at hactions
    rw [hactions] at havail
    obtain ⟨s₁, hread, havail₁, hflow₁, hstall₁⟩ := readFrame_of_frame hflow havail hack
    obtain ⟨s₂, hread₂, -⟩ := readFrame_of_frame hflow₁ havail₁
      (show (registerAck r.rt (r.env 0)).payload.length ≤ maxPayloadSize.toNat from hlen)
    refine (register_result_iff r.host_connected).2
      ⟨by omega, _, s₁, hread, rfl, ?_, _, s₂, hread₂,
        (show MessageType.RegisterAck ≠ .Error by decide), rfl⟩
    have hpos : 0 < (registerMessage.frame (r.pad 1)).length := by omega
    omega

theorem length_le_of_result (hlen : r.response.length < 2 ^ 32) {text : Bytes}
    (h : r.session.result = some text) : r.response.length ≤ 16 * 1024 * 1024 := by
  obtain ⟨-, htext⟩ := result_sound hlen h
  obtain ⟨-, ack, s, hack, -, -, reply, s', hreply, -, hpayload⟩ :=
    (register_result_iff r.host_connected).1 h
  obtain ⟨-, -, -, -, -, -, hflow⟩ := readFrame_some r.fromAgent_flowing hack
  obtain ⟨-, -, -, -, hle, -⟩ := readFrame_some hflow hreply
  rw [← htext, ← hpayload]
  exact hle

/-! ### What is stored -/

theorem getServerById_call (id : Int64) (hne : id ≠ r.id) :
    getServerById id r.call.2 = getServerById id r.servers := by
  have hid : id.toInt ≠ r.id.toInt := fun h => hne (Int64.toInt_inj.1 h)
  rw [call_eq]
  cases r.session.result with
  | none => exact Table.get?_updateRow_of_ne hid _
  | some response => exact Table.get?_updateRow_of_ne hid _

/-- The row of a server whose agent was registered. -/
def registered (r : Registration) : ServerRow :=
  { r.row with
    agentVersion := some (.ofCStr (bytes "0.1.0"))
    agentStatus := some (.ofCStr (bytes "online"))
    capabilities := some (.ofCStr (openBracket ::
      (announced r.rt (r.env 0).systemInfo (r.env 0).dockerAvailable ++ [closeBracket])))
    lastHeartbeat := some r.now.toInt }

end Registration

/-! ### A laboratory -/

def labRow : ServerRow := ⟨.ofCStr (bytes "lab"), .ofCStr (bytes "dev@lab"), none, none, none, none⟩

def labRuntime : Runtime := Runtime.create ⟨bytes "lab", true, []⟩

def labAnswers : Answers :=
  { idleHost with
    systemInfo := ⟨bytes "lab", bytes "Linux", bytes "x86_64", bytes "27.1", bytes "2.29"⟩
    dockerAvailable := true }

def labToAgent : List Arrival :=
  [.data (Bot.AgentTransport.helloMessage.frame ⟨0, 0, 0⟩ ++ registerMessage.frame ⟨0, 0, 0⟩)]

/-- A socket that takes everything and brings the whole answer in one piece. -/
def labSocket : Socket :=
  ⟨1000, [.data (packetBytes (fun _ => ⟨0, 0, 0⟩)
    [.sent helloAck, .sent (registerAck labRuntime labAnswers)])]⟩

def labRegistration : Registration where
  rt := labRuntime
  env := fun _ => labAnswers
  net := fun _ _ => some labSocket
  pad := fun _ => ⟨0, 0, 0⟩
  agentPad := fun _ => ⟨0, 0, 0⟩
  now := 1700000000
  label := bytes "lab"
  servers := Table.empty.insertRow labRow
  id := 1
  row := labRow
  found := by decide
  stored := by decide
  sock := labSocket
  connected := rfl
  toAgent := labToAgent
  toAgent_flowing := (Splits.single (by decide)).1
  toAgent_prefix := by decide +kernel
  fromAgent_flowing := (Splits.single (by decide +kernel)).1
  fromAgent_prefix := by decide +kernel

end Nazg.Docker
