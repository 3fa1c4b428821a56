import Nazg.Agent.Runtime
import Nazg.Bot.Transport
import Nazg.Proofs.AgentAuth

/-!
# The result of a script

One call of `execute_script` against one connection of the agent. Each side is shown a
part of what the other has sent, in whatever pieces: that is all the network promises.
When the agent ran the script, its reply is the exit code, a line break and the output
as the pipe loop collected it. The controller returns what was run if the output had
no zero byte in it; it returns at all, when everything arrives, exactly if the reply is
within the limit of its reader.
-/

namespace Nazg.Bot

open Lib Agent

/-! ## The text of a reply -/

theorem exitCode_bounds (status : WaitStatus) :
    -2 ^ 31 ≤ status.exitCode ∧ status.exitCode ≤ 2 ^ 31 - 1 := by
  cases status with
  | exited code =>
      have := code.toNat_lt
      simp only [WaitStatus.exitCode]
      omega
  | signaled signal =>
      simp only [WaitStatus.exitCode]
      omega

theorem decimal_exitCode_length_le (status : WaitStatus) :
    (decimal status.exitCode).length ≤ 4 := by
  cases status with
  | exited code =>
      exact forall_byte (p := fun code => (decimal (WaitStatus.exited code).exitCode).length ≤ 4)
        (by decide +kernel) code
  | signaled signal => exact show (decimal (-1)).length ≤ 4 by decide

theorem newline_notMem_decimal (n : Int) : newline ∉ decimal n := fun h =>
  absurd (lt_of_mem_decimal h) (by decide)

/-- The split at the first line break finds the exit code again. -/
theorem parseResult_resultBody {code : Int} (hlo : -2 ^ 31 ≤ code) (hhi : code ≤ 2 ^ 31 - 1)
    (output : Bytes) :
    AgentTransport.parseResult ⟨.Result, resultBody (code, output)⟩ = some ⟨code, output⟩ := by
  have hbody : resultBody (code, output) = decimal code ++ ([newline] ++ output) := by
    rw [resultBody, List.append_assoc]
    rfl
  have hfind : find [newline] (resultBody (code, output)) = some (decimal code).length := by
    rw [hbody]
    exact find_region (NoMatch.of_head_notMem _ (newline_notMem_decimal code))
  have hdrop : (resultBody (code, output)).drop ((decimal code).length + 1) = output := by
    rw [hbody, ← List.append_assoc, List.drop_left' (by rw [List.length_append]; rfl)]
  rw [AgentTransport.parseResult, if_neg (fun h => h rfl)]
  simp only [hfind, hdrop]
  rw [hbody, List.take_left' rfl, stoi_decimal hlo hhi]
  rfl

/-- What is stored as output is part of the reply. -/
theorem parseResult_length_le {m : Message} {r : AgentTransport.ScriptResult}
    (h : AgentTransport.parseResult m = some r) : r.stdoutOutput.length ≤ m.payload.length := by
  rw [AgentTransport.parseResult] at h
  split at h
  · cases h
  · split at h
    · cases h
    · obtain ⟨code, -, rfl⟩ := Option.map_eq_some_iff.1 h
      rw [List.length_drop]
      exact Nat.sub_le _ _

/-! ## An exchange -/

/-- One call against one connection. What either side receives before a stall is the
beginning of what the other side has sent. -/
structure Exchange where
  rt : Runtime
  env : Nat → Answers
  net : Network
  host : HostConfig
  script : Bytes
  pad : Nat → Padding
  agentPad : Nat → Padding
  sock : Socket
  connected : AgentTransport.connectSocket net host = some sock
  toAgent : List Arrival
  toAgent_flowing : Flowing toAgent
  toAgent_prefix :
    available toAgent <+: (AgentTransport.executeScript net host pad script).sent
  fromAgent_flowing : Flowing sock.arrivals
  fromAgent_prefix :
    available sock.arrivals <+: packetBytes agentPad (rt.handleClient env toAgent)

namespace Exchange

def call (ex : Exchange) : Session (Option AgentTransport.ScriptResult) :=
  AgentTransport.executeScript ex.net ex.host ex.pad ex.script

def actions (ex : Exchange) : List Action := ex.rt.handleClient ex.env ex.toAgent

/-- The agent ran the script to its end, with this output and this status. -/
def Ran (ex : Exchange) (output : Bytes) (status : WaitStatus) : Prop :=
  .ranScript ex.script ∈ ex.actions ∧ (ex.env 0).script ex.script = .ran output status

/-- Everything the agent has sent arrives, and no receive times out before. -/
def Delivered (ex : Exchange) : Prop :=
  Splits ex.sock.arrivals (packetBytes ex.agentPad ex.actions)

def runMessage (ex : Exchange) : Message := ⟨.RunCommand, ex.script⟩

end Exchange

/-! ## The agent's side -/

/-- A call hands over the hello and the script, or the beginning of that. -/
theorem executeScript_sent_initial (net : Network) (host : HostConfig) (pad : Nat → Padding)
    (script : Bytes) :
    (AgentTransport.executeScript net host pad script).sent <+:
      AgentTransport.helloMessage.frame (pad 0) ++ Message.frame ⟨.RunCommand, script⟩ (pad 1) := by
  rcases AgentTransport.executeScript_cases net host pad script with
    ⟨-, h⟩ | ⟨sock, -, ⟨h, -⟩ | ⟨ack, s, w, -, -, -, h⟩⟩
  · rw [h]
    exact List.nil_prefix
  · rw [h]
    exact (List.take_prefix _ _).trans (List.prefix_append _ _)
  · rw [h]
    exact (List.prefix_append_right_inj _).2 (List.take_prefix _ _)

theorem ranScript_mem_handleMessage {rt : Runtime} {ans : Answers} {m : Message} {script : Bytes}
    (h : .ranScript script ∈ rt.handleMessage ans m) : m = ⟨.RunCommand, script⟩ := by
  rw [Runtime.handleMessage] at h
  by_cases htype : m.type = .RunCommand
  · obtain ⟨type, payload⟩ := m
    obtain rfl : type = .RunCommand := htype
    rw [if_pos rfl] at h
    simp only [List.mem_cons, Action.ranScript.injEq, reduceCtorEq, List.not_mem_nil,
      or_false] at h
    rw [h]
  · -- no other message type runs anything
    rw [if_neg htype] at h
    split_ifs at h <;> simp at h

theorem ranScript_mem_handleMessages {rt : Runtime} {env : Nat → Answers} {ms : List Message}
    {script : Bytes} (h : .ranScript script ∈ rt.handleMessages env ms) :
    ⟨.RunCommand, script⟩ ∈ ms := by
  induction ms generalizing env with
  | nil => exact absurd h List.not_mem_nil
  | cons m ms ih =>
      rw [Runtime.handleMessages, List.mem_append] at h
      rcases h with h | h
      · rw [← ranScript_mem_handleMessage h]
        exact List.mem_cons_self
      · exact List.mem_cons_of_mem _ (ih h)

/-- On the beginning of a hello and a script, an agent that runs the script has received
both and nothing else, and answers each. -/
theorem handleClient_of_ran {rt : Runtime} {env : Nat → Answers} {t : List Arrival}
    {script : Bytes} {p₀ p₁ : Padding} (hflow : Flowing t)
    (hpre : available t <+: AgentTransport.helloMessage.frame p₀ ++
      Message.frame ⟨.RunCommand, script⟩ p₁)
    (h : .ranScript script ∈ rt.handleClient env t) :
    rt.handleClient env t = [.sent helloAck, .ranScript script,
        .sent ⟨.Result, resultBody (runScript ((env 0).script script))⟩] ∧
      available t = AgentTransport.helloMessage.frame p₀ ++
        Message.frame ⟨.RunCommand, script⟩ p₁ := by
  rw [Runtime.handleClient] at h ⊢
  cases hread : Runtime.readMessage t with
  | none =>
      rw [hread] at h
      exact absurd h List.not_mem_nil
  | some r =>
      obtain ⟨m, s⟩ := r
      obtain ⟨rfl, hstands, hrest, hflow'⟩ := readFrame_of_prefix hflow hpre (by decide) hread
      simp only [hread] at h ⊢
      rcases rt.checkHello_of_hello (m := AgentTransport.helloMessage) rfl with hcheck | hcheck
      · rw [hcheck] at h
        simp at h
      · rw [hcheck] at h ⊢
        rcases List.mem_append.1 h with h | h
        · simp at h
        · have hmem := ranScript_mem_handleMessages h
          have hle := payload_le_of_mem_readMessages hflow' hmem
          have hlen : script.length < 2 ^ 32 := Nat.lt_of_le_of_lt hle (by decide)
          obtain ⟨hms, hall⟩ :=
            messages_of_prefix hflow' hrest hlen (List.ne_nil_of_mem hmem)
          refine ⟨?_, by rw [hstands, hall]⟩
          show [Action.sent helloAck] ++ rt.handleMessages env
            (messages (readFrame maxPayloadSize) s) = _
          rw [hms]
          rfl

theorem Exchange.actions_of_ran {ex : Exchange} (h : .ranScript ex.script ∈ ex.actions) :
    ex.actions = [.sent helloAck, .ranScript ex.script,
        .sent ⟨.Result, resultBody (runScript ((ex.env 0).script ex.script))⟩] ∧
      available ex.toAgent = AgentTransport.helloMessage.frame (ex.pad 0) ++
        ex.runMessage.frame (ex.pad 1) :=
  handleClient_of_ran ex.toAgent_flowing
    (ex.toAgent_prefix.trans (executeScript_sent_initial ex.net ex.host ex.pad ex.script)) h

/-! ## The controller's side -/

/-- The body of the reply to a run. -/
def replyBody (output : Bytes) (status : WaitStatus) : Bytes :=
  resultBody (status.exitCode, output)

theorem length_replyBody (output : Bytes) (status : WaitStatus) :
    (replyBody output status).length = (decimal status.exitCode).length + 1 + output.length := by
  rw [replyBody, resultBody, List.length_append, List.length_append]
  rfl

theorem Exchange.packetBytes_of_ran {ex : Exchange} {output : Bytes} {status : WaitStatus}
    (hran : ex.Ran output status) (h0 : (0 : UInt8) ∉ output) :
    packetBytes ex.agentPad ex.actions = helloAck.frame (ex.agentPad 0) ++
      (Message.frame ⟨.Result, replyBody output status⟩ (ex.agentPad 1) ++ []) := by
  rw [(actions_of_ran hran.1).1, hran.2, runScript, (readPipe_eq_self (by decide)).2 h0]
  rfl

/-- Whatever part of the reply arrives, a result is the one of the script. -/
theorem Exchange.result_sound {ex : Exchange} {output : Bytes} {status : WaitStatus}
    (hran : ex.Ran output status) (h0 : (0 : UInt8) ∉ output)
    (hlen : (replyBody output status).length < 2 ^ 32) {r : AgentTransport.ScriptResult}
    (h : ex.call.result = some r) : r = ⟨status.exitCode, output⟩ := by
  have hpre := ex.fromAgent_prefix
  rw [show ex.rt.handleClient ex.env ex.toAgent = ex.actions from rfl,
    packetBytes_of_ran hran h0] at hpre
  rcases AgentTransport.executeScript_cases ex.net ex.host ex.pad ex.script with
    ⟨hnone, -⟩ | ⟨sock, hsock, ⟨hcall, -⟩ | ⟨ack, s, w, hack, -, -, hcall⟩⟩
  · rw [ex.connected] at hnone
    cases hnone
  · rw [call, hcall] at h
    cases h
  · obtain rfl : ex.sock = sock := Option.some.inj (ex.connected.symm.trans hsock)
    obtain ⟨-, -, hrest, hflow⟩ :=
      readFrame_of_prefix ex.fromAgent_flowing hpre (by decide) hack
    rw [call, hcall] at h
    dsimp only at h
    split at h
    · rw [AgentTransport.readResult] at h
      split at h
      · cases h
      · next reply s' hread =>
          obtain ⟨rfl, -, -, -⟩ := readFrame_of_prefix hflow hrest hlen hread
          obtain ⟨hlo, hhi⟩ := exitCode_bounds status
          rw [replyBody, parseResult_resultBody hlo hhi] at h
          exact (Option.some.inj h).symm
    · cases h

/-- The socket took what the agent has received. -/
theorem Exchange.writable_of_ran {ex : Exchange} (h : .ranScript ex.script ∈ ex.actions) :
    (AgentTransport.helloMessage.frame (ex.pad 0)).length +
      (ex.runMessage.frame (ex.pad 1)).length ≤ ex.sock.writable := by
  have hle := ex.toAgent_prefix.length_le
  rw [(actions_of_ran h).2, List.length_append] at hle
  refine hle.trans ?_
  rcases AgentTransport.executeScript_cases ex.net ex.host ex.pad ex.script with
    ⟨hnone, -⟩ | ⟨sock, hsock, ⟨hcall, -⟩ | ⟨ack, s, w, -, -, hw, hcall⟩⟩
  · rw [ex.connected] at hnone
    cases hnone
  · obtain rfl : ex.sock = sock := Option.some.inj (ex.connected.symm.trans hsock)
    rw [hcall]
    exact List.length_take_le _ _
  · obtain rfl : ex.sock = sock := Option.some.inj (ex.connected.symm.trans hsock)
    rw [hcall, hw, List.length_append]
    exact Nat.add_le_add_left (List.length_take_le _ _) _

/-- Once everything has arrived, the call comes down to what its reader makes of the
reply. -/
theorem Exchange.result_of_delivered {ex : Exchange} {output : Bytes} {status : WaitStatus}
    (hran : ex.Ran output status) (h0 : (0 : UInt8) ∉ output) (hdel : ex.Delivered) :
    ∃ s, Splits s (Message.frame ⟨.Result, replyBody output status⟩ (ex.agentPad 1)) ∧
      ex.call.result = AgentTransport.readResult s := by
  obtain ⟨hflow, hstall, havail⟩ := hdel
  rw [packetBytes_of_ran hran h0, List.append_nil] at havail
  obtain ⟨s₁, hread, havail₁, hflow₁, hstall₁⟩ := readFrame_of_frame hflow havail
    (show helloAck.payload.length ≤ (16 * 1024 * 1024 : UInt32).toNat by decide)
  refine ⟨s₁, ⟨hflow₁, hstall₁ hstall, havail₁⟩, ?_⟩
  have hroom := writable_of_ran hran.1
  rcases AgentTransport.executeScript_cases ex.net ex.host ex.pad ex.script with
    ⟨hnone, -⟩ | ⟨sock, hsock, ⟨-, hfail⟩ | ⟨ack, s, w, hack, -, hw, hcall⟩⟩
  · rw [ex.connected] at hnone
    cases hnone
  · obtain rfl : ex.sock = sock := Option.some.inj (ex.connected.symm.trans hsock)
    rcases hfail with hshort | hack
    · omega
    · exact absurd rfl (hack _ _ hread)
  · obtain rfl : ex.sock = sock := Option.some.inj (ex.connected.symm.trans hsock)
    rw [AgentTransport.readMessage, hread] at hack
    cases hack
    rw [call, hcall]
    exact if_pos (by rw [runMessage] at hroom; omega)

/-- Once everything has arrived, the result is there exactly if the reply is within the
limit of the reader. -/
theorem Exchange.result_iff {ex : Exchange} {output : Bytes} {status : WaitStatus}
    (hran : ex.Ran output status) (h0 : (0 : UInt8) ∉ output) (hdel : ex.Delivered) :
    ex.call.result = some ⟨status.exitCode, output⟩ ↔
      (replyBody output status).length ≤ 16 * 1024 * 1024 := by
  obtain ⟨s, ⟨hflow, -, havail⟩, hcall⟩ := result_of_delivered hran h0 hdel
  obtain ⟨hlo, hhi⟩ := exitCode_bounds status
  rw [hcall, AgentTransport.readResult]
  constructor
  · intro h
    cases hread : AgentTransport.readMessage s with
    | none =>
        rw [hread] at h
        cases h
    | some r =>
        obtain ⟨reply, s'⟩ := r
        rw [hread] at h
        obtain ⟨-, -, -, -, hle, -, -⟩ := readFrame_some hflow hread
        have hout : output.length ≤ reply.payload.length := parseResult_length_le h
        by_cases hlen : (replyBody output status).length < 2 ^ 32
        · rw [← List.append_nil (Message.frame _ _)] at havail
          obtain ⟨rfl, -, -, -⟩ :=
            readFrame_of_prefix hflow ⟨[], by rw [havail, List.append_nil]⟩ hlen hread
          exact hle
        · -- a body that wraps around comes back shorter than the output it holds
          have hcode := decimal_exitCode_length_le status
          have hlim : (16 * 1024 * 1024 : UInt32).toNat = 16 * 1024 * 1024 := rfl
          rw [length_replyBody] at hlen
          omega
  · intro hlen
    rw [← List.append_nil (Message.frame _ _)] at havail
    obtain ⟨s', hread, -, -, -⟩ := readFrame_of_frame hflow havail
      (show (replyBody output status).length ≤ (16 * 1024 * 1024 : UInt32).toNat from hlen)
    rw [AgentTransport.readMessage, hread]
    exact parseResult_resultBody hlo hhi output

def wholeReply (output : Bytes) (status : WaitStatus) : Message :=
  ⟨.Result, resultBody (runScript (.ran output status))⟩

/-- A socket that takes everything and brings the whole reply in one piece. -/
def wholeSocket (output : Bytes) (status : WaitStatus) : Socket :=
  ⟨1000, [.data (packetBytes (fun _ => ⟨0, 0, 0⟩)
    [.sent helloAck, .sent (wholeReply output status)])]⟩

theorem wholeSocket_splits (output : Bytes) (status : WaitStatus) :
    Splits (wholeSocket output status).arrivals
      (packetBytes (fun _ => ⟨0, 0, 0⟩) [.sent helloAck, .sent (wholeReply output status)]) :=
  Splits.single fun h => absurd (List.append_eq_nil_iff.1 h).1 (by decide)

def labHost : HostConfig :=
  ⟨1, bytes "lab", bytes "dev@lab", [], 22, 7070, [], OrdMap.empty⟩

def wholeArrivals : List Arrival :=
  [.data (AgentTransport.helloMessage.frame ⟨0, 0, 0⟩ ++
    Message.frame ⟨.RunCommand, bytes "true"⟩ ⟨0, 0, 0⟩)]

theorem wholeSocket_sent (output : Bytes) (status : WaitStatus) :
    available wholeArrivals <+: (AgentTransport.executeScript
      (fun _ _ => some (wholeSocket output status)) labHost (fun _ => ⟨0, 0, 0⟩)
      (bytes "true")).sent := by
  obtain ⟨hflow, -, havail⟩ := wholeSocket_splits output status
  obtain ⟨s, hread, -, -, -⟩ := readFrame_of_frame hflow havail
    (show helloAck.payload.length ≤ (16 * 1024 * 1024 : UInt32).toNat by decide)
  rcases AgentTransport.executeScript_cases (fun _ _ => some (wholeSocket output status)) labHost
      (fun _ => ⟨0, 0, 0⟩) (bytes "true") with
    ⟨hnone, -⟩ | ⟨sock, hsock, ⟨-, hfail⟩ | ⟨ack, s, w, -, -, hw, hcall⟩⟩
  · cases hnone
  · cases hsock
    rcases hfail with hshort | hack
    · exact absurd (show 1000 < 23 from hshort) (by decide)
    · exact absurd rfl (hack _ _ hread)
  · cases hsock
    rw [hcall, List.take_of_length_le]
    · exact ⟨[], rfl⟩
    · have hleft : 1000 = 23 + w := hw
      show 12 ≤ w
      omega

def outcomeHost (output : Bytes) (status : WaitStatus) : Answers :=
  { idleHost with script := fun _ => .ran output status }

theorem wholeArrivals_actions (output : Bytes) (status : WaitStatus) :
    (Runtime.create ⟨[], false, []⟩).handleClient (fun _ => outcomeHost output status)
      wholeArrivals =
    [.sent helloAck, .ranScript (bytes "true"), .sent (wholeReply output status)] := rfl

/-- An agent without a token runs `true` with this outcome, and nothing is lost. -/
def wholeExchange (output : Bytes) (status : WaitStatus) : Exchange where
  rt := Runtime.create ⟨[], false, []⟩
  env := fun _ => outcomeHost output status
  net := fun _ _ => some (wholeSocket output status)
  host := labHost
  script := bytes "true"
  pad := fun _ => ⟨0, 0, 0⟩
  agentPad := fun _ => ⟨0, 0, 0⟩
  sock := wholeSocket output status
  connected := rfl
  toAgent := wholeArrivals
  toAgent_flowing := (Splits.single (by decide)).1
  toAgent_prefix := wholeSocket_sent output status
  fromAgent_flowing := (wholeSocket_splits output status).1
  fromAgent_prefix := by
    rw [(wholeSocket_splits output status).2.2, wholeArrivals_actions]
    exact List.prefix_rfl

theorem wholeExchange_ran (output : Bytes) (status : WaitStatus) :
    (wholeExchange output status).Ran output status := by
  refine ⟨?_, rfl⟩
  rw [Exchange.actions, wholeExchange, wholeArrivals_actions]
  exact List.mem_cons_of_mem _ List.mem_cons_self

theorem wholeExchange_delivered (output : Bytes) (status : WaitStatus) :
    (wholeExchange output status).Delivered := by
  rw [Exchange.Delivered, Exchange.actions, wholeExchange, wholeArrivals_actions]
  exact wholeSocket_splits output status

/-- Output of 16 MB. -/
def longOutput : Bytes := List.replicate (16 * 1024 * 1024) 97

end Nazg.Bot
