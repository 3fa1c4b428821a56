import Nazg.Agent.Runtime
import Nazg.Bot.Transport
import Nazg.Proofs.Framing

/-!
# Authentication of controllers

An agent with a token runs scripts and scans only on connections that opened with a
hello carrying that token. No controller of the repository sends one: the three of them
open with the same fixed hello, and the host configuration they read has no place for a
token that any of them looks at. So the token keeps everybody out.
-/

namespace Nazg.Agent

open Lib Nazg.Bot

/-! ## Safety -/

/-- The actions a peer must not cause without the token. -/
def Action.acts : Action → Prop
  | .sent _ => False
  | .ranScript _ => True
  | .scanned => True

/-- The hello an agent with this token waits for. -/
def tokenHello (token : Bytes) : Message := ⟨.Hello, expectedPrefix ++ token⟩

/-- Scripts run and scans happen only on connections whose first message is the hello
with the token. -/
def Safe (rt : Runtime) : Prop :=
  ∀ (env : Nat → Answers) (s : List Arrival) (a : Action),
    a ∈ rt.handleClient env s → a.acts →
      ∃ s', Runtime.readMessage s = some (tokenHello rt.opts.authToken, s')

/-- The check accepts the prefix followed by the token and nothing else. -/
theorem authenticates_iff {opts : Options} (htoken : opts.authToken ≠ []) {payload : Bytes} :
    authenticates opts payload = true ↔ payload = expectedPrefix ++ opts.authToken := by
  rw [authenticates]
  constructor
  · intro h
    split at h
    · cases h
    · rw [Bool.and_eq_true, decide_eq_true_eq, decide_eq_true_eq] at h
      rw [← List.take_append_drop expectedPrefix.length payload, h.1, h.2]
  · rintro rfl
    have hpos : 0 < opts.authToken.length := List.length_pos_iff.2 htoken
    rw [if_neg (by rw [List.length_append]; omega), List.take_left' rfl, List.drop_left' rfl,
      decide_eq_true rfl, decide_eq_true rfl]
    rfl

/-- An agent with a token goes on only after the hello that carries it. -/
theorem checkHello_eq_true {rt : Runtime} (htoken : rt.opts.authToken ≠ []) {m : Message}
    (h : (rt.checkHello m).1 = true) : m = tokenHello rt.opts.authToken := by
  rw [Runtime.checkHello] at h
  split at h
  · cases h
  · next htype =>
      split at h
      · cases h
      · next hauth =>
          rw [not_and, not_not] at hauth
          have hpayload := (authenticates_iff htoken).1 (hauth htoken)
          obtain ⟨type, payload⟩ := m
          rw [not_not] at htype
          rw [tokenHello, ← hpayload, ← htype]

/-- Before it goes on, the handler only sends. -/
theorem not_acts_of_mem_checkHello {rt : Runtime} {m : Message} {a : Action}
    (h : a ∈ (rt.checkHello m).2) : ¬ a.acts := by
  rw [Runtime.checkHello] at h
  split at h
  · exact absurd h List.not_mem_nil
  · split at h <;> · rw [List.mem_singleton] at h; exact h ▸ id

theorem handleClient_safe {rt : Runtime} (htoken : rt.opts.authToken ≠ []) : Safe rt := by
  intro env s a ha hacts
  rw [Runtime.handleClient] at ha
  cases hread : Runtime.readMessage s with
  | none =>
      rw [hread] at ha
      exact absurd ha List.not_mem_nil
  | some r =>
      obtain ⟨m, s'⟩ := r
      simp only [hread] at ha
      cases hcheck : rt.checkHello m with
      | mk goesOn actions =>
          cases goesOn with
          | false =>
              simp only [hcheck] at ha
              exact absurd hacts (not_acts_of_mem_checkHello (by rw [hcheck]; exact ha))
          | true => exact ⟨s', by rw [← checkHello_eq_true htoken (by rw [hcheck])]⟩

/-! ## Agreement -/

/-- The calls by which the repository talks to an agent. -/
inductive Controller where
  | hello
  | executeScript (script : Bytes)
  | sendMessageToAgent (messageType : MessageType) (payload response : Bytes)

/-- The bytes a call hands to its socket. -/
def Controller.sent (net : Network) (host : HostConfig) (pad : Nat → Padding) :
    Controller → Bytes
  | hello => (AgentTransport.hello net host pad).sent
  | executeScript script => (AgentTransport.executeScript net host pad script).sent
  | sendMessageToAgent messageType payload response =>
      (Docker.Client.sendMessageToAgent net host pad messageType payload response).sent

/-- The operator has put the token where a host configuration has room for one. -/
def Configured (host : HostConfig) (token : Bytes) : Prop :=
  ∃ key, host.extraConfig.find? key = some token

/-- The network connects the host, and its socket takes the whole hello. -/
def Reaches (net : Network) (host : HostConfig) (pad : Nat → Padding) : Prop :=
  ∃ sock, AgentTransport.connectSocket net host = some sock ∧
    (AgentTransport.helloMessage.frame (pad 0)).length ≤ sock.writable

/-- Every controller configured with the agent's token is acknowledged, however its
bytes arrive. -/
def Agrees (rt : Runtime) : Prop :=
  ∀ (c : Controller) (net : Network) (host : HostConfig) (pad : Nat → Padding)
    (env : Nat → Answers) (s : List Arrival),
    Configured host rt.opts.authToken → Reaches net host pad →
    Flowing s → available s = c.sent net host pad →
      (rt.handleClient env s).head? = some (.sent helloAck)

/-- Every controller opens with the same hello. -/
theorem Controller.sent_eq_hello {net : Network} {host : HostConfig} {pad : Nat → Padding}
    (hreach : Reaches net host pad) (c : Controller) :
    ∃ rest, c.sent net host pad = AgentTransport.helloMessage.frame (pad 0) ++ rest := by
  obtain ⟨sock, hsock, hroom⟩ := hreach
  have hfull : (AgentTransport.helloMessage.frame (pad 0)).take sock.writable =
      AgentTransport.helloMessage.frame (pad 0) := List.take_of_length_le hroom
  have hopen : sock.writable ≠ 0 := by
    rw [Message.length_frame] at hroom
    omega
  cases c with
  | hello =>
      simp only [Controller.sent, AgentTransport.hello, hsock, sendOnce, if_neg hopen, hfull]
      exact ⟨[], (List.append_nil _).symm⟩
  | executeScript script =>
      simp only [Controller.sent, AgentTransport.executeScript, hsock, sendAll, if_pos hroom, hfull]
      split
      · exact ⟨[], (List.append_nil _).symm⟩
      · split
        · exact ⟨[], (List.append_nil _).symm⟩
        · split <;> exact ⟨_, rfl⟩
  | sendMessageToAgent messageType payload response =>
      rw [AgentTransport.connectSocket] at hsock
      simp only [Controller.sent, Docker.Client.sendMessageToAgent, hsock, sendOnce, if_neg hopen,
        hfull]
      split
      · exact ⟨[], (List.append_nil _).symm⟩
      · split
        · exact ⟨[], (List.append_nil _).symm⟩
        · split <;> exact ⟨_, rfl⟩

/-- The fixed hello does not pass the check of an agent that has a token. -/
theorem checkHello_helloMessage {rt : Runtime} (htoken : rt.opts.authToken ≠ []) :
    rt.checkHello AgentTransport.helloMessage = (false, [.sent authenticationFailed]) := by
  have hshort : authenticates rt.opts AgentTransport.helloMessage.payload = false :=
    if_pos (by decide)
  rw [Runtime.checkHello, if_neg (by decide),
    if_pos ⟨htoken, by rw [hshort]; exact Bool.false_ne_true⟩]

/-- Whoever calls, the agent refuses and hangs up. -/
theorem handleClient_refuses {rt : Runtime} (htoken : rt.opts.authToken ≠ []) {net : Network}
    {host : HostConfig} {pad : Nat → Padding} (hreach : Reaches net host pad) (c : Controller)
    (env : Nat → Answers) {s : List Arrival} (hs : Flowing s)
    (havail : available s = c.sent net host pad) :
    rt.handleClient env s = [.sent authenticationFailed] := by
  obtain ⟨rest, hrest⟩ := c.sent_eq_hello hreach
  obtain ⟨s', hread, -, -, -⟩ :=
    readFrame_of_frame hs (havail.trans hrest)
      (show AgentTransport.helloMessage.payload.length ≤ maxPayloadSize.toNat by decide)
  rw [Runtime.handleClient, show Runtime.readMessage s = _ from hread]
  simp only [checkHello_helloMessage htoken]

/-- A host whose extra configuration holds the token. -/
def hostWithToken (token : Bytes) : HostConfig :=
  ⟨1, bytes "lab", bytes "dev@lab", [], 22, 7070, [],
    OrdMap.empty.insert (bytes "auth_token") token⟩

theorem hostWithToken_configured (token : Bytes) : Configured (hostWithToken token) token :=
  ⟨bytes "auth_token", by rw [hostWithToken, OrdMap.find?_insert, if_pos rfl]⟩

/-- A network whose every socket takes a thousand bytes and brings none. -/
def silentNetwork : Network := fun _ _ => some ⟨1000, []⟩

theorem silentNetwork_reaches (host : HostConfig) (pad : Nat → Padding) :
    Reaches silentNetwork host pad :=
  ⟨⟨1000, []⟩, rfl, by rw [Message.length_frame]; decide⟩

/-- A host that answers nothing of interest. -/
def idleHost : Answers :=
  ⟨fun _ => .ran [] (.exited 0), 0, ⟨[], [], [], [], []⟩, ⟨[], [], [], [], []⟩, false⟩

/-- The hello of `AgentTransport::hello` as it leaves for a silent network. -/
def helloArrivals (token : Bytes) : List Arrival :=
  [.data (Controller.hello.sent silentNetwork (hostWithToken token) fun _ => ⟨0, 0, 0⟩)]

theorem helloArrivals_splits (token : Bytes) :
    Splits (helloArrivals token)
      (Controller.hello.sent silentNetwork (hostWithToken token) fun _ => ⟨0, 0, 0⟩) := by
  refine Splits.single fun hnil => ?_
  obtain ⟨rest, hrest⟩ :=
    Controller.sent_eq_hello (silentNetwork_reaches (hostWithToken token) _) Controller.hello
  rw [hnil] at hrest
  exact absurd (List.append_eq_nil_iff.1 hrest.symm).1 (by decide)

/-- For every token, an agent that has it acts only behind the hello that carries it,
and never acknowledges a controller of the repository, whatever its configuration. -/
theorem authentication_safe_never_agrees (opts : Options) (htoken : opts.authToken ≠ []) :
    Safe (Runtime.create opts) ∧ ¬ Agrees (Runtime.create opts) ∧
      ∀ (c : Controller) (net : Network) (host : HostConfig) (pad : Nat → Padding)
        (env : Nat → Answers) (s : List Arrival),
        Reaches net host pad → Flowing s → available s = c.sent net host pad →
          (Runtime.create opts).handleClient env s = [.sent authenticationFailed] := by
  have hrefuse : ∀ (c : Controller) (net : Network) (host : HostConfig) (pad : Nat → Padding)
      (env : Nat → Answers) (s : List Arrival), Reaches net host pad → Flowing s →
        available s = c.sent net host pad →
          (Runtime.create opts).handleClient env s = [.sent authenticationFailed] :=
    fun c _ _ _ env _ hreach hs havail => handleClient_refuses htoken hreach c env hs havail
  refine ⟨handleClient_safe htoken, fun hagree => ?_, hrefuse⟩
  have hsplit := helloArrivals_splits opts.authToken
  have hreach := silentNetwork_reaches (hostWithToken opts.authToken) fun _ => ⟨0, 0, 0⟩
  have hack := hagree .hello _ _ _ (fun _ => idleHost) _
    (hostWithToken_configured opts.authToken) hreach hsplit.1 hsplit.2.2
  rw [hrefuse .hello _ _ _ _ _ hreach hsplit.1 hsplit.2.2, List.head?_cons, Option.some_inj,
    Action.sent.injEq] at hack
  exact absurd hack (by decide)

def secretOptions : Options := ⟨bytes "lab", true, bytes "secret"⟩

theorem authentication_safe_never_agrees_secret :
    Safe (Runtime.create secretOptions) ∧ ¬ Agrees (Runtime.create secretOptions) :=
  have h := authentication_safe_never_agrees secretOptions (by decide)
  ⟨h.1, h.2.1⟩

/-- With the same token on both sides, the hello arrives whole and the agent refuses it. -/
theorem secret_hello_refused :
    Configured (hostWithToken (bytes "secret")) secretOptions.authToken ∧
      Reaches silentNetwork (hostWithToken (bytes "secret")) (fun _ => ⟨0, 0, 0⟩) ∧
      Splits (helloArrivals (bytes "secret"))
        (Controller.hello.sent silentNetwork (hostWithToken (bytes "secret")) fun _ => ⟨0, 0, 0⟩) ∧
      (Runtime.create secretOptions).handleClient (fun _ => idleHost)
        (helloArrivals (bytes "secret")) = [.sent authenticationFailed] :=
  ⟨hostWithToken_configured _, silentNetwork_reaches _ _, helloArrivals_splits _, rfl⟩

end Nazg.Agent
