import Nazg.Agent.Protocol
import Nazg.Lib.Decimal
import Nazg.Lib.OrdMap
import Nazg.Lib.Stdio

/-!
# The transports of a bot

`AgentTransport` speaks the agent protocol over a socket. The network decides whether a
connection comes about, how many bytes the socket takes before a send fails, and what
arrives and when; a call is a function of that. `SSHTransport::execute_script` pipes the
script into a remote `bash`.
-/

namespace Nazg.Bot

open Lib Agent

structure HostConfig where
  id : Int64
  label : Bytes
  address : Bytes
  sshKey : Bytes
  sshPort : Int
  agentPort : Int
  services : List Bytes
  extraConfig : OrdMap Bytes Bytes

/-! ## Sockets -/

/-- A connected socket: how many bytes its sends will take before one fails, and what
its receives will meet. -/
structure Socket where
  writable : Nat
  arrivals : List Arrival

/-- The network's answer to a lookup and connect. -/
abbrev Network := Bytes → Int → Option Socket

/-- What a call handed to the socket, and what it returned. -/
structure Session (α : Type) where
  sent : Bytes
  result : α

/-- A loop of sends until the packet is through or one fails. -/
def sendAll (packet : Bytes) (w : Nat) : Bytes × Option Nat :=
  (packet.take w, if packet.length ≤ w then some (w - packet.length) else none)

/-- One send whose count nobody looks at. -/
def sendOnce (packet : Bytes) (w : Nat) : Bytes × Option Nat :=
  (packet.take w, if w = 0 then none else some (w - packet.length))

/-- The address after the first `@`. -/
def extractHost (address : Bytes) : Bytes :=
  match find (bytes "@") address with
  | none => address
  | some at' => address.drop (at' + 1)

/-! ## The agent transport -/

namespace AgentTransport

def connectSocket (net : Network) (host : HostConfig) : Option Socket :=
  net (extractHost host.address) host.agentPort

/-- The hello every controller of the repository sends. -/
def helloMessage : Message := ⟨.Hello, bytes "nazg-controller"⟩

/-- The ack reader of `hello`: one receive, then `decode` of what it brought. -/
def readAck (s : List Arrival) : Option (Message × List Arrival) :=
  match recv (headerSize + 256) s with
  | none => none
  | some (buffer, s) => (decode buffer).map fun ack => (ack, s)

def hello (net : Network) (host : HostConfig) (pad : Nat → Padding) : Session Bool :=
  match connectSocket net host with
  | none => ⟨[], false⟩
  | some sock =>
      match sendOnce (helloMessage.frame (pad 0)) sock.writable with
      | (out, none) => ⟨out, false⟩
      | (out, some _) =>
          ⟨out, match readAck sock.arrivals with
            | none => false
            | some (ack, _) => ack.type = .HelloAck⟩

/-- `read_message` inside `execute_script`. -/
def readMessage : List Arrival → Option (Message × List Arrival) :=
  readFrame (16 * 1024 * 1024)

/-- The exit code and the output that `execute_script` stores. -/
structure ScriptResult where
  exitCode : Int
  stdoutOutput : Bytes
  deriving DecidableEq

/-- What is made of the reply: the number up to the first line break and the text after
it. -/
def parseResult (m : Message) : Option ScriptResult :=
  if m.type ≠ .Result then none
  else
    match find [newline] m.payload with
    | none => none
    | some nl =>
        (stoi (m.payload.take nl)).map fun code => ⟨code, m.payload.drop (nl + 1)⟩

def readResult (s : List Arrival) : Option ScriptResult :=
  match readMessage s with
  | none => none
  | some (reply, _) => parseResult reply

/-- `none` is the result `false`. -/
def executeScript (net : Network) (host : HostConfig) (pad : Nat → Padding) (script : Bytes) :
    Session (Option ScriptResult) :=
  match connectSocket net host with
  | none => ⟨[], none⟩
  | some sock =>
      match sendAll (helloMessage.frame (pad 0)) sock.writable with
      | (out, none) => ⟨out, none⟩
      | (out, some w) =>
          match readMessage sock.arrivals with
          | none => ⟨out, none⟩
          | some (ack, s) =>
              if ack.type ≠ .HelloAck then ⟨out, none⟩
              else
                match sendAll (Message.frame ⟨.RunCommand, script⟩ (pad 1)) w with
                | (out', none) => ⟨out ++ out', none⟩
                | (out', some _) => ⟨out ++ out', readResult s⟩

/-- How a call can go: no connection; a hello that does not get through; no
acknowledgement; or the script goes out, and the result is read if all of it did. -/
theorem executeScript_cases (net : Network) (host : HostConfig) (pad : Nat → Padding)
    (script : Bytes) :
    (connectSocket net host = none ∧ executeScript net host pad script = ⟨[], none⟩) ∨
      ∃ sock, connectSocket net host = some sock ∧
        ((executeScript net host pad script =
            ⟨(helloMessage.frame (pad 0)).take sock.writable, none⟩ ∧
            (sock.writable < (helloMessage.frame (pad 0)).length ∨
              ∀ ack s, readMessage sock.arrivals = some (ack, s) → ack.type ≠ .HelloAck)) ∨
          ∃ ack s w, readMessage sock.arrivals = some (ack, s) ∧ ack.type = .HelloAck ∧
            sock.writable = (helloMessage.frame (pad 0)).length + w ∧
            executeScript net host pad script =
              ⟨helloMessage.frame (pad 0) ++ (Message.frame ⟨.RunCommand, script⟩ (pad 1)).take w,
                if (Message.frame ⟨.RunCommand, script⟩ (pad 1)).length ≤ w then readResult s
                else none⟩) := by
  rw [executeScript]
  cases hconn : connectSocket net host with
  | none => exact Or.inl ⟨rfl, rfl⟩
  | some sock =>
      refine Or.inr ⟨sock, rfl, ?_⟩
      by_cases hroom : (helloMessage.frame (pad 0)).length ≤ sock.writable
      · simp only [sendAll, if_pos hroom]
        cases hread : readMessage sock.arrivals with
        | none => exact Or.inl ⟨rfl, Or.inr fun _ _ h => nomatch h⟩
        | some r =>
            obtain ⟨ack, s⟩ := r
            by_cases hack : ack.type = .HelloAck
            · refine Or.inr ⟨ack, s, sock.writable - (helloMessage.frame (pad 0)).length, rfl, hack,
                by omega, ?_⟩
              simp only [ne_eq, hack, not_true_eq_false, if_false, List.take_of_length_le hroom]
              by_cases hrun : (Message.frame ⟨.RunCommand, script⟩ (pad 1)).length ≤
                  sock.writable - (helloMessage.frame (pad 0)).length
              · simp only [if_pos hrun]
              · simp only [if_neg hrun]
            · refine Or.inl ⟨by simp only [ne_eq, hack, not_false_eq_true, if_true], Or.inr ?_⟩
              rintro _ _ h
              cases h
              exact hack
      · exact Or.inl ⟨by simp only [sendAll, if_neg hroom], Or.inl (by omega)⟩

end AgentTransport

end Nazg.Bot

/-!
## Requests of the docker monitoring client

`Client::send_message_to_agent`: connect, hello, request, response. It has a reader and
two sends of its own; a response without payload leaves the caller's string as it was.
-/

namespace Nazg.Docker

open Lib Agent Nazg.Bot

namespace Client

/-- The two read blocks; `response` is what the string held before. -/
def readMessage (response : Bytes) (s : List Arrival) : Option (Message × List Arrival) :=
  (readFrame (16 * 1024 * 1024) s).map fun r =>
    (if r.1.payload = [] then { r.1 with payload := response } else r.1, r.2)

/-- `none` is the result `false`; the response it then leaves behind is not looked at. -/
def sendMessageToAgent (net : Network) (host : HostConfig) (pad : Nat → Padding)
    (messageType : MessageType) (payload response : Bytes) : Session (Option Bytes) :=
  match net (extractHost host.address) host.agentPort with
  | none => ⟨[], none⟩
  | some sock =>
      match sendOnce (AgentTransport.helloMessage.frame (pad 0)) sock.writable with
      | (out, none) => ⟨out, none⟩
      | (out, some w) =>
          match readMessage [] sock.arrivals with
          | none => ⟨out, none⟩
          | some (ack, s) =>
              if ack.type ≠ .HelloAck then ⟨out, none⟩
              else
                match sendOnce (Message.frame ⟨messageType, payload⟩ (pad 1)) w with
                | (out', none) => ⟨out ++ out', none⟩
                | (out', some _) =>
                    ⟨out ++ out',
                      match readMessage response s with
                      | none => none
                      | some (reply, _) => if reply.type = .Error then none else some reply.payload⟩

end Client

end Nazg.Docker
