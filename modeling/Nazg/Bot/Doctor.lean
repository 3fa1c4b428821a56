import Nazg.Agent.Runtime
import Nazg.Bot.Transport
import Nazg.Lib.System

/-!
# One call of a doctor bot

`DoctorBot::execute` and `GitDoctorBot::execute` try the agent when the host is marked
for it and turn to SSH whenever the agent's `execute_script` returns `false`. What that
amounts to is seen when the two ends run side by side: a call is a transition system
whose state is what each end has received so far, and everything an end has done is a
function of that.
-/

namespace Nazg.Bot

open Lib Agent

/-! ## The choice of the transport -/

/-- `agent_available`, on which both constructors make the agent transport. -/
def preferAgent (host : HostConfig) : Bool :=
  host.extraConfig.find? (bytes "agent_available") = some (bytes "true")

/-- What the transports leave to the rest of `execute`. -/
structure Execution where
  exitCode : Int
  output : Bytes
  stderrOutput : Bytes
  executedViaAgent : Bool

def DoctorBot.execute (host : HostConfig) (agent : Option AgentTransport.ScriptResult)
    (ssh : AgentTransport.ScriptResult) : Execution :=
  match if preferAgent host then agent else none with
  | some r => ⟨r.exitCode, r.stdoutOutput, [], true⟩
  | none => ⟨ssh.exitCode, ssh.stdoutOutput, [], false⟩

/-- Unlike its sibling it shows what SSH returned as error output too. -/
def GitDoctorBot.execute (host : HostConfig) (agent : Option AgentTransport.ScriptResult)
    (ssh : AgentTransport.ScriptResult) : Execution :=
  match if preferAgent host then agent else none with
  | some r => ⟨r.exitCode, r.stdoutOutput, [], true⟩
  | none => ⟨ssh.exitCode, ssh.stdoutOutput, ssh.stdoutOutput, false⟩

inductive DoctorKind where
  | doctor
  | gitDoctor

def DoctorKind.execute :
    DoctorKind → HostConfig → Option AgentTransport.ScriptResult → AgentTransport.ScriptResult →
      Execution
  | doctor => DoctorBot.execute
  | gitDoctor => GitDoctorBot.execute

/-- Both bots count the agent as having executed the script exactly when its transport
returned a result. -/
theorem DoctorKind.executedViaAgent (k : DoctorKind) (host : HostConfig)
    (agent : Option AgentTransport.ScriptResult) (ssh : AgentTransport.ScriptResult) :
    (k.execute host agent ssh).executedViaAgent = (preferAgent host && agent.isSome) := by
  cases k <;> cases hp : preferAgent host <;> cases agent <;>
    simp [DoctorKind.execute, DoctorBot.execute, GitDoctorBot.execute, hp]

/-! ## The two ends -/

/-- One call: the bot, its host and script, how many bytes the socket takes before a
send fails, and the agent at the other end. -/
structure Call where
  kind : DoctorKind
  host : HostConfig
  script : Bytes
  writable : Nat
  pad : Nat → Padding
  rt : Runtime
  env : Nat → Answers
  agentPad : Nat → Padding

/-- What each end has received so far. `connected` says that the socket exists, `gaveUp`
that the agent path has returned `false`, `viaSsh` that the script was started over SSH. -/
structure CallState where
  connected : Bool
  finished : Bool
  gaveUp : Bool
  viaSsh : Bool
  fromAgent : List Arrival
  toAgent : List Arrival
  deriving DecidableEq

inductive CallEvent where
  /-- The connection comes about. -/
  | connect
  /-- Some of what the controller has sent reaches the agent. -/
  | reachAgent (chunk : Bytes)
  /-- Some of what the agent has sent reaches the controller. -/
  | reachController (chunk : Bytes)
  /-- The agent path returns a result. -/
  | finish
  /-- The agent path returns `false`: there is none, no connection, a send that failed,
  a receive that timed out or met the end, an answer that is none. -/
  | giveUp
  /-- The SSH command starts the script on the host. -/
  | startSsh

namespace Call

/-- `execute_script`, shown these arrivals and then the end. -/
def agentCall (c : Call) (fromAgent : List Arrival) : Session (Option AgentTransport.ScriptResult) :=
  AgentTransport.executeScript (fun _ _ => some ⟨c.writable, fromAgent⟩) c.host c.pad c.script

/-- What the agent has done on what it received. -/
def actions (c : Call) (toAgent : List Arrival) : List Action :=
  c.rt.handleClient c.env toAgent

def helloFrame (c : Call) : Bytes := AgentTransport.helloMessage.frame (c.pad 0)

def runFrame (c : Call) : Bytes := Message.frame ⟨.RunCommand, c.script⟩ (c.pad 1)

def init : CallState := ⟨false, false, false, false, [], []⟩

/-- The controller is inside the agent path. -/
def active (st : CallState) : Bool := !st.finished && !st.gaveUp

/-- Bytes travel in order and may stop anywhere: what reaches an end continues the
beginning of what the other end has sent. The agent's end stays open when the
controller has given up. -/
def step (c : Call) (st : CallState) : CallEvent → Option CallState
  | .connect =>
      if preferAgent c.host && active st && !st.connected then some { st with connected := true }
      else none
  | .reachAgent chunk =>
      if st.connected ∧ chunk ≠ [] ∧
          available st.toAgent ++ chunk <+: (c.agentCall st.fromAgent).sent then
        some { st with toAgent := st.toAgent ++ [.data chunk] }
      else none
  | .reachController chunk =>
      if st.connected ∧ active st ∧ chunk ≠ [] ∧
          available st.fromAgent ++ chunk <+: packetBytes c.agentPad (c.actions st.toAgent) then
        some { st with fromAgent := st.fromAgent ++ [.data chunk] }
      else none
  | .finish =>
      if st.connected ∧ active st ∧
          (c.kind.execute c.host (c.agentCall st.fromAgent).result ⟨0, []⟩).executedViaAgent then
        some { st with finished := true }
      else none
  | .giveUp =>
      if active st ∧ (st.connected →
          ¬ (c.kind.execute c.host (c.agentCall st.fromAgent).result ⟨0, []⟩).executedViaAgent) then
        some { st with gaveUp := true }
      else none
  | .startSsh =>
      if st.gaveUp && !st.viaSsh then some { st with viaSsh := true } else none

def system (c : Call) : System CallState CallEvent := ⟨init, c.step⟩

/-- How often the agent has started the script. -/
def agentStarts (c : Call) (st : CallState) : Nat :=
  (c.actions st.toAgent).count (.ranScript c.script)

def sshStarts (st : CallState) : Nat := if st.viaSsh then 1 else 0

def starts (c : Call) (st : CallState) : Nat := c.agentStarts st + sshStarts st

/-- The controller has handed over the whole `RunCommand`. -/
def handedOver (c : Call) (st : CallState) : Prop :=
  st.connected ∧ (c.agentCall st.fromAgent).sent = c.helloFrame ++ c.runFrame

end Call

end Nazg.Bot
