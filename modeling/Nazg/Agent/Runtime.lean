import Nazg.Agent.Protocol
import Nazg.Agent.Scanner
import Nazg.Lib.Stdio

/-!
# The agent's connection handler

`Runtime::handle_client` reads the bytes of one connection and acts on the messages it
finds in them. What the host answers while it does so, the outcome of a script or the
lists of a scan, is given by an environment, one set of answers for each message.
-/

namespace Nazg.Agent

open Lib

/-- The options the handler reads. -/
structure Options where
  serverLabel : Bytes
  enableDockerMonitoring : Bool
  authToken : Bytes

/-- `scanner` says whether the runtime holds a scanner. -/
structure Runtime where
  opts : Options
  scanner : Bool

/-- The constructor makes the scanner when monitoring is enabled. -/
def Runtime.create (opts : Options) : Runtime := ⟨opts, opts.enableDockerMonitoring⟩

/-! ## Running a script -/

/-- What becomes of the script file and of `bash`: an early return with the text of
`errno`, or a run with the bytes it wrote to both streams and its wait status. -/
inductive ScriptRun where
  | mkstempFailed (error : Bytes)
  | writeFailed (error : Bytes)
  | popenFailed (error : Bytes)
  | ran (output : Bytes) (status : WaitStatus)

def runScript : ScriptRun → Int × Bytes
  | .mkstempFailed error => (-1, bytes "mkstemp failed: " ++ error)
  | .writeFailed error => (-1, bytes "write failed: " ++ error)
  | .popenFailed error => (-1, bytes "popen failed: " ++ error)
  | .ran output status => (status.exitCode, readPipe 4096 output)

/-! ## Registration -/

structure SystemInfo where
  hostname : Bytes
  os : Bytes
  arch : Bytes
  dockerVersion : Bytes
  composeVersion : Bytes

def capabilities (info : SystemInfo) (dockerAvailable : Bool) : Bytes :=
  (if dockerAvailable then bytes "\"docker\"" else []) ++
    (if info.composeVersion = [] then []
     else (if dockerAvailable then bytes ", " else []) ++ bytes "\"compose\"")

def buildRegistrationResponse (rt : Runtime) (info : SystemInfo) (dockerAvailable : Bool) : Bytes :=
  openBrace :: (bytes "\n  \"server_label\": \"" ++ rt.opts.serverLabel ++ bytes "\",\n" ++
    bytes "  \"agent_version\": \"0.1.0\",\n" ++
    (if rt.scanner then
      bytes "  \"hostname\": \"" ++ info.hostname ++ bytes "\",\n" ++
      bytes "  \"system_info\": " ++ [openBrace] ++ bytes "\n" ++
      bytes "    \"os\": \"" ++ info.os ++ bytes "\",\n" ++
      bytes "    \"arch\": \"" ++ info.arch ++ bytes "\",\n" ++
      bytes "    \"docker_version\": \"" ++ info.dockerVersion ++ bytes "\",\n" ++
      bytes "    \"compose_version\": \"" ++ info.composeVersion ++ bytes "\"\n" ++
      bytes "  " ++ [closeBrace] ++ bytes ",\n" ++
      bytes "  \"capabilities\": [" ++ capabilities info dockerAvailable ++ bytes "]\n"
    else
      bytes "  \"hostname\": \"unknown\",\n" ++
      bytes "  \"capabilities\": []\n") ++
    [closeBrace] ++ bytes "\n")

/-! ## One connection -/

/-- What the host answers while a message is handled. -/
structure Answers where
  script : Bytes → ScriptRun
  scanTime : Int
  scan : Scan
  systemInfo : SystemInfo
  dockerAvailable : Bool

/-- What the handler does that can be seen from outside: the packets it sends, the
scripts it runs and the scans it performs. -/
inductive Action where
  | sent (m : Message)
  | ranScript (script : Bytes)
  | scanned
  deriving DecidableEq

/-- The body of a `Result`. -/
def resultBody (r : Int × Bytes) : Bytes := decimal r.1 ++ bytes "\n" ++ r.2

def helloAck : Message := ⟨.HelloAck, bytes "nazg-agent/0.1"⟩

/-- The `switch` of the loop. -/
def Runtime.handleMessage (rt : Runtime) (ans : Answers) (m : Message) : List Action :=
  if m.type = .RunCommand then
    [.ranScript m.payload, .sent ⟨.Result, resultBody (runScript (ans.script m.payload))⟩]
  else if m.type = .DockerFullScan then
    if rt.scanner && rt.opts.enableDockerMonitoring then
      [.scanned,
        .sent ⟨.DockerFullScan, generateFullScanJson ans.scanTime rt.opts.serverLabel ans.scan⟩]
    else [.sent ⟨.Error, bytes "Docker monitoring not enabled"⟩]
  else if m.type = .Register then
    [.sent ⟨.RegisterAck, buildRegistrationResponse rt ans.systemInfo ans.dockerAvailable⟩]
  else if m.type = .Heartbeat then [.sent ⟨.Heartbeat, bytes "ok"⟩]
  else if m.type = .Hello then [.sent helloAck]
  else [.sent ⟨.Error, bytes "unsupported message"⟩]

/-- The loop over the messages after the hello, the environment answering each. -/
def Runtime.handleMessages (rt : Runtime) : (Nat → Answers) → List Message → List Action
  | _, [] => []
  | env, m :: ms => rt.handleMessage (env 0) m ++ rt.handleMessages (fun i => env (i + 1)) ms

def expectedPrefix : Bytes := bytes "nazg-controller:"

/-- The check of a hello payload: longer than the prefix, the prefix, the token. -/
def authenticates (opts : Options) (payload : Bytes) : Bool :=
  if payload.length ≤ expectedPrefix.length then false
  else payload.take expectedPrefix.length = expectedPrefix &&
    payload.drop expectedPrefix.length = opts.authToken

def authenticationFailed : Message := ⟨.Error, bytes "authentication failed"⟩

/-- What the first message leads to: whether the handler goes on, and the packet it sends. -/
def Runtime.checkHello (rt : Runtime) (m : Message) : Bool × List Action :=
  if m.type ≠ .Hello then (false, [])
  else if rt.opts.authToken ≠ [] ∧ ¬ authenticates rt.opts m.payload then
    (false, [.sent authenticationFailed])
  else (true, [.sent helloAck])

theorem Runtime.checkHello_of_hello (rt : Runtime) {m : Message} (h : m.type = .Hello) :
    rt.checkHello m = (false, [.sent authenticationFailed]) ∨
      rt.checkHello m = (true, [.sent helloAck]) := by
  rw [Runtime.checkHello, if_neg (fun hne => hne h)]
  split
  · exact Or.inl rfl
  · exact Or.inr rfl

/-- `Runtime::handle_client`. -/
def Runtime.handleClient (rt : Runtime) (env : Nat → Answers) (s : List Arrival) : List Action :=
  match Runtime.readMessage s with
  | none => []
  | some (m, s) =>
      match rt.checkHello m with
      | (false, actions) => actions
      | (true, actions) =>
          actions ++ rt.handleMessages env (messages Runtime.readMessage s)

/-- The bytes of the packets among the actions, each framed with its own padding. -/
def packetBytes (pad : Nat → Padding) : List Action → Bytes
  | [] => []
  | .sent m :: actions => m.frame (pad 0) ++ packetBytes (fun i => pad (i + 1)) actions
  | .ranScript _ :: actions => packetBytes pad actions
  | .scanned :: actions => packetBytes pad actions

end Nazg.Agent
