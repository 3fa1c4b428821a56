import Nazg.Lib.Decimal
import Nazg.Lib.JsonString

/-!
# The scan payload of the agent

What `DockerScanner` knows about a host and the text it sends of it. The lists
come from running docker and walking the file system; the payload is a function
of them, of the label and of the time.

`escape_json` works on `char`, which is signed here: a byte from 0x80 on is
negative, takes the branch of the control bytes, and is written as `\u00xx`.
-/

namespace Nazg.Agent

open Lib

structure ContainerInfo where
  id : Bytes
  name : Bytes
  image : Bytes
  state : Bytes
  status : Bytes
  created : Int64
  serviceName : Bytes
  healthStatus : Bytes
  restartPolicy : Bytes

/-- `servicesJson` is a JSON array of service names. -/
structure ComposeFileInfo where
  path : Bytes
  projectName : Bytes
  servicesJson : Bytes
  fileHash : Bytes

structure DockerImageInfo where
  id : Bytes
  repository : Bytes
  tag : Bytes
  sizeBytes : Int64
  created : Int64

structure DockerNetworkInfo where
  id : Bytes
  name : Bytes
  driver : Bytes
  scope : Bytes

structure DockerVolumeInfo where
  name : Bytes
  driver : Bytes
  mountpoint : Bytes

/-- What one scan lists. -/
structure Scan where
  containers : List ContainerInfo
  composeFiles : List ComposeFileInfo
  images : List DockerImageInfo
  networks : List DockerNetworkInfo
  volumes : List DockerVolumeInfo

/-! ## Escaping -/

/-- One digit of `%x`. -/
def hexDigit (n : UInt8) : UInt8 := if n < 10 then 48 + n else 87 + n

def escapeByte (c : UInt8) : Bytes :=
  if c = quote then [backslash, quote]
  else if c = backslash then [backslash, backslash]
  else if c = 8 then bytes "\\b"
  else if c = 12 then bytes "\\f"
  else if c = 10 then bytes "\\n"
  else if c = 13 then bytes "\\r"
  else if c = 9 then bytes "\\t"
  else if c < 32 ∨ 128 ≤ c then bytes "\\u00" ++ [hexDigit (c / 16), hexDigit (c % 16)]
  else [c]

/-- `DockerScanner::escape_json`. -/
def escapeJson (s : Bytes) : Bytes := s.flatMap escapeByte

/-- A quoted string. -/
def jsonString (s : Bytes) : Bytes := quote :: (escapeJson s ++ [quote])

/-- The array `discover_compose_files` writes of the service names it found. -/
def servicesArray : List Bytes → Bytes
  | [] => bytes "[]"
  | name :: names =>
      openBracket :: (jsonString name ++
        (names.flatMap fun n => bytes "," ++ jsonString n) ++ [closeBracket])

/-! ## The payload -/

/-- What stands after a key. -/
inductive FieldValue where
  | string (s : Bytes)
  | integer (i : Int64)
  | raw (text : Bytes)

def FieldValue.render : FieldValue → Bytes
  | string s => jsonString s
  | integer i => decimal i.toInt
  | raw text => text

/-- One line of an object; the last has no comma. -/
def renderField (last : Bool) (field : Bytes × FieldValue) : Bytes :=
  bytes "      \"" ++ field.1 ++ bytes "\": " ++ field.2.render ++
    (if last then bytes "\n" else bytes ",\n")

def renderFields : List (Bytes × FieldValue) → Bytes
  | [] => []
  | [field] => renderField true field
  | field :: fields => renderField false field ++ renderFields fields

def renderObject (fields : List (Bytes × FieldValue)) : Bytes :=
  bytes "    " ++ openBrace :: (bytes "\n" ++ renderFields fields ++ bytes "    " ++ [closeBrace])

/-- The objects of a section, `",\n"` before each but the first. -/
def renderObjects : List (List (Bytes × FieldValue)) → Bytes
  | [] => []
  | o :: os => renderObject o ++ os.flatMap fun o => bytes ",\n" ++ renderObject o

def renderSection (last : Bool) (name : Bytes) (objects : List (List (Bytes × FieldValue))) :
    Bytes :=
  bytes "  \"" ++ name ++ bytes "\": [\n" ++ renderObjects objects ++ bytes "\n  ]" ++
    (if last then bytes "\n" else bytes ",\n")

def ContainerInfo.fields (c : ContainerInfo) : List (Bytes × FieldValue) :=
  [(bytes "id", .string c.id), (bytes "name", .string c.name), (bytes "image", .string c.image),
    (bytes "state", .string c.state), (bytes "status", .string c.status),
    (bytes "created", .integer c.created), (bytes "service_name", .string c.serviceName),
    (bytes "health_status", .string c.healthStatus),
    (bytes "restart_policy", .string c.restartPolicy)]

def ComposeFileInfo.fields (cf : ComposeFileInfo) : List (Bytes × FieldValue) :=
  [(bytes "path", .string cf.path), (bytes "project_name", .string cf.projectName),
    (bytes "services", .raw cf.servicesJson), (bytes "hash", .string cf.fileHash)]

def DockerImageInfo.fields (img : DockerImageInfo) : List (Bytes × FieldValue) :=
  [(bytes "id", .string img.id), (bytes "repository", .string img.repository),
    (bytes "tag", .string img.tag), (bytes "size_bytes", .integer img.sizeBytes),
    (bytes "created", .integer img.created)]

def DockerNetworkInfo.fields (net : DockerNetworkInfo) : List (Bytes × FieldValue) :=
  [(bytes "id", .string net.id), (bytes "name", .string net.name),
    (bytes "driver", .string net.driver), (bytes "scope", .string net.scope)]

def DockerVolumeInfo.fields (vol : DockerVolumeInfo) : List (Bytes × FieldValue) :=
  [(bytes "name", .string vol.name), (bytes "driver", .string vol.driver),
    (bytes "mountpoint", .string vol.mountpoint)]

/-- The two lines before the sections. -/
def renderHeader (timestamp : Int) (serverLabel : Bytes) : Bytes :=
  openBrace :: (bytes "\n" ++ bytes "  \"server_label\": " ++ jsonString serverLabel ++
    bytes ",\n" ++ bytes "  \"timestamp\": " ++ decimal timestamp ++ bytes ",\n")

/-- `DockerScanner::generate_full_scan_json`. -/
def generateFullScanJson (timestamp : Int) (serverLabel : Bytes) (scan : Scan) : Bytes :=
  renderHeader timestamp serverLabel ++
    renderSection false (bytes "containers") (scan.containers.map (·.fields)) ++
    renderSection false (bytes "compose_files") (scan.composeFiles.map (·.fields)) ++
    renderSection false (bytes "images") (scan.images.map (·.fields)) ++
    renderSection false (bytes "networks") (scan.networks.map (·.fields)) ++
    renderSection true (bytes "volumes") (scan.volumes.map (·.fields)) ++ [closeBrace, 10]

end Nazg.Agent

/-!
## Escaping on the agent's platform

Whether a byte beyond ASCII is a control character to `DockerScanner::escape_json` depends on
the sign of a `char`. The scans are modelled as they are written where it has one.
-/

namespace Nazg.Agent

open Lib Lib.Json

/-- One byte of `escape_json`, for a `char` with a sign or without. -/
def escapeByteOn (signed : Bool) : UInt8 → Bytes :=
  escapeWith signed fun c => bytes "\\u" ++ hex4 c.toUInt32

def escapeJsonOn (signed : Bool) (s : Bytes) : Bytes := s.flatMap (escapeByteOn signed)

theorem escapeJsonOn_signed : escapeJsonOn true = escapeJson := by
  have hbyte : escapeByteOn true = escapeByte := by
    funext c
    exact forall_byte (p := fun c => escapeByteOn true c = escapeByte c) (by decide +kernel) c
  funext s
  rw [escapeJsonOn, hbyte]
  rfl

end Nazg.Agent
