import Nazg.Lib.Stream

/-!
# The agent protocol

A frame is the memory image of a `Header`, eight bytes of which three are padding,
followed by the payload. The size field is the payload's length cast to 32 bits; the
writer checks nothing, the readers refuse more than 16 MB.

Three readers accumulate: the agent's own, the one inside `execute_script` and the one
inside the docker monitoring client. The fourth, in `AgentTransport::hello`, receives
once and decodes what came.
-/

namespace Nazg.Agent

open Lib

/-- `enum class MessageType : std::uint8_t`; a byte off the wire need not be one of the
enumerators. -/
structure MessageType where
  code : UInt8
  deriving DecidableEq

namespace MessageType

def Hello : MessageType := ⟨1⟩
def HelloAck : MessageType := ⟨2⟩
def RunCommand : MessageType := ⟨3⟩
def CommandAck : MessageType := ⟨4⟩
def Heartbeat : MessageType := ⟨5⟩
def Log : MessageType := ⟨6⟩
def Result : MessageType := ⟨7⟩
def Register : MessageType := ⟨10⟩
def RegisterAck : MessageType := ⟨11⟩
def DockerFullScan : MessageType := ⟨20⟩
def DockerEvent : MessageType := ⟨21⟩
def DockerIncrementalUpdate : MessageType := ⟨22⟩
def DockerCommand : MessageType := ⟨30⟩
def DockerCommandResult : MessageType := ⟨31⟩
def Error : MessageType := ⟨255⟩

end MessageType

/-- The three bytes between the type and the size; nobody sets them. -/
structure Padding where
  p₀ : UInt8
  p₁ : UInt8
  p₂ : UInt8
  deriving DecidableEq

structure Header where
  type : MessageType
  padding : Padding
  payloadSize : UInt32
  deriving DecidableEq

/-- What the readers return: the type of the header and the payload. -/
structure Message where
  type : MessageType
  payload : Bytes
  deriving DecidableEq

abbrev headerSize : Nat := 8

/-- The memory image of a header. -/
def Header.bytes (h : Header) : Bytes :=
  [h.type.code, h.padding.p₀, h.padding.p₁, h.padding.p₂] ++ le32 h.payloadSize

/-- A header from its memory image. -/
def Header.ofBytes : Bytes → Header
  | [t, p₀, p₁, p₂, a, b, c, d] => ⟨⟨t⟩, ⟨p₀, p₁, p₂⟩, ofLe32 a b c d⟩
  | _ => ⟨.Error, ⟨0, 0, 0⟩, 0⟩

@[simp] theorem Header.length_bytes (h : Header) : h.bytes.length = headerSize := rfl

@[simp] theorem Header.ofBytes_bytes (h : Header) : Header.ofBytes h.bytes = h := by
  show Header.mk _ _ (ofLe32 _ _ _ _) = h
  rw [ofLe32_le32]

def encode (header : Header) (payload : Bytes) : Bytes :=
  let header := { header with payloadSize := UInt32.ofNat payload.length }
  header.bytes ++ payload

def decode (buffer : Bytes) : Option Message :=
  if buffer.length < headerSize then none
  else
    let header := Header.ofBytes (buffer.take headerSize)
    if buffer.length < headerSize + header.payloadSize.toNat then none
    else some ⟨header.type, (buffer.drop headerSize).take header.payloadSize.toNat⟩

/-- A message as its sender writes it: `encode(Header{type, 0}, payload)`. -/
def Message.frame (m : Message) (padding : Padding) : Bytes :=
  encode ⟨m.type, padding, 0⟩ m.payload

theorem Message.frame_eq (m : Message) (padding : Padding) :
    m.frame padding =
      Header.bytes ⟨m.type, padding, UInt32.ofNat m.payload.length⟩ ++ m.payload := rfl

theorem Message.length_frame (m : Message) (padding : Padding) :
    (m.frame padding).length = 8 + m.payload.length := by
  rw [Message.frame_eq, List.length_append, Header.length_bytes]

/-! ## The readers -/

/-- Read a header, refuse a size over the limit, read the payload. -/
def readFrame (limit : UInt32) (s : List Arrival) : Option (Message × List Arrival) :=
  match readExact headerSize s with
  | none => none
  | some (headerBytes, s) =>
      let header := Header.ofBytes headerBytes
      if header.payloadSize = 0 then some (⟨header.type, []⟩, s)
      else if header.payloadSize > limit then none
      else
        match readExact header.payloadSize.toNat s with
        | none => none
        | some (payload, s) => some (⟨header.type, payload⟩, s)

/-- `MAX_PAYLOAD_SIZE`. -/
def maxPayloadSize : UInt32 := 16 * 1024 * 1024

/-- `Runtime::read_message`. -/
def Runtime.readMessage : List Arrival → Option (Message × List Arrival) :=
  readFrame maxPayloadSize

/-- The messages a reader yields until it fails. Each takes its header from the stream,
which bounds their number. -/
def readMessages (read : List Arrival → Option (Message × List Arrival)) :
    Nat → List Arrival → List Message
  | 0, _ => []
  | fuel + 1, s =>
      match read s with
      | none => []
      | some (m, s) => m :: readMessages read fuel s

def messages (read : List Arrival → Option (Message × List Arrival)) (s : List Arrival) :
    List Message :=
  readMessages read (available s).length s

end Nazg.Agent
