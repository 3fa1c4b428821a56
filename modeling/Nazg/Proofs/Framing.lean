import Nazg.Agent.Runtime
import Nazg.Bot.Transport

/-!
# Frames on a stream

What the readers make of a stream that carries frames. A reader that accumulates does
not see the pieces: it returns the first frame and stands before the next one, as long
as the payload is within its limit, and a longer payload it never returns. So over a
whole connection the messages come out as they went in exactly when none of them is too
long. The reader of `hello` receives once, so it is shown the frame only when the first
piece holds all of it.
-/

namespace Nazg.Agent

open Lib Nazg.Bot

/-! ## One frame -/

/-- A reader takes a whole frame off the stream, however the stream is cut. -/
theorem readFrame_of_frame {limit : UInt32} {m : Message} {padding : Padding} {rest : Bytes}
    {s : List Arrival} (hs : Flowing s) (havail : available s = m.frame padding ++ rest)
    (hlen : m.payload.length ≤ limit.toNat) :
    ∃ s', readFrame limit s = some (m, s') ∧ available s' = rest ∧ Flowing s' ∧
      (.stall ∉ s → .stall ∉ s') := by
  have hsize : (UInt32.ofNat m.payload.length).toNat = m.payload.length := by
    rw [UInt32.toNat_ofNat']
    exact Nat.mod_eq_of_lt (Nat.lt_of_le_of_lt hlen limit.toNat_lt)
  have hhead : 8 ≤ (available s).length := by
    rw [havail, List.length_append, Message.length_frame]
    omega
  obtain ⟨s₁, hread, havail₁, hflow₁, hstall₁⟩ := readExact_of_le hs hhead
  rw [havail, Message.frame_eq, List.append_assoc] at hread havail₁
  rw [List.take_left' (Header.length_bytes _)] at hread
  rw [List.drop_left' (Header.length_bytes _)] at havail₁
  simp only [readFrame, hread, Header.ofBytes_bytes]
  by_cases h0 : UInt32.ofNat m.payload.length = 0
  · have hnil : m.payload = [] := by
      rw [h0] at hsize
      exact List.length_eq_zero_iff.1 hsize.symm
    rw [hnil, List.nil_append] at havail₁
    refine ⟨s₁, ?_, havail₁, hflow₁, hstall₁⟩
    rw [if_pos h0, ← hnil]
  · have hlim : ¬ UInt32.ofNat m.payload.length > limit := by
      rw [gt_iff_lt, UInt32.not_lt, UInt32.le_iff_toNat_le, hsize]
      exact hlen
    have hbody : m.payload.length ≤ (available s₁).length := by
      rw [havail₁, List.length_append]
      omega
    obtain ⟨s₂, hread₂, havail₂, hflow₂, hstall₂⟩ := readExact_of_le hflow₁ hbody
    rw [havail₁, List.take_left' rfl] at hread₂
    rw [havail₁, List.drop_left' rfl] at havail₂
    refine ⟨s₂, ?_, havail₂, hflow₂, hstall₂ ∘ hstall₁⟩
    rw [if_neg h0, if_neg hlim, hsize, hread₂]

/-- What a reader returned stood on the stream behind a header of its type and size. -/
theorem readFrame_some {limit : UInt32} {m : Message} {s s' : List Arrival} (hs : Flowing s)
    (h : readFrame limit s = some (m, s')) :
    ∃ header : Bytes, header.length = headerSize ∧ m.type = (Header.ofBytes header).type ∧
      m.payload.length = (Header.ofBytes header).payloadSize.toNat ∧
      m.payload.length ≤ limit.toNat ∧
      available s = header ++ (m.payload ++ available s') ∧ Flowing s' := by
  unfold readFrame at h
  split at h
  · cases h
  · next header s₁ hread =>
      obtain ⟨hlen, havail, hflow, -⟩ := readExact_some hs hread
      dsimp only at h
      split at h
      · next h0 =>
          cases h
          refine ⟨header, hlen, rfl, ?_, Nat.zero_le _, havail, hflow⟩
          rw [h0]
          rfl
      · split at h
        · cases h
        · next hlim =>
            split at h
            · cases h
            · next payload s₂ hread₂ =>
                cases h
                obtain ⟨hlen₂, havail₂, hflow₂, -⟩ := readExact_some hflow hread₂
                refine ⟨header, hlen, rfl, hlen₂, ?_, by rw [havail, havail₂], hflow₂⟩
                rw [hlen₂]
                exact UInt32.le_iff_toNat_le.1 (UInt32.not_lt.1 hlim)

theorem prefix_of_append_prefix {a b x y : Bytes} (hlen : a.length = b.length)
    (h : a ++ x <+: b ++ y) : a = b ∧ x <+: y := by
  obtain ⟨t, ht⟩ := h
  rw [List.append_assoc] at ht
  obtain ⟨hab, hxy⟩ := List.append_inj ht hlen
  exact ⟨hab, t, hxy⟩

/-- On a stream that is cut off somewhere, a reader returns the first frame or nothing. -/
theorem readFrame_of_prefix {limit : UInt32} {m m' : Message} {padding : Padding} {rest : Bytes}
    {s s' : List Arrival} (hs : Flowing s) (havail : available s <+: m.frame padding ++ rest)
    (hlen : m.payload.length < 2 ^ 32) (h : readFrame limit s = some (m', s')) :
    m' = m ∧ available s = m.frame padding ++ available s' ∧ available s' <+: rest ∧
      Flowing s' := by
  obtain ⟨header, hheader, htype, hsize, -, hstands, hflow⟩ := readFrame_some hs h
  rw [hstands, Message.frame_eq, List.append_assoc] at havail
  obtain ⟨rfl, hbody⟩ := prefix_of_append_prefix (hheader.trans (Header.length_bytes _).symm) havail
  rw [Header.ofBytes_bytes] at htype hsize
  rw [UInt32.toNat_ofNat', Nat.mod_eq_of_lt hlen] at hsize
  obtain ⟨hpayload, hrest⟩ := prefix_of_append_prefix hsize hbody
  have hm : m' = m := by
    obtain ⟨type, payload⟩ := m'
    obtain rfl : type = m.type := htype
    obtain rfl : payload = m.payload := hpayload
    rfl
  subst hm
  exact ⟨rfl, by rw [hstands, Message.frame_eq, List.append_assoc], hrest, hflow⟩

/-- Nothing is read where nothing is left. -/
theorem readFrame_of_available_nil {limit : UInt32} {s : List Arrival} (hs : Flowing s)
    (h : available s = []) : readFrame limit s = none := by
  rw [readFrame, readExact_of_lt hs (by rw [h]; decide)]

/-- A message that was read stays read when more arrives. -/
theorem readFrame_append {limit : UInt32} {m : Message} {s s' : List Arrival} (t : List Arrival)
    (h : readFrame limit s = some (m, s')) : readFrame limit (s ++ t) = some (m, s' ++ t) := by
  rw [readFrame] at h ⊢
  split at h
  · cases h
  · next header s₁ hread =>
      rw [readExact_append t hread]
      dsimp only at h ⊢
      split at h
      · next h0 =>
          cases h
          rw [if_pos h0]
      · next h0 =>
          rw [if_neg h0]
          split at h
          · cases h
          · next hlim =>
              rw [if_neg hlim]
              split at h
              · cases h
              · next payload s₂ hread₂ =>
                  cases h
                  rw [readExact_append t hread₂]

/-! ## A connection -/

/-- The bytes of a sequence of messages, each framed with some padding. -/
def wire (frames : List (Padding × Message)) : Bytes := frames.flatMap fun f => f.2.frame f.1

theorem length_le_wire (frames : List (Padding × Message)) :
    frames.length ≤ (wire frames).length := by
  induction frames with
  | nil => exact Nat.le_refl _
  | cons f frames ih =>
      rw [wire, List.flatMap_cons, List.length_append, Message.length_frame, List.length_cons]
      rw [wire] at ih
      omega

/-- A reader stays within its limit over a whole connection. -/
theorem payload_le_of_mem_readMessages {limit : UInt32} {fuel : Nat} {s : List Arrival} {m : Message}
    (hs : Flowing s) (h : m ∈ readMessages (readFrame limit) fuel s) :
    m.payload.length ≤ limit.toNat := by
  induction fuel generalizing s with
  | zero => exact absurd h List.not_mem_nil
  | succ fuel ih =>
      rw [readMessages] at h
      split at h
      · exact absurd h List.not_mem_nil
      · next m' s' hread =>
          obtain ⟨-, -, -, -, hle, -, hflow⟩ := readFrame_some hs hread
          rcases List.mem_cons.1 h with rfl | h
          · exact hle
          · exact ih hflow h

/-- Frames within the limit are read one after the other to the end of the stream. -/
theorem readMessages_wire {limit : UInt32} {frames : List (Padding × Message)} {fuel : Nat}
    {s : List Arrival} (hs : Splits s (wire frames)) (hfuel : frames.length ≤ fuel)
    (hlim : ∀ f ∈ frames, f.2.payload.length ≤ limit.toNat) :
    readMessages (readFrame limit) fuel s = frames.map Prod.snd := by
  induction frames generalizing fuel s with
  | nil =>
      rw [available_eq_nil hs]
      cases fuel <;> rfl
  | cons f frames ih =>
      obtain ⟨hflow, hstall, havail⟩ := hs
      obtain ⟨fuel, rfl⟩ : ∃ n, fuel = n + 1 :=
        ⟨fuel - 1, by rw [List.length_cons] at hfuel; omega⟩
      obtain ⟨s', hread, havail', hflow', hstall'⟩ :=
        readFrame_of_frame hflow havail (hlim f List.mem_cons_self)
      simp only [readMessages, hread, List.map_cons]
      rw [ih ⟨hflow', hstall' hstall, havail'⟩ (by rw [List.length_cons] at hfuel; omega)
        fun g hg => hlim g (List.mem_cons_of_mem _ hg)]

/-- The messages of a connection come out as they went in exactly when each is within
the limit. -/
theorem messages_wire_iff {limit : UInt32} {frames : List (Padding × Message)} {s : List Arrival}
    (hs : Splits s (wire frames)) :
    messages (readFrame limit) s = frames.map Prod.snd ↔
      ∀ f ∈ frames, f.2.payload.length ≤ limit.toNat := by
  constructor
  · intro h f hf
    have hmem : f.2 ∈ messages (readFrame limit) s := h ▸ List.mem_map_of_mem hf
    exact payload_le_of_mem_readMessages hs.1 hmem
  · exact readMessages_wire hs (by rw [hs.2.2]; exact length_le_wire frames)

/-- On the beginning of one frame, a reader that returns anything returns its message. -/
theorem messages_of_prefix {limit : UInt32} {m : Message} {padding : Padding} {s : List Arrival}
    (hs : Flowing s) (havail : available s <+: m.frame padding) (hlen : m.payload.length < 2 ^ 32)
    (hne : messages (readFrame limit) s ≠ []) :
    messages (readFrame limit) s = [m] ∧ available s = m.frame padding := by
  rw [messages] at hne ⊢
  cases hfuel : (available s).length with
  | zero =>
      rw [hfuel] at hne
      exact absurd rfl hne
  | succ fuel =>
      rw [hfuel] at hne
      cases hread : readFrame limit s with
      | none =>
          rw [readMessages, hread] at hne
          exact absurd rfl hne
      | some r =>
          obtain ⟨m', s'⟩ := r
          rw [← List.append_nil (m.frame padding)] at havail
          obtain ⟨rfl, hstands, hrest, hflow⟩ := readFrame_of_prefix hs havail hlen hread
          have hnil : available s' = [] := List.prefix_nil.1 hrest
          rw [hnil, List.append_nil] at hstands
          refine ⟨?_, hstands⟩
          simp only [readMessages, hread]
          cases fuel with
          | zero => rfl
          | succ fuel => simp only [readMessages, readFrame_of_available_nil hflow hnil]

/-! ## The readers of the repository -/

theorem maxPayloadSize_toNat : maxPayloadSize.toNat = 16 * 1024 * 1024 := rfl

/-- The readers that accumulate. -/
inductive StreamReader where
  | runtime
  | executeScript
  | sendMessageToAgent

def StreamReader.read : StreamReader → List Arrival → Option (Message × List Arrival)
  | runtime => Runtime.readMessage
  | executeScript => AgentTransport.readMessage
  | sendMessageToAgent => Docker.Client.readMessage []

theorem client_readMessage_nil : Docker.Client.readMessage [] = readFrame maxPayloadSize := by
  funext s
  rw [Docker.Client.readMessage]
  show (readFrame maxPayloadSize s).map _ = _
  cases readFrame maxPayloadSize s with
  | none => rfl
  | some r =>
      obtain ⟨⟨type, payload⟩, s'⟩ := r
      cases payload <;> rfl

/-- They are one reader under three names. -/
theorem StreamReader.read_eq (r : StreamReader) : r.read = readFrame maxPayloadSize := by
  cases r with
  | runtime => rfl
  | executeScript => rfl
  | sendMessageToAgent => exact client_readMessage_nil

theorem decode_frame (m : Message) (padding : Padding) (rest : Bytes)
    (hlen : m.payload.length < 2 ^ 32) : decode (m.frame padding ++ rest) = some m := by
  have hsize : (UInt32.ofNat m.payload.length).toNat = m.payload.length := by
    rw [UInt32.toNat_ofNat']
    exact Nat.mod_eq_of_lt hlen
  have hbuf : (m.frame padding ++ rest).length = 8 + m.payload.length + rest.length := by
    rw [List.length_append, Message.length_frame]
  rw [decode, if_neg (by rw [hbuf]; show ¬ _ < 8; omega), Message.frame_eq, List.append_assoc,
    List.take_left' (Header.length_bytes _), List.drop_left' (Header.length_bytes _),
    Header.ofBytes_bytes]
  simp only [hsize]
  rw [if_neg, List.take_left' rfl]
  rw [← List.append_assoc, ← Message.frame_eq, hbuf]
  show ¬ _ < 8 + _
  omega

/-- The single receive of `hello` brings the whole frame when the first piece begins
with it and the buffer holds it. -/
theorem readAck_of_frame {m : Message} {padding : Padding} {rest : Bytes} {s : List Arrival}
    (hlen : m.payload.length ≤ 256) :
    ∃ s', AgentTransport.readAck (.data (m.frame padding ++ rest) :: s) = some (m, s') := by
  have hframe := Message.length_frame m padding
  have hne : ¬ (m.frame padding ++ rest = [] ∨ headerSize + 256 = 0) := by
    rintro (h | h)
    · rw [List.append_eq_nil_iff] at h
      rw [h.1, List.length_nil] at hframe
      omega
    · cases h
  rw [AgentTransport.readAck, recv, if_neg hne]
  by_cases hlong : headerSize + 256 < (m.frame padding ++ rest).length
  · have htake : (m.frame padding ++ rest).take (headerSize + 256) =
        m.frame padding ++ rest.take (headerSize + 256 - (m.frame padding).length) := by
      rw [List.take_append, List.take_of_length_le (by rw [hframe]; show _ ≤ 264; omega)]
    rw [if_pos hlong, htake]
    dsimp only
    rw [decode_frame _ _ _ (by omega)]
    exact ⟨_, rfl⟩
  · rw [if_neg hlong]
    dsimp only
    rw [decode_frame _ _ _ (by omega)]
    exact ⟨_, rfl⟩

/-- Framing is faithful for any chunking to every reader that accumulates, as long as no
payload is over 16 MB and only then; the reader of `hello` returns the acknowledgement
whose frame begins its first piece and fits its buffer. -/
theorem framing_faithful :
    (∀ (r : StreamReader) (frames : List (Padding × Message)) (s : List Arrival),
      Splits s (wire frames) →
        (messages r.read s = frames.map Prod.snd ↔
          ∀ f ∈ frames, f.2.payload.length ≤ 16 * 1024 * 1024)) ∧
    ∀ (m : Message) (padding : Padding) (rest : Bytes) (s : List Arrival),
      m.payload.length ≤ 256 →
        ∃ s', AgentTransport.readAck (.data (m.frame padding ++ rest) :: s) = some (m, s') := by
  refine ⟨fun r frames s hs => ?_, fun m padding rest s hlen => readAck_of_frame hlen⟩
  rw [r.read_eq]
  exact messages_wire_iff hs

/-- The acknowledgement in two pieces, the first ending inside the header. -/
def splitAck : List Arrival :=
  [.data ((helloAck.frame ⟨0, 0, 0⟩).take 4), .data ((helloAck.frame ⟨0, 0, 0⟩).drop 4)]

theorem splitAck_splits : Splits splitAck (wire [(⟨0, 0, 0⟩, helloAck)]) := by
  refine ⟨?_, by decide, by decide⟩
  intro chunk hc
  simp only [splitAck, List.mem_cons, Arrival.data.injEq, List.not_mem_nil, or_false] at hc
  rcases hc with rfl | rfl <;> decide

theorem framing_faithful_splitAck :
    messages StreamReader.executeScript.read splitAck = [helloAck] ∧
      ∃ s', AgentTransport.readAck [.data (helloAck.frame ⟨0, 0, 0⟩ ++ [])] = some (helloAck, s') :=
  ⟨(framing_faithful.1 _ _ _ splitAck_splits).2 (by decide), framing_faithful.2 _ _ _ _ (by decide)⟩

/-- One byte over the limit. -/
def oversized : Message := ⟨.Result, List.replicate (16 * 1024 * 1024 + 1) 0⟩

/-- The reader of `hello` loses an acknowledgement that comes in two pieces, and the
agent's reader a payload its sender could encode, in whatever piece it comes. -/
theorem splitAck_lost_oversized_refused :
    (Splits splitAck (wire [(⟨0, 0, 0⟩, helloAck)]) ∧ AgentTransport.readAck splitAck = none) ∧
      Splits [.data (wire [(⟨0, 0, 0⟩, oversized)])] (wire [(⟨0, 0, 0⟩, oversized)]) ∧
      messages Runtime.readMessage [.data (wire [(⟨0, 0, 0⟩, oversized)])] ≠ [oversized] := by
  have hlen : oversized.payload.length = 16 * 1024 * 1024 + 1 := List.length_replicate
  have hne : wire [(⟨0, 0, 0⟩, oversized)] ≠ [] := by
    intro h
    have := length_le_wire [(⟨0, 0, 0⟩, oversized)]
    rw [h] at this
    exact absurd this (by decide)
  have hsplit := Splits.single hne
  refine ⟨⟨splitAck_splits, by decide⟩, hsplit, fun h => ?_⟩
  have hle := (messages_wire_iff hsplit).1 h _ List.mem_cons_self
  rw [hlen, maxPayloadSize_toNat] at hle
  exact absurd hle (by decide)

end Nazg.Agent
