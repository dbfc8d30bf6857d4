import Derphole.Probe.Nonce
import Derphole.Probe.PlainExact
import Derphole.Probe.ReplayMemory
import Derphole.Probe.StripedSound

/-!
# Packets that the sender did not send

Everything that arrives is bytes.  `decodeBlastPacketFullWithAEAD` opens data and parity
packets; the other packets it takes as they come, and neither a Hello nor a Done packet is
opened.  An attacker without the key makes no bytes that open (`Unforged`), so what opens was
sealed by the sender under the same header (`Arrives.sealed`): he can repeat data packets but not
make them.  What he can make are Hellos, which may switch a run to stripes, and Done packets,
which may end it.
-/

namespace Probe

open Lib

/-! ## Decoding -/

/-- `aead.Open`, given the nonce, the sealed payload and the header. -/
abbrev Open := List UInt8 → List UInt8 → List UInt8 → Option (List UInt8)

/-- No receiver has a case for a type that is not listed, nor for a HelloAck. -/
def PacketType.ofCode (b : UInt8) : PacketType :=
  match b.toNat with
  | 1 => .hello
  | 3 => .data
  | 4 => .ack
  | 5 => .done
  | 6 => .stats
  | 7 => .repairRequest
  | 8 => .repairComplete
  | 9 => .parity
  | _ => .helloAck

theorem PacketType.ofCode_code (t : PacketType) : PacketType.ofCode t.code = t := by
  cases t <;> rfl

/-- What the header of a packet says. -/
def decodeHeader (header payload : List UInt8) : Packet where
  type := PacketType.ofCode (header.getD 1 0)
  stripeID := ofBigEndian ((header.drop 2).take 2)
  seq := ofBigEndian ((header.drop 20).take 8)
  offset := ofBigEndian ((header.drop 28).take 8)
  ackFloor := ofBigEndian ((header.drop 36).take 8)
  ackMask := ofBigEndian ((header.drop 44).take 8)
  payload := payload

/-- The run id and the packet. -/
def decodeBlastPacketFullWithAEAD (packetAEAD : Option Open) (buf : List UInt8) :
    Option (List UInt8 × Packet) :=
  let header := buf.take headerLen
  let runID := (header.drop 4).take 16
  let plain := decodeHeader header (buf.drop headerLen)
  if buf.length < headerLen ∨ header.head? ≠ some protocolVersion then none
  else
    match packetAEAD with
    | none => some (runID, plain)
    | some aead =>
        if plain.type = .data ∨ plain.type = .parity then do
          let nonce ← packetAEADNonce header
          let payload ← aead nonce (buf.drop headerLen) header
          some (runID, decodeHeader header payload)
        else some (runID, plain)

/-- The numbers of a packet fit the fields of its header. -/
structure Packet.Fits (p : Packet) : Prop where
  stripeID : p.stripeID < 2 ^ 16
  seq : p.seq < 2 ^ 64
  offset : p.offset < 2 ^ 64
  ackFloor : p.ackFloor < 2 ^ 64
  ackMask : p.ackMask < 2 ^ 64

/-- The bytes are no forgery: if they open, a payload was sealed under that header. -/
def Unforged (aead : Open) (sealed : RunID → Packet → Prop) (buf : List UInt8) : Prop :=
  ∀ nonce ∈ packetAEADNonce (buf.take headerLen),
    ∀ payload ∈ aead nonce (buf.drop headerLen) (buf.take headerLen),
      ∃ runID p, sealed runID p ∧ buf.take headerLen = encodePacketHeader runID p ∧ payload = p.payload

/-- A packet gets as far as the receiver of a run: some bytes, of the sender or of an attacker, decode
to it, and `receiveConfigAllowsRunID` finds the expected run id in them. -/
def Arrives (aead : Open) (sealed : RunID → Packet → Prop) (runID : RunID) (p : Packet) : Prop :=
  ∃ buf, Unforged aead sealed buf ∧
    decodeBlastPacketFullWithAEAD (some aead) buf = some (runID.toList, p)

/-- A header is read as it was written. -/
theorem decodeHeader_encode {runID : RunID} {p : Packet} (hfits : p.Fits) :
    decodeHeader (encodePacketHeader runID p) p.payload = p := by
  obtain ⟨hstripe, hseq, hoffset, hfloor, hmask⟩ := hfits
  have htype : PacketType.ofCode ((encodePacketHeader runID p).getD 1 0) = p.type := by
    simp [encodePacketHeader, PacketType.ofCode_code]
  have h₂ : ((encodePacketHeader runID p).drop 2).take 2 = bigEndian 2 p.stripeID := by
    simp [encodePacketHeader]
  have h₂₀ : ((encodePacketHeader runID p).drop 20).take 8 = bigEndian 8 p.seq := by
    simp [encodePacketHeader, List.drop_append, List.take_append]
  have h₂₈ : ((encodePacketHeader runID p).drop 28).take 8 = bigEndian 8 p.offset := by
    simp [encodePacketHeader, List.drop_append, List.drop_eq_nil_of_le]
  have h₃₆ : ((encodePacketHeader runID p).drop 36).take 8 = bigEndian 8 p.ackFloor := by
    simp [encodePacketHeader, List.drop_append, List.drop_eq_nil_of_le]
  have h₄₄ : ((encodePacketHeader runID p).drop 44).take 8 = bigEndian 8 p.ackMask := by
    simp [encodePacketHeader, List.drop_append, List.drop_eq_nil_of_le,
      List.take_of_length_le]
  rw [decodeHeader, htype, h₂, h₂₀, h₂₈, h₃₆, h₄₄, ofBigEndian_bigEndian_of_lt (by simpa using hstripe),
    ofBigEndian_bigEndian_of_lt (by simpa using hseq), ofBigEndian_bigEndian_of_lt (by simpa using hoffset),
    ofBigEndian_bigEndian_of_lt (by simpa using hfloor), ofBigEndian_bigEndian_of_lt (by simpa using hmask)]

/-- A data packet that arrives was sealed. -/
theorem Arrives.sealed {aead : Open} {sealed : RunID → Packet → Prop} {runID : RunID} {p : Packet}
    (h : Arrives aead sealed runID p) (hfits : ∀ runID p, sealed runID p → p.Fits)
    (htype : p.type = .data) : sealed runID p := by
  obtain ⟨buf, hunforged, hdecode⟩ := h
  rw [decodeBlastPacketFullWithAEAD] at hdecode
  split at hdecode
  · cases hdecode
  split at hdecode
  · rename_i hopened
    obtain ⟨nonce, hnonce, hdecode⟩ := Option.bind_eq_some_iff.mp hdecode
    obtain ⟨payload, hopen, hdecode⟩ := Option.bind_eq_some_iff.mp hdecode
    obtain ⟨runID', q, hq, hheader, rfl⟩ := hunforged nonce hnonce payload hopen
    rw [Option.some.injEq, Prod.mk.injEq, hheader, decodeHeader_encode (hfits _ _ hq)] at hdecode
    obtain ⟨hrun, rfl⟩ := hdecode
    have hid : runID' = runID := by
      refine Vector.toList_inj.mp ?_
      rw [← hrun]
      simp [encodePacketHeader]
    rw [← hid]
    exact hq
  · rename_i hplain
    rw [Option.some.injEq, Prod.mk.injEq] at hdecode
    obtain ⟨-, rfl⟩ := hdecode
    exact absurd (.inl htype) hplain

/-! ## The receivers -/

/-- Every packet that comes to the connection gets through. -/
def ConnLabel.Arrives (aead : Open) (sealed : RunID → Packet → Prop) (runID : RunID) : ConnLabel → Prop
  | .packet a => Probe.Arrives aead sealed runID a.packet
  | _ => True

section

variable {aead : Open} {sealed : RunID → Packet → Prop} {runID : RunID} {ps : List (List UInt8)}
  {S : List UInt8} {cfg : RecvConfig} {p : Packet}

/-- A data packet that gets through is the sender's. -/
theorem Arrives.plain (h : Arrives aead sealed runID p) (hfields : ∀ runID p, sealed runID p → p.Fits)
    (hsealed : ∀ q, sealed runID q → IsPlain ps q) (htype : p.type = .data) :
    ∃ i < ps.length, p = dataPacket ps i :=
  (hsealed p (h.sealed hfields htype)).data htype

end

end Probe
