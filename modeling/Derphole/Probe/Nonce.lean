import Derphole.Lib.BigEndian
import Derphole.Probe.StreamReplay

/-!
# The nonce of a packet

A sealed packet is an AEAD over its payload with the header as additional data.  The nonce
is not sent: both ends compute it from the header (`packetAEADNonceTo` of
`pkg/probe/protocol.go`).  It has room for the type, the stripe, four bytes of the run id
and forty bits of the sequence number, and nothing else of the header goes into it
(`packetAEADNonce_eq`).
-/

namespace Probe

open Lib

abbrev RunID := Vector UInt8 16

def PacketType.code : PacketType → UInt8
  | .hello => 1
  | .helloAck => 2
  | .data => 3
  | .ack => 4
  | .done => 5
  | .stats => 6
  | .repairRequest => 7
  | .repairComplete => 8
  | .parity => 9

theorem PacketType.code_inj {t u : PacketType} (h : t.code = u.code) : t = u := by
  cases t <;> cases u <;> first | rfl | (revert h; decide)

/-- `ProtocolVersion`. -/
def protocolVersion : UInt8 := 2

def encodePacketHeader (runID : RunID) (p : Packet) : List UInt8 :=
  protocolVersion :: p.type.code :: (bigEndian 2 p.stripeID ++ (runID.toList ++ (bigEndian 8 p.seq ++
    (bigEndian 8 p.offset ++ (bigEndian 8 p.ackFloor ++ bigEndian 8 p.ackMask)))))

/-- `packetAEADNonceTo`. -/
def packetAEADNonce (header : List UInt8) : Option (List UInt8) :=
  let seq := ofBigEndian ((header.drop 20).take 8)
  if header.length < headerLen then none
  else if packetAEADNonceSeqs ≤ seq then none
  else
    some ((header.drop 1).take 1 ++ ((header.drop 2).take 2 ++ ((header.drop 4).take 4 ++ bigEndian 5 seq)))

/-- `externalDirectUDPLaneRunID` of `pkg/session/external_direct_udp.go`. -/
def externalDirectUDPLaneRunID (base : RunID) (lane : Nat) : RunID :=
  let runID := base.set 14 (base[14] ^^^ UInt8.ofNat ((lane + 1) >>> 8))
  runID.set 15 (runID[15] ^^^ UInt8.ofNat (lane + 1))

/-- What a nonce is made of. -/
theorem packetAEADNonce_eq (runID : RunID) (p : Packet) (hseq : p.seq < packetAEADNonceSeqs) :
    packetAEADNonce (encodePacketHeader runID p) =
      some (p.type.code :: (bigEndian 2 p.stripeID ++ (runID.toList.take 4 ++ bigEndian 5 p.seq))) := by
  have hfit : p.seq < 256 ^ 8 := Nat.lt_of_lt_of_le hseq (by decide)
  have hlength : (encodePacketHeader runID p).length = headerLen := by
    simp [encodePacketHeader, headerLen]
  have hstripe : ((encodePacketHeader runID p).drop 2).take 2 = bigEndian 2 p.stripeID := by
    simp [encodePacketHeader]
  have hrun : ((encodePacketHeader runID p).drop 4).take 4 = runID.toList.take 4 := by
    simp [encodePacketHeader, List.take_append]
  have hnumber : ((encodePacketHeader runID p).drop 20).take 8 = bigEndian 8 p.seq := by
    simp [encodePacketHeader, List.drop_append, List.take_append]
  rw [packetAEADNonce]
  simp only [hlength, hnumber, ofBigEndian_bigEndian_of_lt hfit, Nat.lt_irrefl, if_false, hstripe, hrun]
  rw [if_neg (Nat.not_le_of_lt hseq)]
  rfl

/-- Packets under one nonce agree in what it is made of. -/
theorem eq_of_packetAEADNonce_eq {runID runID' : RunID} {p q : Packet} (hp : p.seq < packetAEADNonceSeqs)
    (hq : q.seq < packetAEADNonceSeqs)
    (h : packetAEADNonce (encodePacketHeader runID p) = packetAEADNonce (encodePacketHeader runID' q)) :
    p.type = q.type ∧ p.stripeID % 65536 = q.stripeID % 65536 ∧
      runID.toList.take 4 = runID'.toList.take 4 ∧ p.seq = q.seq := by
  rw [packetAEADNonce_eq runID p hp, packetAEADNonce_eq runID' q hq, Option.some.injEq,
    List.cons.injEq] at h
  obtain ⟨htype, hrest⟩ := h
  obtain ⟨hstripe, hrest⟩ := List.append_inj hrest (by simp)
  obtain ⟨hrun, hseq⟩ := List.append_inj hrest (by simp)
  refine ⟨PacketType.code_inj htype, ?_, hrun, ?_⟩
  · have hread := congrArg ofBigEndian hstripe
    rwa [ofBigEndian_bigEndian, ofBigEndian_bigEndian] at hread
  · have hread := congrArg ofBigEndian hseq
    rwa [ofBigEndian_bigEndian_of_lt hp, ofBigEndian_bigEndian_of_lt hq] at hread

end Probe
