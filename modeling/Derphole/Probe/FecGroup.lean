import Derphole.Probe.Fec
import Derphole.Probe.StreamReplay

/-!
# The parity of a sender

`blastFECGroup` of `pkg/probe/session.go`: the exclusive-or of the payloads of a
group, sent after the last packet of the group.  The parity always has the length
of a chunk, however short the payloads were.
-/

namespace Probe

open Lib

/-- `blastFECGroup`. -/
structure FecGroup where
  stripeID : Nat
  chunkSize : Nat
  groupSize : Nat
  aead : Option Nat
  startSeq : Nat
  startOff : Nat
  count : Nat
  parity : List UInt8
  seenPacket : Bool

namespace FecGroup

/-- `newBlastFECGroupForStripe`. -/
def new (stripeID chunkSize groupSize : Nat) (aead : Option Nat) : Option FecGroup :=
  if chunkSize = 0 ∨ groupSize ≤ 1 then none
  else
    some
      { stripeID := stripeID
        chunkSize := chunkSize
        groupSize := groupSize
        aead := aead
        startSeq := 0
        startOff := 0
        count := 0
        parity := List.replicate chunkSize 0
        seenPacket := false }

/-- Emit the parity and start a new group.  A parity that cannot be sealed is
dropped. -/
def flush (g : FecGroup) : FecGroup × Option Packet :=
  let wire := marshalPayloadPacket .parity g.stripeID g.startSeq g.startOff g.count g.parity g.aead
  ({ g with parity := List.replicate g.parity.length 0, count := 0, seenPacket := false },
    wire.toOption)

/-- Take the payload of a packet into the group. -/
def add (g : FecGroup) (seq offset : Nat) (payload : List UInt8) : FecGroup :=
  { g with
    startSeq := if g.seenPacket then g.startSeq else seq
    startOff := if g.seenPacket then g.startOff else offset
    seenPacket := true
    parity := xorInto g.parity payload
    count := g.count + 1 }

/-- `blastFECGroup.Record`; there is no group without parity. -/
def record (g : Option FecGroup) (seq offset : Nat) (payload : List UInt8) :
    Option FecGroup × Option Packet :=
  match g with
  | none => (none, none)
  | some g =>
      if payload = [] then (some g, none)
      else
        let g := g.add seq offset payload
        if g.count < g.groupSize then (some g, none)
        else
          let (g, wire) := g.flush
          (some g, wire)

/-- `blastFECGroup.Flush`: what is left at the end of the stream. -/
def finish (g : Option FecGroup) : Option FecGroup × Option Packet :=
  match g with
  | none => (none, none)
  | some g =>
      if g.seenPacket = false ∨ g.count = 0 then (some g, none)
      else
        let (g, wire) := g.flush
        (some g, wire)

end FecGroup

end Probe
