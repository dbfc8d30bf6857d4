import Derphole.Lib.File
import Derphole.Lib.Map
import Derphole.Probe.StreamReplay

/-!
# The repair history

`blastRepairHistory` of `pkg/probe/session.go` answers repair requests.  It has
three ways to keep what was sent: the stream replay window, whole packets in
numbered buffers, and bare payloads laid out by sequence number, from which a
packet is put together again when it is asked for.

The buffers of whole packets do not overlap, so they are a map from sequence
numbers to packets.  The payload slabs hold zeros where nothing was recorded;
`payloads` is what was written and `payloadSlabs` how many slabs there are.
-/

namespace Probe

open Lib

/-- `blastRepairHistory`. -/
structure RepairHistory where
  chunkSize : Nat
  totalBytes : Nat
  packets : Nat
  complete : Bool
  retainPayloads : Bool
  payloads : File
  payloadSlabs : Nat
  packetBuffers : Map Nat Packet
  aead : Option Nat
  streamReplay : Option ReplayWindow

namespace RepairHistory

/-- `newBlastRepairHistory`, with the replay window it is given next. -/
def new (chunkSize : Nat) (retainPayloads : Bool) (aead : Option Nat)
    (streamReplay : Option ReplayWindow) : RepairHistory where
  chunkSize := chunkSize
  totalBytes := 0
  packets := 0
  complete := false
  retainPayloads := retainPayloads
  payloads := []
  payloadSlabs := 0
  packetBuffers := ∅
  aead := aead
  streamReplay := streamReplay

/-- The slabs that reach up to `size`. -/
def needSlabs (size : Nat) : Nat := (size + blastRepairMemorySlab - 1) / blastRepairMemorySlab

/-- Record a payload where a full packet with this number would have it. -/
def record (h : RepairHistory) (seq : Nat) (payload : List UInt8) : Except SendErr RepairHistory :=
  if h.retainPayloads = false ∨ payload = [] then .ok h
  else
    let offset := seq * h.chunkSize
    if maxInt < offset + payload.length then .error (.text "blast repair payload too large")
    else
      .ok
        { h with
          payloads := h.payloads.writeAt offset payload
          payloadSlabs := max h.payloadSlabs (needSlabs (offset + payload.length)) }

def markComplete (h : RepairHistory) (totalBytes packets : Nat) : RepairHistory :=
  { h with totalBytes := totalBytes, packets := packets, complete := true }

/-- `blastRepairHistory.AckFloor`. -/
def ackFloor (h : RepairHistory) (seq : Nat) : RepairHistory :=
  { h with streamReplay := h.streamReplay.map (·.advanceAck seq) }

def packetStride (h : RepairHistory) : Nat := headerLen + h.chunkSize + h.aead.getD 0

/-- The offset of a packet in its slab. -/
def slabOffset (h : RepairHistory) (seq : Nat) : Nat :=
  seq % max (blastRepairMemorySlab / h.packetStride) 1 * h.packetStride

/-- Put a packet into its buffer. -/
def packetBufferForStripe (h : RepairHistory) (stripeID seq offset : Nat) (payload : List UInt8) :
    Except SendErr (RepairHistory × Packet) :=
  if h.retainPayloads = false ∨ h.chunkSize = 0 ∨ payload = [] then
    .error (.text "invalid blast repair packet buffer")
  else if h.aead.isSome then
    .error (.text "encrypted blast repair packets require retained payload assembly")
  else if h.chunkSize < payload.length then
    .error (.text "blast repair packet payload too large")
  else if blastRepairMemorySlab < h.slabOffset seq + headerLen + payload.length then
    .error .outOfRange
  else
    let wire : Packet := ⟨.data, stripeID, seq, offset, 0, 0, payload⟩
    .ok ({ h with packetBuffers := h.packetBuffers.insert seq wire }, wire)

def hasPayloadRange (h : RepairHistory) (offset payloadLen : Nat) : Bool :=
  payloadLen = 0 ∨ needSlabs (offset + payloadLen) ≤ h.payloadSlabs

def readPayloadAt (h : RepairHistory) (offset payloadLen : Nat) : List UInt8 :=
  (List.range' offset payloadLen).map fun i => h.payloads.getD i 0

/-- A packet put together from recorded payloads, as if all were full. -/
def assemblePacket (h : RepairHistory) (seq : Nat) : Option Packet :=
  if h.packets = 0 ∨ h.packets ≤ seq then none
  else
    let offset := seq * h.chunkSize
    if h.totalBytes ≤ offset then none
    else
      let payloadLen := min h.chunkSize (h.totalBytes - offset)
      if h.retainPayloads = false ∧ 0 < payloadLen then none
      else if h.hasPayloadRange offset payloadLen then
        (marshalPayloadPacket .data 0 seq offset 0 (h.readPayloadAt offset payloadLen)
          h.aead).toOption
      else none

/-- `blastRepairHistory.packet`: what is sent again under a number. -/
def packet (h : RepairHistory) (seq : Nat) : Option Packet :=
  match h.streamReplay with
  | some w => w.packet seq
  | none =>
      if h.chunkSize = 0 then none
      else
        match h.packetBuffers.lookup seq with
        | some wire => some wire
        | none => h.assemblePacket seq

end RepairHistory

/-! ## What a sender records -/

/-- The parts of `SendConfig` that a blast sender reads. -/
structure SendConfig where
  chunkSize : Nat
  rateCeilingMbps : Int
  repairPayloads : Bool
  tailReplayBytes : Nat
  fecGroupSize : Nat
  aead : Option Nat
  streamReplayWindowBytes : Nat
  maxActiveLanes : Nat

namespace SendConfig

variable (cfg : SendConfig)

/-- The chunk size after the default is put in. -/
def chunk : Nat := if cfg.chunkSize = 0 then defaultChunkSize else cfg.chunkSize

theorem chunk_pos : 0 < cfg.chunk := by
  rw [chunk]
  split
  · decide
  · omega

def streamReplayEnabled : Bool :=
  cfg.repairPayloads && (decide (0 < cfg.rateCeilingMbps) || decide (0 < cfg.streamReplayWindowBytes))

def retainHistoryPayloads : Bool :=
  (cfg.repairPayloads || decide (0 < cfg.tailReplayBytes)) && !cfg.streamReplayEnabled

def replayBytes : Nat :=
  if cfg.streamReplayWindowBytes = 0 then defaultStreamReplayWindowBytes
  else cfg.streamReplayWindowBytes

/-- The history of a send that is not striped. -/
def history : RepairHistory :=
  RepairHistory.new cfg.chunk cfg.retainHistoryPayloads cfg.aead
    (if cfg.streamReplayEnabled then some (ReplayWindow.new cfg.chunk cfg.replayBytes cfg.aead)
      else none)

/-- The replay window of one of the lanes of a striped send. -/
def laneWindow (lanes : Nat) : ReplayWindow :=
  let bytes := if cfg.replayBytes / lanes = 0 then cfg.replayBytes else cfg.replayBytes / lanes
  ReplayWindow.new cfg.chunk bytes cfg.aead

def laneHistory (lanes : Nat) : RepairHistory :=
  RepairHistory.new cfg.chunk (!cfg.streamReplayEnabled) cfg.aead
    (if cfg.streamReplayEnabled then some (cfg.laneWindow lanes) else none)

/-- `parallelActiveLanesForConfig`, which uses every lane of a striped send unless
it is capped. -/
def activeLanes (available : Nat) : Nat :=
  if cfg.maxActiveLanes = 0 ∨ available ≤ cfg.maxActiveLanes then available else cfg.maxActiveLanes

/-- The lane of a striped send that a packet goes to. -/
def laneIndexForOffset (offset available : Nat) : Nat :=
  let lanes := cfg.activeLanes available
  if lanes ≤ 1 then 0 else offset / (parallelBlastStripeBlockPackets * cfg.chunk) % lanes

end SendConfig

namespace RepairHistory

variable (cfg : SendConfig) (h : RepairHistory)

/-- Keep a packet in the replay window and send it. -/
def addReplayPacket (w : ReplayWindow) (stripeID seq offset : Nat) (payload : List UInt8) :
    Except SendErr (RepairHistory × Packet) :=
  match w.addDataPacket stripeID seq offset payload with
  | .error e => .error e
  | .ok (w, wire) => .ok ({ h with streamReplay := some w }, wire)

/-- Record the payload and send it sealed. -/
def recordSealed (stripeID seq offset : Nat) (payload : List UInt8) :
    Except SendErr (RepairHistory × Packet) := do
  let h ← h.record seq payload
  let wire ← marshalPayloadPacket .data stripeID seq offset 0 payload cfg.aead
  .ok (h, wire)

/-- Record the payload and send it as it is. -/
def recordPlain (stripeID seq offset : Nat) (payload : List UInt8) :
    Except SendErr (RepairHistory × Packet) := do
  let h ← h.record seq payload
  .ok (h, ⟨.data, stripeID, seq, offset, 0, 0, payload⟩)

/-- A data packet of `sendBlast`. -/
def sendBlastDataPacket (seq offset : Nat) (payload : List UInt8) :
    Except SendErr (RepairHistory × Packet) :=
  if cfg.aead.isSome then
    match h.streamReplay with
    | some w => h.addReplayPacket w 0 seq offset payload
    | none => h.recordSealed cfg 0 seq offset payload
  else if cfg.repairPayloads then
    match h.streamReplay with
    | some w => h.addReplayPacket w 0 seq offset payload
    | none => h.packetBufferForStripe 0 seq offset payload
  else h.recordPlain 0 seq offset payload

/-- `blastParallelDataPacket`. -/
def blastParallelDataPacket (stripeID seq offset : Nat) (payload : List UInt8) :
    Except SendErr (RepairHistory × Packet) :=
  if payload = [] then .error (.text "empty blast payload")
  else
    match h.streamReplay with
    | some w => h.addReplayPacket w stripeID seq offset payload
    | none =>
        if cfg.aead.isSome then h.recordSealed cfg stripeID seq offset payload
        else if cfg.repairPayloads then h.packetBufferForStripe stripeID seq offset payload
        else h.recordPlain stripeID seq offset payload

end RepairHistory

end Probe
