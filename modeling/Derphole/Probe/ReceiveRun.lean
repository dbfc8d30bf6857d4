import Derphole.Lib.File
import Derphole.Lib.Program
import Derphole.Probe.Fec
import Derphole.Probe.Packet

/-!
# The state of a blast receive run

`blastReceiveRunState`, `blastStreamReceiveStripeState` and the parts of
`blastStreamReceiveCoordinator` of `pkg/probe/session.go` that decide what is
written.  A coordinator serves one run here: packets of other runs are dropped
before they reach it.  Repair requests are in `RepairScan`; statistics and clocks are
left out, since no step below reads them.

The destination is the list of bytes written to it.  Writes to it and to the
spool files succeed.
-/

namespace Probe

open Lib

/-- `stripedSpooledPacket`: a packet whose payload is in the spool. -/
structure SpooledPacket where
  packet : Packet
  payloadLen : Nat

/-- The part of `blastStreamReceiveStripeState` that counts sequence numbers. -/
structure StripeSeqs where
  seen : SeqSet
  expectedSeq : Nat
  maxSeqPlusOne : Nat
  done : Bool
  terminalSeen : Bool
  totalPackets : Nat
  nextRepairSeq : Nat

/-- `blastStreamReceiveStripeState`. -/
structure StripeState extends StripeSeqs where
  lane : Option Nat
  buffered : Map Nat Packet
  bufferedSpool : Map Nat SpooledPacket
  fec : Fec

def StripeState.empty : StripeState where
  lane := none
  seen := SeqSet.empty
  buffered := ∅
  bufferedSpool := ∅
  fec := Fec.empty
  expectedSeq := 0
  maxSeqPlusOne := 0
  done := false
  terminalSeen := false
  totalPackets := 0
  nextRepairSeq := 0

/-- A place in the spool: a packet that waits for its turn in a stripe, or a payload
that waits for the bytes before it. -/
inductive Slot where
  | future (id seq : Nat)
  | pending (offset : Nat)
  deriving DecidableEq

/-- What happens to the spool. -/
inductive SpoolEvent where
  | spooled (slot : Slot) (offset : Nat) (payload : List UInt8)
  | took (slot : Slot) (payload : List UInt8)
  deriving DecidableEq

/-- The part of `blastReceiveRunState` that counts sequence numbers. -/
structure RunSeqs where
  seen : SeqSet
  nextWriteSeq : Nat
  maxSeqPlusOne : Nat
  done : Bool
  totalPackets : Nat
  totalBytes : Nat
  nextRepairSeq : Nat

/-- `blastReceiveRunState`.  `spoolLog` is a record of what went into the spool, as the
packet had it, and of what came out; no step reads it. -/
structure RunState extends RunSeqs where
  pending : Map Nat (List UInt8)
  fec : Fec
  writeBuf : List UInt8
  striped : Bool
  totalStripes : Nat
  stripes : Map Nat StripeState
  pendingOutput : Map Nat (List UInt8)
  pendingOutputBytes : Nat
  stripedFutureBufferedBytes : Nat
  pendingOutputSpool : Option File
  pendingOutputSpoolLens : Map Nat Nat
  nextOffset : Nat
  finalTotal : Nat
  finalTotalSet : Bool
  completedStripes : Nat
  stripedChunk : Nat
  spool : Option File
  spoolLog : List SpoolEvent

def RunState.empty : RunState where
  seen := SeqSet.empty
  pending := ∅
  fec := Fec.empty
  writeBuf := []
  nextWriteSeq := 0
  maxSeqPlusOne := 0
  done := false
  totalPackets := 0
  totalBytes := 0
  nextRepairSeq := 0
  striped := false
  totalStripes := 0
  stripes := ∅
  pendingOutput := ∅
  pendingOutputBytes := 0
  stripedFutureBufferedBytes := 0
  pendingOutputSpool := none
  pendingOutputSpoolLens := ∅
  nextOffset := 0
  finalTotal := 0
  finalTotalSet := false
  completedStripes := 0
  stripedChunk := 0
  spool := none
  spoolLog := []

/-- What the coordinator was configured with. -/
structure RecvConfig where
  /-- The destination is `io.Discard`. -/
  discard : Bool
  expectedBytes : Int
  fecGroupSize : Nat
  spoolOutput : Bool

/-- The coordinator: its run, what it wrote and what it counted.  `recovered` lists
what `recoverFEC` produced so far, which the code hands on at once, and
`repairCompletes` counts how often `sendBlastStreamRepairCompleteAll` told the sender
to stop. -/
structure Coord where
  run : RunState
  dst : List UInt8
  bytesReceived : Nat
  recovered : List RecoveredPacket
  repairCompletes : Nat

def Coord.empty : Coord := ⟨RunState.empty, [], 0, [], 0⟩

/-- A method of the coordinator. -/
abbrev Recv := Prog Coord RecvErr

/-- Change the run. -/
def updateRun (f : RunState → RunState) : Recv Unit := update fun c => { c with run := f c.run }

/-- `blastReceiveWriteBuffer`. -/
def blastReceiveWriteBuffer : Nat := 4 * 2 ^ 20

def flushOrderedParallelBlastPayload : Recv Unit :=
  update fun c => { c with dst := c.dst ++ c.run.writeBuf, run := { c.run with writeBuf := [] } }

def bufferOrderedParallelBlastPayload (payload : List UInt8) : Recv Unit :=
  if payload = [] then pure ()
  else do
    updateRun fun s => { s with writeBuf := s.writeBuf ++ payload }
    let c ← read
    if c.run.writeBuf.length < blastReceiveWriteBuffer then pure ()
    else flushOrderedParallelBlastPayload

/-- Only the output changes, by the payload. -/
theorem bufferOrdered_spec {E : RecvErr → Coord → Prop} (c₀ : Coord) (payload : List UInt8) :
    Triple (· = c₀) (bufferOrderedParallelBlastPayload payload)
      (fun _ c => c.dst ++ c.run.writeBuf = c₀.dst ++ c₀.run.writeBuf ++ payload ∧
        c = { c₀ with dst := c.dst, run := { c₀.run with writeBuf := c.run.writeBuf } }) E := by
  refine Triple.ite (fun h => ?_) fun h => ?_
  · refine Triple.pure ?_
    rintro c rfl
    simp [h]
  · refine Triple.bind (Triple.update (Q := fun _ c => c = { c₀ with
        run := { c₀.run with writeBuf := c₀.run.writeBuf ++ payload } }) ?_) fun _ => ?_
    · rintro c rfl
      rfl
    · refine Triple.read_bind ?_
      rintro c rfl
      refine Triple.ite (fun _ => ?_) fun _ => ?_
      · refine Triple.pure ?_
        rintro c rfl
        simp
      · refine Triple.update ?_
        rintro c rfl
        simp

/-- The sender is told on every lane to stop. -/
def sendBlastStreamRepairCompleteAll : Recv Unit :=
  update fun c => { c with repairCompletes := c.repairCompletes + 1 }

/-- The known size must be the announced one. -/
def validateFinalTotal (cfg : RecvConfig) (label : String) (finalTotal : Nat) : Recv Unit :=
  if cfg.expectedBytes ≤ 0 then pure ()
  else if finalTotal < cfg.expectedBytes.toNat then
    fail (.incomplete label finalTotal cfg.expectedBytes.toNat)
  else if cfg.expectedBytes.toNat < finalTotal then
    fail (.exceeds label finalTotal cfg.expectedBytes.toNat)
  else pure ()

end Probe
