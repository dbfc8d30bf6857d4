import Derphole.Probe.GlobalReceive

/-!
# The striped receive path

`handleStripedPacketLocked` of `pkg/probe/session.go` and what it calls.  Each
stripe numbers its packets from zero and is accepted in that order; what is
accepted is written at its stream offset.  So a payload may wait in four places:
in the buffer of its stripe until its turn comes, or in the spool if that buffer
is full, then in the map of pending output until the bytes before it are there,
or in the spool if that map is full.

A stripe is changed in place.  `updateStripe` is the assignment through the
pointer that `stripeState` returns.
-/

namespace Probe

open Lib

/-- `stripedBlastPendingOutputLimitBytes`. -/
def stripedBlastPendingOutputLimitBytes : Nat := 256 * 2 ^ 20

/-- `stripedBlastFutureBufferLimitBytes`. -/
def stripedBlastFutureBufferLimitBytes : Nat := 256 * 2 ^ 20

namespace StripeState

def storeBufferedPacket (st : StripeState) (packet : Packet) : StripeState :=
  { st with buffered := st.buffered.insert packet.seq packet }

/-- Mark a sequence number as seen. -/
def markSeen (st : StripeState) (seq : Nat) : StripeState :=
  { st with seen := (st.seen.add seq).1, maxSeqPlusOne := max st.maxSeqPlusOne (seq + 1) }

def storeFECPayload (st : StripeState) (groupSize seq : Nat) (payload : List UInt8) : StripeState :=
  { st with fec := st.fec.storeFECPayload st.seen groupSize seq payload }

def storeFECParity (st : StripeState) (startSeq offset count : Nat) (payload : List UInt8) :
    StripeState :=
  { st with fec := st.fec.storeFECParity st.seen startSeq offset count payload }

end StripeState

/-! ## The run -/

namespace RunState

def stripe (s : RunState) (id : Nat) : StripeState := (s.stripes.lookup id).getD StripeState.empty

def updateStripe (s : RunState) (id : Nat) (f : StripeState → StripeState) : RunState :=
  { s with stripes := s.stripes.insert id (f (s.stripe id)) }

def stripeDataStarted (st : StripeState) : Bool :=
  decide (0 < st.seen.len) || decide (st.expectedSeq ≠ 0) || decide (st.maxSeqPlusOne ≠ 0) ||
    st.done || st.terminalSeen || decide (st.totalPackets ≠ 0) ||
    !st.buffered.entries.isEmpty || !st.bufferedSpool.entries.isEmpty

def stripedDataStarted (s : RunState) : Bool :=
  decide (s.nextOffset ≠ 0) || s.finalTotalSet || decide (s.completedStripes ≠ 0) ||
    decide (s.pendingOutputBytes ≠ 0) || decide (s.stripedFutureBufferedBytes ≠ 0) ||
    !s.pendingOutput.entries.isEmpty || !s.pendingOutputSpoolLens.entries.isEmpty ||
    s.stripes.entries.any fun e => stripeDataStarted e.2

def enableStriped (s : RunState) (totalStripes : Nat) : RunState :=
  let total := max totalStripes 1
  if s.totalStripes < total ∨
      (0 < s.totalStripes ∧ total ≠ s.totalStripes ∧ s.stripedDataStarted = false) then
    { s with striped := true, totalStripes := total }
  else { s with striped := true }

/-- The stripe exists and was last seen on `lane`. -/
def stripeState (s : RunState) (id lane : Nat) : RunState :=
  s.updateStripe id fun st => { st with lane := some lane }

def observeStripedPayload (s : RunState) (payload : List UInt8) : RunState :=
  { s with stripedChunk := max s.stripedChunk payload.length }

def canBufferStripedFuturePayload (s : RunState) (payloadLen : Nat) : Bool :=
  payloadLen = 0 ∨ s.stripedFutureBufferedBytes + payloadLen ≤ stripedBlastFutureBufferLimitBytes

def releaseStripedFutureBuffer (s : RunState) (payloadLen : Nat) : RunState :=
  { s with stripedFutureBufferedBytes := s.stripedFutureBufferedBytes - payloadLen }

def hasStripedFutureSpooledPackets (s : RunState) : Bool :=
  s.stripes.entries.any fun e => !e.2.bufferedSpool.entries.isEmpty

def closeStripedPayloadSpool (s : RunState) : RunState :=
  { s with pendingOutputSpool := none, pendingOutputSpoolLens := ∅ }

def maybeCloseStripedPayloadSpool (s : RunState) : RunState :=
  if s.pendingOutputSpool.isNone || !s.pendingOutputSpoolLens.entries.isEmpty ||
      s.hasStripedFutureSpooledPackets then s
  else s.closeStripedPayloadSpool

/-- Write into the spool, made on first use. -/
def writeSpool (s : RunState) (offset : Nat) (payload : List UInt8) : RunState :=
  { s with pendingOutputSpool := some ((s.pendingOutputSpool.getD []).writeAt offset payload) }

def logSpool (s : RunState) (e : SpoolEvent) : RunState := { s with spoolLog := s.spoolLog ++ [e] }

end RunState

/-- Change a stripe of the run. -/
def updateStripe (id : Nat) (f : StripeState → StripeState) : Recv Unit :=
  updateRun fun s => s.updateStripe id f

/-! ## Completion -/

def stripedPayloadComplete (cfg : RecvConfig) (c : Coord) : Bool :=
  c.run.finalTotalSet &&
    if cfg.discard then decide (c.run.finalTotal ≤ c.bytesReceived)
    else decide (c.run.nextOffset = c.run.finalTotal)

def stripedComplete (cfg : RecvConfig) (c : Coord) : Bool :=
  (decide (0 < cfg.expectedBytes) && decide ((c.run.nextOffset : Int) = cfg.expectedBytes)) ||
    (c.run.finalTotalSet && stripedPayloadComplete cfg c)

/-! ## Output -/

def writeStripedPayload (cfg : RecvConfig) (payload : List UInt8) : Recv Unit :=
  if payload = [] then pure ()
  else do
    if cfg.discard then pure () else bufferOrderedParallelBlastPayload payload
    update fun c =>
      { c with
        run := { c.run with nextOffset := c.run.nextOffset + payload.length }
        bytesReceived := c.bytesReceived + payload.length }

def flushStripedPayload (cfg : RecvConfig) : Recv Unit :=
  if cfg.discard then pure () else flushOrderedParallelBlastPayload

/-- Take the pending payload that comes next, from memory or from the spool. -/
def popPendingOutput : Recv (Option (List UInt8)) := do
  let c ← read
  match c.run.pendingOutput.lookup c.run.nextOffset with
  | some payload => do
      updateRun fun s =>
        { s with
          pendingOutput := s.pendingOutput.erase s.nextOffset
          pendingOutputBytes := s.pendingOutputBytes - payload.length }
      pure (some payload)
  | none =>
      match c.run.pendingOutputSpoolLens.lookup c.run.nextOffset with
      | none => pure none
      | some spooledLen =>
          match c.run.pendingOutputSpool with
          | none => fail (.text "striped pending output spool missing")
          | some file => do
              let payload := file.readAt c.run.nextOffset spooledLen
              if payload.length ≠ spooledLen then fail .unexpectedEOF else pure ()
              updateRun fun s =>
                ({ s with
                  pendingOutputSpoolLens := s.pendingOutputSpoolLens.erase s.nextOffset
                  : RunState }.maybeCloseStripedPayloadSpool).logSpool
                  (.took (.pending s.nextOffset) payload)
              pure (some payload)

/-- The loop of `flushStripedPendingPayloadsLocked`.  Every round deletes an
entry, so the number of entries bounds the rounds. -/
def flushPendingLoop (cfg : RecvConfig) : Nat → Recv Unit
  | 0 => pure ()
  | fuel + 1 => do
      match ← popPendingOutput with
      | none => pure ()
      | some payload => do
          writeStripedPayload cfg payload
          flushPendingLoop cfg fuel

def flushStripedPendingPayloads (cfg : RecvConfig) : Recv Unit := do
  let c ← read
  flushPendingLoop cfg
    (c.run.pendingOutput.entries.length + c.run.pendingOutputSpoolLens.entries.length + 1)

def storeStripedPendingOutput (offset : Nat) (payload : List UInt8) : Recv Unit :=
  if payload = [] then pure ()
  else do
    let c ← read
    if (c.run.pendingOutput.lookup offset).isSome then pure ()
    else if (c.run.pendingOutputSpoolLens.lookup offset).isSome then pure ()
    else if c.run.pendingOutputBytes + payload.length ≤ stripedBlastPendingOutputLimitBytes then
      updateRun fun s =>
        { s with
          pendingOutput := s.pendingOutput.insert offset payload
          pendingOutputBytes := s.pendingOutputBytes + payload.length }
    else if maxInt < offset then
      fail (.text "striped pending output offset exceeds spool range")
    else
      updateRun fun s =>
        { s.writeSpool offset payload with
          pendingOutputSpoolLens := s.pendingOutputSpoolLens.insert offset payload.length
          : RunState }.logSpool (.spooled (.pending offset) offset payload)

/-! ## Acceptance in the order of a stripe -/

/-- Write a payload whose turn has come, or keep it until the bytes before it are
written. -/
def acceptStripedPayload (cfg : RecvConfig) (offset : Nat) (payload : List UInt8) : Recv Unit :=
  if payload = [] then pure ()
  else do
    updateRun fun s => s.observeStripedPayload payload
    let c ← read
    if cfg.discard then update fun c => { c with bytesReceived := c.bytesReceived + payload.length }
    else if offset = c.run.nextOffset then do
      writeStripedPayload cfg payload
      flushStripedPendingPayloads cfg
    else if c.run.nextOffset < offset then storeStripedPendingOutput offset payload
    else pure ()

def markStripeDone (id : Nat) (packet : Packet) : Recv Unit := do
  let c ← read
  if (c.run.stripe id).done then pure ()
  else
    updateRun fun s =>
      { s.updateStripe id fun st => { st with done := true, totalPackets := packet.seq } with
        completedStripes := s.completedStripes + 1 }

/-- The Done packets agree on the size, and it is the expected one. -/
def recordFinalTotal (cfg : RecvConfig) (total : Nat) : Recv Unit := do
  let c ← read
  if c.run.finalTotalSet = false then do
    updateRun fun s => { s with finalTotal := total, finalTotalSet := true }
    validateFinalTotal cfg "striped blast" total
  else if c.run.finalTotal ≠ total then
    fail (.text "striped blast done packets disagree on final size")
  else validateFinalTotal cfg "striped blast" c.run.finalTotal

def advanceStripe (id : Nat) : Recv Unit :=
  updateStripe id fun st => { st with expectedSeq := st.expectedSeq + 1 }

def acceptStripedSequentialPacket (cfg : RecvConfig) (id : Nat) (packet : Packet) : Recv Unit :=
  match packet.type with
  | .data => do
      acceptStripedPayload cfg packet.offset packet.payload
      advanceStripe id
  | .done => do
      markStripeDone id packet
      recordFinalTotal cfg packet.offset
      advanceStripe id
  | _ => pure ()

/-- Keep a packet whose turn has not come. -/
def storeStripedFuturePacket (id : Nat) (packet : Packet) : Recv Unit := do
  let c ← read
  if packet.type ≠ .data ∨ packet.payload = [] then
    if (c.run.stripe id).seen.has packet.seq then pure ()
    else updateStripe id fun st => (st.markSeen packet.seq).storeBufferedPacket packet
  else if c.run.canBufferStripedFuturePayload packet.payload.length then
    if (c.run.stripe id).seen.has packet.seq then pure ()
    else
      updateRun fun s =>
        { s.updateStripe id fun st => (st.markSeen packet.seq).storeBufferedPacket packet with
          stripedFutureBufferedBytes := s.stripedFutureBufferedBytes + packet.payload.length }
  else if maxInt < packet.offset then
    fail (.text "striped future packet offset exceeds spool range")
  else
    updateRun fun s => (s.writeSpool packet.offset packet.payload).logSpool
      (.spooled (.future id packet.seq) packet.offset packet.payload)
    if (c.run.stripe id).seen.has packet.seq then pure ()
    else
      updateStripe id fun st =>
        { st.markSeen packet.seq with
          bufferedSpool := st.bufferedSpool.insert packet.seq
            ⟨{ packet with payload := [] }, packet.payload.length⟩ }

/-- Take the kept packet whose turn it is, from memory or from the spool. -/
def popStripedBufferedPacket (id : Nat) : Recv (Option Packet) := do
  let c ← read
  let st := c.run.stripe id
  match st.buffered.lookup st.expectedSeq with
  | some packet => do
      updateRun fun s =>
        (s.updateStripe id fun st => { st with buffered := st.buffered.erase st.expectedSeq })
          |>.releaseStripedFutureBuffer packet.payload.length
      pure (some packet)
  | none =>
      match st.bufferedSpool.lookup st.expectedSeq with
      | none => pure none
      | some spooled =>
          match c.run.pendingOutputSpool with
          | none => fail (.text "striped future packet spool missing")
          | some file => do
              let payload := file.readAt spooled.packet.offset spooled.payloadLen
              if payload.length ≠ spooled.payloadLen then fail .unexpectedEOF else pure ()
              updateRun fun s =>
                (s.updateStripe id fun st =>
                  { st with bufferedSpool := st.bufferedSpool.erase st.expectedSeq })
                  |>.maybeCloseStripedPayloadSpool
                  |>.logSpool (.took (.future id st.expectedSeq) payload)
              pure (some { spooled.packet with payload := payload })

/-- Accept kept packets while their turn comes.  Every round deletes one. -/
def drainStripedBuffered (cfg : RecvConfig) (id : Nat) : Nat → Recv Unit
  | 0 => pure ()
  | fuel + 1 => do
      match ← popStripedBufferedPacket id with
      | none => pure ()
      | some packet => do
          acceptStripedSequentialPacket cfg id packet
          drainStripedBuffered cfg id fuel

/-! ## One packet of a stripe -/

/-- Count the payload of a data packet for recovery. -/
def recordFECPayload (cfg : RecvConfig) (id : Nat) (packet : Packet) : Recv Unit :=
  if packet.type = .data then
    updateStripe id fun st => st.storeFECPayload cfg.fecGroupSize packet.seq packet.payload
  else pure ()

/-- Note that the last packet of a stripe was announced. -/
def observeTerminal (id : Nat) (packet : Packet) : Recv Unit :=
  if packet.type = .done then
    updateStripe id fun st =>
      { st with terminalSeen := true, totalPackets := max st.totalPackets packet.seq }
  else pure ()

/-- A packet ahead of its turn. -/
def handleStripedFuture (cfg : RecvConfig) (recover : Recv Unit) (id : Nat) (packet : Packet) :
    Recv Bool := do
  storeStripedFuturePacket id packet
  recordFECPayload cfg id packet
  if packet.type = .data then recover else pure ()
  let c ← read
  pure (stripedComplete cfg c)

/-- Flush a finished stream and report it. -/
def finishStriped (cfg : RecvConfig) : Recv Bool := do
  updateRun fun s => if s.completedStripes = s.totalStripes then { s with done := true } else s
  let c ← read
  if stripedComplete cfg c then do
    flushStripedPayload cfg
    sendBlastStreamRepairCompleteAll
    pure true
  else pure false

/-- A packet whose turn has come, and every kept packet that follows it. -/
def handleStripedInTurn (cfg : RecvConfig) (recover : Recv Unit) (id : Nat) (packet : Packet)
    (kept : Nat) : Recv Bool := do
  updateStripe id fun st => st.markSeen packet.seq
  recordFECPayload cfg id packet
  acceptStripedSequentialPacket cfg id packet
  drainStripedBuffered cfg id (kept + 1)
  recover
  finishStriped cfg

/-- `handleStripedDataOrDoneLocked` with `recoverStripedFEC` given. -/
def handleStripedDataOrDoneWith (cfg : RecvConfig) (recover : Recv Unit) (id : Nat)
    (packet : Packet) : Recv Bool := do
  observeTerminal id packet
  let c ← read
  let st := c.run.stripe id
  if packet.seq < st.expectedSeq ∨ st.seen.has packet.seq then pure (stripedComplete cfg c)
  else if st.expectedSeq < packet.seq then handleStripedFuture cfg recover id packet
  else
    handleStripedInTurn cfg recover id packet
      (st.buffered.entries.length + st.bufferedSpool.entries.length)

/-! ## Recovery -/

def stripedFECOffsetForSeq (startOffset startSeq seq chunkSize totalStripes : Nat) : Nat :=
  if seq ≤ startSeq then startOffset
  else if totalStripes ≤ 1 then startOffset + (seq - startSeq) * chunkSize
  else
    let block := parallelBlastStripeBlockPackets
    startOffset +
      ((seq / block - startSeq / block) * block * totalStripes + seq % block - startSeq % block) *
        chunkSize

/-- What one parity packet of a stripe gives. -/
def StripeState.recoverParity (st : StripeState) (chunkSize totalStripes known : Nat)
    (p : FecParity) : Except RecvErr (Fec × List RecoveredPacket) :=
  if known = 0 ∧ st.maxSeqPlusOne ≤ p.startSeq + p.count then .ok (st.fec, [])
  else
    match missingIn st.seen p.startSeq p.count with
    | [] => .ok (st.fec.cleanupFECGroupIfComplete st.seen p.startSeq p.count, [])
    | [missingSeq] =>
        match st.fec.groups.lookup p.startSeq with
        | none => .ok (st.fec, [])
        | some [] => .ok (st.fec, [])
        | some (b :: xor) =>
            if p.payload.length < (b :: xor).length then .error .outOfRange
            else
              let offset :=
                stripedFECOffsetForSeq p.offset p.startSeq missingSeq chunkSize totalStripes
              let dropped : Fec := ⟨st.fec.groups, st.fec.parity.erase p.startSeq⟩
              if 0 < known ∧ known ≤ offset then .ok (dropped, [])
              else
                let payload := xorInto p.payload (b :: xor)
                .ok (dropped, [⟨missingSeq, offset,
                  if offset < known then payload.take (known - offset) else payload⟩])
    | _ :: _ :: _ => .ok (st.fec, [])

def StripeState.recoverFECKeys (chunkSize totalStripes known : Nat) :
    List Nat → StripeState → Except RecvErr (StripeState × List RecoveredPacket)
  | [], st => .ok (st, [])
  | key :: keys, st =>
      match st.fec.parity.lookup key with
      | none => recoverFECKeys chunkSize totalStripes known keys st
      | some p => do
          let (fec, here) ← st.recoverParity chunkSize totalStripes known p
          let (st', rest) ←
            recoverFECKeys chunkSize totalStripes known keys { st with fec := fec }
          .ok (st', here ++ rest)

/-- Recover what the stripes listed can, as data packets of their stripes. -/
def recoverStripes (cfg : RecvConfig) (order : List Nat → List Nat) : List Nat → Recv (List Packet)
  | [] => pure []
  | id :: ids => do
      let c ← read
      let known := if c.run.finalTotalSet then c.run.finalTotal else cfg.expectedBytes.toNat
      let chunkSize := if c.run.stripedChunk = 0 then defaultChunkSize else c.run.stripedChunk
      let st := c.run.stripe id
      match st.recoverFECKeys chunkSize (max c.run.totalStripes 1) known
          (order st.fec.parity.keys) with
      | .error e => fail e
      | .ok (st', recovered) => do
          updateStripe id fun _ => st'
          let rest ← recoverStripes cfg order ids
          pure (recovered.map (fun p => ⟨.data, id, p.seq, p.offset, 0, 0, p.payload⟩) ++ rest)

def handleRecovered (cfg : RecvConfig) : List Packet → Recv Unit
  | [] => pure ()
  | packet :: rest => do
      let _ ← handleStripedDataOrDoneWith cfg (pure ()) packet.stripeID packet
      handleRecovered cfg rest

/-- The loop of `recoverStripedFEC`.  While it runs, the packets it hands on do
not start it again.  Every round uses up a parity packet. -/
def recoverStripedFECLoop (cfg : RecvConfig) (order : List Nat → List Nat) : Nat → Recv Unit
  | 0 => pure ()
  | fuel + 1 => do
      let c ← read
      let recovered ← recoverStripes cfg order (order c.run.stripes.keys)
      if recovered = [] then pure ()
      else
        handleRecovered cfg recovered
        recoverStripedFECLoop cfg order fuel

def recoverStripedFEC (cfg : RecvConfig) (order : List Nat → List Nat) : Recv Unit :=
  if cfg.fecGroupSize ≤ 1 then pure ()
  else do
    let c ← read
    let parity := (c.run.stripes.entries.map fun e => e.2.fec.parity.entries.length).sum
    recoverStripedFECLoop cfg order (parity + 1)

def handleStripedDataOrDone (cfg : RecvConfig) (order : List Nat → List Nat) (id : Nat)
    (packet : Packet) : Recv Bool :=
  handleStripedDataOrDoneWith cfg (recoverStripedFEC cfg order) id packet

/-! ## Dispatch -/

def handleStripedPacket (cfg : RecvConfig) (order : List Nat → List Nat)
    (lane stripeID totalStripes : Nat) (type : PacketType) (seq offset count : Nat)
    (payload : List UInt8) : Recv Bool := do
  updateRun fun s => (s.enableStriped totalStripes).stripeState stripeID lane
  match type with
  | .data =>
      if payload = [] then pure false
      else handleStripedDataOrDone cfg order stripeID ⟨.data, stripeID, seq, offset, 0, 0, payload⟩
  | .done => handleStripedDataOrDone cfg order stripeID ⟨.done, stripeID, seq, offset, 0, 0, []⟩
  | .parity =>
      if cfg.fecGroupSize ≤ 1 ∨ count = 0 ∨ payload = [] then pure false
      else do
        updateStripe stripeID fun st => st.storeFECParity seq offset count payload
        recoverStripedFEC cfg order
        let c ← read
        pure (stripedComplete cfg c)
  | _ => pure false

def handlePacketStripe (cfg : RecvConfig) (order : List Nat → List Nat)
    (lane stripeID totalStripes : Nat) (type : PacketType) (seq offset count : Nat)
    (payload : List UInt8) : Recv Bool := do
  let c ← read
  if stripeID ≠ 0 ∨ 1 < totalStripes ∨ c.run.striped then
    handleStripedPacket cfg order lane stripeID totalStripes type seq offset count payload
  else handleGlobalPacket cfg order type seq offset count payload

/-- A packet read on a lane.  Only a Hello announces the number of stripes, in
its sequence number; only parity carries a count, in its ack floor. -/
structure Arrival where
  lane : Nat
  packet : Packet
  order : List Nat → List Nat

def Arrival.totalStripes (a : Arrival) : Nat :=
  if a.packet.type = .hello ∧ 0 < a.packet.seq ∧ a.packet.seq ≤ maxParallelStripes then a.packet.seq
  else 1

/-- The body of `readBlastStreamReceiveLaneDirect`. -/
def receivePacket (cfg : RecvConfig) (a : Arrival) : Recv Bool :=
  handlePacketStripe cfg a.order a.lane a.packet.stripeID a.totalStripes a.packet.type a.packet.seq
    a.packet.offset (if a.packet.type = .parity then a.packet.ackFloor else 0) a.packet.payload

/-- The coordinator after some arrivals. -/
def receivePackets (cfg : RecvConfig) (c : Coord) (as : List Arrival) : Coord :=
  as.foldl (fun c a => (exec (receivePacket cfg a) c).2) c

end Probe
