import Derphole.Probe.ReceiveRun

/-!
# The global receive path

`handleGlobalPacketLocked` of `pkg/probe/session.go` and what it calls: a run
that is not striped numbers its packets once and writes them in that order, or
puts them into a spool file by offset.  Lost packets may come back through
parity.

Go iterates over a map in any order.  Where that can be seen, the functions take
an `order`, which lists the keys of a map in the order of the iteration.
-/

namespace Probe

open Lib

namespace RunSeqs

/-- Whether the packet was new.  The code's numbers are `uint64`, and `word` is what a sum becomes:
the identity as long as the numbers stay within the range. -/
def acceptData (s : RunSeqs) (word : Nat → Nat) (seq : Nat) : RunSeqs × Bool :=
  if (s.seen.add seq).2 then
    ({ s with seen := (s.seen.add seq).1, maxSeqPlusOne := max s.maxSeqPlusOne (word (seq + 1)) }, true)
  else (s, false)

def markDoneWithTotalBytes (s : RunSeqs) (totalPackets totalBytes : Nat) : RunSeqs :=
  { s with totalPackets := max totalPackets s.maxSeqPlusOne, totalBytes := totalBytes, done := true }

def complete (s : RunSeqs) : Bool := s.done && decide (s.totalPackets ≤ s.seen.len)

end RunSeqs

namespace RunState

def acceptData (s : RunState) (seq : Nat) : RunState × Bool :=
  ({ s with toRunSeqs := (s.toRunSeqs.acceptData id seq).1 }, (s.toRunSeqs.acceptData id seq).2)

theorem acceptData_new {s : RunState} {seq : Nat} (h : (s.seen.add seq).2 = true) :
    s.acceptData seq = ({ s with
      seen := (s.seen.add seq).1, maxSeqPlusOne := max s.maxSeqPlusOne (seq + 1) }, true) := by
  rw [acceptData, RunSeqs.acceptData, if_pos h]
  rfl

theorem acceptData_old {s : RunState} {seq : Nat} (h : (s.seen.add seq).2 = false) :
    s.acceptData seq = (s, false) := by
  rw [acceptData, RunSeqs.acceptData, if_neg (by rw [h]; exact Bool.false_ne_true)]

theorem add_of_acceptData {s : RunState} {seq : Nat} (h : (s.acceptData seq).2 = true) :
    (s.seen.add seq).2 = true := by
  by_contra hold
  rw [acceptData_old (Bool.not_eq_true _ ▸ hold)] at h
  cases h

def markDoneWithTotalBytes (s : RunState) (totalPackets totalBytes : Nat) : RunState :=
  { s with toRunSeqs := s.toRunSeqs.markDoneWithTotalBytes totalPackets totalBytes }

def storeFECPayload (s : RunState) (groupSize seq : Nat) (payload : List UInt8) : RunState :=
  { s with fec := s.fec.storeFECPayload s.seen groupSize seq payload }

def storeFECParity (s : RunState) (startSeq offset count : Nat) (payload : List UInt8) : RunState :=
  { s with fec := s.fec.storeFECParity s.seen startSeq offset count payload }

/-- The size of the stream as far as it is known, or zero. -/
def knownTotalBytes (s : RunState) (expectedBytes : Int) : Nat :=
  if s.done then s.totalBytes else expectedBytes.toNat

/-- What one parity packet gives.  Indexing past the parity payload panics. -/
def recoverParity (s : RunState) (known : Nat) (p : FecParity) :
    Except RecvErr (Fec × List RecoveredPacket) :=
  if known = 0 ∧ s.maxSeqPlusOne ≤ p.startSeq + p.count then .ok (s.fec, [])
  else
    match missingIn s.seen p.startSeq p.count with
    | [] => .ok (s.fec.cleanupFECGroupIfComplete s.seen p.startSeq p.count, [])
    | [missingSeq] =>
        match s.fec.groups.lookup p.startSeq with
        | none => .ok (s.fec, [])
        | some [] => .ok (s.fec, [])
        | some (b :: xor) =>
            if p.payload.length < (b :: xor).length then .error .outOfRange
            else
              let offset := p.offset + (missingSeq - p.startSeq) * p.payload.length
              let dropped : Fec := ⟨s.fec.groups, s.fec.parity.erase p.startSeq⟩
              if 0 < known ∧ known ≤ offset then .ok (dropped, [])
              else
                let payload := xorInto p.payload (b :: xor)
                .ok (dropped, [⟨missingSeq, offset,
                  if offset < known then payload.take (known - offset) else payload⟩])
    | _ :: _ :: _ => .ok (s.fec, [])

/-- `blastReceiveRunState.recoverFEC` over the parity packets listed. -/
def recoverFECKeys (known : Nat) : List Nat → RunState → Except RecvErr (RunState × List RecoveredPacket)
  | [], s => .ok (s, [])
  | key :: keys, s =>
      match s.fec.parity.lookup key with
      | none => recoverFECKeys known keys s
      | some p => do
          let (fec, here) ← recoverParity s known p
          let (s', rest) ← recoverFECKeys known keys { s with fec := fec }
          .ok (s', here ++ rest)

def recoverFEC (s : RunState) (expectedBytes : Int) (order : List Nat → List Nat) :
    Except RecvErr (RunState × List RecoveredPacket) :=
  recoverFECKeys (s.knownTotalBytes expectedBytes) (order s.fec.parity.keys) s

/-- Advance over everything seen.  The loop ends, since finitely many numbers
were seen. -/
def skipSeen (seen : SeqSet) : Nat → Nat → Nat
  | 0, next => next
  | fuel + 1, next => if seen.has next then skipSeen seen fuel (next + 1) else next

def advanceWriteSeq (s : RunState) (seq : Nat) : RunState :=
  if seq ≠ s.nextWriteSeq then s
  else { s with nextWriteSeq := skipSeen s.seen (s.seen.len + 1) s.nextWriteSeq }

end RunState

/-! ## Writing -/

/-- The loop over pending payloads of `writeOrderedParallelBlastPayload`.  Every
round deletes one, so the number of entries bounds the rounds. -/
def writePending (cfg : RecvConfig) : Nat → Nat → Recv Nat
  | 0, total => pure total
  | fuel + 1, total => do
      let c ← read
      match c.run.pending.lookup c.run.nextWriteSeq with
      | none => pure total
      | some next => do
          if cfg.discard then pure () else bufferOrderedParallelBlastPayload next
          updateRun fun s =>
            { s with pending := s.pending.erase s.nextWriteSeq, nextWriteSeq := s.nextWriteSeq + 1 }
          writePending cfg fuel (total + next.length)

def writeOrderedParallelBlastPayload (cfg : RecvConfig) (seq : Nat) (payload : List UInt8) :
    Recv Nat := do
  let c ← read
  if c.run.nextWriteSeq < seq then
    updateRun fun s => { s with pending := s.pending.insert seq payload }
    pure 0
  else if seq < c.run.nextWriteSeq then pure 0
  else
    if cfg.discard then pure () else bufferOrderedParallelBlastPayload payload
    updateRun fun s => { s with nextWriteSeq := s.nextWriteSeq + 1 }
    writePending cfg (c.run.pending.entries.length + 1) payload.length

def writeSpoolParallelBlastPayload (cfg : RecvConfig) (seq offset : Nat) (payload : List UInt8) :
    Recv Nat := do
  if cfg.discard then pure ()
  else updateRun fun s => { s with spool := some ((s.spool.getD []).writeAt offset payload) }
  updateRun fun s => s.advanceWriteSeq seq
  pure payload.length

def writeGlobalPayload (cfg : RecvConfig) (seq offset : Nat) (payload : List UInt8) : Recv Nat :=
  if cfg.spoolOutput then writeSpoolParallelBlastPayload cfg seq offset payload
  else writeOrderedParallelBlastPayload cfg seq payload

/-- The spool is copied and removed. -/
def flushSpoolParallelBlastPayload (cfg : RecvConfig) : Recv Unit := do
  let c ← read
  match c.run.spool with
  | none => pure ()
  | some file => do
      updateRun fun s => { s with spool := none }
      if cfg.discard ∨ c.run.totalBytes = 0 then pure ()
      else
        update fun c' => { c' with dst := c'.dst ++ file.readAt 0 c.run.totalBytes }
        if file.length < c.run.totalBytes then fail .unexpectedEOF else pure ()

def flushGlobalPayload (cfg : RecvConfig) : Recv Unit :=
  if cfg.spoolOutput then flushSpoolParallelBlastPayload cfg
  else if cfg.discard then pure ()
  else flushOrderedParallelBlastPayload

/-! ## Packets -/

def completeRun (cfg : RecvConfig) : Recv Bool := do
  let c ← read
  if c.run.complete then
    validateFinalTotal cfg "blast" c.run.totalBytes
    flushGlobalPayload cfg
    sendBlastStreamRepairCompleteAll
    pure true
  else pure false

/-- Take a new payload in: count it for recovery, write it and count it. -/
def acceptGlobalPayload (cfg : RecvConfig) (seq offset : Nat) (payload : List UInt8) : Recv Unit := do
  updateRun fun s => s.storeFECPayload cfg.fecGroupSize seq payload
  let written ← writeGlobalPayload cfg seq offset payload
  update fun c => { c with bytesReceived := c.bytesReceived + written }

def acceptRecovered (cfg : RecvConfig) : List RecoveredPacket → Recv Unit
  | [] => pure ()
  | p :: rest => do
      let c ← read
      if (c.run.acceptData p.seq).2 then
        updateRun fun s => (s.acceptData p.seq).1
        acceptGlobalPayload cfg p.seq p.offset p.payload
      acceptRecovered cfg rest

/-- The loop of `recoverFEC`.  Every round uses up a parity packet. -/
def recoverFECLoop (cfg : RecvConfig) (order : List Nat → List Nat) : Nat → Recv Unit
  | 0 => pure ()
  | fuel + 1 => do
      let c ← read
      match c.run.recoverFEC cfg.expectedBytes order with
      | .error e => fail e
      | .ok (run, recovered) => do
          update fun c => { c with run := run, recovered := c.recovered ++ recovered }
          if recovered = [] then pure ()
          else
            acceptRecovered cfg recovered
            let _ ← completeRun cfg
            recoverFECLoop cfg order fuel

def recoverFEC (cfg : RecvConfig) (order : List Nat → List Nat) : Recv Unit :=
  if cfg.fecGroupSize ≤ 1 then pure ()
  else do
    let c ← read
    recoverFECLoop cfg order (c.run.fec.parity.entries.length + 1)

def handleGlobalPacket (cfg : RecvConfig) (order : List Nat → List Nat) (type : PacketType)
    (seq offset count : Nat) (payload : List UInt8) : Recv Bool :=
  match type with
  | .data =>
      if payload = [] then pure false
      else do
        let c ← read
        if (c.run.acceptData seq).2 then
          updateRun fun s => (s.acceptData seq).1
          acceptGlobalPayload cfg seq offset payload
          recoverFEC cfg order
          let complete ← completeRun cfg
          let c ← read
          pure (complete || (decide (0 < cfg.expectedBytes) &&
            decide (cfg.expectedBytes ≤ c.bytesReceived) && c.run.done))
        else pure false
  | .parity =>
      if cfg.fecGroupSize ≤ 1 then pure false
      else do
        updateRun fun s => s.storeFECParity seq offset count payload
        recoverFEC cfg order
        pure false
  | .done => do
      updateRun fun s => s.markDoneWithTotalBytes seq offset
      recoverFEC cfg order
      completeRun cfg
  | _ => pure false

end Probe
