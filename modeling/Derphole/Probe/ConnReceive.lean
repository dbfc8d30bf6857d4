import Derphole.Probe.StripedReceive

/-!
# The receiver of one connection

`receiveBlastParallelConn` of `pkg/probe/session.go` and the part of
`ReceiveBlastParallelToWriter` that decides the outcome, for one connection and one run.
The run, the destination and the count of bytes are those of a coordinator; what is new
are the flags that say whether the run waits for repairs, the two grace periods and the
channel `done`, whose closing ends the receiver.

A step handles one packet, or is a timer going off, or is about the caller's context.  Packets
that were read in one batch are handled even after `done` was closed, unless the function
returned.  When the context ends, the function finds either that out, and returns the context's
error, or that the goroutine which waits for the context has closed `done`, and returns no error.
-/

namespace Probe

open Lib

structure ConnConfig where
  /-- `spoolOutput` is not read here. -/
  recv : RecvConfig
  requireComplete : Bool
  doneTarget : Nat

structure ConnState where
  coord : Coord
  /-- `state.receivedBytes`. -/
  receivedBytes : Nat
  repairPending : Bool
  /-- The run is in `seenDoneRuns`. -/
  seenDone : Bool
  donePackets : Nat
  incompleteDoneRuns : Nat
  repairActive : Bool
  /-- The goroutine of `startRepairGrace` runs. -/
  repairGrace : Bool
  repairGraceExpired : Bool
  /-- `terminalGraceActive`. -/
  terminalGrace : Bool
  /-- `ctx.Err()`. -/
  contextErr : Option RecvErr
  /-- `done` is closed. -/
  closed : Bool
  /-- The function returned, with an error or without. -/
  returned : Bool
  failed : Option RecvErr

def ConnState.empty : ConnState where
  coord := Coord.empty
  receivedBytes := 0
  repairPending := false
  seenDone := false
  donePackets := 0
  incompleteDoneRuns := 0
  repairActive := false
  repairGrace := false
  repairGraceExpired := false
  terminalGrace := false
  contextErr := none
  closed := false
  returned := false
  failed := none

abbrev Conn := Prog ConnState RecvErr

/-- Run a function of the run and its output. -/
def onCoord {α : Type} (m : Recv α) : Conn α :=
  fun s => ((exec m s.coord).1, { s with coord := (exec m s.coord).2 })

def closeDone : Conn Unit := update fun s => { s with closed := true }

def startTerminalGrace : Conn Unit := update fun s => { s with terminalGrace := true }

def startRepairGrace : Conn Unit := update fun s => { s with repairActive := true, repairGrace := true }

def sendRepairComplete : Conn Unit := onCoord sendBlastStreamRepairCompleteAll

section

variable (cfg : ConnConfig)

def flushOrdered : Conn Unit :=
  if cfg.recv.discard then pure () else onCoord flushOrderedParallelBlastPayload

/-- The run waits for repairs no longer. -/
def clearRepair : Conn Unit :=
  update fun s =>
    if s.repairPending then { s with repairPending := false, incompleteDoneRuns := s.incompleteDoneRuns - 1 }
    else s

/-- The run waits for repairs from now on. -/
def awaitRepair : Conn Unit := do
  let s ← read
  if s.repairPending then pure ()
  else
    update fun s => { s with repairPending := true, incompleteDoneRuns := s.incompleteDoneRuns + 1 }
    startRepairGrace

def restRepair : Conn Unit :=
  update fun s => if s.incompleteDoneRuns = 0 then { s with repairActive := false } else s

/-- `maybeFinishRun`, for a run that is complete. -/
def finishRun : Conn Unit := do
  if cfg.requireComplete then flushOrdered cfg else pure ()
  clearRepair
  sendRepairComplete
  restRepair
  let s ← read
  if 0 < cfg.recv.expectedBytes ∧ cfg.recv.expectedBytes ≤ s.coord.bytesReceived then closeDone
  else if cfg.recv.expectedBytes ≤ 0 ∧ cfg.requireComplete ∧ s.coord.run.done ∧
      s.coord.run.totalBytes ≤ s.coord.bytesReceived then closeDone
  else if cfg.doneTarget ≤ s.donePackets ∧ s.incompleteDoneRuns = 0 then startTerminalGrace
  else pure ()

def maybeFinishRun : Conn Unit := do
  let s ← read
  if s.coord.run.complete = false then pure () else finishRun cfg

/-- `fastMode`. -/
def ConnConfig.fastMode : Prop := cfg.recv.expectedBytes ≤ 0 ∧ cfg.requireComplete = false

instance : Decidable cfg.fastMode := inferInstanceAs (Decidable (_ ∧ _))

/-- The receiver is finished. -/
def maybeFinishFastRun : Conn Bool := do
  let s ← read
  if s.coord.run.done = false then pure false
  else if 0 < s.coord.run.totalBytes ∧ s.receivedBytes < s.coord.run.totalBytes then pure false
  else
    clearRepair
    sendRepairComplete
    update fun s => if s.seenDone then s else { s with seenDone := true, donePackets := s.donePackets + 1 }
    restRepair
    let s ← read
    if cfg.doneTarget ≤ 1 ∨ cfg.doneTarget ≤ s.donePackets then
      closeDone
      pure true
    else pure false

/-- Take rebuilt packets in.  It ends early when the expected bytes are there. -/
def acceptRecoveredConn : List RecoveredPacket → Conn Bool
  | [] => pure false
  | p :: rest => do
      let s ← read
      if (s.coord.run.acceptData p.seq).2 then
        onCoord (updateRun fun s => (s.acceptData p.seq).1)
        onCoord (updateRun fun s => s.storeFECPayload cfg.recv.fecGroupSize p.seq p.payload)
        let written ← onCoord (writeOrderedParallelBlastPayload cfg.recv p.seq p.payload)
        onCoord (update fun c => { c with bytesReceived := c.bytesReceived + written })
        let s ← read
        if 0 < cfg.recv.expectedBytes ∧ cfg.recv.expectedBytes ≤ s.coord.bytesReceived then
          flushOrdered cfg
          sendRepairComplete
          closeDone
          pure true
        else acceptRecoveredConn rest
      else acceptRecoveredConn rest

/-- The loop of `recoverFEC`.  Every round uses up a parity packet. -/
def recoverFECConnLoop (order : List Nat → List Nat) : Nat → Conn Unit
  | 0 => pure ()
  | fuel + 1 => do
      let s ← read
      match s.coord.run.recoverFEC cfg.recv.expectedBytes order with
      | .error e => fail e
      | .ok (run, recovered) => do
          onCoord (update fun c => { c with run := run, recovered := c.recovered ++ recovered })
          if recovered = [] then pure ()
          else
            let enough ← acceptRecoveredConn cfg recovered
            if enough then pure ()
            else
              maybeFinishRun cfg
              recoverFECConnLoop order fuel

def recoverFECConn (order : List Nat → List Nat) : Conn Unit :=
  if cfg.requireComplete = false ∨ cfg.recv.fecGroupSize ≤ 1 then pure ()
  else do
    let s ← read
    recoverFECConnLoop cfg order (s.coord.run.fec.parity.entries.length + 1)

/-- A run that is short of packets gets more time. -/
def extendRepairGrace : Conn Unit := do
  let s ← read
  if cfg.requireComplete ∧ s.coord.run.done ∧ s.repairPending ∧ s.coord.run.complete = false then
    startRepairGrace
  else pure ()

/-- `writeOrderedParallelBlastPayload` or `writeParallelBlastPayload`. -/
def writeConnPayload (seq : Nat) (payload : List UInt8) : Conn Nat :=
  if cfg.requireComplete then do
    onCoord (updateRun fun s => s.storeFECPayload cfg.recv.fecGroupSize seq payload)
    onCoord (writeOrderedParallelBlastPayload cfg.recv seq payload)
  else do
    if cfg.recv.discard then pure ()
    else onCoord (update fun c => { c with dst := c.dst ++ payload })
    pure payload.length

/-- The expected bytes are there. -/
def finishExpected (order : List Nat → List Nat) : Conn Bool := do
  if cfg.requireComplete then
    recoverFECConn cfg order
    flushOrdered cfg
  else pure ()
  sendRepairComplete
  maybeFinishRun cfg
  closeDone
  pure true

/-- The rest of the handling of a payload that is written and counted. -/
def afterData (order : List Nat → List Nat) (totalReceived : Nat) : Conn Bool := do
  if 0 < cfg.recv.expectedBytes ∧ cfg.recv.expectedBytes ≤ totalReceived then finishExpected cfg order
  else
    maybeFinishRun cfg
    pure false

def handleData (order : List Nat → List Nat) (seq : Nat) (payload : List UInt8) : Conn Bool :=
  if payload = [] then pure false
  else do
    let s ← read
    if (s.coord.run.acceptData seq).2 then
      onCoord (updateRun fun s => (s.acceptData seq).1)
      let written ← writeConnPayload cfg seq payload
      update fun s => { s with receivedBytes := s.receivedBytes + written }
      onCoord (update fun c => { c with bytesReceived := c.bytesReceived + written })
      let s ← read
      let totalReceived := s.coord.bytesReceived
      recoverFECConn cfg order
      extendRepairGrace cfg
      let s ← read
      if cfg.fastMode ∧ s.coord.run.done ∧ 0 < s.coord.run.totalBytes ∧
          s.coord.run.totalBytes ≤ s.receivedBytes then
        let finished ← maybeFinishFastRun cfg
        if finished then pure true else afterData cfg order totalReceived
      else afterData cfg order totalReceived
    else pure false

def handleParity (order : List Nat → List Nat) (seq offset count : Nat) (payload : List UInt8) :
    Conn Bool :=
  if cfg.recv.fecGroupSize ≤ 1 then pure false
  else do
    onCoord (updateRun fun s => s.storeFECParity seq offset count payload)
    recoverFECConn cfg order
    extendRepairGrace cfg
    pure false

def handleDone (order : List Nat → List Nat) (seq offset : Nat) : Conn Bool := do
  onCoord (updateRun fun s => s.markDoneWithTotalBytes seq offset)
  recoverFECConn cfg order
  if cfg.fastMode then
    let s ← read
    if cfg.requireComplete = false ∧ 0 < offset ∧ s.receivedBytes < offset then
      awaitRepair
      pure false
    else maybeFinishFastRun cfg
  else
    update fun s => if s.seenDone then s else { s with seenDone := true, donePackets := s.donePackets + 1 }
    let s ← read
    if s.coord.run.complete then
      maybeFinishRun cfg
      pure false
    else
      awaitRepair
      let s ← read
      if cfg.doneTarget ≤ s.donePackets ∧ s.incompleteDoneRuns = 0 then startTerminalGrace else pure ()
      pure false

/-- The body of `receiveBlastParallelConn`: the function returns. -/
def receiveConnPacket (a : Arrival) : Conn Bool :=
  match a.packet.type with
  | .data => handleData cfg a.order a.packet.seq a.packet.payload
  | .parity => handleParity cfg a.order a.packet.seq a.packet.offset a.packet.ackFloor a.packet.payload
  | .done => handleDone cfg a.order a.packet.seq a.packet.offset
  | _ => pure false

end

/-- What the environment can do next. -/
inductive ConnLabel where
  | packet (a : Arrival)
  /-- `requestKnownRepairs` finds a gap that is old enough. -/
  | requestKnownRepairs
  | terminalGraceEnds
  | repairGraceEnds
  /-- No packet came for a while. -/
  | dataIdle
  /-- `fastIncompleteDoneError` gives up. -/
  | fastIncompleteDone
  /-- The context is cancelled, or its deadline is over. -/
  | contextEnds (err : RecvErr)
  /-- The goroutine that waits for the context closes `done`. -/
  | contextCloses
  /-- A read fails, and `done` is not closed yet. -/
  | contextReturns

namespace ConnState

/-- An error closes `done`. -/
def stop (s : ConnState) (e : RecvErr) : ConnState :=
  { s with closed := true, returned := true, failed := some e }

def step (cfg : ConnConfig) (s : ConnState) : ConnLabel → Option ConnState
  | .packet a =>
      if s.returned then none
      else
        match exec (receiveConnPacket cfg a) s with
        | (.ok finished, t) => some { t with returned := finished }
        | (.error e, t) => some (t.stop e)
  | .requestKnownRepairs =>
      if s.returned = false ∧ cfg.requireComplete then some { s with repairActive := true } else none
  | .terminalGraceEnds => if s.terminalGrace then some { s with closed := true } else none
  | .repairGraceEnds =>
      if s.repairGrace ∧ s.repairActive then some { s with repairGraceExpired := true, closed := true }
      else none
  | .dataIdle =>
      if cfg.requireComplete = false ∧ 0 < s.coord.bytesReceived ∧ s.terminalGrace = false ∧
          s.repairActive = false then some { s with closed := true }
      else none
  | .fastIncompleteDone =>
      if cfg.fastMode ∧ s.returned = false ∧ s.coord.run.done ∧
          s.receivedBytes < s.coord.run.totalBytes then
        some (s.stop (.incomplete "blast" s.receivedBytes s.coord.run.totalBytes))
      else none
  | .contextEnds err => if s.contextErr = none then some { s with contextErr := some err } else none
  | .contextCloses => if s.contextErr = none then none else some { s with closed := true }
  | .contextReturns =>
      match s.contextErr with
      | none => none
      | some err => if s.closed = false ∧ s.returned = false then some (s.stop err) else none

/-- `ReceiveBlastParallelToWriter` returns without an error. -/
def succeeds (cfg : ConnConfig) (s : ConnState) : Bool :=
  s.closed && s.failed.isNone && !(s.repairGraceExpired && decide (0 < s.incompleteDoneRuns)) &&
    !(decide (0 < cfg.recv.expectedBytes) && decide (s.coord.bytesReceived < cfg.recv.expectedBytes) &&
      (cfg.requireComplete || decide (s.coord.bytesReceived = 0) || s.contextErr.isSome))

end ConnState

end Probe
