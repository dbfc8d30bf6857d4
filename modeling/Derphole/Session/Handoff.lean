import Derphole.Lib.Map
import Derphole.Session.Spool

/-!
# The relay prefix and the handoff

`sendExternalHandoffDERP` and `receiveExternalHandoffDERP` of `pkg/session/external_direct_udp.go`, with
`externalHandoffReceiver` and the part of `sendExternalViaRelayPrefixThenDirectUDP` that stops the relay
and rewinds the spool.

Frames travel in order in both directions, and any of them may be lost.  A label is what one of the
goroutines does between two points where another may come in: the loop of the sender, its goroutine for
acknowledgements, the one that watches the stop signal, `pumpSource`, the caller, and the receiver.
Sends that fail, a cancelled context and the timer of the handoff are one label, by which the loop
returns an error.  A data frame is opened to the chunk that was sealed.
-/

namespace Session

open Lib

def externalHandoffMaxUnackedBytes : Nat := 64 * 1024 * 1024

def externalRelayPrefixDERPChunkSize : Nat := 32 * 1024

def externalRelayPrefixDERPMaxUnacked : Nat := 512 * 1024

def externalRelayPrefixDERPSustainedMax : Nat := 64 * 1024

def externalRelayPrefixDERPStartupBytes : Nat := 4 * 1024 * 1024

/-! ## The receiver -/

/-- `externalHandoffReceiver`, with all bytes its output was given. -/
structure HandoffReceiver where
  out : List UInt8
  maxWindow : Nat
  watermark : Nat
  pending : Map Nat (List UInt8)
  buffered : Nat

namespace HandoffReceiver

def new (maxWindow : Nat) : HandoffReceiver := ⟨[], maxWindow, 0, ∅, 0⟩

/-- A write that fails: how many succeed before it, and how many bytes it writes. -/
structure WriteFault where
  after : Nat
  written : Nat

/-- The loop of `AcceptChunk`, which removes an entry in every round. -/
def drain : Nat → Option WriteFault → HandoffReceiver → Bool × HandoffReceiver
  | 0, _, r => (true, r)
  | fuel + 1, fault, r =>
      match r.pending.lookup r.watermark with
      | none => (true, r)
      | some next =>
          match fault with
          | some ⟨0, written⟩ => (false, { r with out := r.out ++ next.take written })
          | _ =>
              drain fuel (fault.map fun f => { f with after := f.after - 1 })
                { r with
                  out := r.out ++ next
                  pending := r.pending.erase r.watermark
                  buffered := r.buffered - next.length
                  watermark := r.watermark + next.length }

/-- `AcceptChunk`, and whether it returned without an error. -/
def acceptChunk (r : HandoffReceiver) (chunk : HandoffChunk) (fault : Option WriteFault) :
    Bool × HandoffReceiver :=
  if chunk.payload.length = 0 then (true, r)
  else if chunk.offset + chunk.payload.length ≤ r.watermark then (true, r)
  else
    let payload := chunk.payload.drop (r.watermark - chunk.offset)
    let offset := max chunk.offset r.watermark
    if offset > r.watermark + r.maxWindow then (false, r)
    else
      match r.pending.lookup offset with
      | some old => (old == payload, r)
      | none =>
          if r.buffered + payload.length > r.maxWindow then (false, r)
          else
            drain (r.pending.entries.length + 1) fault
              { r with
                pending := r.pending.insert offset payload
                buffered := r.buffered + payload.length }

end HandoffReceiver

/-- Frames to the receiver. -/
inductive PrefixFrame where
  | data (chunk : HandoffChunk)
  | eof (offset : Nat)
  | handoff (offset : Nat)
  deriving DecidableEq

/-- Frames to the sender. -/
structure PrefixAck where
  handoff : Bool
  watermark : Nat
  deriving DecidableEq

/-- How `receiveExternalHandoffDERP` stands: it returns nil, `errExternalHandoffCarrierHandoff`, or
another error. -/
inductive PrefixStatus where
  | running
  | finished
  | handedOff
  | failed
  deriving DecidableEq

structure PrefixReceiver where
  rx : HandoffReceiver
  eofOffset : Option Nat
  status : PrefixStatus

namespace PrefixReceiver

def new : PrefixReceiver := ⟨.new externalHandoffMaxUnackedBytes, none, .running⟩

variable (r : PrefixReceiver)

def ack : PrefixAck := ⟨false, r.rx.watermark⟩

/-- `finishIfBoundaryReached`. -/
def finishIfBoundaryReached : PrefixReceiver × List PrefixAck :=
  match r.eofOffset with
  | none => (r, [])
  | some eofOffset =>
      if r.rx.watermark ≥ eofOffset then ({ r with status := .finished }, [r.ack]) else (r, [])

/-- One round of the loop. -/
def handle (fault : Option HandoffReceiver.WriteFault) : PrefixFrame → PrefixReceiver × List PrefixAck
  | .data chunk =>
      match r.rx.acceptChunk chunk fault with
      | (false, rx) => ({ r with rx := rx, status := .failed }, [])
      | (true, rx) =>
          let r' := { r with rx := rx }
          (r'.finishIfBoundaryReached.1, r'.ack :: r'.finishIfBoundaryReached.2)
  | .eof offset => { r with eofOffset := some offset }.finishIfBoundaryReached
  | .handoff _ => ({ r with status := .handedOff }, [⟨true, r.rx.watermark⟩])

end PrefixReceiver

/-! ## The sender -/

/-- Where the loop of `sendExternalHandoffDERP` is. -/
inductive PrefixPc where
  /-- At the check of the stop signal. -/
  | top
  | next
  /-- In `NextChunk`. -/
  | waiting (chunkLen : Nat)
  | data (chunk : HandoffChunk)
  | eof
  /-- In `waitForCompleteAck`. -/
  | complete
  /-- In the select after a full window or a pending source. -/
  | pending
  /-- The signal was seen, at the top of the loop or in that select, and the spool was not done. -/
  | bound (top : Bool)
  | handoff (boundary : Nat)
  /-- In `waitForHandoffAck`. -/
  | handoffSent (boundary : Nat)
  | returned (ok : Bool)
  deriving DecidableEq

/-- The goroutine for acknowledgements. -/
inductive AckPc where
  | receiving
  | acked (handoff : Bool)
  | checking
  | exited
  deriving DecidableEq

/-- `sendExternalViaRelayPrefixThenDirectUDP` around the relay.  The stop signal is given when it is no
longer `relaying`. -/
inductive PrefixCaller where
  | relaying
  | stopping
  /-- `handoffRelay` has the result, then the watermark, and then knows that the spool is not done. -/
  | returned
  | marked (watermark : Nat)
  | rewinding (watermark : Nat)
  | rewound (watermark : Nat)
  /-- The reader is made, and the direct path goes on from the watermark. -/
  | direct (watermark : Nat)
  /-- It returns with everything sent on the relay. -/
  | finished
  | failed
  deriving DecidableEq

structure RelayPrefix where
  spool : Spool
  pc : PrefixPc
  ackPc : AckPc
  /-- `ackErrCh`: whether the goroutine ended without an error. -/
  ackErr : Option Bool
  ackEvents : Nat
  handoffAckEvents : Nat
  /-- The goroutine that watches the signal is about to interrupt the spool. -/
  watching : Bool
  caller : PrefixCaller
  /-- Frames on the relay, the oldest first. -/
  frames : List PrefixFrame
  acks : List PrefixAck
  receiver : PrefixReceiver
  /-- Where the data sent so far ends, and which of the other frames were sent. -/
  sentTo : Nat
  sentEOF : Bool
  sentHandoff : Bool

inductive PrefixLabel where
  /-- A step of `pumpSource`. -/
  | turn
  | pull (n : Nat) (result : SourceResult)
  | store
  | storeFails (written : Nat)
  /-- The loop of the sender. -/
  | stopSeen
  | boundary
  | pass
  | enter
  | take
  | takeFails
  | giveUp
  | sendData
  | sendEOF
  | sendHandoff
  | pendingAck
  | pendingTimer
  | ackResult
  | completeAck
  | complete
  | handoffAck
  | anyAck
  | boundaryReached
  | fail
  /-- The goroutine for acknowledgements. -/
  | ackRecv
  | ackEvent
  | ackCheck
  | ackFails
  | watch
  | interrupt
  /-- The caller. -/
  | closeStop
  | result
  | mark
  | checkDone
  | rewind
  | newReader
  | readerEnter
  | readerTake (chunkLen : Nat)
  | readerTakeFails (chunkLen : Nat)
  | readerGiveUp (chunkLen : Nat)
  | readerCopy (n : Nat)
  /-- The relay and the receiver. -/
  | loseFrame (i : Nat)
  | loseAck (i : Nat)
  | deliver (fault : Option HandoffReceiver.WriteFault)
  | receiverFails

/-- `Done`. -/
def Spool.done (s : Spool) : Bool := s.eof && decide (s.ackedWatermark ≥ s.sourceOffset)

namespace RelayPrefix

def init : RelayPrefix where
  spool := .new externalRelayPrefixDERPChunkSize externalRelayPrefixDERPMaxUnacked
  pc := .top
  ackPc := .receiving
  ackErr := none
  ackEvents := 0
  handoffAckEvents := 0
  watching := false
  caller := .relaying
  frames := []
  acks := []
  receiver := .new
  sentTo := 0
  sentEOF := false
  sentHandoff := false

section

variable (S : List UInt8) (s : RelayPrefix)

def stopped : Bool := s.caller != .relaying

/-- A step of `pumpSource`. -/
def pump (l : SpoolLabel) : Option RelayPrefix := (s.spool.step S l).map fun p => { s with spool := p }

/-- The signal is seen at the top of the loop, or in the select. -/
def stopSeen : Option RelayPrefix :=
  if s.stopped then
    match s.pc with
    | .top => some { s with pc := if s.spool.done then .returned true else .bound true }
    | .pending => some { s with pc := if s.spool.done then .returned true else .bound false }
    | _ => none
  else none

/-- `handoffBoundary`, and on with the loop when nothing was read yet. -/
def boundary : Option RelayPrefix :=
  match s.pc with
  | .bound top =>
      some
        { s with
          pc :=
            if s.spool.readOffset > 0 then .handoff s.spool.readOffset
            else if top then .next
            else .top }
  | _ => none

/-- The signal is not there. -/
def pass : Option RelayPrefix := if s.pc = .top ∧ ¬ s.stopped then some { s with pc := .next } else none

/-- The limit of the window is set, and `NextChunk` is called. -/
def enter : Option RelayPrefix :=
  if s.pc = .next then
    let p :=
      if s.spool.readOffset ≥ externalRelayPrefixDERPStartupBytes then
        s.spool.setMaxUnacked externalRelayPrefixDERPSustainedMax
      else s.spool
    (p.enter .carrier).map fun p' =>
      { s with
        spool := p'
        pc := if p'.waiting = p.waiting then .pending else .waiting p.chunkLen.toNat }
  else none

def take : Option RelayPrefix :=
  match s.pc with
  | .waiting chunkLen =>
      match s.spool.take .carrier chunkLen with
      | none => none
      | some p =>
          match p.returned.getLast? with
          | none => none
          | some chunk => some { s with spool := p, pc := .data chunk }
  | _ => none

def takeFails : Option RelayPrefix :=
  match s.pc with
  | .waiting chunkLen =>
      (s.spool.takeFails .carrier chunkLen).map fun p => { s with spool := p, pc := .returned false }
  | _ => none

def giveUp : Option RelayPrefix :=
  match s.pc with
  | .waiting chunkLen =>
      (s.spool.giveUp .carrier chunkLen).map fun p =>
        { s with
          spool := p
          pc :=
            if s.spool.readInterrupted then .pending
            else if s.spool.readErr then .returned false
            else if s.spool.eof then .eof
            else .returned false }
  | _ => none

def sendData : Option RelayPrefix :=
  match s.pc with
  | .data chunk =>
      some
        { s with
          pc := .top
          frames := s.frames ++ [.data chunk]
          sentTo := chunk.offset + chunk.payload.length }
  | _ => none

def sendEOF : Option RelayPrefix :=
  if s.pc = .eof then
    some
      { s with
        pc := .complete
        frames := s.frames ++ [.eof s.spool.sourceOffset]
        sentEOF := true }
  else none

/-- `drainAckEvents`, and the handoff. -/
def sendHandoff : Option RelayPrefix :=
  match s.pc with
  | .handoff boundary =>
      some
        { s with
          pc := .handoffSent boundary
          ackEvents := 0
          handoffAckEvents := 0
          frames := s.frames ++ [.handoff boundary]
          sentHandoff := true }
  | _ => none

/-- The other cases of the select. -/
def pendingAck : Option RelayPrefix :=
  if s.pc = .pending ∧ s.ackEvents > 0 then
    some { s with pc := .top, ackEvents := s.ackEvents - 1 }
  else none

def pendingTimer : Option RelayPrefix := if s.pc = .pending then some { s with pc := .top } else none

/-- The result of the goroutine for acknowledgements is taken.  In `waitForCompleteAck` it only ends the
loop when it is an error. -/
def ackResult : Option RelayPrefix :=
  match s.ackErr with
  | none => none
  | some ok =>
      match s.pc with
      | .pending => some { s with pc := .returned ok, ackErr := none }
      | .handoffSent _ => some { s with pc := .returned ok, ackErr := none }
      | .complete => some { s with pc := if ok then .complete else .returned false, ackErr := none }
      | _ => none

def completeAck : Option RelayPrefix :=
  if s.pc = .complete ∧ s.ackEvents > 0 then some { s with ackEvents := s.ackEvents - 1 } else none

def complete : Option RelayPrefix :=
  if s.pc = .complete ∧ s.spool.done then some { s with pc := .returned true } else none

def handoffAck : Option RelayPrefix :=
  match s.pc with
  | .handoffSent _ =>
      if s.handoffAckEvents > 0 then
        some { s with pc := .returned true, handoffAckEvents := s.handoffAckEvents - 1 }
      else none
  | _ => none

def anyAck : Option RelayPrefix :=
  match s.pc with
  | .handoffSent _ => if s.ackEvents > 0 then some { s with ackEvents := s.ackEvents - 1 } else none
  | _ => none

def boundaryReached : Option RelayPrefix :=
  match s.pc with
  | .handoffSent boundary =>
      if s.spool.ackedWatermark ≥ boundary then some { s with pc := .returned true } else none
  | _ => none

/-- `NextChunk` knows nothing of the context, nor do the checks of the signal. -/
def fail : Option RelayPrefix :=
  match s.pc with
  | .top | .waiting _ | .bound _ | .returned _ => none
  | _ => some { s with pc := .returned false }

def ackRecv : Option RelayPrefix :=
  match s.ackPc, s.acks with
  | .receiving, ack :: acks =>
      if ack.watermark > s.spool.sourceOffset ∧ ¬ ack.watermark < s.spool.ackedWatermark then
        some { s with acks := acks, ackPc := .exited, ackErr := some false }
      else
        some
          { s with
            acks := acks
            spool := s.spool.ackTo ack.watermark
            ackPc := .acked ack.handoff }
  | _, _ => none

/-- The channels of events have room for 128 and 16 of them. -/
def ackEvent : Option RelayPrefix :=
  match s.ackPc with
  | .acked true =>
      some { s with ackPc := .checking, handoffAckEvents := min 16 (s.handoffAckEvents + 1) }
  | .acked false => some { s with ackPc := .checking, ackEvents := min 128 (s.ackEvents + 1) }
  | _ => none

def ackCheck : Option RelayPrefix :=
  if s.ackPc = .checking then
    some
      (if s.spool.done then { s with ackPc := .exited, ackErr := some true }
      else { s with ackPc := .receiving })
  else none

def ackFails : Option RelayPrefix :=
  if s.ackPc = .receiving then some { s with ackPc := .exited, ackErr := some false } else none

/-- The signal is seen while the loop has not returned. -/
def watch : Option RelayPrefix :=
  match s.pc with
  | .returned _ => none
  | _ => if s.stopped then some { s with watching := true } else none

def interrupt : Option RelayPrefix :=
  if s.watching then
    some { s with spool := { s.spool with readInterrupted := true }, watching := false }
  else none

def closeStop : Option RelayPrefix :=
  if s.caller = .relaying then some { s with caller := .stopping } else none

/-- The result of `sendExternalHandoffDERP`, in the loop of the caller or in `handoffRelay`. -/
def result : Option RelayPrefix :=
  match s.pc, s.caller with
  | .returned ok, .relaying => some { s with caller := if ok then .finished else .failed }
  | .returned ok, .stopping => some { s with caller := if ok then .returned else .failed }
  | _, _ => none

def mark : Option RelayPrefix :=
  if s.caller = .returned then some { s with caller := .marked s.spool.ackedWatermark } else none

def checkDone : Option RelayPrefix :=
  match s.caller with
  | .marked watermark =>
      some { s with caller := if s.spool.done then .finished else .rewinding watermark }
  | _ => none

def rewind : Option RelayPrefix :=
  match s.caller with
  | .rewinding watermark =>
      if watermark < s.spool.ackedWatermark ∨ watermark > s.spool.sourceOffset then
        some { s with caller := .failed }
      else some { s with spool := s.spool.rewindTo watermark, caller := .rewound watermark }
  | _ => none

def newReader : Option RelayPrefix :=
  match s.caller with
  | .rewound watermark => some { s with spool := s.spool.newReader, caller := .direct watermark }
  | _ => none

/-- A step of the reader, for the direct path. -/
def reader (l : SpoolLabel) : Option RelayPrefix :=
  match s.caller with
  | .direct _ => (s.spool.step S l).map fun p => { s with spool := p }
  | _ => none

def deliver (fault : Option HandoffReceiver.WriteFault) : Option RelayPrefix :=
  match s.receiver.status, s.frames with
  | .running, frame :: frames =>
      some
        { s with
          frames := frames
          receiver := (s.receiver.handle fault frame).1
          acks := s.acks ++ (s.receiver.handle fault frame).2 }
  | _, _ => none

def receiverFails : Option RelayPrefix :=
  if s.receiver.status = .running then
    some { s with receiver := { s.receiver with status := .failed } }
  else none

end

def step (S : List UInt8) (s : RelayPrefix) : PrefixLabel → Option RelayPrefix
  | .turn => s.pump S .turn
  | .pull n result => s.pump S (.pull n result)
  | .store => s.pump S .store
  | .storeFails written => s.pump S (.storeFails written)
  | .stopSeen => s.stopSeen
  | .boundary => s.boundary
  | .pass => s.pass
  | .enter => s.enter
  | .take => s.take
  | .takeFails => s.takeFails
  | .giveUp => s.giveUp
  | .sendData => s.sendData
  | .sendEOF => s.sendEOF
  | .sendHandoff => s.sendHandoff
  | .pendingAck => s.pendingAck
  | .pendingTimer => s.pendingTimer
  | .ackResult => s.ackResult
  | .completeAck => s.completeAck
  | .complete => s.complete
  | .handoffAck => s.handoffAck
  | .anyAck => s.anyAck
  | .boundaryReached => s.boundaryReached
  | .fail => s.fail
  | .ackRecv => s.ackRecv
  | .ackEvent => s.ackEvent
  | .ackCheck => s.ackCheck
  | .ackFails => s.ackFails
  | .watch => s.watch
  | .interrupt => s.interrupt
  | .closeStop => s.closeStop
  | .result => s.result
  | .mark => s.mark
  | .checkDone => s.checkDone
  | .rewind => s.rewind
  | .newReader => s.newReader
  | .readerEnter => s.reader S (.enter .reader)
  | .readerTake chunkLen => s.reader S (.take .reader chunkLen)
  | .readerTakeFails chunkLen => s.reader S (.takeFails .reader chunkLen)
  | .readerGiveUp chunkLen => s.reader S (.giveUp .reader chunkLen)
  | .readerCopy n => s.reader S (.copy n)
  | .loseFrame i => if i < s.frames.length then some { s with frames := s.frames.eraseIdx i } else none
  | .loseAck i => if i < s.acks.length then some { s with acks := s.acks.eraseIdx i } else none
  | .deliver fault => s.deliver fault
  | .receiverFails => s.receiverFails

end RelayPrefix

end Session
