import Derphole.Lib.Map
import Derphole.Lib.Run
import Derphole.WebRelay.Window

/-!
# A web relay transfer

The two ends of a transfer in `pkg/derphole/webrelay/relay.go`, from the moment the
claim was accepted: `receiveFrames` on one side, `Offer.send` with
`sendDataWindowed` and the functions it waits in on the other.

Frames go over the relay and, once a direct transport is up, over its channels.  All
that was ever sent on a path is kept, and a party may read any of it at any time, or
never: so frames are lost, duplicated and reordered on both paths.  A send that fails
loses its frame and ends the party (`fail`, `stop`).  Texts, progress callbacks and
the clock are left out; a timer may fire at any time.
-/

namespace WebRelay

open Lib

/-- `webproto.Frame`, with its payload decoded. -/
inductive Frame where
  | metadata (size : Int)
  | data (seq : Nat) (payload : List UInt8)
  | done (seq : Nat)
  | ack (bytesReceived : Nat)
  | directReady (bytesReceived nextSeq : Nat)
  | pathSwitch (bytesReceived nextSeq : Nat)
  | abort
  deriving DecidableEq

/-- The frames a step sends on each path. -/
structure Out where
  relay : List Frame
  direct : List Frame

def Out.none : Out := ⟨[], []⟩

def Out.onRelay (frame : Frame) : Out := ⟨[frame], []⟩

def Out.onDirect (frame : Frame) : Out := ⟨[], [frame]⟩

instance : Append Out := ⟨fun a b => ⟨a.relay ++ b.relay, a.direct ++ b.direct⟩⟩

/-! ## The receiver -/

inductive RecvStatus where
  | running
  | complete
  | failed
  deriving DecidableEq

/-- The local variables of `receiveFrames`, and what the sink was given. -/
structure Receiver where
  status : RecvStatus
  /-- There is a direct transport. -/
  direct : Bool
  size : Int
  opened : Bool
  expectedSeq : Nat
  received : Nat
  directActive : Bool
  pendingFrames : Map Nat (List UInt8)
  pendingBytes : Nat
  doneSeen : Bool
  doneSeq : Nat
  sink : List UInt8

namespace Receiver

def init (direct : Bool) : Receiver where
  status := .running
  direct := direct
  size := 0
  opened := false
  expectedSeq := 1
  received := 0
  directActive := false
  pendingFrames := ∅
  pendingBytes := 0
  doneSeen := false
  doneSeq := 0
  sink := []

variable (r : Receiver)

def writeFrame (payload : List UInt8) : Receiver :=
  { r with
    sink := r.sink ++ payload
    received := r.received + payload.length
    expectedSeq := r.expectedSeq + 1 }

/-- Every round takes a frame out, so the number of frames bounds the rounds. -/
def drainPending : Nat → Receiver → Receiver
  | 0, r => r
  | fuel + 1, r =>
      match r.pendingFrames.lookup r.expectedSeq with
      | none => r
      | some payload =>
          drainPending fuel
            (writeFrame
              { r with
                pendingFrames := r.pendingFrames.erase r.expectedSeq
                pendingBytes := r.pendingBytes - payload.length } payload)

/-- `abortAndReturn`. -/
def abort : Receiver × Out := ({ r with status := .failed }, .onRelay .abort)

/-- `sendAck` or `sendDirectAck`, whichever path is in use. -/
def ackData : Out :=
  if r.directActive ∧ r.direct then .onDirect (.ack r.received) else .onRelay (.ack r.received)

/-- `completeIfDone`: nothing to do, or the transfer ends. -/
def completeIfDone : Option (Receiver × Out) :=
  if r.doneSeen = false ∨ r.expectedSeq < r.doneSeq then none
  else if 0 ≤ r.size ∧ (r.received : Int) ≠ r.size then some r.abort
  else some ({ r with status := .complete }, .onRelay (.ack r.received))

def tooMany (payload : List UInt8) : Bool :=
  let limitFrames := if r.directActive then maxDirectPendingFrames else maxPendingFrames
  let limitBytes := if r.directActive then maxDirectPendingBytes else maxPendingBytes
  decide (limitFrames ≤ r.pendingFrames.entries.length) ||
    decide (limitBytes < r.pendingBytes + payload.length)

def handleData (seq : Nat) (payload : List UInt8) : Receiver × Out :=
  if r.opened = false then r.abort
  else if seq < r.expectedSeq then (r, r.ackData)
  else if r.expectedSeq < seq then
    match r.pendingFrames.lookup seq with
    | some _ => (r, r.ackData)
    | none =>
        if r.tooMany payload then r.abort
        else
          ({ r with
              pendingFrames := r.pendingFrames.insert seq payload
              pendingBytes := r.pendingBytes + payload.length }, r.ackData)
  else
    let r := drainPending (r.pendingFrames.entries.length + 1) (r.writeFrame payload)
    match r.completeIfDone with
    | none => (r, r.ackData)
    | some (r', out) => (r', r.ackData ++ out)

def handleDone (seq : Nat) : Receiver × Out :=
  let r := { r with doneSeen := true, doneSeq := seq }
  match r.completeIfDone with
  | some result => result
  | none => (r, if r.directActive then .none else .onRelay (.ack r.received))

/-- The body of the loop of `receiveFrames`. -/
def handle : Frame → Receiver × Out
  | .metadata size =>
      if r.opened then (r, .onRelay (.ack r.received))
      else ({ r with opened := true, size := size }, .onRelay (.ack 0))
  | .data seq payload => r.handleData seq payload
  | .directReady bytesReceived nextSeq =>
      if bytesReceived ≤ r.received ∧ nextSeq ≤ r.expectedSeq then
        ({ r with directActive := true }, .onRelay (.pathSwitch bytesReceived nextSeq))
      else (r, .none)
  | .done seq => r.handleDone seq
  | .abort => ({ r with status := .failed }, .none)
  | .ack _ => (r, .none)
  | .pathSwitch _ _ => (r, .none)

end Receiver

/-! ## The sender -/

/-- `directState`. -/
structure DirectState where
  ready : Bool
  active : Bool

/-- Where `Offer.send` is. -/
inductive SendPc where
  /-- In `sendFrameAwaitAck` for the metadata. -/
  | metadata
  /-- At the head of the loop of `sendDataWindowed`. -/
  | top
  /-- In the loop that reads chunks. -/
  | fill
  /-- After that loop. -/
  | filled
  /-- In `awaitRelayWindowAck`, before a switch. -/
  | settle
  | settled
  /-- Before `trySwitchDirectWithReplay`. -/
  | switch
  /-- In its loop. -/
  | switching
  /-- After it. -/
  | turn
  /-- In `awaitRelayWindowAck`. -/
  | awaitRelay
  /-- In `awaitDirectWindowAck`. -/
  | awaitDirect
  /-- In `sendFrameAwaitAck` for Done. -/
  | done
  /-- In `awaitAck` after a direct Done. -/
  | doneDirect
  | returned
  | failed
  deriving DecidableEq

/-- The local variables of `sendDataWindowed`.  `chunks` lists what was read. -/
structure Sender where
  pc : SendPc
  size : Int
  window : RelayWindow
  offset : Nat
  seq : Nat
  eof : Bool
  direct : Option DirectState
  /-- There is a direct transport. -/
  transport : Bool
  lastRetransmitAck : Option Nat
  chunks : List (List UInt8)

/-- What a poll of the direct transport finds. -/
inductive DirectEvent where
  | quiet
  | ready
  | failed
  deriving DecidableEq

inductive SendLabel where
  | poll (event : DirectEvent)
  /-- The source returns the next bytes. -/
  | read (n : Nat)
  /-- Go on where nothing is awaited. -/
  | next
  | relayFrame (frame : Frame)
  | directFrame (frame : Frame)
  | timer
  | fail (notify : Bool)

namespace Sender

/-- The metadata frame is sent at once. -/
def init (size : Int) (transport : Bool) : Sender where
  pc := .metadata
  size := size
  window := RelayWindow.new relayWindowBytes relayWindowFrames
  offset := 0
  seq := 1
  eof := false
  direct := if transport then some ⟨false, false⟩ else none
  transport := transport
  lastRetransmitAck := none
  chunks := []

variable (s : Sender)

def goto (pc : SendPc) : Option (Sender × Out) := some ({ s with pc := pc }, .none)

/-- Go on, perhaps into a wait, which has retransmitted nothing so far. -/
def enter (pc : SendPc) : Option (Sender × Out) :=
  some ({ s with pc := pc, lastRetransmitAck := none }, .none)

/-- An error return, after `notifyAbort` or without it. -/
def giveUp (notify : Bool) : Option (Sender × Out) :=
  some ({ s with pc := .failed }, if notify then .onRelay .abort else .none)

/-- `direct != nil && direct.active && directTransport != nil`. -/
def directActive : Bool := s.direct.any (fun d => d.active) && s.transport

/-- `direct != nil && direct.ready && !direct.active`. -/
def directReady : Bool := s.direct.any fun d => d.ready && !d.active

/-- `pollSendDirectState`; there is no sender after a failure of the active path. -/
def poll (event : DirectEvent) : Option Sender :=
  match s.direct, s.transport with
  | none, _ => some s
  | some _, false => some s
  | some d, true =>
      if d.active then
        if event = .failed then none else some s
      else if d.ready then
        if event = .failed then some { s with direct := some ⟨false, false⟩, transport := false }
        else some s
      else
        match event with
        | .ready => some { s with direct := some ⟨true, d.active⟩ }
        | .failed => some { s with direct := some ⟨false, false⟩, transport := false }
        | .quiet => some s

def pollTo (event : DirectEvent) (next : Sender → SendPc) : Option (Sender × Out) :=
  match s.poll event with
  | none => s.giveUp true
  | some s' => s'.enter (next s')

def chunkSize : Nat := if s.directActive then directChunkBytes else relayChunkBytes

/-- The loop over reads is left without a read. -/
def filled : Bool :=
  s.eof || !s.window.canSend s.chunkSize || (s.directReady && !s.window.empty)

/-- A chunk was read: it is put into the window and sent. -/
def readChunk (chunk : List UInt8) : Option (Sender × Out) :=
  if chunk = [] then some ({ s with eof := true, pc := .filled }, .none)
  else if directChunkBytes < chunk.length then s.giveUp s.directActive
  else
    let frame : RelayFrame := ⟨s.seq, s.offset, s.offset + chunk.length, chunk, false⟩
    some
      ({ s with
          window := (s.window.push frame).markSent s.seq
          offset := s.offset + chunk.length
          seq := s.seq + 1
          chunks := s.chunks ++ [chunk]
          pc := if s.directReady then .filled else .fill },
        if s.directActive then .onDirect (.data s.seq chunk) else .onRelay (.data s.seq chunk))

/-- `handleDirectWindowFrame`, then to `next`. -/
def handleDirectWindowFrame (frame : Frame) (next : Sender → SendPc) : Option (Sender × Out) :=
  match frame with
  | .ack bytesReceived =>
      let s' := { s with window := s.window.ack bytesReceived }
      s'.goto (next s')
  | .abort => s.giveUp true
  | _ => s.goto (next s)

def retransmitOldest : Out :=
  match s.window.firstUnacked with
  | none => .none
  | some frame => .onRelay (.data frame.seq frame.payload)

/-- A frame read in `awaitRelayWindowAck`, which returns to `resume`. -/
def awaitRelayWindowAck (frame : Frame) (resume : SendPc) : Option (Sender × Out) :=
  match frame with
  | .ack bytesReceived =>
      let s' := { s with window := s.window.ack bytesReceived }
      if s.window.acked < s'.window.acked ∨ s'.window.empty then s'.goto resume
      else if s'.lastRetransmitAck = some s'.window.acked then s'.goto s'.pc
      else some ({ s' with lastRetransmitAck := some s'.window.acked }, s'.retransmitOldest)
  | .abort => s.giveUp false
  | _ => s.goto s.pc

def awaitRelayTimer : Option (Sender × Out) :=
  some
    ({ s with lastRetransmitAck := if s.window.empty then s.lastRetransmitAck else some s.window.acked },
      s.retransmitOldest)

/-- `sendReady` of `trySwitchDirectWithReplay`. -/
def sendReady : Out :=
  .onRelay (.directReady s.window.acked
    (match s.window.replayFrom s.window.acked with
      | [] => s.seq
      | frame :: _ => frame.seq))

/-- The frames are sent again, on the direct path, and count as acknowledged. -/
def replay (frames : List RelayFrame) : Sender × Out :=
  ({ s with
      window := frames.foldl (fun w frame => w.ack frame.nextOffset) s.window },
    ⟨[], frames.map fun frame => .data frame.seq frame.payload⟩)

/-- A frame read in `trySwitchDirectWithReplay`. -/
def trySwitch (frame : Frame) : Option (Sender × Out) :=
  match frame with
  | .pathSwitch bytesReceived nextSeq =>
      if s.seq < nextSeq then s.goto s.pc
      else
        let (s', out) := s.replay (s.window.replayFrom (max bytesReceived s.window.acked))
        some
          ({ s' with
              direct := some ⟨true, true⟩
              window :=
                { s'.window with
                  maxBytes := maxDirectPendingBytes
                  maxFrames := maxDirectPendingFrames }
              pc := .turn }, out)
  | .abort => s.giveUp false
  | .ack bytesReceived => some ({ s with window := s.window.ack bytesReceived }, .none)
  | _ => s.goto s.pc

/-- The file was read and acknowledged: Done goes over the path in use. -/
def finish : Option (Sender × Out) :=
  if s.directActive then some ({ s with pc := .doneDirect }, .onDirect (.done s.seq))
  else some ({ s with pc := .done }, .onRelay (.done s.seq))

/-- The end of the loop of `sendDataWindowed`. -/
def endOfTurn : Option (Sender × Out) :=
  if s.eof && s.window.empty then s.finish
  else if s.window.empty then s.goto .top
  else if s.directActive then s.goto .awaitDirect
  else s.enter .awaitRelay

/-- A frame read in `awaitAck`. -/
def awaitAck (frame : Frame) (wantBytes : Nat) (resume : SendPc) (notify : Bool) :
    Option (Sender × Out) :=
  match frame with
  | .ack bytesReceived => if wantBytes ≤ bytesReceived then s.goto resume else s.goto s.pc
  | .abort => s.giveUp notify
  | _ => s.goto s.pc

/-- What the source returns at the offset: some of the bytes that are left. -/
def sourceRead (file : List UInt8) (offset n : Nat) : Option (List UInt8) :=
  if offset + n ≤ file.length ∧ (n = 0 → offset = file.length) then some ((file.drop offset).take n)
  else none

/-- A frame read while the direct path is in use and acknowledgements are drained. -/
def drainDirectWindowAcks (frame : Frame) : Option (Sender × Out) :=
  if s.directActive then s.handleDirectWindowFrame frame fun s' => s'.pc else none

def step (file : List UInt8) (l : SendLabel) : Option (Sender × Out) :=
  match s.pc, l with
  | .returned, _ => none
  | .failed, _ => none
  | _, .fail notify => s.giveUp notify
  | .metadata, .relayFrame frame => s.awaitAck frame 0 .top false
  | .metadata, .timer => some (s, .onRelay (.metadata s.size))
  | .top, .poll event => s.pollTo event fun _ => .fill
  | .fill, .next => if s.filled then s.goto .filled else none
  | .fill, .relayFrame frame => if s.eof then none else s.drainDirectWindowAcks frame
  | .fill, .directFrame frame => if s.eof then none else s.drainDirectWindowAcks frame
  | .fill, .read n =>
      if s.filled then none
      else
        match sourceRead file s.offset n with
        | none => none
        | some chunk => s.readChunk chunk
  | .filled, .poll event => s.pollTo event fun s' =>
      if s'.directReady ∧ s'.window.empty = false then .settle else .switch
  | .settle, .relayFrame frame => s.awaitRelayWindowAck frame .settled
  | .settle, .timer => s.awaitRelayTimer
  | .settled, .poll event => s.pollTo event fun _ => .switch
  | .switch, .next =>
      if s.directReady ∧ s.transport ∧ 0 < s.offset then
        some ({ s with pc := .switching }, s.sendReady)
      else s.goto .turn
  | .switching, .relayFrame frame => s.trySwitch frame
  | .switching, .timer => some (s, s.sendReady)
  | .turn, .relayFrame frame => s.drainDirectWindowAcks frame
  | .turn, .directFrame frame => s.drainDirectWindowAcks frame
  | .turn, .next => s.endOfTurn
  | .awaitRelay, .relayFrame frame => s.awaitRelayWindowAck frame .top
  | .awaitRelay, .timer => s.awaitRelayTimer
  | .awaitDirect, .relayFrame frame => s.handleDirectWindowFrame frame fun s' =>
      if s.window.acked < s'.window.acked ∨ s'.window.empty then .top else .awaitDirect
  | .awaitDirect, .directFrame frame => s.handleDirectWindowFrame frame fun s' =>
      if s.window.acked < s'.window.acked ∨ s'.window.empty then .top else .awaitDirect
  | .done, .relayFrame frame => s.awaitAck frame s.offset .returned false
  | .done, .timer => some (s, .onRelay (.done s.seq))
  | .doneDirect, .relayFrame frame => s.awaitAck frame s.offset .returned true
  | .doneDirect, .timer => s.giveUp true
  | _, _ => none

end Sender

/-! ## Both parties -/

/-- The two parties and all that each of them sent. -/
structure Transfer where
  sender : Sender
  receiver : Receiver
  sent : Out
  answered : Out

inductive Label where
  | send (l : SendLabel)
  /-- The receiver reads a frame. -/
  | deliver (frame : Frame)
  /-- The receiver reads a frame, and its sink fails after `n` bytes in all. -/
  | sinkFails (frame : Frame) (n : Nat)
  /-- The receiver gives up. -/
  | stop

namespace Transfer

def init (size : Int) (senderDirect receiverDirect : Bool) : Transfer where
  sender := Sender.init size senderDirect
  receiver := Receiver.init receiverDirect
  sent := .onRelay (.metadata size)
  answered := .none

variable (t : Transfer)

/-- What the sender can read. -/
def readable : SendLabel → Bool
  | .relayFrame frame => t.answered.relay.contains frame
  | .directFrame frame => t.sender.transport && t.answered.direct.contains frame
  | _ => true

/-- What the receiver can read from its merged sources. -/
def deliverable (frame : Frame) : Bool :=
  t.sent.relay.contains frame || (t.receiver.direct && t.sent.direct.contains frame)

end Transfer

def Transfer.step (file : List UInt8) (t : Transfer) (l : Label) : Option Transfer :=
  match l with
  | .send l =>
      if t.readable l then
        (t.sender.step file l).map fun (s, out) => { t with sender := s, sent := t.sent ++ out }
      else none
  | .deliver frame =>
      if t.receiver.status = .running ∧ t.deliverable frame then
        let (r, out) := t.receiver.handle frame
        some { t with receiver := r, answered := t.answered ++ out }
      else none
  | .sinkFails frame n =>
      if t.receiver.status = .running ∧ t.deliverable frame ∧ t.receiver.sink.length ≤ n then
        let (r, _) := t.receiver.handle frame
        some
          { t with
            receiver := { t.receiver with status := .failed, sink := r.sink.take n }
            answered := t.answered ++ .onRelay .abort }
      else none
  | .stop =>
      if t.receiver.status = .running then
        some { t with receiver := { t.receiver with status := .failed } }
      else none

end WebRelay
