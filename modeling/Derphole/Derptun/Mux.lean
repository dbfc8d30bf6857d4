import Derphole.Lib.Map
import Derphole.Lib.Run
import Derphole.Lib.Slice
import Mathlib.Algebra.Ring.Nat
import Mathlib.Logic.Function.Basic

/-!
# The stream multiplexer

`Mux` and `muxStream` of `pkg/derptun/mux.go`.  Streams are carried over one carrier
at a time, which may be lost and replaced.  A chunk that was not acknowledged is sent
again on every new carrier, and each data frame that arrives is delivered by a
goroutine of its own, which holds on to the stream object it was meant for.

A stream is an object on the heap of its multiplexer (`objs`), and the table
`streams` names the object that a frame with some id is for.  A step is one action of
one goroutine between two points where others may run; what a goroutine does under a
lock or on its own is one step.

All frames that were ever written on a carrier are kept in `sent`, and the peer may
read any of them at any time: an old carrier delivers its frames late or not at all.
A frame that is cut off when its carrier fails is not one of them.  Headers arrive as
they were sent; pings, deadlines and the clock are left out, since a wait may end at
any time.
-/

namespace Derptun

open Lib

inductive MuxRole where
  | client
  | server
  deriving DecidableEq

def MuxRole.peer : MuxRole → MuxRole
  | .client => .server
  | .server => .client

/-- `frameHeader` with its payload; `seq` of an acknowledgement counts bytes. -/
inductive Frame where
  | frameOpen (streamID : Nat)
  | frameData (streamID seq : Nat) (payload : List UInt8)
  | frameClose (streamID : Nat)
  | frameAck (streamID seq : Nat)
  deriving DecidableEq

/-- Where the loop of `sendOpen` or `sendChunk` is.  `seen` is the carrier change that
it took note of before it wrote. -/
inductive WritePhase where
  | snapshot
  | writing (seen : Nat)
  | waiting (seen : Nat)
  deriving DecidableEq

/-- Where the goroutine that serves the application's writes is: `OpenStream`, and then
`outboundPump`. -/
inductive Pump where
  | opening (phase : WritePhase)
  | reading
  /-- In `sendChunk`. -/
  | sending (startSeq : Nat) (payload : List UInt8) (phase : WritePhase)
  /-- Out of its loop; `failed` if it was `sendChunk` that returned an error. -/
  | closing (failed : Bool)
  /-- `sendClose` has returned. -/
  | leaving
  | ended
  deriving DecidableEq

/-- `pendingWrite`. -/
structure PendingWrite where
  endSeq : Nat
  acked : Bool

/-- A goroutine in `deliver` that holds `deliverMu` and writes to the connection. -/
structure Delivery where
  payload : List UInt8
  /-- What the reader has not taken yet. -/
  rest : List UInt8

/-- `muxStream` with its goroutines.  `written` lists the bytes the application wrote,
`toApp` those it was handed, and `confirmed` counts the bytes of the chunks for which
`sendChunk` returned without an error. -/
structure MuxStream where
  id : Nat
  sendSeq : Nat
  recvSeq : Nat
  pending : Option PendingWrite
  openAck : Bool
  /-- One end of the pipe to the application is closed. -/
  connClosed : Bool
  /-- The peer opened it. -/
  remote : Bool
  /-- The application has the other end. -/
  app : Bool
  pump : Pump
  /-- Goroutines in `deliver` that wait for `deliverMu`. -/
  waiting : List (Nat × List UInt8)
  delivering : Option Delivery
  written : List UInt8
  toApp : List UInt8
  confirmed : Nat

/-- `newStream`. -/
def MuxStream.new (id : Nat) (remote : Bool) (pump : Pump) : MuxStream where
  id := id
  sendSeq := 0
  recvSeq := 0
  pending := none
  openAck := false
  connClosed := false
  remote := remote
  app := false
  pump := pump
  waiting := []
  delivering := none
  written := []
  toApp := []
  confirmed := 0

/-- `handleAck`. -/
def MuxStream.handleAck (s : MuxStream) (ack : Nat) : MuxStream :=
  match s.pending with
  | none => s
  | some pending =>
      if ack < pending.endSeq then s else { s with pending := some { pending with acked := true } }

/-- The largest read of `outboundPump`. -/
def pumpBufBytes : Nat := 32 * 1024

/-- `Mux`. -/
structure Mux where
  /-- There is a carrier. -/
  carrier : Bool
  /-- The number of carrier changes signalled. -/
  carrierChange : Nat
  closed : Bool
  nextStreamID : Nat
  streams : Map Nat Nat
  objs : List MuxStream
  sent : List Frame

/-- `NewMux`. -/
def Mux.new (role : MuxRole) : Mux where
  carrier := false
  carrierChange := 0
  closed := false
  nextStreamID := if role = .server then 2 else 1
  streams := ∅
  objs := []
  sent := []

/-- A step of a goroutine or of the application at one stream. -/
inductive StreamAction where
  /-- `sendOpen` or `sendChunk` takes note of the carrier, writes, and is told of a change. -/
  | snapshot
  | write
  | carrierChanged
  /-- `OpenStream` returns, with the stream or with an error. -/
  | opened
  | openFails
  /-- A stream of the peer is handed to the application. -/
  | accept
  | appWrite (bytes : List UInt8)
  | appClose
  /-- `Close` of the multiplexer closes the connection. -/
  | muxClose
  /-- `sendChunk` returns, without an error or with one. -/
  | chunkAcked
  | chunkFails
  /-- `outboundPump` ends: its read fails, it sends the close frame, and it removes the stream. -/
  | readEnds
  | sendClose (written : Bool)
  | removeStream
  /-- A goroutine in `deliver` gets the lock, hands bytes over, and returns. -/
  | deliver (seq : Nat) (payload : List UInt8)
  | handOver (n : Nat)
  | deliverDone
  | deliverFails

inductive MuxLabel where
  | replaceCarrier (carrier : Bool)
  | markCarrierDead
  | close
  | openStream
  | receive (frame : Frame)
  | stream (i : Nat) (action : StreamAction)

namespace Mux

variable (m : Mux)

def setObj (i : Nat) (s : MuxStream) : Mux := { m with objs := m.objs.set i s }

def send (frame : Frame) : Mux := { m with sent := m.sent ++ [frame] }

/-- `removeStream`: the table forgets the object, if it still names it. -/
def removeStream (id i : Nat) : Mux :=
  if m.streams.lookup id = some i then { m with streams := m.streams.erase id } else m

def signalCarrierChange (carrier : Bool) : Mux :=
  { m with carrier := carrier, carrierChange := m.carrierChange + 1 }

/-- `handleFrame`, up to the goroutines it starts. -/
def handleFrame (frame : Frame) : Mux :=
  match frame with
  | .frameOpen id =>
      match m.streams.lookup id with
      | some _ => m.send (.frameAck id 0)
      | none =>
          { m with
            streams := m.streams.insert id m.objs.length
            objs := m.objs ++ [MuxStream.new id true .reading]
            sent := m.sent ++ [.frameAck id 0] }
  | .frameData id seq payload =>
      match m.streams.lookup id with
      | none => m
      | some i =>
          match m.objs[i]? with
          | none => m
          | some s => m.setObj i { s with waiting := s.waiting ++ [(seq, payload)] }
  | .frameAck id seq =>
      match m.streams.lookup id with
      | none => m
      | some i =>
          match m.objs[i]? with
          | none => m
          | some s =>
              m.setObj i (MuxStream.handleAck { s with openAck := s.openAck || decide (seq = 0) } seq)
  | .frameClose id =>
      match m.streams.lookup id with
      | none => m
      | some i =>
          match m.objs[i]? with
          | none => m
          | some s => { m.setObj i { s with connClosed := true } with streams := m.streams.erase id }

/-- `deliver` has the lock: a frame out of turn is answered, one in turn is written. -/
def deliver (i : Nat) (s : MuxStream) (seq : Nat) (payload : List UInt8) : Mux :=
  let s := { s with waiting := s.waiting.erase (seq, payload) }
  if seq ≠ s.recvSeq then (m.setObj i s).send (.frameAck s.id s.recvSeq)
  else if s.connClosed then (m.setObj i s).removeStream s.id i
  else m.setObj i { s with delivering := some ⟨payload, payload⟩ }

/-- A step at the object `i`. -/
def streamStep (i : Nat) (s : MuxStream) : StreamAction → Option Mux
  | .snapshot =>
      match s.pump with
      | .opening .snapshot =>
          some (m.setObj i { s with pump := .opening (.writing m.carrierChange) })
      | .sending start payload .snapshot =>
          some (m.setObj i { s with pump := .sending start payload (.writing m.carrierChange) })
      | _ => none
  | .write =>
      if m.closed ∨ m.carrier = false then none
      else
        match s.pump with
        | .opening (.writing seen) =>
            some ((m.setObj i { s with pump := .opening (.waiting seen) }).send (.frameOpen s.id))
        | .sending start payload (.writing seen) =>
            some ((m.setObj i { s with pump := .sending start payload (.waiting seen) }).send
              (.frameData s.id start payload))
        | _ => none
  | .carrierChanged =>
      match s.pump with
      | .opening (.waiting seen) =>
          if seen = m.carrierChange then none
          else some (m.setObj i { s with pump := .opening .snapshot })
      | .sending start payload (.waiting seen) =>
          if seen = m.carrierChange then none
          else some (m.setObj i { s with pump := .sending start payload .snapshot })
      | _ => none
  | .opened =>
      match s.pump with
      | .opening (.waiting _) =>
          if s.openAck then some (m.setObj i { s with pump := .reading, app := true }) else none
      | _ => none
  | .openFails =>
      match s.pump with
      | .opening _ =>
          some
            { m.setObj i { s with pump := .ended, connClosed := true } with
              streams := m.streams.erase s.id }
      | _ => none
  | .accept =>
      if s.remote ∧ s.app = false then some (m.setObj i { s with app := true }) else none
  | .appWrite bytes =>
      if s.pump = .reading ∧ s.app ∧ bytes ≠ [] ∧ bytes.length ≤ pumpBufBytes then
        some (m.setObj i
          { s with
            written := s.written ++ bytes
            sendSeq := s.sendSeq + bytes.length
            pending := some ⟨s.sendSeq + bytes.length, false⟩
            pump := .sending s.sendSeq bytes .snapshot })
      else none
  | .appClose => if s.app then some (m.setObj i { s with connClosed := true }) else none
  | .muxClose =>
      if m.closed ∧ m.streams.lookup s.id = some i then
        some (m.setObj i { s with connClosed := true })
      else none
  | .chunkAcked =>
      match s.pump, s.pending with
      | .sending _ _ (.waiting _), some pending =>
          if pending.acked then
            some (m.setObj i { s with pump := .reading, pending := none, confirmed := pending.endSeq })
          else none
      | _, _ => none
  | .chunkFails =>
      match s.pump with
      | .sending _ _ _ => some (m.setObj i { s with pump := .closing true, pending := none })
      | _ => none
  | .readEnds =>
      if s.pump = .reading ∧ s.connClosed then some (m.setObj i { s with pump := .closing false })
      else none
  | .sendClose written =>
      match s.pump with
      | .closing _ =>
          if written → m.carrier ∧ m.closed = false then
            let m' := m.setObj i { s with pump := .leaving }
            some (if written then m'.send (.frameClose s.id) else m')
          else none
      | _ => none
  | .removeStream =>
      if s.pump = .leaving then some ((m.setObj i { s with pump := .ended }).removeStream s.id i)
      else none
  | .deliver seq payload =>
      if s.delivering.isNone ∧ (seq, payload) ∈ s.waiting then some (m.deliver i s seq payload)
      else none
  | .handOver n =>
      match s.delivering with
      | none => none
      | some d =>
          if s.app then
            some (m.setObj i
              { s with
                toApp := s.toApp ++ d.rest.take n
                delivering := some { d with rest := d.rest.drop n } })
          else none
  | .deliverDone =>
      match s.delivering with
      | none => none
      | some d =>
          if d.rest = [] then
            some ((m.setObj i
              { s with delivering := none, recvSeq := s.recvSeq + d.payload.length }).send
                (.frameAck s.id (s.recvSeq + d.payload.length)))
          else none
  | .deliverFails =>
      match s.delivering with
      | none => none
      | some d =>
          if s.connClosed ∧ d.rest ≠ [] then
            some ((m.setObj i { s with delivering := none }).removeStream s.id i)
          else none

/-- A step of one multiplexer.  `inbound` lists what its peer sent. -/
def step (inbound : List Frame) : MuxLabel → Option Mux
  | .replaceCarrier carrier => if m.closed then none else some (m.signalCarrierChange carrier)
  | .markCarrierDead =>
      if m.closed ∨ m.carrier = false then none else some (m.signalCarrierChange false)
  | .close =>
      if m.closed then none
      else some { m.signalCarrierChange false with closed := true }
  | .openStream =>
      if m.closed then none
      else
        some
          { m with
            nextStreamID := m.nextStreamID + 2
            streams := m.streams.insert m.nextStreamID m.objs.length
            objs := m.objs ++ [MuxStream.new m.nextStreamID false (.opening .snapshot)] }
  | .receive frame => if frame ∈ inbound then some (m.handleFrame frame) else none
  | .stream i action =>
      match m.objs[i]? with
      | none => none
      | some s => m.streamStep i s action

end Mux

/-- The two multiplexers. -/
abbrev Muxes := MuxRole → Mux

def Muxes.init : Muxes := Mux.new

/-- One of them takes a step. -/
def Muxes.step (t : Muxes) (l : MuxRole × MuxLabel) : Option Muxes :=
  ((t l.1).step (t l.1.peer).sent l.2).map fun m => Function.update t l.1 m

/-! ## What a step at a stream can do -/

/-- The ways to take a step at the object `i`. -/
inductive StreamMove (m : Mux) (i : Nat) (s : MuxStream) : StreamAction → Mux → Prop where
  | snapshotOpen (hp : s.pump = .opening .snapshot) :
      StreamMove m i s .snapshot (m.setObj i { s with pump := .opening (.writing m.carrierChange) })
  | snapshotChunk {start : Nat} {payload : List UInt8} (hp : s.pump = .sending start payload .snapshot) :
      StreamMove m i s .snapshot
        (m.setObj i { s with pump := .sending start payload (.writing m.carrierChange) })
  | writeOpen {seen : Nat} (hup : ¬ (m.closed ∨ m.carrier = false)) (hp : s.pump = .opening (.writing seen)) :
      StreamMove m i s .write
        ((m.setObj i { s with pump := .opening (.waiting seen) }).send (.frameOpen s.id))
  | writeChunk {start : Nat} {payload : List UInt8} {seen : Nat} (hup : ¬ (m.closed ∨ m.carrier = false))
      (hp : s.pump = .sending start payload (.writing seen)) :
      StreamMove m i s .write
        ((m.setObj i { s with pump := .sending start payload (.waiting seen) }).send
          (.frameData s.id start payload))
  | changedOpen {seen : Nat} (hp : s.pump = .opening (.waiting seen)) (hseen : ¬ seen = m.carrierChange) :
      StreamMove m i s .carrierChanged (m.setObj i { s with pump := .opening .snapshot })
  | changedChunk {start : Nat} {payload : List UInt8} {seen : Nat}
      (hp : s.pump = .sending start payload (.waiting seen)) (hseen : ¬ seen = m.carrierChange) :
      StreamMove m i s .carrierChanged (m.setObj i { s with pump := .sending start payload .snapshot })
  | opened {seen : Nat} (hp : s.pump = .opening (.waiting seen)) (hack : s.openAck = true) :
      StreamMove m i s .opened (m.setObj i { s with pump := .reading, app := true })
  | openFails {phase : WritePhase} (hp : s.pump = .opening phase) :
      StreamMove m i s .openFails
        { m.setObj i { s with pump := .ended, connClosed := true } with streams := m.streams.erase s.id }
  | accept (hg : s.remote ∧ s.app = false) : StreamMove m i s .accept (m.setObj i { s with app := true })
  | appWrite {bytes : List UInt8}
      (hg : s.pump = .reading ∧ s.app ∧ bytes ≠ [] ∧ bytes.length ≤ pumpBufBytes) :
      StreamMove m i s (.appWrite bytes)
        (m.setObj i
          { s with
            written := s.written ++ bytes
            sendSeq := s.sendSeq + bytes.length
            pending := some ⟨s.sendSeq + bytes.length, false⟩
            pump := .sending s.sendSeq bytes .snapshot })
  | appClose (happ : s.app = true) : StreamMove m i s .appClose (m.setObj i { s with connClosed := true })
  | muxClose (hg : m.closed ∧ m.streams.lookup s.id = some i) :
      StreamMove m i s .muxClose (m.setObj i { s with connClosed := true })
  | chunkAcked {start : Nat} {payload : List UInt8} {seen : Nat} {pending : PendingWrite}
      (hp : s.pump = .sending start payload (.waiting seen)) (hpending : s.pending = some pending)
      (hacked : pending.acked = true) :
      StreamMove m i s .chunkAcked
        (m.setObj i { s with pump := .reading, pending := none, confirmed := pending.endSeq })
  | chunkFails {start : Nat} {payload : List UInt8} {phase : WritePhase}
      (hp : s.pump = .sending start payload phase) :
      StreamMove m i s .chunkFails (m.setObj i { s with pump := .closing true, pending := none })
  | readEnds (hg : s.pump = .reading ∧ s.connClosed) :
      StreamMove m i s .readEnds (m.setObj i { s with pump := .closing false })
  | closeSent {failed : Bool} (hp : s.pump = .closing failed) (hup : m.carrier ∧ m.closed = false) :
      StreamMove m i s (.sendClose true)
        ((m.setObj i { s with pump := .leaving }).send (.frameClose s.id))
  | closeLost {failed : Bool} (hp : s.pump = .closing failed) :
      StreamMove m i s (.sendClose false) (m.setObj i { s with pump := .leaving })
  | removed (hp : s.pump = .leaving) :
      StreamMove m i s .removeStream ((m.setObj i { s with pump := .ended }).removeStream s.id i)
  | deliver {seq : Nat} {payload : List UInt8} (hg : s.delivering.isNone ∧ (seq, payload) ∈ s.waiting) :
      StreamMove m i s (.deliver seq payload) (m.deliver i s seq payload)
  | handOver {d : Delivery} {n : Nat} (hd : s.delivering = some d) (happ : s.app = true) :
      StreamMove m i s (.handOver n)
        (m.setObj i
          { s with
            toApp := s.toApp ++ d.rest.take n
            delivering := some { d with rest := d.rest.drop n } })
  | deliverDone {d : Delivery} (hd : s.delivering = some d) (hrest : d.rest = []) :
      StreamMove m i s .deliverDone
        ((m.setObj i { s with delivering := none, recvSeq := s.recvSeq + d.payload.length }).send
          (.frameAck s.id (s.recvSeq + d.payload.length)))
  | deliverFails {d : Delivery} (hd : s.delivering = some d) (hg : s.connClosed ∧ d.rest ≠ []) :
      StreamMove m i s .deliverFails ((m.setObj i { s with delivering := none }).removeStream s.id i)

theorem Mux.streamMove {m m' : Mux} {i : Nat} {s : MuxStream} {action : StreamAction}
    (hr : m.streamStep i s action = some m') : StreamMove m i s action m' := by
  unfold Mux.streamStep at hr
  split at hr
  · -- snapshot
    split at hr
    next hp =>
      cases hr
      exact .snapshotOpen hp
    next hp =>
      cases hr
      exact .snapshotChunk hp
    next => cases hr
  · -- write
    split at hr
    next => cases hr
    next hup =>
      split at hr
      next hp =>
        cases hr
        exact .writeOpen hup hp
      next hp =>
        cases hr
        exact .writeChunk hup hp
      next => cases hr
  · -- carrierChanged
    split at hr
    next hp =>
      split at hr
      next => cases hr
      next hseen =>
        cases hr
        exact .changedOpen hp hseen
    next hp =>
      split at hr
      next => cases hr
      next hseen =>
        cases hr
        exact .changedChunk hp hseen
    next => cases hr
  · -- opened
    split at hr
    next hp =>
      split at hr
      next hack =>
        cases hr
        exact .opened hp hack
      next => cases hr
    next => cases hr
  · -- openFails
    split at hr
    next hp =>
      cases hr
      exact .openFails hp
    next => cases hr
  · -- accept
    split at hr
    next hg =>
      cases hr
      exact .accept hg
    next => cases hr
  · -- appWrite
    split at hr
    next hg =>
      cases hr
      exact .appWrite hg
    next => cases hr
  · -- appClose
    split at hr
    next happ =>
      cases hr
      exact .appClose happ
    next => cases hr
  · -- muxClose
    split at hr
    next hg =>
      cases hr
      exact .muxClose hg
    next => cases hr
  · -- chunkAcked
    split at hr
    next hp hpending =>
      split at hr
      next hacked =>
        cases hr
        exact .chunkAcked hp hpending hacked
      next => cases hr
    next => cases hr
  · -- chunkFails
    split at hr
    next hp =>
      cases hr
      exact .chunkFails hp
    next => cases hr
  · -- readEnds
    split at hr
    next hg =>
      cases hr
      exact .readEnds hg
    next => cases hr
  · -- sendClose
    next written =>
      split at hr
      next hp =>
        split at hr
        next hup =>
          cases written with
          | true =>
              cases hr
              exact .closeSent hp (hup rfl)
          | false =>
              cases hr
              exact .closeLost hp
        next => cases hr
      next => cases hr
  · -- removeStream
    split at hr
    next hp =>
      cases hr
      exact .removed hp
    next => cases hr
  · -- deliver
    split at hr
    next hg =>
      cases hr
      exact .deliver hg
    next => cases hr
  · -- handOver
    split at hr
    next => cases hr
    next hd =>
      split at hr
      next happ =>
        cases hr
        exact .handOver hd happ
      next => cases hr
  · -- deliverDone
    split at hr
    next => cases hr
    next hd =>
      split at hr
      next hrest =>
        cases hr
        exact .deliverDone hd hrest
      next => cases hr
  · -- deliverFails
    split at hr
    next => cases hr
    next hd =>
      split at hr
      next hg =>
        cases hr
        exact .deliverFails hd hg
      next => cases hr

end Derptun
