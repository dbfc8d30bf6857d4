import Derphole.Lib.Map
import Derphole.Lib.Run
import Derphole.Session.StripedFrame

/-!
# The two ends of a striped copy

`sendExternalStripedCopy` reads chunks and hands them to one goroutine for each connection;
`receiveExternalStripedCopy` has one goroutine for each connection too, and a loop that puts
the chunks in order.  Both are systems whose labels say which goroutine acts next.

An iteration of the receiving loop that finds the channel closed, no reader alive and
chunks left over goes round again (`continue`): then the loop has the state it had before.
-/

namespace Session

open Lib

/-! ## Sender -/

structure StripedSender where
  /-- What the source has not given yet. -/
  remaining : List UInt8
  seq : Nat
  jobs : List ExternalStripedChunk
  /-- What was written to each connection. -/
  conns : List (List UInt8)
  /-- `jobs` is closed. -/
  closed : Bool

inductive SendLabel where
  | read
  /-- A goroutine takes the next job. -/
  | write (i : Nat)

namespace StripedSender

def init (source : List UInt8) (writers : Nat) : StripedSender :=
  ⟨source, 0, [], List.replicate writers [], false⟩

/-- An iteration of the reading loop.  A short read is the last. -/
def read (chunkSize : Nat) (σ : StripedSender) : Option StripedSender :=
  let buf := σ.remaining.take chunkSize
  if σ.closed then none
  else if buf = [] then some { σ with closed := true }
  else if σ.jobs.length < σ.conns.length * 2 then
    some
      { σ with
        remaining := σ.remaining.drop chunkSize
        seq := σ.seq + 1
        jobs := σ.jobs ++ [⟨σ.seq, buf⟩]
        closed := decide (buf.length < chunkSize) }
  else none

def write (σ : StripedSender) (i : Nat) : Option StripedSender :=
  match σ.jobs, σ.conns[i]? with
  | chunk :: jobs, some conn =>
      some { σ with jobs := jobs, conns := σ.conns.set i (conn ++ writeExternalStripedChunk chunk) }
  | _, _ => none

def step (chunkSize : Nat) (σ : StripedSender) : SendLabel → Option StripedSender
  | .read => σ.read chunkSize
  | .write i => σ.write i

/-- `sendExternalStripedCopy` returns without an error, and the connections are closed. -/
def Sent (σ : StripedSender) : Prop := σ.closed = true ∧ σ.jobs = []

instance (σ : StripedSender) : Decidable σ.Sent := inferInstanceAs (Decidable (_ ∧ _))

/-- What the readers find. -/
def streams (σ : StripedSender) : List Stream := σ.conns.map (⟨·, false⟩)

end StripedSender

/-! ## Receiver -/

inductive CopyErr where
  | read (e : ReadErr)
  | duplicateChunk
  | write
  | cancelled
  /-- The channel was closed while a reader was alive. -/
  | unexpectedEOF
  deriving DecidableEq, Repr

inductive ReadResult where
  | chunk (c : ExternalStripedChunk)
  | done
  | failed (e : ReadErr)
  deriving DecidableEq, Repr

structure Reader where
  src : Stream
  /-- The goroutine has not returned. -/
  running : Bool

structure StripedReceiver where
  readers : List Reader
  /-- The channel. -/
  results : List ReadResult
  nextSeq : Nat
  pending : Map Nat (List UInt8)
  liveReaders : Nat
  dst : List UInt8
  returned : Option (Except CopyErr Unit)
  cancelled : Bool
  /-- The chunks in the order in which the loop received them. -/
  arrived : List ExternalStripedChunk

inductive RecvLabel where
  /-- A goroutine reads a frame and sends what came of it. -/
  | read (i : Nat)
  /-- An iteration of the loop.  If it writes, the write may fail. -/
  | loop (fails : Bool)
  | cancel
  /-- A goroutine returns because the context is done. -/
  | stop (i : Nat)
  /-- The loop returns because the context is done. -/
  | ctxDone
  deriving DecidableEq

namespace StripedReceiver

def init (streams : List Stream) : StripedReceiver where
  readers := streams.map (⟨·, true⟩)
  results := []
  nextSeq := 0
  pending := ∅
  liveReaders := streams.length
  dst := []
  returned := none
  cancelled := false
  arrived := []

/-- A goroutine of the receiver. -/
def read (chunkSize : Nat) (σ : StripedReceiver) (i : Nat) : Option StripedReceiver :=
  match σ.readers[i]? with
  | some ⟨src, true⟩ =>
      if σ.returned.isSome ∨ σ.readers.length * 2 ≤ σ.results.length then none
      else
        match readExternalStripedChunk chunkSize src with
        | (.ok chunk, rest) =>
            some { σ with readers := σ.readers.set i ⟨rest, true⟩, results := σ.results ++ [.chunk chunk] }
        | (.error e, rest) =>
            some
              { σ with
                readers := σ.readers.set i ⟨rest, false⟩
                results := σ.results ++ [if e = .eof then .done else .failed e] }
  | _ => none

def fail (σ : StripedReceiver) (e : CopyErr) : StripedReceiver := { σ with returned := some (.error e) }

/-- The next chunk goes to the destination. -/
def write (σ : StripedReceiver) (fails : Bool) (data : List UInt8) : StripedReceiver :=
  if fails then σ.fail .write else { σ with dst := σ.dst ++ data, nextSeq := σ.nextSeq + 1 }

/-- A chunk from the channel. -/
def accept (σ : StripedReceiver) (fails : Bool) (chunk : ExternalStripedChunk) : StripedReceiver :=
  if chunk.seq = σ.nextSeq then σ.write fails chunk.data
  else if (σ.pending.lookup chunk.seq).isSome then σ.fail .duplicateChunk
  else { σ with pending := σ.pending.insert chunk.seq chunk.data }

def loop (σ : StripedReceiver) (fails : Bool) : Option StripedReceiver :=
  if σ.returned.isSome then none
  else if σ.liveReaders = 0 ∧ σ.pending.entries = [] then some { σ with returned := some (.ok ()) }
  else
    match σ.pending.lookup σ.nextSeq with
    | some data => some ({ σ with pending := σ.pending.erase σ.nextSeq }.write fails data)
    | none =>
        match σ.results with
        | .done :: results => some { σ with results := results, liveReaders := σ.liveReaders - 1 }
        | .failed e :: results => some ({ σ with results := results }.fail (.read e))
        | .chunk c :: results => some ({ σ with results := results, arrived := σ.arrived ++ [c] }.accept fails c)
        | [] =>
            if σ.readers.any (·.running) then none
            else if 0 < σ.liveReaders then some (σ.fail .unexpectedEOF)
            else some σ

def step (chunkSize : Nat) (σ : StripedReceiver) : RecvLabel → Option StripedReceiver
  | .read i => σ.read chunkSize i
  | .loop fails => σ.loop fails
  | .cancel => some { σ with cancelled := true }
  | .stop i =>
      match σ.readers[i]? with
      | some ⟨src, true⟩ =>
          if σ.cancelled then some { σ with readers := σ.readers.set i ⟨src, false⟩ } else none
      | _ => none
  | .ctxDone =>
      if σ.cancelled ∧ σ.returned = none ∧ (0 < σ.liveReaders ∨ σ.pending.entries ≠ []) ∧
          σ.pending.lookup σ.nextSeq = none then
        some (σ.fail .cancelled)
      else none

/-- The loop goes round and round. -/
def Spins (σ : StripedReceiver) : Prop := σ.loop false = some σ

/-- Nothing more happens: `receiveExternalStripedCopy` has returned, or it never will. -/
def Ended (σ : StripedReceiver) : Prop := σ.returned.isSome = true ∨ σ.Spins

end StripedReceiver

end Session
