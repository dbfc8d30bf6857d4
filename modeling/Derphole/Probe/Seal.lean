import Derphole.Probe.AckFloor
import Derphole.Probe.Nonce

/-!
# What is sealed in a session

The packets that are sealed under the packet AEAD of one session.  A run is either one
blast (`Send` or `SendBlastParallel`, striped or not) or the discard sends of
`externalDirectUDPSendDiscardParallel`, one blast over one socket for each lane, under the
run ids that `externalDirectUDPLaneRunID` derives.

A blast seals its data packets, the parity of every group, and, striped with a replay
window, the Done packets that go into the windows of its lanes.  A repair is sent from the
replay window as it was sealed, or is put together from recorded payloads and sealed again.
-/

namespace Probe

open Lib

/-- What a lane of a blast sealed besides its data packets. -/
structure LaneSeals where
  fec : Option FecGroup
  parities : List Packet
  dones : List Packet
  repairs : List Packet

structure SealState where
  runID : RunID
  sender : Sender
  send : RepairState
  seals : List LaneSeals
  ended : Bool

inductive SealLabel where
  | read (bytes : List UInt8)
  | packet
  | encode (lane : Nat)
  | ack (lane floor : Nat)
  | finish
  | done (lane : Nat)
  | repair (lane seq : Nat)

namespace SealState

variable (cfg : SendConfig) (σ : SealState)

def start (runID : RunID) (sender : Sender) : SealState where
  runID := runID
  sender := sender
  send := RepairState.init sender cfg
  seals := (RepairState.init sender cfg).lanes.map fun lane =>
    ⟨FecGroup.new lane.stripeID cfg.chunk cfg.fecGroupSize cfg.aead, [], [], []⟩
  ended := false

/-- The lane of the next packet. -/
def laneIndex : Nat :=
  match σ.sender with
  | .striped _ _ => cfg.laneIndexForOffset σ.send.offset σ.send.lanes.length
  | _ => 0

def setSeals (i : Nat) (seals : LaneSeals) : SealState := { σ with seals := σ.seals.set i seals }

/-- A packet, and the parity of its group if that is full. -/
def packet : Option SealState :=
  let i := σ.laneIndex cfg
  if σ.ended then none
  else
    match σ.send.packet σ.sender cfg, σ.send.lanes[i]?, σ.seals[i]? with
    | some s, some lane, some seals =>
        let (fec, parity) := FecGroup.record seals.fec lane.nextSeq σ.send.offset
          (σ.send.remaining.take cfg.chunk)
        some ({ σ with send := s }.setSeals i
          { seals with fec := fec, parities := parity.toList ++ seals.parities })
    | _, _, _ => none

/-- The rest of a group is sealed at the end. -/
def flush (seals : LaneSeals) : LaneSeals :=
  let (fec, parity) := FecGroup.finish seals.fec
  { seals with fec := fec, parities := parity.toList ++ seals.parities }

def finish : Option SealState :=
  if σ.ended then none
  else (σ.send.finish σ.sender).map fun s =>
    { σ with send := s, seals := σ.seals.map flush, ended := true }

/-- The Done packet of a lane of a striped send, if it goes through a replay window. -/
def done (i : Nat) : Option SealState :=
  match σ.sender, σ.send.lanes[i]?, σ.seals[i]? with
  | .striped _ _, some lane, some seals =>
      if σ.ended then
        match lane.history.streamReplay with
        | none => some σ
        | some w =>
            match w.addPacket .done lane.stripeID lane.nextSeq σ.send.offset [] with
            | .error _ => some σ
            | .ok (w, wire) =>
                let lane := { lane with history := { lane.history with streamReplay := some w } }
                some ({ σ with send := σ.send.setLane i lane }.setSeals i
                  { seals with dones := wire :: seals.dones })
      else none
  | _, _, _ => none

/-- A packet is asked for again, or is one of the tail.  The replay window has it sealed; otherwise
it is sealed again. -/
def repair (i seq : Nat) : Option SealState :=
  match σ.send.lanes[i]?, σ.seals[i]? with
  | some lane, some seals =>
      match lane.history.streamReplay, lane.history.packet seq with
      | none, some wire => some (σ.setSeals i { seals with repairs := wire :: seals.repairs })
      | _, _ => some σ
  | _, _ => none

def step : SealLabel → Option SealState
  | .read bytes => if σ.ended then none else (σ.send.read bytes).map fun s => { σ with send := s }
  | .packet => σ.packet cfg
  | .encode i => (σ.send.encode σ.sender cfg i).map fun s => { σ with send := s }
  | .ack i floor => (σ.send.ack i floor).map fun s => { σ with send := s }
  | .finish => σ.finish
  | .done i => σ.done i
  | .repair i seq => σ.repair i seq

/-- Everything that was sealed. -/
def packets : List Packet :=
  σ.send.lanes.flatMap (·.sent) ++ σ.seals.flatMap fun s => s.parities ++ (s.dones ++ s.repairs)

end SealState

/-! ## Sessions -/

/-- The runs of a session. -/
inductive SessionRun where
  | blast (sender : Sender)
  | discard (lanes : Nat)

abbrev Session := List SealState

namespace Session

variable (cfg : SendConfig) (σ : Session)

def start (base : RunID) : SessionRun → Session
  | .blast sender => [SealState.start cfg base sender]
  | .discard lanes => (List.range lanes).map fun i =>
      SealState.start cfg (externalDirectUDPLaneRunID base i) .single

/-- One of the blasts takes a step. -/
def step (l : Nat × SealLabel) : Option Session :=
  match σ[l.1]? with
  | none => none
  | some s => (s.step cfg l.2).map fun t => σ.set l.1 t

/-- The headers and plaintexts that were sealed. -/
def sealed : List (List UInt8 × List UInt8) :=
  if cfg.aead.isSome then
    σ.flatMap fun s => s.packets.map fun p => (encodePacketHeader s.runID p, p.payload)
  else []

/-- No two different headers and plaintexts were sealed under one nonce. -/
def NoncesUnique : Prop :=
  ∀ x ∈ σ.sealed cfg, ∀ y ∈ σ.sealed cfg, packetAEADNonce x.1 = packetAEADNonce y.1 → x = y

/-- What the nonces of a lane begin with. -/
def shared (s : SealState) (lane : HistoryLane) : List UInt8 × Nat :=
  (s.runID.toList.take 4, lane.stripeID % 65536)

/-- No other lane under the same run id bytes and stripe has taken a packet. -/
def alone (k i : Nat) (s : SealState) (lane : HistoryLane) : Bool :=
  σ.zipIdx.all fun t => t.1.send.lanes.zipIdx.all fun l =>
    decide (t.2 = k ∧ l.2 = i) || decide (shared t.1 l.1 ≠ shared s lane) || decide (l.1.nextSeq = 0)

/-- The packet with this number was cut where a stream of full packets has it. -/
def cutFull (lane : HistoryLane) (seq : Nat) : Bool :=
  lane.sent.all fun p => decide (p.seq ≠ seq) ||
    decide (lane.history.totalBytes ≤ seq * lane.history.chunkSize) ||
    (decide (p.offset = seq * lane.history.chunkSize) && decide (p.payload.length =
      min lane.history.chunkSize (lane.history.totalBytes - seq * lane.history.chunkSize)))

/-- The step starts no second lane under the same run id bytes and stripe, and puts together no
packet other than it was. -/
def Separate (l : Nat × SealLabel) : Bool :=
  match σ[l.1]? with
  | none => true
  | some s =>
      match l.2 with
      | .packet => (s.send.lanes[s.laneIndex cfg]?).all fun lane => σ.alone l.1 (s.laneIndex cfg) s lane
      | .repair i seq => (s.send.lanes[i]?).all fun lane =>
          lane.history.streamReplay.isSome || cutFull lane seq
      | _ => true

end Session

end Probe
