import Derphole.Probe.FecGroup
import Derphole.Probe.RepairHistory
import Derphole.Probe.StripedMonotone

/-!
# Acknowledgements of striped sends

`SendBlastParallel` of `pkg/probe/session.go` with striping and stream replay,
against the receiver of `StripedReceive`.  The sender greets the receiver on each
of its sockets, numbers the sockets that answered as stripes, and keeps what it
sends on a stripe in the replay window of the lane until the receiver reports the
stripe as past it.

Socket `i` of the sender and lane `i` of the receiver talk to each other.
`toReceiver` and `toSender` list everything ever sent, with the socket it was sent
on.  A packet may be taken from them at any later time and any number of times, or
never, so delay, duplication, reordering and loss need no steps of their own.
Repairs resend what was sent before and are covered by that.

A Stats packet is applied to the window of the lane that reads it, whatever stripe
it is about: `readBlastParallelSendControlEvents` does not compare the two.  The
same floor reaches the same window again through `observeStripedBlastStatsEvent`,
where it changes nothing any more.
-/

namespace Probe

open Lib

/-- What the sender and the receiver were configured with.  The sockets come from
the session, which opens at most `MaxParallelStripes` of them; one socket alone is
not striped. -/
structure AckConfig where
  conns : Nat
  conns_two_le : 2 ≤ conns
  conns_le : conns ≤ maxParallelStripes
  allowPartialParallel : Bool
  /-- The control has a rate ceiling or an exploration ceiling. -/
  adaptive : Bool
  send : SendConfig
  recv : RecvConfig

/-- `blastParallelSendItem`: a payload to encode, or a packet as it is. -/
inductive SendItem where
  | payload (seq offset : Nat) (bytes : List UInt8)
  | wire (packet : Packet)

/-- `blastParallelSendLane`.  `stored` lists every number that was put into the
window. -/
structure SendLane where
  conn : Nat
  stripeID : Nat
  nextSeq : Nat
  queue : List SendItem
  fec : Option FecGroup
  window : ReplayWindow
  stored : List Nat

/-- What the receiver answers.  Of the Stats payload only the floor reaches a
window. -/
inductive Feedback where
  | helloAck (stripeID totalStripes : Nat)
  | stats (stripeID ackFloor : Nat)
  deriving DecidableEq

/-- Where `SendBlastParallel` is. -/
inductive SendPhase where
  /-- The handshake on socket `conn`; the sockets in `answered` answered theirs. -/
  | hello (conn : Nat) (answered : List Nat)
  /-- The handshake of a new stripe number on a socket that answered. -/
  | renumber (answered : List Nat) (stripe : Nat)
  | sending
  /-- The source has ended. -/
  | ended

structure AckState where
  phase : SendPhase
  lanes : List SendLane
  offset : Nat
  toReceiver : List (Nat × Packet)
  receiver : Coord
  /-- The lanes of the receiver that know their peer. -/
  peers : List Nat
  toSender : List (Nat × Feedback)

def AckState.init : AckState where
  phase := .hello 0 []
  lanes := []
  offset := 0
  toReceiver := []
  receiver := Coord.empty
  peers := []
  toSender := []

inductive AckLabel where
  | sendHello
  | ackHello
  | skipHello
  | enqueue (payload : List UInt8)
  | encode (lane : Nat)
  | endSource
  | sendDone
  | deliver (conn : Nat) (packet : Packet) (order : List Nat → List Nat)
  | feedback
  | readStats (lane stripeID ackFloor : Nat)

/-! ## The sender -/

/-- The sockets that answered, numbered from zero. -/
def AckConfig.startLanes (cfg : AckConfig) (answered : List Nat) : List SendLane :=
  answered.zipIdx.map fun (conn, i) =>
    { conn := conn
      stripeID := i
      nextSeq := 0
      queue := []
      fec := FecGroup.new i cfg.send.chunk cfg.send.fecGroupSize cfg.send.aead
      window := cfg.send.laneWindow answered.length
      stored := [] }

def helloPacket (stripeID totalStripes : Nat) : Packet :=
  ⟨.hello, stripeID, totalStripes, 0, 0, 0, []⟩

namespace AckState

variable (cfg : AckConfig) (σ : AckState)

def setLane (i : Nat) (lane : SendLane) : AckState := { σ with lanes := σ.lanes.set i lane }

/-- The handshake under way: its socket, stripe and number of stripes. -/
def handshake : Option (Nat × Nat × Nat) :=
  match σ.phase with
  | .hello conn _ => some (conn, conn, cfg.conns)
  | .renumber answered stripe =>
      match answered[stripe]? with
      | none => none
      | some conn => some (conn, stripe, answered.length)
  | _ => none

def startSending (answered : List Nat) : AckState :=
  { σ with phase := .sending, lanes := cfg.startLanes answered }

/-- Every socket was greeted.  If some did not answer, the others are greeted again
under their new numbers. -/
def finishHello (answered : List Nat) : Option AckState :=
  if answered = [] then none
  else if cfg.allowPartialParallel ∧ answered.length ≠ cfg.conns then
    some { σ with phase := .renumber answered 0 }
  else some (σ.startSending cfg answered)

def nextHello (conn : Nat) (answered : List Nat) : Option AckState :=
  if conn + 1 < cfg.conns then some { σ with phase := .hello (conn + 1) answered }
  else σ.finishHello cfg answered

def sendHello : Option AckState :=
  match σ.handshake cfg with
  | none => none
  | some (conn, stripe, total) =>
      some { σ with toReceiver := (conn, helloPacket stripe total) :: σ.toReceiver }

/-- The lane has a HelloAck of the stripe it announced. -/
def answeredHello (conn stripe : Nat) : Bool :=
  σ.toSender.any fun m =>
    match m with
    | (c, .helloAck s _) => c == conn && s == stripe
    | _ => false

def ackHello : Option AckState :=
  match σ.phase with
  | .hello conn answered =>
      if σ.answeredHello conn conn then σ.nextHello cfg conn (answered ++ [conn]) else none
  | .renumber answered stripe =>
      match answered[stripe]? with
      | none => none
      | some conn =>
          if σ.answeredHello conn stripe then
            if stripe + 1 < answered.length then
              some { σ with phase := .renumber answered (stripe + 1) }
            else some (σ.startSending cfg answered)
          else none
  | _ => none

/-- The handshake ran out of time.  Only a partial send goes on. -/
def skipHello : Option AckState :=
  match σ.phase with
  | .hello conn answered =>
      if cfg.allowPartialParallel then σ.nextHello cfg conn answered else none
  | _ => none

/-- A payload of the source goes to the lane of its offset. -/
def enqueue (payload : List UInt8) : Option AckState :=
  match σ.phase with
  | .sending =>
      if payload = [] ∨ cfg.send.chunk < payload.length then none
      else
        let i := cfg.send.laneIndexForOffset σ.offset σ.lanes.length
        match σ.lanes[i]? with
        | none => none
        | some lane =>
            let (fec, parity) := FecGroup.record lane.fec lane.nextSeq σ.offset payload
            some
              { σ.setLane i
                  { lane with
                    nextSeq := lane.nextSeq + 1
                    fec := fec
                    queue := lane.queue ++ [.payload lane.nextSeq σ.offset payload] ++
                      parity.toList.map .wire } with
                offset := σ.offset + payload.length }
  | _ => none

/-- `encodeBlastParallelSendItem` and the write after it.  It waits while the window
is full; any other error ends the send. -/
def encode (i : Nat) : Option AckState :=
  match σ.lanes[i]? with
  | none => none
  | some lane =>
      match lane.queue with
      | [] => none
      | .wire packet :: queue =>
          some
            { σ.setLane i { lane with queue := queue } with
              toReceiver := (lane.conn, packet) :: σ.toReceiver }
      | .payload seq offset bytes :: queue =>
          match lane.window.addDataPacket lane.stripeID seq offset bytes with
          | .error _ => none
          | .ok (window, wire) =>
              some
                { σ.setLane i
                    { lane with queue := queue, window := window, stored := seq :: lane.stored } with
                  toReceiver := (lane.conn, wire) :: σ.toReceiver }

/-- The source has ended: what is left of the groups is sent. -/
def endSource : Option AckState :=
  match σ.phase with
  | .sending =>
      some
        { σ with
          phase := .ended
          lanes := σ.lanes.map fun lane =>
            let (fec, parity) := FecGroup.finish lane.fec
            { lane with fec := fec, queue := lane.queue ++ parity.toList.map .wire } }
  | _ => none

end AckState

/-- The Done packet of a lane, kept in the window if there is room. -/
def SendLane.sendDone (lane : SendLane) (offset : Nat) : SendLane × Packet :=
  match lane.window.addPacket .done lane.stripeID lane.nextSeq offset [] with
  | .ok (window, wire) =>
      ({ lane with window := window, stored := lane.nextSeq :: lane.stored }, wire)
  | .error _ => (lane, ⟨.done, lane.stripeID, lane.nextSeq, offset, 0, 0, []⟩)

namespace AckState

variable (cfg : AckConfig) (σ : AckState)

/-- `writeBlastDoneAllBestEffort`, once every lane has written what it had. -/
def sendDone : Option AckState :=
  match σ.phase with
  | .ended =>
      if σ.lanes.all fun lane => lane.queue.isEmpty then
        some
          { σ with
            lanes := σ.lanes.map fun lane => (lane.sendDone σ.offset).1
            toReceiver := (σ.lanes.map fun lane => (lane.conn, (lane.sendDone σ.offset).2)) ++
              σ.toReceiver }
      else none
  | _ => none

/-- A lane reads a Stats packet and moves its window. -/
def readStats (i stripeID ackFloor : Nat) : Option AckState :=
  match σ.lanes[i]? with
  | none => none
  | some lane =>
      if cfg.adaptive ∧ (lane.conn, .stats stripeID ackFloor) ∈ σ.toSender then
        some (σ.setLane i { lane with window := lane.window.advanceAck ackFloor })
      else none

/-! ## The receiver -/

/-- A packet arrives.  A Hello is answered and names the peer of the lane. -/
def deliver (conn : Nat) (packet : Packet) (order : List Nat → List Nat) : Option AckState :=
  if (conn, packet) ∈ σ.toReceiver then
    let arrival : Arrival := ⟨conn, packet, order⟩
    let receiver := (exec (receivePacket cfg.recv arrival) σ.receiver).2
    if packet.type = .hello then
      some
        { σ with
          receiver := receiver
          peers := conn :: σ.peers
          toSender := (conn, .helloAck packet.stripeID arrival.totalStripes) :: σ.toSender }
    else some { σ with receiver := receiver }
  else none

/-- What `sendStripedStatsFeedbackLocked` sends: for every stripe its expected
sequence number, on the lane the stripe was last seen on. -/
def stripedStats : List (Nat × Feedback) :=
  σ.receiver.run.stripes.entries.filterMap fun e =>
    match e.2.lane with
    | none => none
    | some lane => if lane ∈ σ.peers then some (lane, .stats e.1 e.2.expectedSeq) else none

/-- `sendStatsFeedbackLocked`. -/
def feedback : AckState :=
  if σ.receiver.run.striped then { σ with toSender := σ.stripedStats ++ σ.toSender }
  else
    { σ with
      toSender := (σ.peers.map fun lane => (lane, .stats 0 σ.receiver.run.nextWriteSeq)) ++
        σ.toSender }

/-! ## Steps -/

def step : AckLabel → Option AckState
  | .sendHello => σ.sendHello cfg
  | .ackHello => σ.ackHello cfg
  | .skipHello => σ.skipHello cfg
  | .enqueue payload => σ.enqueue cfg payload
  | .encode i => σ.encode i
  | .endSource => σ.endSource
  | .sendDone => σ.sendDone
  | .deliver conn packet order => σ.deliver cfg conn packet order
  | .feedback => some σ.feedback
  | .readStats i stripeID ackFloor => σ.readStats cfg i stripeID ackFloor

end AckState

/-- Every packet a lane stored and no longer holds is one the receiver's stripe is
past. -/
def AckSafe (σ : AckState) : Prop :=
  ∀ lane ∈ σ.lanes, ∀ s ∈ lane.stored, lane.window.packet s = none →
    s < (σ.receiver.run.stripe lane.stripeID).expectedSeq

instance (σ : AckState) : Decidable (AckSafe σ) := by
  unfold AckSafe
  infer_instance

/-- If the step reads a Stats packet, it is about the stripe of the lane. -/
def ReadsOwnStats (σ : AckState) : AckLabel → Prop
  | .readStats i stripeID _ => ∀ lane, σ.lanes[i]? = some lane → stripeID = lane.stripeID
  | _ => True

instance (σ : AckState) : DecidablePred (ReadsOwnStats σ)
  | .readStats i stripeID _ =>
      inferInstanceAs (Decidable (∀ lane, σ.lanes[i]? = some lane → stripeID = lane.stripeID))
  | .sendHello | .ackHello | .skipHello | .enqueue _ | .encode _ | .endSource | .sendDone
  | .deliver _ _ _ | .feedback => isTrue trivial

/-! ## Windows and the stripes they belong to -/

/-- A lane is not acknowledged beyond its stripe, and its window holds whatever was
stored and is not acknowledged. -/
structure LaneInv (c : Coord) (lane : SendLane) : Prop where
  floor : lane.window.ackFloor ≤ (c.run.stripe lane.stripeID).expectedSeq
  kept : ∀ s ∈ lane.stored, lane.window.packet s = none → s < lane.window.ackFloor

namespace LaneInv

variable {c c' : Coord} {lane : SendLane}

theorem mono (hc : Ahead c c') (h : LaneInv c lane) : LaneInv c' lane :=
  ⟨Nat.le_trans h.floor (hc.expectedSeq _), h.kept⟩

theorem new (conn stripeID nextSeq chunkSize maxBytes : Nat) (queue : List SendItem)
    (fec : Option FecGroup) (aead : Option Nat) :
    LaneInv c ⟨conn, stripeID, nextSeq, queue, fec, ReplayWindow.new chunkSize maxBytes aead, []⟩ :=
  ⟨Nat.zero_le _, fun s hs => by cases hs⟩

/-- Storing a packet. -/
theorem store (h : LaneInv c lane) {type : PacketType} {seq offset : Nat} {payload : List UInt8}
    {w : ReplayWindow} {wire : Packet}
    (hadd : lane.window.addPacket type lane.stripeID seq offset payload = .ok (w, wire))
    (queue : List SendItem) :
    LaneInv c { lane with queue := queue, window := w, stored := seq :: lane.stored } := by
  refine ⟨?_, fun s hs hnone => ?_⟩
  · show w.ackFloor ≤ _
    rw [ReplayWindow.ackFloor_addPacket hadd]
    exact h.floor
  · show s < w.ackFloor
    rw [ReplayWindow.ackFloor_addPacket hadd]
    have hw : w.packet s = none := hnone
    rw [ReplayWindow.packet_addPacket hadd] at hw
    split at hw
    · cases hw
    · rename_i hne
      exact h.kept s ((List.mem_cons.mp hs).resolve_left hne) hw

/-- Moving the window to a floor the stripe has reached. -/
theorem advanceAck (h : LaneInv c lane) {floor : Nat}
    (hfloor : floor ≤ (c.run.stripe lane.stripeID).expectedSeq) :
    LaneInv c { lane with window := lane.window.advanceAck floor } := by
  refine ⟨?_, fun s hs hnone => ?_⟩
  · show (lane.window.advanceAck floor).ackFloor ≤ _
    rw [ReplayWindow.ackFloor_advanceAck]
    exact Nat.max_le.mpr ⟨h.floor, hfloor⟩
  · show s < (lane.window.advanceAck floor).ackFloor
    rw [ReplayWindow.ackFloor_advanceAck]
    have hw : (lane.window.advanceAck floor).packet s = none := hnone
    rw [ReplayWindow.packet_advanceAck] at hw
    split at hw
    · omega
    · have := h.kept s hs hw
      omega

theorem sendDone (h : LaneInv c lane) (offset : Nat) : LaneInv c (lane.sendDone offset).1 := by
  rw [SendLane.sendDone]
  split
  · rename_i hadd
    exact h.store hadd lane.queue
  · exact h

end LaneInv

/-! ## The invariant -/

/-- Before the first packet arrives there are only the first Hellos, which announce
two stripes or more, and nothing was answered. -/
structure Fresh (cfg : AckConfig) (σ : AckState) : Prop where
  phase : ∃ conn, σ.phase = .hello conn []
  lanes : σ.lanes = []
  hellos : ∀ m ∈ σ.toReceiver, m.2.type = .hello ∧ m.2.seq = cfg.conns
  unanswered : ∀ conn stripe, σ.answeredHello conn stripe = false
  peers : σ.peers = []

structure AckInv (cfg : AckConfig) (σ : AckState) : Prop where
  stats : ∀ conn stripe floor, (conn, .stats stripe floor) ∈ σ.toSender →
    floor ≤ (σ.receiver.run.stripe stripe).expectedSeq
  lanes : ∀ lane ∈ σ.lanes, LaneInv σ.receiver lane
  striped : σ.receiver.run.striped = true ∨ Fresh cfg σ

namespace AckInv

variable {cfg : AckConfig} {σ τ : AckState}

theorem safe (h : AckInv cfg σ) : AckSafe σ :=
  fun lane hl s hs hnone =>
    Nat.lt_of_lt_of_le ((h.lanes lane hl).kept s hs hnone) (h.lanes lane hl).floor

theorem init : AckInv cfg AckState.init where
  stats := fun _ _ _ h => by cases h
  lanes := fun _ h => by cases h
  striped := .inr
    { phase := ⟨0, rfl⟩
      lanes := rfl
      hellos := fun _ h => by cases h
      unanswered := fun _ _ => rfl
      peers := rfl }

/-- A step of the sender once the run is striped: only the lanes matter. -/
theorem of_lanes (h : AckInv cfg σ) (hstriped : σ.receiver.run.striped = true)
    (hreceiver : τ.receiver = σ.receiver) (hsender : τ.toSender = σ.toSender)
    (hlanes : ∀ lane ∈ τ.lanes, LaneInv σ.receiver lane) : AckInv cfg τ where
  stats := by
    rw [hreceiver, hsender]
    exact h.stats
  lanes := by
    rw [hreceiver]
    exact hlanes
  striped := .inl (by rw [hreceiver]; exact hstriped)

theorem striped_of_lane (h : AckInv cfg σ) {i : Nat} {lane : SendLane}
    (hi : σ.lanes[i]? = some lane) : σ.receiver.run.striped = true := by
  rcases h.striped with hs | hf
  · exact hs
  · rw [hf.lanes] at hi
    cases hi

theorem striped_of_answered (h : AckInv cfg σ) {conn stripe : Nat}
    (ha : σ.answeredHello conn stripe = true) : σ.receiver.run.striped = true := by
  rcases h.striped with hs | hf
  · exact hs
  · rw [hf.unanswered] at ha
    cases ha

theorem striped_of_phase (h : AckInv cfg σ) (hp : ∀ conn, σ.phase ≠ .hello conn []) :
    σ.receiver.run.striped = true := by
  rcases h.striped with hs | hf
  · exact hs
  · obtain ⟨conn, hconn⟩ := hf.phase
    exact absurd hconn (hp conn)

/-- One lane changes. -/
theorem setLane (h : AckInv cfg σ) {i : Nat} {lane lane' : SendLane}
    (hi : σ.lanes[i]? = some lane) (hreceiver : τ.receiver = σ.receiver)
    (hsender : τ.toSender = σ.toSender) (hlanes : τ.lanes = σ.lanes.set i lane')
    (hl : LaneInv σ.receiver lane') : AckInv cfg τ := by
  refine h.of_lanes (h.striped_of_lane hi) hreceiver hsender fun l hmem => ?_
  rw [hlanes] at hmem
  rcases List.mem_or_eq_of_mem_set hmem with hold | rfl
  · exact h.lanes l hold
  · exact hl

/-! ## Steps of the sender -/

theorem startSending (h : AckInv cfg σ) (hstriped : σ.receiver.run.striped = true)
    (answered : List Nat) : AckInv cfg (σ.startSending cfg answered) := by
  refine h.of_lanes hstriped rfl rfl fun lane hl => ?_
  obtain ⟨⟨conn, i⟩, -, rfl⟩ := List.mem_map.mp hl
  exact LaneInv.new ..

theorem nextHello (h : AckInv cfg σ) (hstriped : σ.receiver.run.striped = true) {conn : Nat}
    {answered : List Nat} (hn : σ.nextHello cfg conn answered = some τ) : AckInv cfg τ := by
  rw [AckState.nextHello, AckState.finishHello] at hn
  split at hn
  · cases hn
    exact h.of_lanes hstriped rfl rfl h.lanes
  split at hn
  · cases hn
  split at hn
  · cases hn
    exact h.of_lanes hstriped rfl rfl h.lanes
  · cases hn
    exact h.startSending hstriped answered

theorem sendHello (h : AckInv cfg σ) (hs : σ.sendHello cfg = some τ) : AckInv cfg τ := by
  rw [AckState.sendHello] at hs
  split at hs
  · cases hs
  rename_i conn stripe total hshake
  cases hs
  refine ⟨h.stats, h.lanes, ?_⟩
  rcases h.striped with hstriped | hf
  · exact .inl hstriped
  · -- the handshake under way is one of the first
    refine .inr ⟨hf.phase, hf.lanes, fun m hm => ?_, hf.unanswered, hf.peers⟩
    rcases List.mem_cons.mp hm with rfl | hm
    · obtain ⟨c, hc⟩ := hf.phase
      rw [AckState.handshake, hc] at hshake
      cases hshake
      exact ⟨rfl, rfl⟩
    · exact hf.hellos m hm

theorem ackHello (h : AckInv cfg σ) (hs : σ.ackHello cfg = some τ) : AckInv cfg τ := by
  rw [AckState.ackHello] at hs
  split at hs
  · split at hs
    · rename_i ha
      exact h.nextHello (h.striped_of_answered ha) hs
    · cases hs
  · split at hs
    · cases hs
    split at hs
    · rename_i ha
      have hstriped := h.striped_of_answered ha
      split at hs
      · cases hs
        exact h.of_lanes hstriped rfl rfl h.lanes
      · cases hs
        exact h.startSending hstriped _
    · cases hs
  · cases hs

theorem skipHello (h : AckInv cfg σ) (hs : σ.skipHello cfg = some τ) : AckInv cfg τ := by
  rw [AckState.skipHello] at hs
  split at hs
  · rename_i conn answered hphase
    split at hs
    · rcases h.striped with hstriped | hf
      · exact h.nextHello hstriped hs
      · -- no socket has answered, so there is another one to greet
        obtain ⟨c, hc⟩ := hf.phase
        rw [hphase] at hc
        cases hc
        rw [AckState.nextHello, AckState.finishHello, if_pos rfl] at hs
        split at hs
        · cases hs
          exact ⟨h.stats, h.lanes, .inr ⟨⟨_, rfl⟩, hf.lanes, hf.hellos, hf.unanswered, hf.peers⟩⟩
        · cases hs
    · cases hs
  · cases hs

theorem enqueue (h : AckInv cfg σ) {payload : List UInt8}
    (hs : σ.enqueue cfg payload = some τ) : AckInv cfg τ := by
  rw [AckState.enqueue] at hs
  split at hs
  · split at hs
    · cases hs
    dsimp only at hs
    split at hs
    · cases hs
    · rename_i lane hi
      cases hs
      have hl := h.lanes lane (List.mem_of_getElem? hi)
      exact h.setLane hi rfl rfl rfl ⟨hl.floor, hl.kept⟩
  · cases hs

theorem encode (h : AckInv cfg σ) {i : Nat} (hs : σ.encode i = some τ) : AckInv cfg τ := by
  rw [AckState.encode] at hs
  split at hs
  · cases hs
  rename_i lane hi
  have hl := h.lanes lane (List.mem_of_getElem? hi)
  split at hs
  · cases hs
  · cases hs
    exact h.setLane hi rfl rfl rfl ⟨hl.floor, hl.kept⟩
  · split at hs
    · cases hs
    · rename_i hadd
      cases hs
      exact h.setLane hi rfl rfl rfl (hl.store hadd _)

theorem endSource (h : AckInv cfg σ) (hs : σ.endSource = some τ) : AckInv cfg τ := by
  rw [AckState.endSource] at hs
  split at hs
  · rename_i hphase
    cases hs
    refine h.of_lanes (h.striped_of_phase fun c hc => by rw [hphase] at hc; cases hc) rfl rfl ?_
    intro lane hl
    obtain ⟨lane, hmem, rfl⟩ := List.mem_map.mp hl
    exact ⟨(h.lanes lane hmem).floor, (h.lanes lane hmem).kept⟩
  · cases hs

theorem sendDone (h : AckInv cfg σ) (hs : σ.sendDone = some τ) : AckInv cfg τ := by
  rw [AckState.sendDone] at hs
  split at hs
  · rename_i hphase
    split at hs
    · cases hs
      refine h.of_lanes (h.striped_of_phase fun c hc => by rw [hphase] at hc; cases hc) rfl rfl ?_
      intro lane hl
      obtain ⟨lane, hmem, rfl⟩ := List.mem_map.mp hl
      exact (h.lanes lane hmem).sendDone σ.offset
    · cases hs
  · cases hs

theorem readStats (h : AckInv cfg σ) {i stripeID ackFloor : Nat}
    (hown : ReadsOwnStats σ (.readStats i stripeID ackFloor))
    (hs : σ.readStats cfg i stripeID ackFloor = some τ) : AckInv cfg τ := by
  rw [AckState.readStats] at hs
  split at hs
  · cases hs
  rename_i lane hi
  split at hs
  · rename_i hread
    cases hs
    have hfloor := h.stats _ _ _ hread.2
    rw [hown lane hi] at hfloor
    exact h.setLane hi rfl rfl rfl ((h.lanes lane (List.mem_of_getElem? hi)).advanceAck hfloor)
  · cases hs

/-! ## Steps of the receiver -/

/-- A first Hello stripes the run. -/
theorem striped_receive_hello {c : Coord} {a : Arrival} (htype : a.packet.type = .hello)
    (hseq : a.packet.seq = cfg.conns) :
    (exec (receivePacket cfg.recv a) c).2.run.striped = true := by
  have htotal : a.totalStripes = cfg.conns := by
    have h2 := cfg.conns_two_le
    have hle := cfg.conns_le
    rw [Arrival.totalStripes, if_pos ⟨htype, by omega, by omega⟩, hseq]
  have hpath : a.packet.stripeID ≠ 0 ∨ 1 < a.totalStripes ∨ c.run.striped = true :=
    .inr (.inl (by rw [htotal]; exact cfg.conns_two_le))
  rw [receivePacket, handlePacketStripe, exec_bind_ok (exec_read c), if_pos hpath, htype]
  exact (Prod.mk.inj (c.run.enableStriped_progress a.totalStripes)).1

theorem deliver (h : AckInv cfg σ) {conn : Nat} {packet : Packet} {order : List Nat → List Nat}
    (hs : σ.deliver cfg conn packet order = some τ) : AckInv cfg τ := by
  rw [AckState.deliver] at hs
  split at hs
  · rename_i hmem
    have hahead := ahead_receivePacket cfg.recv ⟨conn, packet, order⟩ σ.receiver
    have hstats : ∀ c stripe floor, (c, Feedback.stats stripe floor) ∈ σ.toSender →
        floor ≤ ((exec (receivePacket cfg.recv ⟨conn, packet, order⟩) σ.receiver).2.run.stripe
          stripe).expectedSeq :=
      fun c stripe floor hm => Nat.le_trans (h.stats c stripe floor hm) (hahead.expectedSeq _)
    have hstriped :
        (exec (receivePacket cfg.recv ⟨conn, packet, order⟩) σ.receiver).2.run.striped = true := by
      rcases h.striped with hst | hf
      · exact hahead.striped hst
      · obtain ⟨htype, hseq⟩ := hf.hellos _ hmem
        exact striped_receive_hello htype hseq
    dsimp only at hs
    split at hs
    · cases hs
      refine ⟨fun c stripe floor hm => ?_, fun lane hl => (h.lanes lane hl).mono hahead, .inl hstriped⟩
      exact hstats c stripe floor ((List.mem_cons.mp hm).resolve_left (by simp))
    · cases hs
      exact ⟨hstats, fun lane hl => (h.lanes lane hl).mono hahead, .inl hstriped⟩
  · cases hs

theorem expectedSeq_of_mem_entries {s : RunState} {e : (_ : Nat) × StripeState}
    (he : e ∈ s.stripes.entries) : s.stripe e.1 = e.2 := by
  rw [RunState.stripe, AList.mem_lookup_iff.mpr he]
  rfl

theorem feedback (h : AckInv cfg σ) : AckInv cfg σ.feedback := by
  rw [AckState.feedback]
  split
  · rename_i hstriped
    refine ⟨fun conn stripe floor hm => ?_, h.lanes, .inl hstriped⟩
    rcases List.mem_append.mp hm with hm | hm
    · obtain ⟨e, he, hfb⟩ := List.mem_filterMap.mp hm
      split at hfb
      · cases hfb
      split at hfb
      · cases hfb
        rw [← expectedSeq_of_mem_entries he]
      · cases hfb
    · exact h.stats conn stripe floor hm
  · -- nothing has arrived yet, so no lane knows its peer
    rename_i hstriped
    have hf := h.striped.resolve_left hstriped
    have hnone : (σ.peers.map fun lane =>
        (lane, Feedback.stats 0 σ.receiver.run.nextWriteSeq)) ++ σ.toSender = σ.toSender := by
      rw [hf.peers]
      rfl
    rw [hnone]
    exact h

theorem step {l : AckLabel} (h : AckInv cfg σ) (hown : ReadsOwnStats σ l)
    (hs : σ.step cfg l = some τ) : AckInv cfg τ := by
  cases l with
  | sendHello => exact h.sendHello hs
  | ackHello => exact h.ackHello hs
  | skipHello => exact h.skipHello hs
  | enqueue payload => exact h.enqueue hs
  | encode i => exact h.encode hs
  | endSource => exact h.endSource hs
  | sendDone => exact h.sendDone hs
  | deliver conn packet order => exact h.deliver hs
  | feedback =>
      cases hs
      exact h.feedback
  | readStats i stripeID ackFloor => exact h.readStats hown hs

end AckInv

/-- As long as every Stats packet is read by the lane of the stripe it is about, no
lane releases a packet its stripe is not past. -/
theorem striped_ack_safe (cfg : AckConfig) (ls : List AckLabel) (σ : AckState)
    (hown : StepsMeet (AckState.step cfg) ReadsOwnStats AckState.init ls)
    (hrun : runFrom (AckState.step cfg) AckState.init ls = some σ) : AckSafe σ :=
  (runFrom_invariant_of_meet (I := AckInv cfg) (fun _ _ _ h hok hs => h.step hok hs) ls
    AckInv.init hown hrun).safe

/-- Three sockets of which the first does not answer. -/
def exampleAckConfig : AckConfig where
  conns := 3
  conns_two_le := by decide
  conns_le := by decide
  allowPartialParallel := true
  adaptive := true
  send := ⟨4, 100, true, 0, 0, none, 128, 0⟩
  recv := ⟨false, 0, 0, false⟩

/-- Socket 1 becomes stripe 0 and socket 2 becomes stripe 1.  The only data packet
is lost; the Done of stripe 1 arrives.  Then a late copy of the first Hello of socket
1, which announced stripe 1, makes the receiver report stripe 1 on socket 1. -/
def lateHelloRun : List AckLabel :=
  [.skipHello, .sendHello, .deliver 1 (helloPacket 1 3) id, .ackHello,
    .sendHello, .deliver 2 (helloPacket 2 3) id, .ackHello,
    .sendHello, .deliver 1 (helloPacket 0 2) id, .ackHello,
    .sendHello, .deliver 2 (helloPacket 1 2) id, .ackHello,
    .enqueue [7], .encode 0, .endSource, .sendDone,
    .deliver 2 ⟨.done, 1, 0, 1, 0, 0, []⟩ id,
    .deliver 1 (helloPacket 1 3) id, .feedback, .readStats 0 1 1]

theorem striped_ack_late_hello_releases :
    ∃ σ, runFrom (AckState.step exampleAckConfig) AckState.init lateHelloRun = some σ ∧
      ¬AckSafe σ := by
  have h : (runFrom (AckState.step exampleAckConfig) AckState.init lateHelloRun).any
      (fun σ => !decide (AckSafe σ)) = true := by decide +kernel
  obtain ⟨σ, hrun, hunsafe⟩ := (Option.any_eq_true ..).mp h
  exact ⟨σ, hrun, by simpa using hunsafe⟩

/-- Without the late Hello, stripe 1 is reported on its own socket. -/
def ownStatsRun : List AckLabel :=
  lateHelloRun.take 18 ++ [.feedback, .readStats 1 1 1]

theorem striped_ack_safe_own_stats :
    StepsMeet (AckState.step exampleAckConfig) ReadsOwnStats AckState.init ownStatsRun ∧
      ∃ σ, runFrom (AckState.step exampleAckConfig) AckState.init ownStatsRun = some σ ∧
        AckSafe σ := by
  have hown : StepsMeet (AckState.step exampleAckConfig) ReadsOwnStats AckState.init ownStatsRun :=
    by decide +kernel
  have hsome : (runFrom (AckState.step exampleAckConfig) AckState.init ownStatsRun).isSome = true :=
    by decide +kernel
  obtain ⟨σ, hrun⟩ := Option.isSome_iff_exists.mp hsome
  exact ⟨hown, σ, hrun, striped_ack_safe exampleAckConfig ownStatsRun σ hown hrun⟩

end Probe
