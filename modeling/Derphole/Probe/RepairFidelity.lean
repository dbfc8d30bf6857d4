import Derphole.Probe.RepairHistory

/-!
# What is sent again is what was sent

The blast senders cut what they read into packets and record each of them in a
repair history: `sendBlast` in one, `SendBlastParallel` in one or, striped, in one
for each lane.  A run of a sender is a list of its reads, packets and
acknowledgements.

A replay window and a packet buffer give back what was put in.  A packet put
together from recorded payloads is none before the end of the source, and after it
carries the offset it would have if every packet before it had been full.
-/

namespace Probe

open Lib

/-- The senders that record. -/
inductive Sender where
  | single
  | parallel
  | striped (lanes : Nat) (lanes_pos : 0 < lanes)

/-- A history and what was sent under it, the packets waiting for their lane
included. -/
structure HistoryLane where
  stripeID : Nat
  nextSeq : Nat
  queue : List (Nat × Nat × List UInt8)
  history : RepairHistory
  sent : List Packet

structure RepairState where
  offset : Nat
  remaining : List UInt8
  lanes : List HistoryLane

inductive RepairLabel where
  | read (bytes : List UInt8)
  | packet
  | encode (lane : Nat)
  | ack (lane floor : Nat)
  | finish

def HistoryLane.start (stripeID : Nat) (history : RepairHistory) : HistoryLane :=
  ⟨stripeID, 0, [], history, []⟩

@[simp] theorem HistoryLane.start_nextSeq (stripeID : Nat) (history : RepairHistory) :
    (HistoryLane.start stripeID history).nextSeq = 0 := rfl

namespace RepairState

variable (sender : Sender) (cfg : SendConfig) (σ : RepairState)

def init : RepairState where
  offset := 0
  remaining := []
  lanes :=
    match sender with
    | .single | .parallel => [.start 0 cfg.history]
    | .striped n _ => (List.range n).map fun i => .start i (cfg.laneHistory n)

def setLane (i : Nat) (lane : HistoryLane) : RepairState := { σ with lanes := σ.lanes.set i lane }

/-- Bytes of the source, cut and sent before the next read. -/
def read (bytes : List UInt8) : Option RepairState :=
  if σ.remaining = [] then some { σ with remaining := bytes } else none

/-- Encode a packet of a lane.  A full window waits, and any other error ends the
send. -/
def send (lane : HistoryLane) (seq offset : Nat) (payload : List UInt8) : Option HistoryLane :=
  let result :=
    match sender with
    | .single => lane.history.sendBlastDataPacket cfg seq offset payload
    | _ => lane.history.blastParallelDataPacket cfg lane.stripeID seq offset payload
  match result with
  | .error _ => none
  | .ok (history, wire) => some { lane with history := history, sent := wire :: lane.sent }

/-- The next packet of what was read.  A striped send leaves it to its lane. -/
def packet : Option RepairState :=
  if σ.remaining = [] then none
  else
    let payload := σ.remaining.take cfg.chunk
    let rest := { σ with
      offset := σ.offset + payload.length, remaining := σ.remaining.drop cfg.chunk }
    match sender with
    | .single | .parallel =>
        match σ.lanes[0]? with
        | none => none
        | some lane =>
            match send sender cfg lane lane.nextSeq σ.offset payload with
            | none => none
            | some lane => some (rest.setLane 0 { lane with nextSeq := lane.nextSeq + 1 })
    | .striped _ _ =>
        let i := cfg.laneIndexForOffset σ.offset σ.lanes.length
        match σ.lanes[i]? with
        | none => none
        | some lane =>
            some (rest.setLane i
              { lane with
                nextSeq := lane.nextSeq + 1
                queue := lane.queue ++ [(lane.nextSeq, σ.offset, payload)] })

/-- A lane of a striped send takes its next packet. -/
def encode (i : Nat) : Option RepairState :=
  match σ.lanes[i]? with
  | none => none
  | some lane =>
      match lane.queue with
      | [] => none
      | (seq, offset, payload) :: queue =>
          match send sender cfg { lane with queue := queue } seq offset payload with
          | none => none
          | some lane => some (σ.setLane i lane)

def ack (i floor : Nat) : Option RepairState :=
  match σ.lanes[i]? with
  | none => none
  | some lane => some (σ.setLane i { lane with history := lane.history.ackFloor floor })

/-- The source has ended and every lane is done. -/
def finish : Option RepairState :=
  if σ.remaining = [] ∧ σ.lanes.all fun lane => lane.queue.isEmpty then
    some
      { σ with
        lanes := σ.lanes.map fun lane =>
          { lane with
            history := lane.history.markComplete
              (match sender with
                | .striped _ _ => 0
                | _ => σ.offset)
              lane.nextSeq } }
  else none

def step : RepairLabel → Option RepairState
  | .read bytes => σ.read bytes
  | .packet => σ.packet sender cfg
  | .encode i => σ.encode sender cfg i
  | .ack i floor => σ.ack i floor
  | .finish => σ.finish sender

end RepairState

/-- The packet was acknowledged, as far as the history knows. -/
def RepairHistory.acknowledged (h : RepairHistory) (seq : Nat) : Bool :=
  match h.streamReplay with
  | some w => decide (seq < w.ackFloor)
  | none => false

/-- Every packet sent and not acknowledged is the one the history gives under its
number. -/
def RepairFaithful (σ : RepairState) : Prop :=
  ∀ lane ∈ σ.lanes, ∀ p ∈ lane.sent, lane.history.acknowledged p.seq = false →
    lane.history.packet p.seq = some p

instance (σ : RepairState) : Decidable (RepairFaithful σ) := by
  unfold RepairFaithful
  infer_instance

/-! ## What a history keeps -/

namespace RepairHistory

variable {cfg : SendConfig} {h h' : RepairHistory} {stripeID seq offset floor : Nat}
  {payload : List UInt8} {wire p : Packet}

/-- The history keeps packets: in a window, or as they are. -/
def Keeps (cfg : SendConfig) (h : RepairHistory) : Prop :=
  (∃ w, h.streamReplay = some w) ∨
    (h.streamReplay = none ∧ cfg.aead = none ∧ h.chunkSize ≠ 0)

/-- The packet is acknowledged or stored as it was sent. -/
def Holds (h : RepairHistory) (p : Packet) : Prop :=
  match h.streamReplay with
  | some w => p.seq < w.ackFloor ∨ w.packet p.seq = some p
  | none => h.packetBuffers.lookup p.seq = some p

theorem holds_window {w : ReplayWindow} (hw : h.streamReplay = some w) :
    h.Holds p ↔ p.seq < w.ackFloor ∨ w.packet p.seq = some p := by
  rw [Holds, hw]

theorem holds_buffer (hw : h.streamReplay = none) :
    h.Holds p ↔ h.packetBuffers.lookup p.seq = some p := by
  rw [Holds, hw]

/-- What is held and not acknowledged is sent again as it was. -/
theorem packet_of_holds (hk : Keeps cfg h) (hp : h.Holds p)
    (ha : h.acknowledged p.seq = false) :
    h.packet p.seq = some p := by
  rcases hk with ⟨w, hw⟩ | ⟨hw, -, hc⟩
  · rcases (holds_window hw).mp hp with hlt | hsome
    · rw [acknowledged, hw] at ha
      exact absurd hlt (of_decide_eq_false ha)
    · rw [packet, hw]
      exact hsome
  · simp only [packet, hw, if_neg hc, (holds_buffer hw).mp hp]

/-- What recording a packet has to give. -/
structure Recorded (cfg : SendConfig) (h h' : RepairHistory) (seq : Nat) (wire : Packet) : Prop where
  keeps : Keeps cfg h'
  seq_eq : wire.seq = seq
  holds : h'.Holds wire
  others : ∀ p, p.seq ≠ seq → h.Holds p → h'.Holds p

/-- A window takes a packet and loses none. -/
theorem recorded_addReplayPacket {w : ReplayWindow} (hw : h.streamReplay = some w)
    (hadd : h.addReplayPacket w stripeID seq offset payload = .ok (h', wire)) :
    Recorded cfg h h' seq wire := by
  rw [addReplayPacket] at hadd
  split at hadd
  · cases hadd
  · rename_i w' wire' hok
    cases hadd
    have hwire : wire.seq = seq := by rw [(ReplayWindow.addPacket_ok hok).1]
    have hw' : ({ h with streamReplay := some w' } : RepairHistory).streamReplay = some w' := rfl
    refine ⟨.inl ⟨w', rfl⟩, hwire, ?_, fun p hne hp => ?_⟩
    · rw [holds_window hw', ReplayWindow.packet_addPacket hok, if_pos hwire]
      exact .inr rfl
    · rw [holds_window hw', ReplayWindow.packet_addPacket hok, if_neg hne,
        ReplayWindow.ackFloor_addPacket hok]
      exact (holds_window hw).mp hp

/-- A buffer takes a packet and the others stay. -/
theorem recorded_packetBufferForStripe (hw : h.streamReplay = none) (haead : cfg.aead = none)
    (hc : h.chunkSize ≠ 0)
    (hadd : h.packetBufferForStripe stripeID seq offset payload = .ok (h', wire)) :
    Recorded cfg h h' seq wire := by
  rw [packetBufferForStripe] at hadd
  split at hadd
  · cases hadd
  split at hadd
  · cases hadd
  split at hadd
  · cases hadd
  split at hadd
  · cases hadd
  cases hadd
  refine ⟨.inr ⟨hw, haead, hc⟩, rfl, ?_, fun p hne hp => ?_⟩
  · rw [Holds, hw]
    exact AList.lookup_insert _
  · rw [Holds, hw]
    exact (AList.lookup_insert_ne hne).trans ((holds_buffer hw).mp hp)

theorem recorded_sendBlastDataPacket (hrepair : cfg.repairPayloads = true) (hk : Keeps cfg h)
    (hadd : h.sendBlastDataPacket cfg seq offset payload = .ok (h', wire)) :
    Recorded cfg h h' seq wire := by
  rw [sendBlastDataPacket] at hadd
  rcases hk with ⟨w, hw⟩ | ⟨hw, haead, hc⟩
  · simp only [hw, hrepair, if_true, ite_self] at hadd
    exact recorded_addReplayPacket hw hadd
  · simp only [hw, haead, hrepair, Option.isSome_none, Bool.false_eq_true, if_false, if_true] at hadd
    exact recorded_packetBufferForStripe hw haead hc hadd

theorem recorded_blastParallelDataPacket (hrepair : cfg.repairPayloads = true) (hk : Keeps cfg h)
    (hadd : h.blastParallelDataPacket cfg stripeID seq offset payload = .ok (h', wire)) :
    Recorded cfg h h' seq wire := by
  unfold blastParallelDataPacket at hadd
  split at hadd
  · cases hadd
  rcases hk with ⟨w, hw⟩ | ⟨hw, haead, hc⟩
  · simp only [hw] at hadd
    exact recorded_addReplayPacket hw hadd
  · simp only [hw, haead, Option.isSome_none, Bool.false_eq_true, if_false] at hadd
    exact recorded_packetBufferForStripe hw haead hc hadd

theorem keeps_ackFloor (hk : Keeps cfg h) : Keeps cfg (h.ackFloor floor) := by
  rcases hk with ⟨w, hw⟩ | ⟨hw, haead, hc⟩
  · exact .inl ⟨w.advanceAck floor, by rw [ackFloor, hw]; rfl⟩
  · exact .inr ⟨by rw [ackFloor, hw]; rfl, haead, hc⟩

/-- An acknowledgement releases only what it acknowledges. -/
theorem holds_ackFloor (hp : h.Holds p) : (h.ackFloor floor).Holds p := by
  cases hw : h.streamReplay with
  | none =>
      have hw' : (h.ackFloor floor).streamReplay = none := by rw [ackFloor, hw]; rfl
      exact (holds_buffer hw').mpr ((holds_buffer hw).mp hp)
  | some w =>
      have hw' : (h.ackFloor floor).streamReplay = some (w.advanceAck floor) := by
        rw [ackFloor, hw]
        rfl
      rw [holds_window hw', ReplayWindow.ackFloor_advanceAck, ReplayWindow.packet_advanceAck]
      rcases (holds_window hw).mp hp with hlt | hsome
      · exact .inl (by omega)
      · split
        · exact .inl (by omega)
        · exact .inr hsome

end RepairHistory

/-! ## The invariant of a lane -/

/-- The packets of a lane have their own numbers, and its history holds those it
sent. -/
structure LaneFaithful (cfg : SendConfig) (lane : HistoryLane) : Prop where
  queue_le : lane.queue.length ≤ lane.nextSeq
  queued : lane.queue.map (·.1) = List.range' (lane.nextSeq - lane.queue.length) lane.queue.length
  sent_lt : ∀ p ∈ lane.sent, p.seq < lane.nextSeq - lane.queue.length
  keeps : lane.history.Keeps cfg
  holds : ∀ p ∈ lane.sent, lane.history.Holds p

namespace LaneFaithful

variable {sender : Sender} {cfg : SendConfig} {lane lane' : HistoryLane}

theorem start (stripeID : Nat) {h : RepairHistory} (hk : h.Keeps cfg) :
    LaneFaithful cfg (.start stripeID h) where
  queue_le := Nat.le_refl _
  queued := rfl
  sent_lt := fun _ hp => by cases hp
  keeps := hk
  holds := fun _ hp => by cases hp

/-- Sending a packet under a number not used yet. -/
theorem send (hrepair : cfg.repairPayloads = true) (hk : lane.history.Keeps cfg)
    (hh : ∀ p ∈ lane.sent, lane.history.Holds p) {seq offset : Nat} {payload : List UInt8}
    (hnew : ∀ p ∈ lane.sent, p.seq < seq)
    (hs : RepairState.send sender cfg lane seq offset payload = some lane') :
    ∃ h wire, lane' = { lane with history := h, sent := wire :: lane.sent } ∧
      wire.seq = seq ∧ h.Keeps cfg ∧ ∀ p ∈ wire :: lane.sent, h.Holds p := by
  have hdone : ∀ {h : RepairHistory} {wire : Packet},
      RepairHistory.Recorded cfg lane.history h seq wire →
      wire.seq = seq ∧ h.Keeps cfg ∧ ∀ p ∈ wire :: lane.sent, h.Holds p := by
    intro h wire hrec
    refine ⟨hrec.seq_eq, hrec.keeps, fun p hp => ?_⟩
    rcases List.mem_cons.mp hp with rfl | hp
    · exact hrec.holds
    · exact hrec.others p (Nat.ne_of_lt (hnew p hp)) (hh p hp)
  unfold RepairState.send at hs
  dsimp only at hs
  split at hs
  · cases hs
  · rename_i h wire hadd
    cases hs
    refine ⟨h, wire, rfl, hdone ?_⟩
    cases sender with
    | single => exact RepairHistory.recorded_sendBlastDataPacket hrepair hk hadd
    | parallel => exact RepairHistory.recorded_blastParallelDataPacket hrepair hk hadd
    | striped n hn => exact RepairHistory.recorded_blastParallelDataPacket hrepair hk hadd

/-- A packet waits for its lane. -/
theorem enqueue (h : LaneFaithful cfg lane) (offset : Nat) (payload : List UInt8) :
    LaneFaithful cfg { lane with
      nextSeq := lane.nextSeq + 1
      queue := lane.queue ++ [(lane.nextSeq, offset, payload)] } := by
  have hle := h.queue_le
  refine ⟨?_, ?_, fun p hp => ?_, h.keeps, h.holds⟩
  · simp only [List.length_append, List.length_singleton]
    omega
  · have hstart : lane.nextSeq + 1 - (lane.queue.length + 1) = lane.nextSeq - lane.queue.length := by
      omega
    simp only [List.length_append, List.length_singleton, List.map_append, List.map_cons,
      List.map_nil, h.queued, hstart, List.range'_concat]
    congr 2
    omega
  · have := h.sent_lt p hp
    simp only [List.length_append, List.length_singleton]
    omega

/-- The next waiting packet is sent. -/
theorem dequeue (hrepair : cfg.repairPayloads = true) (h : LaneFaithful cfg lane)
    {seq offset : Nat} {payload : List UInt8} {queue : List (Nat × Nat × List UInt8)}
    (hq : lane.queue = (seq, offset, payload) :: queue)
    (hs : RepairState.send sender cfg { lane with queue := queue } seq offset payload =
      some lane') : LaneFaithful cfg lane' := by
  have hle := h.queue_le
  have hqueued := h.queued
  rw [hq, List.length_cons] at hle
  rw [hq, List.length_cons, List.map_cons, List.range'_succ, List.cons.injEq] at hqueued
  obtain ⟨hfirst, hrest⟩ := hqueued
  have hseq : seq = lane.nextSeq - (queue.length + 1) := hfirst
  have hlt : ∀ p ∈ lane.sent, p.seq < seq := by
    intro p hp
    have := h.sent_lt p hp
    rw [hq, List.length_cons] at this
    omega
  obtain ⟨hist, wire, rfl, hwire, hk, hh⟩ :=
    @send sender cfg { lane with queue := queue } lane' hrepair h.keeps h.holds seq offset payload
      hlt hs
  have hstart : lane.nextSeq - queue.length = seq + 1 := by omega
  refine ⟨?_, ?_, fun p hp => ?_, hk, hh⟩
  · show queue.length ≤ lane.nextSeq
    omega
  · show queue.map (·.1) = List.range' (lane.nextSeq - queue.length) queue.length
    rw [hrest, hstart, hseq]
  · show p.seq < lane.nextSeq - queue.length
    rw [hstart]
    rcases List.mem_cons.mp hp with rfl | hp
    · omega
    · exact Nat.lt_succ_of_lt (hlt p hp)

/-- The next packet of a sender that does not queue. -/
theorem sendNext (hrepair : cfg.repairPayloads = true) (h : LaneFaithful cfg lane)
    (hq : lane.queue = []) {offset : Nat} {payload : List UInt8}
    (hs : RepairState.send sender cfg lane lane.nextSeq offset payload = some lane') :
    LaneFaithful cfg { lane' with nextSeq := lane'.nextSeq + 1 } ∧ lane'.queue = [] := by
  have hlt : ∀ p ∈ lane.sent, p.seq < lane.nextSeq := by
    intro p hp
    have := h.sent_lt p hp
    omega
  obtain ⟨hist, wire, rfl, hwire, hk, hh⟩ := send hrepair h.keeps h.holds hlt hs
  refine ⟨⟨?_, ?_, fun p hp => ?_, hk, hh⟩, hq⟩
  · simp only [hq, List.length_nil]
    omega
  · simp only [hq, List.map_nil, List.length_nil, List.range'_zero]
  · simp only [hq, List.length_nil]
    rcases List.mem_cons.mp hp with rfl | hp
    · omega
    · have := hlt p hp
      omega

theorem ack (h : LaneFaithful cfg lane) (floor : Nat) :
    LaneFaithful cfg { lane with history := lane.history.ackFloor floor } :=
  ⟨h.queue_le, h.queued, h.sent_lt, RepairHistory.keeps_ackFloor h.keeps,
    fun p hp => RepairHistory.holds_ackFloor (h.holds p hp)⟩

theorem finish (h : LaneFaithful cfg lane) (totalBytes packets : Nat) :
    LaneFaithful cfg { lane with history := lane.history.markComplete totalBytes packets } :=
  ⟨h.queue_le, h.queued, h.sent_lt, h.keeps, h.holds⟩

end LaneFaithful

/-! ## Runs -/

/-- The invariant of a send.  Only the lanes of a striped send queue. -/
structure RepairInv (sender : Sender) (cfg : SendConfig) (σ : RepairState) : Prop where
  lanes : ∀ lane ∈ σ.lanes, LaneFaithful cfg lane
  direct : sender = .single ∨ sender = .parallel → ∀ lane ∈ σ.lanes, lane.queue = []

namespace RepairInv

variable {sender : Sender} {cfg : SendConfig} {σ τ : RepairState}

theorem faithful (h : RepairInv sender cfg σ) : RepairFaithful σ :=
  fun lane hl p hp ha =>
    RepairHistory.packet_of_holds (h.lanes lane hl).keeps ((h.lanes lane hl).holds p hp) ha

/-- One lane changes. -/
theorem setLane (h : RepairInv sender cfg σ) {i : Nat} {lane : HistoryLane}
    (hlanes : τ.lanes = σ.lanes.set i lane) (hl : LaneFaithful cfg lane)
    (hq : sender = .single ∨ sender = .parallel → lane.queue = []) : RepairInv sender cfg τ := by
  refine ⟨fun l hmem => ?_, fun hs l hmem => ?_⟩
  · rw [hlanes] at hmem
    rcases List.mem_or_eq_of_mem_set hmem with hold | rfl
    · exact h.lanes l hold
    · exact hl
  · rw [hlanes] at hmem
    rcases List.mem_or_eq_of_mem_set hmem with hold | rfl
    · exact h.direct hs l hold
    · exact hq hs

theorem init (hk : cfg.streamReplayEnabled = true ∨ cfg.aead = none) :
    RepairInv sender cfg (RepairState.init sender cfg) := by
  have hkeeps : ∀ (retain : Bool) (w : ReplayWindow), RepairHistory.Keeps cfg
      (RepairHistory.new cfg.chunk retain cfg.aead (if cfg.streamReplayEnabled then some w else none)) := by
    intro retain w
    cases henabled : cfg.streamReplayEnabled with
    | true => exact .inl ⟨w, rfl⟩
    | false =>
        rw [henabled] at hk
        exact .inr ⟨rfl, hk.resolve_left (by simp), Nat.ne_of_gt cfg.chunk_pos⟩
  have hstart : ∀ i (h : RepairHistory), h.Keeps cfg → LaneFaithful cfg (.start i h) :=
    fun i h hh => .start i hh
  cases sender with
  | single =>
      refine ⟨fun lane hl => ?_, fun _ lane hl => ?_⟩
      · rw [List.mem_singleton.mp hl]
        exact hstart 0 _ (hkeeps _ _)
      · rw [List.mem_singleton.mp hl]
        rfl
  | parallel =>
      refine ⟨fun lane hl => ?_, fun _ lane hl => ?_⟩
      · rw [List.mem_singleton.mp hl]
        exact hstart 0 _ (hkeeps _ _)
      · rw [List.mem_singleton.mp hl]
        rfl
  | striped n hn =>
      refine ⟨fun lane hl => ?_, fun hs => by rcases hs with hs | hs <;> cases hs⟩
      obtain ⟨i, -, rfl⟩ := List.mem_map.mp hl
      exact hstart i _ (hkeeps _ _)

theorem packet (hrepair : cfg.repairPayloads = true) (h : RepairInv sender cfg σ)
    (hs : σ.packet sender cfg = some τ) : RepairInv sender cfg τ := by
  have hdirect : ∀ lane lane' : HistoryLane, sender = .single ∨ sender = .parallel →
      σ.lanes[0]? = some lane →
      RepairState.send sender cfg lane lane.nextSeq σ.offset (σ.remaining.take cfg.chunk) =
        some lane' →
      τ.lanes = σ.lanes.set 0 { lane' with nextSeq := lane'.nextSeq + 1 } →
      RepairInv sender cfg τ := by
    intro lane lane' hsender hi hsend hlanes
    have hmem := List.mem_of_getElem? hi
    obtain ⟨hl, hq⟩ := (h.lanes lane hmem).sendNext hrepair (h.direct hsender lane hmem) hsend
    exact h.setLane hlanes hl fun _ => hq
  unfold RepairState.packet at hs
  split at hs
  · cases hs
  dsimp only at hs
  split at hs
  · split at hs
    · cases hs
    split at hs
    · cases hs
    · rename_i lane hi _ lane' hsend
      cases hs
      exact hdirect lane lane' (.inl rfl) hi hsend rfl
  · split at hs
    · cases hs
    split at hs
    · cases hs
    · rename_i lane hi _ lane' hsend
      cases hs
      exact hdirect lane lane' (.inr rfl) hi hsend rfl
  · split at hs
    · cases hs
    · rename_i lane hi
      cases hs
      exact h.setLane rfl ((h.lanes lane (List.mem_of_getElem? hi)).enqueue _ _)
        fun hsender => by rcases hsender with hsender | hsender <;> cases hsender

theorem encode (hrepair : cfg.repairPayloads = true) (h : RepairInv sender cfg σ) {i : Nat}
    (hs : σ.encode sender cfg i = some τ) : RepairInv sender cfg τ := by
  unfold RepairState.encode at hs
  split at hs
  · cases hs
  rename_i lane hi
  have hmem := List.mem_of_getElem? hi
  split at hs
  · cases hs
  rename_i seq offset payload queue hq
  split at hs
  · cases hs
  · rename_i lane' hsend
    cases hs
    refine h.setLane rfl ((h.lanes lane hmem).dequeue hrepair hq hsend) fun hsender => ?_
    rw [h.direct hsender lane hmem] at hq
    cases hq

theorem step (hrepair : cfg.repairPayloads = true) (h : RepairInv sender cfg σ) {l : RepairLabel}
    (hs : σ.step sender cfg l = some τ) : RepairInv sender cfg τ := by
  cases l with
  | read bytes =>
      rw [RepairState.step, RepairState.read] at hs
      split at hs
      · cases hs
        exact ⟨h.lanes, h.direct⟩
      · cases hs
  | packet => exact h.packet hrepair hs
  | encode i => exact h.encode hrepair hs
  | ack i floor =>
      rw [RepairState.step, RepairState.ack] at hs
      split at hs
      · cases hs
      · rename_i lane hi
        cases hs
        have hmem := List.mem_of_getElem? hi
        exact h.setLane rfl ((h.lanes lane hmem).ack floor) fun hsender =>
          h.direct hsender lane hmem
  | finish =>
      rw [RepairState.step] at hs
      unfold RepairState.finish at hs
      split at hs
      · cases hs
        refine ⟨fun lane hl => ?_, fun hsender lane hl => ?_⟩
        · obtain ⟨lane, hmem, rfl⟩ := List.mem_map.mp hl
          exact (h.lanes lane hmem).finish _ _
        · obtain ⟨lane, hmem, rfl⟩ := List.mem_map.mp hl
          exact h.direct hsender lane hmem
      · cases hs

end RepairInv

/-! ## Recorded payloads -/

/-- A packet that is only recorded cannot be sent again before the end. -/
theorem send_recorded {sender : Sender} {cfg : SendConfig} (lane : HistoryLane)
    (haead : cfg.aead.isSome = true) (hreplay : lane.history.streamReplay = none)
    (hpackets : lane.history.packets = 0) (hbuffers : lane.history.packetBuffers.lookup 0 = none) :
    ∃ lane', RepairState.send sender cfg lane 0 0 [0] = some lane' ∧
      ∃ p ∈ lane'.sent, lane'.history.acknowledged p.seq = false ∧
        lane'.history.packet p.seq ≠ some p := by
  have hmax : ¬maxInt < 0 * lane.history.chunkSize + [(0 : UInt8)].length := by
    rw [Nat.zero_mul]
    decide
  have hrecord : ∃ h', lane.history.record 0 [0] = .ok h' ∧ h'.streamReplay = none ∧ h'.packets = 0 ∧
      h'.packetBuffers.lookup 0 = none := by
    rw [RepairHistory.record]
    split
    · exact ⟨_, rfl, hreplay, hpackets, hbuffers⟩
    · rw [if_neg hmax]
      exact ⟨_, rfl, hreplay, hpackets, hbuffers⟩
  obtain ⟨h', hok, hreplay', hpackets', hbuffers'⟩ := hrecord
  have hnonce : ¬(cfg.aead.isSome = true ∧ packetAEADNonceSeqs ≤ 0) := fun hn => by
    exact absurd hn.2 (by decide)
  have hsealed : ∀ j, lane.history.recordSealed cfg j 0 0 [0] =
      .ok (h', ⟨.data, j, 0, 0, 0, 0, [0]⟩) := by
    intro j
    rw [RepairHistory.recordSealed, hok, marshalPayloadPacket, if_neg hnonce]
    rfl
  have hnone : h'.packet 0 = none := by
    rw [RepairHistory.packet, hreplay']
    simp [hbuffers', RepairHistory.assemblePacket, hpackets']
  have hack : h'.acknowledged 0 = false := by rw [RepairHistory.acknowledged, hreplay']
  have hwire : ∀ p : Packet, p.seq = 0 → h'.acknowledged p.seq = false ∧ h'.packet p.seq ≠ some p := by
    intro p hp
    rw [hp, hnone]
    exact ⟨hack, by simp⟩
  cases sender with
  | single =>
      refine ⟨{ lane with history := h', sent := ⟨.data, 0, 0, 0, 0, 0, [0]⟩ :: lane.sent }, ?_, _,
        List.mem_cons_self, hwire _ rfl⟩
      simp only [RepairState.send, RepairHistory.sendBlastDataPacket, haead, if_true, hreplay, hsealed]
  | parallel =>
      refine ⟨{ lane with
        history := h', sent := ⟨.data, lane.stripeID, 0, 0, 0, 0, [0]⟩ :: lane.sent }, ?_, _,
        List.mem_cons_self, hwire _ rfl⟩
      simp only [RepairState.send, RepairHistory.blastParallelDataPacket, List.cons_ne_nil, if_false,
        haead, if_true, hreplay, hsealed]
  | striped n hn =>
      refine ⟨{ lane with
        history := h', sent := ⟨.data, lane.stripeID, 0, 0, 0, 0, [0]⟩ :: lane.sent }, ?_, _,
        List.mem_cons_self, hwire _ rfl⟩
      simp only [RepairState.send, RepairHistory.blastParallelDataPacket, List.cons_ne_nil, if_false,
        haead, if_true, hreplay, hsealed]

/-- A read of one byte, and its packet. -/
def onePacketRun : Sender → List RepairLabel
  | .single | .parallel => [.read [0], .packet]
  | .striped _ _ => [.read [0], .packet, .encode 0]

theorem onePacketRun_unfaithful (sender : Sender) (cfg : SendConfig)
    (hreplay : cfg.streamReplayEnabled = false) (haead : cfg.aead.isSome = true) :
    ∃ σ, runFrom (RepairState.step sender cfg) (RepairState.init sender cfg) (onePacketRun sender) =
      some σ ∧ ¬RepairFaithful σ := by
  have hunfaithful : ∀ (σ : RepairState) (lane : HistoryLane) (p : Packet), lane ∈ σ.lanes →
      p ∈ lane.sent → lane.history.acknowledged p.seq = false →
      lane.history.packet p.seq ≠ some p → ¬RepairFaithful σ :=
    fun σ lane p hl hp ha hne hf => hne (hf lane hl p hp ha)
  have htake : [(0 : UInt8)].take cfg.chunk = [0] := List.take_of_length_le cfg.chunk_pos
  have hdrop : [(0 : UInt8)].drop cfg.chunk = [] := List.drop_of_length_le cfg.chunk_pos
  have hnone : ∀ w : ReplayWindow, (if cfg.streamReplayEnabled then some w else none) = none := by
    simp [hreplay]
  cases sender with
  | single =>
      obtain ⟨lane, hsend, p, hp, ha, hne⟩ :=
        @send_recorded .single cfg (.start 0 cfg.history) haead (hnone _) rfl rfl
      refine ⟨⟨1, [], [{ lane with nextSeq := lane.nextSeq + 1 }]⟩, ?_,
        hunfaithful _ _ p (List.mem_singleton.mpr rfl) hp ha hne⟩
      simp [onePacketRun, runFrom, RepairState.step, RepairState.read, RepairState.init,
        RepairState.packet, RepairState.setLane, htake, hdrop, hsend]
  | parallel =>
      obtain ⟨lane, hsend, p, hp, ha, hne⟩ :=
        @send_recorded .parallel cfg (.start 0 cfg.history) haead (hnone _) rfl rfl
      refine ⟨⟨1, [], [{ lane with nextSeq := lane.nextSeq + 1 }]⟩, ?_,
        hunfaithful _ _ p (List.mem_singleton.mpr rfl) hp ha hne⟩
      simp [onePacketRun, runFrom, RepairState.step, RepairState.read, RepairState.init,
        RepairState.packet, RepairState.setLane, htake, hdrop, hsend]
  | striped n hn =>
      obtain ⟨m, rfl⟩ := Nat.exists_eq_succ_of_ne_zero (Nat.ne_of_gt hn)
      obtain ⟨lane, hsend, p, hp, ha, hne⟩ :=
        @send_recorded (.striped (m + 1) hn) cfg ⟨0, 1, [], cfg.laneHistory (m + 1), []⟩ haead
          (hnone _) rfl rfl
      have hindex : cfg.laneIndexForOffset 0 (m + 1) = 0 := by
        simp [SendConfig.laneIndexForOffset]
      have hlanes : (RepairState.init (.striped (m + 1) hn) cfg).lanes =
          .start 0 (cfg.laneHistory (m + 1)) ::
            ((List.range m).map Nat.succ).map fun i => .start i (cfg.laneHistory (m + 1)) := by
        simp only [RepairState.init, List.range_succ_eq_map, List.map_cons]
      refine ⟨⟨1, [], lane :: ((List.range m).map Nat.succ).map
          fun i => .start i (cfg.laneHistory (m + 1))⟩, ?_,
        hunfaithful _ lane p List.mem_cons_self hp ha hne⟩
      simp only [onePacketRun, runFrom, RepairState.step, RepairState.read, RepairState.packet,
        RepairState.encode, RepairState.setLane, hlanes]
      simp [RepairState.init, hindex, htake, hdrop, HistoryLane.start, hsend]

/-- A sender sends again what it sent, in every run, exactly if it keeps a replay
window or does not seal its packets. -/
theorem repair_faithful_iff (sender : Sender) (cfg : SendConfig)
    (hrepair : cfg.repairPayloads = true) :
    (∀ ls σ, runFrom (RepairState.step sender cfg) (RepairState.init sender cfg) ls = some σ →
      RepairFaithful σ) ↔ cfg.streamReplayEnabled = true ∨ cfg.aead = none := by
  constructor
  · intro h
    by_contra hc
    obtain ⟨hreplay, haead⟩ := not_or.mp hc
    obtain ⟨σ, hrun, hunfaithful⟩ := onePacketRun_unfaithful sender cfg
      (Bool.not_eq_true _ ▸ hreplay) (Option.isSome_iff_ne_none.mpr haead)
    exact hunfaithful (h _ σ hrun)
  · intro hk ls σ hrun
    exact (runFrom_invariant (I := RepairInv sender cfg) (fun _ _ _ h hs => h.step hrepair hs) ls
      (RepairInv.init hk) hrun).faithful

/-- Packets are sealed and recorded without a replay window. -/
def exampleSealedConfig : SendConfig := ⟨4, 0, true, 0, 0, some 16, 0, 0⟩

/-- The first read is short.  At the end, the second packet is put together with the
offset 4 and the bytes from there, but it was sent with offset 3. -/
theorem repair_unfaithful_short_read :
    ∃ σ, runFrom (RepairState.step .single exampleSealedConfig)
        (RepairState.init .single exampleSealedConfig)
        [.read [1, 2, 3], .packet, .read [4, 5, 6, 7], .packet, .finish] = some σ ∧
      ¬RepairFaithful σ := by
  have h : (runFrom (RepairState.step .single exampleSealedConfig)
      (RepairState.init .single exampleSealedConfig)
      [.read [1, 2, 3], .packet, .read [4, 5, 6, 7], .packet, .finish]).any
      (fun σ => !decide (RepairFaithful σ)) = true := by decide +kernel
  obtain ⟨σ, hrun, hunfaithful⟩ := (Option.any_eq_true ..).mp h
  exact ⟨σ, hrun, by simpa using hunfaithful⟩

theorem repair_faithful_iff_sealed :
    exampleSealedConfig.repairPayloads = true ∧
      ((∀ ls σ, runFrom (RepairState.step .single exampleSealedConfig)
        (RepairState.init .single exampleSealedConfig) ls = some σ → RepairFaithful σ) ↔
        exampleSealedConfig.streamReplayEnabled = true ∨ exampleSealedConfig.aead = none) :=
  ⟨rfl, repair_faithful_iff .single exampleSealedConfig rfl⟩

end Probe
