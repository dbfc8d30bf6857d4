import Derphole.Probe.RepairFidelity
import Derphole.Probe.SendBlast

/-!
# The floor that a receiver reports

A Stats report carries a floor, and the blast senders move their replay windows up to it.
No sender compares it with what it has sent, as `ackIsPlausible` does for the reliable
transfer.  The floor takes one of two ways.  `sendBlast` and `SendBlastParallel` without
stripes take it into the send control and from there into the one window, when they drain
the channel of the control readers.  A striped send moves the window of a lane as soon as
the reader of the lane has the report, and once more when the channel is drained.

A state is that of a sender with its repair histories (`RepairState`), the control and the
channel.  Of the events in the channel only the Stats reports matter here.
-/

namespace Probe

open Lib

inductive FloorPhase where
  | sending
  /-- The end was announced. -/
  | lingering
  /-- The control readers are stopped; Stats reports are dropped. -/
  | serving
  deriving DecidableEq

structure FloorState where
  send : RepairState
  phase : FloorPhase
  /-- The floor of the send control. -/
  ackFloor : Nat
  /-- The Stats reports in the channel, each with its lane and its floor. -/
  events : List (Nat × Nat)
  /-- The lanes to whose window a Done packet was added. -/
  terminals : List Nat
  /-- The packets that were made since the channel was drained. -/
  batch : Nat

inductive FloorLabel where
  | read (bytes : List UInt8)
  | packet
  | encode (lane : Nat)
  | finish
  | done (lane : Nat)
  | serve
  | stats (lane floor : Nat)
  | drain

namespace FloorState

variable (sender : Sender) (cfg : SendConfig) (rateExplorationCeilingMbps : Int) (σ : FloorState)

/-- `newBlastSendControl`: the rate adapts if there is a ceiling. -/
def adaptive : Bool :=
  match sender with
  | .single => decide (0 < cfg.rateCeilingMbps)
  | _ => decide (0 < max cfg.rateCeilingMbps rateExplorationCeilingMbps)

def init : FloorState := ⟨RepairState.init sender cfg, .sending, 0, [], [], 0⟩

/-- The number of packets that were added to the window of a lane. -/
def added (i : Nat) (lane : HistoryLane) : Nat :=
  lane.sent.length + if i ∈ σ.terminals then 1 else 0

/-- A step of the sender while it sends. -/
def sending (next : Option RepairState) : Option FloorState :=
  if σ.phase = .sending then next.map fun s => { σ with send := s } else none

def packet : Option FloorState :=
  (σ.sending (σ.send.packet sender cfg)).map fun τ => { τ with batch := τ.batch + 1 }

/-- The source has ended. -/
def finish : Option FloorState :=
  if σ.phase = .sending then
    (σ.send.finish sender).map fun s => { σ with send := s, phase := .lingering }
  else none

/-- `writeBlastDoneAllBestEffort` on a lane of a striped send.  The Done packet is kept in the
window of the lane, if there is room. -/
def done (i : Nat) : Option FloorState :=
  match sender, σ.send.lanes[i]? with
  | .striped _ _, some lane =>
      if σ.phase = .sending then none
      else
        match lane.history.streamReplay with
        | none => some σ
        | some w =>
            match w.addPacket .done lane.stripeID lane.nextSeq σ.send.offset [] with
            | .error _ => some σ
            | .ok (w, _) =>
                some
                  { σ with
                    send := σ.send.setLane i
                      { lane with history := { lane.history with streamReplay := some w } }
                    terminals := i :: σ.terminals }
  | _, _ => none

/-- The control reader of a lane has a Stats report. -/
def stats (i floor : Nat) : Option FloorState :=
  if adaptive sender cfg rateExplorationCeilingMbps ∧ σ.phase ≠ .serving then
    match sender with
    | .striped _ _ =>
        (σ.send.ack i floor).map fun s => { σ with send := s, events := σ.events ++ [(i, floor)] }
    | _ => some { σ with events := σ.events ++ [(i, floor)] }
  else none

/-- The window has no room for the next packet. -/
def windowFull : Bool :=
  (σ.send.lanes[0]?.bind fun lane => lane.history.streamReplay.map fun w =>
    match w.addDataPacket 0 lane.nextSeq σ.send.offset (σ.send.remaining.take cfg.chunk) with
    | .error .windowFull => !σ.send.remaining.isEmpty
    | _ => false).getD false

/-- Where the channel is drained.  `sendBlast` does so when it has written a batch, at the end of what it
has read, and when the window is full. -/
def drainsHere : Bool :=
  match sender, σ.phase with
  | .single, .sending => (σ.send.remaining.isEmpty && decide (0 < σ.batch)) || σ.windowFull cfg
  | _, _ => true

/-- `drainBlastSendControlEvents`, and the window follows the control.  The control of a striped
send takes no floor: `observeStripedBlastStatsEvent` gives it to the window of the lane. -/
def drain : Option FloorState :=
  if adaptive sender cfg rateExplorationCeilingMbps ∧ σ.phase ≠ .serving ∧ σ.drainsHere sender cfg then
    match sender with
    | .striped _ _ =>
        some
          { σ with
            events := []
            batch := 0
            send := σ.events.foldl (fun s e => (s.ack e.1 e.2).getD s) σ.send }
    | _ =>
        let floor := (σ.events.map (·.2)).foldl max σ.ackFloor
        (σ.send.ack 0 floor).map fun s => { σ with events := [], ackFloor := floor, send := s, batch := 0 }
  else none

def step : FloorLabel → Option FloorState
  | .read bytes => σ.sending (σ.send.read bytes)
  | .packet => σ.packet sender cfg
  | .encode i => σ.sending (σ.send.encode sender cfg i)
  | .finish => σ.finish sender
  | .done i => σ.done sender i
  | .serve => if σ.phase = .lingering then some { σ with phase := .serving } else none
  | .stats i floor => σ.stats sender cfg rateExplorationCeilingMbps i floor
  | .drain => σ.drain sender cfg rateExplorationCeilingMbps

/-- The floor is at most the number of packets added to the window of a lane, if it has one. -/
def withinSent (i floor : Nat) : Bool :=
  match σ.send.lanes[i]? with
  | none => true
  | some lane => lane.history.streamReplay.isNone || decide (floor ≤ σ.added i lane)

/-- Every report that the step hands to a window is plausible. -/
def WithinSent : FloorLabel → Prop
  | .stats i floor =>
      match sender with
      | .striped _ _ => σ.withinSent i floor = true
      | _ => True
  | .drain =>
      match sender with
      | .striped _ _ => True
      | _ => ∀ e ∈ σ.events, σ.withinSent 0 e.2 = true
  | _ => True

instance (l : FloorLabel) : Decidable (σ.WithinSent sender l) := by
  unfold WithinSent
  split
  · split
    · infer_instance
    · infer_instance
  · split
    · infer_instance
    · infer_instance
  · infer_instance

/-- No floor is ahead of what was added to its window, and no data packet stays behind it. -/
def FloorsHold : Prop :=
  ∀ i lane w, σ.send.lanes[i]? = some lane → lane.history.streamReplay = some w →
    w.ackFloor ≤ σ.added i lane ∧ ∀ s < w.ackFloor, s < lane.sent.length → w.packet s = none

end FloorState

/-! ## Windows -/

/-- A window to which `added` packets were added, the first `sent` of them data packets. -/
structure Behind (added sent : Nat) (w : ReplayWindow) : Prop where
  floor : w.ackFloor ≤ added
  released : ∀ s < w.ackFloor, s < sent → w.packet s = none

namespace Behind

variable {added n floor stripeID offset : Nat} {w w' : ReplayWindow} {payload : List UInt8} {wire : Packet}

theorem add (h : Behind n n w) (hadd : w.addDataPacket stripeID n offset payload = .ok (w', wire)) :
    Behind (n + 1) (n + 1) w' := by
  have hfloor := ReplayWindow.ackFloor_addPacket hadd
  have hle := h.floor
  refine ⟨by omega, fun s hs _ => ?_⟩
  rw [ReplayWindow.packet_addPacket hadd, if_neg (by omega)]
  exact h.released s (by omega) (by omega)

theorem addDone (h : Behind added n w) (hn : added ≤ n + 1)
    (hadd : w.addPacket .done stripeID n offset payload = .ok (w', wire)) : Behind (n + 1) n w' := by
  have hfloor := ReplayWindow.ackFloor_addPacket hadd
  have hle := h.floor
  refine ⟨by omega, fun s hs hlt => ?_⟩
  rw [ReplayWindow.packet_addPacket hadd, if_neg (by omega)]
  exact h.released s (by omega) hlt

theorem ack (h : Behind added n w) (hfloor : floor ≤ added) : Behind added n (w.advanceAck floor) := by
  have hle := h.floor
  refine ⟨?_, fun s hs hlt => ?_⟩
  · rw [ReplayWindow.ackFloor_advanceAck]
    omega
  · rw [ReplayWindow.ackFloor_advanceAck] at hs
    rw [ReplayWindow.packet_advanceAck]
    split
    · rfl
    · exact h.released s (by omega) hlt

end Behind

/-! ## Lanes -/

/-- A lane whose packets are numbered as they are added, and whose window is behind them. -/
structure LaneBehind (cfg : SendConfig) (added : Nat) (lane : HistoryLane) : Prop where
  nextSeq : lane.nextSeq = lane.sent.length + lane.queue.length
  queued : lane.queue.map (·.1) = List.range' lane.sent.length lane.queue.length
  repair : ∀ w, lane.history.streamReplay = some w → cfg.repairPayloads = true
  window : ∀ w, lane.history.streamReplay = some w → Behind added lane.sent.length w

/-- `lane'` comes from `lane`: its window, if it has one, is not further back. -/
structure Advances (lane lane' : HistoryLane) : Prop where
  window : ∀ w', lane'.history.streamReplay = some w' →
    ∃ w, lane.history.streamReplay = some w ∧ w.ackFloor ≤ w'.ackFloor
  sent : lane.sent.length ≤ lane'.sent.length

section Lanes

variable {sender : Sender} {cfg : SendConfig} {added seq offset floor : Nat} {lane lane' : HistoryLane}
  {payload : List UInt8}

/-- A packet that is sent is added to the window, if there is one. -/
theorem send_added (hs : RepairState.send sender cfg lane seq offset payload = some lane')
    (hrepair : ∀ w, lane.history.streamReplay = some w → cfg.repairPayloads = true) :
    ∃ h wire, lane' = { lane with history := h, sent := wire :: lane.sent } ∧
      ∀ w', h.streamReplay = some w' → ∃ w stripeID, lane.history.streamReplay = some w ∧
        w.addDataPacket stripeID seq offset payload = .ok (w', wire) := by
  unfold RepairState.send at hs
  dsimp only at hs
  split at hs
  · cases hs
  · rename_i h wire hadd
    cases hs
    refine ⟨h, wire, rfl, fun w' hw' => ?_⟩
    -- the sender with one socket, and the others
    have hone : sender = .single → lane.history.sendBlastDataPacket cfg seq offset payload = .ok (h, wire) := by
      rintro rfl
      exact hadd
    have hmany : sender ≠ .single →
        lane.history.blastParallelDataPacket cfg lane.stripeID seq offset payload = .ok (h, wire) := by
      intro hsender
      cases sender with
      | single => exact absurd rfl hsender
      | parallel => exact hadd
      | striped n hn => exact hadd
    cases hw : lane.history.streamReplay with
    | none =>
        have hnone : h.streamReplay = none := by
          by_cases hsender : sender = .single
          · exact RepairHistory.sendBlastDataPacket_none hw (hone hsender)
          · exact RepairHistory.blastParallelDataPacket_none hw (hmany hsender)
        rw [hnone] at hw'
        cases hw'
    | some w =>
        by_cases hsender : sender = .single
        · obtain ⟨w₁, hw₁, hadd⟩ := RepairHistory.sendBlastDataPacket_some (hrepair w hw) hw (hone hsender)
          rw [hw₁] at hw'
          cases hw'
          exact ⟨w, 0, rfl, hadd⟩
        · obtain ⟨w₁, hw₁, hadd⟩ := RepairHistory.blastParallelDataPacket_some hw (hmany hsender)
          rw [hw₁] at hw'
          cases hw'
          exact ⟨w, lane.stripeID, rfl, hadd⟩

namespace LaneBehind

theorem start (i : Nat) {h : RepairHistory}
    (hrepair : ∀ w, h.streamReplay = some w → cfg.repairPayloads = true ∧ w.ackFloor = 0) :
    LaneBehind cfg 0 (.start i h) where
  nextSeq := rfl
  queued := rfl
  repair := fun w hw => (hrepair w hw).1
  window := fun w hw => by
    have hzero := (hrepair w hw).2
    refine ⟨by omega, fun s hs _ => by omega⟩

/-- The packet with the next number is sent. -/
theorem sent (h : LaneBehind cfg lane.sent.length lane) (queue : List (Nat × Nat × List UInt8))
    (hs : RepairState.send sender cfg { lane with queue := queue } lane.sent.length offset payload =
      some lane') :
    lane'.nextSeq = lane.nextSeq ∧ lane'.queue = queue ∧ lane'.sent.length = lane.sent.length + 1 ∧
      Advances lane lane' ∧
      ∀ w, lane'.history.streamReplay = some w →
        cfg.repairPayloads = true ∧ Behind (lane.sent.length + 1) (lane.sent.length + 1) w := by
  obtain ⟨hist, wire, rfl, hwindow⟩ := send_added hs h.repair
  refine ⟨rfl, rfl, rfl, ⟨fun w' hw' => ?_, Nat.le_succ _⟩, fun w' hw' => ?_⟩
  · obtain ⟨w, stripeID, hw, hadd⟩ := hwindow w' hw'
    exact ⟨w, hw, Nat.le_of_eq (ReplayWindow.ackFloor_addPacket hadd).symm⟩
  · obtain ⟨w, stripeID, hw, hadd⟩ := hwindow w' hw'
    exact ⟨h.repair w hw, (h.window w hw).add hadd⟩

/-- The next packet of a sender that does not queue. -/
theorem sendNext (h : LaneBehind cfg lane.sent.length lane) (hq : lane.queue = [])
    (hs : RepairState.send sender cfg lane lane.nextSeq offset payload = some lane') :
    LaneBehind cfg lane'.sent.length { lane' with nextSeq := lane'.nextSeq + 1 } ∧ lane'.queue = [] ∧
      Advances lane lane' := by
  have hnext : lane.nextSeq = lane.sent.length := by
    rw [h.nextSeq, hq]
    rfl
  rw [hnext] at hs
  obtain ⟨hseq, hqueue, hlen, hadv, hwindow⟩ := h.sent lane.queue hs
  refine ⟨⟨?_, ?_, fun w hw => (hwindow w hw).1, fun w hw => ?_⟩, hqueue.trans hq, hadv⟩
  · show lane'.nextSeq + 1 = lane'.sent.length + lane'.queue.length
    rw [hseq, hnext, hlen, hqueue, hq]
    rfl
  · show lane'.queue.map (·.1) = List.range' lane'.sent.length lane'.queue.length
    rw [hqueue, hq]
    rfl
  · show Behind lane'.sent.length lane'.sent.length w
    rw [hlen]
    exact (hwindow w hw).2

/-- A packet waits for its lane. -/
theorem enqueue (h : LaneBehind cfg added lane) (offset : Nat) (payload : List UInt8) :
    LaneBehind cfg added { lane with
      nextSeq := lane.nextSeq + 1
      queue := lane.queue ++ [(lane.nextSeq, offset, payload)] } where
  nextSeq := by
    simp only [List.length_append, List.length_singleton, h.nextSeq]
    omega
  queued := by
    simp only [List.map_append, List.map_cons, List.map_nil, List.length_append, List.length_singleton,
      h.queued, h.nextSeq, List.range'_concat, Nat.one_mul]
  repair := h.repair
  window := h.window

/-- The next waiting packet is sent. -/
theorem dequeue (h : LaneBehind cfg lane.sent.length lane) {queue : List (Nat × Nat × List UInt8)}
    (hq : lane.queue = (seq, offset, payload) :: queue)
    (hs : RepairState.send sender cfg { lane with queue := queue } seq offset payload = some lane') :
    LaneBehind cfg lane'.sent.length lane' ∧ Advances lane lane' := by
  have hqueued := h.queued
  rw [hq, List.length_cons, List.map_cons, List.range'_succ, List.cons.injEq] at hqueued
  obtain ⟨hfirst, hrest⟩ := hqueued
  have hseq : seq = lane.sent.length := hfirst
  rw [hseq] at hs
  obtain ⟨hnext, hqueue, hlen, hadv, hwindow⟩ := h.sent queue hs
  refine ⟨⟨?_, ?_, fun w hw => (hwindow w hw).1, fun w hw => ?_⟩, hadv⟩
  · rw [hnext, h.nextSeq, hq, hqueue, hlen, List.length_cons]
    omega
  · rw [hqueue, hlen]
    exact hrest
  · rw [hlen]
    exact (hwindow w hw).2

theorem ack (h : LaneBehind cfg added lane) (floor : Nat)
    (hfloor : ∀ w, lane.history.streamReplay = some w → floor ≤ added) :
    LaneBehind cfg added { lane with history := lane.history.ackFloor floor } ∧
      Advances lane { lane with history := lane.history.ackFloor floor } := by
  have hmap : ∀ w', (lane.history.ackFloor floor).streamReplay = some w' →
      ∃ w, lane.history.streamReplay = some w ∧ w' = w.advanceAck floor := by
    intro w' hw'
    obtain ⟨w, hw, rfl⟩ := Option.map_eq_some_iff.mp hw'
    exact ⟨w, hw, rfl⟩
  refine ⟨⟨h.nextSeq, h.queued, fun w' hw' => ?_, fun w' hw' => ?_⟩, fun w' hw' => ?_, Nat.le_refl _⟩
  · obtain ⟨w, hw, -⟩ := hmap w' hw'
    exact h.repair w hw
  · obtain ⟨w, hw, rfl⟩ := hmap w' hw'
    exact (h.window w hw).ack (hfloor w hw)
  · obtain ⟨w, hw, rfl⟩ := hmap w' hw'
    refine ⟨w, hw, ?_⟩
    rw [ReplayWindow.ackFloor_advanceAck]
    omega

end LaneBehind

end Lanes

/-! ## Runs -/

theorem getElem?_set_cases {α : Type} {l : List α} {i j : Nat} {a b c : α} (hi : l[i]? = some c)
    (h : (l.set i a)[j]? = some b) : (j = i ∧ b = a) ∨ (j ≠ i ∧ l[j]? = some b) := by
  have hlt : i < l.length := (List.getElem?_eq_some_iff.mp hi).1
  rw [List.getElem?_set] at h
  by_cases hj : i = j
  · rw [if_pos hj, if_pos hlt] at h
    exact .inl ⟨hj.symm, (Option.some.inj h).symm⟩
  · rw [if_neg hj] at h
    exact .inr ⟨fun heq => hj heq.symm, h⟩

namespace FloorState

/-- The lane with this index, as it should be. -/
def LaneOk (sender : Sender) (cfg : SendConfig) (σ : FloorState) (i : Nat) (lane : HistoryLane) : Prop :=
  LaneBehind cfg (σ.added i lane) lane ∧
    (sender = .single ∨ sender = .parallel ∨ σ.phase ≠ .sending → lane.queue = [])

structure FloorInv (sender : Sender) (cfg : SendConfig) (σ : FloorState) : Prop where
  lanes : ∀ i lane, σ.send.lanes[i]? = some lane → σ.LaneOk sender cfg i lane
  terminals : sender = .single ∨ sender = .parallel ∨ σ.phase = .sending → σ.terminals = []
  /-- The control has no floor ahead of the one window that it moves. -/
  control : sender = .single ∨ sender = .parallel → ∀ lane w, σ.send.lanes[0]? = some lane →
    lane.history.streamReplay = some w → σ.ackFloor ≤ lane.sent.length
  /-- A lane of a striped send has moved its window already. -/
  events : sender ≠ .single ∧ sender ≠ .parallel → ∀ e ∈ σ.events, ∀ lane w,
    σ.send.lanes[e.1]? = some lane → lane.history.streamReplay = some w → e.2 ≤ w.ackFloor

namespace FloorInv

variable {sender : Sender} {cfg : SendConfig} {rateExplorationCeilingMbps : Int} {σ τ : FloorState}

theorem floorsHold (h : FloorInv sender cfg σ) : σ.FloorsHold := fun i lane w hi hw =>
  ⟨((h.lanes i lane hi).1.window w hw).floor, ((h.lanes i lane hi).1.window w hw).released⟩

theorem added_of_sending (h : FloorInv sender cfg σ)
    (hs : sender = .single ∨ sender = .parallel ∨ σ.phase = .sending) (i : Nat) (lane : HistoryLane) :
    σ.added i lane = lane.sent.length := by
  rw [added, h.terminals hs]
  simp

/-- One lane changes, and nothing else. -/
theorem setLane (h : FloorInv sender cfg σ) {i : Nat} {lane lane' : HistoryLane}
    (hi : σ.send.lanes[i]? = some lane) (hlanes : τ.send.lanes = σ.send.lanes.set i lane')
    (hphase : τ.phase = σ.phase) (hfloor : τ.ackFloor = σ.ackFloor) (hterminals : τ.terminals = σ.terminals)
    (hevents : ∀ e ∈ τ.events, e ∈ σ.events ∨ e.1 = i ∧ ∀ w, lane'.history.streamReplay = some w →
      e.2 ≤ w.ackFloor)
    (hadv : Advances lane lane') (hlane : τ.LaneOk sender cfg i lane') : FloorInv sender cfg τ := by
  have hget : ∀ j l, τ.send.lanes[j]? = some l → (j = i ∧ l = lane') ∨ (j ≠ i ∧ σ.send.lanes[j]? = some l) := by
    intro j l hl
    rw [hlanes] at hl
    exact getElem?_set_cases hi hl
  refine ⟨fun j l hl => ?_, ?_, fun hs l w hl hw => ?_, fun hs e he l w hl hw => ?_⟩
  · rcases hget j l hl with ⟨rfl, rfl⟩ | ⟨-, hl⟩
    · exact hlane
    · have hold := h.lanes j l hl
      rw [LaneOk, added] at hold ⊢
      rwa [hterminals, hphase]
  · rw [hterminals, hphase]
    exact h.terminals
  · rw [hfloor]
    rcases hget 0 l hl with ⟨rfl, rfl⟩ | ⟨-, hl⟩
    · obtain ⟨w₀, hw₀, -⟩ := hadv.window w hw
      exact Nat.le_trans (h.control hs lane w₀ hi hw₀) hadv.sent
    · exact h.control hs l w hl hw
  · rcases hevents e he with hold | ⟨hei, hnew⟩
    · rcases hget e.1 l hl with ⟨heq, rfl⟩ | ⟨-, hl⟩
      · obtain ⟨w₀, hw₀, hle⟩ := hadv.window w hw
        rw [← heq] at hi
        exact Nat.le_trans (h.events hs e hold lane w₀ hi hw₀) hle
      · exact h.events hs e hold l w hl hw
    · rcases hget e.1 l hl with ⟨-, rfl⟩ | ⟨hne, -⟩
      · exact hnew w hw
      · exact absurd hei hne

/-- Nothing that the invariant speaks of changes. -/
theorem same (h : FloorInv sender cfg σ) (hlanes : τ.send.lanes = σ.send.lanes)
    (hphase : τ.phase = σ.phase) (hfloor : τ.ackFloor = σ.ackFloor) (hterminals : τ.terminals = σ.terminals)
    (hevents : sender ≠ .single ∧ sender ≠ .parallel → τ.events = σ.events) : FloorInv sender cfg τ := by
  refine ⟨fun i lane hi => ?_, ?_, ?_, fun hs => ?_⟩
  · rw [hlanes] at hi
    have hold := h.lanes i lane hi
    rw [LaneOk, added] at hold ⊢
    rwa [hterminals, hphase]
  · rw [hterminals, hphase]
    exact h.terminals
  · rw [hlanes, hfloor]
    exact h.control
  · rw [hlanes, hevents hs]
    exact h.events hs

theorem init : FloorInv sender cfg (FloorState.init sender cfg) := by
  have hwindow : ∀ retain window, (∀ w ∈ window, w.ackFloor = 0) → ∀ w,
      (RepairHistory.new cfg.chunk retain cfg.aead (if cfg.streamReplayEnabled then window else none)
        ).streamReplay = some w → cfg.repairPayloads = true ∧ w.ackFloor = 0 := by
    intro retain window hzero w hw
    cases he : cfg.streamReplayEnabled with
    | false =>
        rw [he] at hw
        cases hw
    | true =>
        rw [he] at hw
        exact ⟨(Bool.and_eq_true_iff.mp he).1, hzero w hw⟩
  have hnew : ∀ chunk bytes, ∀ w ∈ some (ReplayWindow.new chunk bytes cfg.aead), w.ackFloor = 0 := by
    intro chunk bytes w hw
    cases hw
    rfl
  have hstart : ∀ (i : Nat) (lane : HistoryLane), (RepairState.init sender cfg).lanes[i]? = some lane →
      ∃ j h, lane = .start j h ∧ ∀ w : ReplayWindow, h.streamReplay = some w →
        cfg.repairPayloads = true ∧ w.ackFloor = 0 := by
    intro i lane hi
    have hmem := List.mem_of_getElem? hi
    cases sender with
    | single =>
        rw [List.mem_singleton.mp hmem]
        exact ⟨0, _, rfl, hwindow _ _ (hnew _ _)⟩
    | parallel =>
        rw [List.mem_singleton.mp hmem]
        exact ⟨0, _, rfl, hwindow _ _ (hnew _ _)⟩
    | striped n hn =>
        obtain ⟨j, -, rfl⟩ := List.mem_map.mp hmem
        exact ⟨j, _, rfl, hwindow _ _ (hnew _ _)⟩
  refine ⟨fun i lane hi => ?_, fun _ => rfl, fun _ lane w hi hw => Nat.zero_le _, fun _ e he => by cases he⟩
  obtain ⟨j, h, rfl, hzero⟩ := hstart i lane hi
  exact ⟨LaneBehind.start j hzero, fun _ => rfl⟩

theorem packet (h : FloorInv sender cfg σ) (hphase : σ.phase = .sending) {s : RepairState}
    (hs : σ.send.packet sender cfg = some s) :
    FloorInv sender cfg { σ with send := s, batch := σ.batch + 1 } := by
  have hadded := h.added_of_sending (.inr (.inr hphase))
  have hdirect : sender = .single ∨ sender = .parallel → ∀ lane lane' : HistoryLane,
      σ.send.lanes[0]? = some lane →
      RepairState.send sender cfg lane lane.nextSeq σ.send.offset (σ.send.remaining.take cfg.chunk) =
        some lane' →
      s.lanes = σ.send.lanes.set 0 { lane' with nextSeq := lane'.nextSeq + 1 } →
      FloorInv sender cfg { σ with send := s, batch := σ.batch + 1 } := by
    intro hsender lane lane' hi hsend hlanes
    have hlane := h.lanes 0 lane hi
    have hq := hlane.2 (or_assoc.mp (.inl hsender))
    have hbehind := hlane.1
    rw [hadded] at hbehind
    obtain ⟨hnext, hqueue, hadv⟩ := hbehind.sendNext hq hsend
    refine h.setLane hi hlanes rfl rfl rfl (fun e he => .inl he) ⟨hadv.window, hadv.sent⟩
      ⟨?_, fun _ => hqueue⟩
    rw [show ({ σ with send := s, batch := σ.batch + 1 } : FloorState).added 0
      { lane' with nextSeq := lane'.nextSeq + 1 } = lane'.sent.length from hadded 0 lane']
    exact hnext
  unfold RepairState.packet at hs
  split at hs
  · cases hs
  dsimp only at hs
  split at hs
  · split at hs
    · cases hs
    split at hs
    · cases hs
    · rename_i lane hi _ lane' hsend
      cases hs
      exact hdirect (.inl rfl) lane lane' hi hsend rfl
  · split at hs
    · cases hs
    split at hs
    · cases hs
    · rename_i lane hi _ lane' hsend
      cases hs
      exact hdirect (.inr rfl) lane lane' hi hsend rfl
  · split at hs
    · cases hs
    · rename_i lane hi
      cases hs
      refine h.setLane hi rfl rfl rfl rfl (fun e he => .inl he)
        ⟨fun w hw => ⟨w, hw, Nat.le_refl _⟩, Nat.le_refl _⟩
        ⟨(h.lanes _ lane hi).1.enqueue _ _, fun hs => ?_⟩
      rcases hs with hs | hs | hs
      · cases hs
      · cases hs
      · exact absurd hphase hs

theorem encode (h : FloorInv sender cfg σ) (hphase : σ.phase = .sending) {i : Nat} {s : RepairState}
    (hs : σ.send.encode sender cfg i = some s) : FloorInv sender cfg { σ with send := s } := by
  have hadded := h.added_of_sending (.inr (.inr hphase))
  unfold RepairState.encode at hs
  split at hs
  · cases hs
  rename_i lane hi
  split at hs
  · cases hs
  rename_i seq offset payload queue hq
  split at hs
  · cases hs
  rename_i lane' hsend
  cases hs
  have hlane := h.lanes i lane hi
  have hbehind := hlane.1
  rw [hadded] at hbehind
  obtain ⟨hnext, hadv⟩ := hbehind.dequeue hq hsend
  refine h.setLane hi rfl rfl rfl rfl (fun e he => .inl he) hadv ⟨?_, fun hs => ?_⟩
  · rw [show ({ σ with send := σ.send.setLane i lane' } : FloorState).added i lane' =
      lane'.sent.length from hadded i lane']
    exact hnext
  · rcases hs with hs | hs | hs
    · have hempty := hlane.2 (.inl hs)
      rw [hq] at hempty
      cases hempty
    · have hempty := hlane.2 (.inr (.inl hs))
      rw [hq] at hempty
      cases hempty
    · exact absurd hphase hs

theorem finish (h : FloorInv sender cfg σ) (hs : σ.finish sender = some τ) : FloorInv sender cfg τ := by
  unfold FloorState.finish at hs
  split at hs
  swap
  · cases hs
  rename_i hphase
  obtain ⟨s, hfinish, rfl⟩ := Option.map_eq_some_iff.mp hs
  unfold RepairState.finish at hfinish
  split at hfinish
  swap
  · cases hfinish
  rename_i hend
  cases hfinish
  have hget : ∀ (total i : Nat) (l : HistoryLane), (σ.send.lanes.map fun lane => { lane with
      history := lane.history.markComplete total lane.nextSeq })[i]? = some l →
      ∃ lane, σ.send.lanes[i]? = some lane ∧
        l = { lane with history := lane.history.markComplete total lane.nextSeq } := by
    intro total i l hl
    rw [List.getElem?_map] at hl
    obtain ⟨lane, hlane, rfl⟩ := Option.map_eq_some_iff.mp hl
    exact ⟨lane, hlane, rfl⟩
  refine ⟨fun i l hl => ?_, fun hs => h.terminals (.inr (.inr hphase)), fun hs l w hl hw => ?_,
    fun hs e he l w hl hw => ?_⟩
  · obtain ⟨lane, hi, rfl⟩ := hget _ i l hl
    have hlane := (h.lanes i lane hi).1
    refine ⟨⟨hlane.nextSeq, hlane.queued, hlane.repair, hlane.window⟩, fun _ => ?_⟩
    have hempty := List.all_eq_true.mp hend.2 lane (List.mem_of_getElem? hi)
    exact List.isEmpty_iff.mp hempty
  · obtain ⟨lane, hi, rfl⟩ := hget _ 0 l hl
    exact h.control hs lane w hi hw
  · obtain ⟨lane, hi, rfl⟩ := hget _ e.1 l hl
    exact h.events hs e he lane w hi hw

theorem done (h : FloorInv sender cfg σ) {i : Nat} (hs : σ.done sender i = some τ) : FloorInv sender cfg τ := by
  unfold FloorState.done at hs
  split at hs
  swap
  · cases hs
  rename_i n hn lane hi
  split at hs
  · cases hs
  rename_i hphase
  split at hs
  · cases hs
    exact h
  rename_i w hw
  split at hs
  · cases hs
    exact h
  rename_i w' wire hadd
  cases hs
  obtain ⟨hlane, hq⟩ := h.lanes i lane hi
  have hnext : lane.nextSeq = lane.sent.length := by
    rw [hlane.nextSeq, hq (.inr (.inr hphase))]
    rfl
  rw [hnext] at hadd
  have hone : σ.added i lane ≤ lane.sent.length + 1 := by
    rw [added]
    split
    · omega
    · omega
  -- the number of packets added to another lane stays
  have hother : ∀ j l, j ≠ i → ({ σ with terminals := i :: σ.terminals } : FloorState).added j l =
      σ.added j l := by
    intro j l hj
    simp [added, hj]
  refine ⟨fun j l hl => ?_, fun hs => ?_, fun hs => ?_, fun hs e he l v hl hv => ?_⟩
  · rcases getElem?_set_cases hi hl with ⟨rfl, rfl⟩ | ⟨hj, hl⟩
    · refine ⟨⟨hlane.nextSeq, hlane.queued, fun _ _ => hlane.repair w hw, fun v hv => ?_⟩, hq⟩
      cases hv
      have hcount : ({ σ with terminals := j :: σ.terminals } : FloorState).added j lane =
          lane.sent.length + 1 := by
        simp [added]
      exact hcount ▸ (hlane.window w hw).addDone hone hadd
    · have hold := h.lanes j l hl
      rw [LaneOk] at hold ⊢
      exact ⟨(hother j l hj).symm ▸ hold.1, hold.2⟩
  · rcases hs with hs | hs | hs
    · cases hs
    · cases hs
    · exact absurd hs hphase
  · rcases hs with hs | hs
    · cases hs
    · cases hs
  · rcases getElem?_set_cases hi hl with ⟨heq, rfl⟩ | ⟨-, hl⟩
    · cases hv
      rw [← heq] at hi
      rw [ReplayWindow.ackFloor_addPacket hadd]
      exact h.events hs e he lane w hi hw
    · exact h.events hs e he l v hl hv

theorem withinSent_le {i floor : Nat} (hp : σ.withinSent i floor = true) {lane : HistoryLane}
    {w : ReplayWindow} (hi : σ.send.lanes[i]? = some lane) (hw : lane.history.streamReplay = some w) :
    floor ≤ σ.added i lane := by
  rw [withinSent, hi] at hp
  simpa [hw] using hp

/-- A floor that was reached already changes nothing. -/
theorem ack_reached {s : RepairState} {i floor : Nat} (h : ∀ lane w, s.lanes[i]? = some lane →
    lane.history.streamReplay = some w → floor ≤ w.ackFloor) : (s.ack i floor).getD s = s := by
  rw [RepairState.ack]
  cases hi : s.lanes[i]? with
  | none => rfl
  | some lane =>
      have hsame : lane.history.ackFloor floor = lane.history := by
        cases hw : lane.history.streamReplay with
        | none =>
            rw [RepairHistory.ackFloor, hw, Option.map_none, ← hw]
        | some w =>
            have hkeep : w.advanceAck floor = w := if_pos (h lane w hi hw)
            rw [RepairHistory.ackFloor, hw, Option.map_some, hkeep, ← hw]
      simp only [hsame, Option.getD_some]
      obtain ⟨hlt, hget⟩ := List.getElem?_eq_some_iff.mp hi
      rw [RepairState.setLane, ← hget, List.set_getElem_self]

theorem stats (h : FloorInv sender cfg σ) {i floor : Nat} (hok : σ.WithinSent sender (.stats i floor))
    (hs : σ.stats sender cfg rateExplorationCeilingMbps i floor = some τ) : FloorInv sender cfg τ := by
  unfold FloorState.stats at hs
  split at hs
  swap
  · cases hs
  cases sender with
  | single =>
      cases hs
      exact h.same rfl rfl rfl rfl fun hs => absurd rfl hs.1
  | parallel =>
      cases hs
      exact h.same rfl rfl rfl rfl fun hs => absurd rfl hs.2
  | striped n hn =>
      obtain ⟨s, hack, rfl⟩ := Option.map_eq_some_iff.mp hs
      unfold RepairState.ack at hack
      split at hack
      · cases hack
      rename_i lane hi
      cases hack
      obtain ⟨hlane, hq⟩ := h.lanes i lane hi
      obtain ⟨hnew, hadv⟩ := hlane.ack floor fun w hw => withinSent_le hok hi hw
      refine h.setLane hi rfl rfl rfl rfl (fun e he => ?_) hadv ⟨hnew, hq⟩
      rcases List.mem_append.mp he with he | he
      · exact .inl he
      · rw [List.mem_singleton.mp he]
        refine .inr ⟨rfl, fun w hw => ?_⟩
        obtain ⟨w₀, -, rfl⟩ := Option.map_eq_some_iff.mp hw
        rw [ReplayWindow.ackFloor_advanceAck]
        exact Nat.le_max_right _ _

theorem foldl_max_le {floors : List Nat} {n bound : Nat} (hn : n ≤ bound) (h : ∀ f ∈ floors, f ≤ bound) :
    floors.foldl max n ≤ bound := by
  induction floors generalizing n with
  | nil => exact hn
  | cons f floors ih =>
      exact ih (Nat.max_le.mpr ⟨hn, h f List.mem_cons_self⟩) fun g hg => h g (List.mem_cons_of_mem _ hg)

theorem drain (h : FloorInv sender cfg σ) (hok : σ.WithinSent sender .drain)
    (hs : σ.drain sender cfg rateExplorationCeilingMbps = some τ) : FloorInv sender cfg τ := by
  have hdirect : sender = .single ∨ sender = .parallel → (∀ e ∈ σ.events, σ.withinSent 0 e.2 = true) →
      ∀ s, σ.send.ack 0 ((σ.events.map (·.2)).foldl max σ.ackFloor) = some s → FloorInv sender cfg
        { σ with
          events := [], ackFloor := (σ.events.map (·.2)).foldl max σ.ackFloor, send := s, batch := 0 } := by
    intro hsender hwithin s hack
    have hadded := h.added_of_sending (or_assoc.mp (.inl hsender))
    unfold RepairState.ack at hack
    split at hack
    · cases hack
    rename_i lane hi
    cases hack
    obtain ⟨hlane, hq⟩ := h.lanes 0 lane hi
    have hle : ∀ w, lane.history.streamReplay = some w →
        (σ.events.map (·.2)).foldl max σ.ackFloor ≤ σ.added 0 lane := by
      intro w hw
      refine foldl_max_le ?_ fun f hf => ?_
      · rw [hadded]
        exact h.control hsender lane w hi hw
      · obtain ⟨e, he, rfl⟩ := List.mem_map.mp hf
        exact withinSent_le (hwithin e he) hi hw
    obtain ⟨hnew, hadv⟩ := hlane.ack _ hle
    have hset := h.setLane (τ := { σ with events := [], send := σ.send.setLane 0 { lane with
      history := lane.history.ackFloor ((σ.events.map (·.2)).foldl max σ.ackFloor) } })
      hi rfl rfl rfl rfl (fun e he => by cases he) hadv ⟨hnew, hq⟩
    refine ⟨hset.lanes, hset.terminals, fun _ l w hl hw => ?_, hset.events⟩
    rcases getElem?_set_cases hi hl with ⟨-, rfl⟩ | ⟨hne, -⟩
    · obtain ⟨w₀, hw₀, -⟩ := hadv.window w hw
      have hbound := hle w₀ hw₀
      rwa [hadded] at hbound
    · exact absurd rfl hne
  unfold FloorState.drain at hs
  split at hs
  swap
  · cases hs
  cases sender with
  | single =>
      obtain ⟨s, hack, rfl⟩ := Option.map_eq_some_iff.mp hs
      exact hdirect (.inl rfl) hok s hack
  | parallel =>
      obtain ⟨s, hack, rfl⟩ := Option.map_eq_some_iff.mp hs
      exact hdirect (.inr rfl) hok s hack
  | striped n hn =>
      cases hs
      have hstriped : Sender.striped n hn ≠ .single ∧ Sender.striped n hn ≠ .parallel := by simp
      have hnoop : ∀ es : List (Nat × Nat), (∀ e ∈ es, e ∈ σ.events) →
          es.foldl (fun s e => (s.ack e.1 e.2).getD s) σ.send = σ.send := by
        intro es hes
        induction es with
        | nil => rfl
        | cons e es ih =>
            rw [List.foldl_cons, ack_reached (h.events hstriped e (hes e List.mem_cons_self))]
            exact ih fun e' he' => hes e' (List.mem_cons_of_mem _ he')
      rw [hnoop σ.events fun _ he => he]
      exact ⟨h.lanes, h.terminals, h.control, fun _ e he => by cases he⟩

theorem step (h : FloorInv sender cfg σ) {l : FloorLabel} (hok : σ.WithinSent sender l)
    (hs : σ.step sender cfg rateExplorationCeilingMbps l = some τ) : FloorInv sender cfg τ := by
  have hsending : ∀ (next : Option RepairState) {τ : FloorState}, σ.sending next = some τ →
      ∃ s, next = some s ∧ σ.phase = .sending ∧ τ = { σ with send := s } := by
    intro next τ hnext
    unfold FloorState.sending at hnext
    split at hnext
    · obtain ⟨s, rfl, rfl⟩ := Option.map_eq_some_iff.mp hnext
      exact ⟨s, rfl, ‹_›, rfl⟩
    · cases hnext
  cases l with
  | read bytes =>
      obtain ⟨s, hread, -, rfl⟩ := hsending _ hs
      unfold RepairState.read at hread
      split at hread
      · cases hread
        exact h.same rfl rfl rfl rfl fun _ => rfl
      · cases hread
  | packet =>
      obtain ⟨τ', hτ', rfl⟩ := Option.map_eq_some_iff.mp hs
      obtain ⟨s, hpacket, hphase, rfl⟩ := hsending _ hτ'
      exact h.packet hphase hpacket
  | encode i =>
      obtain ⟨s, hencode, hphase, rfl⟩ := hsending _ hs
      exact h.encode hphase hencode
  | finish => exact h.finish hs
  | done i => exact h.done hs
  | serve =>
      simp only [FloorState.step] at hs
      split at hs
      · rename_i hphase
        cases hs
        refine ⟨fun i lane hi => ?_, fun hs => h.terminals ?_, h.control, h.events⟩
        · obtain ⟨hlane, hq⟩ := h.lanes i lane hi
          refine ⟨hlane, fun _ => hq (.inr (.inr ?_))⟩
          rw [hphase]
          decide
        · rcases hs with hs | hs | hs
          · exact .inl hs
          · exact .inr (.inl hs)
          · cases hs
      · cases hs
  | stats i floor => exact h.stats hok hs
  | drain => exact h.drain hok hs

end FloorInv

end FloorState

/-- In every run of a sender whose reports are plausible when they reach a window, the floor of
every window is at most the number of packets added to it, and no data packet stays behind it. -/
theorem ack_floor_within_sent (sender : Sender) (cfg : SendConfig) (rateExplorationCeilingMbps : Int)
    {ls : List FloorLabel} {σ : FloorState}
    (hok : StepsMeet (FloorState.step sender cfg rateExplorationCeilingMbps)
      (fun τ l => τ.WithinSent sender l) (FloorState.init sender cfg) ls)
    (hrun : runFrom (FloorState.step sender cfg rateExplorationCeilingMbps) (FloorState.init sender cfg) ls =
      some σ) : σ.FloorsHold :=
  (runFrom_invariant_of_meet (I := FloorState.FloorInv sender cfg)
    (fun _ _ _ h hok hs => h.step hok hs) ls FloorState.FloorInv.init hok hrun).floorsHold

def reportConfig : SendConfig := ⟨4, 100, true, 0, 0, none, 240, 0⟩

/-- A report of seven with the first packet, which is then released, and a second packet. -/
def earlyReport : List FloorLabel := [.stats 0 7, .read [1], .packet, .drain, .read [2], .packet]

/-- The floor is taken as it is, and the second packet stays behind it: no floor that is reported later
releases it. -/
theorem ack_floor_ahead :
    ∃ σ, runFrom (FloorState.step .single reportConfig 0)
        (FloorState.init .single reportConfig) earlyReport = some σ ∧ ¬σ.FloorsHold ∧
      ∃ lane w, σ.send.lanes[0]? = some lane ∧ lane.history.streamReplay = some w ∧
        w.ackFloor = 7 ∧ σ.added 0 lane = 2 ∧ ∀ floor, ((w.advanceAck floor).packet 1).isSome = true := by
  have h : (runFrom (FloorState.step .single reportConfig 0)
      (FloorState.init .single reportConfig) earlyReport).any (fun σ =>
        σ.send.lanes[0]?.any fun lane => lane.history.streamReplay.any fun w =>
          decide (w.ackFloor = 7) && decide (σ.added 0 lane = 2) && (w.packet 1).isSome) = true := by
    decide +kernel
  obtain ⟨σ, hrun, hσ⟩ := (Option.any_eq_true ..).mp h
  obtain ⟨lane, hlane, hl⟩ := (Option.any_eq_true ..).mp hσ
  obtain ⟨w, hw, hl⟩ := (Option.any_eq_true ..).mp hl
  rw [Bool.and_eq_true, Bool.and_eq_true, decide_eq_true_eq, decide_eq_true_eq] at hl
  obtain ⟨⟨hfloor, hadded⟩, hpacket⟩ := hl
  refine ⟨σ, hrun, fun hfloors => ?_, lane, w, hlane, hw, hfloor, hadded, fun floor => ?_⟩
  · have hle := (hfloors 0 lane w hlane hw).1
    omega
  · rw [ReplayWindow.packet_advanceAck, if_neg (by omega)]
    exact hpacket

/-- Two lanes, a packet on the first and then a report of one from there. -/
def sentReport : List FloorLabel := [.read [1], .packet, .encode 0, .stats 0 1, .drain, .finish, .done 0]

theorem ack_floor_within_sent_striped :
    ∃ σ, runFrom (FloorState.step (.striped 2 (by decide)) reportConfig 0)
        (FloorState.init (.striped 2 (by decide)) reportConfig) sentReport = some σ ∧
      σ.FloorsHold := by
  have h : (runFrom (FloorState.step (.striped 2 (by decide)) reportConfig 0)
      (FloorState.init (.striped 2 (by decide)) reportConfig) sentReport).isSome = true := by
    decide +kernel
  obtain ⟨σ, hrun⟩ := Option.isSome_iff_exists.mp h
  exact ⟨σ, hrun, ack_floor_within_sent _ _ 0 (by decide +kernel) hrun⟩

end Probe
