import Derphole.Probe.FecGroup
import Derphole.Probe.RepairHistory

/-!
# A blast over one socket

`sendBlast` of `pkg/probe/session.go`.  It reads the source, cuts every read into
packets of at most a chunk, records and sends them with their parity, announces
the end and then answers repair requests.

What the receiver reports reaches the replay window along one of three ways.  With
a rate ceiling a goroutine reads the socket into a channel, and `sendBlast` drains
that channel into its send control and moves the window to the floor of the
control.  Without one it reads the socket itself between batches, and
`serviceBlastRepairRequests` is given no control.  Once it has gone over to
`serveBlastRepairs` it takes repair requests only.

A repair resends a packet and changes nothing here.  Rates, pacing, statistics and
the tail that is sent twice are left out.
-/

namespace Probe

open Lib

/-- The packets that come back: of a Stats report only its floor is kept. -/
inductive ControlEvent where
  | stats (ackFloor : Nat)
  | repairRequest (seqs : List Nat)
  | repairComplete
  deriving DecidableEq

/-- The floors that Stats reports among the packets carry. -/
def statsFloors (events : List ControlEvent) : List Nat :=
  events.filterMap fun e =>
    match e with
    | .stats floor => some floor
    | _ => none

inductive BlastPhase where
  | sending
  | lingering
  | serving
  | returned
  deriving DecidableEq

/-- The local variables of `sendBlast`.  `reads` lists what it read, `sent` what it sent
first-hand and `reports` the floors of the Stats reports it has processed. -/
structure BlastState where
  phase : BlastPhase
  seq : Nat
  offset : Nat
  remaining : List UInt8
  history : RepairHistory
  fec : Option FecGroup
  /-- The floor of the send control. -/
  ackFloor : Nat
  /-- The channel of the control reader. -/
  events : List ControlEvent
  reads : List (List UInt8)
  sent : List Packet
  reports : List Nat

inductive BlastLabel where
  | read (bytes : List UInt8)
  | packet
  | eof
  | arrive (event : ControlEvent)
  | drain
  | service (events : List ControlEvent)
  | serve
  | serveRead (events : List ControlEvent)

/-- `newBlastSendControl`: the control adapts the rate if there is a ceiling. -/
def SendConfig.adaptive (cfg : SendConfig) : Bool := decide (0 < cfg.rateCeilingMbps)

namespace BlastState

variable (cfg : SendConfig) (σ : BlastState)

def init : BlastState where
  phase := .sending
  seq := 0
  offset := 0
  remaining := []
  history := cfg.history
  fec := FecGroup.new 0 cfg.chunk cfg.fecGroupSize cfg.aead
  ackFloor := 0
  events := []
  reads := []
  sent := []
  reports := []

/-- The source returned some bytes. -/
def read (bytes : List UInt8) : Option BlastState :=
  if σ.phase = .sending ∧ σ.remaining = [] then
    some { σ with remaining := bytes, reads := σ.reads ++ [bytes] }
  else none

/-- The next packet of what was read, and the parity of its group if that is full.
A full replay window waits; any other error ends the send. -/
def packet : Option BlastState :=
  if σ.remaining = [] then none
  else
    let payload := σ.remaining.take cfg.chunk
    match σ.history.sendBlastDataPacket cfg σ.seq σ.offset payload with
    | .error _ => none
    | .ok (history, wire) =>
        let (fec, parity) := FecGroup.record σ.fec σ.seq σ.offset payload
        some
          { σ with
            seq := σ.seq + 1
            offset := σ.offset + payload.length
            remaining := σ.remaining.drop cfg.chunk
            history := history
            fec := fec
            sent := σ.sent ++ [wire] ++ parity.toList }

def donePacket : Packet := ⟨.done, 0, σ.seq, σ.offset, 0, 0, []⟩

/-- The source has ended. -/
def eof : Option BlastState :=
  if σ.phase = .sending ∧ σ.remaining = [] then
    let (fec, parity) := FecGroup.finish σ.fec
    some
      { σ with
        phase := .lingering
        fec := fec
        history := σ.history.markComplete σ.offset σ.seq
        sent := σ.sent ++ parity.toList ++ [σ.donePacket] }
  else none

/-- The receiver acknowledges only what was sent. -/
def honest (events : List ControlEvent) : Bool :=
  (statsFloors events).all fun floor => decide (floor ≤ σ.seq)

/-- The control reader puts a packet into its channel. -/
def arrive (event : ControlEvent) : Option BlastState :=
  if cfg.adaptive ∧ (σ.phase = .sending ∨ σ.phase = .lingering) ∧ σ.honest [event] then
    some { σ with events := σ.events ++ [event] }
  else none

/-- `drainBlastSendControlEvents`, and the window follows the control.  A completed
transfer returns instead, if the source has ended. -/
def drain : Option BlastState :=
  if cfg.adaptive ∧ (σ.phase = .sending ∨ σ.phase = .lingering) then
    let ackFloor := (statsFloors σ.events).foldl max σ.ackFloor
    let τ :=
      { σ with
        events := []
        ackFloor := ackFloor
        reports := statsFloors σ.events ++ σ.reports }
    if σ.phase = .lingering ∧ .repairComplete ∈ σ.events then some { τ with phase := .returned }
    else some { τ with history := τ.history.ackFloor ackFloor }
  else none

/-- `serviceBlastRepairRequests` without a control: a Stats report is read and
dropped. -/
def service (events : List ControlEvent) : Option BlastState :=
  if cfg.adaptive = false ∧ σ.phase = .sending ∧ σ.honest events then
    some { σ with reports := statsFloors events ++ σ.reports }
  else none

/-- Over to `serveBlastRepairs`.  The control reader is stopped. -/
def serve : Option BlastState :=
  if σ.phase = .lingering then some { σ with phase := .serving, events := [] } else none

/-- `serveBlastRepairs` reads some packets and drops the Stats reports. -/
def serveRead (events : List ControlEvent) : Option BlastState :=
  if σ.phase = .serving ∧ σ.honest events then
    some
      { σ with
        phase := if .repairComplete ∈ events then .returned else .serving
        reports := statsFloors events ++ σ.reports }
  else none

def step : BlastLabel → Option BlastState
  | .read bytes => σ.read bytes
  | .packet => σ.packet cfg
  | .eof => σ.eof
  | .arrive event => σ.arrive cfg event
  | .drain => σ.drain cfg
  | .service events => σ.service cfg events
  | .serve => σ.serve
  | .serveRead events => σ.serveRead events

end BlastState

/-! ## The window after a report -/

/-- The floors of the reports that a step reads. -/
def BlastLabel.floors : BlastLabel → List Nat
  | .arrive event => statsFloors [event]
  | .service events => statsFloors events
  | .serveRead events => statsFloors events
  | _ => []

/-- While `sendBlast` runs, its window holds nothing below the floor of a processed
report, and if all it sent was reported then the window has room for the next
packet. -/
def WindowReleased (cfg : SendConfig) (σ : BlastState) : Prop :=
  σ.phase = .returned ∨ ∀ w, σ.history.streamReplay = some w →
    (∀ floor ∈ σ.reports, ∀ s < floor, w.packet s = none) ∧
      (σ.seq ∈ σ.reports → ∀ payload : List UInt8, payload.length ≤ cfg.chunk →
        w.addDataPacket 0 σ.seq σ.offset payload ≠ .error .windowFull)

/-- If the step reads a report, the control adapts the rate and `sendBlast` has not
gone over to `serveBlastRepairs`. -/
def ReadsUnderControl (cfg : SendConfig) (σ : BlastState) (l : BlastLabel) : Prop :=
  l.floors ≠ [] → 0 < cfg.rateCeilingMbps ∧ σ.phase ≠ .serving

instance (cfg : SendConfig) (σ : BlastState) : DecidablePred (ReadsUnderControl cfg σ) := fun l => by
  unfold ReadsUnderControl
  infer_instance

/-- The window of a sender that has sent the numbers below `seq`. -/
structure WindowInv (cfg : SendConfig) (seq : Nat) (w : ReplayWindow) : Prop where
  ring : w.Ring
  maxBytes : w.maxBytes = cfg.replayBytes
  aead : w.aead = cfg.aead
  floor_le : w.ackFloor ≤ seq
  below : ∀ s < w.ackFloor, w.packet s = none
  above : ∀ s, seq ≤ s → w.packet s = none

namespace ReplayWindow

theorem maxBytes_delete (w : ReplayWindow) (seq : Nat) :
    (w.delete seq).maxBytes = w.maxBytes ∧ (w.delete seq).aead = w.aead := by
  rw [delete]
  split
  · exact ⟨rfl, rfl⟩
  · exact ⟨rfl, rfl⟩

theorem maxBytes_advanceAck (w : ReplayWindow) (floor : Nat) :
    (w.advanceAck floor).maxBytes = w.maxBytes ∧ (w.advanceAck floor).aead = w.aead := by
  have hall : ∀ (seqs : List Nat) (w : ReplayWindow),
      (seqs.foldl delete w).maxBytes = w.maxBytes ∧ (seqs.foldl delete w).aead = w.aead := by
    intro seqs
    induction seqs with
    | nil => exact fun _ => ⟨rfl, rfl⟩
    | cons seq seqs ih =>
        intro w
        rw [List.foldl_cons, (ih _).1, (ih _).2]
        exact w.maxBytes_delete seq
  rw [advanceAck]
  split
  · exact ⟨rfl, rfl⟩
  · exact hall _ w

end ReplayWindow

namespace WindowInv

variable {cfg : SendConfig} {seq floor : Nat} {w w' : ReplayWindow}

theorem new (cfg : SendConfig) :
    WindowInv cfg 0 (ReplayWindow.new cfg.chunk cfg.replayBytes cfg.aead) where
  ring := .new ..
  maxBytes := by
    have hpos : cfg.replayBytes ≠ 0 := by
      rw [SendConfig.replayBytes]
      split
      · decide
      · assumption
    exact if_neg hpos
  aead := rfl
  floor_le := Nat.le_refl _
  below := fun _ h => by cases h
  above := fun s _ => ReplayWindow.packet_new ..

theorem addDataPacket (h : WindowInv cfg seq w) {offset : Nat} {payload : List UInt8} {wire : Packet}
    (hadd : w.addDataPacket 0 seq offset payload = .ok (w', wire)) : WindowInv cfg (seq + 1) w' := by
  have hpacket := ReplayWindow.packet_addPacket hadd
  have hfloor := ReplayWindow.ackFloor_addPacket hadd
  have hle := h.floor_le
  obtain ⟨-, -, hw'⟩ := ReplayWindow.addPacket_ok hadd
  refine ⟨h.ring.addPacket hadd, ?_, ?_, by omega, fun s hs => ?_, fun s hs => ?_⟩
  · rw [hw']
    exact h.maxBytes
  · rw [hw']
    exact h.aead
  · rw [hpacket, if_neg (by omega)]
    exact h.below s (by omega)
  · rw [hpacket, if_neg (by omega)]
    exact h.above s (by omega)

theorem advanceAck (h : WindowInv cfg seq w) (hfloor : floor ≤ seq) :
    WindowInv cfg seq (w.advanceAck floor) := by
  have hle := h.floor_le
  refine ⟨h.ring.advanceAck floor, ?_, ?_, ?_, fun s hs => ?_, fun s hs => ?_⟩
  · rw [(w.maxBytes_advanceAck floor).1]
    exact h.maxBytes
  · rw [(w.maxBytes_advanceAck floor).2]
    exact h.aead
  · rw [ReplayWindow.ackFloor_advanceAck]
    omega
  · rw [ReplayWindow.ackFloor_advanceAck] at hs
    rw [ReplayWindow.packet_advanceAck]
    split
    · rfl
    · exact h.below s (by omega)
  · rw [ReplayWindow.packet_advanceAck, if_neg (by omega)]
    exact h.above s hs

/-- Once everything sent is acknowledged, the next packet finds room. -/
theorem room (h : WindowInv cfg seq w) (hall : w.ackFloor = seq)
    (hfit : headerLen + cfg.chunk + cfg.aead.getD 0 ≤ cfg.replayBytes) {offset : Nat}
    {payload : List UInt8} (hlen : payload.length ≤ cfg.chunk) :
    w.addDataPacket 0 seq offset payload ≠ .error .windowFull := by
  refine h.ring.not_full (fun s => ?_) ?_
  · rcases Nat.lt_or_ge s seq with hs | hs
    · exact h.below s (by omega)
    · exact h.above s hs
  · rw [ReplayWindow.packetBytes, h.maxBytes, h.aead]
    omega

end WindowInv

namespace RepairHistory

variable {cfg : SendConfig} {h h' : RepairHistory} {seq offset : Nat} {payload : List UInt8}
  {wire : Packet}

theorem streamReplay_record (hr : h.record seq payload = .ok h') :
    h'.streamReplay = h.streamReplay := by
  rw [record] at hr
  split at hr
  · cases hr
    rfl
  dsimp only at hr
  split at hr
  · cases hr
  · cases hr
    rfl

theorem streamReplay_recordSealed {stripeID : Nat}
    (hok : h.recordSealed cfg stripeID seq offset payload = .ok (h', wire)) :
    h'.streamReplay = h.streamReplay := by
  simp only [recordSealed, bind, Except.bind] at hok
  split at hok
  · cases hok
  · rename_i hr
    split at hok
    · cases hok
    · cases hok
      exact streamReplay_record hr

theorem streamReplay_packetBufferForStripe {stripeID : Nat}
    (hok : h.packetBufferForStripe stripeID seq offset payload = .ok (h', wire)) :
    h'.streamReplay = h.streamReplay := by
  rw [packetBufferForStripe] at hok
  split at hok
  · cases hok
  split at hok
  · cases hok
  split at hok
  · cases hok
  split at hok
  · cases hok
  · cases hok
    rfl

theorem streamReplay_recordPlain {stripeID : Nat}
    (hok : h.recordPlain stripeID seq offset payload = .ok (h', wire)) :
    h'.streamReplay = h.streamReplay := by
  simp only [recordPlain, bind, Except.bind] at hok
  split at hok
  · cases hok
  · rename_i hr
    cases hok
    exact streamReplay_record hr

theorem addReplayPacket_ok {stripeID : Nat} {w : ReplayWindow}
    (hok : h.addReplayPacket w stripeID seq offset payload = .ok (h', wire)) :
    ∃ w', h'.streamReplay = some w' ∧ w.addDataPacket stripeID seq offset payload = .ok (w', wire) := by
  rw [addReplayPacket] at hok
  split at hok
  · cases hok
  · rename_i w' wire' hadd
    cases hok
    exact ⟨w', rfl, hadd⟩

/-- Sending makes no window. -/
theorem sendBlastDataPacket_none (hw : h.streamReplay = none)
    (hok : h.sendBlastDataPacket cfg seq offset payload = .ok (h', wire)) :
    h'.streamReplay = none := by
  rw [← hw]
  rw [sendBlastDataPacket] at hok
  simp only [hw] at hok
  split at hok
  · exact streamReplay_recordSealed hok
  split at hok
  · exact streamReplay_packetBufferForStripe hok
  · exact streamReplay_recordPlain hok

/-- A packet sent through a replay window is added to it. -/
theorem sendBlastDataPacket_some {w : ReplayWindow} (hrepair : cfg.repairPayloads = true)
    (hw : h.streamReplay = some w)
    (hok : h.sendBlastDataPacket cfg seq offset payload = .ok (h', wire)) :
    ∃ w', h'.streamReplay = some w' ∧ w.addDataPacket 0 seq offset payload = .ok (w', wire) := by
  rw [sendBlastDataPacket] at hok
  simp only [hw, hrepair, if_true, ite_self] at hok
  exact addReplayPacket_ok hok

theorem blastParallelDataPacket_none {stripeID : Nat} (hw : h.streamReplay = none)
    (hok : h.blastParallelDataPacket cfg stripeID seq offset payload = .ok (h', wire)) :
    h'.streamReplay = none := by
  rw [← hw]
  rw [blastParallelDataPacket] at hok
  simp only [hw] at hok
  split at hok
  · cases hok
  split at hok
  · exact streamReplay_recordSealed hok
  split at hok
  · exact streamReplay_packetBufferForStripe hok
  · exact streamReplay_recordPlain hok

theorem blastParallelDataPacket_some {stripeID : Nat} {w : ReplayWindow} (hw : h.streamReplay = some w)
    (hok : h.blastParallelDataPacket cfg stripeID seq offset payload = .ok (h', wire)) :
    ∃ w', h'.streamReplay = some w' ∧ w.addDataPacket stripeID seq offset payload = .ok (w', wire) := by
  rw [blastParallelDataPacket] at hok
  simp only [hw] at hok
  split at hok
  · cases hok
  · exact addReplayPacket_ok hok

end RepairHistory

/-! ## Runs -/

/-- The invariant of `sendBlast`: reports reach the window, and none is ahead of what
was sent. -/
structure BlastInv (cfg : SendConfig) (σ : BlastState) : Prop where
  repair : ∀ w, σ.history.streamReplay = some w → cfg.repairPayloads = true
  window : ∀ w, σ.history.streamReplay = some w → WindowInv cfg σ.seq w
  control : σ.ackFloor ≤ σ.seq
  queued : ∀ floor ∈ statsFloors σ.events, floor ≤ σ.seq
  reported : σ.phase ≠ .returned → ∀ w, σ.history.streamReplay = some w →
    ∀ floor ∈ σ.reports, floor ≤ w.ackFloor

namespace BlastInv

variable {cfg : SendConfig} {σ τ : BlastState}

theorem released (h : BlastInv cfg σ)
    (hfit : headerLen + cfg.chunk + cfg.aead.getD 0 ≤ cfg.replayBytes) : WindowReleased cfg σ := by
  rw [WindowReleased, or_iff_not_imp_left]
  intro hphase w hw
  have hwin := h.window w hw
  refine ⟨fun floor hf s hs => ?_, fun hall payload hlen => ?_⟩
  · exact hwin.below s (Nat.lt_of_lt_of_le hs (h.reported hphase w hw floor hf))
  · have hle := h.reported hphase w hw _ hall
    exact hwin.room (Nat.le_antisymm hwin.floor_le hle) hfit hlen

theorem init : BlastInv cfg (BlastState.init cfg) := by
  have hsome : ∀ w, cfg.history.streamReplay = some w → cfg.streamReplayEnabled = true ∧
      w = ReplayWindow.new cfg.chunk cfg.replayBytes cfg.aead := by
    intro w hw
    cases he : cfg.streamReplayEnabled with
    | false => simp [SendConfig.history, RepairHistory.new, he] at hw
    | true =>
        simp only [SendConfig.history, RepairHistory.new, he, if_true, Option.some.injEq] at hw
        exact ⟨rfl, hw.symm⟩
  refine ⟨fun w hw => ?_, fun w hw => ?_, Nat.le_refl _, fun _ hf => (by cases hf), fun _ _ _ _ hf =>
    (by cases hf)⟩
  · exact (Bool.and_eq_true_iff.mp (hsome w hw).1).1
  · rw [(hsome w hw).2]
    exact WindowInv.new cfg

theorem packet (h : BlastInv cfg σ) (hs : σ.packet cfg = some τ) : BlastInv cfg τ := by
  unfold BlastState.packet at hs
  split at hs
  · cases hs
  dsimp only at hs
  split at hs
  · cases hs
  rename_i h' wire hok
  cases hs
  -- the window after the packet is the one before it with the packet added
  have hwindow : ∀ w', h'.streamReplay = some w' → ∃ w, σ.history.streamReplay = some w ∧
      WindowInv cfg (σ.seq + 1) w' ∧ w'.ackFloor = w.ackFloor := by
    intro w' hw'
    cases hw : σ.history.streamReplay with
    | none =>
        rw [RepairHistory.sendBlastDataPacket_none hw hok] at hw'
        cases hw'
    | some w =>
        obtain ⟨v, hv, hadd⟩ := RepairHistory.sendBlastDataPacket_some (h.repair w hw) hw hok
        rw [hv] at hw'
        cases hw'
        exact ⟨w, rfl, (h.window w hw).addDataPacket hadd, ReplayWindow.ackFloor_addPacket hadd⟩
  refine ⟨fun w' hw' => ?_, fun w' hw' => ?_, Nat.le_succ_of_le h.control,
    fun floor hf => Nat.le_succ_of_le (h.queued floor hf), fun hphase w' hw' floor hf => ?_⟩
  · obtain ⟨w, hw, -, -⟩ := hwindow w' hw'
    exact h.repair w hw
  · obtain ⟨w, -, hinv, -⟩ := hwindow w' hw'
    exact hinv
  · obtain ⟨w, hw, -, hfloor⟩ := hwindow w' hw'
    rw [hfloor]
    exact h.reported hphase w hw floor hf

/-- A step that keeps the history and the numbers, apart from reports. -/
theorem of_history (h : BlastInv cfg σ) (hhistory : τ.history.streamReplay = σ.history.streamReplay)
    (hseq : τ.seq = σ.seq) (hfloor : τ.ackFloor = σ.ackFloor)
    (hevents : ∀ floor ∈ statsFloors τ.events, floor ≤ σ.seq)
    (hreported : τ.phase ≠ .returned → σ.phase ≠ .returned ∧ τ.reports = σ.reports) :
    BlastInv cfg τ where
  repair := by
    rw [hhistory]
    exact h.repair
  window := by
    rw [hhistory, hseq]
    exact h.window
  control := by
    rw [hfloor, hseq]
    exact h.control
  queued := by
    rw [hseq]
    exact hevents
  reported := by
    intro hphase
    obtain ⟨hphase, hreports⟩ := hreported hphase
    rw [hhistory, hreports]
    exact h.reported hphase

theorem statsFloors_append (xs ys : List ControlEvent) :
    statsFloors (xs ++ ys) = statsFloors xs ++ statsFloors ys := List.filterMap_append ..

theorem arrive (h : BlastInv cfg σ) {event : ControlEvent} (hs : σ.arrive cfg event = some τ) :
    BlastInv cfg τ := by
  rw [BlastState.arrive] at hs
  split at hs
  · rename_i hg
    cases hs
    refine h.of_history rfl rfl rfl (fun floor hf => ?_) fun hphase => ⟨hphase, rfl⟩
    rw [statsFloors_append] at hf
    rcases List.mem_append.mp hf with hf | hf
    · exact h.queued floor hf
    · exact of_decide_eq_true (List.all_eq_true.mp hg.2.2 floor hf)
  · cases hs

/-- The floor of the control is the highest one seen. -/
theorem foldl_max (floors : List Nat) (n : Nat) :
    n ≤ floors.foldl max n ∧ (∀ f ∈ floors, f ≤ floors.foldl max n) ∧
      ∀ bound, n ≤ bound → (∀ f ∈ floors, f ≤ bound) → floors.foldl max n ≤ bound := by
  induction floors generalizing n with
  | nil => exact ⟨Nat.le_refl _, fun _ hf => (by cases hf), fun _ hn _ => hn⟩
  | cons f floors ih =>
      obtain ⟨hle, hmem, hbound⟩ := ih (max n f)
      refine ⟨Nat.le_trans (Nat.le_max_left n f) hle, fun g hg => ?_, fun bound hn hf => ?_⟩
      · rcases List.mem_cons.mp hg with rfl | hg
        · exact Nat.le_trans (Nat.le_max_right n g) hle
        · exact hmem g hg
      · exact hbound bound (Nat.max_le.mpr ⟨hn, hf f List.mem_cons_self⟩) fun g hg =>
          hf g (List.mem_cons_of_mem f hg)

theorem drain (h : BlastInv cfg σ) (hs : σ.drain cfg = some τ) : BlastInv cfg τ := by
  obtain ⟨-, hmem, hbound⟩ := foldl_max (statsFloors σ.events) σ.ackFloor
  have hseq := hbound σ.seq h.control h.queued
  rw [BlastState.drain] at hs
  split at hs
  · rename_i hg
    have hphase : σ.phase ≠ .returned := by
      intro hp
      rcases hg.2 with hp' | hp'
      · rw [hp] at hp'
        cases hp'
      · rw [hp] at hp'
        cases hp'
    dsimp only at hs
    split at hs
    · cases hs
      exact ⟨h.repair, h.window, hseq, fun _ hf => (by cases hf), fun hne => absurd rfl hne⟩
    · cases hs
      have hwindow : ∀ w', (σ.history.ackFloor ((statsFloors σ.events).foldl max σ.ackFloor)
          ).streamReplay = some w' → ∃ w, σ.history.streamReplay = some w ∧
            w' = w.advanceAck ((statsFloors σ.events).foldl max σ.ackFloor) := by
        intro w' hw'
        obtain ⟨w, hw, rfl⟩ := Option.map_eq_some_iff.mp hw'
        exact ⟨w, hw, rfl⟩
      refine ⟨fun w' hw' => ?_, fun w' hw' => ?_, hseq, fun _ hf => (by cases hf),
        fun _ w' hw' floor hf => ?_⟩
      · obtain ⟨w, hw, -⟩ := hwindow w' hw'
        exact h.repair w hw
      · obtain ⟨w, hw, rfl⟩ := hwindow w' hw'
        exact (h.window w hw).advanceAck hseq
      · obtain ⟨w, hw, rfl⟩ := hwindow w' hw'
        rw [ReplayWindow.ackFloor_advanceAck]
        rcases List.mem_append.mp hf with hf | hf
        · exact Nat.le_trans (hmem floor hf) (Nat.le_max_right _ _)
        · exact Nat.le_trans (h.reported hphase w hw floor hf) (Nat.le_max_left _ _)
  · cases hs

theorem step (h : BlastInv cfg σ) {l : BlastLabel} (hok : ReadsUnderControl cfg σ l)
    (hs : σ.step cfg l = some τ) : BlastInv cfg τ := by
  cases l with
  | read bytes =>
      rw [BlastState.step, BlastState.read] at hs
      split at hs
      · cases hs
        exact h.of_history rfl rfl rfl h.queued fun hphase => ⟨hphase, rfl⟩
      · cases hs
  | packet => exact h.packet hs
  | eof =>
      rw [BlastState.step, BlastState.eof] at hs
      split at hs
      · rename_i hg
        cases hs
        refine h.of_history rfl rfl rfl h.queued fun _ => ⟨fun hp => ?_, rfl⟩
        rw [hg.1] at hp
        cases hp
      · cases hs
  | arrive event => exact h.arrive hs
  | drain => exact h.drain hs
  | service events =>
      rw [BlastState.step, BlastState.service] at hs
      split at hs
      · rename_i hg
        cases hs
        have hnone : statsFloors events = [] := by
          by_contra hne
          have := (hok hne).1
          simp [SendConfig.adaptive, this] at hg
        refine h.of_history rfl rfl rfl h.queued fun hphase => ⟨hphase, ?_⟩
        rw [hnone, List.nil_append]
      · cases hs
  | serve =>
      rw [BlastState.step, BlastState.serve] at hs
      split at hs
      · rename_i hg
        cases hs
        refine h.of_history rfl rfl rfl (fun _ hf => by cases hf) fun _ => ⟨fun hp => ?_, rfl⟩
        rw [hg] at hp
        cases hp
      · cases hs
  | serveRead events =>
      rw [BlastState.step, BlastState.serveRead] at hs
      split at hs
      · rename_i hg
        cases hs
        have hnone : statsFloors events = [] := by
          by_contra hne
          exact (hok hne).2 hg.1
        refine h.of_history rfl rfl rfl h.queued fun _ => ⟨fun hp => ?_, ?_⟩
        · rw [hg.1] at hp
          cases hp
        · rw [hnone, List.nil_append]
      · cases hs

end BlastInv

/-- As long as every report is read under an adaptive control, before `sendBlast`
goes over to `serveBlastRepairs`, a processed report releases what it acknowledges,
and a sender whose packets are all acknowledged is not held up by its window. -/
theorem replay_window_released (cfg : SendConfig)
    (hfit : headerLen + cfg.chunk + cfg.aead.getD 0 ≤ cfg.replayBytes) (ls : List BlastLabel)
    (σ : BlastState)
    (hok : StepsMeet (BlastState.step cfg) (ReadsUnderControl cfg) (BlastState.init cfg) ls)
    (hrun : runFrom (BlastState.step cfg) (BlastState.init cfg) ls = some σ) :
    WindowReleased cfg σ :=
  (runFrom_invariant_of_meet (I := BlastInv cfg) (fun _ _ _ h hok hs => h.step hok hs) ls
    BlastInv.init hok hrun).released hfit

/-- No rate ceiling, and a replay window for one full packet. -/
def exampleFixedRateConfig : SendConfig := ⟨4, 0, true, 0, 0, none, 60, 0⟩

/-- The only packet in the window is acknowledged, and the next one still finds it
full. -/
theorem replay_window_stuck_fixed_rate :
    ∃ σ, runFrom (BlastState.step exampleFixedRateConfig) (BlastState.init exampleFixedRateConfig)
        [.read [1, 2, 3, 4, 5], .packet, .service [.stats 1]] = some σ ∧
      ¬WindowReleased exampleFixedRateConfig σ := by
  have h : (runFrom (BlastState.step exampleFixedRateConfig) (BlastState.init exampleFixedRateConfig)
      [.read [1, 2, 3, 4, 5], .packet, .service [.stats 1]]).any (fun σ =>
        decide (σ.phase ≠ .returned) && σ.reports.contains 1 &&
          σ.history.streamReplay.any fun w => (w.packet 0).isSome) = true := by decide +kernel
  obtain ⟨σ, hrun, hσ⟩ := (Option.any_eq_true ..).mp h
  simp only [Bool.and_eq_true, decide_eq_true_eq, List.contains_iff_mem, Option.any_eq_true] at hσ
  obtain ⟨⟨hphase, hreport⟩, w, hw, hpacket⟩ := hσ
  refine ⟨σ, hrun, fun hr => ?_⟩
  have hnone := ((hr.resolve_left hphase) w hw).1 1 hreport 0 Nat.one_pos
  rw [hnone] at hpacket
  cases hpacket

/-- The same sender with a rate ceiling. -/
def exampleAdaptiveConfig : SendConfig := ⟨4, 100, true, 0, 0, none, 60, 0⟩

def adaptiveRun : List BlastLabel :=
  [.read [1, 2, 3, 4, 5], .packet, .arrive (.stats 1), .drain, .packet, .eof, .serve]

theorem replay_window_released_adaptive :
    headerLen + exampleAdaptiveConfig.chunk + exampleAdaptiveConfig.aead.getD 0 ≤
        exampleAdaptiveConfig.replayBytes ∧
      StepsMeet (BlastState.step exampleAdaptiveConfig) (ReadsUnderControl exampleAdaptiveConfig)
        (BlastState.init exampleAdaptiveConfig) adaptiveRun ∧
      ∃ σ, runFrom (BlastState.step exampleAdaptiveConfig) (BlastState.init exampleAdaptiveConfig)
          adaptiveRun = some σ ∧ WindowReleased exampleAdaptiveConfig σ := by
  have hfit : headerLen + exampleAdaptiveConfig.chunk + exampleAdaptiveConfig.aead.getD 0 ≤
      exampleAdaptiveConfig.replayBytes := by decide
  have hok : StepsMeet (BlastState.step exampleAdaptiveConfig)
      (ReadsUnderControl exampleAdaptiveConfig) (BlastState.init exampleAdaptiveConfig)
      adaptiveRun := by decide +kernel
  have hsome : (runFrom (BlastState.step exampleAdaptiveConfig)
      (BlastState.init exampleAdaptiveConfig) adaptiveRun).isSome = true := by decide +kernel
  obtain ⟨σ, hrun⟩ := Option.isSome_iff_exists.mp hsome
  exact ⟨hfit, hok, σ, hrun,
    replay_window_released exampleAdaptiveConfig hfit adaptiveRun σ hok hrun⟩

end Probe
