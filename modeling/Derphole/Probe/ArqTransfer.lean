import Derphole.Lib.Pieces
import Derphole.Lib.Run
import Derphole.Probe.ArqLane

/-!
# The reliable transfer over one lane

`Send` and `ReceiveToWriter` of `pkg/probe/session.go`, without blast and with one stripe.  The
labels say what the two ends meet next: what the reader gives, which packets and which
acknowledgements the network delivers, what has expired.

The receiver writes packets in the order of their numbers and stops at the Done packet, which the
sender numbers last.  So the destination is the payloads of the packets before `expectedSeq`, and
these are the beginning of the source.
-/

namespace Probe

open Lib

inductive SenderPhase where
  /-- In the loop of `fillSendWindow`. -/
  | filling
  /-- The new packets are about to be written. -/
  | filled
  | waiting
  /-- In `waitForAckProgress`. -/
  | stalled
  | succeeded
  | failed
  deriving DecidableEq, Repr

inductive ReceiverPhase where
  | receiving
  /-- In `lingerTerminalAcks`. -/
  | lingering
  | succeeded
  | failed
  deriving DecidableEq, Repr

structure Transfer where
  source : Source
  lane : Lane
  sendPhase : SenderPhase
  dst : Writer
  receivePhase : ReceiverPhase

namespace Transfer

def init (S : List UInt8) (chunkSize windowSize : Int) (fails : Option (Nat × Nat)) : Transfer where
  source := .init S
  lane := .init chunkSize windowSize 0
  sendPhase := .filling
  dst := ⟨[], fails⟩
  receivePhase := .receiving

/-! ## Send -/

section

variable (σ : Transfer)

/-- `len(state.inFlight) == 0`. -/
def idle : Bool := σ.lane.state.inFlight.entries.isEmpty

/-- The top of the loop of `Send`. -/
def loop : Transfer :=
  { σ with sendPhase := if σ.idle && σ.source.failed then .failed else .filling }

/-- An iteration of the loop of `fillSendWindow`. -/
def next (plan : ReadPlan) : Option Transfer :=
  if σ.sendPhase = .filling then
    if σ.lane.state.sendWindowHasCapacity && !σ.lane.state.doneQueued then
      match σ.lane.state.nextOutboundPacket σ.source plan with
      | .error _ => some { σ with sendPhase := .failed }
      | .ok (none, _, _) => some { σ with sendPhase := .filled }
      | .ok (some p, state, source) =>
          some { σ with source := source, lane := σ.lane.queue state p }
    else some { σ with sendPhase := .filled }
  else none

/-- What `Send` does once its window is filled. -/
def settle (grace : Bool) : Transfer :=
  if σ.idle && !σ.lane.state.doneQueued then
    if σ.lane.state.sendWindowHasCapacity then σ.loop else { σ with sendPhase := .stalled }
  else if σ.lane.state.doneQueued && (σ.idle || σ.lane.state.donePacketSettled grace) then
    { σ with sendPhase := .succeeded }
  else { σ with sendPhase := .waiting }

/-- The end of `fillSendWindow`: the write may fail. -/
def write (ok grace : Bool) : Option Transfer :=
  if σ.sendPhase = .filled then
    let τ := { σ with lane := σ.lane.writeBatch }
    if ok then some (τ.settle grace) else some { τ with sendPhase := .failed }
  else none

/-- An iteration of `applyAckBatch`. -/
def applyAckPacket (l : Lane) (ack : Ack) : Lane :=
  if ackIsPlausible id l.state.nextSeq ack then
    { l with
      state := { l.state with
        inFlight := (applyAck id l.state.inFlight ack).1
        ackFloor := if l.state.ackFloor < ack.floor then ack.floor else l.state.ackFloor } }
  else l

/-- `applyAckBatch` of the acknowledgements that the network delivers. -/
def applyAckBatch (batch : List Nat) : Lane :=
  batch.foldl (fun l k => (l.acks[k]?).elim l (applyAckPacket l)) σ.lane

def acks (batch : List Nat) : Option Transfer :=
  if σ.sendPhase = .waiting ∨ σ.sendPhase = .stalled then
    some { σ with lane := σ.applyAckBatch batch }.loop
  else none

/-- The read timed out. -/
def timeout (expired : List Nat) : Option Transfer :=
  if σ.sendPhase = .waiting then
    some { σ with lane := σ.lane.retransmitExpired expired }.loop
  else if σ.sendPhase = .stalled then some σ.loop
  else none

/-- The context is done or the network failed. -/
def cancelSend : Option Transfer :=
  if σ.sendPhase = .succeeded then none else some { σ with sendPhase := .failed }

end

/-! ## ReceiveToWriter -/

/-- A computation of the receiver. -/
abbrev Recv (α : Type) := Prog Transfer Unit α

def changeLane (f : Lane → Lane) : Recv Unit := update fun σ => { σ with lane := f σ.lane }

def writePayload (payload : List UInt8) : Recv Unit := do
  let σ ← read
  update fun τ => { τ with dst := (σ.dst.write payload).1 }
  if (σ.dst.write payload).2 then pure () else fail ()

/-- The payload is written and `expectedSeq` moves on. -/
def writePacket (p : Packet) : Recv Unit := do
  writePayload p.payload
  changeLane (Lane.pass · p)

def advanceReceiveWindow : Nat → Recv Bool
  | 0 => pure false
  | fuel + 1 => do
      let σ ← read
      match σ.lane.window.buffered.lookup σ.lane.window.expectedSeq with
      | none => pure false
      | some p => do
          changeLane Lane.unkeep
          match p.type with
          | .data => do
              writePacket p
              advanceReceiveWindow fuel
          | .done => do
              changeLane (Lane.pass · p)
              pure true
          | _ => pure false

/-- `advanceReceiveWindow` on the whole window. -/
def advance : Recv Bool := do
  let σ ← read
  advanceReceiveWindow (σ.lane.window.buffered.entries.length + 1)

/-- The packet is kept if it is not too far ahead. -/
def keepAhead (p : Packet) : Recv Unit := do
  let σ ← read
  let expectedSeq := σ.lane.window.expectedSeq
  if expectedSeq < p.seq ∧ p.seq ≤ expectedSeq + maxBufferedPackets then
    changeLane (Lane.keep · p)
  else pure ()

def acceptData (p : Packet) : Recv Unit := do
  let σ ← read
  if p.seq = σ.lane.window.expectedSeq then writePacket p else keepAhead p

/-- Whether the Done packet was accepted. -/
def acceptDone (p : Packet) : Recv Bool := do
  let σ ← read
  if p.seq = σ.lane.window.expectedSeq then do
    changeLane (Lane.pass · p)
    pure true
  else do
    keepAhead p
    advance

/-- An acknowledgement goes out after some packets or after some time. -/
def sendDelayedAck (late : Bool) : Recv Unit := do
  let σ ← read
  if delayedAckPackets ≤ σ.lane.window.packetsSinceAck ∨ late then
    changeLane Lane.sendPendingAck
  else pure ()

/-- All was received: over to `lingerTerminalAcks`. -/
def finish (complete : Bool) : Recv Unit :=
  if complete then do
    changeLane Lane.sendPendingAck
    update fun τ => { τ with receivePhase := .lingering }
  else pure ()

def receiveData (p : Packet) (late : Bool) : Recv Unit := do
  acceptData p
  let complete ← advance
  changeLane (Lane.markAck · 1)
  sendDelayedAck late
  finish complete

/-- The acknowledgement of a Done packet goes out at once, so that `finish` has none left. -/
def receiveDone (p : Packet) : Recv Unit := do
  let complete ← acceptDone p
  changeLane (Lane.markAck · 0)
  changeLane Lane.sendPendingAck
  finish complete

def receivePacket (p : Packet) (late : Bool) : Recv Unit :=
  match p.type with
  | .data => receiveData p late
  | .done => receiveDone p
  | _ => pure ()

section

variable (σ : Transfer)

/-- The network delivers a packet, and `late` says that the last acknowledgement is a while
ago. -/
def deliver (k : Nat) (late : Bool) : Option Transfer :=
  match σ.lane.wire[k]? with
  | none => none
  | some p =>
      match σ.receivePhase with
      | .receiving =>
          match exec (receivePacket p late) σ with
          | (.ok _, τ) => some τ
          | (.error _, τ) => some { τ with receivePhase := .failed }
      | .lingering =>
          some
            { σ with
              lane := { σ.lane with
                acks := σ.lane.acks ++ [terminalAck σ.lane.window.expectedSeq] } }
      | _ => none

/-- The read timed out. -/
def receiveTimeout : Option Transfer :=
  if σ.receivePhase = .receiving then some { σ with lane := σ.lane.sendPendingAck }
  else if σ.receivePhase = .lingering then some { σ with receivePhase := .succeeded }
  else none

def cancelReceive : Option Transfer :=
  if σ.receivePhase = .succeeded then none else some { σ with receivePhase := .failed }

end

inductive Label where
  | next (plan : ReadPlan)
  | write (ok grace : Bool)
  | acks (batch : List Nat)
  | timeout (expired : List Nat)
  | cancelSend
  | deliver (k : Nat) (late : Bool)
  | receiveTimeout
  | cancelReceive

def step (σ : Transfer) : Label → Option Transfer
  | .next plan => σ.next plan
  | .write ok grace => σ.write ok grace
  | .acks batch => σ.acks batch
  | .timeout expired => σ.timeout expired
  | .cancelSend => σ.cancelSend
  | .deliver k late => σ.deliver k late
  | .receiveTimeout => σ.receiveTimeout
  | .cancelReceive => σ.cancelReceive

/-! ## What both ends keep -/

/-- The payloads of the first packets. -/
def payloads (l : Lane) (n : Nat) : List UInt8 := ((l.sent.take n).map Packet.payload).flatten

/-- The sender reads the source in order, and has succeeded only with its Data packets taken
in. -/
structure Sound (S : List UInt8) (σ : Transfer) : Prop where
  source : σ.source.Sound S
  lane : LaneSound σ.lane
  pieces : payloads σ.lane σ.lane.sent.length = S.take σ.source.offset
  ended : σ.lane.state.doneQueued = true → σ.source.eof = true
  settled : σ.sendPhase = .succeeded →
    σ.lane.state.doneQueued = true ∧ ∀ p ∈ σ.lane.sent, p.type = .data → p ∈ σ.lane.taken

/-- What the receiver took in is written or kept, up to `k` packets that it has at hand. -/
structure Receiving (S : List UInt8) (k : Nat) (σ : Transfer) : Prop where
  sound : Sound S σ
  phase : σ.receivePhase = .receiving
  out : σ.dst.out = payloads σ.lane σ.lane.window.expectedSeq
  kept : ∀ p ∈ σ.lane.taken,
    p.seq < σ.lane.window.expectedSeq + k ∨ σ.lane.window.buffered.lookup p.seq = some p

/-- The destination is a prefix, whatever became of the receiver. -/
structure Prefixed (S : List UInt8) (σ : Transfer) : Prop where
  sound : Sound S σ
  dst_prefix : σ.dst.out <+: S

/-- Nothing is kept whose turn has come. -/
structure Resting (S : List UInt8) (σ : Transfer) : Prop where
  receiving : Receiving S 0 σ
  waiting : σ.lane.window.buffered.lookup σ.lane.window.expectedSeq = none

/-- The Done packet was taken in. -/
structure Complete (S : List UInt8) (σ : Transfer) : Prop where
  sound : Sound S σ
  dst_eq : σ.dst.out = S

def Inv (S : List UInt8) (σ : Transfer) : Prop :=
  match σ.receivePhase with
  | .receiving => Resting S σ
  | .lingering => Complete S σ
  | .succeeded => Complete S σ
  | .failed => Prefixed S σ

variable {S : List UInt8} {σ τ : Transfer} {p : Packet} {k : Nat}

theorem payloads_succ {l : Lane} (h : LaneSound l) (hp : p ∈ l.sent) :
    payloads l (p.seq + 1) = payloads l p.seq ++ p.payload := by
  have hget := h.getElem? hp
  rw [payloads, payloads, List.take_add_one, hget]
  simp

theorem Sound.payloads_prefix (h : Sound S σ) (n : Nat) : payloads σ.lane n <+: S := by
  have hall : payloads σ.lane n <+: payloads σ.lane σ.lane.sent.length := by
    rw [payloads, payloads, List.take_length]
    exact prefix_flatten ((List.take_prefix n _).map _)
  rw [h.pieces] at hall
  exact hall.trans (List.take_prefix _ _)

theorem Receiving.prefixed (h : Receiving S k σ) : Prefixed S σ :=
  ⟨h.sound, by rw [h.out]; exact h.sound.payloads_prefix _⟩

theorem Inv.sound (h : Inv S σ) : Sound S σ := by
  unfold Inv at h
  split at h
  · exact h.receiving.sound
  · exact h.sound
  · exact h.sound
  · exact h.sound

theorem Inv.dst_prefix (h : Inv S σ) : σ.dst.out <+: S := by
  unfold Inv at h
  split at h
  · exact h.receiving.prefixed.dst_prefix
  · exact h.dst_eq ▸ List.prefix_refl _
  · exact h.dst_eq ▸ List.prefix_refl _
  · exact h.dst_prefix

theorem Inv.init (S : List UInt8) (chunkSize windowSize : Int) (fails : Option (Nat × Nat)) :
    Inv S (init S chunkSize windowSize fails) where
  receiving :=
    { sound :=
        { source := Source.Sound.init S
          lane := LaneSound.init _ _ _
          pieces := rfl
          ended := fun h => by cases h
          settled := fun h => by cases h }
      phase := rfl
      out := rfl
      kept := fun p h => by cases h }
  waiting := AList.lookup_empty _

/-! ## Steps of the sender -/

/-- A step of the sender leaves the receiver alone. -/
theorem Inv.sender (h : Inv S σ) (hτ : Sound S τ) (hdst : τ.dst = σ.dst)
    (hphase : τ.receivePhase = σ.receivePhase) (hwindow : τ.lane.window = σ.lane.window)
    (htaken : τ.lane.taken = σ.lane.taken) (hsent : σ.lane.sent <+: τ.lane.sent) : Inv S τ := by
  unfold Inv at h ⊢
  rw [hphase]
  split at h
  next hp =>
    refine ⟨⟨hτ, hphase.trans hp, ?_, ?_⟩, ?_⟩
    · obtain ⟨rest, hrest⟩ := hsent
      rw [hdst, hwindow, h.receiving.out, payloads, payloads, ← hrest,
        List.take_append_of_le_length h.receiving.sound.lane.expected_le]
    · rw [hwindow, htaken]
      exact h.receiving.kept
    · rw [hwindow]
      exact h.waiting
  · exact ⟨hτ, by rw [hdst, h.dst_eq]⟩
  · exact ⟨hτ, by rw [hdst, h.dst_eq]⟩
  · exact ⟨hτ, by rw [hdst]; exact h.dst_prefix⟩

/-- The sender goes on to a phase in which it has not succeeded. -/
theorem Sound.phase (h : Sound S σ) {phase : SenderPhase} (hne : phase ≠ .succeeded) :
    Sound S { σ with sendPhase := phase } :=
  { h with settled := fun hs => absurd hs hne }

theorem Inv.phase (h : Inv S σ) {phase : SenderPhase} (hne : phase ≠ .succeeded) :
    Inv S { σ with sendPhase := phase } :=
  h.sender (h.sound.phase hne) rfl rfl rfl rfl (List.prefix_refl _)

theorem Inv.loop (h : Inv S σ) : Inv S σ.loop := by
  unfold Transfer.loop
  refine h.phase ?_
  split
  · exact SenderPhase.noConfusion
  · exact SenderPhase.noConfusion

/-- The sender's window changes. -/
theorem Inv.flight (h : Inv S σ) {l : Lane} (hl : LaneSound l) (hsent : l.sent = σ.lane.sent)
    (htaken : l.taken = σ.lane.taken) (hwindow : l.window = σ.lane.window)
    (hdone : l.state.doneQueued = σ.lane.state.doneQueued) : Inv S { σ with lane := l } := by
  have hs := h.sound
  refine h.sender ⟨hs.source, hl, ?_, ?_, ?_⟩ rfl rfl hwindow htaken ?_
  · show payloads l l.sent.length = _
    rw [payloads, hsent]
    exact hs.pieces
  · intro hd
    exact hs.ended (hdone ▸ hd)
  · intro hsucc
    show l.state.doneQueued = true ∧ ∀ p ∈ l.sent, p.type = .data → p ∈ l.taken
    rw [hdone, hsent, htaken]
    exact hs.settled hsucc
  · exact hsent ▸ List.prefix_refl _

/-- A packet is produced. -/
theorem Inv.queue (h : Inv S σ) (hphase : σ.sendPhase = .filling) {plan : ReadPlan}
    {state : SenderState} {source : Source}
    (hnext : σ.lane.state.nextOutboundPacket σ.source plan = .ok (some p, state, source)) :
    Inv S { σ with source := source, lane := σ.lane.queue state p } := by
  have hs := h.sound
  have hpieces : ∀ q : Packet,
      payloads (σ.lane.queue state q) (σ.lane.queue state q).sent.length
        = S.take σ.source.offset ++ q.payload := by
    intro q
    have hall := hs.pieces
    rw [payloads, List.take_length] at hall ⊢
    rw [Lane.queue, List.map_append, List.flatten_append, hall]
    simp
  refine h.sender ?_ rfl rfl rfl rfl (List.prefix_append _ _)
  rcases nextOutboundPacket_cases hnext with ⟨hr, -⟩ | hdata | hdone
  · cases hr
  · obtain ⟨payload, err, hr, hopen, -, hpre, hend, rfl, rfl⟩ := hdata
    cases hr
    obtain ⟨hslice, hsource⟩ := hs.source.gave hpre hend
    refine ⟨hsource, hs.lane.queue rfl rfl rfl hopen rfl rfl (.inl rfl), ?_, ?_, ?_⟩
    · exact (hpieces _).trans hslice.take_append
    · intro hd
      exact absurd (show σ.lane.state.doneQueued = true from hd) (by simp [hopen])
    · intro hsucc
      exact absurd (hphase.symm.trans hsucc) SenderPhase.noConfusion
  · obtain ⟨hr, hopen, hend, rfl, rfl⟩ := hdone
    cases hr
    refine ⟨hs.source.ends hend, hs.lane.queue rfl rfl rfl hopen rfl rfl (.inr ⟨rfl, rfl, rfl⟩),
      ?_, fun _ => rfl, ?_⟩
    · exact (hpieces _).trans (List.append_nil _)
    · intro hsucc
      exact absurd (hphase.symm.trans hsucc) SenderPhase.noConfusion

theorem Inv.next (h : Inv S σ) {plan : ReadPlan} (hstep : σ.next plan = some τ) : Inv S τ := by
  unfold Transfer.next at hstep
  split at hstep
  next hphase =>
    split at hstep
    · split at hstep
      · cases hstep
        exact h.phase SenderPhase.noConfusion
      · cases hstep
        exact h.phase SenderPhase.noConfusion
      next hnext =>
        cases hstep
        exact h.queue hphase hnext
    · cases hstep
      exact h.phase SenderPhase.noConfusion
  · cases hstep

/-- The sender succeeds once nothing but the Done packet is in flight. -/
theorem Inv.settle (h : Inv S σ) (grace : Bool) : Inv S (σ.settle grace) := by
  unfold Transfer.settle
  split
  · split
    · exact h.loop
    · exact h.phase SenderPhase.noConfusion
  · split
    next hdone =>
      rw [Bool.and_eq_true, Bool.or_eq_true] at hdone
      refine h.sender ⟨h.sound.source, h.sound.lane, h.sound.pieces, h.sound.ended, fun _ => ?_⟩
        rfl rfl rfl rfl (List.prefix_refl _)
      refine ⟨hdone.1, h.sound.lane.data_taken ?_⟩
      rcases hdone.2 with hidle | hsettled
      · exact SenderState.lookup_of_isEmpty hidle
      · exact SenderState.lookup_of_settled hsettled
    · exact h.phase SenderPhase.noConfusion

theorem Inv.write (h : Inv S σ) {ok grace : Bool} (hstep : σ.write ok grace = some τ) :
    Inv S τ := by
  have hwrite : Inv S { σ with lane := σ.lane.writeBatch } :=
    h.flight h.sound.lane.writeBatch rfl rfl rfl rfl
  unfold Transfer.write at hstep
  split at hstep
  · dsimp only at hstep
    split at hstep
    · cases hstep
      exact hwrite.settle grace
    · cases hstep
      exact hwrite.phase SenderPhase.noConfusion
  · cases hstep

/-- What a batch of acknowledgements leaves alone. -/
theorem applyAckBatch_spec (batch : List Nat) {l : Lane} (h : LaneSound l) :
    let l' := batch.foldl (fun l k => (l.acks[k]?).elim l (applyAckPacket l)) l
    LaneSound l' ∧ l'.sent = l.sent ∧ l'.taken = l.taken ∧ l'.window = l.window ∧
      l'.state.doneQueued = l.state.doneQueued := by
  induction batch generalizing l with
  | nil => exact ⟨h, rfl, rfl, rfl, rfl⟩
  | cons k batch ih =>
      rw [List.foldl_cons]
      cases hk : l.acks[k]? with
      | none => exact ih h
      | some ack =>
          have hack : ack ∈ l.acks := List.mem_of_getElem? hk
          simp only [Option.elim_some]
          unfold applyAckPacket
          split
          · exact ih (h.applyAck hack _)
          · exact ih h

theorem Inv.acks (h : Inv S σ) {batch : List Nat} (hstep : σ.acks batch = some τ) : Inv S τ := by
  unfold Transfer.acks at hstep
  split at hstep
  · cases hstep
    obtain ⟨hl, hsent, htaken, hwindow, hdone⟩ := applyAckBatch_spec batch h.sound.lane
    exact (h.flight hl hsent htaken hwindow hdone).loop
  · cases hstep

theorem Inv.timeout (h : Inv S σ) {expired : List Nat} (hstep : σ.timeout expired = some τ) :
    Inv S τ := by
  unfold Transfer.timeout at hstep
  split at hstep
  · cases hstep
    exact (h.flight (h.sound.lane.retransmitExpired expired) rfl rfl rfl rfl).loop
  · split at hstep
    · cases hstep
      exact h.loop
    · cases hstep

theorem Inv.cancelSend (h : Inv S σ) (hstep : σ.cancelSend = some τ) : Inv S τ := by
  unfold Transfer.cancelSend at hstep
  split at hstep
  · cases hstep
  · cases hstep
    exact h.phase SenderPhase.noConfusion

/-! ## Steps of the receiver -/

/-- A step of the receiver leaves the sender alone. -/
theorem Sound.receiver (h : Sound S σ) {l : Lane} (hl : LaneSound l)
    (hstate : l.state = σ.lane.state) (hsent : l.sent = σ.lane.sent)
    (htaken : ∀ q ∈ σ.lane.taken, q ∈ l.taken) (dst : Writer) (phase : ReceiverPhase) :
    Sound S { σ with lane := l, dst := dst, receivePhase := phase } where
  source := h.source
  lane := hl
  pieces := by
    show payloads l l.sent.length = _
    rw [payloads, hsent]
    exact h.pieces
  ended := fun hd => h.ended (hstate ▸ hd)
  settled := fun hsucc => by
    show l.state.doneQueued = true ∧ ∀ p ∈ l.sent, p.type = .data → p ∈ l.taken
    rw [hstate, hsent]
    exact ⟨(h.settled hsucc).1, fun p hp hd => htaken p ((h.settled hsucc).2 p hp hd)⟩

/-- The packet at `expectedSeq` was written. -/
theorem Receiving.pass (h : Receiving S k σ) (hk : k ≤ 1) (hp : p ∈ σ.lane.sent)
    (hseq : p.seq = σ.lane.window.expectedSeq) {dst : Writer}
    (hdst : dst.out = σ.dst.out ++ p.payload) :
    Receiving S 0 { σ with dst := dst, lane := σ.lane.pass p } := by
  refine ⟨h.sound.receiver (h.sound.lane.pass hp hseq) rfl rfl
    (fun q hq => List.mem_append_left _ hq) dst _, h.phase, ?_, ?_⟩
  · show dst.out = payloads σ.lane (σ.lane.window.expectedSeq + 1)
    rw [hdst, h.out, ← hseq, payloads_succ h.sound.lane hp]
  · intro q hq
    show q.seq < σ.lane.window.expectedSeq + 1 + 0 ∨ σ.lane.window.buffered.lookup q.seq = some q
    rcases List.mem_append.mp hq with hq | hq
    · rcases h.kept q hq with hlt | hl
      · exact .inl (by omega)
      · exact .inr hl
    · rw [List.mem_singleton.mp hq]
      exact .inl (by omega)

theorem Receiving.keep (h : Receiving S 0 σ) (hp : p ∈ σ.lane.sent) :
    Receiving S 0 { σ with lane := σ.lane.keep p } := by
  refine ⟨h.sound.receiver (h.sound.lane.keep hp) rfl rfl
    (fun q hq => List.mem_append_left _ hq) _ _, h.phase, h.out, ?_⟩
  intro q hq
  show q.seq < σ.lane.window.expectedSeq + 0 ∨
    (σ.lane.window.buffered.insert p.seq p).lookup q.seq = some q
  have hq' : q ∈ σ.lane.taken ∨ q = p := by
    rcases List.mem_append.mp hq with hq | hq
    · exact .inl hq
    · exact .inr (List.mem_singleton.mp hq)
  by_cases hqp : q.seq = p.seq
  · have hsent : q ∈ σ.lane.sent := by
      rcases hq' with hq | rfl
      · exact h.sound.lane.taken q hq
      · exact hp
    rw [h.sound.lane.eq_of_seq hsent hp hqp]
    exact .inr (AList.lookup_insert _)
  · rcases hq' with hq | rfl
    · rcases h.kept q hq with hlt | hl
      · exact .inl hlt
      · exact .inr (by rw [AList.lookup_insert_ne hqp]; exact hl)
    · exact absurd rfl hqp

/-- A packet whose turn has come leaves the map. -/
theorem Receiving.unkeep (h : Receiving S 0 σ) :
    Receiving S 1 { σ with lane := σ.lane.unkeep } := by
  refine ⟨h.sound.receiver h.sound.lane.unkeep rfl rfl (fun q hq => hq) _ _, h.phase, h.out, ?_⟩
  intro q hq
  show q.seq < σ.lane.window.expectedSeq + 1 ∨
    (σ.lane.window.buffered.erase σ.lane.window.expectedSeq).lookup q.seq = some q
  by_cases hqe : q.seq = σ.lane.window.expectedSeq
  · exact .inl (by omega)
  · rcases h.kept q hq with hlt | hl
    · exact .inl (by omega)
    · exact .inr (by rw [AList.lookup_erase_ne hqe]; exact hl)

/-- The Done packet comes after everything else. -/
theorem Receiving.complete (h : Receiving S k σ) (hp : p ∈ σ.lane.sent)
    (hseq : p.seq = σ.lane.window.expectedSeq) (hdone : p.type = .done) :
    Complete S { σ with lane := σ.lane.pass p } := by
  have hs := h.sound
  refine ⟨hs.receiver (hs.lane.pass hp hseq) rfl rfl (fun q hq => List.mem_append_left _ hq) _ _, ?_⟩
  rcases hs.lane.kinds p hp with hd | ⟨-, hempty, hlast, hqueued⟩
  · rw [hdone] at hd
    cases hd
  · have hall : payloads σ.lane (p.seq + 1) = S := by
      rw [hlast, hs.pieces, hs.source.offset_eq (hs.ended hqueued), List.take_length]
    rw [payloads_succ hs.lane hp, hempty, List.append_nil, hseq, ← h.out] at hall
    exact hall

/-- `advanceReceiveWindow` was through with the window. -/
def Outcome (S : List UInt8) (complete : Bool) (σ : Transfer) : Prop :=
  if complete then Complete S σ else Resting S σ

/-- Acknowledgements and their bookkeeping. -/
theorem Outcome.acknowledge {complete : Bool} (h : Outcome S complete σ) {l : Lane}
    (hl : LaneSound σ.lane → LaneSound l) (hstate : l.state = σ.lane.state)
    (hsent : l.sent = σ.lane.sent) (htaken : l.taken = σ.lane.taken)
    (hexp : l.window.expectedSeq = σ.lane.window.expectedSeq)
    (hbuf : l.window.buffered = σ.lane.window.buffered) :
    Outcome S complete { σ with lane := l } := by
  have hsub : ∀ q ∈ σ.lane.taken, q ∈ l.taken := fun q hq => htaken ▸ hq
  cases complete with
  | true =>
      have h : Complete S σ := h
      exact ⟨h.sound.receiver (hl h.sound.lane) hstate hsent hsub _ _, h.dst_eq⟩
  | false =>
      obtain ⟨⟨hs, hphase, hout, hkept⟩, hwait⟩ := (h : Resting S σ)
      refine ⟨⟨hs.receiver (hl hs.lane) hstate hsent hsub _ _, hphase, ?_, ?_⟩, ?_⟩
      · show σ.dst.out = payloads l l.window.expectedSeq
        rw [hexp, payloads, hsent]
        exact hout
      · show ∀ p ∈ l.taken, p.seq < l.window.expectedSeq + 0 ∨ l.window.buffered.lookup p.seq = some p
        rw [htaken, hexp, hbuf]
        exact hkept
      · show l.window.buffered.lookup l.window.expectedSeq = none
        rw [hexp, hbuf]
        exact hwait

theorem Outcome.markAck {complete : Bool} (h : Outcome S complete σ) (packets : Nat) :
    Outcome S complete { σ with lane := σ.lane.markAck packets } :=
  h.acknowledge (fun hl => hl.markAck packets) rfl rfl rfl rfl rfl

theorem Outcome.sendPendingAck {complete : Bool} (h : Outcome S complete σ) :
    Outcome S complete { σ with lane := σ.lane.sendPendingAck } := by
  refine h.acknowledge LaneSound.sendPendingAck ?_ ?_ ?_ ?_ ?_ <;>
    · unfold Lane.sendPendingAck
      split <;> rfl

theorem Inv.of_resting (h : Resting S σ) : Inv S σ := by
  unfold Inv
  rw [h.receiving.phase]
  exact h

theorem Outcome.inv {complete : Bool} (h : Outcome S complete σ) :
    Inv S (if complete then { σ with receivePhase := .lingering } else σ) := by
  cases complete with
  | true =>
      have h : Complete S σ := h
      exact ⟨h.sound.receiver h.sound.lane rfl rfl (fun q hq => hq) _ _, h.dst_eq⟩
  | false => exact Inv.of_resting h

/-- The packet at `expectedSeq` is written, or the receiver fails with part of it written. -/
theorem writePacket_spec (h : Receiving S k σ) (hk : k ≤ 1) (hp : p ∈ σ.lane.sent)
    (hseq : p.seq = σ.lane.window.expectedSeq) :
    Triple (· = σ) (writePacket p)
      (fun _ τ => Receiving S 0 τ ∧ τ.lane.window.buffered = σ.lane.window.buffered)
      fun _ => Prefixed S := by
  refine Triple.bind (Q := fun _ τ =>
      τ = { σ with dst := (σ.dst.write p.payload).1 } ∧ (σ.dst.write p.payload).2 = true)
    ?_ fun _ => Triple.update fun τ hτ => ?_
  · refine Triple.read_bind fun τ hτ => ?_
    rw [hτ]
    refine Triple.bind (Triple.update (Q := fun _ τ =>
      τ = { σ with dst := (σ.dst.write p.payload).1 }) fun τ hτ => by rw [hτ]) fun _ => ?_
    refine Triple.ite (fun hok => Triple.pure fun _ he => ⟨he, hok⟩) fun _ =>
      Triple.fail fun τ hτ => ?_
    rw [hτ]
    refine ⟨h.sound.receiver h.sound.lane rfl rfl (fun q hq => hq) _ _, ?_⟩
    -- what a failed write leaves is still part of the next payload
    have hnext := h.sound.payloads_prefix (p.seq + 1)
    rw [payloads_succ h.sound.lane hp, hseq, ← h.out] at hnext
    exact (σ.dst.write_prefix p.payload).trans hnext
  · rw [hτ.1]
    exact ⟨h.pass hk hp hseq (Writer.write_ok hτ.2), rfl⟩

theorem advanceReceiveWindow_spec (fuel : Nat) :
    Triple (fun σ => Receiving S 0 σ ∧ σ.lane.window.buffered.entries.length < fuel)
      (advanceReceiveWindow fuel) (Outcome S) fun _ => Prefixed S := by
  induction fuel with
  | zero => exact fun σ hσ => absurd hσ.2 (Nat.not_lt_zero _)
  | succ fuel ih =>
      refine Triple.read_bind fun σ hσ => ?_
      obtain ⟨h, hfuel⟩ := hσ
      cases hl : σ.lane.window.buffered.lookup σ.lane.window.expectedSeq with
      | none =>
          refine Triple.pure fun τ hτ => ?_
          rw [hτ]
          exact ⟨h, hl⟩
      | some p =>
          obtain ⟨htaken, hseq⟩ := h.sound.lane.kept _ p hl
          have hp := h.sound.lane.taken p htaken
          have hsmall := Map.length_erase_lt hl
          refine Triple.bind (Triple.update (Q := fun _ τ =>
            τ = { σ with lane := σ.lane.unkeep }) fun τ hτ => by rw [hτ]) fun _ => ?_
          cases htype : p.type with
          | data =>
              refine Triple.bind (writePacket_spec h.unkeep (Nat.le_refl 1) hp hseq) fun _ =>
                ih.conseq (fun τ hτ => ⟨hτ.1, ?_⟩) (fun _ _ h => h) fun _ _ h => h
              rw [hτ.2]
              show (σ.lane.window.buffered.erase σ.lane.window.expectedSeq).entries.length < fuel
              omega
          | done =>
              refine Triple.bind (Triple.update (Q := fun _ => Complete S) fun τ hτ => ?_)
                fun _ => Triple.pure fun τ hτ => hτ
              rw [hτ]
              exact h.unkeep.complete hp hseq htype
          | _ =>
              rcases h.sound.lane.kinds p hp with hd | ⟨hd, -⟩ <;> rw [htype] at hd <;> cases hd

theorem advance_spec : Triple (Receiving S 0) advance (Outcome S) fun _ => Prefixed S :=
  Triple.read_bind fun _ hσ =>
    (advanceReceiveWindow_spec _).conseq (fun _ hτ => ⟨hτ ▸ hσ, hτ ▸ Nat.lt_succ_self _⟩)
      (fun _ _ h => h) fun _ _ h => h

theorem keepAhead_spec (p : Packet) :
    Triple (fun σ => Receiving S 0 σ ∧ p ∈ σ.lane.sent) (keepAhead p) (fun _ => Receiving S 0)
      fun _ => Prefixed S := by
  refine Triple.read_bind fun σ hσ => Triple.ite (fun _ => Triple.update fun τ hτ => ?_)
    fun _ => Triple.pure fun τ hτ => ?_
  · rw [hτ]
    exact hσ.1.keep hσ.2
  · rw [hτ]
    exact hσ.1

theorem acceptData_spec (p : Packet) :
    Triple (fun σ => Resting S σ ∧ p ∈ σ.lane.sent) (acceptData p) (fun _ => Receiving S 0)
      fun _ => Prefixed S := by
  refine Triple.read_bind fun σ hσ => ?_
  obtain ⟨⟨h, -⟩, hp⟩ := hσ
  refine Triple.ite (fun hseq => ?_) fun _ => ?_
  · exact (writePacket_spec h (Nat.zero_le _) hp hseq).conseq (fun _ h => h) (fun _ _ h => h.1)
      fun _ _ h => h
  · exact (keepAhead_spec p).conseq (fun _ hτ => hτ ▸ ⟨h, hp⟩) (fun _ _ h => h) fun _ _ h => h

theorem acceptDone_spec (hdone : p.type = .done) :
    Triple (fun σ => Resting S σ ∧ p ∈ σ.lane.sent) (acceptDone p) (Outcome S)
      fun _ => Prefixed S := by
  refine Triple.read_bind fun σ hσ => ?_
  obtain ⟨⟨h, -⟩, hp⟩ := hσ
  refine Triple.ite (fun hseq => ?_) fun _ => ?_
  · refine Triple.bind (Triple.update (Q := fun _ => Complete S) fun τ hτ => ?_) fun _ =>
      Triple.pure fun τ hτ => hτ
    rw [hτ]
    exact h.complete hp hseq hdone
  · exact (Triple.bind (keepAhead_spec p) fun _ => advance_spec).conseq
      (fun _ hτ => hτ ▸ ⟨h, hp⟩) (fun _ _ h => h) fun _ _ h => h

section

variable {complete : Bool} {E : Unit → Transfer → Prop}

theorem markAck_spec (packets : Nat) :
    Triple (Outcome S complete) (changeLane (Lane.markAck · packets))
      (fun _ => Outcome S complete) E :=
  Triple.update fun _ h => h.markAck packets

theorem sendPendingAck_spec :
    Triple (Outcome S complete) (changeLane Lane.sendPendingAck)
      (fun _ => Outcome S complete) E :=
  Triple.update fun _ h => h.sendPendingAck

theorem sendDelayedAck_spec (late : Bool) :
    Triple (Outcome S complete) (sendDelayedAck late) (fun _ => Outcome S complete) E := by
  refine Triple.read_bind fun σ h => Triple.ite (fun _ => ?_) fun _ => Triple.pure fun τ hτ => ?_
  · exact sendPendingAck_spec.conseq (fun _ hτ => hτ ▸ h) (fun _ _ h => h) fun _ _ h => h
  · rw [hτ]
    exact h

theorem finish_spec : Triple (Outcome S complete) (finish complete) (fun _ => Inv S) E := by
  cases complete with
  | true => exact Triple.bind sendPendingAck_spec fun _ => Triple.update fun _ h => h.inv
  | false => exact Triple.pure fun _ h => h.inv

end

theorem receivePacket_spec (late : Bool) :
    Triple (fun σ => Resting S σ ∧ p ∈ σ.lane.sent) (receivePacket p late) (fun _ => Inv S)
      fun _ => Prefixed S := by
  unfold receivePacket
  split
  · exact Triple.bind (acceptData_spec p) fun _ => Triple.bind advance_spec fun complete =>
      Triple.bind (markAck_spec 1) fun _ => Triple.bind (sendDelayedAck_spec late) fun _ =>
        finish_spec
  next hdone =>
    exact Triple.bind (acceptDone_spec hdone) fun complete =>
      Triple.bind (markAck_spec 0) fun _ => Triple.bind sendPendingAck_spec fun _ => finish_spec
  · exact Triple.pure fun _ h => Inv.of_resting h.1

theorem Prefixed.inv (h : Prefixed S σ) : Inv S { σ with receivePhase := .failed } :=
  ⟨h.sound.receiver h.sound.lane rfl rfl (fun _ hq => hq) _ _, h.dst_prefix⟩

theorem Inv.deliver (h : Inv S σ) {late : Bool} (hstep : σ.deliver k late = some τ) : Inv S τ := by
  unfold Transfer.deliver at hstep
  split at hstep
  · cases hstep
  next p hk =>
    have hp : p ∈ σ.lane.sent := LaneSound.mem_of_wire (List.mem_of_getElem? hk)
    unfold Inv at h
    split at hstep
    next hphase =>
      rw [hphase] at h
      have hspec := receivePacket_spec late σ ⟨h, hp⟩
      split at hstep
      next hr =>
        rw [hr] at hspec
        cases hstep
        exact hspec
      next hr =>
        rw [hr] at hspec
        cases hstep
        exact hspec.inv
    next hphase =>
      rw [hphase] at h
      cases hstep
      have hack : LaneSound { σ.lane with acks := σ.lane.acks ++ [terminalAck _] } :=
        h.sound.lane.acknowledge fun seq hc => .inl (terminalAck_claims hc)
      unfold Inv
      rw [show σ.receivePhase = .lingering from hphase]
      exact ⟨h.sound.receiver hack rfl rfl (fun q hq => hq) _ _, h.dst_eq⟩
    · cases hstep

theorem Inv.receiveTimeout (h : Inv S σ) (hstep : σ.receiveTimeout = some τ) : Inv S τ := by
  unfold Transfer.receiveTimeout at hstep
  unfold Inv at h
  split at hstep
  next hphase =>
    rw [hphase] at h
    cases hstep
    have hout : Outcome S false σ := h
    exact Inv.of_resting hout.sendPendingAck
  · split at hstep
    next hphase =>
      rw [hphase] at h
      cases hstep
      exact ⟨h.sound.receiver h.sound.lane rfl rfl (fun q hq => hq) _ _, h.dst_eq⟩
    · cases hstep

theorem Inv.cancelReceive (h : Inv S σ) (hstep : σ.cancelReceive = some τ) : Inv S τ := by
  unfold Transfer.cancelReceive at hstep
  split at hstep
  · cases hstep
  · cases hstep
    exact Prefixed.inv ⟨h.sound, h.dst_prefix⟩

theorem Inv.step (σ : Transfer) (a : Label) (τ : Transfer) (h : Inv S σ)
    (hstep : σ.step a = some τ) : Inv S τ := by
  cases a with
  | next plan => exact h.next hstep
  | write ok grace => exact h.write hstep
  | acks batch => exact h.acks hstep
  | timeout expired => exact h.timeout hstep
  | cancelSend => exact h.cancelSend hstep
  | deliver k late => exact h.deliver hstep
  | receiveTimeout => exact h.receiveTimeout hstep
  | cancelReceive => exact h.cancelReceive hstep

/-! ## The transfer -/

/-- With every Data packet taken in and nothing kept whose turn has come, every Data packet was
written. -/
theorem Resting.seq_lt (h : Resting S σ)
    (hall : ∀ p ∈ σ.lane.sent, p.type = .data → p ∈ σ.lane.taken) (hp : p ∈ σ.lane.sent)
    (hdata : p.type = .data) : p.seq < σ.lane.window.expectedSeq := by
  have hlane := h.receiving.sound.lane
  rcases h.receiving.kept p (hall p hp hdata) with hlt | hl
  · exact hlt
  by_contra hge
  have hplt := hlane.seq_lt hp
  have hne : p.seq ≠ σ.lane.window.expectedSeq := by
    intro he
    rw [he, h.waiting] at hl
    cases hl
  -- the packet at `expectedSeq` is not the last, so it is a Data packet and was taken in
  obtain ⟨q, hq⟩ : ∃ q, σ.lane.sent[σ.lane.window.expectedSeq]? = some q :=
    ⟨_, List.getElem?_eq_getElem (by omega)⟩
  have hqs := (hlane.numbered _ q hq).1
  have hqm := List.mem_of_getElem? hq
  rcases hlane.kinds q hqm with hqd | ⟨-, -, hlast, -⟩
  · rcases h.receiving.kept q (hall q hqm hqd) with hlt | hl'
    · omega
    · rw [hqs, h.waiting] at hl'
      cases hl'
  · omega

theorem Resting.dst_eq (h : Resting S σ) (hsucc : σ.sendPhase = .succeeded) : σ.dst.out = S := by
  have hs := h.receiving.sound
  obtain ⟨hqueued, hall⟩ := hs.settled hsucc
  have hrest : ((σ.lane.sent.drop σ.lane.window.expectedSeq).map Packet.payload).flatten = [] := by
    rw [List.flatten_eq_nil_iff]
    intro payload hpayload
    obtain ⟨q, hq, rfl⟩ := List.mem_map.mp hpayload
    obtain ⟨i, hi⟩ := List.mem_iff_getElem?.mp hq
    rw [List.getElem?_drop] at hi
    have hqs := (hs.lane.numbered _ q hi).1
    have hqm := List.mem_of_getElem? hi
    rcases hs.lane.kinds q hqm with hd | ⟨-, hempty, -⟩
    · have := h.seq_lt hall hqm hd
      omega
    · exact hempty
  have hpieces := hs.pieces
  rw [hs.source.offset_eq (hs.ended hqueued), List.take_length] at hpieces
  rw [h.receiving.out, ← hpieces, payloads, payloads, List.take_length]
  conv_rhs =>
    rw [← List.take_append_drop σ.lane.window.expectedSeq σ.lane.sent, List.map_append,
      List.flatten_append, hrest, List.append_nil]

/-- Whatever the network loses, repeats or reorders, the destination is a prefix of the source,
the receiver ends with all of it, and the sender succeeds only after the receiver took in every
Data packet; then the destination has the source, unless the receiver failed. -/
theorem reliable_transfer (S : List UInt8) (chunkSize windowSize : Int)
    (fails : Option (Nat × Nat)) (run : List Label) {σ : Transfer}
    (hrun : runFrom step (init S chunkSize windowSize fails) run = some σ) :
    σ.dst.out <+: S ∧
      (σ.receivePhase = .lingering ∨ σ.receivePhase = .succeeded → σ.dst.out = S) ∧
      (σ.sendPhase = .succeeded →
        (∀ p ∈ σ.lane.sent, p.type = .data → p ∈ σ.lane.taken) ∧
          (σ.receivePhase ≠ .failed → σ.dst.out = S)) := by
  have h : Inv S σ := runFrom_invariant Inv.step run (Inv.init S chunkSize windowSize fails) hrun
  refine ⟨h.dst_prefix, ?_, fun hsucc => ⟨(h.sound.settled hsucc).2, ?_⟩⟩
  · unfold Inv at h
    rintro (hp | hp) <;> rw [hp] at h <;> exact h.dst_eq
  · intro hne
    unfold Inv at h
    split at h
    · exact h.dst_eq hsucc
    · exact h.dst_eq
    · exact h.dst_eq
    next hp => exact absurd hp hne

/-- Three packets of which the last arrives first and twice and the first two only after they
expired. -/
def reorderedRun : List Label :=
  [.next ⟨1, none⟩, .next ⟨1, none⟩, .next ⟨1, some .eof⟩, .next ⟨0, none⟩, .next ⟨0, none⟩,
    .write true false, .deliver 2 true, .deliver 2 true, .acks [0], .next ⟨0, none⟩,
    .write true false, .timeout [0, 1], .next ⟨0, none⟩, .write true false, .deliver 1 true,
    .deliver 0 true, .acks [3, 0], .next ⟨0, none⟩, .write true false, .deliver 3 true, .acks [4],
    .next ⟨0, none⟩, .write true false, .receiveTimeout]

theorem reorderedRun_succeeds :
    (runFrom step (init [1, 2, 3] 1 4 none) reorderedRun).any (fun σ =>
      decide (σ.sendPhase = .succeeded ∧ σ.receivePhase = .succeeded)) = true := by
  decide +kernel

theorem reliable_transfer_reordered :
    ∃ σ, runFrom step (init [1, 2, 3] 1 4 none) reorderedRun = some σ ∧
      σ.sendPhase = .succeeded ∧ σ.receivePhase = .succeeded ∧ σ.dst.out = [1, 2, 3] := by
  obtain ⟨σ, hσ, hd⟩ := (Option.any_eq_true ..).mp reorderedRun_succeeds
  have h := of_decide_eq_true hd
  exact ⟨σ, hσ, h.1, h.2, (reliable_transfer _ _ _ _ _ hσ).2.1 (.inr h.2)⟩

end Transfer

end Probe
