import Derphole.Lib.Run
import Derphole.Lib.Slice
import Derphole.Probe.ArqTransfer

/-!
# The reliable transfer over several stripes

`sendStriped` and `receiveStripedFromFirstHello` of `pkg/probe/striped.go`.  Every stripe is a
lane of its own, with its windows, acknowledgements and Done packet.  The stripes share the
source, which gives the next piece to whichever of them has room, and the map of payloads that
the receiver has passed but cannot write yet, which is keyed by offset.

So it does not matter which stripe carries a piece: every Data packet of every lane holds the
piece of the source at its offset, and every Done packet the length of the source.
-/

namespace Probe

open Lib

/-! ## Lists of lanes -/

section

variable {α : Type} {P Q : Nat → α → Prop} {l : List α}

/-- Every element satisfies `P` at its place. -/
def Each (P : Nat → α → Prop) (l : List α) : Prop := ∀ i a, l[i]? = some a → P i a

/-- One element changes. -/
theorem Each.modify (h : Each P l) {i : Nat} {f : α → α} (hpq : ∀ j a, P j a → Q j a)
    (hf : ∀ a, l[i]? = some a → P i a → Q i (f a)) : Each Q (l.modify i f) := by
  intro j b hb
  rw [List.getElem?_modify] at hb
  cases hj : l[j]? with
  | none =>
      rw [hj] at hb
      cases hb
  | some a =>
      rw [hj] at hb
      by_cases hij : i = j
      · simp only [Option.map_eq_map, Option.map_some, hij, if_true, Option.some.injEq] at hb
        rw [← hb]
        rw [hij] at hf
        exact hf a hj (h j a hj)
      · simp only [Option.map_eq_map, Option.map_some, hij, if_false, Option.some.injEq] at hb
        rw [← hb]
        exact hpq j a (h j a hj)

/-- All of them change. -/
theorem Each.mapIdx (h : Each P l) {f : Nat → α → α} (hf : ∀ j a, P j a → Q j (f j a)) :
    Each Q (l.mapIdx f) := by
  intro j b hb
  rw [List.getElem?_mapIdx] at hb
  obtain ⟨a, ha, rfl⟩ := Option.map_eq_some_iff.mp hb
  exact hf j a (h j a ha)

theorem Each.mem (h : Each P l) {a : α} (ha : a ∈ l) : ∃ i, P i a := by
  obtain ⟨i, hi⟩ := List.mem_iff_getElem?.mp ha
  exact ⟨i, h i a hi⟩

end

/-! ## The two ends -/

inductive StripedPhase where
  /-- In `fillStripedSendWindows`, at a stripe, and whether the round has made progress. -/
  | filling (stripe : Nat) (progress : Bool)
  | filled
  | waiting
  | succeeded
  | failed
  deriving DecidableEq, Repr

/-- A stripe at both ends: `done` is the receiver's. -/
structure Stripe where
  lane : Lane
  done : Bool

structure StripedTransfer where
  source : Source
  stripes : List Stripe
  sendPhase : StripedPhase
  /-- Payloads by their offset. -/
  pendingOutput : Map Nat (List UInt8)
  nextOffset : Nat
  finalTotal : Option Nat
  completedStripes : Nat
  dst : Writer
  /-- The outcome of the receiver. -/
  received : Option Bool

/-- The number of stripes for a configuration. -/
def effectiveParallel (parallel : Int) : Nat :=
  if parallel < 2 then 2 else min parallel.toNat maxParallelStripes

namespace StripedTransfer

def init (S : List UInt8) (parallel chunkSize windowSize : Int) (fails : Option (Nat × Nat)) :
    StripedTransfer where
  source := .init S
  stripes := (List.range (effectiveParallel parallel)).map fun i =>
    ⟨.init chunkSize windowSize i, false⟩
  sendPhase := .filling 0 false
  pendingOutput := ∅
  nextOffset := 0
  finalTotal := none
  completedStripes := 0
  dst := ⟨[], fails⟩
  received := none

/-! ### sendStriped -/

section

variable (σ : StripedTransfer)

def stripedInFlightEmpty : Bool :=
  σ.stripes.all fun s => s.lane.state.inFlight.entries.isEmpty

def stripedAllDoneQueued : Bool := σ.stripes.all fun s => s.lane.state.doneQueued

/-- `stripedDonePacketsSettled`: `grace` says that the grace period of all is over. -/
def stripedDonePacketsSettled (grace : Bool) : Bool :=
  σ.stripes.all fun s => s.lane.state.donePacketSettled grace

/-- The top of the loop. -/
def loop : StripedTransfer :=
  { σ with
    sendPhase :=
      if σ.source.failed && σ.stripedInFlightEmpty then .failed else .filling 0 false }

/-- The window of a stripe is closed or full. -/
def full (l : Lane) : Bool :=
  l.state.doneQueued || decide (l.state.window ≤ l.state.inFlight.entries.length)

/-- An iteration of the loops of `fillStripedSendWindows`. -/
def next (plan : ReadPlan) : Option StripedTransfer :=
  match σ.sendPhase with
  | .filling i progress =>
      match σ.stripes[i]? with
      | none =>
          some { σ with sendPhase := if progress then .filling 0 false else .filled }
      | some s =>
          if full s.lane then some { σ with sendPhase := .filling (i + 1) progress }
          else
            match s.lane.state.nextOutboundPacket σ.source plan with
            | .error _ => some { σ with sendPhase := .failed }
            | .ok (none, _, _) => some { σ with sendPhase := .filling (i + 1) progress }
            | .ok (some p, state, source) =>
                some
                  { σ with
                    source := source
                    stripes := σ.stripes.modify i fun s => ⟨s.lane.queue state p, s.done⟩
                    sendPhase := .filling (i + 1) true }
  | _ => none

/-- What `sendStriped` does once its windows are filled. -/
def settle (grace : Bool) : StripedTransfer :=
  if σ.stripedAllDoneQueued && (σ.stripedInFlightEmpty || σ.stripedDonePacketsSettled grace) then
    { σ with sendPhase := .succeeded }
  else if σ.stripedInFlightEmpty && !σ.source.eof then σ.loop
  else { σ with sendPhase := .waiting }

/-- The end of `fillStripedSendWindows`: the write may fail. -/
def write (ok grace : Bool) : Option StripedTransfer :=
  if σ.sendPhase = .filled then
    let τ := { σ with stripes := σ.stripes.mapIdx fun _ (s : Stripe) => ⟨s.lane.writeBatch, s.done⟩ }
    if ok then some (τ.settle grace) else some { τ with sendPhase := .failed }
  else none

/-- An acknowledgement reaches its stripe. -/
def applyAckPacket (k : Nat) (s : Stripe) : Stripe :=
  match s.lane.acks[k]? with
  | none => s
  | some ack =>
      if ackIsPlausible id s.lane.state.nextSeq ack then
        { s with
          lane := { s.lane with
            state := { s.lane.state with inFlight := (applyAck id s.lane.state.inFlight ack).1 } } }
      else s

/-- The acknowledgements that the network delivers, each of a stripe. -/
def acks (batch : List (Nat × Nat)) : Option StripedTransfer :=
  if σ.sendPhase = .waiting then
    some
      { σ with
        stripes :=
          batch.foldl (fun ss (e : Nat × Nat) => ss.modify e.1 (applyAckPacket e.2)) σ.stripes }.loop
  else none

/-- The read timed out: `retransmitExpiredStripes`. -/
def timeout (expired : Nat → List Nat) : Option StripedTransfer :=
  if σ.sendPhase = .waiting then
    some
      { σ with
        stripes :=
          σ.stripes.mapIdx fun i (s : Stripe) => ⟨s.lane.retransmitExpired (expired i), s.done⟩ }.loop
  else none

def cancelSend : Option StripedTransfer :=
  if σ.sendPhase = .succeeded then none else some { σ with sendPhase := .failed }

end

/-! ### receiveStripedFromFirstHello -/

/-- A computation of the receiver. -/
abbrev Recv (α : Type) := Prog StripedTransfer RecvErr α

def changeStripe (i : Nat) (f : Stripe → Stripe) : Recv Unit :=
  update fun σ => { σ with stripes := σ.stripes.modify i f }

def changeLane (i : Nat) (f : Lane → Lane) : Recv Unit :=
  changeStripe i fun s => ⟨f s.lane, s.done⟩

def stripedReceiveComplete (σ : StripedTransfer) : Bool :=
  decide (σ.finalTotal = some σ.nextOffset) && decide (σ.completedStripes = σ.stripes.length)

def writeStripedPayload (payload : List UInt8) : Recv Unit := do
  let σ ← read
  update fun τ => { τ with dst := (σ.dst.write payload).1 }
  if (σ.dst.write payload).2 then
    update fun τ => { τ with nextOffset := τ.nextOffset + payload.length }
  else fail (.text "short write")

def flushStripedPendingPayloads : Nat → Recv Unit
  | 0 => pure ()
  | fuel + 1 => do
      let σ ← read
      match σ.pendingOutput.lookup σ.nextOffset with
      | none => pure ()
      | some payload => do
          update fun τ => { τ with pendingOutput := τ.pendingOutput.erase τ.nextOffset }
          writeStripedPayload payload
          flushStripedPendingPayloads fuel

def acceptData (p : Packet) : Recv Unit := do
  let σ ← read
  if p.payload = [] then pure ()
  else if p.offset = σ.nextOffset then do
    writeStripedPayload p.payload
    flushStripedPendingPayloads (σ.pendingOutput.entries.length + 1)
  else if σ.nextOffset < p.offset then
    match σ.pendingOutput.lookup p.offset with
    | some _ => pure ()
    | none => update fun τ => { τ with pendingOutput := τ.pendingOutput.insert p.offset p.payload }
  else pure ()

/-- A stripe is counted as completed once. -/
def countDone (i : Nat) : Recv Unit := do
  let σ ← read
  match σ.stripes[i]? with
  | some ⟨_, false⟩ => do
      changeStripe i fun s => ⟨s.lane, true⟩
      update fun τ => { τ with completedStripes := τ.completedStripes + 1 }
  | _ => pure ()

/-- All Done packets have to name the same size. -/
def agreeTotal (offset : Nat) : Recv Unit := do
  let σ ← read
  match σ.finalTotal with
  | none => update fun τ => { τ with finalTotal := some offset }
  | some total =>
      if total = offset then pure ()
      else fail (.text "striped done packets disagree on final size")

/-- The part of `acceptStripedReceivePacket` before its return. -/
def accept (i : Nat) (p : Packet) : Recv Unit :=
  match p.type with
  | .data => do
      acceptData p
      changeLane i (Lane.pass · p)
  | .done => do
      countDone i
      agreeTotal p.offset
      changeLane i (Lane.pass · p)
  | _ => pure ()

def complete : Recv Bool := do
  let σ ← read
  pure (stripedReceiveComplete σ)

def acceptStripedReceivePacket (i : Nat) (p : Packet) : Recv Bool := do
  accept i p
  complete

/-- What is kept follows in order. -/
def acceptBuffered (i : Nat) : Nat → Recv Bool
  | 0 => complete
  | fuel + 1 => do
      let σ ← read
      match (σ.stripes[i]?).bind fun s =>
        s.lane.window.buffered.lookup s.lane.window.expectedSeq with
      | none => complete
      | some p => do
          changeLane i Lane.unkeep
          let all ← acceptStripedReceivePacket i p
          if all then pure true else acceptBuffered i fuel

/-- `processStripedReceivePacket` up to its `markAck`. -/
def takeIn (i : Nat) (s : Stripe) (p : Packet) : Recv Bool :=
  let expectedSeq := s.lane.window.expectedSeq
  if p.seq = expectedSeq then do
    let all ← acceptStripedReceivePacket i p
    if all then pure true else acceptBuffered i (s.lane.window.buffered.entries.length + 1)
  else if expectedSeq < p.seq ∧ p.seq ≤ expectedSeq + maxBufferedPackets then do
    changeLane i (Lane.keep · p)
    complete
  else complete

def processStripedReceivePacket (i : Nat) (s : Stripe) (p : Packet) : Recv Bool := do
  let all ← takeIn i s p
  changeLane i (Lane.markAck · 1)
  pure all

/-- An acknowledgement of the stripe goes out after some packets or after some time. -/
def sendDelayedAck (i : Nat) (late : Bool) : Recv Unit :=
  changeLane i fun l =>
    if delayedAckPackets ≤ l.window.packetsSinceAck ∨ late then l.sendPendingAck else l

def sendStripedPendingAcks : Recv Unit :=
  update fun σ => { σ with
    stripes := σ.stripes.mapIdx fun _ (s : Stripe) => ⟨s.lane.sendPendingAck, s.done⟩ }

/-- All was received: the receiver returns. -/
def finish (all : Bool) : Recv Unit :=
  if all then do
    sendStripedPendingAcks
    update fun τ => { τ with received := some true }
  else pure ()

/-- A packet of a known stripe. -/
def receivePacket (s : Stripe) (p : Packet) (late : Bool) : Recv Unit := do
  let all ← processStripedReceivePacket p.stripeID s p
  sendDelayedAck p.stripeID late
  finish all

section

variable (σ : StripedTransfer)

/-- The network delivers a packet of a stripe, and `late` says that the last acknowledgement of
that stripe is a while ago. -/
def deliver (i k : Nat) (late : Bool) : Option StripedTransfer :=
  if σ.received = none then
    match (σ.stripes[i]?).bind fun s => s.lane.wire[k]? with
    | none => none
    | some p =>
        match σ.stripes[p.stripeID]? with
        | none => some σ
        | some s =>
            match exec (receivePacket s p late) σ with
            | (.ok _, τ) => some τ
            | (.error _, τ) => some { τ with received := some false }
  else none

/-- The read timed out. -/
def receiveTimeout : Option StripedTransfer :=
  if σ.received = none then some (exec sendStripedPendingAcks σ).2 else none

def cancelReceive : Option StripedTransfer :=
  if σ.received = none then some { σ with received := some false } else none

end

inductive Label where
  | next (plan : ReadPlan)
  | write (ok grace : Bool)
  | acks (batch : List (Nat × Nat))
  | timeout (expired : Nat → List Nat)
  | cancelSend
  | deliver (i k : Nat) (late : Bool)
  | receiveTimeout
  | cancelReceive

def step (σ : StripedTransfer) : Label → Option StripedTransfer
  | .next plan => σ.next plan
  | .write ok grace => σ.write ok grace
  | .acks batch => σ.acks batch
  | .timeout expired => σ.timeout expired
  | .cancelSend => σ.cancelSend
  | .deliver i k late => σ.deliver i k late
  | .receiveTimeout => σ.receiveTimeout
  | .cancelReceive => σ.cancelReceive

/-! ## What the stripes keep -/

/-- A packet holds what the source has at its offset. -/
def Carries (S : List UInt8) (p : Packet) : Prop :=
  (p.type = .data → SliceAt S p.offset p.payload) ∧ (p.type = .done → p.offset = S.length)

/-- A stripe is sound, and its packets come from the source. -/
structure StripeSound (S : List UInt8) (i : Nat) (s : Stripe) : Prop where
  lane : LaneSound s.lane
  id : s.lane.state.stripeID = i
  carries : ∀ p ∈ s.lane.sent, Carries S p

/-- Every Data packet of the stripe was taken in. -/
def Settled (s : Stripe) : Prop :=
  ∀ p ∈ s.lane.sent, p.type = .data → p ∈ s.lane.taken

structure Sound (S : List UInt8) (σ : StripedTransfer) : Prop where
  source : σ.source.Sound S
  stripes : Each (StripeSound S) σ.stripes
  settled : σ.sendPhase = .succeeded → Each (fun _ => Settled) σ.stripes

/-- The receiver has written the source up to `nextOffset`. -/
structure Receiving (S : List UInt8) (σ : StripedTransfer) : Prop where
  sound : Sound S σ
  running : σ.received = none
  offset_le : σ.nextOffset ≤ S.length
  out : σ.dst.out = S.take σ.nextOffset
  pending : σ.pendingOutput.All fun offset payload => SliceAt S offset payload
  total : ∀ total, σ.finalTotal = some total → total = S.length

/-- The destination is a prefix, whatever became of the receiver. -/
structure Prefixed (S : List UInt8) (σ : StripedTransfer) : Prop where
  sound : Sound S σ
  dst_prefix : σ.dst.out <+: S

/-- All was written. -/
structure Complete (S : List UInt8) (σ : StripedTransfer) : Prop where
  sound : Sound S σ
  dst_eq : σ.dst.out = S

def Inv (S : List UInt8) (σ : StripedTransfer) : Prop :=
  match σ.received with
  | none => Receiving S σ
  | some true => Complete S σ
  | some false => Prefixed S σ

variable {S : List UInt8} {σ τ : StripedTransfer} {p : Packet}

theorem Receiving.prefixed (h : Receiving S σ) : Prefixed S σ :=
  ⟨h.sound, by rw [h.out]; exact List.take_prefix _ _⟩

theorem Inv.of_receiving (h : Receiving S σ) : Inv S σ := by
  unfold Inv
  rw [h.running]
  exact h

theorem Inv.of_complete (hr : σ.received = some true) (h : Complete S σ) : Inv S σ := by
  unfold Inv
  rw [hr]
  exact h

theorem Inv.of_prefixed (hr : σ.received = some false) (h : Prefixed S σ) : Inv S σ := by
  unfold Inv
  rw [hr]
  exact h

theorem Inv.sound (h : Inv S σ) : Sound S σ := by
  unfold Inv at h
  split at h
  · exact h.sound
  · exact h.sound
  · exact h.sound

theorem Inv.dst_prefix (h : Inv S σ) : σ.dst.out <+: S := by
  unfold Inv at h
  split at h
  · exact h.prefixed.dst_prefix
  · exact h.dst_eq ▸ List.prefix_refl _
  · exact h.dst_prefix

theorem Inv.init (S : List UInt8) (parallel chunkSize windowSize : Int)
    (fails : Option (Nat × Nat)) : Inv S (init S parallel chunkSize windowSize fails) where
  sound :=
    { source := Source.Sound.init S
      stripes := fun i s hs => by
        obtain ⟨j, hj, rfl⟩ := Option.map_eq_some_iff.mp (List.getElem?_map ▸ hs)
        have hji : j = i := by
          obtain ⟨hlt, hget⟩ := List.getElem?_eq_some_iff.mp hj
          rw [List.getElem_range] at hget
          exact hget.symm
        exact ⟨LaneSound.init _ _ _, hji, fun p hp => by cases hp⟩
      settled := fun h => by cases h }
  running := rfl
  offset_le := Nat.zero_le _
  out := rfl
  pending := Map.All.empty
  total := fun _ h => by cases h

/-! ## Steps of the sender -/

/-- A step of the sender leaves the receiver alone. -/
theorem Inv.sender (h : Inv S σ) {source : Source} {stripes : List Stripe} {phase : StripedPhase}
    (hτ : Sound S { σ with source := source, stripes := stripes, sendPhase := phase }) :
    Inv S { σ with source := source, stripes := stripes, sendPhase := phase } := by
  unfold Inv at h
  split at h
  next hr => exact Inv.of_receiving ⟨hτ, hr, h.offset_le, h.out, h.pending, h.total⟩
  next hr => exact Inv.of_complete hr ⟨hτ, h.dst_eq⟩
  next hr => exact Inv.of_prefixed hr ⟨hτ, h.dst_prefix⟩

/-- The sender goes on to a phase in which it has not succeeded. -/
theorem Inv.phase (h : Inv S σ) {phase : StripedPhase} (hne : phase ≠ .succeeded) :
    Inv S { σ with sendPhase := phase } :=
  h.sender ⟨h.sound.source, h.sound.stripes, fun hs => absurd hs hne⟩

theorem Inv.loop (h : Inv S σ) : Inv S σ.loop := by
  unfold StripedTransfer.loop
  refine h.phase ?_
  split
  · exact StripedPhase.noConfusion
  · exact StripedPhase.noConfusion

/-- The windows change. -/
theorem Inv.flight (h : Inv S σ) {stripes : List Stripe} {phase : StripedPhase}
    (hs : Each (StripeSound S) stripes)
    (hphase : phase ≠ .succeeded) : Inv S { σ with stripes := stripes, sendPhase := phase } :=
  h.sender ⟨h.sound.source, hs, fun hsucc => absurd hsucc hphase⟩

theorem StripeSound.flight {i : Nat} {s : Stripe} (h : StripeSound S i s) {l : Lane} (hl : LaneSound l)
    (hid : l.state.stripeID = s.lane.state.stripeID) (hsent : l.sent = s.lane.sent) (done : Bool) :
    StripeSound S i ⟨l, done⟩ :=
  ⟨hl, hid.trans h.id, fun p hp => h.carries p (hsent ▸ hp)⟩

/-- A stripe produces a packet. -/
theorem Inv.queue (h : Inv S σ) {i : Nat} {s : Stripe} (hs : σ.stripes[i]? = some s)
    {plan : ReadPlan} {state : SenderState} {source : Source}
    (hnext : s.lane.state.nextOutboundPacket σ.source plan = .ok (some p, state, source))
    {phase : StripedPhase} (hphase : phase ≠ .succeeded) :
    Inv S
      { σ with
        source := source
        stripes := σ.stripes.modify i fun s => ⟨s.lane.queue state p, s.done⟩
        sendPhase := phase } := by
  have hsound := h.sound
  obtain ⟨hlane, hid, hcarries⟩ := hsound.stripes i s hs
  -- what the new packet adds to its stripe
  have hstripe : Carries S p → LaneSound (s.lane.queue state p) →
      state.stripeID = s.lane.state.stripeID →
      Each (StripeSound S) (σ.stripes.modify i fun s => ⟨s.lane.queue state p, s.done⟩) := by
    intro hp hl hstate
    refine hsound.stripes.modify (fun _ _ h => h) fun a ha _ => ?_
    rw [hs] at ha
    cases ha
    refine ⟨hl, hstate.trans hid, fun q hq => ?_⟩
    rcases List.mem_append.mp hq with hq | hq
    · exact hcarries q hq
    · rw [List.mem_singleton.mp hq]
      exact hp
  refine h.sender ?_
  rcases nextOutboundPacket_cases hnext with ⟨hr, -⟩ | hdata | hdone
  · cases hr
  · obtain ⟨payload, err, hr, hopen, -, hpre, hend, rfl, rfl⟩ := hdata
    cases hr
    obtain ⟨hslice, hsource⟩ := hsound.source.gave hpre hend
    exact ⟨hsource, hstripe ⟨fun _ => hslice, fun hd => by cases hd⟩
      (hlane.queue rfl rfl rfl hopen rfl rfl (.inl rfl)) rfl, fun hsucc => absurd hsucc hphase⟩
  · obtain ⟨hr, hopen, hend, rfl, rfl⟩ := hdone
    cases hr
    have hsource := hsound.source.ends hend
    exact ⟨hsource, hstripe ⟨fun hd => (by cases hd), fun _ => hsource.offset_eq rfl⟩
      (hlane.queue rfl rfl rfl hopen rfl rfl (.inr ⟨rfl, rfl, rfl⟩)) rfl,
      fun hsucc => absurd hsucc hphase⟩

theorem Inv.next (h : Inv S σ) {plan : ReadPlan} (hstep : σ.next plan = some τ) : Inv S τ := by
  unfold StripedTransfer.next at hstep
  split at hstep
  next i progress hphase =>
    split at hstep
    · cases hstep
      refine h.phase ?_
      split
      · exact StripedPhase.noConfusion
      · exact StripedPhase.noConfusion
    next s hs =>
      split at hstep
      · cases hstep
        exact h.phase StripedPhase.noConfusion
      · split at hstep
        · cases hstep
          exact h.phase StripedPhase.noConfusion
        · cases hstep
          exact h.phase StripedPhase.noConfusion
        next hnext =>
          cases hstep
          exact h.queue hs hnext StripedPhase.noConfusion
  · cases hstep

/-- The sender succeeds once nothing but Done packets is in flight. -/
theorem Inv.settle (h : Inv S σ) (grace : Bool) : Inv S (σ.settle grace) := by
  unfold StripedTransfer.settle
  split
  next hdone =>
    rw [Bool.and_eq_true, Bool.or_eq_true] at hdone
    refine h.sender ⟨h.sound.source, h.sound.stripes, fun _ i s hs => ?_⟩
    have hmem := List.mem_of_getElem? hs
    refine (h.sound.stripes i s hs).lane.data_taken ?_
    rcases hdone.2 with hidle | hsettled
    · exact SenderState.lookup_of_isEmpty (List.all_eq_true.mp hidle s hmem)
    · exact SenderState.lookup_of_settled (List.all_eq_true.mp hsettled s hmem)
  · split
    · exact h.loop
    · exact h.phase StripedPhase.noConfusion

theorem Inv.write (h : Inv S σ) {ok grace : Bool} (hstep : σ.write ok grace = some τ) :
    Inv S τ := by
  unfold StripedTransfer.write at hstep
  split at hstep
  next hphase =>
    have hne : σ.sendPhase ≠ .succeeded := fun hs => StripedPhase.noConfusion (hphase.symm.trans hs)
    have hwrite : Inv S
        { σ with stripes := σ.stripes.mapIdx fun _ (s : Stripe) => ⟨s.lane.writeBatch, s.done⟩ } :=
      h.flight (h.sound.stripes.mapIdx fun _ s hs => hs.flight hs.lane.writeBatch rfl rfl s.done) hne
    dsimp only at hstep
    split at hstep
    · cases hstep
      exact hwrite.settle grace
    · cases hstep
      exact hwrite.phase StripedPhase.noConfusion
  · cases hstep

theorem StripeSound.applyAckPacket {i : Nat} {s : Stripe} (h : StripeSound S i s) (k : Nat) :
    StripeSound S i (applyAckPacket k s) := by
  unfold StripedTransfer.applyAckPacket
  split
  · exact h
  next ack hk =>
    split
    · exact h.flight (h.lane.applyAck (List.mem_of_getElem? hk) _) rfl rfl s.done
    · exact h

theorem applyAckBatch_spec (batch : List (Nat × Nat)) {stripes : List Stripe}
    (h : Each (StripeSound S) stripes) :
    Each (StripeSound S)
      (batch.foldl (fun ss (e : Nat × Nat) => ss.modify e.1 (applyAckPacket e.2)) stripes) := by
  induction batch generalizing stripes with
  | nil => exact h
  | cons e batch ih =>
      rw [List.foldl_cons]
      exact ih (h.modify (fun _ _ h => h) fun _ _ hs => hs.applyAckPacket e.2)

theorem Inv.acks (h : Inv S σ) {batch : List (Nat × Nat)} (hstep : σ.acks batch = some τ) :
    Inv S τ := by
  unfold StripedTransfer.acks at hstep
  split at hstep
  next hphase =>
    have hne : σ.sendPhase ≠ .succeeded := fun hs => StripedPhase.noConfusion (hphase.symm.trans hs)
    cases hstep
    exact (h.flight (applyAckBatch_spec batch h.sound.stripes) hne).loop
  · cases hstep

theorem Inv.timeout (h : Inv S σ) {expired : Nat → List Nat}
    (hstep : σ.timeout expired = some τ) : Inv S τ := by
  unfold StripedTransfer.timeout at hstep
  split at hstep
  next hphase =>
    have hne : σ.sendPhase ≠ .succeeded := fun hs => StripedPhase.noConfusion (hphase.symm.trans hs)
    cases hstep
    refine (h.flight (h.sound.stripes.mapIdx fun i s hs => ?_) hne).loop
    exact hs.flight (hs.lane.retransmitExpired _) rfl rfl s.done
  · cases hstep

theorem Inv.cancelSend (h : Inv S σ) (hstep : σ.cancelSend = some τ) : Inv S τ := by
  unfold StripedTransfer.cancelSend at hstep
  split at hstep
  · cases hstep
  · cases hstep
    exact h.phase StripedPhase.noConfusion

/-! ## Steps of the receiver -/

/-- The receiver changes a stripe: it takes in more, and leaves the sender alone. -/
structure ByReceiver (l l' : Lane) : Prop where
  state : l'.state = l.state
  sent : l'.sent = l.sent
  taken : ∀ q ∈ l.taken, q ∈ l'.taken
  sound : LaneSound l → LaneSound l'

theorem ByReceiver.sendPendingAck (l : Lane) : ByReceiver l l.sendPendingAck := by
  refine ⟨?_, ?_, ?_, LaneSound.sendPendingAck⟩ <;> unfold Lane.sendPendingAck <;> split
  · rfl
  · rfl
  · rfl
  · rfl
  · exact fun q hq => hq
  · exact fun q hq => hq

theorem StripeSound.byReceiver {i : Nat} {s s' : Stripe} (h : StripeSound S i s)
    (hs : ByReceiver s.lane s'.lane) : StripeSound S i s' :=
  ⟨hs.sound h.lane, by rw [hs.state]; exact h.id, fun p hp => h.carries p (hs.sent ▸ hp)⟩

theorem Settled.byReceiver {s s' : Stripe} (h : Settled s) (hs : ByReceiver s.lane s'.lane) :
    Settled s' :=
  fun p hp hd => hs.taken p (h p (hs.sent ▸ hp) hd)

theorem Sound.changeStripe (h : Sound S σ) {i : Nat} {f : Stripe → Stripe}
    (hf : ∀ s, σ.stripes[i]? = some s → ByReceiver s.lane (f s).lane) :
    Sound S { σ with stripes := σ.stripes.modify i f } :=
  ⟨h.source, h.stripes.modify (fun _ _ h => h) fun s hs hsound => hsound.byReceiver (hf s hs),
    fun hsucc => (h.settled hsucc).modify (fun _ _ h => h) fun s hs hset => hset.byReceiver (hf s hs)⟩

theorem Receiving.changeStripe (h : Receiving S σ) {i : Nat} {f : Stripe → Stripe}
    (hf : ∀ s, σ.stripes[i]? = some s → ByReceiver s.lane (f s).lane) :
    Receiving S { σ with stripes := σ.stripes.modify i f } :=
  ⟨h.sound.changeStripe hf, h.running, h.offset_le, h.out, h.pending, h.total⟩

/-- The destination and what is kept for it change. -/
theorem Receiving.output (h : Receiving S σ) {dst : Writer} {nextOffset : Nat}
    {pending : Map Nat (List UInt8)} (hle : nextOffset ≤ S.length)
    (hout : dst.out = S.take nextOffset)
    (hpending : pending.All fun offset payload => SliceAt S offset payload) :
    Receiving S { σ with dst := dst, nextOffset := nextOffset, pendingOutput := pending } :=
  ⟨⟨h.sound.source, h.sound.stripes, h.sound.settled⟩, h.running, hle, hout, hpending, h.total⟩

section

variable {F : List Stripe → Prop}

/-- The next piece is written, or the receiver fails with part of it written. -/
theorem writeStripedPayload_spec (payload : List UInt8) :
    Triple (fun σ => (Receiving S σ ∧ F σ.stripes) ∧ SliceAt S σ.nextOffset payload)
      (writeStripedPayload payload) (fun _ σ => Receiving S σ ∧ F σ.stripes)
      fun _ => Prefixed S := by
  refine Triple.read_bind fun σ hσ => ?_
  obtain ⟨⟨h, hF⟩, hslice⟩ := hσ
  refine Triple.bind (Triple.update (Q := fun _ τ =>
    τ = { σ with dst := (σ.dst.write payload).1 }) fun τ hτ => by rw [hτ]) fun _ => ?_
  refine Triple.ite (fun hok => Triple.update fun τ hτ => ?_) fun _ => Triple.fail fun τ hτ => ?_
  · rw [hτ]
    refine ⟨h.output hslice.end_le ?_ h.pending, hF⟩
    rw [Writer.write_ok hok, h.out, hslice.take_append]
  · rw [hτ]
    refine ⟨⟨h.sound.source, h.sound.stripes, h.sound.settled⟩, ?_⟩
    have hnext := take_append_prefix hslice
    rw [← h.out] at hnext
    exact (σ.dst.write_prefix payload).trans hnext

theorem flushStripedPendingPayloads_spec (fuel : Nat) :
    Triple (fun σ => Receiving S σ ∧ F σ.stripes) (flushStripedPendingPayloads fuel)
      (fun _ σ => Receiving S σ ∧ F σ.stripes) fun _ => Prefixed S := by
  induction fuel with
  | zero => exact Triple.pure fun _ h => h
  | succ fuel ih =>
      refine Triple.read_bind fun σ hσ => ?_
      cases hl : σ.pendingOutput.lookup σ.nextOffset with
      | none => exact Triple.pure fun _ hτ => hτ ▸ hσ
      | some payload =>
          refine Triple.bind (Triple.update fun τ hτ => ?_) fun _ =>
            Triple.bind (writeStripedPayload_spec payload) fun _ => ih
          rw [hτ]
          exact ⟨⟨hσ.1.output hσ.1.offset_le hσ.1.out (hσ.1.pending.erase _), hσ.2⟩,
            hσ.1.pending _ payload hl⟩

/-- The payload of a Data packet is written or kept under its offset. -/
theorem acceptData_spec (hp : SliceAt S p.offset p.payload) :
    Triple (fun σ => Receiving S σ ∧ F σ.stripes) (acceptData p)
      (fun _ σ => Receiving S σ ∧ F σ.stripes) fun _ => Prefixed S := by
  refine Triple.read_bind fun σ hσ => Triple.ite (fun _ => ?_) fun _ =>
    Triple.ite (fun hnow => ?_) fun _ => Triple.ite (fun _ => ?_) fun _ => ?_
  · exact Triple.pure fun _ hτ => hτ ▸ hσ
  · refine Triple.bind ?_ fun _ => flushStripedPendingPayloads_spec _
    exact (writeStripedPayload_spec p.payload).conseq (fun _ hτ => hτ ▸ ⟨hσ, hnow ▸ hp⟩)
      (fun _ _ h => h) fun _ _ h => h
  · cases hl : σ.pendingOutput.lookup p.offset with
    | some _ => exact Triple.pure fun _ hτ => hτ ▸ hσ
    | none =>
        refine Triple.update fun τ hτ => ?_
        rw [hτ]
        exact ⟨hσ.1.output hσ.1.offset_le hσ.1.out (hσ.1.pending.insert hp), hσ.2⟩
  · exact Triple.pure fun _ hτ => hτ ▸ hσ

end

/-- The packet is the next one of its stripe. -/
def Next (i : Nat) (p : Packet) (stripes : List Stripe) : Prop :=
  ∃ s, stripes[i]? = some s ∧ p ∈ s.lane.sent ∧ p.seq = s.lane.window.expectedSeq

theorem Next.modify {i : Nat} {stripes : List Stripe} (h : Next i p stripes) {f : Stripe → Stripe}
    (hf : ∀ s, (f s).lane.sent = s.lane.sent ∧
      (f s).lane.window.expectedSeq = s.lane.window.expectedSeq) :
    Next i p (stripes.modify i f) := by
  obtain ⟨s, hs, hp, hseq⟩ := h
  refine ⟨f s, ?_, (hf s).1 ▸ hp, hseq.trans (hf s).2.symm⟩
  rw [List.getElem?_modify, hs]
  simp

theorem countDone_spec (i : Nat) {E : RecvErr → StripedTransfer → Prop} :
    Triple (fun σ => Receiving S σ ∧ Next i p σ.stripes) (countDone i)
      (fun _ σ => Receiving S σ ∧ Next i p σ.stripes) E := by
  refine Triple.read_bind fun σ hσ => ?_
  obtain ⟨h, hnext⟩ := hσ
  split
  · refine Triple.bind (Q := fun _ τ => Receiving S τ ∧ Next i p τ.stripes)
      (Triple.update fun τ hτ => ?_) fun _ => Triple.update fun τ hτ => ?_
    · rw [hτ]
      exact ⟨h.changeStripe fun s _ => ⟨rfl, rfl, fun _ hq => hq, fun hl => hl⟩,
        hnext.modify fun _ => ⟨rfl, rfl⟩⟩
    · obtain ⟨h, hnext⟩ := hτ
      exact ⟨⟨⟨h.sound.source, h.sound.stripes, h.sound.settled⟩, h.running, h.offset_le, h.out,
        h.pending, h.total⟩, hnext⟩
  · exact Triple.pure fun _ hτ => hτ ▸ ⟨h, hnext⟩

/-- The Done packets agree on the length of the source. -/
theorem agreeTotal_spec {F : List Stripe → Prop} {E : RecvErr → StripedTransfer → Prop} :
    Triple (fun σ => Receiving S σ ∧ F σ.stripes) (agreeTotal S.length)
      (fun _ σ => Receiving S σ ∧ F σ.stripes) E := by
  refine Triple.read_bind fun σ hσ => ?_
  obtain ⟨h, hF⟩ := hσ
  cases hf : σ.finalTotal with
  | none =>
      refine Triple.update fun τ hτ => ?_
      rw [hτ]
      refine ⟨⟨⟨h.sound.source, h.sound.stripes, h.sound.settled⟩, h.running, h.offset_le, h.out,
        h.pending, fun total ht => ?_⟩, hF⟩
      cases ht
      rfl
  | some total =>
      refine Triple.ite (fun _ => Triple.pure fun _ hτ => hτ ▸ ⟨h, hF⟩) fun hne => ?_
      exact absurd (h.total total hf) hne

theorem pass_spec (i : Nat) (p : Packet) {E : RecvErr → StripedTransfer → Prop} :
    Triple (fun σ => Receiving S σ ∧ Next i p σ.stripes) (changeLane i (Lane.pass · p))
      (fun _ => Receiving S) E := by
  refine Triple.update fun σ hσ => ?_
  obtain ⟨h, s, hs, hp, hseq⟩ := hσ
  refine h.changeStripe fun s' hs' => ?_
  rw [hs] at hs'
  cases hs'
  exact ⟨rfl, rfl, fun q hq => List.mem_append_left _ hq, fun hl => hl.pass hp hseq⟩

theorem accept_spec (i : Nat) (p : Packet) :
    Triple (fun σ => Receiving S σ ∧ Next i p σ.stripes) (accept i p) (fun _ => Receiving S)
      fun _ => Prefixed S := by
  refine Triple.of_eq fun σ hσ => ?_
  obtain ⟨s, hs, hp, -⟩ := hσ.2
  have hcarries := (hσ.1.sound.stripes i s hs).carries p hp
  refine Triple.conseq (P := fun σ => Receiving S σ ∧ Next i p σ.stripes) ?_
    (fun _ hτ => hτ ▸ hσ) (fun _ _ h => h) fun _ _ h => h
  unfold accept
  split
  next htype =>
    exact Triple.bind (acceptData_spec (hcarries.1 htype)) fun _ => pass_spec i p
  next htype =>
    refine Triple.bind (countDone_spec i) fun _ => Triple.bind ?_ fun _ => pass_spec i p
    rw [hcarries.2 htype]
    exact agreeTotal_spec
  · exact Triple.pure fun _ h => h.1

/-- The receiver goes on, or has all. -/
structure Outcome (S : List UInt8) (all : Bool) (σ : StripedTransfer) : Prop where
  receiving : Receiving S σ
  dst_eq : all = true → σ.dst.out = S

theorem complete_spec {E : RecvErr → StripedTransfer → Prop} :
    Triple (Receiving S) complete (Outcome S) E := by
  refine Triple.read_bind fun σ h => Triple.pure fun τ hτ => ?_
  rw [hτ]
  refine ⟨h, fun hall => ?_⟩
  unfold stripedReceiveComplete at hall
  rw [Bool.and_eq_true, decide_eq_true_eq] at hall
  rw [h.out, h.total _ hall.1, List.take_length]

theorem acceptStripedReceivePacket_spec (i : Nat) (p : Packet) :
    Triple (fun σ => Receiving S σ ∧ Next i p σ.stripes) (acceptStripedReceivePacket i p)
      (Outcome S) fun _ => Prefixed S :=
  Triple.bind (accept_spec i p) fun _ => complete_spec

theorem acceptBuffered_spec (i fuel : Nat) :
    Triple (Receiving S) (acceptBuffered i fuel) (Outcome S) fun _ => Prefixed S := by
  induction fuel with
  | zero => exact complete_spec
  | succ fuel ih =>
      refine Triple.read_bind fun σ h => ?_
      split
      · exact complete_spec.conseq (fun _ hτ => hτ ▸ h) (fun _ _ h => h) fun _ _ h => h
      next p hl =>
        obtain ⟨s, hs, hlook⟩ := Option.bind_eq_some_iff.mp hl
        have hlane := (h.sound.stripes i s hs).lane
        obtain ⟨htaken, hseq⟩ := hlane.kept _ p hlook
        refine Triple.bind (Triple.update fun τ hτ => ?_) fun _ =>
          Triple.bind (acceptStripedReceivePacket_spec i p) fun all => ?_
        · rw [hτ]
          refine ⟨h.changeStripe fun s _ =>
            ⟨rfl, rfl, fun _ hq => hq, fun hl => hl.unkeep⟩, ?_⟩
          exact Next.modify ⟨s, hs, hlane.taken p htaken, hseq⟩ fun _ => ⟨rfl, rfl⟩
        · cases all with
          | true => exact Triple.pure fun _ h => h
          | false => exact ih.conseq (fun _ h => h.receiving) (fun _ _ h => h) fun _ _ h => h

theorem takeIn_spec {i : Nat} {s : Stripe} (h : Receiving S σ) (hs : σ.stripes[i]? = some s)
    (hp : p ∈ s.lane.sent) :
    Triple (· = σ) (takeIn i s p) (Outcome S) fun _ => Prefixed S := by
  unfold takeIn
  refine Triple.ite (fun hseq => ?_) fun _ => Triple.ite (fun _ => ?_) fun _ => ?_
  · refine Triple.bind ((acceptStripedReceivePacket_spec i p).conseq
      (fun _ hτ => hτ ▸ ⟨h, s, hs, hp, hseq⟩) (fun _ _ h => h) fun _ _ h => h) fun all => ?_
    cases all with
    | true => exact Triple.pure fun _ h => h
    | false =>
        exact (acceptBuffered_spec i _).conseq (fun _ h => h.receiving) (fun _ _ h => h)
          fun _ _ h => h
  · refine Triple.bind (Triple.update fun τ hτ => ?_) fun _ => complete_spec
    rw [hτ]
    refine h.changeStripe fun s' hs' => ?_
    rw [hs] at hs'
    cases hs'
    exact ⟨rfl, rfl, fun q hq => List.mem_append_left _ hq, fun hl => hl.keep hp⟩
  · exact complete_spec.conseq (fun _ hτ => hτ ▸ h) (fun _ _ h => h) fun _ _ h => h

/-- Acknowledgements and their bookkeeping. -/
theorem Outcome.changeLane {all : Bool} (i : Nat) {f : Lane → Lane}
    (hf : ∀ l, ByReceiver l (f l)) {E : RecvErr → StripedTransfer → Prop} :
    Triple (Outcome S all) (changeLane i f) (fun _ => Outcome S all) E :=
  Triple.update fun _ h => ⟨h.receiving.changeStripe fun s _ => hf s.lane, h.dst_eq⟩

theorem sendStripedPendingAcks_spec {all : Bool} {E : RecvErr → StripedTransfer → Prop} :
    Triple (Outcome S all) sendStripedPendingAcks (fun _ => Outcome S all) E := by
  refine Triple.update fun σ h => ?_
  obtain ⟨⟨hs, hr, hle, hout, hpending, htotal⟩, heq⟩ := h
  refine ⟨⟨⟨hs.source, ?_, fun hsucc => ?_⟩, hr, hle, hout, hpending, htotal⟩, heq⟩
  · exact hs.stripes.mapIdx fun _ s h => h.byReceiver (ByReceiver.sendPendingAck s.lane)
  · exact (hs.settled hsucc).mapIdx fun _ s h => h.byReceiver (ByReceiver.sendPendingAck s.lane)

theorem finish_spec {all : Bool} {E : RecvErr → StripedTransfer → Prop} :
    Triple (Outcome S all) (finish all) (fun _ => Inv S) E := by
  cases all with
  | true =>
      refine Triple.bind sendStripedPendingAcks_spec fun _ => Triple.update fun σ h => ?_
      have hs := h.receiving.sound
      exact Inv.of_complete rfl ⟨⟨hs.source, hs.stripes, hs.settled⟩, h.dst_eq rfl⟩
  | false => exact Triple.pure fun _ h => Inv.of_receiving h.receiving

theorem receivePacket_spec {s : Stripe} (h : Receiving S σ)
    (hs : σ.stripes[p.stripeID]? = some s) (hp : p ∈ s.lane.sent) (late : Bool) :
    Triple (· = σ) (receivePacket s p late) (fun _ => Inv S) fun _ => Prefixed S := by
  refine Triple.bind (Triple.bind (takeIn_spec h hs hp) fun all => Triple.bind
    (Outcome.changeLane _ (f := fun l => l.markAck 1) fun _ =>
      ⟨rfl, rfl, fun _ hq => hq, fun hl => hl.markAck 1⟩)
    fun _ => Triple.pure fun _ h => h) fun all => ?_
  refine Triple.bind (Outcome.changeLane _ fun l => ?_) fun _ => finish_spec
  split
  · exact ByReceiver.sendPendingAck l
  · exact ⟨rfl, rfl, fun _ hq => hq, fun hl => hl⟩

theorem Prefixed.inv (h : Prefixed S σ) : Inv S { σ with received := some false } :=
  Inv.of_prefixed rfl ⟨⟨h.sound.source, h.sound.stripes, h.sound.settled⟩, h.dst_prefix⟩

theorem Inv.receiving (h : Inv S σ) (hr : σ.received = none) : Receiving S σ := by
  unfold Inv at h
  rw [hr] at h
  exact h

theorem Inv.deliver (h : Inv S σ) {i k : Nat} {late : Bool}
    (hstep : σ.deliver i k late = some τ) : Inv S τ := by
  unfold StripedTransfer.deliver at hstep
  split at hstep
  next hr =>
    have hrecv := h.receiving hr
    split at hstep
    · cases hstep
    next p hl =>
      obtain ⟨s, hs, hk⟩ := Option.bind_eq_some_iff.mp hl
      have hsound := hrecv.sound.stripes i s hs
      have hp : p ∈ s.lane.sent := LaneSound.mem_of_wire (List.mem_of_getElem? hk)
      -- the packet names the stripe that produced it
      have hid : p.stripeID = i := ((hsound.lane.numbered _ p (hsound.lane.getElem? hp)).2).trans hsound.id
      rw [hid, hs] at hstep
      dsimp only at hstep
      have hspec := receivePacket_spec hrecv (by rw [hid]; exact hs) hp late σ rfl
      split at hstep
      next hrun =>
        rw [hrun] at hspec
        cases hstep
        exact hspec
      next hrun =>
        rw [hrun] at hspec
        cases hstep
        exact hspec.inv
  · cases hstep

theorem Inv.receiveTimeout (h : Inv S σ) (hstep : σ.receiveTimeout = some τ) : Inv S τ := by
  unfold StripedTransfer.receiveTimeout at hstep
  split at hstep
  next hr =>
    cases hstep
    have hout : Outcome S false σ := ⟨h.receiving hr, fun hf => (by cases hf)⟩
    exact Inv.of_receiving
      ((sendStripedPendingAcks_spec (E := fun _ => Outcome S false)).state hout).receiving
  · cases hstep

theorem Inv.cancelReceive (h : Inv S σ) (hstep : σ.cancelReceive = some τ) : Inv S τ := by
  unfold StripedTransfer.cancelReceive at hstep
  split at hstep
  · cases hstep
    exact Prefixed.inv ⟨h.sound, h.dst_prefix⟩
  · cases hstep

theorem Inv.step (σ : StripedTransfer) (a : Label) (τ : StripedTransfer) (h : Inv S σ)
    (hstep : σ.step a = some τ) : Inv S τ := by
  cases a with
  | next plan => exact h.next hstep
  | write ok grace => exact h.write hstep
  | acks batch => exact h.acks hstep
  | timeout expired => exact h.timeout hstep
  | cancelSend => exact h.cancelSend hstep
  | deliver i k late => exact h.deliver hstep
  | receiveTimeout => exact h.receiveTimeout hstep
  | cancelReceive => exact h.cancelReceive hstep

/-! ## The transfer -/

/-- Whatever the network loses, repeats or reorders and however the source falls on the stripes,
the destination is a prefix of the source, the receiver ends with all of it, and the sender
succeeds only after the receiver took in every Data packet of every stripe. -/
theorem striped_reliable_transfer (S : List UInt8) (parallel chunkSize windowSize : Int)
    (fails : Option (Nat × Nat)) (run : List Label) {σ : StripedTransfer}
    (hrun : runFrom step (init S parallel chunkSize windowSize fails) run = some σ) :
    σ.dst.out <+: S ∧ (σ.received = some true → σ.dst.out = S) ∧
      (σ.sendPhase = .succeeded →
        ∀ s ∈ σ.stripes, ∀ p ∈ s.lane.sent, p.type = .data → p ∈ s.lane.taken) := by
  have h : Inv S σ :=
    runFrom_invariant Inv.step run (Inv.init S parallel chunkSize windowSize fails) hrun
  refine ⟨h.dst_prefix, fun hr => ?_, fun hsucc s hs => ?_⟩
  · unfold Inv at h
    rw [hr] at h
    exact h.dst_eq
  · obtain ⟨i, hi⟩ := (h.sound.settled hsucc).mem hs
    exact hi

/-- The rounds of `fillStripedSendWindows` in which the source has nothing. -/
def idleRounds (n : Nat) : List Label := List.replicate n (.next ⟨0, none⟩)

/-- Three pieces over two stripes.  The first piece arrives last, after it expired. -/
def twoStripesRun : List Label :=
  ([.next ⟨1, none⟩, .next ⟨1, none⟩, .next ⟨0, none⟩, .next ⟨1, some .eof⟩] : List Label) ++
  idleRounds 8 ++
  ([.write true false, .deliver 1 0 true, .deliver 0 1 true, .deliver 1 1 true,
    .acks [(0, 0), (1, 1)]] : List Label) ++ idleRounds 3 ++
  ([.write true false, .timeout fun _ => [0]] : List Label) ++ idleRounds 3 ++
  ([.write true false, .deliver 0 0 true, .deliver 0 2 true, .acks [(0, 1), (1, 2), (0, 2)]] :
    List Label) ++
  idleRounds 3 ++ [Label.write true false]

theorem twoStripesRun_succeeds :
    (runFrom step (init [1, 2, 3] 2 1 4 none) twoStripesRun).any (fun σ =>
      decide (σ.sendPhase = .succeeded ∧ σ.received = some true)) = true := by
  decide +kernel

theorem striped_reliable_transfer_two_stripes :
    ∃ σ, runFrom step (init [1, 2, 3] 2 1 4 none) twoStripesRun = some σ ∧
      σ.sendPhase = .succeeded ∧ σ.received = some true ∧ σ.dst.out = [1, 2, 3] := by
  obtain ⟨σ, hσ, hd⟩ := (Option.any_eq_true ..).mp twoStripesRun_succeeds
  have h := of_decide_eq_true hd
  exact ⟨σ, hσ, h.1, h.2, (striped_reliable_transfer _ _ _ _ _ _ hσ).2.1 h.2⟩

end StripedTransfer

end Probe
