import Derphole.Lib.Program
import Derphole.Lib.Slice
import Derphole.Probe.SelectiveAck

/-!
# One lane of the reliable transfer

`Send` and `ReceiveToWriter` of `pkg/probe/session.go` keep one window at each end; with
several stripes, `sendStriped` and `receiveStripedFromFirstHello` of `pkg/probe/striped.go`
keep one for each.  A lane is such a pair of windows and what is between them: the packets that
were produced, of which the network delivers any that was written, in any order and as often
as it likes, and the acknowledgements, which it treats the same way.

`LaneSound` is what every lane keeps: a packet is in flight or was taken in by the receiver, and
an acknowledgement names only what was taken in.

The two windows are modelled after the Hello exchange, which sets the run id on both sides.  Of
the clock only its verdicts are left: what has expired, whether an acknowledgement is due and
whether the grace period of the Done packet is over.
-/

namespace Probe

open Lib

/-! ## The source and the destination -/

inductive ReadErr where
  | eof
  | other
  deriving DecidableEq, Repr

/-- What the reader is about to do: give at most so many bytes, and an error. -/
structure ReadPlan where
  bytes : Nat
  err : Option ReadErr
  deriving DecidableEq, Repr

/-- `stripedSourceState`, which `Send` has among the fields of its `senderState`. -/
structure Source where
  /-- What the reader has not given yet. -/
  rest : List UInt8
  offset : Nat
  eof : Bool
  /-- `pendingErr` is set. -/
  failed : Bool

namespace Source

def init (S : List UInt8) : Source := ⟨S, 0, false, false⟩

/-- `src.Read` into a buffer of `chunkSize` bytes.  The end of the source is reported only once
nothing is left. -/
def read (src : Source) (chunkSize : Nat) (plan : ReadPlan) : List UInt8 × Option ReadErr :=
  let n := min plan.bytes chunkSize
  (src.rest.take n, if plan.err = some .eof ∧ src.rest.drop n ≠ [] then none else plan.err)

/-- The source after it gave the bytes of a packet. -/
def gave (src : Source) (payload : List UInt8) (err : Option ReadErr) : Source :=
  ⟨src.rest.drop payload.length, src.offset + payload.length, decide (err = some .eof),
    decide (err = some .other)⟩

end Source

/-- The destination: `fails` says that one write is going to fail, after how many that do not
and how many bytes of its own. -/
structure Writer where
  out : List UInt8
  fails : Option (Nat × Nat)

/-- `dst.Write`, and whether it wrote all. -/
def Writer.write (w : Writer) (payload : List UInt8) : Writer × Bool :=
  match w.fails with
  | none => (⟨w.out ++ payload, none⟩, true)
  | some (0, n) => (⟨w.out ++ payload.take n, some (0, n)⟩, false)
  | some (k + 1, n) => (⟨w.out ++ payload, some (k, n)⟩, true)

theorem Writer.write_ok {w : Writer} {payload : List UInt8} (h : (w.write payload).2 = true) :
    (w.write payload).1.out = w.out ++ payload := by
  unfold Writer.write at h ⊢
  split
  · rfl
  next he =>
    rw [he] at h
    cases h
  · rfl

theorem Writer.write_prefix (w : Writer) (payload : List UInt8) :
    (w.write payload).1.out <+: w.out ++ payload := by
  unfold Writer.write
  split
  · exact List.prefix_refl _
  · exact (List.prefix_append_right_inj _).mpr (List.take_prefix _ _)
  · exact List.prefix_refl _

/-! ## The window of the sender -/

/-- `outboundPacket`.  Its wire is the packet. -/
structure OutboundPacket where
  packet : Packet
  attempts : Nat

/-- `senderState`, less the fields of the source. -/
structure SenderState where
  chunkSize : Nat
  window : Nat
  stripeID : Nat
  nextSeq : Nat
  ackFloor : Nat
  doneQueued : Bool
  inFlight : Map Nat OutboundPacket

/-- `defaultWindowSize`. -/
def defaultWindowSize : Nat := 4096

def effectiveWindowSize (requested : Int) : Nat :=
  if requested ≤ 0 then defaultWindowSize else requested.toNat

/-- The chunk size of a configuration. -/
def effectiveChunkSize (requested : Int) : Nat :=
  if requested ≤ 0 then defaultChunkSize else requested.toNat

/-- `terminalDoneAttempts`. -/
def terminalDoneAttempts : Nat := 4

namespace SenderState

def init (chunkSize windowSize : Int) (stripeID : Nat) : SenderState where
  chunkSize := effectiveChunkSize chunkSize
  window := effectiveWindowSize windowSize
  stripeID := stripeID
  nextSeq := 0
  ackFloor := 0
  doneQueued := false
  inFlight := ∅

variable (state : SenderState) (source : Source)

def dataPacket (payload : List UInt8) : Packet :=
  ⟨.data, state.stripeID, state.nextSeq, source.offset, 0, 0, payload⟩

def donePacket : Packet := ⟨.done, state.stripeID, state.nextSeq, source.offset, 0, 0, []⟩

/-- `nextOutboundPacket` and `nextStripedOutboundPacket`.  Without a packet the caller stops
for now; the error is one of the reader. -/
def nextOutboundPacket (plan : ReadPlan) :
    Except Unit (Option Packet × SenderState × Source) :=
  let queueDone (source : Source) : Option Packet × SenderState × Source :=
    (some (state.donePacket source),
      { state with nextSeq := state.nextSeq + 1, doneQueued := true }, source)
  if state.doneQueued || source.failed then .ok (none, state, source)
  else if source.eof then .ok (queueDone source)
  else
    match source.read state.chunkSize plan with
    | ([], some .eof) => .ok (queueDone { source with eof := true })
    | ([], some .other) => .error ()
    | ([], none) => .ok (none, state, source)
    | (payload, err) =>
        .ok (some (state.dataPacket source payload), { state with nextSeq := state.nextSeq + 1 },
          source.gave payload err)

def sendWindowHasCapacity : Bool :=
  if state.window = 0 then false
  else if state.nextSeq < state.ackFloor then
    decide (state.inFlight.entries.length < state.window)
  else decide (state.nextSeq - state.ackFloor < state.window)

/-- `packet.attempts++` for the packets that were written. -/
def countAttempts (inFlight : Map Nat OutboundPacket) (seqs : List Nat) : Map Nat OutboundPacket :=
  seqs.foldl
    (fun m seq =>
      match m.lookup seq with
      | none => m
      | some o => m.insert seq { o with attempts := o.attempts + 1 })
    inFlight

/-- `donePacketSettled`: only the Done packet is left, and it was tried often and long enough. -/
def donePacketSettled (grace : Bool) : Bool :=
  match state.inFlight.entries with
  | [e] =>
      decide (e.2.packet.type = .done) && decide (terminalDoneAttempts ≤ e.2.attempts) && grace
  | _ => false

end SenderState

/-! ## The window of the receiver -/

/-- `maxBufferedPackets`. -/
def maxBufferedPackets : Nat := 4096

/-- `delayedAckPackets`. -/
def delayedAckPackets : Nat := 16

/-- `receiveStripeState`, less `done`: the variables of `ReceiveToWriter`. -/
structure ReceiveWindow where
  expectedSeq : Nat
  buffered : Map Nat Packet
  packetsSinceAck : Nat
  ackDirty : Bool

def ReceiveWindow.init : ReceiveWindow := ⟨0, ∅, 0, false⟩

/-! ## A lane -/

structure Lane where
  state : SenderState
  /-- Every packet that the sender produced. -/
  sent : List Packet
  /-- How many of them were handed to the network. -/
  written : Nat
  /-- Every acknowledgement that the receiver sent. -/
  acks : List Ack
  window : ReceiveWindow
  /-- The packets that the receiver took in: passed on or kept. -/
  taken : List Packet

namespace Lane

variable (l : Lane)

def init (chunkSize windowSize : Int) (stripeID : Nat) : Lane where
  state := SenderState.init chunkSize windowSize stripeID
  sent := []
  written := 0
  acks := []
  window := .init
  taken := []

/-- A new packet goes into the window. -/
def queue (state : SenderState) (p : Packet) : Lane :=
  { l with
    state := { state with inFlight := state.inFlight.insert p.seq ⟨p, 0⟩ }
    sent := l.sent ++ [p] }

/-- `WriteBatch` of the new packets. -/
def writeBatch : Lane :=
  { l with
    written := l.sent.length
    state := { l.state with
      inFlight :=
        SenderState.countAttempts l.state.inFlight ((l.sent.drop l.written).map Packet.seq) } }

/-- `retransmitExpired`. -/
def retransmitExpired (expired : List Nat) : Lane :=
  { l with
    state := { l.state with inFlight := SenderState.countAttempts l.state.inFlight expired } }

/-- What the network has. -/
def wire : List Packet := l.sent.take l.written

/-- The packet at `expectedSeq` was dealt with. -/
def pass (p : Packet) : Lane :=
  { l with
    window := { l.window with expectedSeq := l.window.expectedSeq + 1 }
    taken := l.taken ++ [p] }

/-- A packet beyond `expectedSeq` is kept. -/
def keep (p : Packet) : Lane :=
  { l with
    window := { l.window with buffered := l.window.buffered.insert p.seq p }
    taken := l.taken ++ [p] }

/-- `delete(buffered, expectedSeq)`. -/
def unkeep : Lane :=
  { l with
    window := { l.window with buffered := l.window.buffered.erase l.window.expectedSeq } }

/-- A packet was received and an acknowledgement is due. -/
def markAck (packets : Nat) : Lane :=
  { l with
    window := { l.window with
      ackDirty := true, packetsSinceAck := l.window.packetsSinceAck + packets } }

/-- `sendPendingAck` and `sendStripedPendingAck`. -/
def sendPendingAck : Lane :=
  if l.window.ackDirty then
    { l with
      acks := l.acks ++ [pendingAck id l.window.expectedSeq l.window.buffered]
      window := { l.window with ackDirty := false, packetsSinceAck := 0 } }
  else l

end Lane

/-! ## What the sender produces -/

/-- The source stands where its offset says. -/
structure Source.Sound (S : List UInt8) (src : Source) : Prop where
  rest : src.rest = S.drop src.offset
  offset_le : src.offset ≤ S.length
  ended : src.eof = true → src.rest = []

theorem Source.Sound.init (S : List UInt8) : (Source.init S).Sound S :=
  ⟨rfl, Nat.zero_le _, fun h => by cases h⟩

theorem Source.Sound.offset_eq {S : List UInt8} {src : Source} (h : src.Sound S)
    (heof : src.eof = true) : src.offset = S.length := by
  have hrest := h.ended heof
  rw [h.rest, List.drop_eq_nil_iff] at hrest
  exact Nat.le_antisymm h.offset_le hrest

theorem Source.read_spec {src : Source} {chunkSize : Nat} {plan : ReadPlan} {payload : List UInt8}
    {err : Option ReadErr} (h : src.read chunkSize plan = (payload, err)) :
    payload <+: src.rest ∧ (err = some .eof → src.rest.drop payload.length = []) := by
  rw [Source.read, Prod.mk.injEq] at h
  obtain ⟨rfl, herr⟩ := h
  refine ⟨List.take_prefix _ _, fun heof => ?_⟩
  split at herr
  · rw [heof] at herr
    cases herr
  next hc =>
    have hnil : src.rest.drop (min plan.bytes chunkSize) = [] := by
      by_contra hne
      exact hc ⟨herr.trans heof, hne⟩
    rw [List.drop_eq_nil_iff] at hnil
    rw [List.drop_eq_nil_iff, List.length_take]
    omega

section

variable {S : List UInt8} {state state' : SenderState} {source source' : Source} {plan : ReadPlan}
  {r : Option Packet}

/-- Nothing, the next piece of the source, or the Done packet at its end. -/
theorem nextOutboundPacket_cases
    (h : state.nextOutboundPacket source plan = .ok (r, state', source')) :
    (r = none ∧ state' = state ∧ source' = source) ∨
    (∃ payload err, r = some (state.dataPacket source payload) ∧ state.doneQueued = false ∧
      payload ≠ [] ∧ payload <+: source.rest ∧
      (err = some .eof → source.rest.drop payload.length = []) ∧
      state' = { state with nextSeq := state.nextSeq + 1 } ∧ source' = source.gave payload err) ∨
    (r = some (state.donePacket source) ∧ state.doneQueued = false ∧
      (source.eof = false → source.rest = []) ∧
      state' = { state with nextSeq := state.nextSeq + 1, doneQueued := true } ∧
      source' = { source with eof := true }) := by
  unfold SenderState.nextOutboundPacket at h
  split at h
  · cases h
    exact .inl ⟨rfl, rfl, rfl⟩
  next hgo =>
    have hopen : state.doneQueued = false := by
      cases hd : state.doneQueued with
      | false => rfl
      | true => exact absurd (by rw [hd]; rfl) hgo
    split at h
    · next heof =>
      cases h
      refine .inr (.inr ⟨rfl, hopen, fun hf => absurd heof (by simp [hf]), rfl, ?_⟩)
      rw [← heof]
    · cases hr : source.read state.chunkSize plan with
      | mk payload err =>
          obtain ⟨hpre, hend⟩ := Source.read_spec hr
          rw [hr] at h
          cases payload with
          | cons b bs =>
              cases h
              exact .inr (.inl ⟨_, err, rfl, hopen, List.cons_ne_nil _ _, hpre, hend, rfl, rfl⟩)
          | nil =>
              cases err with
              | none =>
                  cases h
                  exact .inl ⟨rfl, rfl, rfl⟩
              | some e =>
                  cases e with
                  | eof =>
                      cases h
                      exact .inr (.inr ⟨rfl, hopen, fun _ => hend rfl, rfl, rfl⟩)
                  | other => cases h

/-- The next piece of a source stands in it, and so does what is left. -/
theorem Source.Sound.gave (h : source.Sound S) {payload : List UInt8} {err : Option ReadErr}
    (hpre : payload <+: source.rest)
    (hend : err = some .eof → source.rest.drop payload.length = []) :
    SliceAt S source.offset payload ∧ (source.gave payload err).Sound S := by
  have hslice : SliceAt S source.offset payload := ⟨h.offset_le, by rw [← h.rest]; exact hpre⟩
  refine ⟨hslice, ?_, hslice.end_le, fun heof => hend (of_decide_eq_true heof)⟩
  show source.rest.drop payload.length = S.drop (source.offset + payload.length)
  rw [h.rest, List.drop_drop]

theorem Source.Sound.ends (h : source.Sound S) (hend : source.eof = false → source.rest = []) :
    Source.Sound S { source with eof := true } := by
  refine ⟨h.rest, h.offset_le, fun _ => ?_⟩
  cases heof : source.eof with
  | false => exact hend heof
  | true => exact h.ended heof

end

/-! ## What every lane keeps -/

structure LaneSound (l : Lane) : Prop where
  next : l.state.nextSeq = l.sent.length
  numbered : ∀ (i : Nat) (p : Packet), l.sent[i]? = some p →
    p.seq = i ∧ p.stripeID = l.state.stripeID
  kinds : ∀ p ∈ l.sent,
    p.type = .data ∨
      p.type = .done ∧ p.payload = [] ∧ p.seq + 1 = l.sent.length ∧ l.state.doneQueued = true
  flying : l.state.inFlight.All fun seq o => o.packet ∈ l.sent ∧ o.packet.seq = seq
  covered : ∀ p ∈ l.sent, (∃ o, l.state.inFlight.lookup p.seq = some o) ∨ p ∈ l.taken
  taken : ∀ p ∈ l.taken, p ∈ l.sent
  expected_le : l.window.expectedSeq ≤ l.sent.length
  passed : ∀ p ∈ l.sent, p.seq < l.window.expectedSeq → p ∈ l.taken
  kept : l.window.buffered.All fun seq p => p ∈ l.taken ∧ p.seq = seq
  told : ∀ ack ∈ l.acks, ∀ seq, ack.Claims id seq →
    seq < l.sent.length ∧ ∀ p ∈ l.sent, p.seq = seq → p ∈ l.taken

namespace LaneSound

variable {l : Lane} {p q : Packet}

theorem init (chunkSize windowSize : Int) (stripeID : Nat) :
    LaneSound (Lane.init chunkSize windowSize stripeID) where
  next := rfl
  numbered := fun i p h => by cases h
  kinds := fun p h => by cases h
  flying := Map.All.empty
  covered := fun p h => by cases h
  taken := fun p h => by cases h
  expected_le := Nat.le_refl _
  passed := fun p h => by cases h
  kept := Map.All.empty
  told := fun ack h => by cases h

/-- The place of a packet is its number. -/
theorem getElem? (h : LaneSound l) (hp : p ∈ l.sent) : l.sent[p.seq]? = some p := by
  obtain ⟨i, hi⟩ := List.mem_iff_getElem?.mp hp
  rw [(h.numbered i p hi).1]
  exact hi

theorem seq_lt (h : LaneSound l) (hp : p ∈ l.sent) : p.seq < l.sent.length :=
  (List.getElem?_eq_some_iff.mp (h.getElem? hp)).1

theorem eq_of_seq (h : LaneSound l) (hp : p ∈ l.sent) (hq : q ∈ l.sent) (hseq : p.seq = q.seq) :
    p = q := by
  have hget := h.getElem? hp
  rw [hseq, h.getElem? hq] at hget
  exact (Option.some.inj hget).symm

theorem mem_of_wire (hp : p ∈ l.wire) : p ∈ l.sent := List.mem_of_mem_take hp

/-! ### Steps of the sender -/

/-- The window takes a new packet. -/
theorem queue (h : LaneSound l) {state : SenderState} (hseq : p.seq = l.state.nextSeq)
    (hstripe : p.stripeID = l.state.stripeID) (hid : state.stripeID = l.state.stripeID)
    (hopen : l.state.doneQueued = false) (hnext : state.nextSeq = l.state.nextSeq + 1)
    (hsame : state.inFlight = l.state.inFlight)
    (hkind : p.type = .data ∨ p.type = .done ∧ p.payload = [] ∧ state.doneQueued = true) :
    LaneSound (l.queue state p) := by
  have hseq' : p.seq = l.sent.length := by rw [hseq, h.next]
  have hlen : (l.queue state p).sent.length = l.sent.length + 1 := List.length_append
  have hmem : ∀ q ∈ (l.queue state p).sent, q ∈ l.sent ∨ q = p := by
    intro q hq
    rcases List.mem_append.mp hq with hq | hq
    · exact .inl hq
    · exact .inr (List.mem_singleton.mp hq)
  refine ⟨?_, ?_, ?_, ?_, ?_, ?_, ?_, ?_, h.kept, ?_⟩
  · rw [hlen, ← h.next]
    exact hnext
  · intro i q hq
    show q.seq = i ∧ q.stripeID = state.stripeID
    rw [hid]
    rcases Nat.lt_or_ge i l.sent.length with hi | hi
    · exact h.numbered i q (by rwa [Lane.queue, List.getElem?_append_left hi] at hq)
    · have hlt := (List.getElem?_eq_some_iff.mp hq).1
      rw [hlen] at hlt
      have hi' : i = l.sent.length := by omega
      rw [hi', Lane.queue, List.getElem?_concat_length] at hq
      cases hq
      exact ⟨by rw [hseq', hi'], hstripe⟩
  · intro q hq
    rcases hmem q hq with hq | rfl
    · rcases h.kinds q hq with hd | ⟨-, -, -, hdone⟩
      · exact .inl hd
      · -- the Done packet is the last
        rw [hopen] at hdone
        cases hdone
    · rcases hkind with hd | ⟨hd, hempty, hdone⟩
      · exact .inl hd
      · exact .inr ⟨hd, hempty, by rw [hlen, hseq'], hdone⟩
  · rw [Lane.queue, hsame]
    exact Map.All.insert (h.flying.mono fun seq o ho => ⟨List.mem_append_left _ ho.1, ho.2⟩)
      ⟨List.mem_append_right _ List.mem_cons_self, rfl⟩
  · intro q hq
    show (∃ o, (state.inFlight.insert p.seq ⟨p, 0⟩).lookup q.seq = some o) ∨ q ∈ l.taken
    rw [hsame]
    by_cases hqp : q.seq = p.seq
    · exact .inl ⟨_, by rw [hqp]; exact AList.lookup_insert _⟩
    · rw [AList.lookup_insert_ne hqp]
      rcases hmem q hq with hq | rfl
      · exact h.covered q hq
      · exact absurd rfl hqp
  · exact fun q hq => List.mem_append_left _ (h.taken q hq)
  · rw [hlen]
    exact Nat.le_succ_of_le h.expected_le
  · intro q hq hlt
    rcases hmem q hq with hq | rfl
    · exact h.passed q hq hlt
    · have := h.expected_le
      have hlt' : q.seq < l.window.expectedSeq := hlt
      omega
  · intro ack hack seq hc
    obtain ⟨hlt, htaken⟩ := h.told ack hack seq hc
    refine ⟨by omega, fun q hq hqs => ?_⟩
    rcases hmem q hq with hq | rfl
    · exact htaken q hq hqs
    · omega

/-- A change of the window in flight that loses no packet but those that were taken in. -/
theorem inFlight (h : LaneSound l) {m : Map Nat OutboundPacket} {floor written : Nat}
    (hold : ∀ seq o, m.lookup seq = some o →
      ∃ o', l.state.inFlight.lookup seq = some o' ∧ o'.packet = o.packet)
    (hnew : ∀ p ∈ l.sent, (∃ o, l.state.inFlight.lookup p.seq = some o) →
      (∃ o, m.lookup p.seq = some o) ∨ p ∈ l.taken) :
    LaneSound
      { l with
        written := written, state := { l.state with inFlight := m, ackFloor := floor } } where
  next := h.next
  numbered := h.numbered
  kinds := h.kinds
  flying := fun seq o ho => by
    obtain ⟨o', ho', hpk⟩ := hold seq o ho
    rw [← hpk]
    exact h.flying seq o' ho'
  covered := fun p hp => by
    rcases h.covered p hp with hf | ht
    · exact hnew p hp hf
    · exact .inr ht
  taken := h.taken
  expected_le := h.expected_le
  passed := h.passed
  kept := h.kept
  told := h.told

theorem countAttempts_spec (seqs : List Nat) (m : Map Nat OutboundPacket) :
    (∀ seq o, (SenderState.countAttempts m seqs).lookup seq = some o →
      ∃ o', m.lookup seq = some o' ∧ o'.packet = o.packet) ∧
    ∀ seq o, m.lookup seq = some o →
      ∃ o', (SenderState.countAttempts m seqs).lookup seq = some o' := by
  induction seqs generalizing m with
  | nil => exact ⟨fun seq o ho => ⟨o, ho, rfl⟩, fun seq o ho => ⟨o, ho⟩⟩
  | cons j seqs ih =>
      cases hj : m.lookup j with
      | none =>
          have hcons : SenderState.countAttempts m (j :: seqs)
              = SenderState.countAttempts m seqs := by
            simp only [SenderState.countAttempts, List.foldl_cons, hj]
          rw [hcons]
          exact ih m
      | some oj =>
          have hcons : SenderState.countAttempts m (j :: seqs)
              = SenderState.countAttempts
                  (m.insert j { oj with attempts := oj.attempts + 1 }) seqs := by
            simp only [SenderState.countAttempts, List.foldl_cons, hj]
          rw [hcons]
          obtain ⟨hold, hnew⟩ := ih (m.insert j { oj with attempts := oj.attempts + 1 })
          constructor
          · intro seq o ho
            obtain ⟨o', ho', hpk⟩ := hold seq o ho
            by_cases hs : seq = j
            · rw [hs, AList.lookup_insert] at ho'
              cases ho'
              exact ⟨oj, by rw [hs]; exact hj, hpk⟩
            · rw [AList.lookup_insert_ne hs] at ho'
              exact ⟨o', ho', hpk⟩
          · intro seq o ho
            by_cases hs : seq = j
            · rw [hs]
              exact hnew j _ (AList.lookup_insert _)
            · exact hnew seq o (by rw [AList.lookup_insert_ne hs]; exact ho)

theorem writeBatch (h : LaneSound l) : LaneSound l.writeBatch :=
  have hspec := countAttempts_spec ((l.sent.drop l.written).map Packet.seq) l.state.inFlight
  h.inFlight hspec.1 fun _ _ ⟨o, ho⟩ => .inl (hspec.2 _ o ho)

theorem retransmitExpired (h : LaneSound l) (expired : List Nat) :
    LaneSound (l.retransmitExpired expired) :=
  have hspec := countAttempts_spec expired l.state.inFlight
  h.inFlight hspec.1 fun _ _ ⟨o, ho⟩ => .inl (hspec.2 _ o ho)

/-- What an acknowledgement takes out of the window was taken in by the receiver. -/
theorem applyAck (h : LaneSound l) {ack : Ack} (hack : ack ∈ l.acks) (floor : Nat) :
    LaneSound
      { l with
        state := { l.state with
          inFlight := (Probe.applyAck id l.state.inFlight ack).1, ackFloor := floor } } := by
  have hlook := lookup_applyAck id l.state.inFlight ack
  refine h.inFlight (fun seq o ho => ?_) fun p hp hf => ?_
  · by_cases hc : ack.Claims id seq
    · rw [(hlook seq).1 hc] at ho
      cases ho
    · exact ⟨o, ((hlook seq).2 hc).symm.trans ho, rfl⟩
  · by_cases hc : ack.Claims id p.seq
    · exact .inr ((h.told ack hack p.seq hc).2 p hp rfl)
    · obtain ⟨o, ho⟩ := hf
      exact .inl ⟨o, ((hlook p.seq).2 hc).trans ho⟩

/-! ### Steps of the receiver -/

/-- The receiver takes in a packet that was sent. -/
theorem take (h : LaneSound l) (hp : p ∈ l.sent) {window : ReceiveWindow}
    (hexp : window.expectedSeq ≤ l.sent.length)
    (hpass : ∀ q ∈ l.sent, q.seq < window.expectedSeq → q ∈ l.taken ∨ q = p)
    (hkept : window.buffered.All fun seq q => q ∈ l.taken ++ [p] ∧ q.seq = seq) :
    LaneSound { l with window := window, taken := l.taken ++ [p] } where
  next := h.next
  numbered := h.numbered
  kinds := h.kinds
  flying := h.flying
  covered := fun q hq => (h.covered q hq).imp_right (List.mem_append_left _)
  taken := fun q hq => by
    rcases List.mem_append.mp hq with hq | hq
    · exact h.taken q hq
    · rw [List.mem_singleton.mp hq]
      exact hp
  expected_le := hexp
  passed := fun q hq hlt => by
    rcases hpass q hq hlt with ht | rfl
    · exact List.mem_append_left _ ht
    · exact List.mem_append_right _ List.mem_cons_self
  kept := hkept
  told := fun ack hack seq hc =>
    ⟨(h.told ack hack seq hc).1,
      fun q hq hqs => List.mem_append_left _ ((h.told ack hack seq hc).2 q hq hqs)⟩

theorem pass (h : LaneSound l) (hp : p ∈ l.sent) (hseq : p.seq = l.window.expectedSeq) :
    LaneSound (l.pass p) := by
  have hlt := h.seq_lt hp
  refine h.take hp (by show l.window.expectedSeq + 1 ≤ _; omega) (fun q hq hq' => ?_)
    (h.kept.mono fun seq q hk => ⟨List.mem_append_left _ hk.1, hk.2⟩)
  have hq'' : q.seq < l.window.expectedSeq + 1 := hq'
  rcases Nat.lt_or_ge q.seq l.window.expectedSeq with hlt' | hge
  · exact .inl (h.passed q hq hlt')
  · exact .inr (h.eq_of_seq hq hp (by omega))

theorem keep (h : LaneSound l) (hp : p ∈ l.sent) : LaneSound (l.keep p) := by
  refine h.take hp h.expected_le (fun q hq hlt => .inl (h.passed q hq hlt)) ?_
  refine Map.All.insert (h.kept.mono fun seq q hk => ⟨List.mem_append_left _ hk.1, hk.2⟩)
    ⟨List.mem_append_right _ List.mem_cons_self, rfl⟩

/-- A change that concerns only the receiver's bookkeeping. -/
theorem unkeep (h : LaneSound l) : LaneSound l.unkeep :=
  { h with kept := h.kept.erase _ }

theorem markAck (h : LaneSound l) (packets : Nat) : LaneSound (l.markAck packets) :=
  { h with }

/-- An acknowledgement that names only what was taken in. -/
theorem acknowledge (h : LaneSound l) {ack : Ack} {packets : Nat} {dirty : Bool}
    (hack : ∀ seq, ack.Claims id seq → seq < l.window.expectedSeq ∨ seq ∈ l.window.buffered) :
    LaneSound
      { l with
        acks := l.acks ++ [ack]
        window := { l.window with ackDirty := dirty, packetsSinceAck := packets } } where
  next := h.next
  numbered := h.numbered
  kinds := h.kinds
  flying := h.flying
  covered := h.covered
  taken := h.taken
  expected_le := h.expected_le
  passed := h.passed
  kept := h.kept
  told := fun ack' hack' seq hc => by
    rcases List.mem_append.mp hack' with hold | hnew
    · exact h.told ack' hold seq hc
    · rw [List.mem_singleton.mp hnew] at hc
      rcases hack seq hc with hlt | hmem
      · exact ⟨Nat.lt_of_lt_of_le hlt h.expected_le, fun p hp hps => h.passed p hp (by omega)⟩
      · obtain ⟨q, hq⟩ := Option.isSome_iff_exists.mp (AList.lookup_isSome.mpr hmem)
        obtain ⟨htaken, rfl⟩ := h.kept seq q hq
        have hsent := h.taken q htaken
        refine ⟨h.seq_lt hsent, fun p hp hps => ?_⟩
        rw [h.eq_of_seq hp hsent hps]
        exact htaken

theorem sendPendingAck (h : LaneSound l) : LaneSound l.sendPendingAck := by
  unfold Lane.sendPendingAck
  split
  · exact h.acknowledge fun seq hc => pendingAck_claims (fun _ _ => rfl) hc
  · exact h

/-! ### The end of the send -/

/-- With nothing in flight but perhaps the Done packet, every Data packet was taken in. -/
theorem data_taken (h : LaneSound l)
    (hflight : ∀ seq o, l.state.inFlight.lookup seq = some o → o.packet.type = .done) :
    ∀ p ∈ l.sent, p.type = .data → p ∈ l.taken := by
  intro p hp hdata
  rcases h.covered p hp with ⟨o, ho⟩ | ht
  · obtain ⟨hsent, hseq⟩ := h.flying _ o ho
    have hdone := hflight _ o ho
    rw [h.eq_of_seq hsent hp hseq, hdata] at hdone
    cases hdone
  · exact ht

end LaneSound

theorem SenderState.lookup_of_isEmpty {state : SenderState}
    (h : state.inFlight.entries.isEmpty = true) :
    ∀ seq o, state.inFlight.lookup seq = some o → o.packet.type = .done := by
  have hall : state.inFlight.All fun _ o => o.packet.type = .done := Map.All.of_isEmpty h
  exact hall

theorem SenderState.lookup_of_settled {state : SenderState} {grace : Bool}
    (h : state.donePacketSettled grace = true) :
    ∀ seq o, state.inFlight.lookup seq = some o → o.packet.type = .done := by
  intro seq o ho
  have hmem := Map.mem_entries_of_lookup ho
  unfold SenderState.donePacketSettled at h
  split at h
  next e he =>
    rw [he, List.mem_singleton] at hmem
    rw [← hmem] at h
    rw [Bool.and_eq_true, Bool.and_eq_true] at h
    exact of_decide_eq_true h.1.1
  · cases h

end Probe
