import Derphole.Probe.StripedPaths

/-!
# Striped receive keeps its books

Since every method is a path of buffer steps, what holds along every such path holds
of every run and inside it: the counters are right, and the spool gives back what was
put in.
-/

namespace Probe

open Lib

/-! ## Every run -/

variable {s : RunState} {es : List SpoolEvent}

theorem Tracked.empty : Tracked RunState.empty := fun _ => ⟨Map.All.empty, Map.All.empty⟩

theorem RunState.waiting_empty (slot : Slot) : RunState.empty.waiting slot = none := by
  cases slot with
  | future id seq => rfl
  | pending offset => rfl

theorem Accounted.empty : Accounted RunState.empty :=
  ⟨rfl, Nat.zero_le _, rfl, Nat.zero_le _⟩

theorem Accounted.of_trace (htrace : Trace BufferStep RunState.empty es s) : Accounted s := by
  refine (htrace.invariant (I := fun s => Tracked s ∧ Accounted s) ?_
    ⟨Tracked.empty, Accounted.empty⟩).2
  rintro s e s' ⟨ht, ha⟩ hstep
  exact ⟨ht.step hstep, ha.step ht hstep⟩

theorem Readable.of_trace (htrace : Trace BufferStep RunState.empty es s) : Readable s := by
  refine (htrace.invariant (I := fun s => Tracked s ∧ Readable s) ?_ ⟨Tracked.empty, ?_⟩).2
  · rintro s e s' ⟨ht, hr⟩ hstep
    exact ⟨ht.step hstep, hr.step ht hstep⟩
  · intro slot offset n hw
    rw [RunState.waiting_empty] at hw
    cases hw

/-- What is taken for a slot was spooled for it and not taken before, and it is what
was spooled if everything spooled since agrees with it. -/
structure ReadBack (es : List SpoolEvent) (slot : Slot) (taken : List UInt8) : Prop where
  spooled : ∃ before between offset payload, es = before ++ .spooled slot offset payload :: between ∧
    payload.length = taken.length ∧ ∀ payload, .took slot payload ∉ between
  same : ∀ before between offset payload, es = before ++ .spooled slot offset payload :: between →
    (∀ x ∈ between, x.Spares slot offset payload) → taken = payload

/-- The bytes an entry points to. -/
theorem ReadBack.of_trace {slot : Slot} {offset n : Nat} {file : File}
    (htrace : Trace BufferStep RunState.empty es s) (hw : s.waiting slot = some (offset, n))
    (hfile : s.pendingOutputSpool = some file) : ReadBack es slot (file.readAt offset n) := by
  refine ⟨?_, ?_⟩
  · obtain ⟨file', hfile', hlen⟩ := Readable.of_trace htrace slot offset n hw
    rw [hfile] at hfile'
    cases hfile'
    rw [file.length_readAt hlen]
    rcases waiting_of_trace Tracked.empty htrace hw with ⟨hempty, -⟩ | ⟨before, between, payload, h⟩
    · rw [RunState.waiting_empty] at hempty
      cases hempty
    · exact ⟨before, between, offset, payload, h⟩
  · rintro before between o payload rfl hspares
    obtain ⟨hw', file', hfile', -, hread⟩ := Holds.of_trace Tracked.empty htrace hspares
    rw [hw] at hw'
    rw [hfile] at hfile'
    cases hw'
    cases hfile'
    exact hread

/-- What comes out of the spool was recorded as it went in. -/
theorem ReadBack.of_took {before after : List SpoolEvent} {slot : Slot} {taken : List UInt8}
    (htrace : Trace BufferStep RunState.empty (before ++ .took slot taken :: after) s) :
    ReadBack before slot taken := by
  obtain ⟨t, t', hbefore, htook, -⟩ := htrace.split
  cases htook with
  | unspoolFuture hentry hfile =>
      refine ReadBack.of_trace hbefore ?_ hfile
      rw [RunState.waiting, hentry, Option.map_some]
  | unspoolPending hn hfile =>
      refine ReadBack.of_trace hbefore ?_ hfile
      rw [RunState.waiting, hn, Option.map_some]

/-! ## Inside a run -/

/-- The record of the spool is that of a path of buffer steps. -/
def Books (c : Coord) : Prop := Trace BufferStep RunState.empty c.run.spoolLog c.run

theorem Books.receivePackets (cfg : RecvConfig) (arrivals : List Arrival) :
    Books (receivePackets cfg Coord.empty arrivals) := by
  obtain ⟨es, hes⟩ := Traced.receivePackets cfg arrivals Coord.empty
  have hlog : (Probe.receivePackets cfg Coord.empty arrivals).run.spoolLog = [] ++ es :=
    spoolLog_of_trace hes
  rw [Books, hlog]
  exact hes

/-- Run in `c`, `m` moves no entry to the spool and records none, or it moves the payload there, at
its offset and for this slot, and records that. -/
def Spools (c : Coord) (m : Recv Unit) (slot : Slot) (offset : Nat) (payload : List UInt8) : Prop :=
  let c' := (exec m c).2
  (c'.run.spoolLog = c.run.spoolLog ∧ ∀ slot, c'.run.waiting slot = c.run.waiting slot) ∨
    (c'.run.spoolLog = c.run.spoolLog ++ [.spooled slot offset payload] ∧
      Holds c'.run slot offset payload)

/-- A buffer step that can only put this payload into the spool. -/
theorem Spools.of_step {c : Coord} {m : Recv Unit} {slot : Slot} {offset : Nat} {payload : List UInt8}
    (hbooks : Books c)
    (hstep : ∃ e, (∀ x ∈ e, x = .spooled slot offset payload) ∧ BufferStep c.run e (exec m c).2.run) :
    Spools c m slot offset payload := by
  obtain ⟨e, he, hstep⟩ := hstep
  cases e with
  | none => exact .inl ⟨hstep.spoolLog.trans (List.append_nil _), hstep.waiting_silent⟩
  | some x =>
      obtain rfl := he x rfl
      exact .inr ⟨hstep.spoolLog, Holds.of_spooled (Tracked.empty.trace hbooks) hstep⟩

/-- Run in `c`, `m` does not fail.  If it returns something that was not in memory, that came out of the
spool, as it was put in, and is recorded. -/
def Unspools {α : Type} (c : Coord) (m : Recv (Option α)) (payload : α → List UInt8) (inMemory : Prop)
    (slot : Slot) : Prop :=
  ∃ r, (exec m c).1 = .ok r ∧ ∀ a, r = some a → ¬inMemory →
    (exec m c).2.run.spoolLog = c.run.spoolLog ++ [.took slot (payload a)] ∧
      ReadBack c.run.spoolLog slot (payload a)

/-- A stripe's next packet comes out, from the spool as it was put in. -/
theorem popStripedBufferedPacket_unspools {c : Coord} (hbooks : Books c) (id : Nat) :
    Unspools c (popStripedBufferedPacket id) Packet.payload
      ((c.run.stripe id).expectedSeq ∈ (c.run.stripe id).buffered)
      (.future id (c.run.stripe id).expectedSeq) := by
  rw [Unspools, popStripedBufferedPacket, exec_bind_ok (exec_read c)]
  dsimp only
  cases hb : (c.run.stripe id).buffered.lookup (c.run.stripe id).expectedSeq with
  | some packet =>
      refine ⟨_, rfl, fun _ _ hnone => absurd ?_ hnone⟩
      exact AList.lookup_isSome.mp (by rw [hb]; rfl)
  | none =>
      cases he : (c.run.stripe id).bufferedSpool.lookup (c.run.stripe id).expectedSeq with
      | none => exact ⟨none, rfl, by simp⟩
      | some entry =>
          have hw : c.run.waiting (.future id (c.run.stripe id).expectedSeq) =
              some (entry.packet.offset, entry.payloadLen) := by
            rw [RunState.waiting, he, Option.map_some]
          obtain ⟨file, hfile, hlen⟩ := Readable.of_trace hbooks _ _ _ hw
          simp only [hfile, file.length_readAt hlen, ne_eq, not_true_eq_false, if_false]
          refine ⟨_, rfl, ?_⟩
          rintro p ⟨⟩ -
          refine ⟨?_, ReadBack.of_trace hbooks hw hfile⟩
          exact (BufferStep.unspoolFuture he hfile).spoolLog

/-- The next pending payload comes out, from the spool as it was put in. -/
theorem popPendingOutput_unspools {c : Coord} (hbooks : Books c) :
    Unspools c popPendingOutput id (c.run.nextOffset ∈ c.run.pendingOutput)
      (.pending c.run.nextOffset) := by
  rw [Unspools, popPendingOutput, exec_bind_ok (exec_read c)]
  cases hb : c.run.pendingOutput.lookup c.run.nextOffset with
  | some payload =>
      refine ⟨_, rfl, fun _ _ hnone => absurd ?_ hnone⟩
      exact AList.lookup_isSome.mp (by rw [hb]; rfl)
  | none =>
      cases hn : c.run.pendingOutputSpoolLens.lookup c.run.nextOffset with
      | none => exact ⟨none, rfl, by simp⟩
      | some n =>
          have hw : c.run.waiting (.pending c.run.nextOffset) = some (c.run.nextOffset, n) := by
            rw [RunState.waiting, hn, Option.map_some]
          obtain ⟨file, hfile, hlen⟩ := Readable.of_trace hbooks _ _ _ hw
          simp only [hfile, file.length_readAt hlen, ne_eq, not_true_eq_false, if_false]
          refine ⟨_, rfl, ?_⟩
          rintro payload ⟨⟩ -
          refine ⟨?_, ReadBack.of_trace hbooks hw hfile⟩
          exact (BufferStep.unspoolPending hn hfile).spoolLog

/-- Whatever arrives, the record of the spool is that of a path of buffer steps, and in every state on
such a path the counters are the bytes in memory and within their limits.  What is moved to the spool
is recorded as the packet had it.  Nothing that waits there is lost, and what was taken from the
spool is what was recorded, unless a payload spooled in between has other bytes in its place. -/
theorem striped_buffers_accounted (cfg : RecvConfig) (arrivals : List Arrival) :
    Books (receivePackets cfg Coord.empty arrivals) ∧
      ∀ c, Books c →
        Accounted c.run ∧
        (∀ before slot taken after, c.run.spoolLog = before ++ .took slot taken :: after →
          ReadBack before slot taken) ∧
        (∀ id packet, (c.run.stripe id).seen.has packet.seq = false → packet.type = .data →
          Spools c (storeStripedFuturePacket id packet) (.future id packet.seq) packet.offset packet.payload) ∧
        (∀ offset payload, Spools c (storeStripedPendingOutput offset payload) (.pending offset) offset payload) ∧
        (∀ id, Unspools c (popStripedBufferedPacket id) Packet.payload
          ((c.run.stripe id).expectedSeq ∈ (c.run.stripe id).buffered)
          (.future id (c.run.stripe id).expectedSeq)) ∧
        Unspools c popPendingOutput id (c.run.nextOffset ∈ c.run.pendingOutput)
          (.pending c.run.nextOffset) := by
  refine ⟨Books.receivePackets cfg arrivals, fun c hbooks => ⟨Accounted.of_trace hbooks, ?_, ?_, ?_,
    popStripedBufferedPacket_unspools hbooks, popPendingOutput_unspools hbooks⟩⟩
  · intro before slot taken after hlog
    rw [Books, hlog] at hbooks
    exact ReadBack.of_took hbooks
  · exact fun id packet hnew hdata =>
      .of_step hbooks (Traced.storeStripedFuturePacket_step hnew (.inl hdata))
  · exact fun offset payload => .of_step hbooks (Traced.storeStripedPendingOutput_step c offset payload)

/-! ## Payloads that disagree

The pending output is filled with packets of stripe 1 that arrive in their turn.  Of
two payloads that then go to the spool, the second overwrites a byte of the first. -/

/-- A destination that is kept, no known size and no recovery. -/
def plainConfig : RecvConfig := ⟨false, 0, 0, false⟩

/-- Stripe 1 expects the packet `seq`, has seen nothing from `unseen` on and keeps
nothing; `out` is the output and ends at `next`, and `kept` is what waits. -/
structure Turn (seq unseen next : Nat) (out : List UInt8)
    (kept : RunState.Kept) (c : Coord) : Prop where
  expectedSeq : (c.run.stripe 1).expectedSeq = seq
  seen : ∀ q, unseen ≤ q → (c.run.stripe 1).seen.has q = false
  buffered : (c.run.stripe 1).buffered = ∅
  bufferedSpool : (c.run.stripe 1).bufferedSpool = ∅
  nextOffset : c.run.nextOffset = next
  out : c.dst ++ c.run.writeBuf = out
  finalTotalSet : c.run.finalTotalSet = false
  kept : c.run.kept = kept

namespace Turn

variable {seq unseen next : Nat} {out : List UInt8} {E : RecvErr → Coord → Prop}
  {kept : RunState.Kept}

/-- A change of stripe 1 and of what nothing here depends on. -/
theorem updateRun {seq' unseen' : Nat} {g : RunState → RunState} (f : StripeState → StripeState)
    (hstripe : ∀ s, (g s).stripe 1 = f (s.stripe 1))
    (hseq : ∀ st, st.expectedSeq = seq → (f st).expectedSeq = seq')
    (hseen : ∀ st q, (∀ q, unseen ≤ q → st.seen.has q = false) → unseen' ≤ q →
      (f st).seen.has q = false)
    (hbuffers : ∀ st, (f st).buffered = st.buffered ∧ (f st).bufferedSpool = st.bufferedSpool)
    (hrest : ∀ s, (g s).nextOffset = s.nextOffset ∧ (g s).writeBuf = s.writeBuf ∧
      (g s).finalTotalSet = s.finalTotalSet ∧ (g s).kept = s.kept) :
    Triple (Turn seq unseen next out kept) (Probe.updateRun g)
      (fun _ => Turn seq' unseen' next out kept) E := by
  refine Triple.update fun c h => ⟨?_, ?_, ?_, ?_, ?_, ?_, ?_, ?_⟩
  · exact (congrArg (fun st => st.expectedSeq) (hstripe c.run)).trans (hseq _ h.expectedSeq)
  · intro q hq
    exact (congrArg (fun st => st.seen.has q) (hstripe c.run)).trans (hseen _ q h.seen hq)
  · exact (congrArg StripeState.buffered (hstripe c.run)).trans ((hbuffers _).1.trans h.buffered)
  · exact (congrArg StripeState.bufferedSpool (hstripe c.run)).trans
      ((hbuffers _).2.trans h.bufferedSpool)
  · exact (hrest c.run).1.trans h.nextOffset
  · exact (congrArg (c.dst ++ ·) (hrest c.run).2.1).trans h.out
  · exact (hrest c.run).2.2.1.trans h.finalTotalSet
  · exact (hrest c.run).2.2.2.trans h.kept

/-- A change of stripe 1 that it does not notice. -/
theorem updateStripe {f : StripeState → StripeState} (hseq : ∀ st, (f st).expectedSeq = st.expectedSeq)
    (hseen : ∀ st, (f st).seen = st.seen)
    (hbuffers : ∀ st, (f st).buffered = st.buffered ∧ (f st).bufferedSpool = st.bufferedSpool) :
    Triple (Turn seq unseen next out kept) (Probe.updateStripe 1 f)
      (fun _ => Turn seq unseen next out kept) E := by
  refine updateRun f (fun s => ?_) (fun st h => (hseq st).trans h) (fun st q h hq => ?_) hbuffers
    fun _ => ⟨rfl, rfl, rfl, rfl⟩
  · rw [RunState.stripe_updateStripe, if_pos rfl]
  · rw [hseen]
    exact h q hq

theorem enter : Triple (Turn seq unseen next out kept)
    (Probe.updateRun fun s => (s.enableStriped 1).stripeState 1 0)
    (fun _ => Turn seq unseen next out kept) E := by
  have henable : ∀ s : RunState, (s.enableStriped 1).stripes = s.stripes ∧
      (s.enableStriped 1).nextOffset = s.nextOffset ∧ (s.enableStriped 1).writeBuf = s.writeBuf ∧
      (s.enableStriped 1).finalTotalSet = s.finalTotalSet ∧ (s.enableStriped 1).kept = s.kept := by
    intro s
    rw [RunState.enableStriped]
    split
    · exact ⟨rfl, rfl, rfl, rfl, rfl⟩
    · exact ⟨rfl, rfl, rfl, rfl, rfl⟩
  refine updateRun (fun st => { st with lane := some 0 }) (fun s => ?_) (fun _ h => h)
    (fun _ q h hq => h q hq) (fun _ => ⟨rfl, rfl⟩) fun s => (henable s).2
  rw [RunState.stripeState, RunState.stripe_updateStripe, if_pos rfl, RunState.stripe,
    (henable s).1, ← RunState.stripe]

theorem markSeen : Triple (Turn seq seq next out kept)
    (Probe.updateStripe 1 fun st => st.markSeen seq)
    (fun _ => Turn seq (seq + 1) next out kept) E := by
  refine updateRun (fun st => st.markSeen seq) (fun s => ?_) (fun _ h => h) (fun st q h hq => ?_)
    (fun _ => ⟨rfl, rfl⟩) fun _ => ⟨rfl, rfl, rfl, rfl⟩
  · rw [RunState.stripe_updateStripe, if_pos rfl]
  · have hne : seq ≠ q := by omega
    simp [StripeState.markSeen, SeqSet.has_add, h q (by omega), hne]

theorem advance : Triple (Turn seq unseen next out kept) (advanceStripe 1)
    (fun _ => Turn (seq + 1) unseen next out kept) E := by
  rw [advanceStripe, Probe.updateStripe]
  refine updateRun (fun st => { st with expectedSeq := st.expectedSeq + 1 }) (fun s => ?_)
    (fun _ h => congrArg (· + 1) h) (fun _ q h hq => h q hq) (fun _ => ⟨rfl, rfl⟩)
    fun _ => ⟨rfl, rfl, rfl, rfl⟩
  rw [RunState.stripe_updateStripe, if_pos rfl]

/-- Nothing is kept. -/
theorem drain (fuel : Nat) : Triple (Turn seq unseen next out kept)
    (drainStripedBuffered plainConfig 1 (fuel + 1)) (fun _ => Turn seq unseen next out kept) E := by
  refine Triple.bind (Q := fun r c => r = none ∧ Turn seq unseen next out kept c) ?_ fun r => ?_
  · refine Triple.read_bind fun c hc => ?_
    simp only [hc.buffered, hc.bufferedSpool, AList.lookup_empty]
    exact Triple.pure fun c' he => ⟨rfl, he ▸ hc⟩
  · refine Triple.of_eq ?_
    rintro c ⟨rfl, hc⟩
    exact Triple.pure fun _ he => he ▸ hc

theorem finish : Triple (Turn seq unseen next out kept) (finishStriped plainConfig)
    (fun _ => Turn seq unseen next out kept) E := by
  refine Triple.bind (updateRun (fun st => st) (fun s => ?_) (fun _ h => h) (fun _ q h hq => h q hq)
    (fun _ => ⟨rfl, rfl⟩) fun s => ?_) fun _ => Triple.read_bind fun c hc => Triple.ite (fun h => ?_)
    fun _ => Triple.pure fun _ he => he ▸ hc
  · split <;> rfl
  · split
    · exact ⟨rfl, rfl, rfl, rfl⟩
    · exact ⟨rfl, rfl, rfl, rfl⟩
  · simp [stripedComplete, plainConfig, hc.finalTotalSet] at h

/-- A data packet in its turn: its payload is accepted, and nothing follows it. -/
theorem receive {next' : Nat} {out' payload : List UInt8} {offset : Nat}
    {kept' : RunState.Kept} (hpayload : payload ≠ [])
    (haccept : Triple (Turn seq (seq + 1) next out kept) (acceptStripedPayload plainConfig offset payload)
      (fun _ => Turn seq (seq + 1) next' out' kept') E) :
    Triple (Turn seq seq next out kept)
      (receivePacket plainConfig ⟨0, ⟨.data, 1, seq, offset, 0, 0, payload⟩, id⟩)
      (fun _ => Turn (seq + 1) (seq + 1) next' out' kept') E := by
  have hread : ∀ {k : Coord → Recv Bool} {P : Coord → Prop} {Q : Bool → Coord → Prop},
      (∀ c, P c → Triple P (k c) Q E) → Triple P (read >>= k) Q E := fun h =>
    Triple.read_bind fun c hc => (h c hc).conseq (fun _ he => he ▸ hc) (fun _ _ h => h) fun _ _ h => h
  refine hread fun c _ => Triple.ite (fun _ => ?_) fun h => absurd (.inl Nat.one_ne_zero) h
  refine Triple.bind enter fun _ => Triple.ite (fun h => absurd h hpayload) fun _ => ?_
  refine Triple.bind (Q := fun _ => Turn seq seq next out kept) (Triple.pure fun _ h => h) fun _ => ?_
  refine hread fun c hc => ?_
  have hnew : ¬(seq < (c.run.stripe 1).expectedSeq ∨ (c.run.stripe 1).seen.has seq = true) := by
    rw [hc.expectedSeq, hc.seen seq (Nat.le_refl _)]
    simp
  refine Triple.ite (fun h => absurd h hnew) fun _ => Triple.ite (fun h => ?_) fun _ => ?_
  · dsimp only at h
    rw [hc.expectedSeq] at h
    exact absurd h (Nat.lt_irrefl _)
  · refine Triple.bind markSeen fun _ => Triple.bind (Q := fun _ => Turn seq (seq + 1) next out kept)
      ?_ fun _ => Triple.bind (Triple.bind haccept fun _ => advance) fun _ => ?_
    · exact Triple.ite (fun _ => updateStripe (fun _ => rfl) (fun _ => rfl) fun _ => ⟨rfl, rfl⟩)
        fun _ => Triple.pure fun _ h => h
    · exact Triple.bind (drain _) fun _ => Triple.bind (Triple.pure fun _ h => h) fun _ => finish

variable {pending : Map Nat (List UInt8)} {bytes future offset : Nat} {spool : Option File}
  {lens : Map Nat Nat} {log : List SpoolEvent} {payload : List UInt8}

theorem pendingOutputSpool {c : Coord} (h : Turn seq unseen next out (pending, bytes, future, spool, lens, log) c) :
    c.run.pendingOutputSpool = spool :=
  congrArg (fun k => k.2.2.2.1) h.kept

theorem spoolLog {c : Coord} (h : Turn seq unseen next out (pending, bytes, future, spool, lens, log) c) :
    c.run.spoolLog = log :=
  congrArg (fun k => k.2.2.2.2.2) h.kept

theorem waiting {c : Coord} (h : Turn seq unseen next out (pending, bytes, future, spool, lens, log) c) :
    c.run.waiting (.pending offset) = (lens.lookup offset).map fun n => (offset, n) := by
  have hlens : c.run.pendingOutputSpoolLens = lens := congrArg (fun k => k.2.2.2.2.1) h.kept
  rw [RunState.waiting, hlens]

/-- A payload ahead of the output that fits into memory. -/
theorem storeInMemory (hpayload : payload ≠ []) (hpending : pending.lookup offset = none)
    (hlens : lens.lookup offset = none)
    (hfits : bytes + payload.length ≤ stripedBlastPendingOutputLimitBytes) :
    Triple (Turn seq unseen next out (pending, bytes, future, spool, lens, log))
      (storeStripedPendingOutput offset payload)
      (fun _ => Turn seq unseen next out
        (pending.insert offset payload, bytes + payload.length, future, spool, lens, log)) E := by
  refine Triple.ite (fun h => absurd h hpayload) fun _ => Triple.read_bind fun c hc => ?_
  obtain ⟨hp, hb, hf, hs, hl, hlog⟩ : c.run.pendingOutput = pending ∧ c.run.pendingOutputBytes = bytes ∧
      c.run.stripedFutureBufferedBytes = future ∧ c.run.pendingOutputSpool = spool ∧
      c.run.pendingOutputSpoolLens = lens ∧ c.run.spoolLog = log := by simpa [RunState.kept] using hc.kept
  rw [hp, hb, hl, hpending, hlens, if_neg (by simp), if_neg (by simp), if_pos hfits]
  refine Triple.update ?_
  rintro _ rfl
  refine ⟨hc.expectedSeq, hc.seen, hc.buffered, hc.bufferedSpool, hc.nextOffset, hc.out,
    hc.finalTotalSet, ?_⟩
  simp [RunState.kept, hp, hb, hf, hs, hl, hlog]

/-- A payload ahead of the output that does not. -/
theorem storeInSpool (hpayload : payload ≠ []) (hpending : pending.lookup offset = none)
    (hlens : lens.lookup offset = none)
    (hfull : stripedBlastPendingOutputLimitBytes < bytes + payload.length) (hoffset : offset ≤ maxInt) :
    Triple (Turn seq unseen next out (pending, bytes, future, spool, lens, log))
      (storeStripedPendingOutput offset payload)
      (fun _ => Turn seq unseen next out (pending, bytes, future,
        some ((spool.getD []).writeAt offset payload), lens.insert offset payload.length,
        log ++ [.spooled (.pending offset) offset payload])) E := by
  refine Triple.ite (fun h => absurd h hpayload) fun _ => Triple.read_bind fun c hc => ?_
  obtain ⟨hp, hb, hf, hs, hl, hlog⟩ : c.run.pendingOutput = pending ∧ c.run.pendingOutputBytes = bytes ∧
      c.run.stripedFutureBufferedBytes = future ∧ c.run.pendingOutputSpool = spool ∧
      c.run.pendingOutputSpoolLens = lens ∧ c.run.spoolLog = log := by simpa [RunState.kept] using hc.kept
  rw [hp, hb, hl, hpending, hlens, if_neg (by simp), if_neg (by simp), if_neg (Nat.not_le_of_lt hfull),
    if_neg (Nat.not_lt_of_le hoffset)]
  refine Triple.update ?_
  rintro _ rfl
  refine ⟨hc.expectedSeq, hc.seen, hc.buffered, hc.bufferedSpool, hc.nextOffset, hc.out,
    hc.finalTotalSet, ?_⟩
  simp [RunState.kept, RunState.writeSpool, RunState.logSpool, hp, hb, hf, hs, hl, hlog]

theorem observe : Triple (Turn seq unseen next out kept)
    (Probe.updateRun fun s => s.observeStripedPayload payload)
    (fun _ => Turn seq unseen next out kept) E :=
  updateRun (fun st => st) (fun _ => rfl) (fun _ h => h) (fun _ q h hq => h q hq)
    (fun _ => ⟨rfl, rfl⟩) fun _ => ⟨rfl, rfl, rfl, rfl⟩

/-- A payload ahead of the output is stored. -/
theorem acceptAhead {kept' : RunState.Kept}
    (hpayload : payload ≠ []) (hlt : next < offset)
    (hstore : Triple (Turn seq unseen next out kept) (storeStripedPendingOutput offset payload)
      (fun _ => Turn seq unseen next out kept') E) :
    Triple (Turn seq unseen next out kept) (acceptStripedPayload plainConfig offset payload)
      (fun _ => Turn seq unseen next out kept') E := by
  refine Triple.ite (fun h => absurd h hpayload) fun _ => Triple.bind observe fun _ =>
    Triple.read_bind fun c hc => Triple.ite (fun h => by cases h) fun _ => Triple.ite (fun h => ?_)
      fun _ => Triple.ite (fun _ => ?_) fun h => ?_
  · rw [hc.nextOffset] at h
    exact absurd hlt (by omega)
  · exact hstore.conseq (fun _ he => he ▸ hc) (fun _ _ h => h) fun _ _ h => h
  · rw [hc.nextOffset] at h
    exact absurd hlt h

theorem write : Triple (Turn seq unseen next out kept) (writeStripedPayload plainConfig payload)
    (fun _ => Turn seq unseen (next + payload.length) (out ++ payload) kept) E := by
  refine Triple.ite (fun h => Triple.pure fun c hc => ?_) fun _ => ?_
  · rw [h, List.append_nil]
    exact hc
  refine Triple.of_eq fun c₀ h => Triple.bind (bufferOrdered_spec c₀ payload) fun _ => Triple.update ?_
  rintro c ⟨hout, hsame⟩
  have hrun : c.run = { c₀.run with writeBuf := c.run.writeBuf } := congrArg Coord.run hsame
  refine ⟨?_, ?_, ?_, ?_, ?_, ?_, ?_, ?_⟩
  · rw [hrun]
    exact h.expectedSeq
  · rw [hrun]
    exact h.seen
  · rw [hrun]
    exact h.buffered
  · rw [hrun]
    exact h.bufferedSpool
  · rw [hrun]
    exact congrArg (· + payload.length) h.nextOffset
  · rw [← h.out]
    exact hout
  · rw [hrun]
    exact h.finalTotalSet
  · rw [hrun]
    exact h.kept

theorem afterMemory {c : Coord} (hc : Turn seq seq next out (pending, bytes, future, spool, lens, log) c)
    (hpayload : payload ≠ []) (hlt : next < offset) (hpending : pending.lookup offset = none)
    (hlens : lens.lookup offset = none)
    (hfits : bytes + payload.length ≤ stripedBlastPendingOutputLimitBytes) :
    Turn (seq + 1) (seq + 1) next out
      (pending.insert offset payload, bytes + payload.length, future, spool, lens, log)
      (exec (receivePacket plainConfig ⟨0, ⟨.data, 1, seq, offset, 0, 0, payload⟩, id⟩) c).2 :=
  Triple.state (receive hpayload (acceptAhead hpayload hlt
    (storeInMemory hpayload hpending hlens hfits))) hc

theorem afterSpool {c : Coord} (hc : Turn seq seq next out (pending, bytes, future, spool, lens, log) c)
    (hpayload : payload ≠ []) (hlt : next < offset) (hpending : pending.lookup offset = none)
    (hlens : lens.lookup offset = none)
    (hfull : stripedBlastPendingOutputLimitBytes < bytes + payload.length) (hoffset : offset ≤ maxInt) :
    Turn (seq + 1) (seq + 1) next out
      (pending, bytes, future, some ((spool.getD []).writeAt offset payload),
        lens.insert offset payload.length, log ++ [.spooled (.pending offset) offset payload])
      (exec (receivePacket plainConfig ⟨0, ⟨.data, 1, seq, offset, 0, 0, payload⟩, id⟩) c).2 :=
  Triple.state (receive hpayload (acceptAhead hpayload hlt
    (storeInSpool hpayload hpending hlens hfull hoffset))) hc

/-- The next bytes are in the spool, and something else is too. -/
theorem popSpooled {n : Nat} {file : File} (hpending : pending.lookup next = none)
    (hlens : lens.lookup next = some n) (hfile : next + n ≤ file.length)
    (hrest : (lens.erase next).entries.isEmpty = false) :
    Triple (Turn seq unseen next out (pending, bytes, future, some file, lens, log)) popPendingOutput
      (fun r c => r = some (file.readAt next n) ∧
        Turn seq unseen next out (pending, bytes, future, some file, lens.erase next,
          log ++ [.took (.pending next) (file.readAt next n)]) c) E := by
  refine Triple.read_bind fun c hc => ?_
  obtain ⟨hp, hb, hf, hs, hl, hlog⟩ : c.run.pendingOutput = pending ∧ c.run.pendingOutputBytes = bytes ∧
      c.run.stripedFutureBufferedBytes = future ∧ c.run.pendingOutputSpool = some file ∧
      c.run.pendingOutputSpoolLens = lens ∧ c.run.spoolLog = log := by simpa [RunState.kept] using hc.kept
  obtain rfl := hc.nextOffset
  simp only [hp, hl, hs, hpending, hlens, file.length_readAt hfile, ne_eq, not_true_eq_false, if_false]
  refine Triple.bind (Q := fun _ => Turn seq unseen c.run.nextOffset out
    (pending, bytes, future, some file, lens.erase c.run.nextOffset,
      log ++ [.took (.pending c.run.nextOffset) (file.readAt c.run.nextOffset n)])) (Triple.update ?_) fun _ =>
    Triple.pure fun _ h => ⟨rfl, h⟩
  rintro _ rfl
  have hopen : ∀ s : RunState, s.pendingOutputSpoolLens.entries.isEmpty = false →
      s.maybeCloseStripedPayloadSpool = s := by
    intro s hs
    simp [RunState.maybeCloseStripedPayloadSpool, hs]
  dsimp only
  rw [hopen _ (by rw [hl]; exact hrest)]
  refine ⟨hc.expectedSeq, hc.seen, hc.buffered, hc.bufferedSpool, hc.nextOffset, hc.out,
    hc.finalTotalSet, ?_⟩
  simp [RunState.kept, RunState.logSpool, hp, hb, hf, hs, hl, hlog]

/-- The next bytes are not there. -/
theorem popNone (hpending : pending.lookup next = none) (hlens : lens.lookup next = none) :
    Triple (Turn seq unseen next out (pending, bytes, future, spool, lens, log)) popPendingOutput
      (fun r c => r = none ∧ Turn seq unseen next out (pending, bytes, future, spool, lens, log) c) E := by
  refine Triple.read_bind fun c hc => ?_
  have hp : c.run.pendingOutput = pending := congrArg (fun k => k.1) hc.kept
  have hl : c.run.pendingOutputSpoolLens = lens := congrArg (fun k => k.2.2.2.2.1) hc.kept
  obtain rfl := hc.nextOffset
  simp only [hp, hl, hpending, hlens]
  exact Triple.pure fun _ he => ⟨rfl, he ▸ hc⟩

end Turn

/-- Packets of a KiB that fill the pending output from the second KiB of the stream on. -/
def fillArrivals (count : Nat) : List Arrival :=
  (List.range count).map fun k =>
    ⟨0, ⟨.data, 1, k, 1024 * (k + 1), 0, 0, List.replicate 1024 0⟩, id⟩

theorem receivePackets_concat (cfg : RecvConfig) (c : Coord) (as : List Arrival) (a : Arrival) :
    receivePackets cfg c (as ++ [a]) = (exec (receivePacket cfg a) (receivePackets cfg c as)).2 := by
  rw [receivePackets, List.foldl_append]
  rfl

/-- The packets that fill the output are all in memory. -/
theorem turn_fillArrivals (count : Nat) (hcount : 1024 * count ≤ stripedBlastPendingOutputLimitBytes) :
    ∃ pending, (∀ o, o < 1024 ∨ 1024 * (count + 1) ≤ o → pending.lookup o = none) ∧
      Turn count count 0 [] (pending, 1024 * count, 0, none, ∅, [])
        (receivePackets plainConfig Coord.empty (fillArrivals count)) := by
  induction count with
  | zero =>
      refine ⟨∅, fun o _ => AList.lookup_empty o, ?_⟩
      exact ⟨rfl, fun q _ => SeqSet.has_empty q, rfl, rfl, rfl, rfl, rfl, rfl⟩
  | succ count ih =>
      obtain ⟨pending, hnone, hturn⟩ := ih (by omega)
      have hlen : (List.replicate 1024 (0 : UInt8)).length = 1024 := List.length_replicate
      have hne : List.replicate 1024 (0 : UInt8) ≠ [] := by
        rw [← List.length_pos_iff, hlen]
        decide
      refine ⟨pending.insert (1024 * (count + 1)) (List.replicate 1024 0), ?_, ?_⟩
      · intro o ho
        rw [AList.lookup_insert_ne (by omega)]
        exact hnone o (by omega)
      · rw [fillArrivals, List.range_succ, List.map_append, List.map_cons, List.map_nil,
          receivePackets_concat]
        have hnext := hturn.afterMemory hne (by omega : 0 < 1024 * (count + 1)) (hnone _ (by omega))
          (AList.lookup_empty _) (by rw [hlen]; omega)
        rw [hlen] at hnext
        exact hnext

/-- Two bytes for the spool, one that overwrites the second of them, and the byte that
lets them out. -/
def firstSpooled : Arrival := ⟨0, ⟨.data, 1, 262144, 1, 0, 0, [1, 1]⟩, id⟩

def secondSpooled : Arrival := ⟨0, ⟨.data, 1, 262144 + 1, 2, 0, 0, [2]⟩, id⟩

def firstByte : Arrival := ⟨0, ⟨.data, 1, 262144 + 1 + 1, 0, 0, 0, [0]⟩, id⟩

/-- The record of the two spooled payloads. -/
def spooledLog : List SpoolEvent := [.spooled (.pending 1) 1 [1, 1], .spooled (.pending 2) 2 [2]]

/-- The lengths of the two spooled payloads. -/
def spooledLens : Map Nat Nat := ((∅ : Map Nat Nat).insert 1 2).insert 2 1

namespace Turn

variable {seq unseen bytes future : Nat} {pending : Map Nat (List UInt8)}
  {E : RecvErr → Coord → Prop}

/-- The first spooled payload is written as the spool has it. -/
theorem flushOverwritten (hone : pending.lookup 1 = none) (hthree : pending.lookup 3 = none)
    (fuel : Nat) :
    Triple (Turn seq unseen 1 [0] (pending, bytes, future, some [0, 1, 2], spooledLens, spooledLog))
      (flushPendingLoop plainConfig (fuel + 2))
      (fun _ => Turn seq unseen 3 [0, 1, 2]
        (pending, bytes, future, some [0, 1, 2], spooledLens.erase 1,
          spooledLog ++ [.took (.pending 1) [1, 2]])) E := by
  refine Triple.bind (popSpooled hone rfl (by decide) rfl) fun r => Triple.of_eq ?_
  rintro c ⟨rfl, hc⟩
  have hread : File.readAt [0, 1, 2] 1 2 = [1, 2] := rfl
  rw [hread]
  refine Triple.bind (Q := fun _ => Turn seq unseen 3 [0, 1, 2]
    (pending, bytes, future, some [0, 1, 2], spooledLens.erase 1,
          spooledLog ++ [.took (.pending 1) [1, 2]])) ?_ fun _ => ?_
  · exact Turn.write.conseq (fun _ he => he ▸ hc) (fun _ _ h => h) fun _ _ h => h
  · refine Triple.bind (popNone hthree rfl) fun r => Triple.of_eq ?_
    rintro c ⟨rfl, hc⟩
    exact Triple.pure fun _ he => he ▸ hc

/-- The bytes before it arrive. -/
theorem acceptFirstByte (hone : pending.lookup 1 = none) (hthree : pending.lookup 3 = none) :
    Triple (Turn seq unseen 0 [] (pending, bytes, future, some [0, 1, 2], spooledLens, spooledLog))
      (acceptStripedPayload plainConfig 0 [0])
      (fun _ => Turn seq unseen 3 [0, 1, 2]
        (pending, bytes, future, some [0, 1, 2], spooledLens.erase 1,
          spooledLog ++ [.took (.pending 1) [1, 2]])) E := by
  refine Triple.ite (fun h => by cases h) fun _ => Triple.bind observe fun _ =>
    Triple.read_bind fun c hc => Triple.ite (fun h => by cases h) fun _ => Triple.ite (fun _ => ?_)
      fun h => absurd hc.nextOffset.symm h
  refine Triple.bind (Q := fun _ => Turn seq unseen 1 [0]
    (pending, bytes, future, some [0, 1, 2], spooledLens, spooledLog)) ?_ fun _ => ?_
  · exact Turn.write.conseq (fun _ he => he ▸ hc) (fun _ _ h => h) fun _ _ h => h
  · refine Triple.read_bind fun c hc => ?_
    have hl : c.run.pendingOutputSpoolLens = spooledLens := congrArg (fun k => k.2.2.2.2.1) hc.kept
    have hlen : spooledLens.entries.length = 2 := rfl
    rw [hl, hlen]
    exact (flushOverwritten hone hthree (c.run.pendingOutput.entries.length + 1)).conseq
      (fun _ he => he ▸ hc) (fun _ _ h => h) fun _ _ h => h

end Turn

/-- The run after the first of them, after the second and after the byte before them. -/
def spooledRun : Coord :=
  receivePackets plainConfig Coord.empty (fillArrivals 262144 ++ [firstSpooled])

def overwrittenRun : Coord :=
  receivePackets plainConfig Coord.empty (fillArrivals 262144 ++ [firstSpooled] ++ [secondSpooled])

def readRun : Coord :=
  receivePackets plainConfig Coord.empty
    (fillArrivals 262144 ++ [firstSpooled] ++ [secondSpooled] ++ [firstByte])

/-- The payload `[1, 1]` goes into the spool at offset 1, the payload `[2]` at offset 2
overwrites its second byte while it waits, and it comes out as `[1, 2]`. -/
theorem spooled_payload_overwritten :
    spooledRun.run.waiting (.pending 1) = some (1, 2) ∧
      spooledRun.run.pendingOutputSpool = some [0, 1, 1] ∧
      overwrittenRun.run.waiting (.pending 1) = some (1, 2) ∧
      readRun.run.waiting (.pending 1) = none ∧
      readRun.run.spoolLog = [.spooled (.pending 1) 1 [1, 1], .spooled (.pending 2) 2 [2],
        .took (.pending 1) [1, 2]] ∧
      readRun.dst ++ readRun.run.writeBuf = [0, 1, 2] := by
  obtain ⟨pending, hnone, hfilled⟩ := turn_fillArrivals 262144 (by decide)
  have hlow : ∀ o, o < 1024 → pending.lookup o = none := fun o ho => hnone o (.inl ho)
  have hfirst : ([1, 1] : List UInt8) ≠ [] := by decide
  have hsecond : ([2] : List UInt8) ≠ [] := by decide
  have hspooled : Turn (262144 + 1) (262144 + 1) 0 []
      (pending, 1024 * 262144, 0, some [0, 1, 1], (∅ : Map Nat Nat).insert 1 2,
        [.spooled (.pending 1) 1 [1, 1]]) spooledRun := by
    rw [spooledRun, receivePackets_concat]
    exact hfilled.afterSpool hfirst (by decide) (hlow 1 (by decide)) (AList.lookup_empty 1)
      (by decide) (by decide)
  have hoverwritten : Turn (262144 + 1 + 1) (262144 + 1 + 1) 0 []
      (pending, 1024 * 262144, 0, some [0, 1, 2], spooledLens, spooledLog) overwrittenRun := by
    rw [overwrittenRun, receivePackets_concat]
    exact hspooled.afterSpool hsecond (by decide) (hlow 2 (by decide)) (by decide) (by decide)
      (by decide)
  have hread : Turn (262144 + 1 + 1 + 1) (262144 + 1 + 1 + 1) 3 [0, 1, 2]
      (pending, 1024 * 262144, 0, some [0, 1, 2], spooledLens.erase 1,
          spooledLog ++ [.took (.pending 1) [1, 2]]) readRun := by
    rw [readRun, receivePackets_concat]
    exact Triple.state (Turn.receive (by decide)
      (Turn.acceptFirstByte (hlow 1 (by decide)) (hlow 3 (by decide)))) hoverwritten
  refine ⟨?_, hspooled.pendingOutputSpool, ?_, ?_, hread.spoolLog, hread.out⟩
  · rw [hspooled.waiting]
    rfl
  · rw [hoverwritten.waiting]
    rfl
  · rw [hread.waiting]
    rfl

end Probe
