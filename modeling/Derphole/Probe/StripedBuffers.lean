import Derphole.Lib.Trace
import Derphole.Probe.StripedReceive

/-!
# What the striped receiver keeps

A payload that cannot be written yet waits in memory, in one of two maps with a
counter and a limit each, or in the spool, one file for both maps.  `BufferStep`
says once what the receiver can do to all of them, with the spool's entries going in
and out as events, and every method is a path of such steps, whatever packets it
handles.  Along every path the counters are the sizes of the maps, no entry is ever
unreadable, and it is read back as it was written unless a payload spooled in the
meantime disagrees with it: the spool is addressed by the offset in the stream.
-/

namespace Probe

open Lib

/-! ## The maps and the spool -/

/-- The bytes a stripe keeps in memory. -/
def StripeState.bufferedBytes (st : StripeState) : Nat :=
  st.buffered.total fun packet => packet.payload.length

namespace RunState

/-- The bytes of the pending output in memory. -/
def pendingBytes (s : RunState) : Nat := s.pendingOutput.total List.length

/-- The bytes the stripes keep in memory. -/
def futureBytes (s : RunState) : Nat := s.stripes.total StripeState.bufferedBytes

/-- The offset and the length of the entry that waits in the spool. -/
def waiting (s : RunState) : Slot → Option (Nat × Nat)
  | .future id seq =>
      ((s.stripe id).bufferedSpool.lookup seq).map fun e => (e.packet.offset, e.payloadLen)
  | .pending offset => (s.pendingOutputSpoolLens.lookup offset).map fun n => (offset, n)

/-- What a run keeps besides its stripes: the pending output with its counter, the
counter of the stripes, the spool, its table of lengths and its record. -/
abbrev Kept := Map Nat (List UInt8) × Nat × Nat × Option File × Map Nat Nat × List SpoolEvent

def kept (s : RunState) : Kept :=
  (s.pendingOutput, s.pendingOutputBytes, s.stripedFutureBufferedBytes, s.pendingOutputSpool,
    s.pendingOutputSpoolLens, s.spoolLog)

/-- How far a run is. -/
def progress (s : RunState) : Bool × Map Nat StripeState := (s.striped, s.stripes)

theorem stripe_updateStripe (s : RunState) (id j : Nat) (f : StripeState → StripeState) :
    (s.updateStripe id f).stripe j = if j = id then f (s.stripe id) else s.stripe j := by
  rw [stripe, updateStripe]
  by_cases h : j = id
  · rw [h, AList.lookup_insert, if_pos rfl]
    rfl
  · rw [AList.lookup_insert_ne h, if_neg h]
    rfl

theorem waiting_logSpool (s : RunState) (e : SpoolEvent) (slot : Slot) :
    (s.logSpool e).waiting slot = s.waiting slot := by
  cases slot with
  | future id seq => rfl
  | pending offset => rfl

theorem maybeClose_spoolLog (s : RunState) : s.maybeCloseStripedPayloadSpool.spoolLog = s.spoolLog := by
  rw [maybeCloseStripedPayloadSpool]
  split <;> rfl

theorem maybeClose_progress (s : RunState) :
    s.maybeCloseStripedPayloadSpool.progress = s.progress := by
  rw [maybeCloseStripedPayloadSpool]
  split <;> rfl

end RunState

/-- A stripe keeps what it kept, forgets nothing it has seen and does not move back. -/
structure SameBuffers (st st' : StripeState) : Prop where
  buffered : st'.buffered = st.buffered
  bufferedSpool : st'.bufferedSpool = st.bufferedSpool
  seen : ∀ seq, st.seen.has seq = true → st'.seen.has seq = true
  expectedSeq : st.expectedSeq ≤ st'.expectedSeq

/-- What the receiver can do to what it keeps, and to how far it is. -/
inductive BufferStep (s : RunState) : Option SpoolEvent → RunState → Prop where
  | quiet {s' : RunState} : s'.kept = s.kept → s'.progress = s.progress → BufferStep s none s'
  | stripe {s' : RunState} {id : Nat} {f : StripeState → StripeState} : s'.kept = s.kept →
      s'.stripes = (s.updateStripe id f).stripes → (s.striped = true → s'.striped = true) →
      SameBuffers (s.stripe id) (f (s.stripe id)) → BufferStep s none s'
  | bufferFuture {id : Nat} {packet : Packet} : (s.stripe id).seen.has packet.seq = false →
      s.canBufferStripedFuturePayload packet.payload.length = true →
      BufferStep s none
        { s.updateStripe id fun st => (st.markSeen packet.seq).storeBufferedPacket packet with
          stripedFutureBufferedBytes := s.stripedFutureBufferedBytes + packet.payload.length }
  | spoolFuture {id : Nat} {packet : Packet} : (s.stripe id).seen.has packet.seq = false →
      s.canBufferStripedFuturePayload packet.payload.length = false →
      BufferStep s (some (.spooled (.future id packet.seq) packet.offset packet.payload))
        (((s.writeSpool packet.offset packet.payload).logSpool
          (.spooled (.future id packet.seq) packet.offset packet.payload)).updateStripe id fun st =>
          { st.markSeen packet.seq with
            bufferedSpool := st.bufferedSpool.insert packet.seq
              ⟨{ packet with payload := [] }, packet.payload.length⟩ })
  | takeFuture {id : Nat} {packet : Packet} :
      (s.stripe id).buffered.lookup (s.stripe id).expectedSeq = some packet →
      BufferStep s none
        ((s.updateStripe id fun st => { st with buffered := st.buffered.erase st.expectedSeq })
          |>.releaseStripedFutureBuffer packet.payload.length)
  | unspoolFuture {id : Nat} {entry : SpooledPacket} {file : File} :
      (s.stripe id).bufferedSpool.lookup (s.stripe id).expectedSeq = some entry →
      s.pendingOutputSpool = some file →
      BufferStep s (some (.took (.future id (s.stripe id).expectedSeq)
          (file.readAt entry.packet.offset entry.payloadLen)))
        ((s.updateStripe id fun st =>
          { st with bufferedSpool := st.bufferedSpool.erase st.expectedSeq })
          |>.maybeCloseStripedPayloadSpool
          |>.logSpool (.took (.future id (s.stripe id).expectedSeq)
            (file.readAt entry.packet.offset entry.payloadLen)))
  | bufferPending {offset : Nat} {payload : List UInt8} : s.pendingOutput.lookup offset = none →
      s.pendingOutputBytes + payload.length ≤ stripedBlastPendingOutputLimitBytes →
      BufferStep s none
        { s with
          pendingOutput := s.pendingOutput.insert offset payload
          pendingOutputBytes := s.pendingOutputBytes + payload.length }
  | spoolPending {offset : Nat} {payload : List UInt8} :
      s.pendingOutputSpoolLens.lookup offset = none →
      stripedBlastPendingOutputLimitBytes < s.pendingOutputBytes + payload.length →
      BufferStep s (some (.spooled (.pending offset) offset payload))
        ({ s.writeSpool offset payload with
          pendingOutputSpoolLens := s.pendingOutputSpoolLens.insert offset payload.length
          : RunState }.logSpool (.spooled (.pending offset) offset payload))
  | takePending {payload : List UInt8} : s.pendingOutput.lookup s.nextOffset = some payload →
      BufferStep s none
        { s with
          pendingOutput := s.pendingOutput.erase s.nextOffset
          pendingOutputBytes := s.pendingOutputBytes - payload.length }
  | unspoolPending {n : Nat} {file : File} :
      s.pendingOutputSpoolLens.lookup s.nextOffset = some n → s.pendingOutputSpool = some file →
      BufferStep s (some (.took (.pending s.nextOffset) (file.readAt s.nextOffset n)))
        (({ s with
          pendingOutputSpoolLens := s.pendingOutputSpoolLens.erase s.nextOffset
          : RunState }.maybeCloseStripedPayloadSpool).logSpool
          (.took (.pending s.nextOffset) (file.readAt s.nextOffset n)))

/-- The events of a path are what it adds to the record. -/
theorem BufferStep.spoolLog {s s' : RunState} {e : Option SpoolEvent} (h : BufferStep s e s') :
    s'.spoolLog = s.spoolLog ++ e.toList := by
  have hquiet : ∀ {t : RunState}, t.kept = s.kept → t.spoolLog = s.spoolLog ++ [] := fun hkept =>
    (congrArg (fun k => k.2.2.2.2.2) hkept).trans (List.append_nil _).symm
  cases h with
  | quiet hkept _ => exact hquiet hkept
  | stripe hkept _ _ _ => exact hquiet hkept
  | bufferFuture => exact (List.append_nil _).symm
  | spoolFuture => rfl
  | takeFuture => exact (List.append_nil _).symm
  | unspoolFuture =>
      rw [RunState.logSpool, RunState.maybeClose_spoolLog]
      rfl
  | bufferPending => exact (List.append_nil _).symm
  | spoolPending => rfl
  | takePending => exact (List.append_nil _).symm
  | unspoolPending =>
      rw [RunState.logSpool, RunState.maybeClose_spoolLog]
      rfl

theorem spoolLog_of_trace {s s' : RunState} {es : List SpoolEvent} (h : Trace BufferStep s es s') :
    s'.spoolLog = s.spoolLog ++ es := by
  induction h with
  | nil => exact (List.append_nil _).symm
  | cons hstep _ ih => rw [ih, hstep.spoolLog, List.append_assoc]

/-! ## Every kept packet was seen -/

/-- A stripe has seen what it keeps. -/
structure StripeTracked (st : StripeState) : Prop where
  buffered : Map.All (fun seq _ => st.seen.has seq = true) st.buffered
  bufferedSpool : Map.All (fun seq _ => st.seen.has seq = true) st.bufferedSpool

namespace StripeTracked

variable {st st' : StripeState}

theorem of_same (h : StripeTracked st) (hsame : SameBuffers st st') : StripeTracked st' := by
  refine ⟨?_, ?_⟩
  · rw [hsame.buffered]
    exact h.buffered.mono fun seq _ => hsame.seen seq
  · rw [hsame.bufferedSpool]
    exact h.bufferedSpool.mono fun seq _ => hsame.seen seq

end StripeTracked

theorem StripeState.has_markSeen_self (st : StripeState) (seq : Nat) :
    (st.markSeen seq).seen.has seq = true := by
  simp [markSeen, SeqSet.has_add]

theorem SameBuffers.markSeen (st : StripeState) (seq : Nat) : SameBuffers st (st.markSeen seq) := by
  refine ⟨rfl, rfl, fun q hq => ?_, Nat.le_refl _⟩
  simp [StripeState.markSeen, SeqSet.has_add, hq]

/-- Every stripe has seen what it keeps. -/
def Tracked (s : RunState) : Prop := ∀ id, StripeTracked (s.stripe id)

theorem Tracked.updateStripe {s s' : RunState} (h : Tracked s) (id : Nat)
    (f : StripeState → StripeState) (hs' : s'.stripes = (s.updateStripe id f).stripes)
    (hf : StripeTracked (f (s.stripe id))) : Tracked s' := by
  intro j
  rw [RunState.stripe, hs', ← RunState.stripe, RunState.stripe_updateStripe]
  split
  · exact hf
  · exact h j

theorem maybeClose_stripes (s : RunState) : s.maybeCloseStripedPayloadSpool.stripes = s.stripes :=
  (Prod.mk.inj (s.maybeClose_progress)).2

theorem Tracked.step {s s' : RunState} {e : Option SpoolEvent} (h : Tracked s)
    (hstep : BufferStep s e s') : Tracked s' := by
  have hsame : ∀ {t : RunState}, t.stripes = s.stripes → Tracked t := by
    intro t ht id
    rw [RunState.stripe, ht]
    exact h id
  cases hstep with
  | quiet _ hprogress => exact hsame (congrArg Prod.snd hprogress)
  | stripe _ hstripes _ hst => exact h.updateStripe _ _ hstripes ((h _).of_same hst)
  | @bufferFuture id packet _ _ =>
      have hseen := (h id).of_same (SameBuffers.markSeen _ packet.seq)
      refine h.updateStripe id (fun st => (st.markSeen packet.seq).storeBufferedPacket packet) rfl ?_
      exact ⟨hseen.buffered.insert (StripeState.has_markSeen_self _ _), hseen.bufferedSpool⟩
  | @spoolFuture id packet _ _ =>
      have hseen := (h id).of_same (SameBuffers.markSeen _ packet.seq)
      refine h.updateStripe id (fun st =>
        { st.markSeen packet.seq with
          bufferedSpool := st.bufferedSpool.insert packet.seq
            ⟨{ packet with payload := [] }, packet.payload.length⟩ }) rfl ?_
      exact ⟨hseen.buffered, hseen.bufferedSpool.insert (StripeState.has_markSeen_self _ _)⟩
  | @takeFuture id packet _ =>
      refine h.updateStripe id (fun st => { st with buffered := st.buffered.erase st.expectedSeq })
        rfl ?_
      exact ⟨(h id).buffered.erase _, (h id).bufferedSpool⟩
  | @unspoolFuture id entry file _ _ =>
      refine h.updateStripe id (fun st =>
        { st with bufferedSpool := st.bufferedSpool.erase st.expectedSeq }) (maybeClose_stripes _) ?_
      exact ⟨(h id).buffered, (h id).bufferedSpool.erase _⟩
  | bufferPending => exact hsame rfl
  | spoolPending => exact hsame rfl
  | takePending => exact hsame rfl
  | unspoolPending => exact hsame (maybeClose_stripes _)

/-! ## The entries of the spool -/

variable {s s' : RunState} {e : Option SpoolEvent} {slot : Slot}

/-- The entries of a stripe's packets are the stripe's. -/
theorem RunState.waiting_future_updateStripe (s : RunState) (id : Nat) (f : StripeState → StripeState)
    (j seq : Nat) :
    (s.updateStripe id f).waiting (.future j seq) =
      if j = id then
        ((f (s.stripe id)).bufferedSpool.lookup seq).map fun e => (e.packet.offset, e.payloadLen)
      else s.waiting (.future j seq) := by
  rw [waiting, RunState.stripe_updateStripe]
  split <;> rfl

/-- A stripe that keeps its spooled packets keeps the entries. -/
theorem RunState.waiting_updateStripe (s : RunState) (id : Nat) (f : StripeState → StripeState)
    (h : (f (s.stripe id)).bufferedSpool = (s.stripe id).bufferedSpool) (slot : Slot) :
    (s.updateStripe id f).waiting slot = s.waiting slot := by
  cases slot with
  | pending offset => rfl
  | future j seq =>
      rw [waiting_future_updateStripe]
      split
      · rename_i hj
        rw [h, hj]
        rfl
      · rfl

/-- A stripe that spools a packet gets its entry. -/
theorem RunState.waiting_insertSpooled (s : RunState) {id seq : Nat} (entry : SpooledPacket)
    {f : StripeState → StripeState}
    (h : (f (s.stripe id)).bufferedSpool = (s.stripe id).bufferedSpool.insert seq entry) (slot : Slot) :
    (s.updateStripe id f).waiting slot =
      if slot = .future id seq then some (entry.packet.offset, entry.payloadLen)
      else s.waiting slot := by
  cases slot with
  | pending offset => rfl
  | future j q =>
      rw [waiting_future_updateStripe, h]
      by_cases hj : j = id
      · subst hj
        by_cases hq : q = seq
        · subst hq
          rw [if_pos rfl, if_pos rfl, AList.lookup_insert]
          rfl
        · rw [if_pos rfl, if_neg (by simp [hq]), AList.lookup_insert_ne hq]
          rfl
      · rw [if_neg hj, if_neg (by simp [hj])]

/-- A stripe that takes a packet from the spool loses its entry. -/
theorem RunState.waiting_eraseSpooled (s : RunState) {id seq : Nat} {f : StripeState → StripeState}
    (h : (f (s.stripe id)).bufferedSpool = (s.stripe id).bufferedSpool.erase seq) (slot : Slot) :
    (s.updateStripe id f).waiting slot = if slot = .future id seq then none else s.waiting slot := by
  cases slot with
  | pending offset => rfl
  | future j q =>
      rw [waiting_future_updateStripe, h]
      by_cases hj : j = id
      · subst hj
        by_cases hq : q = seq
        · subst hq
          rw [if_pos rfl, if_pos rfl, AList.lookup_erase]
          rfl
        · rw [if_pos rfl, if_neg (by simp [hq]), AList.lookup_erase_ne hq]
          rfl
      · rw [if_neg hj, if_neg (by simp [hj])]

theorem RunState.waiting_insertLens (s : RunState) (offset n : Nat) (slot : Slot) :
    ({ s with pendingOutputSpoolLens := s.pendingOutputSpoolLens.insert offset n } : RunState).waiting
      slot = if slot = .pending offset then some (offset, n) else s.waiting slot := by
  cases slot with
  | future id seq => rfl
  | pending o =>
      by_cases ho : o = offset
      · subst ho
        rw [if_pos rfl, waiting, AList.lookup_insert]
        rfl
      · rw [if_neg (by simp [ho]), waiting, AList.lookup_insert_ne ho]
        rfl

theorem RunState.waiting_eraseLens (s : RunState) (offset : Nat) (slot : Slot) :
    ({ s with pendingOutputSpoolLens := s.pendingOutputSpoolLens.erase offset } : RunState).waiting
      slot = if slot = .pending offset then none else s.waiting slot := by
  cases slot with
  | future id seq => rfl
  | pending o =>
      by_cases ho : o = offset
      · subst ho
        rw [if_pos rfl, waiting, AList.lookup_erase]
        rfl
      · rw [if_neg (by simp [ho]), waiting, AList.lookup_erase_ne ho]
        rfl

/-- The entries are read off the stripes and the table of lengths. -/
theorem RunState.waiting_congr (hstripes : s'.stripes = s.stripes)
    (hlens : s'.pendingOutputSpoolLens = s.pendingOutputSpoolLens) :
    s'.waiting slot = s.waiting slot := by
  cases slot with
  | pending offset => rw [waiting, waiting, hlens]
  | future id seq => rw [waiting, waiting, stripe, stripe, hstripes]

/-- The spool is closed only when no entry waits. -/
theorem RunState.maybeClose_spool (s : RunState) :
    s.maybeCloseStripedPayloadSpool.pendingOutputSpool = s.pendingOutputSpool ∨
      ∀ slot, s.waiting slot = none := by
  rw [maybeCloseStripedPayloadSpool]
  split
  · exact .inl rfl
  · rename_i hc
    simp only [Bool.or_eq_true, not_or, Bool.not_eq_true] at hc
    refine .inr fun slot => ?_
    cases slot with
    | pending offset =>
        have hlens : Map.All (fun _ _ => False) s.pendingOutputSpoolLens :=
          Map.All.of_isEmpty (by simpa using hc.1.2)
        cases hl : s.pendingOutputSpoolLens.lookup offset with
        | none => rw [waiting, hl, Option.map_none]
        | some n => exact (hlens offset n hl).elim
    | future id seq =>
        have hstripe : Map.All (fun _ _ => False) (s.stripe id).bufferedSpool := by
          rw [hasStripedFutureSpooledPackets, List.any_eq_false] at hc
          rw [stripe]
          cases hl : s.stripes.lookup id with
          | none => exact Map.All.empty
          | some st =>
              exact Map.All.of_isEmpty (by simpa using hc.2 ⟨id, st⟩ (Map.mem_entries_of_lookup hl))
        cases hl : (s.stripe id).bufferedSpool.lookup seq with
        | none => rw [waiting, hl, Option.map_none]
        | some entry => exact (hstripe seq entry hl).elim

theorem RunState.maybeClose_waiting (s : RunState) (slot : Slot) :
    s.maybeCloseStripedPayloadSpool.waiting slot = s.waiting slot := by
  rw [maybeCloseStripedPayloadSpool]
  split
  · rfl
  · rename_i hc
    simp only [Bool.or_eq_true, not_or, Bool.not_eq_true] at hc
    refine waiting_congr rfl ?_
    have hnil : s.pendingOutputSpoolLens.entries = [] := by simpa using hc.1.2
    exact (AList.ext (by rw [hnil]; rfl) : s.pendingOutputSpoolLens = ∅).symm

/-- What is spooled is a new entry. -/
theorem BufferStep.waiting_spooled {offset : Nat} {payload : List UInt8} (htracked : Tracked s)
    (h : BufferStep s (some (.spooled slot offset payload)) s') (slot' : Slot) :
    s.waiting slot = none ∧
      s'.waiting slot' = if slot' = slot then some (offset, payload.length) else s.waiting slot' := by
  cases h with
  | @spoolFuture id packet hnew _ =>
      refine ⟨?_, ((s.writeSpool packet.offset packet.payload).logSpool
        (.spooled (.future id packet.seq) packet.offset packet.payload)).waiting_insertSpooled
        ⟨{ packet with payload := [] }, packet.payload.length⟩ rfl slot'⟩
      cases hl : (s.stripe id).bufferedSpool.lookup packet.seq with
      | none => rw [RunState.waiting, hl, Option.map_none]
      | some entry =>
          rw [(htracked id).bufferedSpool _ _ hl] at hnew
          cases hnew
  | spoolPending hnew _ =>
      refine ⟨?_, ((s.writeSpool offset payload).logSpool
        (.spooled (.pending offset) offset payload)).waiting_insertLens offset payload.length slot'⟩
      rw [RunState.waiting, hnew, Option.map_none]

/-- What is taken no longer waits. -/
theorem BufferStep.waiting_took {payload : List UInt8}
    (h : BufferStep s (some (.took slot payload)) s') (slot' : Slot) :
    s'.waiting slot' = if slot' = slot then none else s.waiting slot' := by
  cases h with
  | unspoolFuture =>
      rw [RunState.waiting_logSpool, RunState.maybeClose_waiting]
      exact s.waiting_eraseSpooled rfl slot'
  | unspoolPending =>
      rw [RunState.waiting_logSpool, RunState.maybeClose_waiting]
      exact s.waiting_eraseLens s.nextOffset slot'

/-- Without an event the entries stay. -/
theorem BufferStep.waiting_silent (h : BufferStep s none s') (slot : Slot) :
    s'.waiting slot = s.waiting slot := by
  cases h with
  | quiet hkept hprogress =>
      exact RunState.waiting_congr (congrArg Prod.snd hprogress) (congrArg (fun k => k.2.2.2.2.1) hkept)
  | @stripe _ id f hkept hstripes _ hst =>
      rw [← s.waiting_updateStripe id f hst.bufferedSpool slot]
      exact RunState.waiting_congr hstripes (congrArg (fun k => k.2.2.2.2.1) hkept)
  | @bufferFuture id packet _ _ =>
      exact s.waiting_updateStripe id
        (fun st => (st.markSeen packet.seq).storeBufferedPacket packet) rfl slot
  | @takeFuture id packet _ =>
      exact s.waiting_updateStripe id
        (fun st => { st with buffered := st.buffered.erase st.expectedSeq }) rfl slot
  | bufferPending => rfl
  | takePending => rfl

/-- An entry stays until it is taken, and a new one was spooled. -/
theorem BufferStep.waiting (h : BufferStep s e s') (htracked : Tracked s) (slot : Slot) :
    s'.waiting slot = s.waiting slot ∨
      (∃ payload, e = some (.took slot payload) ∧ s'.waiting slot = none) ∨
      ∃ offset payload, e = some (.spooled slot offset payload) ∧ s.waiting slot = none ∧
        s'.waiting slot = some (offset, payload.length) := by
  rcases e with _ | (⟨slot₀, offset, payload⟩ | ⟨slot₀, payload⟩)
  · exact .inl (h.waiting_silent slot)
  · obtain ⟨hnone, hnew⟩ := h.waiting_spooled htracked slot
    by_cases hslot : slot = slot₀
    · subst hslot
      exact .inr (.inr ⟨offset, payload, rfl, hnone, hnew.trans (if_pos rfl)⟩)
    · exact .inl (hnew.trans (if_neg hslot))
  · have htook := h.waiting_took slot
    by_cases hslot : slot = slot₀
    · subst hslot
      exact .inr (.inl ⟨payload, rfl, htook.trans (if_pos rfl)⟩)
    · exact .inl (htook.trans (if_neg hslot))

/-- The spool changes by what is spooled, and when no entry waits. -/
theorem BufferStep.spool (h : BufferStep s e s') :
    (∃ slot offset payload, e = some (.spooled slot offset payload) ∧
      s'.pendingOutputSpool = some ((s.pendingOutputSpool.getD []).writeAt offset payload)) ∨
      ((∀ slot offset payload, e ≠ some (.spooled slot offset payload)) ∧
        (s'.pendingOutputSpool = s.pendingOutputSpool ∨ ∀ slot, s'.waiting slot = none)) := by
  have hclose : ∀ t : RunState, t.pendingOutputSpool = s.pendingOutputSpool →
      t.maybeCloseStripedPayloadSpool.pendingOutputSpool = s.pendingOutputSpool ∨
        ∀ slot, t.maybeCloseStripedPayloadSpool.waiting slot = none := by
    intro t ht
    rcases t.maybeClose_spool with hspool | hnone
    · exact .inl (hspool.trans ht)
    · exact .inr fun slot => (t.maybeClose_waiting slot).trans (hnone slot)
  cases h with
  | spoolFuture => exact .inl ⟨_, _, _, rfl, rfl⟩
  | spoolPending => exact .inl ⟨_, _, _, rfl, rfl⟩
  | quiet hkept _ => exact .inr ⟨by simp, .inl (congrArg (fun k => k.2.2.2.1) hkept)⟩
  | stripe hkept _ _ _ => exact .inr ⟨by simp, .inl (congrArg (fun k => k.2.2.2.1) hkept)⟩
  | bufferFuture => exact .inr ⟨by simp, .inl rfl⟩
  | takeFuture => exact .inr ⟨by simp, .inl rfl⟩
  | bufferPending => exact .inr ⟨by simp, .inl rfl⟩
  | takePending => exact .inr ⟨by simp, .inl rfl⟩
  | unspoolFuture => exact .inr ⟨by simp, hclose _ rfl⟩
  | unspoolPending => exact .inr ⟨by simp, hclose _ rfl⟩

/-! ## No entry is lost -/

/-- The spool has all bytes of every entry. -/
def Readable (s : RunState) : Prop :=
  ∀ slot offset n, s.waiting slot = some (offset, n) →
    ∃ file, s.pendingOutputSpool = some file ∧ offset + n ≤ file.length

theorem Readable.step (h : Readable s) (htracked : Tracked s) (hstep : BufferStep s e s') :
    Readable s' := by
  intro slot offset n hw
  rcases hstep.spool with ⟨slot₀, offset₀, payload₀, he, hspool⟩ | ⟨hne, hspool⟩
  · refine ⟨_, hspool, ?_⟩
    rw [File.length_writeAt_eq]
    rcases hstep.waiting htracked slot with hsame | ⟨payload, he', -⟩ | ⟨o, payload, he', -, hnew⟩
    · obtain ⟨file, hfile, hlen⟩ := h slot offset n (hsame ▸ hw)
      rw [hfile, Option.getD_some]
      omega
    · rw [he] at he'
      cases he'
    · rw [he] at he'
      cases he'
      rw [hnew] at hw
      cases hw
      omega
  · rcases hspool with hspool | hnone
    · rcases hstep.waiting htracked slot with hsame | ⟨payload, -, hnone⟩ | ⟨o, payload, he, -, -⟩
      · rw [hspool]
        exact h slot offset n (hsame ▸ hw)
      · rw [hnone] at hw
        cases hw
      · exact absurd he (hne _ _ _)
    · rw [hnone] at hw
      cases hw

/-- The entry of a slot waits in the spool as the payload. -/
def Holds (s : RunState) (slot : Slot) (offset : Nat) (payload : List UInt8) : Prop :=
  s.waiting slot = some (offset, payload.length) ∧
    ∃ file, s.pendingOutputSpool = some file ∧ offset + payload.length ≤ file.length ∧
      file.readAt offset payload.length = payload

/-- What is spooled waits as it is. -/
theorem Holds.of_spooled {offset : Nat} {payload : List UInt8} (htracked : Tracked s)
    (hstep : BufferStep s (some (.spooled slot offset payload)) s') :
    Holds s' slot offset payload := by
  refine ⟨(hstep.waiting_spooled htracked slot).2.trans (if_pos rfl), ?_⟩
  rcases hstep.spool with ⟨slot₀, o, p, he, hspool⟩ | ⟨hne, -⟩
  · cases he
    refine ⟨_, hspool, ?_, File.readAt_writeAt _ offset payload⟩
    rw [File.length_writeAt_eq]
    exact Nat.le_max_right _ _
  · exact absurd rfl (hne slot offset payload)

/-- An event leaves a waiting payload alone: it takes another entry, or spools what
agrees with it. -/
def SpoolEvent.Spares (slot : Slot) (offset : Nat) (payload : List UInt8) : SpoolEvent → Prop
  | .spooled _ o p => File.Agree offset payload o p
  | .took slot' _ => slot' ≠ slot

/-- A waiting payload stays as it is while it is left alone. -/
theorem Holds.step {offset : Nat} {payload : List UInt8} (h : Holds s slot offset payload)
    (htracked : Tracked s) (hspares : ∀ x ∈ e, x.Spares slot offset payload)
    (hstep : BufferStep s e s') : Holds s' slot offset payload := by
  obtain ⟨hw, file, hfile, hlen, hread⟩ := h
  have hw' : s'.waiting slot = some (offset, payload.length) := by
    rcases hstep.waiting htracked slot with hsame | ⟨p, he, -⟩ | ⟨o, p, -, hnone, -⟩
    · rw [hsame, hw]
    · exact absurd rfl (hspares _ he)
    · rw [hnone] at hw
      cases hw
  refine ⟨hw', ?_⟩
  rcases hstep.spool with ⟨slot₀, o, p, he, hspool⟩ | ⟨-, hspool | hnone⟩
  · rw [hfile, Option.getD_some] at hspool
    refine ⟨_, hspool, ?_, File.readAt_writeAt_of_agree hlen hread (hspares _ he)⟩
    rw [File.length_writeAt_eq]
    omega
  · exact ⟨file, hspool.trans hfile, hlen, hread⟩
  · rw [hnone] at hw'
    cases hw'

theorem Tracked.trace {es : List SpoolEvent} (h : Tracked s) (htrace : Trace BufferStep s es s') :
    Tracked s' :=
  htrace.invariant (fun _ _ _ ht hstep => ht.step hstep) h

/-- A payload that was spooled and left alone since is there. -/
theorem Holds.of_trace {before between : List SpoolEvent} {offset : Nat} {payload : List UInt8}
    (htracked : Tracked s)
    (htrace : Trace BufferStep s (before ++ .spooled slot offset payload :: between) s')
    (hspares : ∀ x ∈ between, x.Spares slot offset payload) : Holds s' slot offset payload := by
  obtain ⟨t, t', hbefore, hspooled, hbetween⟩ := htrace.split
  have ht : Tracked t := htracked.trace hbefore
  have hholds : Tracked s' ∧ Holds s' slot offset payload := by
    refine hbetween.invariant_of_mem (I := fun s => Tracked s ∧ Holds s slot offset payload) ?_
      hspares ⟨ht.step hspooled, Holds.of_spooled ht hspooled⟩
    rintro s e s₁ ⟨hs, hh⟩ hx hstep
    exact ⟨hs.step hstep, hh.step hs hx hstep⟩
  exact hholds.2

/-- An entry that waits was there at the start or was spooled, and not taken since. -/
theorem waiting_of_trace {es : List SpoolEvent} {offset n : Nat} (htracked : Tracked s)
    (htrace : Trace BufferStep s es s') (hw : s'.waiting slot = some (offset, n)) :
    (s.waiting slot = some (offset, n) ∧ ∀ payload, .took slot payload ∉ es) ∨
      ∃ before between payload, es = before ++ .spooled slot offset payload :: between ∧
        payload.length = n ∧ ∀ taken, .took slot taken ∉ between := by
  induction htrace with
  | nil => exact .inl ⟨hw, by simp⟩
  | @cons s t u e es hstep hrest ih =>
      rcases ih (htracked.step hstep) hw with ⟨ht, hnot⟩ | ⟨before, between, payload, rfl, hn, hnot⟩
      · have hkept : ∀ payload, e ≠ some (.took slot payload) := by
          rintro payload rfl
          rw [hstep.waiting_took, if_pos rfl] at ht
          cases ht
        rcases hstep.waiting htracked slot with hsame | ⟨p, -, hnone⟩ | ⟨o, p, rfl, -, hnew⟩
        · refine .inl ⟨hsame ▸ ht, fun payload hp => ?_⟩
          rcases List.mem_append.mp hp with hp | hp
          · exact hkept payload (Option.mem_toList.mp hp)
          · exact hnot payload hp
        · rw [hnone] at ht
          cases ht
        · rw [hnew] at ht
          cases ht
          exact .inr ⟨[], es, p, rfl, rfl, hnot⟩
      · exact .inr ⟨e.toList ++ before, between, payload, by rw [List.append_assoc], hn, hnot⟩

/-! ## The counters -/

/-- The counters are the sizes of what is in memory, and within their limits. -/
structure Accounted (s : RunState) : Prop where
  pending_eq : s.pendingOutputBytes = s.pendingBytes
  pending_le : s.pendingOutputBytes ≤ stripedBlastPendingOutputLimitBytes
  future_eq : s.stripedFutureBufferedBytes = s.futureBytes
  future_le : s.stripedFutureBufferedBytes ≤ stripedBlastFutureBufferLimitBytes

/-- The bytes of a stripe take the place of those it had. -/
theorem RunState.futureBytes_updateStripe (s : RunState) (id : Nat) (f : StripeState → StripeState) :
    (s.updateStripe id f).futureBytes + (s.stripe id).bufferedBytes =
      (f (s.stripe id)).bufferedBytes + s.futureBytes :=
  Map.total_insert StripeState.bufferedBytes rfl id _

namespace Accounted

/-- A step that changes nothing in memory. -/
theorem of_eq (h : Accounted s) (hpending : s'.pendingOutput = s.pendingOutput)
    (hpendingBytes : s'.pendingOutputBytes = s.pendingOutputBytes)
    (hfuture : s'.stripedFutureBufferedBytes = s.stripedFutureBufferedBytes)
    (hstripes : s'.stripes = s.stripes) : Accounted s' := by
  refine ⟨?_, hpendingBytes ▸ h.pending_le, ?_, hfuture ▸ h.future_le⟩
  · rw [hpendingBytes, h.pending_eq, RunState.pendingBytes, RunState.pendingBytes, hpending]
  · rw [hfuture, h.future_eq, RunState.futureBytes, RunState.futureBytes, hstripes]

theorem maybeClose (h : Accounted s) : Accounted s.maybeCloseStripedPayloadSpool := by
  rw [RunState.maybeCloseStripedPayloadSpool]
  split
  · exact h
  · exact h.of_eq rfl rfl rfl rfl

/-- A stripe whose bytes in memory change as the counter does. -/
theorem updateStripe (h : Accounted s) (id : Nat) (f : StripeState → StripeState)
    (hpending : s'.pendingOutput = s.pendingOutput)
    (hpendingBytes : s'.pendingOutputBytes = s.pendingOutputBytes)
    (hstripes : s'.stripes = (s.updateStripe id f).stripes)
    (hcount : s'.stripedFutureBufferedBytes + (s.stripe id).bufferedBytes =
      (f (s.stripe id)).bufferedBytes + s.stripedFutureBufferedBytes)
    (hle : s'.stripedFutureBufferedBytes ≤ stripedBlastFutureBufferLimitBytes) : Accounted s' := by
  refine ⟨?_, hpendingBytes ▸ h.pending_le, ?_, hle⟩
  · rw [hpendingBytes, h.pending_eq, RunState.pendingBytes, RunState.pendingBytes, hpending]
  · have hbytes := s.futureBytes_updateStripe id f
    have heq := h.future_eq
    rw [RunState.futureBytes, hstripes, ← RunState.futureBytes]
    omega

theorem bufferFuture (h : Accounted s) (htracked : Tracked s) {id : Nat} {packet : Packet}
    (hnew : (s.stripe id).seen.has packet.seq = false)
    (hfits : s.canBufferStripedFuturePayload packet.payload.length = true) :
    Accounted
      { s.updateStripe id fun st => (st.markSeen packet.seq).storeBufferedPacket packet with
        stripedFutureBufferedBytes := s.stripedFutureBufferedBytes + packet.payload.length } := by
  have hfresh : (s.stripe id).buffered.lookup packet.seq = none := by
    cases hl : (s.stripe id).buffered.lookup packet.seq with
    | none => rfl
    | some p =>
        rw [(htracked id).buffered _ _ hl] at hnew
        cases hnew
  have hstripe : (((s.stripe id).markSeen packet.seq).storeBufferedPacket packet).bufferedBytes =
      packet.payload.length + (s.stripe id).bufferedBytes :=
    Map.total_insert_of_lookup (fun packet : Packet => packet.payload.length) hfresh
  refine h.updateStripe id (fun st => (st.markSeen packet.seq).storeBufferedPacket packet) rfl rfl
    rfl ?_ ?_
  · show s.stripedFutureBufferedBytes + packet.payload.length + _ = _
    omega
  · have hle := h.future_le
    simp only [RunState.canBufferStripedFuturePayload, decide_eq_true_eq] at hfits
    show s.stripedFutureBufferedBytes + packet.payload.length ≤ stripedBlastFutureBufferLimitBytes
    omega

theorem takeFuture (h : Accounted s) {id : Nat} {packet : Packet}
    (hpacket : (s.stripe id).buffered.lookup (s.stripe id).expectedSeq = some packet) :
    Accounted
      ((s.updateStripe id fun st => { st with buffered := st.buffered.erase st.expectedSeq })
        |>.releaseStripedFutureBuffer packet.payload.length) := by
  let f : StripeState → StripeState := fun st =>
    { st with buffered := st.buffered.erase st.expectedSeq }
  have hstripe : (s.stripe id).bufferedBytes =
      packet.payload.length + (f (s.stripe id)).bufferedBytes :=
    Map.total_erase (fun packet : Packet => packet.payload.length) hpacket
  have hbytes := s.futureBytes_updateStripe id f
  have heq := h.future_eq
  refine h.updateStripe id f rfl rfl rfl ?_ (Nat.le_trans (Nat.sub_le _ _) h.future_le)
  show s.stripedFutureBufferedBytes - packet.payload.length + _ = _
  omega

theorem bufferPending (h : Accounted s) {offset : Nat} {payload : List UInt8}
    (hnew : s.pendingOutput.lookup offset = none)
    (hfits : s.pendingOutputBytes + payload.length ≤ stripedBlastPendingOutputLimitBytes) :
    Accounted
      { s with
        pendingOutput := s.pendingOutput.insert offset payload
        pendingOutputBytes := s.pendingOutputBytes + payload.length } := by
  refine ⟨?_, hfits, h.future_eq, h.future_le⟩
  show s.pendingOutputBytes + payload.length =
    Map.total List.length (s.pendingOutput.insert offset payload)
  rw [Map.total_insert_of_lookup List.length hnew, h.pending_eq, RunState.pendingBytes, Nat.add_comm]

theorem takePending (h : Accounted s) {offset : Nat} {payload : List UInt8}
    (hpayload : s.pendingOutput.lookup offset = some payload) :
    Accounted
      { s with
        pendingOutput := s.pendingOutput.erase offset
        pendingOutputBytes := s.pendingOutputBytes - payload.length } := by
  refine ⟨?_, Nat.le_trans (Nat.sub_le _ _) h.pending_le, h.future_eq, h.future_le⟩
  show s.pendingOutputBytes - payload.length =
    Map.total List.length (s.pendingOutput.erase offset)
  rw [h.pending_eq, RunState.pendingBytes, Map.total_erase List.length hpayload, Nat.add_sub_cancel_left]

theorem step (h : Accounted s) (htracked : Tracked s) (hstep : BufferStep s e s') : Accounted s' := by
  cases hstep with
  | quiet hkept hprogress =>
      exact h.of_eq (congrArg (fun k => k.1) hkept) (congrArg (fun k => k.2.1) hkept)
        (congrArg (fun k => k.2.2.1) hkept) (congrArg Prod.snd hprogress)
  | @stripe _ id f hkept hstripes _ hst =>
      have hcount : s'.stripedFutureBufferedBytes = s.stripedFutureBufferedBytes :=
        congrArg (fun k => k.2.2.1) hkept
      refine h.updateStripe id f (congrArg (fun k => k.1) hkept) (congrArg (fun k => k.2.1) hkept)
        hstripes ?_ (hcount ▸ h.future_le)
      rw [hcount, Nat.add_comm, StripeState.bufferedBytes, StripeState.bufferedBytes, hst.buffered]
  | bufferFuture hnew hfits => exact h.bufferFuture htracked hnew hfits
  | @spoolFuture id packet _ _ =>
      exact h.updateStripe id (fun st =>
        { st.markSeen packet.seq with
          bufferedSpool := st.bufferedSpool.insert packet.seq
            ⟨{ packet with payload := [] }, packet.payload.length⟩ }) rfl rfl rfl
        (Nat.add_comm _ _) h.future_le
  | takeFuture hpacket => exact h.takeFuture hpacket
  | @unspoolFuture id entry file _ _ =>
      have hstripe : Accounted (s.updateStripe id fun st =>
          { st with bufferedSpool := st.bufferedSpool.erase st.expectedSeq }) :=
        h.updateStripe id _ rfl rfl rfl (Nat.add_comm _ _) h.future_le
      exact hstripe.maybeClose.of_eq rfl rfl rfl rfl
  | bufferPending hnew hfits => exact h.bufferPending hnew hfits
  | spoolPending => exact h.of_eq rfl rfl rfl rfl
  | takePending hpayload => exact h.takePending hpayload
  | unspoolPending =>
      have hlens : Accounted { s with pendingOutputSpoolLens := s.pendingOutputSpoolLens.erase s.nextOffset } :=
        h.of_eq rfl rfl rfl rfl
      exact hlens.maybeClose.of_eq rfl rfl rfl rfl

end Accounted

end Probe
