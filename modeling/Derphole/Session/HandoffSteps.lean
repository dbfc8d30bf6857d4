import Derphole.Session.HandoffReceive

/-!
# Steps of the handoff

What a chunk does to the receiver and a frame to its loop, and what `pumpSource`, the loop of the sender
and the reader of the direct path leave as it is in the spool.
-/

namespace Session

open Lib

/-! ## The receiver -/

namespace HandoffReceiver

variable {r : HandoffReceiver}

/-- Nothing is new to a receiver that has everything. -/
theorem acceptChunk_of_le {chunk : HandoffChunk}
    (h : chunk.offset + chunk.payload.length ≤ r.watermark) (fault : Option WriteFault) :
    r.acceptChunk chunk fault = (true, r) := by
  rw [HandoffReceiver.acceptChunk, if_pos h]
  split <;> rfl

end HandoffReceiver

namespace PrefixReceiver

/-- The receiver against the frames of the first `hi` bytes.  As long as there was no error the output is
the source up to the watermark; after one, the watermark is not at the end, unless no write was under
way. -/
structure Holds (S : List UInt8) (hi : Nat) (r : PrefixReceiver) : Prop where
  le : r.rx.watermark ≤ hi
  rx : r.status = .running → r.rx.Safe (S.take hi)
  out : r.rx.out = S.take r.rx.watermark ∨ r.status = .failed ∧ r.rx.watermark < hi

/-- What an acknowledgement says of the receiver. -/
def Says (r : PrefixReceiver) (a : PrefixAck) : Prop :=
  a.watermark ≤ r.rx.watermark ∧
    (a.handoff = true → r.status = .handedOff ∧ r.rx.watermark ≤ a.watermark)

variable {S : List UInt8} {hi : Nat} {r : PrefixReceiver}

theorem finishIfBoundaryReached_rx : r.finishIfBoundaryReached.1.rx = r.rx := by
  rw [finishIfBoundaryReached]
  split
  · rfl
  · split <;> rfl

theorem eq_ack_of_mem_finish {a : PrefixAck} (h : a ∈ r.finishIfBoundaryReached.2) :
    a = r.ack := by
  rw [finishIfBoundaryReached] at h
  split at h
  · cases h
  · split at h
    · exact List.mem_singleton.mp h
    · cases h

theorem Holds.mono (h : Holds S hi r) {hi' : Nat} (hle : hi ≤ hi') : Holds S hi' r where
  le := Nat.le_trans h.le hle
  rx := fun hrun => (h.rx hrun).mono (List.take_prefix_take_left hle)
  out := h.out.imp_right fun hf => ⟨hf.1, Nat.lt_of_lt_of_le hf.2 hle⟩

/-- The data frames on the relay. -/
def FrameOk (S : List UInt8) (hi : Nat) : PrefixFrame → Prop
  | .data chunk => SliceAt S chunk.offset chunk.payload ∧ chunk.offset + chunk.payload.length ≤ hi
  | _ => True

theorem FrameOk.mono {frame : PrefixFrame} (h : FrameOk S hi frame) {hi' : Nat} (hle : hi ≤ hi') :
    FrameOk S hi' frame := by
  cases frame with
  | data chunk => exact ⟨h.1, Nat.le_trans h.2 hle⟩
  | eof offset => trivial
  | handoff offset => trivial

theorem watermark_le_of_safe (h : r.rx.Safe (S.take hi)) : r.rx.watermark ≤ hi :=
  Nat.le_trans h.le (List.length_take_le _ _)

theorem out_of_safe (h : r.rx.Safe (S.take hi)) : r.rx.out = S.take r.rx.watermark := by
  rw [h.out, List.take_take, Nat.min_eq_left (watermark_le_of_safe h)]

theorem Holds.finishIfBoundaryReached (h : r.rx.Safe (S.take hi)) : Holds S hi r.finishIfBoundaryReached.1 := by
  have hrx := finishIfBoundaryReached_rx (r := r)
  refine ⟨?_, fun _ => ?_, .inl ?_⟩
  · rw [hrx]
    exact watermark_le_of_safe h
  · rw [hrx]
    exact h
  · rw [hrx]
    exact out_of_safe h

theorem Holds.accepts (h : Holds S hi r) (hrun : r.status = .running) {chunk : HandoffChunk}
    (hframe : FrameOk S hi (.data chunk)) (fault : Option HandoffReceiver.WriteFault) :
    HandoffReceiver.Accepts (S.take hi) r.rx.watermark fault (r.rx.acceptChunk chunk fault) :=
  (h.rx hrun).accepts (hframe.1.in_take hframe.2) fault

/-- After an error there was more to come. -/
theorem Holds.below_of_refused (h : Holds S hi r) (hrun : r.status = .running) {chunk : HandoffChunk}
    (hframe : FrameOk S hi (.data chunk)) {fault : Option HandoffReceiver.WriteFault} {rx : HandoffReceiver}
    (hfail : r.rx.acceptChunk chunk fault = (false, rx)) : rx.watermark < hi := by
  have haccepts := h.accepts hrun hframe fault
  rw [hfail] at haccepts
  exact Nat.lt_of_lt_of_le (haccepts.below rfl) (List.length_take_le _ _)

/-- One round of the loop: the receiver still holds, its watermark does not go back, and its
acknowledgements say where it is. -/
theorem Holds.handle (h : Holds S hi r) (hrun : r.status = .running) {frame : PrefixFrame}
    (hframe : FrameOk S hi frame) (fault : Option HandoffReceiver.WriteFault) :
    Holds S hi (r.handle fault frame).1 ∧ r.rx.watermark ≤ (r.handle fault frame).1.rx.watermark ∧
      ∀ a ∈ (r.handle fault frame).2, (r.handle fault frame).1.Says a := by
  have hrx := h.rx hrun
  cases frame with
  | data chunk =>
      have haccepts := h.accepts hrun hframe fault
      have hle := haccepts.watermark_le
      rw [PrefixReceiver.handle]
      split
      next rx heq =>
        rw [heq] at hle
        have hbelow := h.below_of_refused hrun hframe heq
        exact ⟨⟨Nat.le_of_lt hbelow, fun he => (by cases he), .inr ⟨rfl, hbelow⟩⟩, hle,
          fun a ha => (by cases ha)⟩
      next rx heq =>
        rw [heq] at haccepts hle
        refine ⟨Holds.finishIfBoundaryReached (haccepts.safe rfl), ?_, ?_⟩
        · rw [finishIfBoundaryReached_rx]
          exact hle
        · intro a ha
          have hack : a = PrefixReceiver.ack { r with rx := rx } := by
            rcases List.mem_cons.mp ha with rfl | ha
            · rfl
            · exact eq_ack_of_mem_finish ha
          rw [hack, Says, finishIfBoundaryReached_rx]
          exact ⟨Nat.le_refl _, fun he => (by cases he)⟩
  | eof offset =>
      rw [PrefixReceiver.handle]
      refine ⟨Holds.finishIfBoundaryReached hrx, ?_, ?_⟩
      · rw [finishIfBoundaryReached_rx]
      · intro a ha
        rw [eq_ack_of_mem_finish ha, Says, finishIfBoundaryReached_rx]
        exact ⟨Nat.le_refl _, fun he => (by cases he)⟩
  | handoff offset =>
      rw [PrefixReceiver.handle]
      refine ⟨⟨h.le, fun he => (by cases he), .inl (out_of_safe hrx)⟩, Nat.le_refl _, ?_⟩
      intro a ha
      rw [List.mem_singleton.mp ha]
      exact ⟨Nat.le_refl _, fun _ => ⟨rfl, Nat.le_refl _⟩⟩

/-- A frame that holds nothing new leaves the output as it is. -/
theorem handle_rx_of_le {frame : PrefixFrame} (hframe : FrameOk S hi frame) (hle : hi ≤ r.rx.watermark)
    (fault : Option HandoffReceiver.WriteFault) : (r.handle fault frame).1.rx = r.rx := by
  cases frame with
  | data chunk =>
      have haccept := HandoffReceiver.acceptChunk_of_le (Nat.le_trans hframe.2 hle) fault
      rw [PrefixReceiver.handle, haccept]
      exact finishIfBoundaryReached_rx
  | eof offset => exact finishIfBoundaryReached_rx
  | handoff offset => rfl

end PrefixReceiver

/-! ## Steps of the spool -/

namespace Spool

/-- `pumpSource` is gone when the source has ended. -/
def Ended (p : Spool) : Prop := p.eof = true → p.pump = .exited

/-- What `pumpSource` leaves as it is. -/
structure Pumped (p q : Spool) : Prop where
  readOffset : q.readOffset = p.readOffset
  ackedWatermark : q.ackedWatermark = p.ackedWatermark
  waiting : q.waiting = p.waiting
  reader : q.reader = p.reader
  sourceOffset : p.sourceOffset ≤ q.sourceOffset
  eof : p.eof = false
  ended : q.Ended

/-- What the reader leaves as it is. -/
structure ReaderMoved (p q : Spool) : Prop where
  sourceOffset : q.sourceOffset = p.sourceOffset
  eof : q.eof = p.eof
  pump : q.pump = p.pump
  ackedWatermark : p.ackedWatermark ≤ q.ackedWatermark
  start : q.reader.start = p.reader.start
  carriers : .carrier ∈ q.waiting.map Prod.fst → .carrier ∈ p.waiting.map Prod.fst

variable {S : List UInt8} {p q : Spool}

theorem Ended.eof_of_ne (h : p.Ended) {pump : SpoolPump} (hp : p.pump = pump) (hne : pump ≠ .exited) :
    p.eof = false := by
  cases heof : p.eof with
  | false => rfl
  | true => exact absurd (hp.symm.trans (h heof)) hne

theorem settle_ended (result : SourceResult) : (p.settle result).Ended := by
  intro heof
  have heof' : (p.eof || decide (result = .eof)) = true := heof
  simp [Spool.settle, heof']

theorem pumped_turn (hend : p.Ended) (h : p.turn = some q) : Pumped p q := by
  rw [Spool.turn] at h
  split at h
  · cases h
  next hp =>
    have heof := hend.eof_of_ne (not_not.mp hp) (by decide)
    split at h
    · cases h
      exact ⟨rfl, rfl, rfl, rfl, Nat.le_refl _, heof, fun _ => rfl⟩
    split at h
    · cases h
    · cases h
      refine ⟨rfl, rfl, rfl, rfl, Nat.le_refl _, heof, ?_⟩
      intro he
      exact absurd (heof.symm.trans he) (by decide)

theorem pumped_pull (hend : p.Ended) {n : Nat} {result : SourceResult}
    (h : p.pull S n result = some q) : Pumped p q := by
  rw [Spool.pull] at h
  split at h
  next readSize hp =>
    have heof := hend.eof_of_ne hp (by simp)
    split at h
    · cases h
      refine ⟨rfl, rfl, rfl, rfl, Nat.le_refl _, heof, ?_⟩
      intro he
      exact absurd (heof.symm.trans he) (by decide)
    · cases h
  next => cases h

theorem pumped_store (hend : p.Ended) (h : p.store = some q) : Pumped p q := by
  rw [Spool.store] at h
  split at h
  next payload result hp =>
    cases h
    exact ⟨rfl, rfl, rfl, rfl, Nat.le_add_right _ _, hend.eof_of_ne hp (by simp), settle_ended _⟩
  next => cases h

theorem pumped_storeFails (hend : p.Ended) {written : Nat} (h : p.storeFails written = some q) :
    Pumped p q := by
  rw [Spool.storeFails] at h
  split at h
  next payload result hp =>
    split at h
    · cases h
      exact ⟨rfl, rfl, rfl, rfl, Nat.le_refl _, hend.eof_of_ne hp (by simp), settle_ended _⟩
    · cases h
  next => cases h

theorem turn_eof (h : p.turn = some q) : q.eof = p.eof := by
  rw [Spool.turn] at h
  split at h
  · cases h
  split at h
  · cases h
    rfl
  split at h
  · cases h
  · cases h
    rfl

theorem pull_eof {n : Nat} {result : SourceResult} (h : p.pull S n result = some q) :
    q.eof = p.eof := by
  rw [Spool.pull] at h
  split at h
  · split at h
    · cases h
      rfl
    · cases h
  · cases h

theorem ackTo_eq (watermark : Int) : ∃ acked early, p.ackTo watermark =
    { p with ackedWatermark := acked, early := early } ∧
      (acked = p.ackedWatermark ∨ (acked : Int) = watermark ∧ p.ackedWatermark ≤ acked) := by
  rw [Spool.ackTo]
  split
  · exact ⟨p.ackedWatermark, p.early, rfl, .inl rfl⟩
  · refine ⟨watermark.toNat, _, rfl, .inr ⟨?_, ?_⟩⟩
    · omega
    · omega

/-- An acknowledgement that `AckTo` does not reject. -/
theorem ackTo_max {w : Nat} (h : ¬ (w > p.sourceOffset ∧ ¬ w < p.ackedWatermark)) :
    ∃ early, p.ackTo w = { p with ackedWatermark := max p.ackedWatermark w, early := early } := by
  rw [Spool.ackTo]
  split
  next hskip =>
    refine ⟨p.early, ?_⟩
    rw [Nat.max_eq_left (by omega)]
  next hkeep =>
    refine ⟨p.early || decide ((w : Int) > p.readOffset), ?_⟩
    rw [Nat.max_eq_right (by omega)]
    rfl

theorem mem_map_fst_erase {w : SpoolCaller × Nat} {who : SpoolCaller}
    (h : who ∈ (p.waiting.erase w).map Prod.fst) : who ∈ p.waiting.map Prod.fst :=
  (List.erase_sublist.map Prod.fst).subset h

theorem readerMoved_enter (h : p.enter .reader = some q) : ReaderMoved p q := by
  rw [Spool.enter] at h
  split at h
  · cases h
  split at h
  · cases h
    exact ⟨rfl, rfl, rfl, Nat.le_refl _, rfl, id⟩
  · cases h
    refine ⟨rfl, rfl, rfl, Nat.le_refl _, rfl, ?_⟩
    simp

theorem readerMoved_take {chunkLen : Nat} (h : p.take .reader chunkLen = some q) : ReaderMoved p q := by
  rw [Spool.take] at h
  split at h
  · cases h
    exact ⟨rfl, rfl, rfl, Nat.le_refl _, rfl, mem_map_fst_erase⟩
  · cases h

theorem readerMoved_takeFails {chunkLen : Nat} (h : p.takeFails .reader chunkLen = some q) :
    ReaderMoved p q := by
  rw [Spool.takeFails] at h
  split at h
  · cases h
    exact ⟨rfl, rfl, rfl, Nat.le_refl _, rfl, mem_map_fst_erase⟩
  · cases h

theorem readerMoved_giveUp {chunkLen : Nat} (h : p.giveUp .reader chunkLen = some q) :
    ReaderMoved p q := by
  rw [Spool.giveUp] at h
  split at h
  · dsimp only at h
    split at h
    · cases h
      exact ⟨rfl, rfl, rfl, Nat.le_refl _, rfl, mem_map_fst_erase⟩
    split at h
    · cases h
      exact ⟨rfl, rfl, rfl, Nat.le_refl _, rfl, mem_map_fst_erase⟩
    split at h
    · cases h
      exact ⟨rfl, rfl, rfl, Nat.le_refl _, rfl, mem_map_fst_erase⟩
    split at h
    · cases h
      exact ⟨rfl, rfl, rfl, Nat.le_refl _, rfl, mem_map_fst_erase⟩
    · cases h
  · cases h

theorem readerMoved_copy {n : Nat} (h : p.copy n = some q) : ReaderMoved p q := by
  rw [Spool.copy] at h
  split at h
  · dsimp only at h
    obtain ⟨acked, early, heq, hacked⟩ := ackTo_eq (p := { p with reader := _ }) _
    rw [heq] at h
    cases h
    refine ⟨rfl, rfl, rfl, ?_, rfl, id⟩
    rcases hacked with rfl | ⟨-, hle⟩
    · exact Nat.le_refl _
    · exact hle
  · cases h

theorem setMaxUnacked_sourceOffset (maxUnacked : Int) :
    (p.setMaxUnacked maxUnacked).sourceOffset = p.sourceOffset := by
  rw [Spool.setMaxUnacked]
  split <;> rfl

theorem enter_sourceOffset {who : SpoolCaller} (h : p.enter who = some q) :
    q.sourceOffset = p.sourceOffset := by
  rw [Spool.enter] at h
  split at h
  · cases h
  split at h
  · cases h
    rfl
  · cases h
    rfl

/-- A chunk is taken by the loop of the sender. -/
theorem take_carrier {chunkLen : Nat} (h : p.take .carrier chunkLen = some q) :
    ∃ payload, q.returned = p.returned ++ [⟨p.readOffset, payload⟩] ∧
      q.readOffset = p.readOffset + payload.length ∧ q.waiting = p.waiting.erase (.carrier, chunkLen) ∧
      q.sourceOffset = p.sourceOffset ∧ q.ackedWatermark = p.ackedWatermark ∧ q.eof = p.eof ∧
      q.pump = p.pump := by
  rw [Spool.take] at h
  split at h
  · cases h
    exact ⟨_, rfl, rfl, rfl, rfl, rfl, rfl, rfl⟩
  · cases h

/-- The loop leaves `NextChunk` without a chunk. -/
theorem giveUp_carrier {chunkLen : Nat} (h : p.giveUp .carrier chunkLen = some q) :
    q.readOffset = p.readOffset ∧ q.waiting = p.waiting.erase (.carrier, chunkLen) ∧
      q.sourceOffset = p.sourceOffset ∧ q.ackedWatermark = p.ackedWatermark ∧ q.eof = p.eof ∧
      q.pump = p.pump := by
  rw [Spool.giveUp] at h
  split at h
  · dsimp only at h
    split at h
    · cases h
      exact ⟨rfl, rfl, rfl, rfl, rfl, rfl⟩
    split at h
    · cases h
      exact ⟨rfl, rfl, rfl, rfl, rfl, rfl⟩
    split at h
    · cases h
      exact ⟨rfl, rfl, rfl, rfl, rfl, rfl⟩
    split at h
    · cases h
      exact ⟨rfl, rfl, rfl, rfl, rfl, rfl⟩
    · cases h
  · cases h

theorem takeFails_carrier {chunkLen : Nat} (h : p.takeFails .carrier chunkLen = some q) :
    q = { p with waiting := p.waiting.erase (.carrier, chunkLen) } := by
  rw [Spool.takeFails] at h
  split at h
  · exact (Option.some.inj h).symm
  · cases h

end Spool

end Session
