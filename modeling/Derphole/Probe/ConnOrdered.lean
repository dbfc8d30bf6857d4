import Derphole.Probe.ConnReceive
import Derphole.Probe.PlainReceive

/-!
# The receiver of one connection, in order

`receiveBlastParallelConn` with FEC off and `RequireComplete` on takes in the same
payloads in the same way as the coordinator.  It ends when the expected bytes are
there, when all announced packets were seen, when a grace period is over, or when the
caller's context ends; the invariant says what has reached the destination by then.

A receiver that has to end with its context is saved by the expected size, which it checks
before it reports success.  Without one it reports success on what it has
(`ConnState.OutlivesContext`).
-/

namespace Probe

open Lib

/-- The context of a receive of unknown size ends only when the receiver has ended or waits for its
last grace period. -/
def ConnState.OutlivesContext (cfg : ConnConfig) (s : ConnState) : ConnLabel → Prop
  | .contextEnds _ => 0 < cfg.recv.expectedBytes ∨ s.closed = true ∨ s.terminalGrace = true
  | _ => True

instance (cfg : ConnConfig) (s : ConnState) : ∀ l, Decidable (s.OutlivesContext cfg l)
  | .contextEnds _ => inferInstanceAs (Decidable (_ ∨ _))
  | .packet _ => isTrue trivial
  | .requestKnownRepairs => isTrue trivial
  | .terminalGraceEnds => isTrue trivial
  | .repairGraceEnds => isTrue trivial
  | .dataIdle => isTrue trivial
  | .fastIncompleteDone => isTrue trivial
  | .contextCloses => isTrue trivial
  | .contextReturns => isTrue trivial

/-- The flags of the receiver, where `known` says that it knows the size and `fin` that the output is
finished. -/
structure ConnFlags (known fin : Prop) (s : ConnState) : Prop where
  pending : s.incompleteDoneRuns = if s.repairPending then 1 else 0
  terminal : s.terminalGrace = true → fin
  repair : s.repairGrace = true → s.repairPending = true ∨ fin
  expired : s.repairGraceExpired = true → s.repairGrace = true
  context : s.contextErr ≠ none → known ∨ s.closed = true ∨ s.terminalGrace = true ∨ fin
  closed : s.closed = true →
    fin ∨ s.repairGraceExpired = true ∨ s.failed.isSome = true ∨ known ∧ s.contextErr ≠ none

theorem ConnFlags.mono {known fin fin' : Prop} {s : ConnState} (h : ConnFlags known fin s)
    (hf : fin → fin') : ConnFlags known fin' s where
  pending := h.pending
  terminal := fun ht => hf (h.terminal ht)
  repair := fun hr => (h.repair hr).imp_right hf
  expired := h.expired
  context := fun hc => (h.context hc).imp_right fun h => h.imp_right fun h => h.imp_right hf
  closed := fun hc => (h.closed hc).imp_left hf

/-- What is written is flushed, and if `G` holds these are all pieces. -/
structure Finished (G : Prop) (ps : List (List UInt8)) (f : Bool × Nat × Nat) (c : Coord) : Prop where
  inOrder : InOrder ps f c
  next : G → c.run.nextWriteSeq = ps.length
  flushed : c.run.writeBuf = []

/-- If a Done packet came, it named all packets. -/
def Enough (ps : List (List UInt8)) (f : Bool × Nat × Nat) : Prop := f.1 = true → ps.length ≤ f.2.1

structure PlainConn (cfg : ConnConfig) : Prop where
  recv : cfg.recv.discard = false ∧ cfg.recv.fecGroupSize ≤ 1
  complete : cfg.requireComplete = true

section

variable {ps : List (List UInt8)} {f : Bool × Nat × Nat} {cfg : ConnConfig} {known fin G : Prop}

/-- A function of the run and its output leaves the flags alone. -/
theorem onCoord_spec {α : Type} {m : Recv α} {P : Coord → Prop} {Q : α → Coord → Prop}
    {E : RecvErr → Coord → Prop} (h : Triple P m Q E) :
    Triple (fun s => P s.coord ∧ ConnFlags known fin s) (onCoord m)
      (fun a s => Q a s.coord ∧ ConnFlags known fin s) fun e s => E e s.coord ∧ ConnFlags known fin s := by
  intro s hs
  obtain ⟨hp, hflags⟩ := hs
  have hm := h s.coord hp
  have he : exec (onCoord m) s = ((exec m s.coord).1, { s with coord := (exec m s.coord).2 }) := rfl
  have hflags' : ∀ c, ConnFlags known fin { s with coord := c } := fun c =>
    ⟨hflags.pending, hflags.terminal, hflags.repair, hflags.expired, hflags.context, hflags.closed⟩
  rw [he]
  cases hr : exec m s.coord with
  | mk r c =>
      rw [hr] at hm
      cases r with
      | ok a => exact ⟨hm, hflags' c⟩
      | error e => exact ⟨hm, hflags' c⟩

theorem flushOrdered_spec (hcfg : PlainConn cfg) {E : RecvErr → ConnState → Prop} :
    Triple (fun s => (InOrder ps f s.coord ∧ (G → s.coord.run.nextWriteSeq = ps.length)) ∧ ConnFlags known fin s)
      (flushOrdered cfg) (fun _ s => Finished G ps f s.coord ∧ ConnFlags known fin s) E := by
  refine Triple.ite (fun hd => absurd hd (by simp [hcfg.recv.1])) fun _ => ?_
  refine (onCoord_spec (P := fun c => InOrder ps f c ∧ (G → c.run.nextWriteSeq = ps.length))
    (Q := fun _ => Finished G ps f) (E := fun _ _ => False) (Triple.update fun c h => ?_)).conseq
    (fun _ h => h) (fun _ _ h => h) fun _ _ h => h.1.elim
  obtain ⟨⟨h, hwait⟩, hnext⟩ := h
  refine ⟨⟨⟨h.striped, h.final, h.seen, h.max_le, h.next_le, ?_, h.bytes, h.pending, h.wrote, h.news,
    h.kept⟩, hwait⟩, hnext, rfl⟩
  show c.dst ++ c.run.writeBuf ++ [] = _
  rw [List.append_nil]
  exact h.out

/-- The counts of what was sent to the sender are no part of the order. -/
theorem sendRepairComplete_spec {E : RecvErr → ConnState → Prop} :
    Triple (fun s => Finished G ps f s.coord ∧ ConnFlags known fin s) sendRepairComplete
      (fun _ s => Finished G ps f s.coord ∧ ConnFlags known fin s) E := by
  refine (onCoord_spec (E := fun _ _ => False) (Triple.update fun c h => ?_)).conseq (fun _ h => h)
    (fun _ _ h => h) fun _ _ h => h.1.elim
  obtain ⟨⟨h, hwait⟩, hnext, hbuf⟩ := h
  exact ⟨⟨⟨h.striped, h.final, h.seen, h.max_le, h.next_le, h.out, h.bytes, h.pending, h.wrote, h.news,
    h.kept⟩, hwait⟩, hnext, hbuf⟩

/-- Once the output is finished, the flags may be set as one likes. -/
theorem finished_update {g : ConnState → ConnState} {E : RecvErr → ConnState → Prop}
    (hcoord : ∀ s, (g s).coord = s.coord)
    (hpending : ∀ s, ConnFlags known True s → (g s).incompleteDoneRuns = if (g s).repairPending then 1 else 0)
    (hexpired : ∀ s, ConnFlags known True s → (g s).repairGraceExpired = true → (g s).repairGrace = true) :
    Triple (fun s => Finished G ps f s.coord ∧ ConnFlags known True s) (update g)
      (fun _ s => Finished G ps f s.coord ∧ ConnFlags known True s) E :=
  Triple.update fun s h => ⟨by rw [hcoord]; exact h.1, hpending s h.2, fun _ => trivial,
    fun _ => .inr trivial, hexpired s h.2, fun _ => .inr (.inr (.inr trivial)), fun _ => .inl trivial⟩

theorem closeDone_finished {E : RecvErr → ConnState → Prop} :
    Triple (fun s => Finished G ps f s.coord ∧ ConnFlags known True s) closeDone
      (fun _ s => Finished G ps f s.coord ∧ ConnFlags known True s) E :=
  finished_update (fun _ => rfl) (fun _ h => h.pending) fun _ h => h.expired

theorem startTerminalGrace_finished {E : RecvErr → ConnState → Prop} :
    Triple (fun s => Finished G ps f s.coord ∧ ConnFlags known True s) startTerminalGrace
      (fun _ s => Finished G ps f s.coord ∧ ConnFlags known True s) E :=
  finished_update (fun _ => rfl) (fun _ h => h.pending) fun _ h => h.expired

/-- The flags that do not say that the run waits for repairs. -/
theorem restRepair_finished {E : RecvErr → ConnState → Prop} :
    Triple (fun s => Finished G ps f s.coord ∧ ConnFlags known True s) restRepair
      (fun _ s => Finished G ps f s.coord ∧ ConnFlags known True s) E := by
  refine finished_update (fun s => ?_) (fun s h => ?_) fun s h => ?_
  · split <;> rfl
  · split
    · exact h.pending
    · exact h.pending
  · split
    · exact h.expired
    · exact h.expired

theorem clearRepair_finished {E : RecvErr → ConnState → Prop} :
    Triple (fun s => Finished G ps f s.coord ∧ ConnFlags known True s) clearRepair
      (fun _ s => Finished G ps f s.coord ∧ ConnFlags known True s) E := by
  refine finished_update (fun s => ?_) (fun s h => ?_) fun s h => ?_
  · split <;> rfl
  · have hpending := h.pending
    split
    · rename_i hp
      rw [if_pos hp] at hpending
      simp [hpending]
    · rename_i hp
      rw [if_neg hp] at hpending
      simpa using hpending
  · split
    · exact h.expired
    · exact h.expired

/-- A complete run is flushed, and only then may the receiver end. -/
theorem finishRun_spec (hcfg : PlainConn cfg) {E : RecvErr → ConnState → Prop} :
    Triple (fun s => (InOrder ps f s.coord ∧ (G → s.coord.run.nextWriteSeq = ps.length)) ∧ ConnFlags known True s)
      (finishRun cfg) (fun _ s => Finished G ps f s.coord ∧ ConnFlags known True s) E := by
  refine Triple.ite (fun _ => ?_) fun hreq => absurd hcfg.complete hreq
  refine Triple.bind (flushOrdered_spec hcfg) fun _ => Triple.bind clearRepair_finished fun _ =>
    Triple.bind sendRepairComplete_spec fun _ => Triple.bind restRepair_finished fun _ => ?_
  refine Triple.read_bind fun t ht => Triple.ite (fun _ => ?_) fun _ => Triple.ite (fun _ => ?_)
    fun _ => Triple.ite (fun _ => ?_) fun _ => Triple.pure fun _ he => he ▸ ht
  · exact closeDone_finished.conseq (fun _ he => he ▸ ht) (fun _ _ h => h) fun _ _ h => h
  · exact closeDone_finished.conseq (fun _ he => he ▸ ht) (fun _ _ h => h) fun _ _ h => h
  · exact startTerminalGrace_finished.conseq (fun _ he => he ▸ ht) (fun _ _ h => h) fun _ _ h => h

/-- A receiver between two packets.  Where it has the bytes that it expects, it has flushed them. -/
structure ConnIn (cfg : ConnConfig) (G : Prop) (ps : List (List UInt8)) (f : Bool × Nat × Nat)
    (s : ConnState) : Prop where
  inOrder : InOrder ps f s.coord
  flags : ConnFlags (0 < cfg.recv.expectedBytes) (G → Finished G ps f s.coord) s
  reached : 0 < cfg.recv.expectedBytes → cfg.recv.expectedBytes ≤ s.coord.bytesReceived → G →
    Finished G ps f s.coord

theorem Finished.sound {s : ConnState}
    (h : Finished G ps f s.coord ∧ ConnFlags (0 < cfg.recv.expectedBytes) True s) : ConnIn cfg G ps f s :=
  ⟨h.1.inOrder, h.2.mono fun _ _ => h.1, fun _ _ _ => h.1⟩

/-- The Done packet named all packets, so a complete run has seen them all. -/
theorem Enough.next_eq (hf : Enough ps f) {c : Coord} (h : InOrder ps f c) (hcomp : c.run.complete = true) :
    c.run.nextWriteSeq = ps.length := by
  rw [RunSeqs.complete, Bool.and_eq_true, decide_eq_true_eq] at hcomp
  rw [← h.ordered.final] at hf
  exact h.next_eq (Nat.le_trans (hf hcomp.1) hcomp.2)

theorem maybeFinishRun_spec (hcfg : PlainConn cfg) (hf : G → Enough ps f) {E : RecvErr → ConnState → Prop} :
    Triple (ConnIn cfg G ps f) (maybeFinishRun cfg) (fun _ => ConnIn cfg G ps f) E := by
  refine Triple.read_bind fun s hs => Triple.ite (fun _ => Triple.pure fun _ he => he ▸ hs) fun hcomp => ?_
  refine (finishRun_spec hcfg).conseq (fun t ht => ?_) (fun _ _ h => Finished.sound h) fun _ _ h => h
  rw [ht]
  exact ⟨⟨hs.inOrder, fun hG => (hf hG).next_eq hs.inOrder (by simpa using hcomp)⟩,
    hs.flags.mono fun _ => trivial⟩

theorem maybeFinishRun_finished (hcfg : PlainConn cfg) {E : RecvErr → ConnState → Prop} :
    Triple (fun s => Finished G ps f s.coord ∧ ConnFlags known True s) (maybeFinishRun cfg)
      (fun _ s => Finished G ps f s.coord ∧ ConnFlags known True s) E := by
  refine Triple.read_bind fun s hs => Triple.ite (fun _ => Triple.pure fun _ he => he ▸ hs) fun _ => ?_
  refine (finishRun_spec hcfg).conseq (fun t ht => ?_) (fun _ _ h => h) fun _ _ h => h
  rw [ht]
  exact ⟨⟨hs.1.inOrder, hs.1.next⟩, hs.2⟩

theorem recoverFECConn_off (hcfg : PlainConn cfg) (order : List Nat → List Nat) :
    recoverFECConn cfg order = pure () := by
  rw [recoverFECConn, if_pos (.inr hcfg.recv.2)]

theorem not_fastMode (hcfg : PlainConn cfg) : ¬cfg.fastMode := by
  intro h
  have := h.2
  rw [hcfg.complete] at this
  cases this

/-- A new number means that the output is not finished. -/
theorem Finished.acceptData_old {c : Coord} (h : Finished G ps f c) (hG : G) {seq : Nat}
    (hseq : seq < ps.length) :
    (c.run.acceptData seq).2 = false := by
  have hseen : c.run.seen.has seq = true := h.inOrder.ordered.wrote seq (by rw [h.next hG]; exact hseq)
  have hold : (c.run.seen.add seq).2 = false := by rw [SeqSet.add_snd, hseen]; rfl
  rw [RunState.acceptData_old hold]

/-- The payload is written and counted. -/
theorem writeConnPayload_spec (hcfg : PlainConn cfg) (seq : Nat) {E : RecvErr → ConnState → Prop} :
    Triple (fun s => Caught ps f (· = seq) 0 s.coord ∧ ConnFlags known fin s)
      (writeConnPayload cfg seq (ps.getD seq []))
      (fun w s => Caught ps f (fun _ => False) w s.coord ∧ ConnFlags known fin s) E := by
  refine Triple.ite (fun _ => ?_) fun hreq => absurd hcfg.complete hreq
  refine Triple.bind (Q := fun _ s => Caught ps f (· = seq) 0 s.coord ∧ ConnFlags known fin s)
    ((onCoord_spec (E := fun _ _ => False) (Triple.update fun c h => ?_)).conseq (fun _ h => h)
      (fun _ _ h => h) fun _ _ h => h.1.elim) fun _ =>
    (onCoord_spec (E := fun _ _ => False) (Ordered.writeOrdered hcfg.recv.1 seq)).conseq
      (fun _ h => h) (fun _ _ h => h) fun _ _ h => h.1.elim
  dsimp only
  rw [storeFECPayload_off hcfg.recv.2]
  exact h

/-- The expected size says when to stop only after the last piece. -/
def FitsLast (ps : List (List UInt8)) (cfg : RecvConfig) : Prop :=
  cfg.expectedBytes ≤ 0 ∨ offsetAt ps (ps.length - 1) < cfg.expectedBytes.toNat

/-- The expected bytes are there, so all pieces are. -/
theorem finishExpected_spec (hcfg : PlainConn cfg) (order : List Nat → List Nat)
    {E : RecvErr → ConnState → Prop} :
    Triple (fun s => (InOrder ps f s.coord ∧ (G → s.coord.run.nextWriteSeq = ps.length)) ∧ ConnFlags known True s)
      (finishExpected cfg order) (fun _ s => Finished G ps f s.coord ∧ ConnFlags known True s) E := by
  refine Triple.ite (fun _ => ?_) fun hreq => absurd hcfg.complete hreq
  rw [recoverFECConn_off hcfg]
  exact Triple.bind (Triple.pure fun _ h => h) fun _ => Triple.bind (flushOrdered_spec hcfg) fun _ =>
    Triple.bind sendRepairComplete_spec fun _ => Triple.bind (maybeFinishRun_finished hcfg) fun _ =>
      Triple.bind closeDone_finished fun _ => Triple.pure fun _ h => h

theorem afterData_spec (hcfg : PlainConn cfg) (hf : G → Enough ps f) (hfits : G → FitsLast ps cfg.recv)
    (order : List Nat → List Nat) {total : Nat} {E : RecvErr → ConnState → Prop} :
    Triple (fun s => (InOrder ps f s.coord ∧ s.coord.bytesReceived = total) ∧
        ConnFlags (0 < cfg.recv.expectedBytes) (¬G) s)
      (afterData cfg order total) (fun _ => ConnIn cfg G ps f) E := by
  refine Triple.ite (fun hexp => ?_) fun hless => ?_
  · refine (finishExpected_spec hcfg order).conseq (fun s hs => ?_) (fun _ _ h => Finished.sound h)
      fun _ _ h => h
    obtain ⟨⟨hin, hbytes⟩, hflags⟩ := hs
    refine ⟨⟨hin, fun hG => hin.next_eq_of_bytes ?_⟩, hflags.mono fun _ => trivial⟩
    rcases hfits hG with hle | hlt
    · omega
    · omega
  · refine Triple.bind ((maybeFinishRun_spec hcfg hf).conseq (fun s hs => ?_) (fun _ _ h => h)
      fun _ _ h => h) fun _ => Triple.pure fun _ h => h
    obtain ⟨⟨hin, hbytes⟩, hflags⟩ := hs
    refine ⟨hin, hflags.mono fun hn hG => absurd hG hn, fun hpos hle => ?_⟩
    rw [hbytes] at hle
    exact absurd ⟨hpos, hle⟩ hless

/-- A data packet of the sender. -/
theorem handleData_spec (hcfg : PlainConn cfg) (hf : G → Enough ps f) (hfits : G → FitsLast ps cfg.recv)
    (order : List Nat → List Nat) {seq : Nat} (hseq : seq < ps.length)
    {E : RecvErr → ConnState → Prop} :
    Triple (ConnIn cfg G ps f) (handleData cfg order seq (ps.getD seq [])) (fun _ => ConnIn cfg G ps f)
      E := by
  refine Triple.ite (fun _ => Triple.pure fun _ h => h) fun _ => Triple.read_bind fun s hs =>
    Triple.ite (fun hnew => ?_) fun _ => Triple.pure fun _ he => he ▸ hs
  -- from here on the output was not finished
  have hflags : ConnFlags (0 < cfg.recv.expectedBytes) (¬G) s := hs.flags.mono fun hfin hG => by
    rw [(hfin hG).acceptData_old hG hseq] at hnew
    cases hnew
  refine Triple.bind (Q := fun _ s => Caught ps f (· = seq) 0 s.coord ∧
      ConnFlags (0 < cfg.recv.expectedBytes) (¬G) s)
    ((onCoord_spec (P := (· = s.coord)) (E := fun _ _ => False) (Triple.update fun c hc => ?_)).conseq
      (fun t ht => ⟨by rw [ht], ht ▸ hflags⟩) (fun _ _ h => h) fun _ _ h => h.1.elim) fun _ =>
    Triple.bind (writeConnPayload_spec hcfg seq) fun w => ?_
  · rw [hc]
    exact hs.inOrder.acceptData hseq hnew
  refine Triple.bind (Q := fun _ s => Caught ps f (fun _ => False) w s.coord ∧
      ConnFlags (0 < cfg.recv.expectedBytes) (¬G) s)
    (Triple.update fun t ht => ⟨ht.1, ⟨ht.2.pending, ht.2.terminal, ht.2.repair, ht.2.expired,
      ht.2.context, ht.2.closed⟩⟩) fun _ => ?_
  refine Triple.bind (Q := fun _ s => InOrder ps f s.coord ∧
      ConnFlags (0 < cfg.recv.expectedBytes) (¬G) s)
    ((onCoord_spec (E := fun _ _ => False) (Triple.update fun c hc => ?_)).conseq (fun _ h => h)
      (fun _ _ h => h) fun _ _ h => h.1.elim) fun _ => ?_
  · obtain ⟨h, hwait⟩ := hc
    refine ⟨⟨h.striped, h.final, h.seen, h.max_le, h.next_le, h.out, ?_, h.pending, h.wrote, h.news,
      h.kept⟩, hwait⟩
    have := h.bytes
    show c.bytesReceived + w + 0 = _
    omega
  rw [recoverFECConn_off hcfg]
  refine Triple.read_bind fun t ht => Triple.bind (Q := fun _ => (· = t)) (Triple.pure fun _ h => h)
    fun _ => Triple.bind (Q := fun _ s => (InOrder ps f s.coord ∧ s.coord.bytesReceived = t.coord.bytesReceived) ∧
      ConnFlags (0 < cfg.recv.expectedBytes) (¬G) s) ?_ fun _ => Triple.read_bind fun u hu => ?_
  · -- more time is given only to a run that waits for repairs
    refine Triple.read_bind fun u hu => Triple.ite (fun hg => ?_) fun _ => Triple.pure fun _ he => ?_
    · refine Triple.update fun v hv => ?_
      rw [hv, hu]
      exact ⟨⟨ht.1, rfl⟩, ht.2.pending, ht.2.terminal, fun _ => .inl (by rw [← hu]; exact hg.2.2.1),
        fun _ => rfl, ht.2.context, ht.2.closed⟩
    · rw [he, hu]
      exact ⟨⟨ht.1, rfl⟩, ht.2⟩
  · refine Triple.ite (fun hfast => absurd hfast.1 (not_fastMode hcfg)) fun _ => ?_
    exact (afterData_spec hcfg hf hfits order).conseq (fun _ he => he ▸ hu) (fun _ _ h => h) fun _ _ h => h

/-- A Done packet.  The run is finished only if no Done packet named too few packets. -/
theorem handleDone_spec (hcfg : PlainConn cfg) (order : List Nat → List Nat) {seq : Nat} (offset : Nat)
    (hseq : G → ps.length ≤ seq) {E : RecvErr → ConnState → Prop} :
    Triple (ConnIn cfg G ps f) (handleDone cfg order seq offset)
      (fun _ s => ∃ f, (G → Enough ps f) ∧ ConnIn cfg G ps f s) E := by
  refine Triple.of_eq fun s₀ h₀ => ?_
  generalize hf' : (true, max seq s₀.coord.run.maxSeqPlusOne, offset) = f'
  have henough : G → Enough ps f' := by
    rintro hG -
    rw [← hf']
    exact Nat.le_trans (hseq hG) (Nat.le_max_left _ _)
  have hmark : InOrder ps f'
      { s₀.coord with run := s₀.coord.run.markDoneWithTotalBytes seq offset } := by
    obtain ⟨h, hwait⟩ := h₀.inOrder
    exact ⟨⟨h.striped, hf', h.seen, h.max_le, h.next_le, h.out, h.bytes, h.pending, h.wrote, h.news,
      h.kept⟩, hwait⟩
  have hkeep : Finished G ps f s₀.coord → Finished G ps f'
      { s₀.coord with run := s₀.coord.run.markDoneWithTotalBytes seq offset } :=
    fun hfin => ⟨hmark, hfin.next, hfin.flushed⟩
  have hflags := h₀.flags.mono fun hfin hG => hkeep (hfin hG)
  refine Triple.bind (Q := fun _ => ConnIn cfg G ps f') (fun t ht => ?_) fun _ => ?_
  · rw [ht]
    exact ⟨hmark, ⟨hflags.pending, hflags.terminal, hflags.repair, hflags.expired, hflags.context,
      hflags.closed⟩, fun hpos hle hG => hkeep (h₀.reached hpos hle hG)⟩
  rw [recoverFECConn_off hcfg]
  refine Triple.bind (Q := fun _ => ConnIn cfg G ps f') (Triple.pure fun _ h => h) fun _ =>
    Triple.ite (fun hfast => absurd hfast (not_fastMode hcfg)) fun _ => ?_
  refine Triple.bind (Q := fun _ => ConnIn cfg G ps f') (Triple.update fun t ht => ?_) fun _ =>
    Triple.read_bind fun t ht => ?_
  · split
    · exact ht
    · exact ⟨ht.inOrder, ⟨ht.flags.pending, ht.flags.terminal, ht.flags.repair, ht.flags.expired,
        ht.flags.context, ht.flags.closed⟩, ht.reached⟩
  refine Triple.ite (fun _ => ?_) fun _ => ?_
  · exact Triple.bind ((maybeFinishRun_spec hcfg henough).conseq (fun _ he => he ▸ ht)
      (fun _ _ h => h) fun _ _ h => h) fun _ => Triple.pure fun _ h => ⟨f', henough, h⟩
  · -- packets are missing, so the run waits for repairs
    refine Triple.bind (Q := fun _ s => ConnIn cfg G ps f' s ∧ s.repairPending = true) ?_ fun _ =>
      Triple.read_bind fun u hu => Triple.ite (fun hnone => ?_) fun _ => Triple.pure fun _ he => ?_
    · refine Triple.read_bind fun u hu => Triple.ite (fun hp => Triple.pure fun _ he => ?_) fun hp => ?_
      · rw [he]
        exact ⟨hu ▸ ht, hp⟩
      · refine Triple.bind (Q := fun _ s => ConnIn cfg G ps f' s ∧ s.repairPending = true)
          (Triple.update fun v hv => ?_) fun _ => Triple.update fun v hv => ?_
        · rw [hv, hu]
          refine ⟨⟨ht.inOrder, ⟨?_, ht.flags.terminal, fun _ => .inl rfl, ht.flags.expired,
            ht.flags.context, ht.flags.closed⟩, ht.reached⟩, rfl⟩
          have hzero := ht.flags.pending
          rw [← hu, if_neg hp, hu] at hzero
          show t.incompleteDoneRuns + 1 = 1
          omega
        · obtain ⟨hin, hp'⟩ := hv
          exact ⟨⟨hin.inOrder, ⟨hin.flags.pending, hin.flags.terminal, fun _ => .inl hp', fun _ => rfl,
            hin.flags.context, hin.flags.closed⟩, hin.reached⟩, hp'⟩
    · have hone := hu.1.flags.pending
      rw [hu.2, if_pos rfl] at hone
      omega
    · rw [he]
      exact ⟨f', henough, hu.1⟩

/-! ## Runs -/

/-- The packet is one of the sender's. -/
def IsPlain (ps : List (List UInt8)) (q : Packet) : Prop :=
  (∃ i < ps.length, q = dataPacket ps i) ∨ q = donePacket ps

/-- Every packet that arrives is one of the sender's. -/
def ConnLabel.Plain (ps : List (List UInt8)) : ConnLabel → Prop
  | .packet a => IsPlain ps a.packet
  | _ => True

def ConnSound (cfg : ConnConfig) (G : Prop) (ps : List (List UInt8)) (s : ConnState) : Prop :=
  ∃ f, (G → Enough ps f) ∧ ConnIn cfg G ps f s

theorem ConnSound.packet (hcfg : PlainConn cfg) (hfits : G → FitsLast ps cfg.recv) {a : Arrival}
    (hdata : a.packet.type = .data → ∃ i < ps.length, a.packet = dataPacket ps i)
    (hdone : G → a.packet.type = .done → ps.length ≤ a.packet.seq) :
    Triple (ConnSound cfg G ps) (receiveConnPacket cfg a) (fun _ => ConnSound cfg G ps)
      fun _ => ConnSound cfg G ps := by
  refine Triple.of_eq fun s hs => ?_
  have hquiet : Triple (· = s) (pure false : Conn Bool) (fun _ => ConnSound cfg G ps)
      fun _ => ConnSound cfg G ps := Triple.pure fun _ he => he ▸ hs
  rw [receiveConnPacket]
  split
  · rename_i htype
    obtain ⟨i, hi, hpacket⟩ := hdata htype
    obtain ⟨f, hf, hs⟩ := hs
    rw [hpacket]
    exact (handleData_spec hcfg hf hfits a.order hi).conseq (fun _ he => he ▸ hs)
      (fun _ _ h => ⟨f, hf, h⟩) fun _ _ h => h
  · rw [handleParity, if_pos hcfg.recv.2]
    exact hquiet
  · rename_i htype
    obtain ⟨f, -, hs⟩ := hs
    exact (handleDone_spec hcfg a.order _ fun hG => hdone hG htype).conseq (fun _ he => he ▸ hs)
      (fun _ _ h => h) fun _ _ h => h
  · exact hquiet

theorem ConnSound.empty : ConnSound cfg G ps ConnState.empty :=
  ⟨(false, 0, 0), fun _ h => (by cases h), Caught.empty, ⟨rfl, fun h => (by cases h), fun h => (by cases h),
    fun h => (by cases h), fun h => absurd rfl h, fun h => by cases h⟩, fun hpos hle => absurd hpos (by
      have : cfg.recv.expectedBytes ≤ (0 : Nat) := hle
      omega)⟩

/-- A step that leaves the output alone, and changes the flags as they may be changed. -/
theorem ConnSound.of_flags {s t : ConnState} (h : ConnSound cfg G ps s) (hcoord : t.coord = s.coord)
    (hflags : ∀ fin : Prop, (¬G → fin) → ConnFlags (0 < cfg.recv.expectedBytes) fin s →
      ConnFlags (0 < cfg.recv.expectedBytes) fin t) : ConnSound cfg G ps t := by
  obtain ⟨f, hf, h⟩ := h
  refine ⟨f, hf, ?_, ?_, ?_⟩
  · rw [hcoord]
    exact h.inOrder
  · rw [hcoord]
    exact hflags _ (fun hG g => absurd g hG) h.flags
  · rw [hcoord]
    exact h.reached

theorem ConnSound.step (hcfg : PlainConn cfg) (hfits : G → FitsLast ps cfg.recv) {s t : ConnState}
    {l : ConnLabel} (h : ConnSound cfg G ps s)
    (hdata : ∀ a, l = .packet a → a.packet.type = .data → ∃ i < ps.length, a.packet = dataPacket ps i)
    (hdone : G → ∀ a, l = .packet a → a.packet.type = .done → ps.length ≤ a.packet.seq)
    (hcontext : G → s.OutlivesContext cfg l) (hs : s.step cfg l = some t) : ConnSound cfg G ps t := by
  cases l with
  | packet a =>
      simp only [ConnState.step] at hs
      split at hs
      · cases hs
      have hafter := ConnSound.packet hcfg hfits (hdata a rfl) (fun hG => hdone hG a rfl) s h
      split at hs
      · rename_i hr
        rw [hr] at hafter
        cases hs
        refine ConnSound.of_flags hafter rfl fun fin _ hflags => ?_
        exact ⟨hflags.pending, hflags.terminal, hflags.repair, hflags.expired, hflags.context, hflags.closed⟩
      · rename_i hr
        rw [hr] at hafter
        cases hs
        refine ConnSound.of_flags hafter rfl fun fin _ hflags => ?_
        exact ⟨hflags.pending, hflags.terminal, hflags.repair, hflags.expired, fun _ => .inr (.inl rfl),
          fun _ => .inr (.inr (.inl rfl))⟩
  | requestKnownRepairs =>
      simp only [ConnState.step] at hs
      split at hs
      · cases hs
        refine h.of_flags rfl fun fin _ hflags => ?_
        exact ⟨hflags.pending, hflags.terminal, hflags.repair, hflags.expired, hflags.context, hflags.closed⟩
      · cases hs
  | terminalGraceEnds =>
      simp only [ConnState.step] at hs
      split at hs
      · rename_i hgrace
        cases hs
        refine h.of_flags rfl fun fin _ hflags => ?_
        exact ⟨hflags.pending, hflags.terminal, hflags.repair, hflags.expired, fun _ => .inr (.inl rfl),
          fun _ => .inl (hflags.terminal hgrace)⟩
      · cases hs
  | repairGraceEnds =>
      simp only [ConnState.step] at hs
      split at hs
      · rename_i hgrace
        cases hs
        refine h.of_flags rfl fun fin _ hflags => ?_
        exact ⟨hflags.pending, hflags.terminal, hflags.repair, fun _ => hgrace.1, fun _ => .inr (.inl rfl),
          fun _ => .inr (.inl rfl)⟩
      · cases hs
  | dataIdle =>
      simp only [ConnState.step] at hs
      split at hs
      · rename_i hg
        rw [hcfg.complete] at hg
        cases hg.1
      · cases hs
  | fastIncompleteDone =>
      simp only [ConnState.step] at hs
      split at hs
      · rename_i hg
        exact absurd hg.1 (not_fastMode hcfg)
      · cases hs
  | contextEnds err =>
      simp only [ConnState.step] at hs
      split at hs
      · rename_i hrunning
        cases hs
        refine h.of_flags rfl fun fin hnot hflags => ?_
        refine ⟨hflags.pending, hflags.terminal, hflags.repair, hflags.expired, fun _ => ?_, fun hclosed => ?_⟩
        · by_cases hG : G
          · exact (hcontext hG).imp_right fun h => h.imp_right .inl
          · exact .inr (.inr (.inr (hnot hG)))
        · -- the context has not closed anything yet
          rcases hflags.closed hclosed with hfin | hexpired | hfailed | ⟨-, hended⟩
          · exact .inl hfin
          · exact .inr (.inl hexpired)
          · exact .inr (.inr (.inl hfailed))
          · exact absurd hrunning hended
      · cases hs
  | contextCloses =>
      simp only [ConnState.step] at hs
      split at hs
      · cases hs
      · rename_i hended
        cases hs
        refine h.of_flags rfl fun fin _ hflags => ?_
        refine ⟨hflags.pending, hflags.terminal, hflags.repair, hflags.expired, fun _ => .inr (.inl rfl),
          fun _ => ?_⟩
        rcases hflags.context hended with hknown | hclosed | hgrace | hfin
        · exact .inr (.inr (.inr ⟨hknown, hended⟩))
        · exact hflags.closed hclosed
        · exact .inl (hflags.terminal hgrace)
        · exact .inl hfin
  | contextReturns =>
      simp only [ConnState.step] at hs
      split at hs
      · cases hs
      split at hs
      · cases hs
        refine h.of_flags rfl fun fin _ hflags => ?_
        exact ⟨hflags.pending, hflags.terminal, hflags.repair, hflags.expired, fun _ => .inr (.inl rfl),
          fun _ => .inr (.inr (.inl rfl))⟩
      · cases hs

theorem ConnSound.run (hcfg : PlainConn cfg) (hfits : G → FitsLast ps cfg.recv) {s : ConnState}
    {ls : List ConnLabel}
    (hdata : ∀ a, .packet a ∈ ls → a.packet.type = .data → ∃ i < ps.length, a.packet = dataPacket ps i)
    (hdone : G → ∀ a, .packet a ∈ ls → a.packet.type = .done → ps.length ≤ a.packet.seq)
    (hcontext : G → StepsMeet (ConnState.step cfg) (fun s l => s.OutlivesContext cfg l) ConnState.empty ls)
    (hrun : runFrom (ConnState.step cfg) ConnState.empty ls = some s) : ConnSound cfg G ps s := by
  have hmeet : StepsMeet (ConnState.step cfg) (fun s l => G → s.OutlivesContext cfg l) ConnState.empty ls := by
    by_cases hG : G
    · exact (hcontext hG).imp fun _ _ h _ => h
    · exact StepsMeet.of_forall fun _ _ _ _ _ h => absurd h hG
  refine runFrom_invariant_of_meet (fun u l v h hok hstep => ?_) ls ConnSound.empty
    (hmeet.and_mem (P := (· ∈ ls)) fun _ h => h) hrun
  exact h.step hcfg hfits (fun a ha => hdata a (ha ▸ hok.2)) (fun hG a ha => hdone hG a (ha ▸ hok.2)) hok.1
    hstep

theorem ConnSound.dst_prefix {s : ConnState} (h : ConnSound cfg G ps s) : s.coord.dst <+: ps.flatten := by
  obtain ⟨f, -, h⟩ := h
  exact h.inOrder.ordered.dst_prefix

/-- A receiver that ends without an error has finished its output. -/
theorem ConnSound.dst_eq (hcfg : PlainConn cfg) {s : ConnState} (h : ConnSound cfg G ps s) (hG : G)
    (hsucceeds : s.succeeds cfg = true) : s.coord.dst = ps.flatten := by
  obtain ⟨f, -, h⟩ := h
  have hflags := h.flags
  simp only [ConnState.succeeds, hcfg.complete, Bool.true_or, Bool.and_true, Bool.and_eq_true,
    Bool.not_eq_true', Bool.and_eq_false_iff, decide_eq_false_iff_not] at hsucceeds
  obtain ⟨⟨⟨hclosed, hnone⟩, hrepair⟩, hsize⟩ := hsucceeds
  have hfin : Finished G ps f s.coord := by
    rcases hflags.closed hclosed with hfin | hexpired | hfailed | ⟨hknown, -⟩
    · exact hfin hG
    · rcases hflags.repair (hflags.expired hexpired) with hp | hfin
      · -- a run that still waits for repairs is not a success
        have hone := hflags.pending
        rw [if_pos hp] at hone
        rcases hrepair with hr | hr
        · rw [hexpired] at hr
          cases hr
        · omega
      · exact hfin hG
    · rw [Option.isNone_iff_eq_none] at hnone
      rw [hnone] at hfailed
      cases hfailed
    · -- the context has ended, and the size was checked
      exact h.reached hknown (by omega) hG
  exact hfin.inOrder.ordered.dst_eq (hfin.next hG) hfin.flushed

end

end Probe
