import Derphole.Probe.GlobalFrame
import Derphole.Probe.StripedBuffers

/-!
# Every method is a path of buffer steps

`Traced m` says that `m` goes along a path of `BufferStep` from any state, and it
holds of every method of the receiver, with recovery and on the global path too.
The rules and the lemmas follow the methods one by one.
-/

namespace Probe

open Lib

/-! ## Recovery uses up parity

It changes nothing else. -/

theorem recoverFECKeys_stripe_frame {chunkSize totalStripes known : Nat} {keys : List Nat}
    {st st' : StripeState} {rs : List RecoveredPacket}
    (h : StripeState.recoverFECKeys chunkSize totalStripes known keys st = .ok (st', rs)) :
    st' = { st with fec := st'.fec } := by
  induction keys generalizing st rs with
  | nil =>
      cases h
      rfl
  | cons key keys ih =>
      rw [StripeState.recoverFECKeys] at h
      cases hp : st.fec.parity.lookup key with
      | none =>
          rw [hp] at h
          exact ih h
      | some p =>
          simp only [hp, Bind.bind, Except.bind] at h
          split at h
          · cases h
          · split at h
            · cases h
            · rename_i r hrest
              cases h
              have hframe := ih hrest
              exact hframe

theorem recoverFECKeys_frame {known : Nat} {keys : List Nat} {s s' : RunState}
    {rs : List RecoveredPacket} (h : RunState.recoverFECKeys known keys s = .ok (s', rs)) :
    s' = { s with fec := s'.fec } := by
  induction keys generalizing s rs with
  | nil =>
      cases h
      rfl
  | cons key keys ih =>
      rw [RunState.recoverFECKeys] at h
      cases hp : s.fec.parity.lookup key with
      | none =>
          rw [hp] at h
          exact ih h
      | some p =>
          simp only [hp, Bind.bind, Except.bind] at h
          split at h
          · cases h
          · split at h
            · cases h
            · rename_i r hrest
              cases h
              have hframe := ih hrest
              exact hframe

theorem RunState.enableStriped_progress (s : RunState) (n : Nat) :
    (s.enableStriped n).progress = (true, s.stripes) := by
  rw [enableStriped]
  split <;> rfl

/-! ## Paths -/

/-- Run anywhere, `m` goes along a path of buffer steps. -/
def Traced {α : Type} (m : Recv α) : Prop := ∀ c, Leaves BufferStep Coord.run m c

namespace Traced

variable {α β : Type}

theorem pure (a : α) : Traced (Pure.pure a : Recv α) := fun _ => Leaves.pure a

theorem fail (e : RecvErr) : Traced (Lib.fail e : Recv α) := fun _ => Leaves.fail e

theorem bind {m : Recv α} {k : α → Recv β} (hm : Traced m) (hk : ∀ a, Traced (k a)) :
    Traced (m >>= k) :=
  fun c => Leaves.bind (hm c) hk

theorem read_bind {k : Coord → Recv β} (hk : ∀ c, Traced (k c)) : Traced (read >>= k) :=
  fun c => Leaves.read_bind (hk c c)

theorem ite {p : Prop} [Decidable p] {m m' : Recv α} (hm : Traced m) (hm' : Traced m') :
    Traced (if p then m else m') :=
  fun c => Leaves.ite (fun _ => hm c) fun _ => hm' c

/-- A change that leaves alone what is kept. -/
theorem update {f : Coord → Coord} (hkept : ∀ c, (f c).run.kept = c.run.kept)
    (hprogress : ∀ c, (f c).run.progress = c.run.progress) : Traced (Lib.update f) :=
  fun c => Leaves.of_step (.quiet (hkept c) (hprogress c))

theorem updateRun {f : RunState → RunState} (hkept : ∀ s, (f s).kept = s.kept)
    (hprogress : ∀ s, (f s).progress = s.progress) : Traced (updateRun f) :=
  update (fun c => hkept c.run) fun c => hprogress c.run

/-- A change of a stripe that leaves alone what it keeps. -/
theorem updateRun_stripe {g : RunState → RunState} (id : Nat) (f : StripeState → StripeState)
    (hkept : ∀ s, (g s).kept = s.kept) (hstripes : ∀ s, (g s).stripes = (s.updateStripe id f).stripes)
    (hstriped : ∀ s, s.striped = true → (g s).striped = true) (hf : ∀ st, SameBuffers st (f st)) :
    Traced (Probe.updateRun g) :=
  fun c => Leaves.of_step (.stripe (hkept c.run) (hstripes c.run) (hstriped c.run) (hf _))

theorem updateStripe {id : Nat} {f : StripeState → StripeState} (hf : ∀ st, SameBuffers st (f st)) :
    Traced (updateStripe id f) :=
  updateRun_stripe id f (fun _ => rfl) (fun _ => rfl) (fun _ h => h) hf

/-- Writing changes nothing that is kept. -/
theorem of_silent {m : Recv α} (hm : Silent m) : Traced m := by
  intro c
  have hcore : (exec m c).2.core = c.core :=
    ((hm c.core).conseq (fun _ h => h) (fun _ _ h => h) (fun _ _ h => h.2)).state rfl
  exact Leaves.of_step (.quiet (congrArg (fun c => c.run.kept) hcore)
    (congrArg (fun c => c.run.progress) hcore))

/-! ## Output -/

theorem writeStripedPayload (cfg : RecvConfig) (payload : List UInt8) :
    Traced (writeStripedPayload cfg payload) := by
  have hcount : Traced (Lib.update fun c : Coord =>
      { c with
        run := { c.run with nextOffset := c.run.nextOffset + payload.length }
        bytesReceived := c.bytesReceived + payload.length } : Recv Unit) :=
    update (fun _ => rfl) fun _ => rfl
  refine ite (pure ()) (ite (bind (pure ()) fun _ => hcount) (bind ?_ fun _ => hcount))
  exact of_silent (.bufferOrdered payload)

theorem popPendingOutput : Traced popPendingOutput := by
  intro c
  refine Leaves.read_bind ?_
  split
  · rename_i payload hpayload
    exact Leaves.bind (Leaves.of_step (.takePending hpayload)) fun _ => pure _
  · split
    · exact pure _ c
    · rename_i n hn
      split
      · exact fail _ c
      · rename_i file hfile
        refine Leaves.ite (fun _ => Leaves.fail_bind) fun _ => ?_
        exact Leaves.bind (Leaves.of_step (.unspoolPending hn hfile)) fun _ => pure _

theorem flushPendingLoop (cfg : RecvConfig) (fuel : Nat) : Traced (flushPendingLoop cfg fuel) := by
  induction fuel with
  | zero => exact pure ()
  | succ fuel ih =>
      refine bind popPendingOutput fun r => ?_
      cases r with
      | none => exact pure ()
      | some payload => exact bind (writeStripedPayload cfg payload) fun _ => ih

/-- One step, and only this payload can go into the spool. -/
theorem storeStripedPendingOutput_step (c : Coord) (offset : Nat) (payload : List UInt8) :
    ∃ e, (∀ x ∈ e, x = .spooled (.pending offset) offset payload) ∧
      BufferStep c.run e (exec (Probe.storeStripedPendingOutput offset payload) c).2.run := by
  have hquiet : ∃ e : Option SpoolEvent, (∀ x ∈ e, x = .spooled (.pending offset) offset payload) ∧
      BufferStep c.run e c.run := ⟨none, fun _ hx => absurd hx (Option.not_mem_none _), .quiet rfl rfl⟩
  rw [Probe.storeStripedPendingOutput]
  split
  · exact hquiet
  rw [exec_bind_ok (exec_read c)]
  split
  · exact hquiet
  next hnew =>
    split
    · exact hquiet
    next hnewSpooled =>
      split
      next hfits =>
        exact ⟨none, fun _ hx => absurd hx (Option.not_mem_none _),
          .bufferPending (by simpa using hnew) hfits⟩
      next hfull =>
        split
        · exact hquiet
        · refine ⟨some (.spooled (.pending offset) offset payload),
            fun x hx => (Option.mem_some.mp hx).symm, ?_⟩
          exact .spoolPending (by simpa using hnewSpooled) (Nat.lt_of_not_le hfull)

theorem storeStripedPendingOutput (offset : Nat) (payload : List UInt8) :
    Traced (storeStripedPendingOutput offset payload) := by
  intro c
  obtain ⟨e, -, hstep⟩ := storeStripedPendingOutput_step c offset payload
  exact Leaves.of_step hstep

/-! ## Acceptance -/

theorem acceptStripedSequentialPacket (cfg : RecvConfig) (id : Nat) (packet : Packet) :
    Traced (acceptStripedSequentialPacket cfg id packet) := by
  have hadvance : Traced (advanceStripe id) :=
    updateStripe fun _ => ⟨rfl, rfl, fun _ h => h, Nat.le_succ _⟩
  rw [Probe.acceptStripedSequentialPacket]
  split
  · refine bind (ite (pure ()) (bind (updateRun (fun _ => rfl) fun _ => rfl) fun _ =>
      read_bind fun c => ?_)) fun _ => hadvance
    refine ite (update (fun _ => rfl) fun _ => rfl)
      (ite ?_ (ite (storeStripedPendingOutput _ _) (pure ())))
    exact bind (writeStripedPayload cfg _) fun _ => read_bind fun c => flushPendingLoop cfg _
  · refine bind (read_bind fun c => ite (pure ()) ?_) fun _ => bind ?_ fun _ => hadvance
    · exact updateRun_stripe id (fun st => { st with done := true, totalPackets := packet.seq })
        (fun _ => rfl) (fun _ => rfl) (fun _ h => h) fun _ => ⟨rfl, rfl, fun _ h => h, Nat.le_refl _⟩
    · have hvalidate : ∀ total, Traced (validateFinalTotal cfg "striped blast" total) :=
        fun total => of_silent (.validateFinalTotal cfg _ total)
      exact read_bind fun c => ite (bind (updateRun (fun _ => rfl) fun _ => rfl) fun _ => hvalidate _)
        (ite (fail _) (hvalidate _))
  · exact pure ()

/-- A packet that was not seen; only data has a payload. -/
theorem storeStripedFuturePacket_step {c : Coord} {id : Nat} {packet : Packet}
    (hnew : (c.run.stripe id).seen.has packet.seq = false)
    (hdata : packet.type = .data ∨ packet.payload = []) :
    ∃ e, (∀ x ∈ e, x = .spooled (.future id packet.seq) packet.offset packet.payload) ∧
      BufferStep c.run e (exec (Probe.storeStripedFuturePacket id packet) c).2.run := by
  rw [Probe.storeStripedFuturePacket, exec_bind_ok (exec_read c)]
  dsimp only
  split
  next hempty =>
    have hnil : packet.payload = [] := by
      rcases hempty with htype | hnil
      · exact hdata.resolve_left htype
      · exact hnil
    rw [hnew, if_neg Bool.false_ne_true]
    have hstep := BufferStep.bufferFuture (s := c.run) hnew (by
      simp [RunState.canBufferStripedFuturePayload, hnil])
    rw [hnil] at hstep
    exact ⟨none, fun _ hx => absurd hx (Option.not_mem_none _), hstep⟩
  split
  next hfits =>
    rw [hnew, if_neg Bool.false_ne_true]
    exact ⟨none, fun _ hx => absurd hx (Option.not_mem_none _), .bufferFuture hnew hfits⟩
  next hfull =>
    split
    · exact ⟨none, fun _ hx => absurd hx (Option.not_mem_none _), .quiet rfl rfl⟩
    · rw [hnew, if_neg Bool.false_ne_true]
      refine ⟨some (.spooled (.future id packet.seq) packet.offset packet.payload),
        fun x hx => (Option.mem_some.mp hx).symm, ?_⟩
      exact .spoolFuture hnew (by simpa using hfull)

theorem storeStripedFuturePacket {c : Coord} {id : Nat} {packet : Packet}
    (hnew : (c.run.stripe id).seen.has packet.seq = false)
    (hdata : packet.type = .data ∨ packet.payload = []) :
    Leaves BufferStep Coord.run (storeStripedFuturePacket id packet) c := by
  obtain ⟨e, -, hstep⟩ := storeStripedFuturePacket_step hnew hdata
  exact Leaves.of_step hstep

theorem popStripedBufferedPacket (id : Nat) : Traced (popStripedBufferedPacket id) := by
  intro c
  refine Leaves.read_bind ?_
  dsimp only
  split
  · rename_i packet hpacket
    exact Leaves.bind (Leaves.of_step (.takeFuture hpacket)) fun _ => pure _
  · split
    · exact pure _ c
    · rename_i entry hentry
      split
      · exact fail _ c
      · rename_i file hfile
        refine Leaves.ite (fun _ => Leaves.fail_bind) fun _ => ?_
        exact Leaves.bind (Leaves.of_step (.unspoolFuture hentry hfile)) fun _ => pure _

theorem drainStripedBuffered (cfg : RecvConfig) (id fuel : Nat) :
    Traced (drainStripedBuffered cfg id fuel) := by
  induction fuel with
  | zero => exact pure ()
  | succ fuel ih =>
      refine bind (popStripedBufferedPacket id) fun r => ?_
      cases r with
      | none => exact pure ()
      | some packet => exact bind (acceptStripedSequentialPacket cfg id packet) fun _ => ih

/-! ## Packets -/

theorem recordFECPayload (cfg : RecvConfig) (id : Nat) (packet : Packet) :
    Traced (recordFECPayload cfg id packet) :=
  ite (updateStripe fun _ => ⟨rfl, rfl, fun _ h => h, Nat.le_refl _⟩) (pure ())

theorem finishStriped (cfg : RecvConfig) : Traced (finishStriped cfg) := by
  refine bind (updateRun (fun s => ?_) fun s => ?_) fun _ => read_bind fun c =>
    ite (bind ?_ fun _ => bind (update (fun _ => rfl) fun _ => rfl) fun _ => pure _) (pure _)
  · split <;> rfl
  · split <;> rfl
  · exact ite (pure ()) (of_silent .flushOrdered)

theorem handleStripedDataOrDoneWith (cfg : RecvConfig) {recover : Recv Unit} (hrec : Traced recover)
    (id : Nat) {packet : Packet} (hdata : packet.type = .data ∨ packet.payload = []) :
    Traced (handleStripedDataOrDoneWith cfg recover id packet) := by
  refine bind (ite (updateStripe fun _ => ⟨rfl, rfl, fun _ h => h, Nat.le_refl _⟩) (pure ())) fun _ c =>
    Leaves.read_bind ?_
  refine Leaves.ite (fun _ => pure _ c) fun hnew => Leaves.ite (fun _ => ?_) fun _ => ?_
  · rw [not_or, Bool.not_eq_true] at hnew
    refine Leaves.bind (storeStripedFuturePacket hnew.2 hdata) fun _ =>
      bind (recordFECPayload cfg id packet) fun _ => ?_
    exact ite (bind hrec fun _ => read_bind fun c => pure _) (bind (pure ()) fun _ =>
      read_bind fun c => pure _)
  · refine bind (updateStripe fun st => SameBuffers.markSeen st packet.seq) (fun _ =>
      bind (recordFECPayload cfg id packet) fun _ => ?_) c
    refine bind (acceptStripedSequentialPacket cfg id packet) fun _ => ?_
    exact bind (drainStripedBuffered cfg id _) fun _ => bind hrec fun _ => finishStriped cfg

/-! ## Recovery -/

theorem recoverStripes (cfg : RecvConfig) (order : List Nat → List Nat) (ids : List Nat) :
    Traced (recoverStripes cfg order ids) := by
  induction ids with
  | nil => exact pure _
  | cons id ids ih =>
      intro c
      refine Leaves.read_bind ?_
      dsimp only
      split
      · exact fail _ c
      · rename_i st' recovered hkeys
        refine Leaves.bind (Leaves.of_step (.stripe rfl rfl (fun h => h) ?_)) fun _ =>
          bind ih fun _ => pure _
        rw [recoverFECKeys_stripe_frame hkeys]
        exact ⟨rfl, rfl, fun _ h => h, Nat.le_refl _⟩

/-- What is recovered are data packets. -/
theorem recoverStripes_data (cfg : RecvConfig) (order : List Nat → List Nat) (ids : List Nat) :
    Triple (fun _ => True) (Probe.recoverStripes cfg order ids)
      (fun packets _ => ∀ p ∈ packets, p.type = .data) fun _ _ => True := by
  induction ids with
  | nil => exact Triple.pure fun _ _ => by simp
  | cons id ids ih =>
      refine Triple.read_bind fun c _ => ?_
      dsimp only
      split
      · exact Triple.fail fun _ _ => trivial
      · refine Triple.bind (Q := fun _ _ => True) (Triple.update fun _ _ => trivial) fun _ =>
          Triple.bind ih fun rest => Triple.pure fun _ hrest p hp => ?_
        rcases List.mem_append.mp hp with hp | hp
        · obtain ⟨r, -, rfl⟩ := List.mem_map.mp hp
          rfl
        · exact hrest p hp

theorem handleRecovered (cfg : RecvConfig) {packets : List Packet}
    (hdata : ∀ p ∈ packets, p.type = .data) : Traced (handleRecovered cfg packets) := by
  induction packets with
  | nil => exact pure ()
  | cons packet packets ih =>
      refine bind (handleStripedDataOrDoneWith cfg (pure ()) _ (.inl (hdata _ List.mem_cons_self)))
        fun _ => ih fun p hp => hdata p (List.mem_cons_of_mem _ hp)

theorem recoverStripedFECLoop (cfg : RecvConfig) (order : List Nat → List Nat) (fuel : Nat) :
    Traced (recoverStripedFECLoop cfg order fuel) := by
  induction fuel with
  | zero => exact pure ()
  | succ fuel ih =>
      intro c
      refine Leaves.read_bind (Leaves.bind_of (recoverStripes cfg order _ c) fun r t hr => ?_)
      have hdata := (recoverStripes_data cfg order _).ok trivial hr
      exact ite (pure ()) (bind (handleRecovered cfg hdata) fun _ => ih) t

theorem recoverStripedFEC (cfg : RecvConfig) (order : List Nat → List Nat) :
    Traced (recoverStripedFEC cfg order) :=
  ite (pure ()) (read_bind fun _ => recoverStripedFECLoop cfg order _)

theorem handleStripedPacket (cfg : RecvConfig) (order : List Nat → List Nat)
    (lane stripeID totalStripes : Nat) (type : PacketType) (seq offset count : Nat)
    (payload : List UInt8) :
    Traced (handleStripedPacket cfg order lane stripeID totalStripes type seq offset count
      payload) := by
  have hkept : ∀ s : RunState, (s.enableStriped totalStripes).kept = s.kept := by
    intro s
    rw [RunState.enableStriped]
    split <;> rfl
  have henable : ∀ s : RunState, _ := fun s => Prod.mk.inj (s.enableStriped_progress totalStripes)
  refine bind ?_ fun _ => ?_
  · refine updateRun_stripe stripeID (fun st => { st with lane := some lane })
      hkept (fun s => ?_) (fun s _ => (henable s).1) fun _ => ⟨rfl, rfl, fun _ h => h, Nat.le_refl _⟩
    simp only [RunState.stripeState, RunState.updateStripe, RunState.stripe, (henable s).2]
  · cases type with
    | data =>
        refine ite (pure _) ?_
        exact handleStripedDataOrDoneWith cfg (recoverStripedFEC cfg order) stripeID (.inl rfl)
    | done => exact handleStripedDataOrDoneWith cfg (recoverStripedFEC cfg order) stripeID (.inr rfl)
    | parity =>
        refine ite (pure _) (bind (updateStripe fun _ => ⟨rfl, rfl, fun _ h => h, Nat.le_refl _⟩) fun _ => ?_)
        exact bind (recoverStripedFEC cfg order) fun _ => read_bind fun _ => pure _
    | _ => exact pure _

/-! ## The path without stripes -/

theorem acceptGlobalPayload (cfg : RecvConfig) (seq offset : Nat) (payload : List UInt8) :
    Traced (acceptGlobalPayload cfg seq offset payload) :=
  bind (updateRun (fun _ => rfl) fun _ => rfl) fun _ =>
    bind (of_silent (.writeGlobalPayload cfg seq offset payload)) fun _ =>
      update (fun _ => rfl) fun _ => rfl

theorem acceptData (seq : Nat) : Traced (Probe.updateRun fun s => (s.acceptData seq).1) :=
  updateRun (fun _ => rfl) fun _ => rfl

theorem completeRun (cfg : RecvConfig) : Traced (completeRun cfg) :=
  read_bind fun _ => ite (bind (of_silent (.validateFinalTotal cfg _ _)) fun _ =>
    bind (of_silent (.flushGlobalPayload cfg)) fun _ =>
      bind (update (fun _ => rfl) fun _ => rfl) fun _ => pure _) (pure _)

theorem acceptRecovered (cfg : RecvConfig) (packets : List RecoveredPacket) :
    Traced (acceptRecovered cfg packets) := by
  induction packets with
  | nil => exact pure ()
  | cons p packets ih =>
      refine read_bind fun c => ite (bind (acceptData p.seq) fun _ => ?_) (bind (pure ()) fun _ => ih)
      exact bind (acceptGlobalPayload cfg _ _ _) fun _ => ih

theorem recoverFECLoop (cfg : RecvConfig) (order : List Nat → List Nat) (fuel : Nat) :
    Traced (recoverFECLoop cfg order fuel) := by
  induction fuel with
  | zero => exact pure ()
  | succ fuel ih =>
      intro c
      refine Leaves.read_bind ?_
      split
      · exact fail _ c
      · rename_i run recovered hkeys
        have hrun := recoverFECKeys_frame hkeys
        refine Leaves.bind (Leaves.of_step (e := none) (.quiet ?_ ?_)) fun _ =>
          ite (pure ()) (bind (acceptRecovered cfg recovered) fun _ =>
            bind (completeRun cfg) fun _ => ih)
        · show run.kept = _
          rw [hrun]
          rfl
        · show run.progress = _
          rw [hrun]
          rfl

theorem recoverFEC (cfg : RecvConfig) (order : List Nat → List Nat) :
    Traced (recoverFEC cfg order) :=
  ite (pure ()) (read_bind fun _ => recoverFECLoop cfg order _)

theorem handleGlobalPacket (cfg : RecvConfig) (order : List Nat → List Nat) (type : PacketType)
    (seq offset count : Nat) (payload : List UInt8) :
    Traced (handleGlobalPacket cfg order type seq offset count payload) := by
  cases type with
  | data =>
      refine ite (pure _) (read_bind fun c => ite (bind (acceptData seq) fun _ => ?_) (pure _))
      refine bind (acceptGlobalPayload cfg seq offset payload) fun _ => ?_
      exact bind (recoverFEC cfg order) fun _ => bind (completeRun cfg) fun _ =>
        read_bind fun _ => pure _
  | parity =>
      exact ite (pure _) (bind (updateRun (fun _ => rfl) fun _ => rfl) fun _ =>
        bind (recoverFEC cfg order) fun _ => pure _)
  | done =>
      exact bind (updateRun (fun _ => rfl) fun _ => rfl) fun _ => bind (recoverFEC cfg order) fun _ =>
        completeRun cfg
  | _ => exact pure _

theorem receivePacket (cfg : RecvConfig) (a : Arrival) : Traced (receivePacket cfg a) :=
  read_bind fun _ => ite (handleStripedPacket cfg _ _ _ _ _ _ _ _ _)
    (handleGlobalPacket cfg _ _ _ _ _ _)

/-- Whatever arrives, a run is a path. -/
theorem receivePackets (cfg : RecvConfig) (as : List Arrival) (c : Coord) :
    ∃ es, Trace BufferStep c.run es (Probe.receivePackets cfg c as).run := by
  induction as generalizing c with
  | nil => exact ⟨[], .nil _⟩
  | cons a as ih =>
      obtain ⟨es, hes⟩ := receivePacket cfg a c
      obtain ⟨es', hes'⟩ := ih (exec (Probe.receivePacket cfg a) c).2
      exact ⟨es ++ es', hes.append hes'⟩

end Traced

end Probe
