import Derphole.Probe.GlobalReceive

/-!
# What writing leaves alone

On the global path, writing payloads out changes only the output: the write buffer, the
pending payloads, the spool, the destination and the count of bytes.  `Coord.core` is the
rest, and `Coord.received` the part of it that finishing a run leaves alone.
-/

namespace Probe

open Lib

/-- A coordinator without its output. -/
def Coord.core (c : Coord) : Coord :=
  { c with
    dst := []
    bytesReceived := 0
    run := { c.run with writeBuf := [], pending := ∅, nextWriteSeq := 0, spool := none } }

/-- `m` changes only the output, and does not index out of range. -/
def Silent {α : Type} (m : Recv α) : Prop :=
  ∀ v, Triple (fun c => c.core = v) m (fun _ c => c.core = v) fun e c => e ≠ .outOfRange ∧ c.core = v

namespace Silent

variable {α β : Type}

theorem pure (a : α) : Silent (Pure.pure a : Recv α) := fun _ => Triple.pure fun _ h => h

theorem fail {e : RecvErr} (he : e ≠ .outOfRange) : Silent (Lib.fail e : Recv α) :=
  fun _ => Triple.fail fun _ h => ⟨he, h⟩

theorem bind {m : Recv α} {k : α → Recv β} (hm : Silent m) (hk : ∀ a, Silent (k a)) :
    Silent (m >>= k) :=
  fun v => Triple.bind (hm v) fun a => hk a v

theorem read_bind {k : Coord → Recv β} (hk : ∀ c, Silent (k c)) : Silent (read >>= k) :=
  fun v => Triple.read_bind fun c hc => (hk c v).conseq (fun _ h => h ▸ hc) (fun _ _ h => h)
    fun _ _ h => h

theorem ite {p : Prop} [Decidable p] {m m' : Recv α} (hm : Silent m) (hm' : Silent m') :
    Silent (if p then m else m') :=
  fun v => Triple.ite (fun _ => hm v) fun _ => hm' v

theorem update {f : Coord → Coord} (hf : ∀ c, (f c).core = c.core) : Silent (Lib.update f) :=
  fun _ => Triple.update fun c hc => (hf c).trans hc

theorem updateRun {f : RunState → RunState}
    (hf : ∀ c : Coord, ({ c with run := f c.run } : Coord).core = c.core) : Silent (updateRun f) :=
  update hf

/-- A property of the rest stays. -/
theorem stays {m : Recv α} (hm : Silent m) {P : Coord → Prop} (hP : ∀ c, P c.core ↔ P c) :
    Stays P m := by
  intro c hc
  have hcore : ∀ c' : Coord, c'.core = c.core → P c' := by
    intro c' he
    rw [← hP, he, hP]
    exact hc
  exact (hm c.core).conseq (fun _ h => h) (fun _ c' h => hcore c' h) (fun _ c' h => hcore c' h.2) c rfl

theorem flushOrdered : Silent flushOrderedParallelBlastPayload := update fun _ => rfl

theorem bufferOrdered (payload : List UInt8) :
    Silent (bufferOrderedParallelBlastPayload payload) :=
  ite (pure ()) (bind (updateRun fun _ => rfl) fun _ => read_bind fun _ => ite (pure ()) flushOrdered)

theorem validateFinalTotal (cfg : RecvConfig) (label : String) (total : Nat) :
    Silent (validateFinalTotal cfg label total) :=
  ite (pure ()) (ite (fail (by simp)) (ite (fail (by simp)) (pure ())))

theorem writePending (cfg : RecvConfig) (fuel total : Nat) :
    Silent (writePending cfg fuel total) := by
  induction fuel generalizing total with
  | zero => exact pure _
  | succ fuel ih =>
      refine read_bind fun c => ?_
      split
      · exact pure _
      · refine ite ?_ (bind (bufferOrdered _) fun _ => ?_)
        · exact bind (updateRun fun _ => rfl) fun _ => ih _
        · exact bind (updateRun fun _ => rfl) fun _ => ih _

theorem advanceWriteSeq (seq : Nat) : Silent (Probe.updateRun fun s => s.advanceWriteSeq seq) := by
  refine updateRun fun c => ?_
  rw [RunState.advanceWriteSeq]
  split
  · rfl
  · rfl

theorem writeGlobalPayload (cfg : RecvConfig) (seq offset : Nat) (payload : List UInt8) :
    Silent (writeGlobalPayload cfg seq offset payload) := by
  refine ite ?_ (read_bind fun c => ite (bind (updateRun fun _ => rfl) fun _ => pure _)
    (ite (pure _) ?_))
  · exact ite (bind (advanceWriteSeq seq) fun _ => pure _) (bind (updateRun fun _ => rfl) fun _ =>
      bind (advanceWriteSeq seq) fun _ => pure _)
  · have hrest : Silent (do
        Probe.updateRun fun s => { s with nextWriteSeq := s.nextWriteSeq + 1 }
        Probe.writePending cfg (c.run.pending.entries.length + 1) payload.length) :=
      bind (updateRun fun _ => rfl) fun _ => writePending cfg _ _
    exact ite hrest (bind (bufferOrdered _) fun _ => hrest)

theorem flushGlobalPayload (cfg : RecvConfig) : Silent (flushGlobalPayload cfg) := by
  refine ite (read_bind fun c => ?_) (ite (pure ()) flushOrdered)
  split
  · exact pure ()
  · refine bind (updateRun fun _ => rfl) fun _ => ite (pure ()) (bind (update fun _ => rfl) fun _ => ?_)
    exact ite (fail (by simp)) (pure ())

end Silent

/-- The part of a coordinator that says what was received, and its stripes. -/
structure Received where
  seen : SeqSet
  fec : Fec
  maxSeqPlusOne : Nat
  done : Bool
  totalBytes : Nat
  striped : Bool
  stripes : Map Nat StripeState
  recovered : List RecoveredPacket

def Coord.received (c : Coord) : Received where
  seen := c.run.seen
  fec := c.run.fec
  maxSeqPlusOne := c.run.maxSeqPlusOne
  done := c.run.done
  totalBytes := c.run.totalBytes
  striped := c.run.striped
  stripes := c.run.stripes
  recovered := c.recovered

/-- `m` changes nothing of what was received, and does not index out of range. -/
def Framed {α : Type} (m : Recv α) : Prop :=
  ∀ v, Triple (fun c => c.received = v) m (fun _ c => c.received = v)
    fun e c => e ≠ .outOfRange ∧ c.received = v

namespace Framed

variable {α β : Type}

theorem pure (a : α) : Framed (Pure.pure a : Recv α) := fun _ => Triple.pure fun _ h => h

theorem bind {m : Recv α} {k : α → Recv β} (hm : Framed m) (hk : ∀ a, Framed (k a)) :
    Framed (m >>= k) :=
  fun v => Triple.bind (hm v) fun a => hk a v

theorem read_bind {k : Coord → Recv β} (hk : ∀ c, Framed (k c)) : Framed (read >>= k) :=
  fun v => Triple.read_bind fun c hc => (hk c v).conseq (fun _ h => h ▸ hc) (fun _ _ h => h)
    fun _ _ h => h

theorem ite {p : Prop} [Decidable p] {m m' : Recv α} (hm : Framed m) (hm' : Framed m') :
    Framed (if p then m else m') :=
  fun v => Triple.ite (fun _ => hm v) fun _ => hm' v

theorem update {f : Coord → Coord} (hf : ∀ c, (f c).received = c.received) :
    Framed (Lib.update f) :=
  fun _ => Triple.update fun c hc => (hf c).trans hc

theorem of_silent {m : Recv α} (hm : Silent m) : Framed m := fun _ c hc =>
  (hm c.core).conseq (fun _ h => h) (fun _ _ h => (congrArg Coord.received h).trans hc)
    (fun _ _ h => ⟨h.1, (congrArg Coord.received h.2).trans hc⟩) c rfl

theorem validateFinalTotal (cfg : RecvConfig) (label : String) (total : Nat) :
    Framed (validateFinalTotal cfg label total) :=
  of_silent (.validateFinalTotal cfg label total)

theorem writeGlobalPayload (cfg : RecvConfig) (seq offset : Nat) (payload : List UInt8) :
    Framed (writeGlobalPayload cfg seq offset payload) :=
  of_silent (.writeGlobalPayload cfg seq offset payload)

theorem flushGlobalPayload (cfg : RecvConfig) : Framed (flushGlobalPayload cfg) :=
  of_silent (.flushGlobalPayload cfg)

theorem completeRun (cfg : RecvConfig) : Framed (completeRun cfg) :=
  read_bind fun _ => ite (bind (validateFinalTotal cfg _ _) fun _ =>
    bind (flushGlobalPayload cfg) fun _ => bind (update fun _ => rfl) fun _ => pure _) (pure _)

end Framed

end Probe
