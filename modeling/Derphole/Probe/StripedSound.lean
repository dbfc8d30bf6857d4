import Derphole.Probe.StripedReceive

/-!
# Striped receive writes the stream

The stream `S` is cut into pieces, each piece goes to one stripe, and packets
arrive in any order, any number of times, on any lane.  `Sound G S c` ties together
everything a byte of `S` can pass through: what is written or about to be written
is a prefix of `S`, and whatever waits for its turn, in memory or in the spool,
stands in `S` at its offset.  A run keeps `Sound`, and it reports completion only
when the destination is `S`.  The proposition `G` says that the Done packets carry the
size of `S`; only completion depends on it.
-/

namespace Probe

open Lib

variable {G : Prop} {S : List UInt8} {cfg : RecvConfig}

/-! ## What the sender sends -/

/-- A way to cut `S` into pieces and to spread them over stripes. -/
structure Cut (S : List UInt8) where
  stripes : Nat
  stripes_pos : 1 ≤ stripes
  stripes_le : stripes ≤ maxParallelStripes
  /-- The pieces in the order of the stream, each with its stripe. -/
  pieces : List (Nat × List UInt8)
  stripe_lt : ∀ p ∈ pieces, p.1 < stripes
  flatten_eq : (pieces.map (·.2)).flatten = S

namespace Cut

/-- Data packets for `pieces`, the first of them at `offset`.  `next k` is the
next sequence number of stripe `k`. -/
def dataFrom (next : Nat → Nat) (offset : Nat) : List (Nat × List UInt8) → List Packet
  | [] => []
  | (k, p) :: rest =>
      ⟨.data, k, next k, offset, 0, 0, p⟩ ::
        dataFrom (fun j => if j = k then next j + 1 else next j) (offset + p.length) rest

/-- How many pieces went to a stripe. -/
def count (cut : Cut S) (k : Nat) : Nat := (cut.pieces.filter fun p => p.1 = k).length

/-- The data packets, and one Done for each stripe with the size of the stream. -/
def packets (cut : Cut S) : List Packet :=
  dataFrom (fun _ => 0) 0 cut.pieces ++
    (List.range cut.stripes).map fun k => ⟨.done, k, cut.count k, S.length, 0, 0, []⟩

end Cut

/-- What the receiver may rely on: data stands in `S` at its offset and, if `G` holds, a
Done carries the size of `S`. -/
def Honest (G : Prop) (S : List UInt8) (p : Packet) : Prop :=
  (p.type = .data ∧ SliceAt S p.offset p.payload) ∨ (p.type = .done ∧ (G → p.offset = S.length))

theorem honest_dataFrom {pre : List UInt8} {pieces : List (Nat × List UInt8)} {next : Nat → Nat}
    (hS : pre ++ (pieces.map (·.2)).flatten = S) :
    ∀ p ∈ Cut.dataFrom next pre.length pieces, Honest G S p := by
  induction pieces generalizing pre next with
  | nil => simp [Cut.dataFrom]
  | cons piece rest ih =>
      obtain ⟨k, bytes⟩ := piece
      simp only [List.map_cons, List.flatten_cons] at hS
      intro p hp
      rw [Cut.dataFrom, List.mem_cons] at hp
      rcases hp with rfl | hp
      · refine .inl ⟨rfl, ?_, ?_⟩
        · rw [← hS, List.length_append]
          exact Nat.le_add_right _ _
        · rw [← hS, List.drop_left]
          exact List.prefix_append _ _
      · rw [← List.length_append] at hp
        exact ih (by rw [← hS, List.append_assoc]) p hp

theorem Cut.honest (cut : Cut S) : ∀ p ∈ cut.packets, Honest G S p := by
  intro p hp
  rcases List.mem_append.mp hp with hp | hp
  · exact @honest_dataFrom G S [] cut.pieces _ cut.flatten_eq p hp
  · obtain ⟨k, -, rfl⟩ := List.mem_map.mp hp
    exact .inr ⟨rfl, fun _ => rfl⟩

/-! ## The invariant -/

/-- `n` bytes at `o` are in the spool, and they are those of `S`. -/
def InSpool (S : List UInt8) (spool : Option File) (o n : Nat) : Prop :=
  ∃ f, spool = some f ∧ f.HoldsAt S o n

theorem InSpool.write {spool : Option File} {o n a : Nat} {p : List UInt8}
    (h : InSpool S spool o n) (hp : SliceAt S a p) :
    InSpool S (some ((spool.getD []).writeAt a p)) o n := by
  obtain ⟨f, rfl, hf⟩ := h
  exact ⟨_, rfl, hf.writeAt hp⟩

/-- What a stripe keeps is what the sender sent. -/
structure StripeSound (G : Prop) (S : List UInt8) (spool : Option File) (st : StripeState) : Prop where
  buffered : Map.All (fun _ p => Honest G S p) st.buffered
  bufferedSpool : Map.All
    (fun _ e => e.packet.type = .data ∧ InSpool S spool e.packet.offset e.payloadLen) st.bufferedSpool

theorem StripeSound.empty (spool : Option File) : StripeSound G S spool StripeState.empty :=
  ⟨Map.All.empty, Map.All.empty⟩

theorem StripeSound.write {spool : Option File} {st : StripeState} {a : Nat} {p : List UInt8}
    (h : StripeSound G S spool st) (hp : SliceAt S a p) :
    StripeSound G S (some ((spool.getD []).writeAt a p)) st :=
  ⟨h.buffered, h.bufferedSpool.mono fun _ _ he => ⟨he.1, he.2.write hp⟩⟩

/-- What a run keeps stands in `S`. -/
structure RunSound (G : Prop) (S : List UInt8) (s : RunState) : Prop where
  next_le : s.nextOffset ≤ S.length
  pending : Map.All (SliceAt S) s.pendingOutput
  spooled : Map.All (InSpool S s.pendingOutputSpool) s.pendingOutputSpoolLens
  stripes : Map.All (fun _ st => StripeSound G S s.pendingOutputSpool st) s.stripes
  final : G → s.finalTotalSet = true → s.finalTotal = S.length
  striped : s.striped = true

/-- What a coordinator wrote, or is about to write, is a prefix of `S`. -/
structure Sound (G : Prop) (S : List UInt8) (c : Coord) : Prop where
  run : RunSound G S c.run
  out : c.dst ++ c.run.writeBuf = S.take c.run.nextOffset

/-- A failure leaves the stream unfinished. -/
def Stuck (G : Prop) (S : List UInt8) (_ : RecvErr) (c : Coord) : Prop :=
  Sound G S c ∧ (G → c.run.nextOffset < S.length)

namespace RunSound

variable {s : RunState}

theorem stripe (h : RunSound G S s) (id : Nat) : StripeSound G S s.pendingOutputSpool (s.stripe id) :=
  h.stripes.getD (StripeSound.empty _)

/-- Changing a stripe keeps the run sound when the stripe stays sound. -/
theorem updateStripe (h : RunSound G S s) {id : Nat} {f : StripeState → StripeState}
    (hf : StripeSound G S s.pendingOutputSpool (f (s.stripe id))) :
    RunSound G S (s.updateStripe id f) :=
  ⟨h.next_le, h.pending, h.spooled, h.stripes.insert hf, h.final, h.striped⟩

/-- Writing a slice of `S` into the spool keeps everything that is there. -/
theorem writeSpool (h : RunSound G S s) {o : Nat} {p : List UInt8} (hp : SliceAt S o p) :
    RunSound G S (s.writeSpool o p) :=
  ⟨h.next_le, h.pending, h.spooled.mono fun _ _ hs => hs.write hp,
    h.stripes.mono fun _ _ hs => hs.write hp, h.final, h.striped⟩

theorem logSpool (h : RunSound G S s) (e : SpoolEvent) : RunSound G S (s.logSpool e) :=
  ⟨h.next_le, h.pending, h.spooled, h.stripes, h.final, h.striped⟩

theorem closeSpool (h : RunSound G S s)
    (hfree : s.hasStripedFutureSpooledPackets = false) : RunSound G S s.closeStripedPayloadSpool := by
  refine ⟨h.next_le, h.pending, Map.All.empty, ?_, h.final, h.striped⟩
  intro id st hl
  refine ⟨(h.stripes id st hl).buffered, Map.All.of_isEmpty ?_⟩
  rw [RunState.hasStripedFutureSpooledPackets, List.any_eq_false] at hfree
  simpa using hfree ⟨id, st⟩ (Map.mem_entries_of_lookup hl)

theorem maybeClose (h : RunSound G S s) : RunSound G S s.maybeCloseStripedPayloadSpool := by
  rw [RunState.maybeCloseStripedPayloadSpool]
  split
  · exact h
  · rename_i hc
    simp only [Bool.or_eq_true, not_or, Bool.not_eq_true] at hc
    exact h.closeSpool hc.2

end RunSound

@[simp] theorem maybeClose_nextOffset (s : RunState) :
    s.maybeCloseStripedPayloadSpool.nextOffset = s.nextOffset := by
  rw [RunState.maybeCloseStripedPayloadSpool]
  split <;> rfl

@[simp] theorem maybeClose_writeBuf (s : RunState) :
    s.maybeCloseStripedPayloadSpool.writeBuf = s.writeBuf := by
  rw [RunState.maybeCloseStripedPayloadSpool]
  split <;> rfl

/-- A change of the run that does not touch the output. -/
theorem Sound.updateRun {f : RunState → RunState} {P : Coord → Prop} {E : RecvErr → Coord → Prop}
    (hs : ∀ c, P c → Sound G S c) (hf : ∀ c, P c → RunSound G S (f c.run))
    (hnext : ∀ s, (f s).nextOffset = s.nextOffset) (hbuf : ∀ s, (f s).writeBuf = s.writeBuf) :
    Triple P (Probe.updateRun f) (fun _ => Sound G S) E := by
  refine Triple.update fun c hc => ⟨hf c hc, ?_⟩
  show c.dst ++ (f c.run).writeBuf = _
  rw [hnext, hbuf]
  exact (hs c hc).out

/-! ## Output -/

variable {E : RecvErr → Coord → Prop}

/-- Writing the next bytes of `S` extends the prefix. -/
theorem Sound.writeStripedPayload (hdst : cfg.discard = false) (payload : List UInt8) :
    Triple (fun c => Sound G S c ∧ SliceAt S c.run.nextOffset payload)
      (writeStripedPayload cfg payload) (fun _ => Sound G S) E := by
  refine Triple.ite (fun _ => Triple.pure fun c h => h.1) fun _ => ?_
  refine Triple.of_eq fun c₀ h => ?_
  rw [hdst]
  refine Triple.bind (bufferOrdered_spec c₀ payload) fun _ => ?_
  refine Triple.update ?_
  rintro c ⟨hout, hsame⟩
  obtain ⟨hs, hp⟩ := h
  have hrun : c.run = { c₀.run with writeBuf := c.run.writeBuf } := congrArg Coord.run hsame
  have hnext : c.run.nextOffset = c₀.run.nextOffset := by rw [hrun]
  refine ⟨⟨?_, ?_, ?_, ?_, ?_, ?_⟩, ?_⟩
  · show c.run.nextOffset + payload.length ≤ S.length
    rw [hnext]
    exact hp.end_le
  · rw [hrun]
    exact hs.run.pending
  · rw [hrun]
    exact hs.run.spooled
  · rw [hrun]
    exact hs.run.stripes
  · rw [hrun]
    exact hs.run.final
  · rw [hrun]
    exact hs.run.striped
  · show c.dst ++ c.run.writeBuf = S.take (c.run.nextOffset + payload.length)
    rw [hout, hs.out, hnext, hp.take_append]

/-- What is popped stands at the next offset. -/
theorem Sound.popPendingOutput :
    Triple (Sound G S) popPendingOutput
      (fun r c => Sound G S c ∧ ∀ p, r = some p → SliceAt S c.run.nextOffset p) E := by
  refine Triple.read_bind fun c hc => ?_
  have hpend := hc.run.pending
  have hspool := hc.run.spooled
  cases hl : c.run.pendingOutput.lookup c.run.nextOffset with
  | some payload =>
      refine Triple.bind (Triple.update (Q := fun _ c' => Sound G S c' ∧
        SliceAt S c'.run.nextOffset payload) ?_) fun _ => Triple.pure ?_
      · rintro _ rfl
        exact ⟨⟨⟨hc.run.next_le, hpend.erase _, hspool, hc.run.stripes, hc.run.final, hc.run.striped⟩, hc.out⟩,
          hpend _ _ hl⟩
      · rintro c' ⟨h, hp⟩
        refine ⟨h, ?_⟩
        rintro _ ⟨⟩
        exact hp
  | none =>
      cases hn : c.run.pendingOutputSpoolLens.lookup c.run.nextOffset with
      | none =>
          refine Triple.pure ?_
          rintro _ rfl
          exact ⟨hc, by simp⟩
      | some n =>
          obtain ⟨f, hf, hold⟩ := hspool _ _ hn
          simp only [hf]
          have hlen : (f.readAt c.run.nextOffset n).length = n := hold.length_readAt
          rw [if_neg (by simp [hlen])]
          refine Triple.bind (Triple.update (Q := fun _ c' => Sound G S c' ∧
            c'.run.nextOffset = c.run.nextOffset) ?_) fun _ => Triple.pure ?_
          · rintro c rfl
            have hrun : RunSound G S { c.run with
                pendingOutputSpoolLens := c.run.pendingOutputSpoolLens.erase c.run.nextOffset } :=
              ⟨hc.run.next_le, hpend, hspool.erase _, hc.run.stripes, hc.run.final, hc.run.striped⟩
            refine ⟨⟨hrun.maybeClose.logSpool _, ?_⟩, ?_⟩
            · show c.dst ++ RunState.writeBuf _ = _
              simpa [RunState.logSpool] using hc.out
            · simp [RunState.logSpool]
          · rintro c' ⟨h, hnext⟩
            refine ⟨h, ?_⟩
            rintro _ ⟨⟩
            rw [hnext]
            exact hold.sliceAt_readAt

theorem Sound.flushPendingLoop (hdst : cfg.discard = false) (fuel : Nat) :
    Triple (Sound G S) (flushPendingLoop cfg fuel) (fun _ => Sound G S) E := by
  induction fuel with
  | zero => exact Triple.pure fun _ h => h
  | succ fuel ih =>
      refine Triple.bind Sound.popPendingOutput fun r => ?_
      cases r with
      | none => exact Triple.pure fun _ h => h.1
      | some payload =>
          refine Triple.bind (Q := fun _ => Sound G S) ?_ fun _ => ih
          exact (Sound.writeStripedPayload hdst payload).conseq (fun c h => ⟨h.1, h.2 _ rfl⟩)
            (fun _ _ h => h) fun _ _ h => h

/-- A payload ahead of the output is kept where it stands. -/
theorem Sound.storeStripedPendingOutput (offset : Nat) (payload : List UInt8) :
    Triple (fun c => Sound G S c ∧ SliceAt S offset payload ∧ c.run.nextOffset < offset)
      (storeStripedPendingOutput offset payload) (fun _ => Sound G S) (Stuck G S) := by
  refine Triple.ite (fun _ => Triple.pure fun c h => h.1) fun _ => ?_
  refine Triple.read_bind fun c hc => ?_
  obtain ⟨hs, hp, hlt⟩ := hc
  refine Triple.ite (fun _ => Triple.pure ?_) fun _ => ?_
  · rintro _ rfl
    exact hs
  refine Triple.ite (fun _ => Triple.pure ?_) fun _ => ?_
  · rintro _ rfl
    exact hs
  refine Triple.ite (fun _ => Triple.update ?_) fun _ => ?_
  · rintro _ rfl
    exact ⟨⟨hs.run.next_le, hs.run.pending.insert hp, hs.run.spooled, hs.run.stripes, hs.run.final, hs.run.striped⟩,
      hs.out⟩
  refine Triple.ite (fun _ => Triple.fail ?_) fun _ => Triple.update ?_
  · rintro _ rfl
    have := hp.end_le
    exact ⟨hs, fun _ => by omega⟩
  · rintro _ rfl
    have hw := hs.run.writeSpool hp
    refine ⟨⟨hw.next_le, hw.pending, hw.spooled.insert ?_, hw.stripes, hw.final, hw.striped⟩, hs.out⟩
    exact ⟨_, rfl, File.HoldsAt.of_writeAt _ hp⟩

/-! ## Acceptance -/

/-- The configuration fits the stream: its size is unknown or right, and the
destination keeps what it is given. -/
structure Fits (S : List UInt8) (cfg : RecvConfig) : Prop where
  fec : cfg.fecGroupSize ≤ 1
  dst : cfg.discard = false
  size : cfg.expectedBytes ≤ 0 ∨ cfg.expectedBytes = S.length

/-- What is needed of the configuration, if a right size is only asked for under `G`. -/
structure Fitting (G : Prop) (S : List UInt8) (cfg : RecvConfig) : Prop where
  fec : cfg.fecGroupSize ≤ 1
  dst : cfg.discard = false
  size : G → cfg.expectedBytes ≤ 0 ∨ cfg.expectedBytes = S.length

theorem Sound.updateStripe {id : Nat} {f : StripeState → StripeState}
    (hf : ∀ st spool, StripeSound G S spool st → StripeSound G S spool (f st)) :
    Triple (Sound G S) (Probe.updateStripe id f) (fun _ => Sound G S) E :=
  Sound.updateRun (fun _ h => h) (fun _ h => h.run.updateStripe (hf _ _ (h.run.stripe id)))
    (fun _ => rfl) fun _ => rfl

/-- The announced size is the expected one. -/
theorem validateFinalTotal_size (hfit : Fitting G S cfg) (hG : G) (label : String) :
    validateFinalTotal cfg label S.length = pure () := by
  rw [validateFinalTotal]
  split
  · rfl
  · have hsize := (hfit.size hG).resolve_left ‹_›
    rw [hsize, Int.toNat_natCast, if_neg (Nat.lt_irrefl _), if_neg (Nat.lt_irrefl _)]

theorem Sound.validateFinalTotal (hfit : Fitting G S cfg) {label : String} {total : Nat}
    (htotal : G → total = S.length) :
    Triple (Sound G S) (validateFinalTotal cfg label total) (fun _ => Sound G S) (Stuck G S) := by
  rcases Classical.em G with hG | hG
  · rw [htotal hG, validateFinalTotal_size hfit hG]
    exact Triple.pure fun _ h => h
  · have hfail : ∀ e, Triple (Sound G S) (fail e : Recv Unit) (fun _ => Sound G S) (Stuck G S) :=
      fun _ => Triple.fail fun _ h => ⟨h, fun h => absurd h hG⟩
    exact Triple.ite (fun _ => Triple.pure fun _ h => h) fun _ => Triple.ite (fun _ => hfail _)
      fun _ => Triple.ite (fun _ => hfail _) fun _ => Triple.pure fun _ h => h

theorem Sound.acceptStripedPayload (hfit : Fitting G S cfg) {offset : Nat} {payload : List UInt8}
    (hp : SliceAt S offset payload) :
    Triple (Sound G S) (acceptStripedPayload cfg offset payload) (fun _ => Sound G S) (Stuck G S) := by
  refine Triple.ite (fun _ => Triple.pure fun _ h => h) fun _ => ?_
  refine Triple.bind (Q := fun _ => Sound G S) ?_ fun _ => Triple.read_bind fun c hc => ?_
  · exact Sound.updateRun (fun _ h => h) (fun _ h => ⟨h.run.next_le, h.run.pending, h.run.spooled,
      h.run.stripes, h.run.final, h.run.striped⟩) (fun _ => rfl) fun _ => rfl
  rw [hfit.dst]
  refine Triple.ite (fun h => by cases h) fun _ => ?_
  refine Triple.ite (fun heq => ?_) fun _ => Triple.ite (fun hlt => ?_) fun _ => ?_
  · refine Triple.bind (Q := fun _ => Sound G S) ?_ fun _ => ?_
    · refine (Sound.writeStripedPayload hfit.dst payload).conseq ?_ (fun _ _ h => h) fun _ _ h => h
      rintro _ rfl
      exact ⟨hc, heq ▸ hp⟩
    · exact Triple.read_bind fun c hc => (Sound.flushPendingLoop hfit.dst _).conseq
        (fun _ h => h ▸ hc) (fun _ _ h => h) fun _ _ h => h
  · refine (Sound.storeStripedPendingOutput offset payload).conseq ?_ (fun _ _ h => h)
      fun _ _ h => h
    rintro _ rfl
    exact ⟨hc, hp, hlt⟩
  · refine Triple.pure ?_
    rintro _ rfl
    exact hc

theorem Sound.markStripeDone (id : Nat) (packet : Packet) :
    Triple (Sound G S) (markStripeDone id packet) (fun _ => Sound G S) E := by
  refine Triple.read_bind fun c hc => Triple.ite (fun _ => Triple.pure ?_) fun _ => ?_
  · rintro _ rfl
    exact hc
  · refine Sound.updateRun (fun _ h => h ▸ hc) ?_ (fun _ => rfl) fun _ => rfl
    rintro _ rfl
    have hst := hc.run.stripe id
    have h : RunSound G S (RunState.updateStripe _ id fun st =>
        { st with done := true, totalPackets := packet.seq }) :=
      hc.run.updateStripe ⟨hst.buffered, hst.bufferedSpool⟩
    exact ⟨h.next_le, h.pending, h.spooled, h.stripes, h.final, h.striped⟩

theorem Sound.recordFinalTotal (hfit : Fitting G S cfg) {total : Nat} (htotal : G → total = S.length) :
    Triple (Sound G S) (recordFinalTotal cfg total) (fun _ => Sound G S) (Stuck G S) := by
  refine Triple.read_bind fun c hc => Triple.ite (fun _ => ?_) fun hset => Triple.ite (fun hne => ?_)
    fun _ => ?_
  · refine Triple.bind (Q := fun _ => Sound G S) (Triple.update ?_) fun _ => ?_
    · rintro _ rfl
      exact ⟨⟨hc.run.next_le, hc.run.pending, hc.run.spooled, hc.run.stripes, fun hG _ => htotal hG,
        hc.run.striped⟩, hc.out⟩
    · exact Sound.validateFinalTotal hfit htotal
  · refine Triple.fail ?_
    rintro _ rfl
    refine ⟨hc, fun hG => absurd ?_ hne⟩
    rw [htotal hG, hc.run.final hG (by simpa using hset)]
  · refine (Sound.validateFinalTotal hfit fun hG => hc.run.final hG (by simpa using hset)).conseq ?_
      (fun _ _ h => h) fun _ _ h => h
    rintro _ rfl
    exact hc

theorem Sound.advanceStripe (id : Nat) :
    Triple (Sound G S) (advanceStripe id) (fun _ => Sound G S) E :=
  Sound.updateStripe fun _ _ h => ⟨h.buffered, h.bufferedSpool⟩

theorem Sound.accept (hfit : Fitting G S cfg) (id : Nat) {packet : Packet} (hp : Honest G S packet) :
    Triple (Sound G S) (acceptStripedSequentialPacket cfg id packet) (fun _ => Sound G S) (Stuck G S) := by
  rcases hp with ⟨htype, hp⟩ | ⟨htype, hp⟩
  · rw [acceptStripedSequentialPacket, htype]
    exact Triple.bind (Sound.acceptStripedPayload hfit hp) fun _ => Sound.advanceStripe id
  · rw [acceptStripedSequentialPacket, htype]
    refine Triple.bind (Sound.markStripeDone id packet) fun _ => ?_
    exact Triple.bind (Sound.recordFinalTotal hfit hp) fun _ => Sound.advanceStripe id

/-! ## Packets out of turn -/

/-- A finished stream has been flushed. -/
structure Ready (G : Prop) (S : List UInt8) (cfg : RecvConfig) (c : Coord) : Prop where
  sound : Sound G S c
  flushed : G → stripedComplete cfg c = true → c.run.writeBuf = []

theorem Sound.next_eq_of_complete (hfit : Fitting G S cfg) (hG : G) {c : Coord} (h : Sound G S c)
    (hc : stripedComplete cfg c = true) : c.run.nextOffset = S.length := by
  simp only [stripedComplete, stripedPayloadComplete, hfit.dst, Bool.or_eq_true, Bool.and_eq_true,
    decide_eq_true_eq, if_neg Bool.false_ne_true] at hc
  rcases hc with ⟨hpos, hc⟩ | ⟨hset, -, hc⟩
  · have hsize := (hfit.size hG).resolve_left (by omega)
    omega
  · rw [hc, h.run.final hG hset]

theorem Stuck.ready (hfit : Fitting G S cfg) {e : RecvErr} {c : Coord} (h : Stuck G S e c) :
    Ready G S cfg c := by
  refine ⟨h.1, fun hG hc => ?_⟩
  have := h.1.next_eq_of_complete hfit hG hc
  have := h.2 hG
  omega

/-- The destination of a finished stream is the stream. -/
theorem Ready.dst_eq (hfit : Fitting G S cfg) (hG : G) {c : Coord} (h : Ready G S cfg c)
    (hc : stripedComplete cfg c = true) : c.dst = S := by
  have hout := h.sound.out
  rw [h.flushed hG hc, h.sound.next_eq_of_complete hfit hG hc, List.append_nil, List.take_length] at hout
  exact hout

/-- A change of the run that touches neither the output nor the sizes. -/
theorem Ready.updateRun {f : RunState → RunState} {P : Coord → Prop}
    (hs : ∀ c, P c → Ready G S cfg c) (hf : ∀ c, P c → RunSound G S (f c.run))
    (hout : ∀ s, (f s).nextOffset = s.nextOffset ∧ (f s).writeBuf = s.writeBuf ∧
      (f s).finalTotal = s.finalTotal ∧ (f s).finalTotalSet = s.finalTotalSet) :
    Triple P (Probe.updateRun f) (fun _ => Ready G S cfg) E := by
  refine Triple.update fun c hc => ⟨⟨hf c hc, ?_⟩, ?_⟩
  · show c.dst ++ (f c.run).writeBuf = _
    rw [(hout _).1, (hout _).2.1]
    exact (hs c hc).sound.out
  · intro hG hcomp
    show (f c.run).writeBuf = []
    rw [(hout _).2.1]
    apply (hs c hc).flushed hG
    simp only [stripedComplete, stripedPayloadComplete, (hout c.run).1, (hout c.run).2.2.1,
      (hout c.run).2.2.2] at hcomp
    exact hcomp

theorem Ready.updateStripe {id : Nat} {f : StripeState → StripeState} {P : Coord → Prop}
    (hs : ∀ c, P c → Ready G S cfg c)
    (hf : ∀ c, P c → StripeSound G S c.run.pendingOutputSpool (f (c.run.stripe id))) :
    Triple P (Probe.updateStripe id f) (fun _ => Ready G S cfg) E :=
  Ready.updateRun hs (fun c h => (hs c h).sound.run.updateStripe (hf c h))
    fun _ => ⟨rfl, rfl, rfl, rfl⟩

theorem StripeSound.store {spool : Option File} {st : StripeState} {packet : Packet}
    (h : StripeSound G S spool st) (hp : Honest G S packet) :
    StripeSound G S spool ((st.markSeen packet.seq).storeBufferedPacket packet) :=
  ⟨h.buffered.insert hp, h.bufferedSpool⟩

theorem Honest.slice {packet : Packet} (h : Honest G S packet) (htype : packet.type = .data) :
    SliceAt S packet.offset packet.payload := by
  rcases h with h | h
  · exact h.2
  · rw [htype] at h
    cases h.1

theorem Ready.storeStripedFuturePacket (id : Nat) {packet : Packet} (hp : Honest G S packet) :
    Triple (Ready G S cfg) (storeStripedFuturePacket id packet) (fun _ => Ready G S cfg)
      (fun _ => Ready G S cfg) := by
  refine Triple.read_bind fun c hc => ?_
  have hst := hc.sound.run.stripe id
  have hkeep : Triple (· = c) (pure () : Recv Unit) (fun _ => Ready G S cfg) fun _ => Ready G S cfg := by
    refine Triple.pure ?_
    rintro _ rfl
    exact hc
  refine Triple.ite (fun _ => Triple.ite (fun _ => hkeep) fun _ => ?_) fun hdata => ?_
  · refine Ready.updateStripe ?_ ?_
    · rintro _ rfl
      exact hc
    · rintro _ rfl
      exact hst.store hp
  have hslice := hp.slice (not_not.mp (not_or.mp hdata).1)
  refine Triple.ite (fun _ => Triple.ite (fun _ => hkeep) fun _ => ?_) fun _ => ?_
  · refine Ready.updateRun ?_ ?_ fun _ => ⟨rfl, rfl, rfl, rfl⟩
    · rintro _ rfl
      exact hc
    · rintro _ rfl
      have h : RunSound G S (RunState.updateStripe _ id fun st =>
          (st.markSeen packet.seq).storeBufferedPacket packet) :=
        hc.sound.run.updateStripe (hst.store hp)
      exact ⟨h.next_le, h.pending, h.spooled, h.stripes, h.final, h.striped⟩
  refine Triple.ite (fun _ => Triple.fail ?_) fun _ => ?_
  · rintro _ rfl
    exact hc
  refine Triple.bind (Q := fun _ c' => Ready G S cfg c' ∧
    InSpool S c'.run.pendingOutputSpool packet.offset packet.payload.length) ?_ fun _ => ?_
  · have hw := hc.sound.run.writeSpool hslice
    refine Triple.update ?_
    rintro _ rfl
    exact ⟨⟨⟨hw.logSpool _, hc.sound.out⟩, hc.flushed⟩, _, rfl, File.HoldsAt.of_writeAt _ hslice⟩
  · refine Triple.ite (fun _ => Triple.pure fun _ h => h.1) fun _ => ?_
    refine Ready.updateStripe (fun _ h => h.1) fun c' h => ?_
    have hst' := h.1.sound.run.stripe id
    exact ⟨hst'.buffered, hst'.bufferedSpool.insert ⟨not_not.mp (not_or.mp hdata).1, h.2⟩⟩

/-! ## Packets whose turn has come -/

theorem Sound.popStripedBufferedPacket (id : Nat) :
    Triple (Sound G S) (popStripedBufferedPacket id)
      (fun r c => Sound G S c ∧ ∀ p, r = some p → Honest G S p) E := by
  refine Triple.read_bind fun c hc => ?_
  have hst := hc.run.stripe id
  dsimp only
  cases hl : (c.run.stripe id).buffered.lookup (c.run.stripe id).expectedSeq with
  | some packet =>
      refine Triple.bind (Q := fun _ => Sound G S) (Triple.update ?_) fun _ => Triple.pure ?_
      · rintro _ rfl
        have h : RunSound G S (RunState.updateStripe _ id fun st =>
            { st with buffered := st.buffered.erase st.expectedSeq }) :=
          hc.run.updateStripe ⟨hst.buffered.erase _, hst.bufferedSpool⟩
        exact ⟨⟨h.next_le, h.pending, h.spooled, h.stripes, h.final, h.striped⟩, hc.out⟩
      · intro c' h
        refine ⟨h, ?_⟩
        rintro _ ⟨⟩
        exact hst.buffered _ _ hl
  | none =>
      cases hn : (c.run.stripe id).bufferedSpool.lookup (c.run.stripe id).expectedSeq with
      | none =>
          refine Triple.pure ?_
          rintro _ rfl
          exact ⟨hc, by simp⟩
      | some spooled =>
          obtain ⟨htype, f, hf, hold⟩ := hst.bufferedSpool _ _ hn
          have hlen : (f.readAt spooled.packet.offset spooled.payloadLen).length =
              spooled.payloadLen := hold.length_readAt
          simp only [hf]
          rw [if_neg (by simp [hlen])]
          refine Triple.bind (Q := fun _ => Sound G S) (Triple.update ?_) fun _ => Triple.pure ?_
          · rintro c rfl
            have h : RunSound G S (c.run.updateStripe id fun st =>
                { st with bufferedSpool := st.bufferedSpool.erase st.expectedSeq }) :=
              hc.run.updateStripe ⟨hst.buffered, hst.bufferedSpool.erase _⟩
            refine ⟨h.maybeClose.logSpool _, ?_⟩
            show c.dst ++ RunState.writeBuf _ = _
            simpa [RunState.updateStripe, RunState.logSpool] using hc.out
          · intro c' h
            refine ⟨h, ?_⟩
            rintro _ ⟨⟩
            exact .inl ⟨htype, hold.sliceAt_readAt⟩

theorem Sound.drainStripedBuffered (hfit : Fitting G S cfg) (id fuel : Nat) :
    Triple (Sound G S) (drainStripedBuffered cfg id fuel) (fun _ => Sound G S) (Stuck G S) := by
  induction fuel with
  | zero => exact Triple.pure fun _ h => h
  | succ fuel ih =>
      refine Triple.bind (Sound.popStripedBufferedPacket id) fun r => ?_
      cases r with
      | none => exact Triple.pure fun _ h => h.1
      | some packet =>
          refine Triple.of_eq fun c hc => ?_
          refine Triple.bind (Q := fun _ => Sound G S) ?_ fun _ => ih
          refine (Sound.accept hfit id (hc.2 _ rfl)).conseq ?_ (fun _ _ h => h) fun _ _ h => h
          rintro _ rfl
          exact hc.1

theorem recoverStripedFEC_off (hfec : cfg.fecGroupSize ≤ 1) (order : List Nat → List Nat) :
    recoverStripedFEC cfg order = pure () := if_pos hfec

/-- What a handled packet leaves: a sound coordinator, and `true` only for a
finished stream. -/
def Handled (G : Prop) (S : List UInt8) (cfg : RecvConfig) (r : Bool) (c : Coord) : Prop :=
  Ready G S cfg c ∧ (r = true → stripedComplete cfg c = true)

theorem Ready.recordFECPayload (id : Nat) (packet : Packet) :
    Triple (Ready G S cfg) (recordFECPayload cfg id packet) (fun _ => Ready G S cfg) E := by
  refine Triple.ite (fun _ => ?_) fun _ => Triple.pure fun _ h => h
  exact Ready.updateStripe (fun _ h => h) fun c h =>
    ⟨(h.sound.run.stripe id).buffered, (h.sound.run.stripe id).bufferedSpool⟩

theorem Ready.observeTerminal (id : Nat) (packet : Packet) :
    Triple (Ready G S cfg) (observeTerminal id packet) (fun _ => Ready G S cfg) E := by
  refine Triple.ite (fun _ => ?_) fun _ => Triple.pure fun _ h => h
  exact Ready.updateStripe (fun _ h => h) fun c h =>
    ⟨(h.sound.run.stripe id).buffered, (h.sound.run.stripe id).bufferedSpool⟩

theorem Ready.handleStripedFuture (id : Nat) {packet : Packet} (hp : Honest G S packet) :
    Triple (Ready G S cfg) (handleStripedFuture cfg (pure ()) id packet) (Handled G S cfg)
      fun _ => Ready G S cfg := by
  refine Triple.bind (Ready.storeStripedFuturePacket id hp) fun _ => ?_
  refine Triple.bind (Ready.recordFECPayload id packet) fun _ => ?_
  have hreturn : Triple (Ready G S cfg) (read >>= fun c => pure (stripedComplete cfg c) : Recv Bool)
      (Handled G S cfg) fun _ => Ready G S cfg := by
    refine Triple.read_bind fun c hc => Triple.pure ?_
    rintro _ rfl
    exact ⟨hc, fun h => h⟩
  exact Triple.ite (fun _ => Triple.bind (Triple.pure fun _ h => h) fun _ => hreturn)
    fun _ => hreturn

/-- The last step flushes a finished stream. -/
theorem Sound.finishStriped (hfit : Fitting G S cfg) :
    Triple (Sound G S) (finishStriped cfg) (Handled G S cfg) E := by
  refine Triple.bind (Q := fun _ => Sound G S) ?_ fun _ => Triple.read_bind fun c hc => ?_
  · refine Sound.updateRun (fun _ h => h) (fun c h => ?_) ?_ ?_
    · split
      · exact ⟨h.run.next_le, h.run.pending, h.run.spooled, h.run.stripes, h.run.final,
          h.run.striped⟩
      · exact h.run
    · intro s
      split <;> rfl
    · intro s
      split <;> rfl
  · refine Triple.ite (fun hcomp => ?_) fun hcomp => Triple.pure ?_
    · rw [flushStripedPayload, hfit.dst]
      refine Triple.bind (Q := fun _ => Handled G S cfg true) (Triple.update ?_) fun _ =>
        Triple.bind (Triple.update fun _ h => ?_) fun _ => Triple.pure fun _ h => h
      rotate_left
      · exact ⟨⟨⟨h.1.sound.run, h.1.sound.out⟩, h.1.flushed⟩, h.2⟩
      rintro _ rfl
      refine ⟨⟨⟨⟨hc.run.next_le, hc.run.pending, hc.run.spooled, hc.run.stripes, hc.run.final,
        hc.run.striped⟩, ?_⟩, fun _ _ => rfl⟩, fun _ => hcomp⟩
      simpa using hc.out
    · rintro _ rfl
      exact ⟨⟨hc, fun _ h => absurd h hcomp⟩, by simp⟩

theorem Ready.handleStripedInTurn (hfit : Fitting G S cfg) (id kept : Nat) {packet : Packet}
    (hp : Honest G S packet) :
    Triple (Ready G S cfg) (handleStripedInTurn cfg (pure ()) id packet kept) (Handled G S cfg)
      fun _ => Ready G S cfg := by
  have hstuck : ∀ {m : Recv Unit}, Triple (Sound G S) m (fun _ => Sound G S) (Stuck G S) →
      Triple (Sound G S) m (fun _ => Sound G S) fun _ => Ready G S cfg := fun h =>
    h.conseq (fun _ h => h) (fun _ _ h => h) fun _ _ h => h.ready hfit
  refine Triple.bind (Q := fun _ => Ready G S cfg) ?_ fun _ => ?_
  · exact Ready.updateStripe (fun _ h => h) fun c h =>
      ⟨(h.sound.run.stripe id).buffered, (h.sound.run.stripe id).bufferedSpool⟩
  refine Triple.bind (Ready.recordFECPayload id packet) fun _ => ?_
  refine Triple.bind (Q := fun _ => Sound G S) ?_ fun _ => ?_
  · exact (hstuck (Sound.accept hfit id hp)).conseq (fun _ h => h.sound) (fun _ _ h => h)
      fun _ _ h => h
  refine Triple.bind (hstuck (Sound.drainStripedBuffered hfit id (kept + 1))) fun _ => ?_
  exact Triple.bind (Triple.pure fun _ h => h) fun _ => Sound.finishStriped hfit

theorem Ready.handleStripedDataOrDone (hfit : Fitting G S cfg) (order : List Nat → List Nat) (id : Nat)
    {packet : Packet} (hp : Honest G S packet) :
    Triple (Ready G S cfg) (handleStripedDataOrDone cfg order id packet) (Handled G S cfg)
      fun _ => Ready G S cfg := by
  rw [Probe.handleStripedDataOrDone, handleStripedDataOrDoneWith, recoverStripedFEC_off hfit.fec]
  refine Triple.bind (Ready.observeTerminal id packet) fun _ => Triple.read_bind fun c hc => ?_
  dsimp only
  refine Triple.ite (fun _ => Triple.pure ?_) fun _ => Triple.ite (fun _ => ?_) fun _ => ?_
  · rintro _ rfl
    exact ⟨hc, fun h => h⟩
  · exact (Ready.handleStripedFuture id hp).conseq (fun _ he => he ▸ hc) (fun _ _ h => h)
      fun _ _ h => h
  · exact (Ready.handleStripedInTurn hfit id _ hp).conseq (fun _ he => he ▸ hc) (fun _ _ h => h)
      fun _ _ h => h

/-! ## Runs -/

/-- Nothing arrived yet, or the run is striped and sound. -/
def Started (G : Prop) (S : List UInt8) (cfg : RecvConfig) (c : Coord) : Prop :=
  c = Coord.empty ∨ Ready G S cfg c

theorem enableStriped_eq (s : RunState) (totalStripes : Nat) :
    s.enableStriped totalStripes =
      { s with striped := true, totalStripes := (s.enableStriped totalStripes).totalStripes } := by
  rw [RunState.enableStriped]
  split <;> rfl

theorem Started.runSound {c : Coord} (hc : Started G S cfg c) (totalStripes : Nat) :
    RunSound G S (c.run.enableStriped totalStripes) := by
  rw [enableStriped_eq]
  rcases hc with rfl | hc
  · exact ⟨Nat.zero_le _, Map.All.empty, Map.All.empty, Map.All.empty,
      by simp [Coord.empty, RunState.empty], rfl⟩
  · exact ⟨hc.sound.run.next_le, hc.sound.run.pending, hc.sound.run.spooled,
      hc.sound.run.stripes, hc.sound.run.final, rfl⟩

/-- Switching the run to stripes, or binding a stripe to a lane. -/
theorem Started.enter (stripeID lane totalStripes : Nat) :
    Triple (Started G S cfg) (Probe.updateRun fun s =>
        (s.enableStriped totalStripes).stripeState stripeID lane)
      (fun _ => Ready G S cfg) E := by
  refine Triple.update fun c hc => ?_
  have hrun := hc.runSound totalStripes
  have hst := hrun.stripe stripeID
  have hbound : RunSound G S ((c.run.enableStriped totalStripes).updateStripe stripeID fun st =>
      { st with lane := some lane }) := hrun.updateStripe ⟨hst.buffered, hst.bufferedSpool⟩
  refine ⟨⟨hbound, ?_⟩, ?_⟩
  · show c.dst ++ (c.run.enableStriped totalStripes).writeBuf =
      S.take (c.run.enableStriped totalStripes).nextOffset
    rw [enableStriped_eq]
    rcases hc with rfl | hc
    · rfl
    · exact hc.sound.out
  · intro hG hcomp
    show (c.run.enableStriped totalStripes).writeBuf = []
    dsimp only [RunState.stripeState, RunState.updateStripe] at hcomp
    rw [enableStriped_eq] at hcomp ⊢
    rcases hc with rfl | hc
    · rfl
    · exact hc.flushed hG hcomp

/-- Data and Done packets as the receiver relies on them, and any other packet. -/
def Fair (G : Prop) (S : List UInt8) (p : Packet) : Prop :=
  Honest G S p ∨ (p.type ≠ .data ∧ p.type ≠ .done)

theorem Started.handleStripedPacket (hfit : Fitting G S cfg) {a : Arrival} (ha : Fair G S a.packet)
    (count : Nat) :
    Triple (Started G S cfg) (handleStripedPacket cfg a.order a.lane a.packet.stripeID a.totalStripes
      a.packet.type a.packet.seq a.packet.offset count a.packet.payload) (Handled G S cfg)
      fun _ => Ready G S cfg := by
  refine Triple.bind (Started.enter _ _ _) fun _ => ?_
  have hquiet : Triple (Ready G S cfg) (pure false : Recv Bool) (Handled G S cfg) fun _ => Ready G S cfg :=
    Triple.pure fun _ h => ⟨h, by simp⟩
  rcases ha with (⟨htype, hp⟩ | ⟨htype, hp⟩) | ⟨hdata, hdone⟩
  · rw [htype]
    exact Triple.ite (fun _ => hquiet) fun _ =>
      Ready.handleStripedDataOrDone hfit _ _ (.inl ⟨rfl, hp⟩)
  · rw [htype]
    exact Ready.handleStripedDataOrDone hfit _ _ (.inr ⟨rfl, hp⟩)
  · split
    · exact absurd ‹_› hdata
    · exact absurd ‹_› hdone
    · rw [if_pos (.inl hfit.fec)]
      exact hquiet
    · exact hquiet

/-- A packet of a striped run. -/
theorem Ready.receivePacket (hfit : Fitting G S cfg) {a : Arrival} (ha : Fair G S a.packet) :
    Triple (Ready G S cfg) (receivePacket cfg a) (Handled G S cfg) fun _ => Ready G S cfg := by
  refine Triple.read_bind fun c hc => ?_
  refine Triple.ite (fun _ => ?_) fun hnot => ?_
  · exact (Started.handleStripedPacket hfit ha _).conseq (fun _ he => he ▸ .inr hc)
      (fun _ _ h => h) fun _ _ h => h
  · exact absurd (.inr (.inr hc.sound.run.striped)) hnot

theorem Ready.after {m : Recv Bool} (h : Triple (Ready G S cfg) m (Handled G S cfg) fun _ => Ready G S cfg)
    {c : Coord} (hc : Ready G S cfg c) : Ready G S cfg (exec m c).2 := by
  have h' := h c hc
  cases hr : exec m c with
  | mk r t =>
      rw [hr] at h'
      cases r with
      | ok b => exact h'.1
      | error e => exact h'

/-- Every run keeps the invariant. -/
theorem Ready.receivePackets (hfit : Fitting G S cfg) {as : List Arrival}
    (has : ∀ a ∈ as, Fair G S a.packet) {c : Coord} (hc : Ready G S cfg c) :
    Ready G S cfg (receivePackets cfg c as) := by
  induction as generalizing c with
  | nil => exact hc
  | cons a as ih =>
      exact ih (fun b hb => has b (by simp [hb]))
        (Ready.after (Ready.receivePacket hfit (has a (by simp))) hc)

/-- Neither a Data nor a Done packet: either the run is not striped yet, or it is sound. -/
theorem Started.quiet (hfit : Fitting G S cfg) {a : Arrival}
    (ha : a.packet.type ≠ .data ∧ a.packet.type ≠ .done) {c : Coord} (hc : Started G S cfg c) :
    Started G S cfg (exec (receivePacket cfg a) c).2 := by
  have hfair : Fair G S a.packet := .inr ha
  have hstriped := Started.handleStripedPacket hfit hfair
    (if a.packet.type = .parity then a.packet.ackFloor else 0) c hc
  rw [Probe.receivePacket, handlePacketStripe, exec_bind_ok (exec_read c)]
  split
  · cases hr : exec (Probe.handleStripedPacket cfg a.order a.lane a.packet.stripeID a.totalStripes
      a.packet.type a.packet.seq a.packet.offset
      (if a.packet.type = .parity then a.packet.ackFloor else 0) a.packet.payload) c with
    | mk r t =>
        rw [hr] at hstriped
        cases r with
        | ok b => exact .inr hstriped.1
        | error e => exact .inr hstriped
  · unfold handleGlobalPacket
    split
    · exact absurd ‹_› ha.1
    · rw [if_pos hfit.fec]
      exact hc
    · exact absurd ‹_› ha.2
    · exact hc

end Probe
