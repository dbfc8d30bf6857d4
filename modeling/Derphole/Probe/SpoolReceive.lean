import Derphole.Probe.FecShortRead
import Derphole.Probe.PlainExact

/-!
# Spooled and ordered output

`SpoolOutput` chooses where the global path of the coordinator puts its payloads: into a
temporary file by offset, copied to the destination when the run is complete, or through
the pending map to the destination in the order of the sequence numbers.  What was seen and
announced is counted in one way (`Tally`).  `Way` says what the rest needs of a way of
writing out, and both ways are instances of it, so that a run ends at the same packet and
with the same bytes.
-/

namespace Probe

open Lib

def RecvConfig.spooling (cfg : RecvConfig) (spool : Bool) : RecvConfig :=
  { cfg with spoolOutput := spool }

/-- The expected size is unknown or right. -/
def RecvConfig.Expects (cfg : RecvConfig) (ps : List (List UInt8)) : Prop :=
  cfg.expectedBytes ≤ 0 ∨ cfg.expectedBytes = ps.flatten.length

/-- The reads of `ReceiveBlastStreamParallelToWriter`.  The lanes take the lock of the
coordinator in turn, until one of them reports completion or fails. -/
def receiveBlastStreamParallelToWriter (cfg : RecvConfig) :
    Coord → List Arrival → Except RecvErr Bool × Coord
  | c, [] => (.ok false, c)
  | c, a :: as =>
      match exec (receivePacket cfg a) c with
      | (.ok false, c') => receiveBlastStreamParallelToWriter cfg c' as
      | r => r

/-- Every packet arrived. -/
def Arrived (ps : List (List UInt8)) (as : List Arrival) : Prop :=
  (∀ i < ps.length, ∃ a ∈ as, a.packet = dataPacket ps i) ∧ ∃ a ∈ as, a.packet = donePacket ps

/-! ## What was seen -/

/-- The packets of `got` are counted, and nothing but packets of the sender.  Packets
without payload are not counted. -/
structure Tally (ps : List (List UInt8)) (got : List Packet) (s : RunState) : Prop where
  striped : s.striped = false
  noParity : ∀ k, s.fec.parity.lookup k = none
  seen : s.seen.Below ps.length
  max_le : s.maxSeqPlusOne ≤ ps.length
  named : s.done = true → s.totalPackets = ps.length ∧ s.totalBytes = ps.flatten.length
  counted : ∀ i < ps.length, ps.getD i [] ≠ [] → dataPacket ps i ∈ got → s.seen.has i = true
  ended : donePacket ps ∈ got → s.done = true

section

variable {ps : List (List UInt8)} {got : List Packet} {s : RunState} {cfg : RecvConfig}

theorem Tally.empty : Tally ps [] RunState.empty where
  striped := rfl
  noParity := fun _ => AList.lookup_empty _
  seen := SeqSet.Below.empty
  max_le := Nat.zero_le _
  named := fun h => by cases h
  counted := fun _ _ _ h => by cases h
  ended := fun h => by cases h

/-- A new number is marked as seen. -/
theorem Tally.acceptData (h : Tally ps got s) {i : Nat} (hi : i < ps.length)
    (hnew : (s.acceptData i).2 = true) :
    Tally ps (dataPacket ps i :: got) (s.acceptData i).1 := by
  have hadd := RunState.add_of_acceptData hnew
  rw [RunState.acceptData_new hadd]
  refine { h with
    seen := h.seen.add hi
    max_le := Nat.max_le.mpr ⟨h.max_le, hi⟩
    counted := ?_
    ended := ?_ }
  · intro j hj hne hmem
    show (s.seen.add i).1.has j = true
    rw [SeqSet.has_add, Bool.or_eq_true, decide_eq_true_eq]
    rcases List.mem_cons.mp hmem with heq | hmem
    · exact .inr (congrArg Packet.seq heq).symm
    · exact .inl (h.counted j hj hne hmem)
  · intro hmem
    rcases List.mem_cons.mp hmem with heq | hmem
    · cases heq
    · exact h.ended hmem

/-- A packet that was seen, or has no payload, changes nothing. -/
theorem Tally.skip (h : Tally ps got s) {i : Nat}
    (hskip : s.seen.has i = true ∨ ps.getD i [] = []) : Tally ps (dataPacket ps i :: got) s := by
  refine { h with counted := ?_, ended := ?_ }
  · intro j hj hne hmem
    rcases List.mem_cons.mp hmem with heq | hmem
    · rcases hskip with hseen | hnil
      · rwa [show j = i from congrArg Packet.seq heq]
      · rw [← show j = i from congrArg Packet.seq heq] at hnil
        exact absurd hnil hne
    · exact h.counted j hj hne hmem
  · intro hmem
    rcases List.mem_cons.mp hmem with heq | hmem
    · cases heq
    · exact h.ended hmem

theorem Tally.markDone (h : Tally ps got s) :
    Tally ps (donePacket ps :: got)
      (s.markDoneWithTotalBytes ps.length (offsetAt ps ps.length)) := by
  refine { h with
    named := fun _ => ⟨Nat.max_eq_left h.max_le, offsetAt_length ps⟩
    counted := ?_
    ended := ?_ }
  · intro i hi hne hmem
    rcases List.mem_cons.mp hmem with heq | hmem
    · cases heq
    · exact h.counted i hi hne hmem
  · exact fun _ => rfl

/-- A run is complete once everything announced was seen. -/
theorem Tally.complete_iff (h : Tally ps got s) :
    s.complete = true ↔ s.done = true ∧ ∀ i < ps.length, s.seen.has i = true := by
  rw [RunSeqs.complete, Bool.and_eq_true, decide_eq_true_eq]
  constructor
  · rintro ⟨hdone, hlen⟩
    rw [(h.named hdone).1] at hlen
    exact ⟨hdone, fun i hi => h.seen.full hlen hi⟩
  · rintro ⟨hdone, hall⟩
    rw [(h.named hdone).1]
    exact ⟨hdone, h.seen.le_len hall⟩

/-- The count does not depend on the output. -/
theorem Tally.core_iff (c : Coord) : Tally ps got c.core.run ↔ Tally ps got c.run :=
  ⟨fun h => ⟨h.striped, h.noParity, h.seen, h.max_le, h.named, h.counted, h.ended⟩,
    fun h => ⟨h.striped, h.noParity, h.seen, h.max_le, h.named, h.counted, h.ended⟩⟩

/-- Storing for recovery does not bring parity. -/
theorem Tally.storeFECPayload (h : Tally ps got s) (groupSize seq : Nat) (payload : List UInt8) :
    Tally ps got (s.storeFECPayload groupSize seq payload) :=
  { h with noParity := Fec.parity_storeFECPayload h.noParity s.seen groupSize seq payload }

theorem Tally.acceptGlobalPayload (seq offset : Nat) (payload : List UInt8) :
    Stays (fun c => Tally ps got c.run) (acceptGlobalPayload cfg seq offset payload) :=
  Stays.bind (Stays.update fun _ h => h.storeFECPayload _ _ _) fun _ =>
    Stays.bind ((Silent.writeGlobalPayload cfg seq offset payload).stays Tally.core_iff) fun _ =>
      (Silent.update fun _ => rfl).stays Tally.core_iff

end

/-- Without parity recovery changes nothing. -/
theorem exec_recoverFEC_noParity (cfg : RecvConfig) (order : List Nat → List Nat) {c : Coord}
    (h : ∀ k, c.run.fec.parity.lookup k = none) : exec (recoverFEC cfg order) c = (.ok (), c) := by
  rw [recoverFEC]
  split
  · rfl
  · rw [exec_bind_ok (exec_read c), recoverFECLoop, exec_bind_ok (exec_read c), RunState.recoverFEC,
      RunState.recoverFECKeys_none h]
    dsimp only
    rw [exec_bind_ok (exec_update _ c), if_pos rfl, exec_pure, List.append_nil]

theorem recoverFEC_keeps {P : Coord → Prop} {E : RecvErr → Coord → Prop} (cfg : RecvConfig)
    (order : List Nat → List Nat) (hP : ∀ c, P c → ∀ k, c.run.fec.parity.lookup k = none) :
    Triple P (recoverFEC cfg order) (fun _ => P) E := by
  intro c hc
  rw [exec_recoverFEC_noParity cfg order (hP c hc)]
  exact hc

/-! ## Ways of writing out -/

/-- Nothing is left to flush. -/
structure Flushed (cfg : RecvConfig) (c : Coord) : Prop where
  writeBuf : cfg.spoolOutput = false → cfg.discard = false → c.run.writeBuf = []
  spool : cfg.spoolOutput = true → c.run.spool = none

/-- The run is complete and its output flushed. -/
structure Over (cfg : RecvConfig) (out : List UInt8) (c : Coord) : Prop where
  complete : c.run.complete = true
  dst : c.dst = out
  flushed : Flushed cfg c

/-- A way of writing out: `kept` holds between two packets of an open run, and `marked seq` when
`seq` was just marked as seen.  A complete run ends with `out` in the destination.  Where `G`
holds, the bytes counted say when all is there. -/
structure Way (G : Prop) (ps : List (List UInt8)) (cfg : RecvConfig) (out : List UInt8)
    (kept : Coord → Prop) (marked : Nat → Coord → Prop) : Prop where
  start : kept Coord.empty
  mark : ∀ c seq, kept c → seq < ps.length → (c.run.acceptData seq).2 = true →
    marked seq { c with run := (c.run.acceptData seq).1 }
  accept : ∀ seq < ps.length, Triple (marked seq)
    (acceptGlobalPayload cfg seq (offsetAt ps seq) (ps.getD seq [])) (fun _ => kept)
    fun _ c => ¬(G ∧ cfg.Expects ps) ∧ kept c
  done : ∀ c total bytes, kept c → kept { c with run := c.run.markDoneWithTotalBytes total bytes }
  flush : ∀ got, Triple (fun c => kept c ∧ Tally ps got c.run ∧ c.run.complete = true)
    (flushGlobalPayload cfg) (fun _ c => c.dst = out ∧ Flushed cfg c) fun _ _ => False
  whole : G → ∀ c, kept c → ps.flatten.length ≤ c.bytesReceived →
    ∀ i < ps.length, c.run.seen.has i = true

/-- What a packet leaves behind: an open run, a finished one or, if the sizes do not fit, one
that stopped before. -/
def After (G : Prop) (ps : List (List UInt8)) (cfg : RecvConfig) (out : List UInt8)
    (kept : Coord → Prop) (got : List Packet) (b : Bool) (c : Coord) : Prop :=
  Tally ps got c.run ∧
    match b with
    | true => Over cfg out c ∨ ¬(G ∧ cfg.Expects ps) ∧ kept c
    | false => kept c ∧ c.run.complete = false

namespace Way

variable {G : Prop} {ps : List (List UInt8)} {cfg : RecvConfig} {out : List UInt8}
  {kept : Coord → Prop} {marked : Nat → Coord → Prop} {got : List Packet}

/-- A complete run is flushed, unless its size is not the expected one. -/
theorem completeRun (w : Way G ps cfg out kept marked) :
    Triple (fun c => kept c ∧ Tally ps got c.run) (completeRun cfg)
      (fun b c => Tally ps got c.run ∧
        (b = true → Over cfg out c) ∧ (b = false → kept c ∧ c.run.complete = false))
      fun _ c => ¬cfg.Expects ps ∧ kept c := by
  refine Triple.read_bind fun c hc => Triple.ite (fun hcomp => ?_) fun hcomp => ?_
  · have htotal : c.run.totalBytes = ps.flatten.length :=
      (hc.2.named ((hc.2.complete_iff.mp hcomp).1)).2
    have hstate : ∀ c', c' = c → (kept c' ∧ Tally ps got c'.run ∧ c'.run.complete = true) ∧
        Tally ps got c'.run ∧ c'.run.complete = true := by
      rintro c' rfl
      exact ⟨⟨hc.1, hc.2, hcomp⟩, hc.2, hcomp⟩
    refine Triple.bind (Q := fun _ c' => c' = c) ?_ fun _ => Triple.bind
      (Q := fun _ c' => Tally ps got c'.run ∧ Over cfg out c') ?_ fun _ =>
        Triple.bind (Triple.update fun c' h => ?_) fun _ => Triple.pure fun _ h => h
    · -- the size is checked first
      refine Triple.ite (fun _ => Triple.pure fun _ h => h) fun hpos => Triple.ite (fun hlt => ?_) fun _ =>
        Triple.ite (fun hgt => ?_) fun _ => Triple.pure fun _ h => h
      · refine Triple.fail fun c' h => ⟨?_, h ▸ hc.1⟩
        rintro (hle | heq)
        · exact hpos hle
        · omega
      · refine Triple.fail fun c' h => ⟨?_, h ▸ hc.1⟩
        rintro (hle | heq)
        · exact hpos hle
        · omega
    · have hstays := (Silent.flushGlobalPayload cfg).stays
        (P := fun c => Tally ps got c.run ∧ c.run.complete = true)
        fun c => and_congr (Tally.core_iff c) Iff.rfl
      refine ((w.flush got).and hstays).conseq hstate (fun _ c' h => ?_) fun _ _ h => h.1.elim
      obtain ⟨⟨hdst, hflushed⟩, htally, hcomp'⟩ := h
      exact ⟨htally, hcomp', hdst, hflushed⟩
    · obtain ⟨htally, hover⟩ := h
      obtain ⟨hcomp', hdst, hflushed⟩ := hover
      exact ⟨htally, fun _ => ⟨hcomp', hdst, hflushed.writeBuf, hflushed.spool⟩, fun hb => (by cases hb)⟩
  · refine Triple.pure fun c' he => ?_
    rw [he]
    exact ⟨hc.2, fun hb => (by cases hb), fun _ => ⟨hc.1, by simpa using hcomp⟩⟩

/-- The bytes counted do not end an open run whose sizes fit. -/
theorem not_short (w : Way G ps cfg out kept marked) {c : Coord} (hk : kept c)
    (ht : Tally ps got c.run) (hopen : c.run.complete = false) (hdone : c.run.done = true)
    (hpos : 0 < cfg.expectedBytes) (hbytes : cfg.expectedBytes ≤ c.bytesReceived) :
    ¬(G ∧ cfg.Expects ps) := by
  rintro ⟨hG, hle | heq⟩
  · omega
  · have hall := w.whole hG c hk (by omega)
    have hcomp := ht.complete_iff.mpr ⟨hdone, hall⟩
    rw [hopen] at hcomp
    cases hcomp

/-- A data packet of an open run. -/
theorem data (w : Way G ps cfg out kept marked) (order : List Nat → List Nat) {i : Nat}
    (hi : i < ps.length) (count : Nat) :
    Triple (fun c => kept c ∧ Tally ps got c.run ∧ c.run.complete = false)
      (handleGlobalPacket cfg order .data i (offsetAt ps i) count (ps.getD i []))
      (After G ps cfg out kept (dataPacket ps i :: got))
      fun _ c => ¬(G ∧ cfg.Expects ps) ∧ kept c := by
  refine Triple.ite (fun hnil => Triple.pure fun c hc => ?_) fun _ =>
    Triple.read_bind fun c hc => Triple.ite (fun hnew => ?_) fun hold => Triple.pure fun c' he => ?_
  · exact ⟨hc.2.1.skip (.inr hnil), hc.1, hc.2.2⟩
  · refine Triple.bind (Q := fun _ c => marked i c ∧ Tally ps (dataPacket ps i :: got) c.run)
      (Triple.update fun c' he => ?_) fun _ => Triple.bind
        (Q := fun _ c => kept c ∧ Tally ps (dataPacket ps i :: got) c.run) ?_ fun _ =>
          Triple.bind (recoverFEC_keeps cfg order fun c h => h.2.noParity) fun _ =>
            Triple.bind (w.completeRun.conseq (fun _ h => h) (fun _ _ h => h)
              fun _ _ h => ⟨fun hfit => h.1 hfit.2, h.2⟩) fun b => Triple.read_bind fun c hc => ?_
    · rw [he]
      exact ⟨w.mark c i hc.1 hi hnew, hc.2.1.acceptData hi hnew⟩
    · exact ((w.accept i hi).and (Tally.acceptGlobalPayload i _ _)).conseq (fun _ h => h)
        (fun _ _ h => h) fun _ _ h => h.1
    · refine Triple.pure fun c' he => ?_
      rw [he]
      obtain ⟨htally, hover, hkept⟩ := hc
      refine ⟨htally, ?_⟩
      cases b with
      | true => exact .inl (hover rfl)
      | false =>
          obtain ⟨hk, hopen⟩ := hkept rfl
          rw [Bool.false_or]
          split
          · rename_i hstop
            rw [Bool.and_eq_true, Bool.and_eq_true, decide_eq_true_eq, decide_eq_true_eq] at hstop
            exact .inr ⟨w.not_short hk htally hopen hstop.2 hstop.1.1 hstop.1.2, hk⟩
          · exact ⟨hk, hopen⟩
  · rw [he]
    rw [RunState.acceptData_snd] at hold
    exact ⟨hc.2.1.skip (.inl (by simpa using hold)), hc.1, hc.2.2⟩

/-- The Done packet. -/
theorem donePacket (w : Way G ps cfg out kept marked) (order : List Nat → List Nat) (count : Nat)
    (payload : List UInt8) :
    Triple (fun c => kept c ∧ Tally ps got c.run)
      (handleGlobalPacket cfg order .done ps.length (offsetAt ps ps.length) count payload)
      (After G ps cfg out kept (donePacket ps :: got))
      fun _ c => ¬(G ∧ cfg.Expects ps) ∧ kept c := by
  refine Triple.bind (Q := fun _ c => kept c ∧ Tally ps (Probe.donePacket ps :: got) c.run)
    (Triple.update fun c hc => ⟨w.done c _ _ hc.1, hc.2.markDone⟩) fun _ =>
      Triple.bind (recoverFEC_keeps cfg order fun c h => h.2.noParity) fun _ =>
        w.completeRun.conseq (fun _ h => h) (fun b c h => ⟨h.1, ?_⟩)
          fun _ _ h => ⟨fun hfit => h.1 hfit.2, h.2⟩
  cases b with
  | true => exact .inl (h.2.1 rfl)
  | false => exact h.2.2 rfl

/-- A packet of the sender. -/
theorem packet (w : Way G ps cfg out kept marked) (got : List Packet) {a : Arrival}
    (ha : IsPlain ps a.packet) :
    Triple (fun c => kept c ∧ Tally ps got c.run ∧ c.run.complete = false) (receivePacket cfg a)
      (After G ps cfg out kept (a.packet :: got)) fun _ c => ¬(G ∧ cfg.Expects ps) ∧ kept c := by
  refine receivePacket_global (fun c hc => hc.2.1.striped) ha.global.1 ha.global.2 ?_
  rcases ha with ⟨i, hi, hq⟩ | hq
  · rw [hq]
    exact w.data a.order hi _
  · rw [hq]
    exact (w.donePacket a.order _ _).conseq (fun _ h => ⟨h.1, h.2.1⟩) (fun _ _ h => h) fun _ _ h => h

/-- How the receiver ends.  If it goes on, it has counted the packets of `got`. -/
def Ends (G : Prop) (ps : List (List UInt8)) (cfg : RecvConfig) (out : List UInt8)
    (kept : Coord → Prop) (got : List Packet) : Except RecvErr Bool × Coord → Prop
  | (.ok b, c) => ∃ got', (b = false → ∀ q ∈ got, q ∈ got') ∧ After G ps cfg out kept got' b c
  | (.error _, c) => ¬(G ∧ cfg.Expects ps) ∧ kept c

theorem Ends.mono {got' : List Packet} (hsub : ∀ q ∈ got, q ∈ got') {r : Except RecvErr Bool × Coord}
    (h : Ends G ps cfg out kept got' r) : Ends G ps cfg out kept got r := by
  obtain ⟨r, c⟩ := r
  cases r with
  | error e => exact h
  | ok b =>
      obtain ⟨all, hmem, hafter⟩ := h
      exact ⟨all, fun hb q hq => hmem hb q (hsub q hq), hafter⟩

/-- A run of the receiver, by induction on the packets that arrive. -/
theorem run (w : Way G ps cfg out kept marked) {as : List Arrival}
    (has : ∀ a ∈ as, IsPlain ps a.packet) {c : Coord}
    (hc : kept c ∧ Tally ps got c.run ∧ c.run.complete = false) :
    Ends G ps cfg out kept (as.map (·.packet) ++ got) (receiveBlastStreamParallelToWriter cfg c as) := by
  induction as generalizing c got with
  | nil => exact ⟨got, fun _ _ h => h, hc.2.1, hc.1, hc.2.2⟩
  | cons a as ih =>
      have hstep := w.packet got (has a List.mem_cons_self) c hc
      rw [receiveBlastStreamParallelToWriter]
      cases hr : exec (receivePacket cfg a) c with
      | mk r c' =>
          rw [hr] at hstep
          cases r with
          | error e => exact hstep
          | ok b =>
              cases b with
              | true => exact ⟨_, fun hb => (by cases hb), hstep⟩
              | false =>
                  have hrest := ih (fun b hb => has b (List.mem_cons_of_mem a hb))
                    ⟨hstep.2.1, hstep.1, hstep.2.2⟩
                  refine Ends.mono (fun q hq => ?_) hrest
                  simp only [List.map_cons, List.cons_append, List.mem_cons, List.mem_append] at hq ⊢
                  tauto

/-- A run that did not report completion is still open, and one that did may be flushed. -/
theorem Ends.kept_or_over {r : Except RecvErr Bool × Coord} (h : Ends G ps cfg out kept got r) :
    kept r.2 ∨ r.1 = .ok true ∧ Over cfg out r.2 := by
  obtain ⟨r, c⟩ := r
  cases r with
  | error e => exact .inl h.2
  | ok b =>
      obtain ⟨all, -, -, hafter⟩ := h
      cases b with
      | true =>
          rcases hafter with hover | ⟨-, hkept⟩
          · exact .inr ⟨rfl, hover⟩
          · exact .inl hkept
      | false => exact .inl hafter.1

/-- A run ends flushed or as a run that is open. -/
theorem run_end (w : Way G ps cfg out kept marked) {as : List Arrival}
    (has : ∀ a ∈ as, IsPlain ps a.packet) :
    kept (receiveBlastStreamParallelToWriter cfg Coord.empty as).2 ∨
      Over cfg out (receiveBlastStreamParallelToWriter cfg Coord.empty as).2 :=
  (w.run has ⟨w.start, Tally.empty, rfl⟩).kept_or_over.imp_right And.right

/-- What the receiver wrote before it reported completion. -/
theorem run_open (w : Way G ps cfg out kept marked) {as : List Arrival}
    (has : ∀ a ∈ as, IsPlain ps a.packet)
    (hr : (receiveBlastStreamParallelToWriter cfg Coord.empty as).1 ≠ .ok true) :
    kept (receiveBlastStreamParallelToWriter cfg Coord.empty as).2 := by
  rcases (w.run has ⟨w.start, Tally.empty, rfl⟩).kept_or_over with hkept | ⟨hdone, -⟩
  · exact hkept
  · exact absurd hdone hr

/-- Where the sizes fit, the receiver reports completion once every packet arrived, and with
the whole output. -/
theorem run_arrived (w : Way G ps cfg out kept marked) (hfit : G ∧ cfg.Expects ps)
    (hne : ∀ p ∈ ps, p ≠ []) {as : List Arrival} (has : ∀ a ∈ as, IsPlain ps a.packet)
    (hall : Arrived ps as) :
    ∃ c got, receiveBlastStreamParallelToWriter cfg Coord.empty as = (.ok true, c) ∧
      Tally ps got c.run ∧ Over cfg out c := by
  have hends := w.run has ⟨w.start, Tally.empty, rfl⟩
  rw [List.append_nil] at hends
  revert hends
  cases receiveBlastStreamParallelToWriter cfg Coord.empty as with
  | mk r c =>
      intro hends
      cases r with
      | error e => exact absurd hfit hends.1
      | ok b =>
          obtain ⟨got, hmem, htally, hafter⟩ := hends
          cases b with
          | true =>
              rcases hafter with hover | ⟨hmiss, -⟩
              · exact ⟨c, got, rfl, htally, hover⟩
              · exact absurd hfit hmiss
          | false =>
              have hgot : ∀ q, (∃ a ∈ as, a.packet = q) → q ∈ got := by
                rintro q ⟨a, ha, rfl⟩
                exact hmem rfl _ (List.mem_map_of_mem ha)
              have hcomp : c.run.complete = true := by
                apply htally.complete_iff.mpr
                refine ⟨htally.ended (hgot _ hall.2), fun i hi => ?_⟩
                refine htally.counted i hi ?_ (hgot _ (hall.1 i hi))
                rw [List.getD_eq_getElem _ _ hi]
                exact hne _ (List.getElem_mem hi)
              rw [hafter.2] at hcomp
              cases hcomp

end Way

/-! ## After completion -/

section

variable {ps : List (List UInt8)} {out : List UInt8} {got : List Packet}

/-- A second flush writes nothing. -/
theorem Over.flush (cfg : RecvConfig) : Stays (Over cfg out) (flushGlobalPayload cfg) := by
  rw [flushGlobalPayload]
  split
  · rename_i hspool
    refine Stays.read_bind fun c hc => ?_
    rw [hc.flushed.spool hspool]
    exact Stays.pure ()
  · rename_i hordered
    split
    · exact Stays.pure ()
    · rename_i hdst
      refine Stays.update fun c hc => ⟨hc.complete, ?_, fun _ _ => rfl, hc.flushed.spool⟩
      show c.dst ++ c.run.writeBuf = out
      rw [hc.flushed.writeBuf (by simpa using hordered) (by simpa using hdst), List.append_nil]
      exact hc.dst

theorem Over.completeRun (cfg : RecvConfig) :
    Stays (fun c => Over cfg out c ∧ Tally ps got c.run) (completeRun cfg) := by
  have hflush : Stays (fun c => Over cfg out c ∧ Tally ps got c.run) (flushGlobalPayload cfg) :=
    (Over.flush cfg).and ((Silent.flushGlobalPayload cfg).stays Tally.core_iff)
  refine Stays.read_bind fun c _ => Stays.ite (Stays.bind ?_ fun _ => Stays.bind hflush fun _ =>
    Stays.bind (Stays.update fun c hc => ?_) fun _ => Stays.pure true) (Stays.pure false)
  · exact Stays.ite (Stays.pure ()) (Stays.ite (Stays.fail _) (Stays.ite (Stays.fail _) (Stays.pure ())))
  · exact ⟨⟨hc.1.complete, hc.1.dst, hc.1.flushed.writeBuf, hc.1.flushed.spool⟩, hc.2⟩

/-- A packet that comes after completion, on a lane that had read it already, changes nothing
of the output. -/
theorem Over.packet (cfg : RecvConfig) {a : Arrival} (ha : IsPlain ps a.packet) {c : Coord}
    (hc : Over cfg out c) (ht : Tally ps got c.run) :
    Over cfg out (exec (receivePacket cfg a) c).2 ∧
      Tally ps (a.packet :: got) (exec (receivePacket cfg a) c).2.run := by
  have hstate : Triple (fun c => Over cfg out c ∧ Tally ps got c.run) (receivePacket cfg a)
      (fun _ c => Over cfg out c ∧ Tally ps (a.packet :: got) c.run)
      fun _ c => Over cfg out c ∧ Tally ps (a.packet :: got) c.run := by
    refine receivePacket_global (fun c hc => hc.2.striped) ha.global.1 ha.global.2 ?_
    rcases ha with ⟨i, hi, hq⟩ | hq
    · rw [hq]
      refine Triple.ite (fun hnil => Triple.pure fun c hc => ⟨hc.1, hc.2.skip (.inr hnil)⟩) fun _ =>
        Triple.read_bind fun c hc => ?_
      have hseen := (hc.2.complete_iff.mp hc.1.complete).2 i hi
      refine Triple.ite (fun hnew => ?_) fun _ => Triple.pure fun c' he => ?_
      · change (c.run.acceptData i).2 = true at hnew
        rw [RunState.acceptData_snd, hseen] at hnew
        cases hnew
      · rw [he]
        exact ⟨hc.1, hc.2.skip (.inl hseen)⟩
    · rw [hq]
      refine Triple.bind (Q := fun _ c => Over cfg out c ∧ Tally ps (donePacket ps :: got) c.run)
        (Triple.update fun c hc => ?_) fun _ => Triple.bind
          (recoverFEC_keeps cfg a.order fun c h => h.2.noParity) fun _ => Over.completeRun cfg
      have hall := (hc.2.complete_iff.mp hc.1.complete).2
      exact ⟨⟨hc.2.markDone.complete_iff.mpr ⟨rfl, hall⟩, hc.1.dst, hc.1.flushed.writeBuf,
        hc.1.flushed.spool⟩, hc.2.markDone⟩
  exact hstate.state ⟨hc, ht⟩

theorem Over.packets (cfg : RecvConfig) {late : List Arrival} (hlate : ∀ a ∈ late, IsPlain ps a.packet) {c : Coord}
    (hc : Over cfg out c) (ht : Tally ps got c.run) : (receivePackets cfg c late).dst = out := by
  induction late generalizing c got with
  | nil => exact hc.dst
  | cons a late ih =>
      have hstep := Over.packet cfg (hlate a List.mem_cons_self) hc ht
      exact ih (fun b hb => hlate b (List.mem_cons_of_mem a hb)) hstep.1 hstep.2

end

end Probe
