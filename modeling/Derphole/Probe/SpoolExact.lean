import Derphole.Probe.SpoolReceive

/-!
# Spooled output is ordered output

The two ways of writing out, and `io.Discard`, as instances of `Way`.  A spool file holds
every piece that was seen at its offset, so it holds the stream once all were seen, and the
copy of the announced bytes is the stream.  Nothing is written before.
-/

namespace Probe

open Lib

variable {ps : List (List UInt8)} {cfg : RecvConfig}

/-! ## In order -/

theorem ordered_way (ps : List (List UInt8)) (cfg : RecvConfig) (hdst : cfg.discard = false)
    (hordered : cfg.spoolOutput = false) :
    Way (∀ p ∈ ps, p ≠ []) ps cfg ps.flatten (fun c => ∃ f, InOrder ps f c)
      (fun seq c => ∃ f, Caught ps f (· = seq) 0 c) where
  start := ⟨_, Caught.empty⟩
  mark := by
    rintro c seq ⟨f, hc⟩ hseq hnew
    exact ⟨f, hc.acceptData hseq hnew⟩
  accept := by
    rintro seq - c ⟨f, hc⟩
    exact (acceptGlobalPayload_inOrder hdst hordered seq _).conseq (fun _ h => h)
      (fun _ _ h => ⟨f, h⟩) (fun _ _ h => h) c hc
  done := by
    rintro c total bytes ⟨f, h, hwait⟩
    exact ⟨_, ⟨h.striped, rfl, h.seen, h.max_le, h.next_le, h.out, h.bytes, h.pending, h.wrote, h.news,
      h.kept⟩, hwait⟩
  flush := by
    rintro got c ⟨⟨f, hc⟩, ht, hcomp⟩
    have hnext := hc.next_eq (hc.ordered.seen.le_len (ht.complete_iff.mp hcomp).2)
    rw [flushGlobalPayload, hordered, hdst]
    refine ⟨?_, fun _ _ => rfl, fun h => ?_⟩
    · show c.dst ++ c.run.writeBuf = ps.flatten
      rw [hc.ordered.out, hnext, List.take_length]
    · rw [hordered] at h
      cases h
  whole := by
    rintro hne c ⟨f, hc⟩ hbytes i hi
    have hlast : offsetAt ps (ps.length - 1) < offsetAt ps ps.length :=
      offsetAt_lt hne (by omega) (Nat.le_refl _)
    rw [offsetAt_length] at hlast
    have hnext := hc.next_eq_of_bytes (by omega)
    exact hc.ordered.wrote i (by omega)

/-! ## Into the spool -/

/-- The bytes of the pieces that were seen. -/
def seenBytes (ps : List (List UInt8)) (seen : SeqSet) : Nat :=
  ∑ i ∈ (Finset.range ps.length).filter (fun i => seen.has i = true), (ps.getD i []).length

theorem seenBytes_empty : seenBytes ps SeqSet.empty = 0 := by
  simp [seenBytes, SeqSet.has_empty]

theorem seenBytes_add {seen : SeqSet} {seq : Nat} (hseq : seq < ps.length) (hnew : seen.has seq = false) :
    seenBytes ps (seen.add seq).1 = seenBytes ps seen + (ps.getD seq []).length := by
  have hinsert : (Finset.range ps.length).filter (fun i => (seen.add seq).1.has i = true) =
      insert seq ((Finset.range ps.length).filter (fun i => seen.has i = true)) := by
    ext i
    simp only [Finset.mem_filter, Finset.mem_insert, Finset.mem_range, SeqSet.has_add,
      Bool.or_eq_true, decide_eq_true_eq]
    constructor
    · rintro ⟨hi, hold | rfl⟩
      · exact .inr ⟨hi, hold⟩
      · exact .inl rfl
    · rintro (rfl | ⟨hi, hold⟩)
      · exact ⟨hseq, .inr rfl⟩
      · exact ⟨hi, .inl hold⟩
  rw [seenBytes, hinsert, Finset.sum_insert (by simp [hnew]), Nat.add_comm]
  rfl

/-- Where no piece is empty, a piece that is missing is missing in the bytes. -/
theorem seenBytes_lt (hne : ∀ p ∈ ps, p ≠ []) {seen : SeqSet} {i : Nat} (hi : i < ps.length)
    (hmiss : seen.has i = false) : seenBytes ps seen < ps.flatten.length := by
  have hsplit := Finset.sum_filter_add_sum_filter_not (Finset.range ps.length)
    (fun i => seen.has i = true) fun i => (ps.getD i []).length
  have hle : (ps.getD i []).length ≤
      ∑ i ∈ (Finset.range ps.length).filter (fun i => ¬seen.has i = true), (ps.getD i []).length :=
    Finset.single_le_sum (f := fun i => (ps.getD i []).length) (fun _ _ => Nat.zero_le _)
      (by simp [hi, hmiss])
  have hpos : 0 < (ps.getD i []).length := by
    rw [List.getD_eq_getElem _ _ hi]
    exact List.length_pos_iff.mpr (hne _ (List.getElem_mem hi))
  rw [← offsetAt_length, offsetAt_eq_sum ps (Nat.le_refl _), seenBytes]
  omega

/-- The spool file holds what was seen, except `fresh`, and the destination is empty.
`uncounted` bytes are seen and not counted yet. -/
structure Spooled (ps : List (List UInt8)) (fresh : Nat → Prop) (uncounted : Nat) (c : Coord) : Prop where
  dst : c.dst = []
  holds : ∀ i, c.run.seen.has i = true → fresh i ∨
    ∃ file, c.run.spool = some file ∧ file.HoldsAt ps.flatten (offsetAt ps i) (ps.getD i []).length
  bytes : c.bytesReceived + uncounted = seenBytes ps c.run.seen

namespace Spooled

variable {c : Coord}

theorem empty : Spooled ps (fun _ => False) 0 Coord.empty where
  dst := rfl
  holds := by
    intro i h
    rw [show Coord.empty.run.seen = SeqSet.empty from rfl, SeqSet.has_empty] at h
    cases h
  bytes := seenBytes_empty.symm

theorem acceptData (h : Spooled ps (fun _ => False) 0 c) {seq : Nat} (hseq : seq < ps.length)
    (hnew : (c.run.acceptData seq).2 = true) :
    Spooled ps (· = seq) (ps.getD seq []).length { c with run := (c.run.acceptData seq).1 } := by
  have hunseen : c.run.seen.has seq = false := by
    rw [RunState.acceptData_snd] at hnew
    simpa using hnew
  rw [RunState.acceptData_new (by rw [SeqSet.add_snd, hunseen]; rfl)]
  refine ⟨h.dst, fun i hi => ?_, ?_⟩
  · change (c.run.seen.add seq).1.has i = true at hi
    rw [SeqSet.has_add, Bool.or_eq_true, decide_eq_true_eq] at hi
    rcases hi with hold | hnow
    · exact .inr ((h.holds i hold).resolve_left id)
    · exact .inl hnow.symm
  · show c.bytesReceived + _ = seenBytes ps (c.run.seen.add seq).1
    rw [seenBytes_add hseq hunseen, ← h.bytes]
    rfl

/-- The piece is put at its offset, where it disturbs no other piece. -/
theorem write {seq : Nat} (hseq : seq < ps.length) {n : Nat} (h : Spooled ps (· = seq) n c) :
    Spooled ps (fun _ => False) n { c with run := { c.run with
      spool := some ((c.run.spool.getD []).writeAt (offsetAt ps seq) (ps.getD seq [])) } } := by
  refine ⟨h.dst, fun i hi => .inr ⟨_, rfl, ?_⟩, h.bytes⟩
  have hslice := sliceAt_piece hseq
  rcases h.holds i hi with rfl | ⟨file, hfile, hold⟩
  · exact File.HoldsAt.of_writeAt _ hslice
  · rw [hfile]
    exact hold.writeAt hslice

theorem advance {n : Nat} (h : Spooled ps (fun _ => False) n c) (seq : Nat) :
    Spooled ps (fun _ => False) n { c with run := c.run.advanceWriteSeq seq } := by
  rw [RunState.advanceWriteSeq]
  split
  · exact h
  · exact ⟨h.dst, h.holds, h.bytes⟩

/-- A complete spool holds the stream. -/
theorem holdsAll (h : Spooled ps (fun _ => False) 0 c) (hall : ∀ i < ps.length, c.run.seen.has i = true)
    {file : File} (hfile : c.run.spool = some file) :
    file.HoldsAt ps.flatten 0 ps.flatten.length := by
  rw [← offsetAt_length]
  refine File.HoldsAt.of_pieces (Nat.le_refl _) fun i hi => ?_
  obtain ⟨file', hfile', hold⟩ := (h.holds i (hall i hi)).resolve_left id
  rw [hfile] at hfile'
  cases hfile'
  exact hold

/-- Where all were seen and nothing was spooled, there are no pieces. -/
theorem pieces_nil (h : Spooled ps (fun _ => False) 0 c)
    (hall : ∀ i < ps.length, c.run.seen.has i = true) (hnone : c.run.spool = none) : ps = [] := by
  apply List.eq_nil_of_length_eq_zero
  by_contra hpos
  obtain ⟨file, hfile, -⟩ := (h.holds 0 (hall 0 (by omega))).resolve_left id
  rw [hnone] at hfile
  cases hfile

end Spooled

theorem spool_way (ps : List (List UInt8)) (cfg : RecvConfig) (hdst : cfg.discard = false)
    (hspool : cfg.spoolOutput = true) :
    Way (∀ p ∈ ps, p ≠ []) ps cfg ps.flatten (Spooled ps (fun _ => False) 0)
      (fun seq => Spooled ps (· = seq) (ps.getD seq []).length) where
  start := Spooled.empty
  mark := fun _ _ hc hseq hnew => hc.acceptData hseq hnew
  accept := by
    intro seq hseq
    refine Triple.bind (Q := fun _ => Spooled ps (· = seq) (ps.getD seq []).length)
      (Triple.update fun c hc => ⟨hc.dst, hc.holds, hc.bytes⟩) fun _ =>
        Triple.bind (Q := fun w => Spooled ps (fun _ => False) w) ?_ fun w =>
          Triple.update fun c hc => ⟨hc.dst, hc.holds, hc.bytes⟩
    rw [writeGlobalPayload, hspool, writeSpoolParallelBlastPayload, hdst]
    exact Triple.bind (Q := fun _ => Spooled ps (fun _ => False) (ps.getD seq []).length)
      (Triple.update fun c hc => hc.write hseq) fun _ => Triple.bind
        (Q := fun _ => Spooled ps (fun _ => False) (ps.getD seq []).length)
        (Triple.update fun c hc => hc.advance seq) fun _ => Triple.pure fun _ h => h
  done := fun _ _ _ hc => ⟨hc.dst, hc.holds, hc.bytes⟩
  flush := by
    intro got
    rw [flushGlobalPayload, hspool, flushSpoolParallelBlastPayload, hdst]
    refine Triple.read_bind fun c hc => ?_
    obtain ⟨hkept, ht, hcomp⟩ := hc
    obtain ⟨hdone, hall⟩ := ht.complete_iff.mp hcomp
    have htotal := (ht.named hdone).2
    split
    · -- nothing was spooled, so there are no pieces
      rename_i hnone
      refine Triple.pure fun c' he => ?_
      rw [he]
      refine ⟨?_, fun h => absurd (hspool.symm.trans h) Bool.noConfusion, fun _ => hnone⟩
      rw [hkept.dst, hkept.pieces_nil hall hnone]
      rfl
    · rename_i file hfile
      have hholds := hkept.holdsAll hall hfile
      refine Triple.bind (Q := fun _ c' => c'.dst = [] ∧ Flushed cfg c') (Triple.update fun c' he => ?_)
        fun _ => Triple.ite (fun hzero => ?_) fun _ => ?_
      · rw [he]
        exact ⟨hkept.dst, fun h => absurd (hspool.symm.trans h) Bool.noConfusion, fun _ => rfl⟩
      · refine Triple.pure fun c' h => ⟨?_, h.2⟩
        have hnil : ps.flatten = [] := List.eq_nil_of_length_eq_zero (by
          rw [← htotal]
          exact hzero.resolve_left Bool.false_ne_true)
        rw [h.1, hnil]
      · refine Triple.bind (Q := fun _ c' => c'.dst = ps.flatten ∧ Flushed cfg c')
          (Triple.update fun c' h => ⟨?_, h.2.writeBuf, h.2.spool⟩) fun _ => Triple.ite (fun hlt => ?_)
            fun _ => Triple.pure fun _ h => h
        · show c'.dst ++ file.readAt 0 c.run.totalBytes = ps.flatten
          rw [h.1, htotal, hholds.readAt_eq, List.nil_append, List.drop_zero, List.take_length]
        · have hlen := hholds.length_readAt
          rw [File.readAt, List.length_take, List.drop_zero, ← htotal] at hlen
          omega
  whole := by
    intro hne c hc hbytes i hi
    by_contra hmiss
    have hlt := seenBytes_lt hne hi (by simpa using hmiss)
    have := hc.bytes
    omega

/-! ## Nowhere -/

theorem writePending_discard (hdst : cfg.discard = true) {out : List UInt8} (fuel total : Nat) :
    Stays (fun c => c.dst = out) (writePending cfg fuel total) := by
  induction fuel generalizing total with
  | zero => exact Stays.pure _
  | succ fuel ih =>
      refine Stays.read_bind fun c _ => ?_
      split
      · exact Stays.pure _
      · rw [if_pos hdst]
        exact Stays.bind (Stays.update fun _ h => h) fun _ => ih _

theorem writeGlobalPayload_discard (hdst : cfg.discard = true) {out : List UInt8} (seq offset : Nat)
    (payload : List UInt8) :
    Stays (fun c => c.dst = out) (writeGlobalPayload cfg seq offset payload) := by
  rw [writeGlobalPayload, writeSpoolParallelBlastPayload, writeOrderedParallelBlastPayload, if_pos hdst]
  refine Stays.ite ?_ (Stays.read_bind fun c _ => Stays.ite ?_ (Stays.ite (Stays.pure _) ?_))
  · exact Stays.bind (Stays.update fun _ h => h) fun _ => Stays.pure _
  · exact Stays.bind (Stays.update fun _ h => h) fun _ => Stays.pure _
  · rw [if_pos hdst]
    exact Stays.bind (Stays.update fun _ h => h) fun _ => writePending_discard hdst _ _

/-- To `io.Discard` nothing is written in either way. -/
theorem discard_way (ps : List (List UInt8)) (cfg : RecvConfig) (hdst : cfg.discard = true) :
    Way False ps cfg [] (fun c => c.dst = []) (fun _ c => c.dst = []) where
  start := rfl
  mark := fun _ _ hc _ _ => hc
  accept := by
    intro seq _
    have hstays : Stays (fun c => c.dst = [])
        (acceptGlobalPayload cfg seq (offsetAt ps seq) (ps.getD seq [])) :=
      Stays.bind (Stays.update fun _ h => h) fun _ =>
        Stays.bind (writeGlobalPayload_discard hdst seq _ _) fun _ => Stays.update fun _ h => h
    exact Triple.conseq hstays (fun _ h => h) (fun _ _ h => h) fun _ _ h => ⟨fun hfit => hfit.1, h⟩
  done := fun _ _ _ hc => hc
  flush := by
    intro got
    rw [flushGlobalPayload]
    refine Triple.ite (fun hspool => Triple.read_bind fun c hc => ?_) fun hordered => ?_
    · split
      · rename_i hnone
        refine Triple.pure fun c' he => ?_
        rw [he]
        exact ⟨hc.1, fun _ h => absurd (hdst.symm.trans h) Bool.noConfusion, fun _ => hnone⟩
      · refine Triple.bind (Q := fun _ c => c.dst = [] ∧ Flushed cfg c) (Triple.update fun c' he => ?_)
          fun _ => Triple.ite (fun _ => Triple.pure fun _ h => h) fun h => absurd (.inl hdst) h
        rw [he]
        exact ⟨hc.1, fun _ h => absurd (hdst.symm.trans h) Bool.noConfusion, fun _ => rfl⟩
    · rw [if_pos hdst]
      exact Triple.pure fun c hc => ⟨hc.1, fun _ h => absurd (hdst.symm.trans h) Bool.noConfusion,
        fun h => absurd h hordered⟩
  whole := fun h => h.elim

/-! ## Both ways -/

/-- For every cut of a stream and every order in which its packets arrive, with repetitions:
before the receiver reports completion, nothing is written in spool mode.  If no packet is
empty, the expected size is unknown or right and every packet arrives, both modes end with
the same output.  To a real destination it is the stream, both report completion, and packets
that other lanes still handle do not change it. -/
theorem spool_equals_ordered (ps : List (List UInt8)) (cfg : RecvConfig) (as : List Arrival)
    (has : ∀ a ∈ as, IsPlain ps a.packet) :
    ((receiveBlastStreamParallelToWriter (cfg.spooling true) Coord.empty as).1 ≠ .ok true →
      (receiveBlastStreamParallelToWriter (cfg.spooling true) Coord.empty as).2.dst = []) ∧
    ((∀ p ∈ ps, p ≠ []) → cfg.Expects ps → Arrived ps as →
      (receiveBlastStreamParallelToWriter (cfg.spooling true) Coord.empty as).2.dst =
        (receiveBlastStreamParallelToWriter (cfg.spooling false) Coord.empty as).2.dst ∧
      (cfg.discard = false → ∀ spool, ∃ c,
        receiveBlastStreamParallelToWriter (cfg.spooling spool) Coord.empty as = (.ok true, c) ∧
          c.dst = ps.flatten ∧ ∀ late : List Arrival, (∀ a ∈ late, IsPlain ps a.packet) →
            (receivePackets (cfg.spooling spool) c late).dst = ps.flatten)) := by
  cases hdst : cfg.discard with
  | true =>
      have hnone : ∀ spool,
          (receiveBlastStreamParallelToWriter (cfg.spooling spool) Coord.empty as).2.dst = [] := by
        intro spool
        rcases (discard_way ps (cfg.spooling spool) hdst).run_end has with hkept | hover
        · exact hkept
        · exact hover.dst
      refine ⟨fun _ => hnone true, fun _ _ _ => ⟨(hnone true).trans (hnone false).symm, ?_⟩⟩
      intro h
      cases h
  | false =>
      have hspool := spool_way ps (cfg.spooling true) hdst rfl
      have hordered := ordered_way ps (cfg.spooling false) hdst rfl
      refine ⟨fun hr => (hspool.run_open has hr).dst, fun hne hexp hall => ?_⟩
      have hends : ∀ spool, ∃ c,
          receiveBlastStreamParallelToWriter (cfg.spooling spool) Coord.empty as = (.ok true, c) ∧
            c.dst = ps.flatten ∧ ∀ late : List Arrival, (∀ a ∈ late, IsPlain ps a.packet) →
              (receivePackets (cfg.spooling spool) c late).dst = ps.flatten := by
        intro spool
        cases spool with
        | true =>
            obtain ⟨c, got, hr, ht, hover⟩ := hspool.run_arrived ⟨hne, hexp⟩ hne has hall
            exact ⟨c, hr, hover.dst, fun late hlate => hover.packets _ hlate ht⟩
        | false =>
            obtain ⟨c, got, hr, ht, hover⟩ := hordered.run_arrived ⟨hne, hexp⟩ hne has hall
            exact ⟨c, hr, hover.dst, fun late hlate => hover.packets _ hlate ht⟩
      refine ⟨?_, fun _ => hends⟩
      obtain ⟨c, hr, hout, -⟩ := hends true
      obtain ⟨c', hr', hout', -⟩ := hends false
      rw [hr, hr']
      exact hout.trans hout'.symm

/-- Three bytes in two packets, which come in reverse, one of them twice. -/
theorem spool_equals_ordered_reversed :
    ∃ c c', receiveBlastStreamParallelToWriter ⟨false, 3, 4, true⟩ Coord.empty
        (exampleReversed ++ [exampleData 0]) = (.ok true, c) ∧
      receiveBlastStreamParallelToWriter ⟨false, 3, 4, false⟩ Coord.empty
        (exampleReversed ++ [exampleData 0]) = (.ok true, c') ∧
      c.dst = [1, 2, 3] ∧ c'.dst = [1, 2, 3] := by
  have hplain : ∀ a ∈ exampleReversed ++ [exampleData 0], IsPlain examplePieces a.packet := by
    have hdata : ∀ i < 2, IsPlain examplePieces (exampleData i).packet := fun i hi => .inl ⟨i, hi, rfl⟩
    have hdone : IsPlain examplePieces exampleDone.packet := .inr rfl
    simp [exampleReversed, hdone, hdata 1 (by decide), hdata 0 (by decide)]
  have harrived : Arrived examplePieces (exampleReversed ++ [exampleData 0]) := by
    refine ⟨fun i hi => ?_, exampleDone, by simp [exampleReversed], rfl⟩
    refine ⟨exampleData i, ?_, rfl⟩
    have hcases : i = 0 ∨ i = 1 := by
      have : i < 2 := hi
      omega
    rcases hcases with rfl | rfl
    · simp
    · simp [exampleReversed]
  obtain ⟨-, hboth⟩ := spool_equals_ordered examplePieces ⟨false, 3, 4, false⟩ _ hplain
  obtain ⟨-, hends⟩ := hboth (by decide) (.inr rfl) harrived
  obtain ⟨c, hr, hout, -⟩ := hends rfl true
  obtain ⟨c', hr', hout', -⟩ := hends rfl false
  exact ⟨c, c', hr, hr', hout, hout'⟩

/-- The receiver reads the packets of a stream in order. -/
def inOrderArrivals (ps : List (List UInt8)) : List Arrival :=
  (List.range ps.length).map (fun i => ⟨0, dataPacket ps i, id⟩) ++ [⟨0, donePacket ps, id⟩]

theorem isPlain_inOrderArrivals (ps : List (List UInt8)) :
    (∀ a ∈ inOrderArrivals ps, IsPlain ps a.packet) ∧ Arrived ps (inOrderArrivals ps) := by
  refine ⟨fun a ha => ?_, fun i hi => ⟨⟨0, dataPacket ps i, id⟩, ?_, rfl⟩,
    ⟨0, donePacket ps, id⟩, List.mem_append_right _ (List.mem_singleton_self _), rfl⟩
  · rcases List.mem_append.mp ha with ha | ha
    · obtain ⟨i, hi, rfl⟩ := List.mem_map.mp ha
      exact .inl ⟨i, List.mem_range.mp hi, rfl⟩
    · rw [List.mem_singleton.mp ha]
      exact .inr rfl
  · exact List.mem_append_left _ (List.mem_map_of_mem (List.mem_range.mpr hi))

/-- A payload that fills the write buffer is written at once in ordered mode.  It stays the only
output if an empty packet follows, which is never counted, or if the size is not the expected
one; in spool mode nothing is written then. -/
theorem bufferful_differs {p : List UInt8} (hp : p ≠ []) (hlen : ¬p.length < blastReceiveWriteBuffer)
    (hone : 1 < p.length) :
    ((receiveBlastStreamParallelToWriter ⟨false, 0, 0, true⟩ Coord.empty
        (inOrderArrivals [p, []])).2.dst = [] ∧
      (receiveBlastStreamParallelToWriter ⟨false, 0, 0, false⟩ Coord.empty
        (inOrderArrivals [p, []])).2.dst = p) ∧
    (receiveBlastStreamParallelToWriter ⟨false, 1, 0, true⟩ Coord.empty
        (inOrderArrivals [p])).2.dst = [] ∧
      (receiveBlastStreamParallelToWriter ⟨false, 1, 0, false⟩ Coord.empty
        (inOrderArrivals [p])).2.dst = p := by
  have hrange : List.range 2 = [0, 1] := rfl
  have hempty : SeqSet.empty.len = 0 := rfl
  refine ⟨⟨?_, ?_⟩, ?_, ?_⟩ <;>
    simp [-bind_pure_comp, hp, hlen, hone, hrange, hempty, inOrderArrivals, dataPacket, donePacket,
      receiveBlastStreamParallelToWriter, receivePacket, Arrival.totalStripes, handlePacketStripe,
      handleGlobalPacket, exec_bind, Coord.empty, RunState.empty, RunState.acceptData,
      RunSeqs.acceptData, SeqSet.add_snd, SeqSet.has_empty, SeqSet.len_add, updateRun, acceptGlobalPayload,
      RunState.storeFECPayload,
      Fec.storeFECPayload, writeGlobalPayload, writeSpoolParallelBlastPayload,
      RunState.advanceWriteSeq, writeOrderedParallelBlastPayload, bufferOrderedParallelBlastPayload,
      flushOrderedParallelBlastPayload, writePending, recoverFEC, completeRun, validateFinalTotal,
      RunSeqs.complete, RunState.markDoneWithTotalBytes, RunSeqs.markDoneWithTotalBytes, offsetAt]

/-- The two modes differ if a packet of the stream is empty, or if the expected size is wrong. -/
theorem modes_differ :
    (∃ (ps : List (List UInt8)) (as : List Arrival),
      (∀ a ∈ as, IsPlain ps a.packet) ∧ Arrived ps as ∧
        (receiveBlastStreamParallelToWriter ⟨false, 0, 0, true⟩ Coord.empty as).2.dst ≠
          (receiveBlastStreamParallelToWriter ⟨false, 0, 0, false⟩ Coord.empty as).2.dst) ∧
    ∃ (ps : List (List UInt8)) (as : List Arrival), (∀ p ∈ ps, p ≠ []) ∧
      (∀ a ∈ as, IsPlain ps a.packet) ∧ Arrived ps as ∧
        (receiveBlastStreamParallelToWriter ⟨false, 1, 0, true⟩ Coord.empty as).2.dst ≠
          (receiveBlastStreamParallelToWriter ⟨false, 1, 0, false⟩ Coord.empty as).2.dst := by
  obtain ⟨p, hlen⟩ : ∃ p : List UInt8, p.length = blastReceiveWriteBuffer :=
    ⟨List.replicate blastReceiveWriteBuffer 1, List.length_replicate⟩
  have hone : 1 < p.length := by
    rw [hlen]
    decide
  have hp : p ≠ [] := List.length_pos_iff.mp (by omega)
  obtain ⟨⟨hspool, hordered⟩, hspool', hordered'⟩ := bufferful_differs hp (by omega) hone
  have harrive := fun ps : List (List UInt8) => isPlain_inOrderArrivals ps
  refine ⟨⟨[p, []], _, (harrive _).1, (harrive _).2, ?_⟩,
    ⟨[p], _, by simpa using hp, (harrive _).1, (harrive _).2, ?_⟩⟩
  · rw [hspool, hordered]
    exact hp.symm
  · rw [hspool', hordered']
    exact hp.symm

end Probe
