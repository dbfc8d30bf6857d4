import Derphole.Lib.Pieces
import Derphole.Probe.GlobalReceive

/-!
# Writing in order

`writeOrderedParallelBlastPayload` against the pieces `ps` that a stream was cut into.
A payload whose turn has not come is kept under its number, and completion is decided by
counting the numbers seen.  `Ordered` relates the two: a number that was seen has been
written or is kept, so once all were seen all were written.

Nothing here depends on what a Done packet said, so it holds of every receiver that takes
in the sender's data packets.
-/

namespace Probe

open Lib

/-- What a Done packet said: it came, and named so many packets and bytes. -/
def RunState.final (s : RunState) : Bool × Nat × Nat := (s.done, s.totalPackets, s.totalBytes)

/-- What was taken in are pieces: the first `nextWriteSeq` of them are written, `written`
bytes of these are not counted yet, and of the others those seen are kept.  The numbers in
`fresh` were seen and are still to be written. -/
structure Ordered (ps : List (List UInt8)) (f : Bool × Nat × Nat) (fresh : Nat → Prop) (written : Nat)
    (c : Coord) : Prop where
  striped : c.run.striped = false
  final : c.run.final = f
  seen : c.run.seen.Below ps.length
  max_le : c.run.maxSeqPlusOne ≤ ps.length
  next_le : c.run.nextWriteSeq ≤ ps.length
  out : c.dst ++ c.run.writeBuf = (ps.take c.run.nextWriteSeq).flatten
  bytes : c.bytesReceived + written = offsetAt ps c.run.nextWriteSeq
  pending : c.run.pending.All fun i payload =>
    c.run.nextWriteSeq ≤ i ∧ c.run.seen.has i = true ∧ payload = ps.getD i []
  wrote : ∀ i < c.run.nextWriteSeq, c.run.seen.has i = true
  news : ∀ i, fresh i → c.run.seen.has i = true
  kept : ∀ i, c.run.seen.has i = true →
    fresh i ∨ i < c.run.nextWriteSeq ∨ ∃ payload, c.run.pending.lookup i = some payload

/-- No payload is kept whose turn has come. -/
structure Caught (ps : List (List UInt8)) (f : Bool × Nat × Nat) (fresh : Nat → Prop) (written : Nat)
    (c : Coord) : Prop where
  ordered : Ordered ps f fresh written c
  waiting : c.run.pending.lookup c.run.nextWriteSeq = none

/-- Between two packets everything that could be written is written and counted. -/
abbrev InOrder (ps : List (List UInt8)) (f : Bool × Nat × Nat) : Coord → Prop :=
  Caught ps f (fun _ => False) 0

section

variable {ps : List (List UInt8)} {f : Bool × Nat × Nat} {fresh : Nat → Prop} {written : Nat}
  {cfg : RecvConfig} {c : Coord} {E : RecvErr → Coord → Prop}

theorem Caught.empty : InOrder ps (false, 0, 0) Coord.empty where
  ordered :=
    { striped := rfl
      final := rfl
      seen := SeqSet.Below.empty
      max_le := Nat.zero_le _
      next_le := Nat.zero_le _
      out := rfl
      bytes := rfl
      pending := Map.All.empty
      wrote := fun i hi => absurd hi (Nat.not_lt_zero i)
      news := fun i hi => hi.elim
      kept := fun i h => by
        rw [show Coord.empty.run.seen = SeqSet.empty from rfl, SeqSet.has_empty] at h
        cases h }
  waiting := AList.lookup_empty _

/-- What reached the destination is a prefix. -/
theorem Ordered.dst_prefix (h : Ordered ps f fresh written c) : c.dst <+: ps.flatten := by
  have hout : c.dst <+: (ps.take c.run.nextWriteSeq).flatten := by
    rw [← h.out]
    exact List.prefix_append _ _
  exact hout.trans (prefix_flatten (List.take_prefix _ _))

/-- Once all were seen, all were written. -/
theorem Caught.next_eq (h : InOrder ps f c) (hall : ps.length ≤ c.run.seen.len) :
    c.run.nextWriteSeq = ps.length := by
  rcases Nat.lt_or_ge c.run.nextWriteSeq ps.length with hlt | hge
  · rcases h.ordered.kept _ (h.ordered.seen.full hall hlt) with hf | hlt' | ⟨payload, hl⟩
    · exact hf.elim
    · omega
    · rw [h.waiting] at hl
      cases hl
  · exact Nat.le_antisymm h.ordered.next_le hge

theorem Ordered.dst_eq (h : Ordered ps f fresh written c) (hnext : c.run.nextWriteSeq = ps.length)
    (hflushed : c.run.writeBuf = []) : c.dst = ps.flatten := by
  have hout := h.out
  rw [hflushed, List.append_nil, hnext, List.take_length] at hout
  exact hout

/-- The next piece is written. -/
theorem Ordered.write (h : Ordered ps f fresh written c) {dst buf : List UInt8}
    (hnext : c.run.seen.has c.run.nextWriteSeq = true)
    (hout : dst ++ buf = c.dst ++ c.run.writeBuf ++ ps.getD c.run.nextWriteSeq [])
    {q : Map Nat (List UInt8)}
    (hpending : q.All fun i payload =>
      c.run.nextWriteSeq + 1 ≤ i ∧ c.run.seen.has i = true ∧ payload = ps.getD i [])
    (hkept : ∀ i, c.run.seen.has i = true →
      i < c.run.nextWriteSeq + 1 ∨ ∃ payload, q.lookup i = some payload) :
    Ordered ps f (fun _ => False) (written + (ps.getD c.run.nextWriteSeq []).length)
      { c with
        dst := dst
        run := { c.run with
          writeBuf := buf, nextWriteSeq := c.run.nextWriteSeq + 1, pending := q } } where
  striped := h.striped
  final := h.final
  seen := h.seen
  max_le := h.max_le
  next_le := h.seen.lt _ hnext
  out := by
    show dst ++ buf = (ps.take (c.run.nextWriteSeq + 1)).flatten
    rw [hout, h.out, flatten_take_succ (h.seen.lt _ hnext)]
  bytes := by
    show c.bytesReceived + (written + _) = offsetAt ps (c.run.nextWriteSeq + 1)
    rw [offsetAt_succ (h.seen.lt _ hnext), ← h.bytes, Nat.add_assoc]
  pending := hpending
  wrote := fun i hi => by
    have hi' : i < c.run.nextWriteSeq + 1 := hi
    rcases Nat.lt_or_ge i c.run.nextWriteSeq with hlt | hge
    · exact h.wrote i hlt
    · rw [show i = c.run.nextWriteSeq by omega]
      exact hnext
  news := fun i hi => hi.elim
  kept := fun i hi => .inr (hkept i hi)

/-- What is kept follows in order. -/
theorem Ordered.writePending (hdst : cfg.discard = false) (fuel total : Nat) :
    Triple (fun c => Ordered ps f (fun _ => False) total c ∧ c.run.pending.entries.length < fuel)
      (writePending cfg fuel total)
      (fun w => Caught ps f (fun _ => False) w) E := by
  induction fuel generalizing total with
  | zero => exact fun c hc => absurd hc.2 (Nat.not_lt_zero _)
  | succ fuel ih =>
      refine Triple.read_bind fun c hc => ?_
      obtain ⟨h, hfuel⟩ := hc
      cases hl : c.run.pending.lookup c.run.nextWriteSeq with
      | none =>
          refine Triple.pure fun _ he => ?_
          rw [he]
          exact ⟨h, hl⟩
      | some next =>
          obtain ⟨-, hnext, rfl⟩ := h.pending _ _ hl
          refine Triple.ite (fun hd => absurd hd (by simp [hdst])) fun _ => ?_
          refine Triple.bind (bufferOrdered_spec c _) fun _ =>
            Triple.bind (Triple.update fun c' hc' => ?_) fun _ => ih _
          obtain ⟨hout, hsame⟩ := hc'
          have hsmall := Map.length_erase_lt hl
          rw [hsame]
          refine ⟨h.write hnext hout (fun i payload hi => ?_) (fun i hi => ?_), ?_⟩
          · -- the entry of its own number is gone
            by_cases hin : i = c.run.nextWriteSeq
            · rw [hin, AList.lookup_erase] at hi
              cases hi
            · rw [AList.lookup_erase_ne hin] at hi
              obtain ⟨hle, hrest⟩ := h.pending i payload hi
              exact ⟨by omega, hrest⟩
          · by_cases hin : i = c.run.nextWriteSeq
            · exact .inl (by omega)
            · rcases h.kept i hi with hf | hlt' | ⟨payload, hp⟩
              · exact hf.elim
              · exact .inl (by omega)
              · exact .inr ⟨payload, by rw [AList.lookup_erase_ne hin]; exact hp⟩
          · show (c.run.pending.erase c.run.nextWriteSeq).entries.length < fuel
            omega

/-- A piece that was just marked as seen is written or kept. -/
theorem Ordered.writeOrdered (hdst : cfg.discard = false) (seq : Nat) :
    Triple (Caught ps f (· = seq) 0)
      (writeOrderedParallelBlastPayload cfg seq (ps.getD seq []))
      (fun w => Caught ps f (fun _ => False) w) E := by
  refine Triple.read_bind fun c hc => ?_
  obtain ⟨h, hwait⟩ := hc
  have hseq : c.run.seen.has seq = true := h.news seq rfl
  refine Triple.ite (fun hlt => ?_) fun hge => Triple.ite (fun hgt => ?_) fun hle => ?_
  · -- its turn has not come
    refine Triple.bind (Triple.update fun c' hc' => ?_) fun _ => Triple.pure fun _ h => h
    rw [hc']
    refine ⟨⟨h.striped, h.final, h.seen, h.max_le, h.next_le, h.out, h.bytes,
      h.pending.insert ⟨Nat.le_of_lt hlt, hseq, rfl⟩, h.wrote, fun _ hf => hf.elim, fun i hi => ?_⟩, ?_⟩
    · by_cases his : i = seq
      · exact .inr (.inr ⟨_, by rw [his]; exact AList.lookup_insert _⟩)
      · rcases h.kept i hi with hf | hw | ⟨payload, hp⟩
        · exact absurd hf his
        · exact .inr (.inl hw)
        · exact .inr (.inr ⟨payload, by
            show (c.run.pending.insert seq _).lookup i = _
            rw [AList.lookup_insert_ne his]
            exact hp⟩)
    · show (c.run.pending.insert seq _).lookup c.run.nextWriteSeq = none
      rw [AList.lookup_insert_ne (Nat.ne_of_lt hlt)]
      exact hwait
  · -- it was written before
    refine Triple.pure fun _ he => ?_
    rw [he]
    refine ⟨⟨h.striped, h.final, h.seen, h.max_le, h.next_le, h.out, h.bytes, h.pending, h.wrote,
      fun _ hf => hf.elim, fun i hi => ?_⟩, hwait⟩
    rcases h.kept i hi with rfl | hkept
    · exact .inr (.inl hgt)
    · exact .inr hkept
  · have hnow : seq = c.run.nextWriteSeq := by omega
    refine Triple.ite (fun hd => absurd hd (by simp [hdst])) fun _ => ?_
    refine Triple.bind (bufferOrdered_spec c _) fun _ =>
      Triple.bind (Triple.update fun c' hc' => ?_) fun _ => Ordered.writePending hdst _ _
    obtain ⟨hout, hsame⟩ := hc'
    rw [hsame, hnow]
    rw [hnow] at hout hseq
    have hwrite := h.write hseq hout (q := c.run.pending) (fun i payload hi => ?_)
      (fun i hi => ?_)
    · rw [Nat.zero_add] at hwrite
      exact ⟨hwrite, Nat.lt_succ_self _⟩
    · obtain ⟨hle', hrest⟩ := h.pending i payload hi
      have hne : i ≠ c.run.nextWriteSeq := by
        intro hin
        rw [hin, hwait] at hi
        cases hi
      exact ⟨by omega, hrest⟩
    · rcases h.kept i hi with hf | hw | hp
      · exact .inl (by omega)
      · exact .inl (by omega)
      · exact .inr hp

/-- A new number is marked as seen. -/
theorem Caught.acceptData (h : InOrder ps f c) {seq : Nat} (hseq : seq < ps.length)
    (hnew : (c.run.acceptData seq).2 = true) :
    Caught ps f (· = seq) 0 { c with run := (c.run.acceptData seq).1 } := by
  obtain ⟨h, hwait⟩ := h
  have hadd := RunState.add_of_acceptData hnew
  have hgrow : ∀ i, c.run.seen.has i = true → (c.run.seen.add seq).1.has i = true := by
    intro i hi
    rw [SeqSet.has_add, hi, Bool.true_or]
  rw [RunState.acceptData_new hadd]
  refine ⟨⟨h.striped, h.final, h.seen.add hseq, Nat.max_le.mpr ⟨h.max_le, hseq⟩, h.next_le, h.out, h.bytes,
    h.pending.mono fun i _ hp => ⟨hp.1, hgrow i hp.2.1, hp.2.2⟩, fun i hi => hgrow i (h.wrote i hi),
    fun i hi => ?_, fun i hi => ?_⟩, hwait⟩
  · show (c.run.seen.add seq).1.has i = true
    rw [SeqSet.has_add, show seq = i from hi.symm]
    simp
  · have hi' : (c.run.seen.add seq).1.has i = true := hi
    rw [SeqSet.has_add, Bool.or_eq_true, decide_eq_true_eq] at hi'
    rcases hi' with hold | hnow
    · rcases h.kept i hold with hf | hkept
      · exact hf.elim
      · exact .inr hkept
    · exact .inl hnow.symm

/-- All were written as soon as the bytes go beyond the last piece's start. -/
theorem Caught.next_eq_of_bytes (h : InOrder ps f c) (hbytes : offsetAt ps (ps.length - 1) < c.bytesReceived) :
    c.run.nextWriteSeq = ps.length := by
  have hnext := h.ordered.bytes
  rcases Nat.lt_or_ge c.run.nextWriteSeq ps.length with hlt | hge
  · have := offsetAt_mono ps (i := c.run.nextWriteSeq) (j := ps.length - 1) (by omega) (by omega)
    omega
  · exact Nat.le_antisymm h.ordered.next_le hge

/-- All that was written was seen. -/
theorem Caught.le_len (h : InOrder ps f c) (hnext : c.run.nextWriteSeq = ps.length) :
    ps.length ≤ c.run.seen.len :=
  h.ordered.seen.le_len fun i hi => h.ordered.wrote i (by omega)

end

end Probe
