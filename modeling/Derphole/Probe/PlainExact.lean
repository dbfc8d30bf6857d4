import Derphole.Probe.ConnOrdered
import Derphole.Probe.FecExact

/-!
# Receiving without stripes

The coordinator's global path and the receiver of one connection against the packets of
one sender.  Both keep what they wrote a prefix.  Two things make them report success on less
than the stream.  Both stop at the expected size, if there is one: an expected size that falls
short of the last packet ends the run before the stream does, and the coordinator then does not
even flush what it has, nor does it compare the sizes as `validateFinalTotalLocked` would.  And
the receiver of one connection returns no error when its context ends, unless it expects a size;
the coordinator returns `ctx.Err()` there.
-/

namespace Probe

open Lib

theorem IsPlain.data {ps : List (List UInt8)} {q : Packet} (h : IsPlain ps q) (htype : q.type = .data) :
    ∃ i < ps.length, q = dataPacket ps i := by
  rcases h with h | rfl
  · exact h
  · cases htype

theorem IsPlain.done {ps : List (List UInt8)} {q : Packet} (h : IsPlain ps q) (htype : q.type = .done) :
    q.seq = ps.length := by
  rcases h with ⟨i, hi, rfl⟩ | rfl
  · cases htype
  · rfl

theorem IsPlain.global {ps : List (List UInt8)} {a : Arrival} (h : IsPlain ps a.packet) :
    a.packet.stripeID = 0 ∧ a.totalStripes ≤ 1 := by
  rcases h with ⟨i, -, hq⟩ | hq
  · exact ⟨by rw [hq]; rfl, Arrival.totalStripes_le (by rw [hq]; simp [dataPacket])⟩
  · exact ⟨by rw [hq]; rfl, Arrival.totalStripes_le (by rw [hq]; simp [donePacket])⟩

/-- The coordinator is in order and, if `G` holds, a Done packet named the packets there are. -/
def PlainSound (G : Prop) (ps : List (List UInt8)) (c : Coord) : Prop :=
  ∃ f, (G → f.1 = true → f.2.1 = ps.length) ∧ InOrder ps f c

section

variable {ps : List (List UInt8)} {cfg : RecvConfig} {G : Prop}

theorem PlainSound.empty : PlainSound G ps Coord.empty :=
  ⟨(false, 0, 0), fun _ h => (by cases h), Caught.empty⟩

/-- A packet of the global path, with the sender's data in it. -/
theorem PlainSound.packet (hcfg : PlainConfig cfg) {a : Arrival} (hid : a.packet.stripeID = 0)
    (htotal : a.totalStripes ≤ 1)
    (hdata : a.packet.type = .data → ∃ i < ps.length, a.packet = dataPacket ps i)
    (hdone : G → a.packet.type = .done → a.packet.seq = ps.length) :
    Triple (PlainSound G ps) (receivePacket cfg a)
      (fun b c => PlainSound G ps c ∧ (b = true → Reported cfg c)) fun _ => PlainSound G ps := by
  refine receivePacket_global (fun c hc => ?_) hid htotal (Triple.of_eq fun c hc => ?_)
  · obtain ⟨f, -, h⟩ := hc
    exact h.ordered.striped
  have hquiet : Triple (· = c) (pure false : Recv Bool)
      (fun b c => PlainSound G ps c ∧ (b = true → Reported cfg c)) fun _ => PlainSound G ps :=
    Triple.pure fun _ he => ⟨he ▸ hc, fun hb => by cases hb⟩
  obtain ⟨f, hf, h⟩ := id hc
  cases htype : a.packet.type with
  | data =>
      obtain ⟨i, hi, hpacket⟩ := hdata htype
      rw [hpacket]
      exact (handleGlobalData_inOrder hcfg a.order hi _ _).conseq (fun _ he => he ▸ h)
        (fun _ _ h => ⟨⟨f, hf, h.1⟩, h.2⟩) fun _ _ h => ⟨f, hf, h⟩
  | done =>
      have hnamed : ∀ c, (∃ n, a.packet.seq ≤ n ∧ n ≤ max a.packet.seq ps.length ∧
          InOrder ps (true, n, a.packet.offset) c) → PlainSound G ps c := by
        rintro c ⟨n, hle, hge, h⟩
        refine ⟨_, fun hG _ => ?_, h⟩
        have := hdone hG htype
        show n = ps.length
        omega
      exact (handleGlobalDone_inOrder hcfg a.order _ _ _ _).conseq (fun _ he => he ▸ h)
        (fun _ c h => ⟨hnamed c h.1, h.2⟩) fun _ c h => hnamed c h
  | parity =>
      rw [handleGlobalPacket, if_pos hcfg.fec]
      exact hquiet
  | hello => exact hquiet
  | helloAck => exact hquiet
  | ack => exact hquiet
  | stats => exact hquiet
  | repairRequest => exact hquiet
  | repairComplete => exact hquiet

theorem PlainSound.packets (hcfg : PlainConfig cfg) {as : List Arrival}
    (hid : ∀ a ∈ as, a.packet.stripeID = 0 ∧ a.totalStripes ≤ 1)
    (hdata : ∀ a ∈ as, a.packet.type = .data → ∃ i < ps.length, a.packet = dataPacket ps i)
    (hdone : G → ∀ a ∈ as, a.packet.type = .done → a.packet.seq = ps.length) {c : Coord}
    (hc : PlainSound G ps c) : PlainSound G ps (receivePackets cfg c as) := by
  induction as generalizing c with
  | nil => exact hc
  | cons a as ih =>
      have hhead := hid a List.mem_cons_self
      have hstep := PlainSound.packet hcfg hhead.1 hhead.2 (hdata a List.mem_cons_self) fun hG =>
        hdone hG a List.mem_cons_self
      exact ih (fun b hb => hid b (List.mem_cons_of_mem a hb))
        (fun b hb => hdata b (List.mem_cons_of_mem a hb))
        (fun hG b hb => hdone hG b (List.mem_cons_of_mem a hb))
        ((hstep.conseq (fun _ h => h) (fun _ _ h => h.1) fun _ _ h => h).state hc)

/-- What reached the destination is a prefix. -/
theorem PlainSound.dst_prefix {c : Coord} (hc : PlainSound G ps c) : c.dst <+: ps.flatten := by
  obtain ⟨f, -, h⟩ := hc
  exact h.ordered.dst_prefix

/-- What was reported complete is all there. -/
theorem PlainSound.dst_eq (hfits : FitsLast ps cfg) (hG : G) {c : Coord} (hc : PlainSound G ps c)
    (hr : Reported cfg c) : c.dst = ps.flatten := by
  obtain ⟨f, hf, h⟩ := hc
  have hnamed := hf hG
  rw [← h.ordered.final] at hnamed
  rcases hr with ⟨hcomp, hflushed⟩ | ⟨hshort, hdone, hpos, hbytes⟩
  · have hall : Enough ps f := fun hf₁ => Nat.le_of_eq (hf hG hf₁).symm
    exact h.ordered.dst_eq (hall.next_eq h hcomp) hflushed
  · -- the bytes go beyond the last packet's start, so nothing can be missing
    have hnext : c.run.nextWriteSeq = ps.length := by
      refine h.next_eq_of_bytes ?_
      rcases hfits with hle | hlt
      · omega
      · omega
    have hall := h.le_len hnext
    have htotal : c.run.totalPackets = ps.length := hnamed hdone
    rw [RunSeqs.complete, hdone, htotal, Bool.true_and, decide_eq_false_iff_not] at hshort
    exact absurd hall hshort

end

/-- Three bytes in two packets. -/
def examplePieces : List (List UInt8) := [[1, 2], [3]]

def exampleData (i : Nat) : Arrival := ⟨0, dataPacket examplePieces i, id⟩

def exampleDone : Arrival := ⟨0, donePacket examplePieces, id⟩

/-- The packets come in reverse, and the last byte twice. -/
def exampleReversed : List Arrival := [exampleDone, exampleData 1, exampleData 1]

end Probe
