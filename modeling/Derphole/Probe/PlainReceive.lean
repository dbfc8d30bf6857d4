import Derphole.Probe.BlastTranscript
import Derphole.Probe.OrderedReceive
import Derphole.Probe.StripedReceive

/-!
# The coordinator without stripes

The global path of the coordinator, with FEC off and ordered output to a real writer.
Data packets are those of the sender; nothing is assumed about what a Done packet said.
-/

namespace Probe

open Lib

/-- Ordered output to a real writer, without FEC. -/
structure PlainConfig (cfg : RecvConfig) : Prop where
  dst : cfg.discard = false
  fec : cfg.fecGroupSize ≤ 1
  ordered : cfg.spoolOutput = false

/-- A packet reported completion: all that was announced was seen and is flushed, or as
many bytes were counted as were expected. -/
def Reported (cfg : RecvConfig) (c : Coord) : Prop :=
  (c.run.complete = true ∧ c.run.writeBuf = []) ∨
    (c.run.complete = false ∧ c.run.done = true ∧ 0 < cfg.expectedBytes ∧
      cfg.expectedBytes ≤ c.bytesReceived)

section

variable {ps : List (List UInt8)} {cfg : RecvConfig} {f : Bool × Nat × Nat}

theorem storeFECPayload_off (hfec : cfg.fecGroupSize ≤ 1) (s : RunState) (seq : Nat)
    (payload : List UInt8) : s.storeFECPayload cfg.fecGroupSize seq payload = s := by
  rw [RunState.storeFECPayload, Fec.storeFECPayload, if_pos (.inl hfec)]

theorem recoverFEC_off (hfec : cfg.fecGroupSize ≤ 1) (order : List Nat → List Nat) :
    recoverFEC cfg order = pure () := by
  rw [recoverFEC, if_pos hfec]

/-- A new payload is written and counted. -/
theorem acceptGlobalPayload_inOrder {E : RecvErr → Coord → Prop} (hdst : cfg.discard = false)
    (hordered : cfg.spoolOutput = false) (seq offset : Nat) :
    Triple (Caught ps f (· = seq) 0)
      (acceptGlobalPayload cfg seq offset (ps.getD seq [])) (fun _ => InOrder ps f) E := by
  refine Triple.bind (Q := fun _ => Caught ps f (· = seq) 0) (Triple.update fun c hc => ?_) fun _ =>
    Triple.bind (Q := fun w => Caught ps f (fun _ => False) w) ?_ fun w => Triple.update fun c hc => ?_
  · obtain ⟨h, hwait⟩ := hc
    exact ⟨⟨h.striped, h.final, h.seen, h.max_le, h.next_le, h.out, h.bytes, h.pending, h.wrote, h.news,
      h.kept⟩, hwait⟩
  · rw [writeGlobalPayload, hordered]
    exact Ordered.writeOrdered hdst seq
  · obtain ⟨h, hwait⟩ := hc
    refine ⟨⟨h.striped, h.final, h.seen, h.max_le, h.next_le, h.out, ?_, h.pending, h.wrote, h.news,
      h.kept⟩, hwait⟩
    have := h.bytes
    show c.bytesReceived + w + 0 = _
    omega

/-- `completeRun` flushes what is complete. -/
theorem completeRun_inOrder (hcfg : PlainConfig cfg) :
    Triple (InOrder ps f) (completeRun cfg)
      (fun b c => InOrder ps f c ∧ c.run.complete = b ∧ (b = true → c.run.writeBuf = []))
      fun _ => InOrder ps f := by
  refine Triple.read_bind fun c hc => Triple.ite (fun hcomp => ?_) fun hcomp => ?_
  · refine Triple.bind (Q := fun _ c' => c' = c) ?_ fun _ => ?_
    · refine Triple.ite (fun _ => Triple.pure fun _ h => h) fun _ =>
        Triple.ite (fun _ => Triple.fail fun _ h => h ▸ hc) fun _ =>
          Triple.ite (fun _ => Triple.fail fun _ h => h ▸ hc) fun _ => Triple.pure fun _ h => h
    · rw [flushGlobalPayload, hcfg.ordered, hcfg.dst]
      refine Triple.bind
        (Q := fun _ c' => InOrder ps f c' ∧ c'.run.complete = true ∧ c'.run.writeBuf = [])
        (Triple.update fun c' hc' => ?_) fun _ =>
          Triple.bind (Triple.update fun c' hc' => ?_) fun _ => Triple.pure fun _ h => h
      · rw [hc']
        obtain ⟨h, hwait⟩ := hc
        exact ⟨⟨⟨h.striped, h.final, h.seen, h.max_le, h.next_le, by
          show c.dst ++ c.run.writeBuf ++ [] = _
          rw [List.append_nil]
          exact h.out, h.bytes, h.pending, h.wrote, h.news, h.kept⟩, hwait⟩, hcomp, rfl⟩
      · obtain ⟨⟨h, hwait⟩, hcomp', hbuf⟩ := hc'
        exact ⟨⟨⟨h.striped, h.final, h.seen, h.max_le, h.next_le, h.out, h.bytes, h.pending, h.wrote,
          h.news, h.kept⟩, hwait⟩, hcomp', fun _ => hbuf⟩
  · refine Triple.pure fun _ he => ?_
    rw [he]
    exact ⟨hc, by simpa using hcomp, fun h => by cases h⟩

/-- A data packet of the sender. -/
theorem handleGlobalData_inOrder (hcfg : PlainConfig cfg) (order : List Nat → List Nat) {seq : Nat}
    (hseq : seq < ps.length) (offset count : Nat) :
    Triple (InOrder ps f) (handleGlobalPacket cfg order .data seq offset count (ps.getD seq []))
      (fun b c => InOrder ps f c ∧ (b = true → Reported cfg c)) fun _ => InOrder ps f := by
  refine Triple.ite (fun _ => Triple.pure fun _ h => ⟨h, fun hb => by cases hb⟩) fun _ =>
    Triple.read_bind fun c hc => Triple.ite (fun hnew => ?_) fun _ => Triple.pure fun _ he => ?_
  · refine Triple.bind (Triple.update fun c' hc' => ?_) fun _ =>
      Triple.bind (acceptGlobalPayload_inOrder (f := f) hcfg.dst hcfg.ordered seq offset) fun _ => ?_
    · rw [hc']
      exact hc.acceptData hseq hnew
    · rw [recoverFEC_off hcfg.fec]
      refine Triple.bind (Triple.pure fun _ h => h) fun _ =>
        Triple.bind (completeRun_inOrder hcfg) fun b => Triple.read_bind fun c hc => ?_
      refine Triple.pure fun _ he => ?_
      obtain ⟨hin, hcomp, hbuf⟩ := hc
      rw [he]
      refine ⟨hin, fun hb => ?_⟩
      rw [Bool.or_eq_true, Bool.and_eq_true, Bool.and_eq_true, decide_eq_true_eq,
        decide_eq_true_eq] at hb
      cases b with
      | true => exact .inl ⟨hcomp, hbuf rfl⟩
      | false =>
          obtain ⟨⟨hpos, hle⟩, hdone⟩ := hb.resolve_left Bool.false_ne_true
          exact .inr ⟨hcomp, hdone, hpos, hle⟩
  · rw [he]
    exact ⟨hc, fun hb => by cases hb⟩

/-- A Done packet, whatever it says. -/
theorem handleGlobalDone_inOrder (hcfg : PlainConfig cfg) (order : List Nat → List Nat)
    (seq offset count : Nat) (payload : List UInt8) :
    Triple (InOrder ps f) (handleGlobalPacket cfg order .done seq offset count payload)
      (fun b c => (∃ n, seq ≤ n ∧ n ≤ max seq ps.length ∧ InOrder ps (true, n, offset) c) ∧
        (b = true → Reported cfg c))
      fun _ c => ∃ n, seq ≤ n ∧ n ≤ max seq ps.length ∧ InOrder ps (true, n, offset) c := by
  refine Triple.of_eq fun c₀ h₀ => ?_
  have hle : max seq c₀.run.maxSeqPlusOne ≤ max seq ps.length := by
    have := h₀.ordered.max_le
    omega
  refine Triple.bind (Q := fun _ => InOrder ps (true, max seq c₀.run.maxSeqPlusOne, offset))
    (Triple.update fun c hc => ?_) fun _ => ?_
  · rw [hc]
    obtain ⟨h, hwait⟩ := h₀
    exact ⟨⟨h.striped, rfl, h.seen, h.max_le, h.next_le, h.out, h.bytes, h.pending, h.wrote, h.news,
      h.kept⟩, hwait⟩
  · rw [recoverFEC_off hcfg.fec]
    refine Triple.bind (Triple.pure fun _ h => h) fun _ => (completeRun_inOrder hcfg).conseq
      (fun _ h => h) (fun b c h => ?_) fun _ c h => ⟨_, Nat.le_max_left _ _, hle, h⟩
    exact ⟨⟨_, Nat.le_max_left _ _, hle, h.1⟩, fun hb => .inl ⟨h.2.1.trans hb, h.2.2 hb⟩⟩

end

end Probe
