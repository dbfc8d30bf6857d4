import Derphole.WebRelay.Integrity

/-!
# The offer to switch

`trySwitchDirectWithReplay` of `pkg/derphole/webrelay/relay.go` offers the position of the sender's
window: the byte count that is acknowledged and the number of the first frame behind it.
`receiveFrames` takes the offer only if it is not ahead of its own counters.

It never is (`direct_switch_accepted`).  Until the switch, the window counts only what the receiver has
acknowledged, and all of its counters rise, so an offer that is old or comes twice is behind them too.  A
replay counts frames as acknowledged that the receiver may not have, but after it no offer is made.
-/

namespace WebRelay

open Lib

/-! ## Steps that make no offer -/

/-- No offer to switch is sent, and the switch is not made. -/
structure Plain (s s' : Sender) (out : Out) : Prop where
  out : ∀ bytes nextSeq, ¬ out.Has (.directReady bytes nextSeq)
  onDirect : s'.onDirect = s.onDirect
  switching : s'.pc = .switching → s.pc = .switching

section

variable {file : List UInt8} {s s' : Sender} {l : SendLabel} {out : Out} {f : Frame}

theorem Out.not_has_none (f : Frame) : ¬ Out.none.Has f := by
  rintro (h | h)
  · cases h
  · cases h

theorem Out.Quiet.not_has_directReady {size : Int} (h : out.Quiet size) (bytes nextSeq : Nat) :
    ¬ out.Has (.directReady bytes nextSeq) := by
  rintro (hrelay | hdirect)
  · exact h.offer bytes nextSeq hrelay
  · rw [h.direct] at hdirect
    cases hdirect

theorem Out.has_onRelay {g : Frame} : (Out.onRelay g).Has f ↔ f = g := by
  simp [Out.Has, Out.onRelay]

theorem Out.has_onDirect {g : Frame} : (Out.onDirect g).Has f ↔ f = g := by
  simp [Out.Has, Out.onDirect]

/-- The path stays, and one frame is sent that is no offer. -/
theorem Plain.one {b : Bool} (hdirect : s'.direct = s.direct) (hpc : s'.pc ≠ .switching)
    (hf : ∀ bytes nextSeq, f ≠ .directReady bytes nextSeq) :
    Plain s s' (if b then .onDirect f else .onRelay f) where
  out := by
    intro bytes nextSeq h
    refine hf bytes nextSeq ?_
    split at h
    · exact (Out.has_onDirect.mp h).symm
    · exact (Out.has_onRelay.mp h).symm
  onDirect := by rw [Sender.onDirect, hdirect, Sender.onDirect]
  switching := fun h => absurd h hpc

/-- The switch is made, and frames are sent again on the direct path. -/
structure Switches (s s' : Sender) (out : Out) : Prop where
  out : ∀ bytes nextSeq, ¬ out.Has (.directReady bytes nextSeq)
  onDirect : s'.onDirect = true
  pc : s'.pc = .turn

/-- An offer is made of the position of the window, before the switch. -/
structure Offers (s s' : Sender) (out : Out) : Prop where
  out : out = s.sendReady
  direct : s'.direct = s.direct
  before : s.pc = .switching ∨ s.onDirect = false

/-- Every step makes no offer, makes the switch, or makes an offer. -/
theorem Sender.step_offers (hr : s.step file l = some (s', out)) :
    Plain s s' out ∨ Switches s s' out ∨ Offers s s' out := by
  cases Sender.sendStep hr with
  | quiet hpc hpc' hkept hwindow hout =>
      exact .inl ⟨hout.quiet.not_has_directReady, hkept.onDirect, fun h => (hkept.switching h).1⟩
  | failed hout => exact .inl ⟨hout.quiet.not_has_directReady, rfl, nofun⟩
  | eof => exact .inl ⟨fun _ _ => Out.not_has_none _, rfl, nofun⟩
  | chunk hpc hfilled hread hne hle hr =>
      obtain ⟨rfl, rfl⟩ := Sender.readChunk_eq hne hle hr
      refine .inl (.one rfl ?_ nofun)
      show (if s.directReady then SendPc.filled else .fill) ≠ .switching
      split <;> exact nofun
  | offered hpc hbefore => exact .inr (.inr ⟨rfl, rfl, hbefore.imp_right And.right⟩)
  | switched hpc hl hseq hr =>
      obtain ⟨rfl, rfl⟩ := Sender.trySwitch_eq hseq hr
      refine .inr (.inl ⟨?_, rfl, rfl⟩)
      rintro bytes nextSeq (h | h)
      · cases h
      · obtain ⟨frame, -, hframe⟩ := List.mem_map.mp h
        cases hframe
  | finished hpc heof hempty hr =>
      obtain ⟨rfl, rfl⟩ := Sender.finish_eq hr
      refine .inl (.one rfl ?_ nofun)
      show (if s.directActive then SendPc.doneDirect else .done) ≠ .switching
      split <;> exact nofun
  | closing hpc hout =>
      refine .inl ⟨fun bytes nextSeq => ?_, rfl, id⟩
      rcases hout with rfl | rfl
      · exact Out.not_has_none _
      · exact fun h => nomatch Out.has_onRelay.mp h
  | returned => exact .inl ⟨fun _ _ => Out.not_has_none _, rfl, nofun⟩

end

/-! ## What the window counts -/

/-- Before the switch, only an acknowledgement of the receiver raises the count. -/
theorem SendStep.acked_le {file : List UInt8} {s s' : Sender} {l : SendLabel} {out : Out} {received : Nat}
    (h : SendStep file s l s' out) (hs : s.window.acked ≤ received)
    (hl : ∀ bytes, l = .relayFrame (.ack bytes) ∨ l = .directFrame (.ack bytes) → bytes ≤ received)
    (hoff : s'.onDirect = false) : s'.window.acked ≤ received := by
  cases h with
  | quiet hpc hpc' hkept hwindow hout =>
      obtain hsame | ⟨bytes, hack, hnew⟩ := hwindow
      · rwa [hsame]
      · rw [hnew, RelayWindow.acked_ack]
        exact Nat.max_le.mpr ⟨hs, hl bytes hack⟩
  | chunk hpc hfilled hread hne hle hr =>
      rw [(Sender.readChunk_eq hne hle hr).1]
      exact hs
  | switched hpc hlabel hseq hr =>
      rw [(Sender.trySwitch_eq hseq hr).1] at hoff
      cases hoff
  | finished hpc heof hempty hr =>
      rw [(Sender.finish_eq hr).1]
      exact hs
  | _ => exact hs

/-- The number that is offered is that of the chunk at the acknowledged offset. -/
theorem SendInv.sendReady_eq {file : List UInt8} {s : Sender} (h : SendInv file s) :
    ∃ i ≤ s.chunks.length, s.window.acked = offsetAt s.chunks i ∧
      s.sendReady = .onRelay (.directReady s.window.acked (i + 1)) := by
  obtain ⟨i, hacked, hframes⟩ := h.window
  have hpast := hframes.past h.nonempty hframes.le
  rw [Nat.max_self, ← hacked] at hpast
  refine ⟨i, hframes.le, hacked, ?_⟩
  rw [Sender.sendReady, RelayWindow.replayFrom]
  split
  next hnone =>
    rw [hnone] at hpast
    rw [h.seq, ← (show i = s.chunks.length from hpast)]
  next frame frames hsome =>
    rw [hsome] at hpast
    rw [hpast.1.seq]

/-! ## Both parties -/

/-- While the receiver runs, no count of the sender's is ahead of it until the switch, and no offer is. -/
structure NotAhead (t : Transfer) : Prop where
  acked : t.sender.onDirect = false → t.sender.window.acked ≤ t.receiver.received
  switching : t.sender.pc = .switching → t.sender.onDirect = false
  ready : ∀ bytes nextSeq, t.sent.Has (.directReady bytes nextSeq) →
    bytes ≤ t.receiver.received ∧ nextSeq ≤ t.receiver.expectedSeq

/-- The invariant of a transfer, with the offers. -/
structure ReadyInv (file : List UInt8) (t : Transfer) : Prop where
  base : Inv file t
  offers : t.receiver.status = .running → NotAhead t

namespace ReadyInv

variable {file : List UInt8} {t t' : Transfer}

theorem init (size : Int) (senderDirect receiverDirect : Bool) :
    ReadyInv file (Transfer.init size senderDirect receiverDirect) where
  base := Inv.init _ _ _
  offers := fun _ =>
    { acked := fun _ => Nat.le_refl 0
      switching := fun h => by cases h
      ready := fun bytes nextSeq h => by cases Out.has_onRelay.mp h }

/-- The position that the sender would offer is not ahead of the receiver. -/
theorem offer_le (h : ReadyInv file t) (hrun : t.receiver.status = .running)
    (hoff : t.sender.onDirect = false) {bytes nextSeq : Nat}
    (hready : t.sender.sendReady.Has (.directReady bytes nextSeq)) :
    bytes ≤ t.receiver.received ∧ nextSeq ≤ t.receiver.expectedSeq := by
  obtain ⟨k, hk⟩ := h.base.receiver hrun
  obtain ⟨i, hi, hacked, heq⟩ := h.base.sender.sendReady_eq
  have hle := (h.offers hrun).acked hoff
  rw [heq] at hready
  cases Out.has_onRelay.mp hready
  refine ⟨hle, ?_⟩
  rw [hk.expectedSeq]
  rw [hacked, hk.received] at hle
  -- chunks are not empty, so fewer bytes are fewer chunks
  exact Nat.succ_le_succ (le_of_offsetAt_le h.base.sender.nonempty hi hle)

theorem send (h : ReadyInv file t) {l : SendLabel} (hs : t.step file (.send l) = some t') :
    ReadyInv file t' := by
  refine ⟨h.base.step hs, fun hrun => ?_⟩
  rw [Transfer.step] at hs
  split at hs
  swap
  · cases hs
  rename_i hread
  obtain ⟨⟨s, out⟩, hr, heq⟩ := Option.map_eq_some_iff.mp hs
  cases heq
  have hrun' : t.receiver.status = .running := hrun
  obtain ⟨k, hk⟩ := h.base.receiver hrun'
  have hold := h.offers hrun'
  have hacks : ∀ bytes, l = .relayFrame (.ack bytes) ∨ l = .directFrame (.ack bytes) →
      bytes ≤ t.receiver.received := by
    intro bytes hl
    rw [← hk.length_sink]
    exact (h.base.answered_of_readable hl hread).2
  have hacked : s.onDirect = false → t.sender.onDirect = false → s.window.acked ≤ t.receiver.received :=
    fun hoff hbefore => (Sender.sendStep hr).acked_le (hold.acked hbefore) hacks hoff
  have hsent : ∀ {bytes nextSeq : Nat}, ¬ out.Has (.directReady bytes nextSeq) →
      (t.sent ++ out).Has (.directReady bytes nextSeq) →
      bytes ≤ t.receiver.received ∧ nextSeq ≤ t.receiver.expectedSeq :=
    fun hnew hhas => hold.ready _ _ ((Out.has_append.mp hhas).resolve_right hnew)
  obtain hplain | hswitch | hoffer := Sender.step_offers hr
  · refine ⟨fun hoff => hacked hoff (hplain.onDirect ▸ hoff), fun hpc => ?_, fun bytes nextSeq hhas => ?_⟩
    · exact hplain.onDirect.trans (hold.switching (hplain.switching hpc))
    · exact hsent (hplain.out bytes nextSeq) hhas
  · refine ⟨fun hoff => ?_, fun hpc => ?_, fun bytes nextSeq hhas => ?_⟩
    · cases hswitch.onDirect.symm.trans hoff
    · cases hswitch.pc.symm.trans hpc
    · exact hsent (hswitch.out bytes nextSeq) hhas
  · have hbefore : t.sender.onDirect = false := hoffer.before.elim hold.switching id
    have hafter : s.onDirect = false := by
      rw [Sender.onDirect, hoffer.direct]
      exact hbefore
    refine ⟨fun hoff => hacked hoff hbefore, fun _ => hafter, fun bytes nextSeq hhas => ?_⟩
    obtain hhas | hhas := Out.has_append.mp hhas
    · exact hold.ready bytes nextSeq hhas
    · rw [hoffer.out] at hhas
      exact h.offer_le hrun' hbefore hhas

theorem deliver (h : ReadyInv file t) {f : Frame} (hs : t.step file (.deliver f) = some t') :
    ReadyInv file t' := by
  refine ⟨h.base.step hs, fun _ => ?_⟩
  rw [Transfer.step] at hs
  split at hs
  swap
  · cases hs
  rename_i hg
  cases hs
  obtain ⟨k, hk⟩ := h.base.receiver hg.1
  obtain ⟨j, hkj, hj, -⟩ := Handled.handle hk (h.base.sent_of_deliverable hg.2)
  have hreceived : t.receiver.received ≤ (t.receiver.handle f).1.received := by
    rw [hk.received, hj.received]
    exact offsetAt_mono _ hkj hj.le
  have hexpected : t.receiver.expectedSeq ≤ (t.receiver.handle f).1.expectedSeq := by
    rw [hk.expectedSeq, hj.expectedSeq]
    exact Nat.succ_le_succ hkj
  have hold := h.offers hg.1
  refine ⟨fun hoff => Nat.le_trans (hold.acked hoff) hreceived, hold.switching, fun bytes nextSeq hhas => ?_⟩
  obtain ⟨hbytes, hseq⟩ := hold.ready bytes nextSeq hhas
  exact ⟨Nat.le_trans hbytes hreceived, Nat.le_trans hseq hexpected⟩

theorem step (h : ReadyInv file t) {l : Label} (hs : t.step file l = some t') : ReadyInv file t' := by
  cases l with
  | send l => exact h.send hs
  | deliver f => exact h.deliver hs
  | sinkFails f n =>
      refine ⟨h.base.step hs, fun hrun => ?_⟩
      rw [Transfer.step] at hs
      split at hs
      · cases hs
        cases hrun
      · cases hs
  | stop =>
      refine ⟨h.base.step hs, fun hrun => ?_⟩
      rw [Transfer.step] at hs
      split at hs
      · cases hs
        cases hrun
      · cases hs

end ReadyInv

/-- Whatever offer to switch the receiver can read while it runs, it takes. -/
theorem direct_switch_accepted (file : List UInt8) (size : Int) (senderDirect receiverDirect : Bool)
    (ls : List Label) (t : Transfer)
    (hrun : runFrom (Transfer.step file) (Transfer.init size senderDirect receiverDirect) ls = some t)
    (hrunning : t.receiver.status = .running) (bytesReceived nextSeq : Nat)
    (hf : t.deliverable (.directReady bytesReceived nextSeq) = true) :
    bytesReceived ≤ t.receiver.received ∧ nextSeq ≤ t.receiver.expectedSeq ∧
      t.receiver.handle (.directReady bytesReceived nextSeq) =
        ({ t.receiver with directActive := true }, .onRelay (.pathSwitch bytesReceived nextSeq)) := by
  have h := runFrom_invariant (I := ReadyInv file) (fun _ _ _ h hs => h.step hs) ls (ReadyInv.init _ _ _) hrun
  have hhas : t.sent.Has (.directReady bytesReceived nextSeq) := by
    rw [Transfer.deliverable, Bool.or_eq_true, Bool.and_eq_true] at hf
    exact hf.imp List.contains_iff_mem.mp fun hf => List.contains_iff_mem.mp hf.2
  obtain ⟨hbytes, hseq⟩ := (h.offers hrunning).ready bytesReceived nextSeq hhas
  exact ⟨hbytes, hseq, if_pos ⟨hbytes, hseq⟩⟩

/-- An offer is made after the second of three chunks was acknowledged, and is read after the third. -/
theorem direct_switch_accepted_late :
    ∃ t, runFrom (Transfer.step [1, 2, 3, 4, 5, 6]) (Transfer.init 6 true true)
        [.deliver (.metadata 6), .send (.relayFrame (.ack 0)), .send (.poll .quiet), .send (.read 2),
          .send (.read 2), .send (.read 2), .deliver (.data 1 [1, 2]), .deliver (.data 2 [3, 4]),
          .send (.read 0), .send (.poll .ready), .send (.relayFrame (.ack 4)), .send (.poll .quiet),
          .send .next, .deliver (.data 3 [5, 6])] = some t ∧
      t.receiver.received = 6 ∧ 4 ≤ t.receiver.received ∧
      t.receiver.handle (.directReady 4 3) =
        ({ t.receiver with directActive := true }, .onRelay (.pathSwitch 4 3)) := by
  have h : (runFrom (Transfer.step [1, 2, 3, 4, 5, 6]) (Transfer.init 6 true true)
      [.deliver (.metadata 6), .send (.relayFrame (.ack 0)), .send (.poll .quiet), .send (.read 2),
        .send (.read 2), .send (.read 2), .deliver (.data 1 [1, 2]), .deliver (.data 2 [3, 4]),
        .send (.read 0), .send (.poll .ready), .send (.relayFrame (.ack 4)), .send (.poll .quiet),
        .send .next, .deliver (.data 3 [5, 6])]).any
      (fun t => decide (t.receiver.status = .running ∧ t.receiver.received = 6 ∧
        t.deliverable (.directReady 4 3) = true)) = true := by decide +kernel
  obtain ⟨t, hrun, ht⟩ := (Option.any_eq_true ..).mp h
  obtain ⟨hstatus, hreceived, hf⟩ := of_decide_eq_true ht
  obtain ⟨hle, -, haccepted⟩ := direct_switch_accepted _ _ _ _ _ t hrun hstatus 4 3 hf
  exact ⟨t, hrun, hreceived, hle, haccepted⟩

end WebRelay
