import Derphole.WebRelay.Integrity

/-!
# When a transfer is complete

`Offer.send` sends Done and returns at the next acknowledgement of the whole file.  An acknowledgement
says how much was received and not which frame it answers, so one that the receiver sent for an earlier
frame ends the wait as well, before the receiver has seen Done.

A `Watched` transfer remembers what the receiver answered since it read Done.  When the wait ends with
one of those, and the declared size is right, the receiver has finished (`web_transfer_completion`).
-/

namespace WebRelay

open Lib

/-- A transfer with the answers on the relay since the receiver read Done. -/
structure Watched where
  transfer : Transfer
  since : List Frame

namespace Watched

def init (size : Int) (senderDirect receiverDirect : Bool) : Watched :=
  ⟨.init size senderDirect receiverDirect, []⟩

def step (file : List UInt8) (w : Watched) (l : Label) : Option Watched :=
  (w.transfer.step file l).map fun t =>
    ⟨t, if t.receiver.doneSeen then
        w.since ++ t.answered.relay.drop w.transfer.answered.relay.length
      else []⟩

/-- The last wait ends with an answer that was sent after Done was read. -/
def AnswersDone (w : Watched) : Label → Prop
  | .send (.relayFrame (.ack bytes)) =>
      w.transfer.sender.pc = .done ∨ w.transfer.sender.pc = .doneDirect →
        w.transfer.sender.offset ≤ bytes → .ack bytes ∈ w.since
  | _ => True

end Watched

/-- The receiver has read Done, and its check of the size has passed. -/
structure Receiver.Completed (r : Receiver) : Prop where
  status : r.status = .complete
  doneSeen : r.doneSeen = true
  size : r.size < 0 ∨ (r.received : Int) = r.size

/-! ## Done is sent last -/

/-- All of the file was read before Done was sent under this number, and nothing since. -/
structure Sender.Closed (file : List UInt8) (s : Sender) (seq : Nat) : Prop where
  seq : seq = s.seq
  offset : s.offset = file.length
  pc : s.pc.ended = true ∨ s.pc = .failed

section

variable {file : List UInt8} {s s' : Sender} {l : SendLabel} {out : Out} {seq : Nat}

theorem Sender.not_failed_of_step {result : Sender × Out} (hr : s.step file l = some result) :
    s.pc ≠ .failed := by
  intro hpc
  simp [Sender.step, hpc] at hr

theorem Sender.Closed.step (h : s.Closed file seq) (hr : s.step file l = some (s', out)) :
    s'.Closed file seq := by
  have hended : s.pc.ended = true := h.pc.resolve_right (Sender.not_failed_of_step hr)
  cases Sender.sendStep hr with
  | quiet hpc =>
      rw [hpc] at hended
      cases hended
  | offered hpc =>
      rw [hpc] at hended
      cases hended
  | failed => exact ⟨h.seq, h.offset, .inr rfl⟩
  | eof hpc =>
      rw [hpc] at hended
      cases hended
  | chunk hpc =>
      rw [hpc] at hended
      cases hended
  | switched hpc =>
      rw [hpc] at hended
      cases hended
  | finished hpc =>
      rw [hpc] at hended
      cases hended
  | closing => exact h
  | returned => exact ⟨h.seq, h.offset, .inl rfl⟩

/-- A step that sends Done closes the sender. -/
theorem SendInv.closed (h : SendInv file s) (hr : s.step file l = some (s', out))
    (hdone : out.Has (.done seq)) : s'.Closed file seq := by
  rw [Out.Has] at hdone
  cases Sender.sendStep hr with
  | quiet _ _ _ _ hout =>
      rw [hout.quiet.direct] at hdone
      rcases hdone with hdone | hdone
      · exact absurd hdone (hout.quiet.done seq)
      · cases hdone
  | failed hout =>
      rw [hout.quiet.direct] at hdone
      rcases hdone with hdone | hdone
      · exact absurd hdone (hout.quiet.done seq)
      · cases hdone
  | offered => simp [Sender.sendReady, Out.onRelay] at hdone
  | eof => rcases hdone with hdone | hdone <;> cases hdone
  | chunk hpc hfilled hread hne hle hr =>
      obtain ⟨-, rfl⟩ := Sender.readChunk_eq hne hle hr
      split at hdone <;> simp [Out.onRelay, Out.onDirect] at hdone
  | switched hpc hl hseq hr =>
      obtain ⟨-, rfl⟩ := Sender.trySwitch_eq hseq hr
      simp at hdone
  | finished hpc heof hempty hr =>
      obtain ⟨rfl, rfl⟩ := Sender.finish_eq hr
      refine ⟨?_, h.eof heof, ?_⟩
      · split at hdone <;> simpa [Out.onRelay, Out.onDirect] using hdone
      · left
        show SendPc.ended (if s.directActive then .doneDirect else .done) = true
        split <;> rfl
  | closing hpc hout =>
      have hended : s.pc.ended = true := by rcases hpc with hpc | hpc <;> rw [hpc] <;> rfl
      refine ⟨?_, h.eof (h.ended hended), .inl hended⟩
      rcases hout with rfl | rfl
      · rcases hdone with hdone | hdone <;> cases hdone
      · simpa [Out.onRelay] using hdone
  | returned => rcases hdone with hdone | hdone <;> cases hdone

end

/-! ## What the receiver answers to Done -/

/-- The receiver knows the declared size, or has received nothing. -/
def Receiver.Sized (size : Int) (r : Receiver) : Prop :=
  r.opened = true ∧ r.size = size ∨ r.opened = false ∧ r.size = 0 ∧ r.received = 0

/-- Until it has all of `total` bytes the receiver goes on, and it acknowledges them only when it
ends well. -/
structure Settles (total : Nat) (r : Receiver) (out : Out) : Prop where
  running : r.status = .running → r.expectedSeq < r.doneSeq
  ack : ∀ bytes, .ack bytes ∈ out.relay → total ≤ bytes → r.Completed

section

variable {chunks : List (List UInt8)} {k : Nat} {r : Receiver} {size : Int} {total : Nat}

/-- Frames are missing exactly when bytes are. -/
theorem RecvAt.received_lt (h : RecvAt chunks k r) (hne : ∀ chunk ∈ chunks, chunk ≠ [])
    (htotal : total = offsetAt chunks chunks.length) (hlt : r.expectedSeq < chunks.length + 1) :
    r.received < total := by
  rw [h.expectedSeq] at hlt
  rw [h.received, htotal]
  exact offsetAt_lt hne (by omega) (Nat.le_refl _)

theorem RecvAt.received_eq (h : RecvAt chunks k r) (htotal : total = offsetAt chunks chunks.length)
    (hge : chunks.length + 1 ≤ r.expectedSeq) : r.received = total := by
  have hle := h.le
  rw [h.expectedSeq] at hge
  rw [h.received, htotal, show k = chunks.length by omega]

theorem Receiver.Sized.check (h : r.Sized size) (hsize : size < 0 ∨ size = total)
    (hreceived : r.received = total) : r.size < 0 ∨ (r.received : Int) = r.size := by
  rcases h with ⟨-, hs⟩ | ⟨-, hs, h0⟩
  · rcases hsize with hneg | heq
    · exact .inl (hs ▸ hneg)
    · exact .inr (by rw [hs, heq, hreceived])
  · exact .inr (by rw [hs, h0]; rfl)

theorem Receiver.completeIfDone_none (hr : r.completeIfDone = none) (hseen : r.doneSeen = true) :
    r.expectedSeq < r.doneSeq := by
  rw [Receiver.completeIfDone] at hr
  split at hr
  next hwait => exact hwait.resolve_left (by rw [hseen]; simp)
  next =>
    split at hr
    · cases hr
    · cases hr

/-- With the right size, a receiver that has all ends well. -/
theorem RecvAt.completeIfDone_some (h : RecvAt chunks k r) {r' : Receiver} {out : Out}
    (hsized : r.Sized size) (hsize : size < 0 ∨ size = total)
    (htotal : total = offsetAt chunks chunks.length) (hseen : r.doneSeen = true)
    (hseq : r.doneSeq = chunks.length + 1) (hr : r.completeIfDone = some (r', out)) :
    r'.Completed := by
  rw [Receiver.completeIfDone] at hr
  split at hr
  · cases hr
  next hwait =>
    have hge : chunks.length + 1 ≤ r.expectedSeq := by
      rw [← hseq]
      exact Nat.le_of_not_lt fun hlt => hwait (.inr hlt)
    have hcheck := hsized.check hsize (h.received_eq htotal hge)
    split at hr
    next hbad =>
      rcases hcheck with hneg | heq
      · exact absurd hbad.1 (by omega)
      · exact absurd heq hbad.2
    next =>
      cases hr
      exact ⟨rfl, hseen, hcheck⟩

/-- The receiver still waits for a frame and has acknowledged no more than it has. -/
theorem Settles.waiting (h : RecvAt chunks k r) (hne : ∀ chunk ∈ chunks, chunk ≠ [])
    (htotal : total = offsetAt chunks chunks.length) (hlt : r.expectedSeq < chunks.length + 1)
    {r' : Receiver} {out : Out} (hexpected : r'.expectedSeq = r.expectedSeq)
    (hseq : r'.doneSeq = chunks.length + 1)
    (hout : ∀ bytes, .ack bytes ∈ out.relay → bytes ≤ r.received) : Settles total r' out where
  running := by
    intro _
    rw [hexpected, hseq]
    exact hlt
  ack := by
    intro bytes hmem hle
    have hless := h.received_lt hne htotal hlt
    have := hout bytes hmem
    omega

theorem Receiver.ackData_le {bytes : Nat} (h : .ack bytes ∈ r.ackData.relay) : bytes ≤ r.received := by
  rw [Receiver.ackData] at h
  split at h
  · cases h
  · cases List.mem_singleton.mp h
    exact Nat.le_refl _

theorem Settles.failed {r' : Receiver} (hstatus : r'.status = .failed) {out : Out}
    (hout : ∀ bytes, .ack bytes ∉ out.relay) : Settles total r' out where
  running := by
    intro h
    rw [hstatus] at h
    cases h
  ack := by
    intro bytes hmem
    exact absurd hmem (hout bytes)

theorem Settles.abort : Settles total r.abort.1 r.abort.2 :=
  .failed rfl fun _ h => by simp [Receiver.abort, Out.onRelay] at h

variable {f : Frame}

theorem Settles.data (h : RecvAt chunks k r) {seq : Nat} {payload : List UInt8}
    (hdata : IsData chunks seq payload) (hne : ∀ chunk ∈ chunks, chunk ≠ [])
    (htotal : total = offsetAt chunks chunks.length) (hsized : r.Sized size)
    (hsize : size < 0 ∨ size = total) (hseen : r.doneSeen = true)
    (hseq : r.doneSeq = chunks.length + 1) (hwait : r.expectedSeq < r.doneSeq) :
    Settles total (r.handleData seq payload).1 (r.handleData seq payload).2 := by
  rw [hseq] at hwait
  have hstay : ∀ bytes, .ack bytes ∈ r.ackData.relay → bytes ≤ r.received :=
    fun _ => Receiver.ackData_le
  unfold Receiver.handleData
  split
  next => exact .abort
  next hopened =>
    split
    next => exact .waiting h hne htotal hwait rfl hseq hstay
    next =>
      split
      next =>
        split
        · exact .waiting h hne htotal hwait rfl hseq hstay
        split
        · exact .abort
        · exact .waiting h hne htotal hwait rfl hseq hstay
      next hge hle =>
        have hseqs : seq = r.expectedSeq := by omega
        obtain ⟨j, -, hat⟩ :=
          (h.writeFrame (hseqs ▸ hdata)).drainPending (r.pendingFrames.entries.length + 1)
        obtain ⟨_, _, _, _, _, hdrained⟩ :=
          Receiver.drainPending_eq (r.pendingFrames.entries.length + 1) (r.writeFrame payload)
        dsimp only
        generalize Receiver.drainPending (r.pendingFrames.entries.length + 1) (r.writeFrame payload) =
          drained at hat hdrained ⊢
        have hseen' : drained.doneSeen = true := by rw [hdrained]; exact hseen
        have hseq' : drained.doneSeq = chunks.length + 1 := by rw [hdrained]; exact hseq
        have hsized' : drained.Sized size := by
          rcases hsized with ⟨hopen, hs⟩ | ⟨hclosed, -⟩
          · exact .inl (by rw [hdrained]; exact ⟨hopen, hs⟩)
          · exact absurd hclosed hopened
        split
        next hnone =>
          have hlt := Receiver.completeIfDone_none hnone hseen'
          rw [hseq'] at hlt
          exact .waiting hat hne htotal hlt rfl hseq' fun _ => Receiver.ackData_le
        next r' out hsome =>
          have hcompleted := hat.completeIfDone_some hsized' hsize htotal hseen' hseq' hsome
          refine ⟨fun hrun => ?_, fun _ _ _ => hcompleted⟩
          rw [hcompleted.status] at hrun
          cases hrun

theorem Settles.done (h : RecvAt chunks k r) (hne : ∀ chunk ∈ chunks, chunk ≠ [])
    (htotal : total = offsetAt chunks chunks.length) (hsized : r.Sized size)
    (hsize : size < 0 ∨ size = total) :
    Settles total (r.handleDone (chunks.length + 1)).1 (r.handleDone (chunks.length + 1)).2 := by
  have hat : RecvAt chunks k { r with doneSeen := true, doneSeq := chunks.length + 1 } :=
    h.of_same rfl
  unfold Receiver.handleDone
  dsimp only
  split
  next result hsome =>
    have hcompleted := hat.completeIfDone_some hsized hsize htotal rfl rfl hsome
    refine ⟨fun hrun => ?_, fun _ _ _ => hcompleted⟩
    rw [hcompleted.status] at hrun
    cases hrun
  next hnone =>
    have hlt := Receiver.completeIfDone_none hnone rfl
    refine .waiting hat hne htotal hlt rfl rfl ?_
    intro bytes hmem
    split at hmem
    · cases hmem
    · cases List.mem_singleton.mp hmem
      exact Nat.le_refl _

/-- The receiver handles a frame, having read Done before or with this frame. -/
theorem Settles.handle (h : RecvAt chunks k r) (hf : Sent chunks f)
    (hdone : ∀ seq, f = .done seq → seq = chunks.length + 1) (hne : ∀ chunk ∈ chunks, chunk ≠ [])
    (htotal : total = offsetAt chunks chunks.length) (hsized : r.Sized size)
    (hsize : size < 0 ∨ size = total) (hseq : r.doneSeen = true → r.doneSeq = chunks.length + 1)
    (hwait : r.doneSeen = true → r.expectedSeq < r.doneSeq)
    (hseen : (r.handle f).1.doneSeen = true) : Settles total (r.handle f).1 (r.handle f).2 := by
  have hlt : r.doneSeen = true → r.expectedSeq < chunks.length + 1 := fun h => hseq h ▸ hwait h
  cases f with
  | metadata declared =>
      simp only [Receiver.handle] at hseen ⊢
      split at hseen
      next hopened =>
        rw [if_pos hopened]
        refine .waiting h hne htotal (hlt hseen) rfl (hseq hseen) ?_
        intro bytes hmem
        cases List.mem_singleton.mp hmem
        exact Nat.le_refl _
      next hopened =>
        rw [if_neg hopened]
        refine .waiting h hne htotal (hlt hseen) rfl (hseq hseen) ?_
        intro bytes hmem
        cases List.mem_singleton.mp hmem
        exact Nat.zero_le _
  | data seq payload =>
      obtain ⟨_, _, _, _, _, _, hkept⟩ := r.handleData_eq seq payload
      have hold : r.doneSeen = true := by
        rw [Receiver.handle, hkept] at hseen
        exact hseen
      exact .data h hf hne htotal hsized hsize hold (hseq hold) (hwait hold)
  | done seq =>
      cases hdone seq rfl
      exact .done h hne htotal hsized hsize
  | directReady bytes nextSeq =>
      simp only [Receiver.handle] at hseen ⊢
      split at hseen
      next hready =>
        rw [if_pos hready]
        refine .waiting h hne htotal (hlt hseen) rfl (hseq hseen) ?_
        intro bytes hmem
        cases List.mem_singleton.mp hmem
      next hready =>
        rw [if_neg hready]
        exact .waiting h hne htotal (hlt hseen) rfl (hseq hseen) fun _ h => by cases h
  | abort => exact .failed rfl fun _ h => by cases h
  | ack bytes => exact .waiting h hne htotal (hlt hseen) rfl (hseq hseen) fun _ h => by cases h
  | pathSwitch bytes nextSeq =>
      exact .waiting h hne htotal (hlt hseen) rfl (hseq hseen) fun _ h => by cases h

/-- The size is that of the metadata. -/
theorem Receiver.Sized.handle (h : r.Sized size) (hmeta : ∀ declared, f = .metadata declared →
    declared = size) : (r.handle f).1.Sized size := by
  cases f with
  | metadata declared =>
      rw [Receiver.handle]
      split
      · exact h
      · exact .inl ⟨rfl, hmeta declared rfl⟩
  | data seq payload =>
      rcases h with ⟨hopened, hsize⟩ | ⟨hclosed, hsize, hreceived⟩
      · obtain ⟨_, _, _, _, _, _, hkept⟩ := r.handleData_eq seq payload
        rw [Receiver.handle, hkept]
        exact .inl ⟨hopened, hsize⟩
      · rw [Receiver.handle, Receiver.handleData, if_pos hclosed]
        exact .inr ⟨hclosed, hsize, hreceived⟩
  | done seq =>
      rw [Receiver.handle, Receiver.handleDone]
      dsimp only
      split
      next result hsome =>
        obtain ⟨status, hr'⟩ := Receiver.completeIfDone_eq hsome
        rw [hr']
        exact h
      next => exact h
  | directReady bytes nextSeq =>
      rw [Receiver.handle]
      split
      · exact h
      · exact h
  | abort => exact h
  | ack bytes => exact h
  | pathSwitch bytes nextSeq => exact h

/-- Done is seen when it is read, under its number. -/
theorem Receiver.handle_doneSeen (h : (r.handle f).1.doneSeen = true) :
    r.doneSeen = true ∧ (r.handle f).1.doneSeq = r.doneSeq ∨ ∃ seq, f = .done seq ∧
      (r.handle f).1.doneSeq = seq := by
  cases f with
  | metadata declared =>
      rw [Receiver.handle] at h ⊢
      split at h
      next hopened => exact .inl ⟨h, by rw [if_pos hopened]⟩
      next hopened => exact .inl ⟨h, by rw [if_neg hopened]⟩
  | data seq payload =>
      obtain ⟨_, _, _, _, _, _, hkept⟩ := r.handleData_eq seq payload
      rw [Receiver.handle, hkept] at h ⊢
      exact .inl ⟨h, rfl⟩
  | done seq =>
      refine .inr ⟨seq, rfl, ?_⟩
      rw [Receiver.handle, Receiver.handleDone]
      dsimp only
      split
      next result hsome =>
        obtain ⟨status, hr'⟩ := Receiver.completeIfDone_eq hsome
        rw [hr']
      next => rfl
  | directReady bytes nextSeq =>
      rw [Receiver.handle] at h ⊢
      split at h
      next hready => exact .inl ⟨h, by rw [if_pos hready]⟩
      next hready => exact .inl ⟨h, by rw [if_neg hready]⟩
  | abort => exact .inl ⟨h, rfl⟩
  | ack bytes => exact .inl ⟨h, rfl⟩
  | pathSwitch bytes nextSeq => exact .inl ⟨h, rfl⟩

end

/-! ## Both parties -/

section

variable {file : List UInt8} {s s' : Sender} {l : SendLabel} {out : Out}

theorem Sender.step_size (hr : s.step file l = some (s', out)) : s'.size = s.size := by
  cases Sender.sendStep hr with
  | quiet _ _ hkept => exact hkept.size
  | failed => rfl
  | offered => rfl
  | eof => rfl
  | chunk hpc hfilled hread hne hle hr => rw [(Sender.readChunk_eq hne hle hr).1]
  | switched hpc hl hseq hr => rw [(Sender.trySwitch_eq hseq hr).1]
  | finished hpc heof hempty hr => rw [(Sender.finish_eq hr).1]
  | closing => rfl
  | returned => rfl

theorem Sender.step_metadata (hr : s.step file l = some (s', out)) {declared : Int}
    (h : out.Has (.metadata declared)) : declared = s.size := by
  rw [Out.Has] at h
  cases Sender.sendStep hr with
  | quiet _ _ hkept _ hout =>
      rw [hout.quiet.direct] at h
      rw [← hkept.size]
      exact hout.quiet.metadata declared (h.resolve_right (by simp))
  | failed hout =>
      rw [hout.quiet.direct] at h
      exact hout.quiet.metadata declared (h.resolve_right (by simp))
  | offered => simp [Sender.sendReady, Out.onRelay] at h
  | eof => rcases h with h | h <;> cases h
  | chunk hpc hfilled hread hne hle hr =>
      obtain ⟨-, rfl⟩ := Sender.readChunk_eq hne hle hr
      split at h <;> simp [Out.onRelay, Out.onDirect] at h
  | switched hpc hl hseq hr =>
      obtain ⟨-, rfl⟩ := Sender.trySwitch_eq hseq hr
      simp at h
  | finished hpc heof hempty hr =>
      obtain ⟨-, rfl⟩ := Sender.finish_eq hr
      split at h <;> simp [Out.onRelay, Out.onDirect] at h
  | closing hpc hout => rcases hout with rfl | rfl <;> simp [Out.none, Out.onRelay] at h
  | returned => rcases h with h | h <;> cases h

/-- The sender returns at an acknowledgement of the whole file, after Done. -/
theorem Sender.step_returned (hr : s.step file l = some (s', out)) (hpc : s'.pc = .returned) :
    (s.pc = .done ∨ s.pc = .doneDirect) ∧ ∃ bytes, l = .relayFrame (.ack bytes) ∧
      s.offset ≤ bytes := by
  cases Sender.sendStep hr with
  | quiet _ hpc' =>
      rw [hpc] at hpc'
      cases hpc'
  | failed => cases hpc
  | offered => cases hpc
  | eof => cases hpc
  | chunk hpc₀ hfilled hread hne hle hr =>
      rw [(Sender.readChunk_eq hne hle hr).1] at hpc
      have hpc' : (if s.directReady then SendPc.filled else .fill) = .returned := hpc
      split at hpc' <;> cases hpc'
  | switched hpc₀ hl hseq hr =>
      rw [(Sender.trySwitch_eq hseq hr).1] at hpc
      cases hpc
  | finished hpc₀ heof hempty hr =>
      rw [(Sender.finish_eq hr).1] at hpc
      have hpc' : (if s.directActive then SendPc.doneDirect else .done) = .returned := hpc
      split at hpc' <;> cases hpc'
  | closing hpc₀ => rcases hpc₀ with h | h <;> rw [h] at hpc <;> cases hpc
  | returned hpc₀ hl hle => exact ⟨hpc₀, _, hl, hle⟩

end

namespace Watched

structure Inv (file : List UInt8) (size : Int) (w : Watched) : Prop where
  base : WebRelay.Inv file w.transfer
  declared : w.transfer.sender.size = size
  metadata : ∀ declared, w.transfer.sent.Has (.metadata declared) → declared = size
  done : ∀ seq, w.transfer.sent.Has (.done seq) → w.transfer.sender.Closed file seq
  sized : w.transfer.receiver.Sized size
  seen : w.transfer.receiver.doneSeen = true →
    w.transfer.sender.Closed file w.transfer.receiver.doneSeq
  waiting : w.transfer.receiver.status = .running → w.transfer.receiver.doneSeen = true →
    w.transfer.receiver.expectedSeq < w.transfer.receiver.doneSeq
  since : ∀ bytes, .ack bytes ∈ w.since → file.length ≤ bytes → w.transfer.receiver.Completed
  returned : w.transfer.sender.pc = .returned → w.transfer.receiver.Completed

namespace Inv

variable {file : List UInt8} {size : Int} {w w' : Watched}

theorem init (size : Int) (senderDirect receiverDirect : Bool) :
    Inv file size (.init size senderDirect receiverDirect) where
  base := .init size senderDirect receiverDirect
  declared := rfl
  metadata := by
    intro declared h
    simpa [Watched.init, Transfer.init, Out.Has, Out.onRelay] using h
  done := by
    intro seq h
    simp [Watched.init, Transfer.init, Out.Has, Out.onRelay] at h
  sized := .inr ⟨rfl, rfl, rfl⟩
  seen := by
    intro h
    cases h
  waiting := by
    intro _ h
    cases h
  since := by
    intro bytes h
    cases h
  returned := by
    intro h
    cases h

/-- What `since` becomes when the relay has got these answers. -/
theorem mem_since {bytes : Nat} {answered answers : List Frame} {seen : Bool}
    (heq : answered = w.transfer.answered.relay ++ answers)
    (h : .ack bytes ∈
      (if seen then w.since ++ answered.drop w.transfer.answered.relay.length else [])) :
    seen = true ∧ (.ack bytes ∈ w.since ∨ .ack bytes ∈ answers) := by
  split at h
  next hseen =>
    rw [heq, List.drop_left] at h
    exact ⟨hseen, List.mem_append.mp h⟩
  next => cases h

theorem send (h : Inv file size w) {l : SendLabel} (hok : w.AnswersDone (.send l))
    (hs : w.step file (.send l) = some w') : Inv file size w' := by
  obtain ⟨t, ht, rfl⟩ := Option.map_eq_some_iff.mp hs
  have hbase := h.base.step ht
  rw [Transfer.step] at ht
  split at ht
  next =>
    obtain ⟨⟨s, out⟩, hr, heq⟩ := Option.map_eq_some_iff.mp ht
    cases heq
    refine ⟨hbase, ?_, ?_, ?_, h.sized, ?_, h.waiting, ?_, ?_⟩
    · exact (Sender.step_size hr).trans h.declared
    · intro declared hmem
      rcases Out.has_append.mp hmem with hold | hnew
      · exact h.metadata declared hold
      · exact (Sender.step_metadata hr hnew).trans h.declared
    · intro seq hmem
      rcases Out.has_append.mp hmem with hold | hnew
      · exact (h.done seq hold).step hr
      · exact h.base.sender.closed hr hnew
    · intro hseen
      exact (h.seen hseen).step hr
    · intro bytes hmem
      exact h.since bytes ((mem_since (List.append_nil _).symm hmem).2.resolve_right (by simp))
    · intro hpc
      obtain ⟨hlast, bytes, rfl, hle⟩ := Sender.step_returned hr hpc
      have hend : w.transfer.sender.offset = file.length :=
        h.base.sender.eof (h.base.sender.ended (by rcases hlast with hp | hp <;> rw [hp] <;> rfl))
      exact h.since bytes (hok hlast hle) (hend ▸ hle)
  next => cases ht

/-- While the receiver runs, it has acknowledged nothing as a whole since Done. -/
theorem not_running (h : Inv file size w) {bytes : Nat}
    (hrun : w.transfer.receiver.status = .running) (hmem : .ack bytes ∈ w.since) :
    ¬ file.length ≤ bytes := by
  intro hle
  have hstatus := (h.since bytes hmem hle).status
  rw [hrun] at hstatus
  cases hstatus

theorem not_returned (h : Inv file size w) (hrun : w.transfer.receiver.status = .running) :
    w.transfer.sender.pc ≠ .returned := by
  intro hpc
  have hstatus := (h.returned hpc).status
  rw [hrun] at hstatus
  cases hstatus

theorem deliver (h : Inv file size w) (hsize : size < 0 ∨ size = file.length) {f : Frame}
    (hs : w.step file (.deliver f) = some w') : Inv file size w' := by
  obtain ⟨t, ht, rfl⟩ := Option.map_eq_some_iff.mp hs
  have hbase := h.base.step ht
  rw [Transfer.step] at ht
  split at ht
  next hguard =>
    obtain ⟨hrun, hdeliver⟩ := hguard
    cases ht
    have hsent := h.base.sent_of_deliverable hdeliver
    have hhas : w.transfer.sent.Has f := by
      rw [Transfer.deliverable, Bool.or_eq_true, Bool.and_eq_true] at hdeliver
      rcases hdeliver with hf | hf
      · exact .inl (List.contains_iff_mem.mp hf)
      · exact .inr (List.contains_iff_mem.mp hf.2)
    have hseen : (w.transfer.receiver.handle f).1.doneSeen = true →
        w.transfer.sender.Closed file (w.transfer.receiver.handle f).1.doneSeq := by
      intro hs
      rcases Receiver.handle_doneSeen hs with ⟨hold, heq⟩ | ⟨seq, rfl, heq⟩
      · rw [heq]
        exact h.seen hold
      · rw [heq]
        exact h.done seq hhas
    have hsettles : (w.transfer.receiver.handle f).1.doneSeen = true →
        Settles file.length (w.transfer.receiver.handle f).1 (w.transfer.receiver.handle f).2 := by
      intro hs
      obtain ⟨k, hk⟩ := h.base.receiver hrun
      have hchunks : w.transfer.sender.seq = w.transfer.sender.chunks.length + 1 :=
        h.base.sender.seq
      refine .handle hk hsent ?_ h.base.sender.nonempty ?_ h.sized hsize ?_ (h.waiting hrun) hs
      · rintro seq rfl
        rw [(h.done seq hhas).seq, hchunks]
      · rw [← (hseen hs).offset]
        exact h.base.sender.offset
      · intro hold
        rw [(h.seen hold).seq, hchunks]
    refine ⟨hbase, h.declared, h.metadata, h.done, ?_, hseen, ?_, ?_, ?_⟩
    · refine h.sized.handle ?_
      rintro declared rfl
      exact h.metadata declared hhas
    · intro hrun' hs
      exact (hsettles hs).running hrun'
    · intro bytes hmem hle
      obtain ⟨hs, hold | hnew⟩ := mem_since rfl hmem
      · exact absurd hle (h.not_running hrun hold)
      · exact (hsettles hs).ack bytes hnew hle
    · intro hpc
      exact absurd hpc (h.not_returned hrun)
  next => cases ht

/-- The receiver gives up and acknowledges nothing. -/
theorem gaveUp (h : Inv file size w) {t : Transfer} {sink : List UInt8} {answers : List Frame}
    (hbase : WebRelay.Inv file t) (hrun : w.transfer.receiver.status = .running)
    (hsender : t.sender = w.transfer.sender) (hsent : t.sent = w.transfer.sent)
    (hreceiver : t.receiver = { w.transfer.receiver with status := .failed, sink := sink })
    (hanswered : t.answered.relay = w.transfer.answered.relay ++ answers)
    (hno : ∀ bytes, .ack bytes ∉ answers) :
    Inv file size ⟨t, if t.receiver.doneSeen then
        w.since ++ t.answered.relay.drop w.transfer.answered.relay.length
      else []⟩ := by
  refine ⟨hbase, ?_, ?_, ?_, ?_, ?_, ?_, ?_, ?_⟩
  · rw [hsender]
    exact h.declared
  · rw [hsent]
    exact h.metadata
  · rw [hsent, hsender]
    exact h.done
  · rw [hreceiver]
    exact h.sized
  · rw [hreceiver, hsender]
    exact h.seen
  · intro hrun'
    rw [hreceiver] at hrun'
    cases hrun'
  · intro bytes hmem hle
    obtain ⟨-, hold | hnew⟩ := mem_since hanswered hmem
    · exact absurd hle (h.not_running hrun hold)
    · exact absurd hnew (hno bytes)
  · intro hpc
    rw [hsender] at hpc
    exact absurd hpc (h.not_returned hrun)

theorem step (h : Inv file size w) (hsize : size < 0 ∨ size = file.length) {l : Label}
    (hok : w.AnswersDone l) (hs : w.step file l = some w') : Inv file size w' := by
  cases l with
  | send l => exact h.send hok hs
  | deliver f => exact h.deliver hsize hs
  | sinkFails f n =>
      obtain ⟨t, ht, rfl⟩ := Option.map_eq_some_iff.mp hs
      have hbase := h.base.step ht
      rw [Transfer.step] at ht
      split at ht
      next hguard =>
        cases ht
        exact h.gaveUp hbase hguard.1 rfl rfl rfl rfl fun bytes hmem => by
          cases List.mem_singleton.mp hmem
      next => cases ht
  | stop =>
      obtain ⟨t, ht, rfl⟩ := Option.map_eq_some_iff.mp hs
      have hbase := h.base.step ht
      rw [Transfer.step] at ht
      split at ht
      next hrun =>
        cases ht
        exact h.gaveUp hbase hrun rfl rfl rfl (List.append_nil _).symm fun bytes hmem => by cases hmem
      next => cases ht

end Inv

/-- Every run can be watched. -/
theorem runFrom_watched {file : List UInt8} : ∀ (ls : List Label) {w : Watched} {t : Transfer},
    runFrom (Transfer.step file) w.transfer ls = some t →
      ∃ since, runFrom (Watched.step file) w ls = some ⟨t, since⟩
  | [], w, t, h => by
      cases h
      exact ⟨w.since, rfl⟩
  | l :: ls, w, t, h => by
      obtain ⟨u, hu, hrest⟩ := runFrom_cons h
      rw [runFrom, Watched.step, hu]
      exact runFrom_watched ls hrest

end Watched

/-- When the declared size is unknown or right, then in every run in which the last wait of `Offer.send`
ends with an acknowledgement that the receiver sent after it read Done, `Offer.send` returns without an
error only when the receiver has read Done and its check of the size has passed. -/
theorem web_transfer_completion (file : List UInt8) (size : Int) (senderDirect receiverDirect : Bool)
    (hsize : size < 0 ∨ size = file.length) (ls : List Label) (t : Transfer)
    (hrun : runFrom (Transfer.step file) (.init size senderDirect receiverDirect) ls = some t)
    (hok : StepsMeet (Watched.step file) Watched.AnswersDone
      (.init size senderDirect receiverDirect) ls)
    (hpc : t.sender.pc = .returned) :
    t.receiver.status = .complete ∧ t.receiver.doneSeen = true ∧
      (t.receiver.size < 0 ∨ (t.receiver.received : Int) = t.receiver.size) := by
  obtain ⟨since, hwatched⟩ :=
    Watched.runFrom_watched (w := .init size senderDirect receiverDirect) ls hrun
  have h : Watched.Inv file size ⟨t, since⟩ :=
    runFrom_invariant_of_meet (fun _ _ _ h hok hs => h.step hsize hok hs) ls
      (.init size senderDirect receiverDirect) hok hwatched
  obtain ⟨hstatus, hseen, hcheck⟩ := h.returned hpc
  exact ⟨hstatus, hseen, hcheck⟩

instance Watched.AnswersDone.decidable (w : Watched) : ∀ l, Decidable (w.AnswersDone l)
  | .send (.relayFrame (.ack bytes)) =>
      inferInstanceAs (Decidable (w.transfer.sender.pc = .done ∨ w.transfer.sender.pc = .doneDirect →
        w.transfer.sender.offset ≤ bytes → .ack bytes ∈ w.since))
  | .send (.relayFrame (.metadata _)) => isTrue trivial
  | .send (.relayFrame (.data _ _)) => isTrue trivial
  | .send (.relayFrame (.done _)) => isTrue trivial
  | .send (.relayFrame (.directReady _ _)) => isTrue trivial
  | .send (.relayFrame (.pathSwitch _ _)) => isTrue trivial
  | .send (.relayFrame .abort) => isTrue trivial
  | .send (.directFrame _) => isTrue trivial
  | .send (.poll _) => isTrue trivial
  | .send (.read _) => isTrue trivial
  | .send .next => isTrue trivial
  | .send .timer => isTrue trivial
  | .send (.fail _) => isTrue trivial
  | .deliver _ => isTrue trivial
  | .sinkFails _ _ => isTrue trivial
  | .stop => isTrue trivial

/-- Three chunks over both paths, and Done is read before the last of them. -/
def lateDataRun : List Label :=
  [.deliver (.metadata 6), .send (.relayFrame (.ack 0)), .send (.poll .quiet), .send (.read 2),
    .send (.read 2), .send (.read 2), .deliver (.data 1 [1, 2]), .send (.read 0),
    .send (.poll .ready), .send (.relayFrame (.ack 2)), .send (.poll .quiet), .send .next,
    .deliver (.directReady 2 2), .send (.relayFrame (.pathSwitch 2 2)), .send .next,
    .deliver (.done 4), .deliver (.data 3 [5, 6]), .deliver (.data 2 [3, 4]),
    .send (.relayFrame (.ack 6))]

theorem web_transfer_completion_late_data :
    ∃ t, runFrom (Transfer.step [1, 2, 3, 4, 5, 6]) (.init 6 true true) lateDataRun = some t ∧
      t.sender.pc = .returned ∧ t.receiver.status = .complete := by
  have h : (runFrom (Transfer.step [1, 2, 3, 4, 5, 6]) (.init 6 true true) lateDataRun).any
      (fun t => decide (t.sender.pc = .returned)) = true := by decide +kernel
  obtain ⟨t, hrun, ht⟩ := (Option.any_eq_true ..).mp h
  have hpc := of_decide_eq_true ht
  exact ⟨t, hrun, hpc, (web_transfer_completion _ _ _ _ (.inr rfl) _ t hrun
    (by decide +kernel) hpc).1⟩

/-- An empty file, with the metadata sent twice: the second acknowledgement of the metadata ends the
wait for Done. -/
theorem web_transfer_stale_ack :
    ∃ t, runFrom (Transfer.step []) (.init 0 false false)
        [.send .timer, .deliver (.metadata 0), .deliver (.metadata 0), .send (.relayFrame (.ack 0)),
          .send (.poll .quiet), .send (.read 0), .send (.poll .quiet), .send .next, .send .next,
          .send (.relayFrame (.ack 0))] = some t ∧
      t.sender.pc = .returned ∧ t.receiver.doneSeen = false ∧ t.receiver.status = .running := by
  have h : (runFrom (Transfer.step []) (.init 0 false false)
        [.send .timer, .deliver (.metadata 0), .deliver (.metadata 0), .send (.relayFrame (.ack 0)),
          .send (.poll .quiet), .send (.read 0), .send (.poll .quiet), .send .next, .send .next,
          .send (.relayFrame (.ack 0))]).any (fun t => decide (t.sender.pc = .returned ∧
            t.receiver.doneSeen = false ∧ t.receiver.status = .running)) = true := by decide +kernel
  obtain ⟨t, hrun, ht⟩ := (Option.any_eq_true ..).mp h
  exact ⟨t, hrun, of_decide_eq_true ht⟩

end WebRelay
