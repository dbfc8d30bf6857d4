import Derphole.WebRelay.Transfer

/-!
# What a step can do

Most steps of `Offer.send` change neither what was read nor which path is in use; they move on,
repeat a frame on the relay or take an acknowledgement into the window.  `SendStep` lists these
together and the others one by one, so that a property of all runs needs a case for each kind of step
only (`Sender.sendStep`).  No other module looks into the steps of the sender.

The receiver writes the frames that it had put aside and changes nothing else by it
(`Receiver.drainPending_eq`).
-/

namespace WebRelay

/-- The frame is sent on one of the paths. -/
def Out.Has (out : Out) (f : Frame) : Prop := f ∈ out.relay ∨ f ∈ out.direct

theorem Out.has_append {a b : Out} {f : Frame} : (a ++ b).Has f ↔ a.Has f ∨ b.Has f := by
  show f ∈ a.relay ++ b.relay ∨ f ∈ a.direct ++ b.direct ↔ _
  rw [List.mem_append, List.mem_append, Out.Has, Out.Has]
  tauto

/-- Nothing on the direct path, no Done, no offer to switch, and no metadata but those of the transfer. -/
structure Out.Quiet (size : Int) (out : Out) : Prop where
  direct : out.direct = []
  done : ∀ seq, Frame.done seq ∉ out.relay
  offer : ∀ bytes nextSeq, Frame.directReady bytes nextSeq ∉ out.relay
  metadata : ∀ declared, Frame.metadata declared ∈ out.relay → declared = size

/-- What a sender sends besides chunks, offers to switch and Done. -/
inductive Sender.Repeats (s : Sender) : Out → Prop where
  | none : s.Repeats .none
  | abort : s.Repeats (.onRelay .abort)
  | metadata : s.Repeats (.onRelay (.metadata s.size))
  | oldest : s.Repeats s.retransmitOldest

/-- Done was sent. -/
def SendPc.ended (pc : SendPc) : Bool := decide (pc = .done ∨ pc = .doneDirect ∨ pc = .returned)

/-- `direct != nil && direct.active`: the switch was made. -/
def Sender.onDirect (s : Sender) : Bool := s.direct.any fun d => d.active

/-- Nothing was read, and the path in use stays. -/
structure Kept (s s' : Sender) : Prop where
  size : s'.size = s.size
  chunks : s'.chunks = s.chunks
  offset : s'.offset = s.offset
  seq : s'.seq = s.seq
  eof : s'.eof = s.eof
  active : s.directActive = true → s'.directActive = true
  onDirect : s'.onDirect = s.onDirect
  switching : s'.pc = .switching → s.pc = .switching ∧ s'.transport = s.transport

/-- The step of `l` leads to `s'` and sends `out`. -/
inductive SendStep (file : List UInt8) (s : Sender) (l : SendLabel) : Sender → Out → Prop where
  | quiet {s' : Sender} {out : Out} (hpc : s.pc.ended = false) (hpc' : s'.pc.ended = false)
      (hkept : Kept s s')
      (hwindow : s'.window = s.window ∨ ∃ bytes, (l = .relayFrame (.ack bytes) ∨
        l = .directFrame (.ack bytes)) ∧ s'.window = s.window.ack bytes)
      (hout : s'.Repeats out) : SendStep file s l s' out
  | failed {out : Out} (hout : s.Repeats out) : SendStep file s l { s with pc := .failed } out
  | eof (hpc : s.pc = .fill) (hend : s.offset = file.length) :
      SendStep file s l { s with eof := true, pc := .filled } .none
  /-- A chunk is read and sent. -/
  | chunk {s' : Sender} {out : Out} {n : Nat} {chunk : List UInt8} (hpc : s.pc = .fill)
      (hfilled : s.filled = false) (hread : Sender.sourceRead file s.offset n = some chunk) (hne : chunk ≠ [])
      (hle : chunk.length ≤ directChunkBytes) (hr : s.readChunk chunk = some (s', out)) :
      SendStep file s l s' out
  /-- The switch is offered, for the first time or again. -/
  | offered (hpc : s.pc.ended = false)
      (hbefore : s.pc = .switching ∨ s.transport = true ∧ s.onDirect = false) :
      SendStep file s l { s with pc := .switching } s.sendReady
  | switched {s' : Sender} {out : Out} {bytes nextSeq : Nat} (hpc : s.pc = .switching)
      (hl : l = .relayFrame (.pathSwitch bytes nextSeq)) (hseq : nextSeq ≤ s.seq)
      (hr : s.trySwitch (.pathSwitch bytes nextSeq) = some (s', out)) : SendStep file s l s' out
  /-- Done is sent. -/
  | finished {s' : Sender} {out : Out} (hpc : s.pc = .turn) (heof : s.eof = true) (hempty : s.window.empty = true)
      (hr : s.finish = some (s', out)) : SendStep file s l s' out
  /-- The wait for the last acknowledgement goes on. -/
  | closing {out : Out} (hpc : s.pc = .done ∨ s.pc = .doneDirect)
      (hout : out = .none ∨ out = .onRelay (.done s.seq)) : SendStep file s l s out
  | returned {bytes : Nat} (hpc : s.pc = .done ∨ s.pc = .doneDirect)
      (hl : l = .relayFrame (.ack bytes)) (hle : s.offset ≤ bytes) :
      SendStep file s l { s with pc := .returned } .none

section

variable {file : List UInt8} {s s' : Sender} {l : SendLabel} {out : Out} {f : Frame}

theorem Out.quiet_onRelay {size : Int} (hdone : ∀ seq, f ≠ .done seq)
    (hoffer : ∀ bytes nextSeq, f ≠ .directReady bytes nextSeq)
    (hmetadata : ∀ declared, f = .metadata declared → declared = size) :
    (Out.onRelay f).Quiet size where
  direct := rfl
  done := fun seq h => hdone seq (List.mem_singleton.mp h).symm
  offer := fun bytes nextSeq h => hoffer bytes nextSeq (List.mem_singleton.mp h).symm
  metadata := fun declared h => hmetadata declared (List.mem_singleton.mp h).symm

theorem Sender.Repeats.quiet (h : s.Repeats out) : out.Quiet s.size := by
  have hnone : Out.none.Quiet s.size := ⟨rfl, nofun, nofun, nofun⟩
  cases h with
  | none => exact hnone
  | abort => exact Out.quiet_onRelay nofun nofun nofun
  | metadata =>
      refine Out.quiet_onRelay nofun nofun fun declared h => ?_
      cases h
      rfl
  | oldest =>
      rw [Sender.retransmitOldest]
      split
      · exact hnone
      · exact Out.quiet_onRelay nofun nofun nofun

/-- Only the position, the window or the mark of the last retransmission changes. -/
theorem Kept.same (h : (s'.size, s'.chunks, s'.offset, s'.seq, s'.eof, s'.direct, s'.transport) =
      (s.size, s.chunks, s.offset, s.seq, s.eof, s.direct, s.transport))
    (hpc : s'.pc = s.pc ∨ s'.pc ≠ .switching) : Kept s s' := by
  simp only [Prod.mk.injEq] at h
  obtain ⟨hsize, hchunks, hoffset, hseq, heof, hdirect, htransport⟩ := h
  refine ⟨hsize, hchunks, hoffset, hseq, heof, ?_, ?_, ?_⟩
  · intro hactive
    simpa only [Sender.directActive, hdirect, htransport] using hactive
  · rw [Sender.onDirect, hdirect, Sender.onDirect]
  · intro hswitching
    rcases hpc with hpc | hpc
    · exact ⟨hpc ▸ hswitching, htransport⟩
    · exact absurd hswitching hpc

theorem SendStep.giveUp {notify : Bool} (hr : s.giveUp notify = some (s', out)) :
    SendStep file s l s' out := by
  cases hr
  refine .failed ?_
  split
  · exact .abort
  · exact .none

/-- The window stays, and nothing but `out` is sent. -/
theorem SendStep.moved (hpc : s.pc.ended = false) (hpc' : s'.pc.ended = false)
    (h : (s'.size, s'.chunks, s'.offset, s'.seq, s'.eof, s'.direct, s'.transport, s'.window) =
      (s.size, s.chunks, s.offset, s.seq, s.eof, s.direct, s.transport, s.window))
    (hswitching : s'.pc = s.pc ∨ s'.pc ≠ .switching) (hout : s'.Repeats out) :
    SendStep file s l s' out := by
  simp only [Prod.mk.injEq] at h
  obtain ⟨hsize, hchunks, hoffset, hseq, heof, hdirect, htransport, hwindow⟩ := h
  refine .quiet hpc hpc' (.same ?_ hswitching) (.inl hwindow) hout
  rw [hsize, hchunks, hoffset, hseq, heof, hdirect, htransport]

/-- A poll changes only what is known of the direct transport. -/
theorem Sender.poll_eq {event : DirectEvent} (hp : s.poll event = some s') :
    ∃ direct transport, s' = { s with direct := direct, transport := transport } := by
  unfold Sender.poll at hp
  split at hp
  · cases hp
    exact ⟨_, _, rfl⟩
  · cases hp
    exact ⟨_, _, rfl⟩
  · split at hp
    · split at hp
      · cases hp
      · cases hp
        exact ⟨_, _, rfl⟩
    split at hp
    · split at hp
      · cases hp
        exact ⟨_, _, rfl⟩
      · cases hp
        exact ⟨_, _, rfl⟩
    · split at hp
      · cases hp
        exact ⟨_, _, rfl⟩
      · cases hp
        exact ⟨_, _, rfl⟩
      · cases hp
        exact ⟨_, _, rfl⟩

/-- A poll of the transport does not make the switch, and does not undo it. -/
theorem Sender.poll_onDirect {event : DirectEvent} (hp : s.poll event = some s') :
    s'.onDirect = s.onDirect := by
  unfold Sender.poll at hp
  split at hp
  · cases hp
    rfl
  · cases hp
    rfl
  next d hd _ =>
    have hs : s.onDirect = d.active := by simp [Sender.onDirect, hd]
    split at hp
    · split at hp
      · cases hp
      · cases hp
        rfl
    next hactive =>
      have hoff : d.active = false := by simpa using hactive
      split at hp
      · split at hp
        · cases hp
          rw [hs, hoff]
          rfl
        · cases hp
          rfl
      · split at hp
        · cases hp
          rw [hs]
          rfl
        · cases hp
          rw [hs, hoff]
          rfl
        · cases hp
          rfl

/-- A poll never leaves the direct path while it is in use. -/
theorem Sender.poll_active {event : DirectEvent} (hp : s.poll event = some s')
    (h : s.directActive = true) : s' = s := by
  rw [Sender.directActive, Bool.and_eq_true] at h
  obtain ⟨hactive, htransport⟩ := h
  obtain ⟨d, hd, hda⟩ := (Option.any_eq_true ..).mp hactive
  simp only [Sender.poll, hd, htransport, hda, if_true] at hp
  split at hp
  · cases hp
  · cases hp
    rfl

theorem SendStep.pollTo {event : DirectEvent} {next : Sender → SendPc} (hpc : s.pc.ended = false)
    (hnext : ∀ s', (next s').ended = false ∧ next s' ≠ .switching)
    (hr : s.pollTo event next = some (s', out)) : SendStep file s l s' out := by
  rw [Sender.pollTo] at hr
  split at hr
  next => exact .giveUp hr
  next polled hp =>
    obtain ⟨direct, transport, heq⟩ := Sender.poll_eq hp
    have hsame := Sender.poll_onDirect hp
    cases hr
    refine .quiet hpc (hnext polled).1 ⟨by rw [heq], by rw [heq], by rw [heq], by rw [heq],
      by rw [heq], ?_, hsame, ?_⟩ (.inl (by rw [heq])) .none
    · intro hactive
      rw [Sender.poll_active hp hactive]
      exact hactive
    · intro hswitching
      exact absurd hswitching (hnext polled).2

theorem SendStep.handleDirectWindowFrame {next : Sender → SendPc} (hpc : s.pc.ended = false)
    (hnext : ∀ s', s'.pc = s.pc → (next s').ended = false ∧ (next s' = s.pc ∨ next s' ≠ .switching))
    (hl : l = .relayFrame f ∨ l = .directFrame f)
    (hr : s.handleDirectWindowFrame f next = some (s', out)) : SendStep file s l s' out := by
  cases f with
  | ack bytes =>
      cases hr
      obtain ⟨hended, hswitching⟩ := hnext { s with window := s.window.ack bytes } rfl
      exact .quiet hpc hended (.same rfl hswitching) (.inr ⟨bytes, hl, rfl⟩) .none
  | abort => exact .giveUp hr
  | _ =>
      cases hr
      exact .moved hpc (hnext s rfl).1 rfl (hnext s rfl).2 .none

theorem SendStep.drainDirectWindowAcks (hpc : s.pc.ended = false)
    (hl : l = .relayFrame f ∨ l = .directFrame f)
    (hr : s.drainDirectWindowAcks f = some (s', out)) : SendStep file s l s' out := by
  rw [Sender.drainDirectWindowAcks] at hr
  split at hr
  · exact .handleDirectWindowFrame hpc (fun s' hs' => ⟨hs' ▸ hpc, .inl hs'⟩) hl hr
  · cases hr

theorem SendStep.awaitRelayWindowAck {resume : SendPc} (hpc : s.pc.ended = false)
    (hresume : resume.ended = false ∧ resume ≠ .switching) (hl : l = .relayFrame f)
    (hr : s.awaitRelayWindowAck f resume = some (s', out)) : SendStep file s l s' out := by
  cases f with
  | ack bytes =>
      rw [Sender.awaitRelayWindowAck] at hr
      dsimp only at hr
      split at hr
      · cases hr
        exact .quiet hpc hresume.1 (.same rfl (.inr hresume.2)) (.inr ⟨bytes, .inl hl, rfl⟩) .none
      split at hr
      · cases hr
        exact .quiet hpc hpc (.same rfl (.inl rfl)) (.inr ⟨bytes, .inl hl, rfl⟩) .none
      · cases hr
        exact .quiet hpc hpc (.same rfl (.inl rfl)) (.inr ⟨bytes, .inl hl, rfl⟩)
          .oldest
  | abort => exact .giveUp hr
  | _ =>
      cases hr
      exact .moved hpc hpc rfl (.inl rfl) .none

theorem SendStep.awaitRelayTimer (hpc : s.pc.ended = false)
    (hr : s.awaitRelayTimer = some (s', out)) : SendStep file s l s' out := by
  cases hr
  exact .moved hpc hpc rfl (.inl rfl) .oldest

theorem SendStep.trySwitch (hpc : s.pc = .switching) (hl : l = .relayFrame f)
    (hr : s.trySwitch f = some (s', out)) : SendStep file s l s' out := by
  have hopen : s.pc.ended = false := by
    rw [hpc]
    rfl
  cases f with
  | pathSwitch bytes nextSeq =>
      by_cases hseq : s.seq < nextSeq
      · rw [Sender.trySwitch, if_pos hseq] at hr
        cases hr
        exact .moved hopen hopen rfl (.inl rfl) .none
      · exact .switched hpc hl (Nat.le_of_not_lt hseq) hr
  | abort => exact .giveUp hr
  | ack bytes =>
      cases hr
      exact .quiet hopen hopen (.same rfl (.inl rfl)) (.inr ⟨bytes, .inl hl, rfl⟩) .none
  | _ =>
      cases hr
      exact .moved hopen hopen rfl (.inl rfl) .none

theorem Sender.onDirect_of_directReady (h : s.directReady = true) : s.onDirect = false := by
  rw [Sender.directReady] at h
  obtain ⟨d, hd, hready⟩ := (Option.any_eq_true ..).mp h
  rw [Bool.and_eq_true, Bool.not_eq_true'] at hready
  rw [Sender.onDirect, hd]
  exact hready.2

theorem SendStep.enterSwitch (hpc : s.pc = .switch)
    (hr : (if s.directReady ∧ s.transport ∧ 0 < s.offset then
        some ({ s with pc := .switching }, s.sendReady)
      else s.goto .turn) = some (s', out)) : SendStep file s l s' out := by
  have hopen : s.pc.ended = false := by
    rw [hpc]
    rfl
  split at hr
  next hready =>
    cases hr
    exact .offered hopen (.inr ⟨hready.2.1, Sender.onDirect_of_directReady hready.1⟩)
  next =>
    cases hr
    exact .moved hopen rfl rfl (.inr (by simp)) .none

/-- What the source returned is empty, too long, or a chunk. -/
theorem SendStep.fill {n : Nat} {chunk : List UInt8} (hpc : s.pc = .fill) (hfilled : s.filled = false)
    (hread : Sender.sourceRead file s.offset n = some chunk)
    (hr : s.readChunk chunk = some (s', out)) : SendStep file s l s' out := by
  by_cases hne : chunk = []
  · rw [Sender.readChunk, if_pos hne] at hr
    cases hr
    refine .eof hpc ?_
    rw [Sender.sourceRead] at hread
    split at hread
    next hroom =>
      have hlen := congrArg List.length (Option.some.inj hread)
      rw [hne, List.length_take, List.length_drop, List.length_nil] at hlen
      omega
    next => cases hread
  · by_cases hlong : directChunkBytes < chunk.length
    · rw [Sender.readChunk, if_neg hne, if_pos hlong] at hr
      exact .giveUp hr
    · exact .chunk hpc hfilled hread hne (Nat.le_of_not_lt hlong) hr

theorem SendStep.endOfTurn (hpc : s.pc = .turn) (hr : s.endOfTurn = some (s', out)) :
    SendStep file s l s' out := by
  have hopen : s.pc.ended = false := by
    rw [hpc]
    rfl
  rw [Sender.endOfTurn] at hr
  split at hr
  next hend =>
    rw [Bool.and_eq_true] at hend
    exact .finished hpc hend.1 hend.2 hr
  next =>
    split at hr
    · cases hr
      exact .moved hopen rfl rfl (.inr (by simp)) .none
    split at hr
    · cases hr
      exact .moved hopen rfl rfl (.inr (by simp)) .none
    · cases hr
      exact .moved hopen rfl rfl (.inr (by simp)) .none

theorem SendStep.awaitDirect (hpc : s.pc = .awaitDirect)
    (hl : l = .relayFrame f ∨ l = .directFrame f)
    (hr : (s.handleDirectWindowFrame f fun s' =>
      if s.window.acked < s'.window.acked ∨ s'.window.empty then .top else .awaitDirect) =
        some (s', out)) : SendStep file s l s' out := by
  refine .handleDirectWindowFrame (by rw [hpc]; rfl) (fun s' _ => ?_) hl hr
  split
  · exact ⟨rfl, .inr (by simp)⟩
  · exact ⟨rfl, .inr (by simp)⟩

/-- The wait for the acknowledgement of the metadata. -/
theorem SendStep.awaitMetadata (hpc : s.pc = .metadata)
    (hr : s.awaitAck f 0 .top false = some (s', out)) : SendStep file s l s' out := by
  have hopen : s.pc.ended = false := by
    rw [hpc]
    rfl
  cases f with
  | ack bytes =>
      rw [Sender.awaitAck] at hr
      split at hr
      · cases hr
        exact .moved hopen rfl rfl (.inr (by simp)) .none
      · cases hr
        exact .moved hopen hopen rfl (.inl rfl) .none
  | abort => exact .giveUp hr
  | _ =>
      cases hr
      exact .moved hopen hopen rfl (.inl rfl) .none

/-- The wait for the last acknowledgement. -/
theorem SendStep.awaitDone {notify : Bool} (hpc : s.pc = .done ∨ s.pc = .doneDirect)
    (hl : l = .relayFrame f) (hr : s.awaitAck f s.offset .returned notify = some (s', out)) :
    SendStep file s l s' out := by
  have hstay : ∀ {s' : Sender} {out : Out}, s.goto s.pc = some (s', out) →
      SendStep file s l s' out := by
    intro s' out hr
    cases hr
    exact .closing hpc (.inl rfl)
  cases f with
  | ack bytes =>
      rw [Sender.awaitAck] at hr
      split at hr
      next hle =>
        cases hr
        exact .returned hpc hl hle
      next => exact hstay hr
  | abort => exact .giveUp hr
  | _ => exact hstay hr

end

/-- Every step of the sender is one of these. -/
theorem Sender.sendStep {file : List UInt8} {s s' : Sender} {l : SendLabel} {out : Out}
    (hr : s.step file l = some (s', out)) : SendStep file s l s' out := by
  unfold Sender.step at hr
  split at hr
  · cases hr
  · cases hr
  · exact .giveUp hr
  next f hpc => exact .awaitMetadata hpc hr
  next hpc =>
    cases hr
    exact .moved (by rw [hpc]; rfl) (by rw [hpc]; rfl) rfl (.inl rfl) .metadata
  next hpc => exact .pollTo (by rw [hpc]; rfl) (fun _ => ⟨rfl, by simp⟩) hr
  next hpc =>
    split at hr
    · cases hr
      exact .moved (by rw [hpc]; rfl) rfl rfl (.inr (by simp)) .none
    · cases hr
  next f hpc =>
    split at hr
    · cases hr
    · exact .drainDirectWindowAcks (by rw [hpc]; rfl) (.inl rfl) hr
  next f hpc =>
    split at hr
    · cases hr
    · exact .drainDirectWindowAcks (by rw [hpc]; rfl) (.inr rfl) hr
  next n hpc =>
    split at hr
    · cases hr
    next hfilled =>
      split at hr
      · cases hr
      next chunk hread => exact .fill hpc (by simpa using hfilled) hread hr
  next hpc =>
    refine .pollTo (by rw [hpc]; rfl) (fun s' => ?_) hr
    split
    · exact ⟨rfl, by simp⟩
    · exact ⟨rfl, by simp⟩
  next f hpc => exact .awaitRelayWindowAck (by rw [hpc]; rfl) ⟨rfl, by simp⟩ rfl hr
  next hpc => exact .awaitRelayTimer (by rw [hpc]; rfl) hr
  next hpc => exact .pollTo (by rw [hpc]; rfl) (fun _ => ⟨rfl, by simp⟩) hr
  next hpc => exact .enterSwitch hpc hr
  next f hpc => exact .trySwitch hpc rfl hr
  next hpc =>
    cases hr
    have hoffered : SendStep file s .timer { s with pc := .switching } s.sendReady :=
      .offered (by rw [hpc]; rfl) (.inl hpc)
    rwa [← hpc] at hoffered
  next f hpc => exact .drainDirectWindowAcks (by rw [hpc]; rfl) (.inl rfl) hr
  next f hpc => exact .drainDirectWindowAcks (by rw [hpc]; rfl) (.inr rfl) hr
  next hpc => exact .endOfTurn hpc hr
  next f hpc => exact .awaitRelayWindowAck (by rw [hpc]; rfl) ⟨rfl, by simp⟩ rfl hr
  next hpc => exact .awaitRelayTimer (by rw [hpc]; rfl) hr
  next f hpc => exact .awaitDirect hpc (.inl rfl) hr
  next f hpc => exact .awaitDirect hpc (.inr rfl) hr
  next f hpc => exact .awaitDone (.inl hpc) rfl hr
  next hpc =>
    cases hr
    exact .closing (.inl hpc) (.inr rfl)
  next f hpc => exact .awaitDone (.inr hpc) rfl hr
  next => exact .giveUp hr
  next => cases hr

/-! ## The steps that send on the direct path -/

section

variable {s s' : Sender} {out : Out}

theorem Sender.readChunk_eq {chunk : List UInt8} (hne : chunk ≠ [])
    (hle : chunk.length ≤ directChunkBytes) (hr : s.readChunk chunk = some (s', out)) :
    s' =
        { s with
          window := (s.window.push ⟨s.seq, s.offset, s.offset + chunk.length, chunk, false⟩).markSent
            s.seq
          offset := s.offset + chunk.length
          seq := s.seq + 1
          chunks := s.chunks ++ [chunk]
          pc := if s.directReady then .filled else .fill } ∧
      out =
        if s.directActive then .onDirect (.data s.seq chunk) else .onRelay (.data s.seq chunk) := by
  rw [Sender.readChunk, if_neg hne, if_neg (Nat.not_lt.mpr hle)] at hr
  cases hr
  exact ⟨rfl, rfl⟩

/-- The frames that the switch sends again. -/
def Sender.replayed (s : Sender) (bytesReceived : Nat) : List RelayFrame :=
  s.window.replayFrom (max bytesReceived s.window.acked)

theorem Sender.trySwitch_eq {bytes nextSeq : Nat} (hseq : nextSeq ≤ s.seq)
    (hr : s.trySwitch (.pathSwitch bytes nextSeq) = some (s', out)) :
    s' =
        { s with
          direct := some ⟨true, true⟩
          window :=
            { (s.replayed bytes).foldl (fun w frame => w.ack frame.nextOffset) s.window with
              maxBytes := maxDirectPendingBytes
              maxFrames := maxDirectPendingFrames }
          pc := .turn } ∧
      out = ⟨[], (s.replayed bytes).map fun frame => .data frame.seq frame.payload⟩ := by
  rw [Sender.trySwitch, if_neg (Nat.not_lt.mpr hseq)] at hr
  cases hr
  exact ⟨rfl, rfl⟩

theorem Sender.finish_eq (hr : s.finish = some (s', out)) :
    s' = { s with pc := if s.directActive then .doneDirect else .done } ∧
      out = if s.directActive then .onDirect (.done s.seq) else .onRelay (.done s.seq) := by
  rw [Sender.finish] at hr
  split at hr
  next hactive =>
    cases hr
    simp [hactive]
  next hactive =>
    cases hr
    simp [hactive]

end

/-! ## The receiver -/

theorem Receiver.drainPending_eq (fuel : Nat) (r : Receiver) :
    ∃ expectedSeq received pendingFrames pendingBytes sink,
      drainPending fuel r =
        { r with
          expectedSeq := expectedSeq
          received := received
          pendingFrames := pendingFrames
          pendingBytes := pendingBytes
          sink := sink } := by
  induction fuel generalizing r with
  | zero => exact ⟨_, _, _, _, _, rfl⟩
  | succ fuel ih =>
      rw [Receiver.drainPending]
      split
      · exact ⟨_, _, _, _, _, rfl⟩
      · obtain ⟨_, _, _, _, _, h⟩ := ih (writeFrame
          { r with
            pendingFrames := r.pendingFrames.erase r.expectedSeq
            pendingBytes := _ } _)
        exact ⟨_, _, _, _, _, h⟩

theorem Receiver.completeIfDone_eq {r r' : Receiver} {out : Out}
    (h : r.completeIfDone = some (r', out)) : ∃ status, r' = { r with status := status } := by
  rw [Receiver.completeIfDone] at h
  split at h
  · cases h
  split at h
  · cases h
    exact ⟨.failed, rfl⟩
  · cases h
    exact ⟨.complete, rfl⟩

/-- A data frame changes what was received, what is put aside, and the status. -/
theorem Receiver.handleData_eq (r : Receiver) (seq : Nat) (payload : List UInt8) :
    ∃ status expectedSeq received pendingFrames pendingBytes sink,
      (r.handleData seq payload).1 =
        { r with
          status := status
          expectedSeq := expectedSeq
          received := received
          pendingFrames := pendingFrames
          pendingBytes := pendingBytes
          sink := sink } := by
  unfold Receiver.handleData
  split
  · exact ⟨_, _, _, _, _, _, rfl⟩
  split
  · exact ⟨_, _, _, _, _, _, rfl⟩
  split
  · split
    · exact ⟨_, _, _, _, _, _, rfl⟩
    split
    · exact ⟨_, _, _, _, _, _, rfl⟩
    · exact ⟨_, _, _, _, _, _, rfl⟩
  · obtain ⟨_, _, _, _, _, hdrained⟩ :=
      Receiver.drainPending_eq (r.pendingFrames.entries.length + 1) (r.writeFrame payload)
    dsimp only
    split
    · exact ⟨_, _, _, _, _, _, hdrained⟩
    next r' out hsome =>
      obtain ⟨status, hr'⟩ := Receiver.completeIfDone_eq hsome
      rw [hdrained] at hr'
      exact ⟨_, _, _, _, _, _, hr'⟩

end WebRelay
