import Derphole.WebRelay.Steps

/-!
# Integrity of a transfer

The receiver orders frames by their number, while acknowledgements, the offer to
switch and the replay count bytes.  They agree since the receiver writes whole
frames: every byte count it reports is the end of a chunk, so no frame of the window
is ever trimmed and the number `i + 1` always stands for the chunk `i`.  With that
the sink holds the first chunks of the file, as many as the receiver counts, on
whichever path they came (`web_relay_integrity`).
-/

namespace WebRelay

open Lib

/-- The frame carries a chunk under its number. -/
def IsData (chunks : List (List UInt8)) (seq : Nat) (payload : List UInt8) : Prop :=
  ∃ i < chunks.length, seq = i + 1 ∧ payload = chunks.getD i []

/-- The byte count is the end of a chunk. -/
def Boundary (chunks : List (List UInt8)) (bytes : Nat) : Prop :=
  ∃ m ≤ chunks.length, bytes = offsetAt chunks m

/-- What the sender may have sent. -/
def Sent (chunks : List (List UInt8)) : Frame → Prop
  | .data seq payload => IsData chunks seq payload
  | .directReady bytesReceived _ => Boundary chunks bytesReceived
  | _ => True

/-- What the receiver may have answered, with so much in its sink. -/
def Answered (chunks : List (List UInt8)) (sink : Nat) : Frame → Prop
  | .ack bytesReceived => Boundary chunks bytesReceived ∧ bytesReceived ≤ sink
  | .pathSwitch bytesReceived _ => Boundary chunks bytesReceived
  | _ => True

def Out.All (P : Frame → Prop) (out : Out) : Prop := (∀ f ∈ out.relay, P f) ∧ ∀ f ∈ out.direct, P f

namespace Out.All

variable {P Q : Frame → Prop}

theorem none : Out.none.All P := ⟨fun _ h => (by cases h), fun _ h => (by cases h)⟩

theorem onRelay {f : Frame} (h : P f) : (Out.onRelay f).All P :=
  ⟨fun _ hg => List.mem_singleton.mp hg ▸ h, fun _ h => (by cases h)⟩

theorem onDirect {f : Frame} (h : P f) : (Out.onDirect f).All P :=
  ⟨fun _ h => (by cases h), fun _ hg => List.mem_singleton.mp hg ▸ h⟩

theorem append {a b : Out} (ha : a.All P) (hb : b.All P) : (a ++ b).All P := by
  refine ⟨fun f hf => ?_, fun f hf => ?_⟩
  · rcases List.mem_append.mp hf with hf | hf
    · exact ha.1 f hf
    · exact hb.1 f hf
  · rcases List.mem_append.mp hf with hf | hf
    · exact ha.2 f hf
    · exact hb.2 f hf

theorem mono {out : Out} (h : out.All P) (hpq : ∀ f, P f → Q f) : out.All Q :=
  ⟨fun f hf => hpq f (h.1 f hf), fun f hf => hpq f (h.2 f hf)⟩

end Out.All

/-! ## More chunks -/

section Append

variable {chunks : List (List UInt8)} (more : List (List UInt8))

theorem IsData.append {seq : Nat} {payload : List UInt8} (h : IsData chunks seq payload) :
    IsData (chunks ++ more) seq payload := by
  obtain ⟨i, hi, hseq, hpayload⟩ := h
  refine ⟨i, ?_, hseq, ?_⟩
  · rw [List.length_append]
    omega
  · rw [hpayload, getD_append_of_lt more hi]

theorem Boundary.append {bytes : Nat} (h : Boundary chunks bytes) :
    Boundary (chunks ++ more) bytes := by
  obtain ⟨m, hm, hbytes⟩ := h
  refine ⟨m, ?_, ?_⟩
  · rw [List.length_append]
    omega
  · rw [hbytes, offsetAt_append more hm]

theorem Sent.append {f : Frame} (h : Sent chunks f) : Sent (chunks ++ more) f := by
  cases f with
  | data seq payload => exact IsData.append more h
  | directReady bytes nextSeq => exact Boundary.append more h
  | _ => exact trivial

theorem Answered.append {sink : Nat} {f : Frame} (h : Answered chunks sink f) :
    Answered (chunks ++ more) sink f := by
  cases f with
  | ack bytes => exact ⟨Boundary.append more h.1, h.2⟩
  | pathSwitch bytes nextSeq => exact Boundary.append more h
  | _ => exact trivial

end Append

theorem Answered.mono {chunks : List (List UInt8)} {sink sink' : Nat} {f : Frame}
    (h : Answered chunks sink f) (hle : sink ≤ sink') : Answered chunks sink' f := by
  cases f with
  | ack bytes => exact ⟨h.1, Nat.le_trans h.2 hle⟩
  | pathSwitch bytes nextSeq => exact h
  | _ => exact trivial

/-! ## The receiver -/

/-- The sink holds the first `k` chunks. -/
structure RecvAt (chunks : List (List UInt8)) (k : Nat) (r : Receiver) : Prop where
  le : k ≤ chunks.length
  expectedSeq : r.expectedSeq = k + 1
  received : r.received = offsetAt chunks k
  sink : r.sink = (chunks.take k).flatten
  pending : ∀ seq payload, r.pendingFrames.lookup seq = some payload → IsData chunks seq payload

namespace RecvAt

variable {chunks : List (List UInt8)} {k : Nat} {r : Receiver}

theorem append (h : RecvAt chunks k r) (more : List (List UInt8)) : RecvAt (chunks ++ more) k r where
  le := by
    have := h.le
    rw [List.length_append]
    omega
  expectedSeq := h.expectedSeq
  received := by rw [h.received, offsetAt_append more h.le]
  sink := by rw [h.sink, List.take_append_of_le_length h.le]
  pending := fun seq payload hp => (h.pending seq payload hp).append more

theorem length_sink (h : RecvAt chunks k r) : r.sink.length = r.received := by
  rw [h.sink, h.received, offsetAt]

/-- The byte count of the receiver may be acknowledged. -/
theorem answered (h : RecvAt chunks k r) : Answered chunks r.sink.length (.ack r.received) :=
  ⟨⟨k, h.le, h.received⟩, Nat.le_of_eq h.length_sink.symm⟩

theorem ackData (h : RecvAt chunks k r) : r.ackData.All (Answered chunks r.sink.length) := by
  rw [Receiver.ackData]
  split
  · exact Out.All.onDirect h.answered
  · exact Out.All.onRelay h.answered

theorem writeFrame (h : RecvAt chunks k r) {payload : List UInt8}
    (hdata : IsData chunks r.expectedSeq payload) : RecvAt chunks (k + 1) (r.writeFrame payload) := by
  obtain ⟨i, hi, hseq, hpayload⟩ := hdata
  have hik : i = k := by
    have := h.expectedSeq
    omega
  rw [hik] at hi hpayload
  refine ⟨hi, ?_, ?_, ?_, h.pending⟩
  · show r.expectedSeq + 1 = _
    rw [h.expectedSeq]
  · show r.received + payload.length = _
    rw [h.received, hpayload, offsetAt_succ hi]
  · show r.sink ++ payload = _
    rw [h.sink, hpayload, flatten_take_succ hi]

/-- Frames that were put aside are written when it is their turn. -/
theorem drainPending (fuel : Nat) (h : RecvAt chunks k r) :
    ∃ j, k ≤ j ∧ RecvAt chunks j (Receiver.drainPending fuel r) := by
  induction fuel generalizing k r with
  | zero => exact ⟨k, Nat.le_refl k, h⟩
  | succ fuel ih =>
      rw [Receiver.drainPending]
      split
      · exact ⟨k, Nat.le_refl k, h⟩
      · rename_i payload hlookup
        have hout : RecvAt chunks k
            { r with
              pendingFrames := r.pendingFrames.erase r.expectedSeq
              pendingBytes := r.pendingBytes - payload.length } := by
          refine ⟨h.le, h.expectedSeq, h.received, h.sink, fun seq p hp => ?_⟩
          by_cases hseq : seq = r.expectedSeq
          · rw [hseq, AList.lookup_erase] at hp
            cases hp
          · rw [AList.lookup_erase_ne hseq] at hp
            exact h.pending seq p hp
        obtain ⟨j, hj, hat⟩ := ih (hout.writeFrame (h.pending _ _ hlookup))
        exact ⟨j, by omega, hat⟩

/-- The sink only grows. -/
theorem sink_prefix {j : Nat} {r' : Receiver} (h : RecvAt chunks k r) (h' : RecvAt chunks j r')
    (hkj : k ≤ j) : r.sink <+: r'.sink := by
  rw [h.sink, h'.sink]
  exact prefix_flatten (List.take_prefix_take_left hkj)

theorem of_same {r' : Receiver} (h : RecvAt chunks k r)
    (hsame : (r'.expectedSeq, r'.received, r'.sink, r'.pendingFrames) =
      (r.expectedSeq, r.received, r.sink, r.pendingFrames)) : RecvAt chunks k r' := by
  simp only [Prod.mk.injEq] at hsame
  obtain ⟨hseq, hreceived, hsink, hpending⟩ := hsame
  exact ⟨h.le, hseq ▸ h.expectedSeq, hreceived ▸ h.received, hsink ▸ h.sink, hpending ▸ h.pending⟩

end RecvAt

/-- What handling a frame leads to: the sink has grown by whole chunks, and the answers
are no more than it holds. -/
def Handled (chunks : List (List UInt8)) (k : Nat) (result : Receiver × Out) : Prop :=
  ∃ j, k ≤ j ∧ RecvAt chunks j result.1 ∧ result.2.All (Answered chunks result.1.sink.length)

namespace Handled

variable {chunks : List (List UInt8)} {k : Nat} {r : Receiver}

theorem stay (h : RecvAt chunks k r) {out : Out} (hout : out.All (Answered chunks r.sink.length)) :
    Handled chunks k (r, out) :=
  ⟨k, Nat.le_refl k, h, hout⟩

theorem abort (h : RecvAt chunks k r) : Handled chunks k r.abort :=
  ⟨k, Nat.le_refl k, h.of_same rfl, Out.All.onRelay trivial⟩

theorem completeIfDone (h : RecvAt chunks k r) {result : Receiver × Out}
    (hr : r.completeIfDone = some result) : Handled chunks k result ∧ result.1.sink = r.sink := by
  rw [Receiver.completeIfDone] at hr
  split at hr
  · cases hr
  split at hr
  · cases hr
    exact ⟨abort h, rfl⟩
  · cases hr
    exact ⟨⟨k, Nat.le_refl k, h.of_same rfl, Out.All.onRelay h.answered⟩, rfl⟩

theorem data (h : RecvAt chunks k r) {seq : Nat} {payload : List UInt8}
    (hdata : IsData chunks seq payload) : Handled chunks k (r.handleData seq payload) := by
  unfold Receiver.handleData
  split
  · exact abort h
  split
  · exact stay h h.ackData
  split
  · split
    · exact stay h h.ackData
    split
    · exact abort h
    · refine ⟨k, Nat.le_refl k, ⟨h.le, h.expectedSeq, h.received, h.sink, fun s p hp => ?_⟩, h.ackData⟩
      by_cases hs : s = seq
      · have hp' : (r.pendingFrames.insert seq payload).lookup s = some p := hp
        rw [hs, AList.lookup_insert] at hp'
        cases hp'
        rw [hs]
        exact hdata
      · have hp' : (r.pendingFrames.insert seq payload).lookup s = some p := hp
        rw [AList.lookup_insert_ne hs] at hp'
        exact h.pending s p hp'
  · rename_i hge hle
    have hseq : seq = r.expectedSeq := by omega
    obtain ⟨j, hj, hat⟩ := (h.writeFrame (hseq ▸ hdata)).drainPending (r.pendingFrames.entries.length + 1)
    dsimp only
    split
    · exact ⟨j, by omega, hat, hat.ackData⟩
    · rename_i r' out hr
      obtain ⟨⟨i, hi, hat', hout⟩, hsink⟩ := completeIfDone hat hr
      refine ⟨i, by omega, hat', Out.All.append ?_ hout⟩
      exact hat.ackData.mono fun _ hf => by rwa [hsink]

theorem done (h : RecvAt chunks k r) (seq : Nat) : Handled chunks k (r.handleDone seq) := by
  have hat : RecvAt chunks k { r with doneSeen := true, doneSeq := seq } := h.of_same rfl
  unfold Receiver.handleDone
  dsimp only
  split
  · rename_i result hr
    exact (completeIfDone hat hr).1
  · refine stay hat ?_
    split
    · exact Out.All.none
    · exact Out.All.onRelay hat.answered

/-- Handling a frame of the sender. -/
theorem handle (h : RecvAt chunks k r) {f : Frame} (hf : Sent chunks f) :
    Handled chunks k (r.handle f) := by
  cases f with
  | metadata size =>
      rw [Receiver.handle]
      split
      · exact stay h (Out.All.onRelay h.answered)
      · exact ⟨k, Nat.le_refl k, h.of_same rfl,
          Out.All.onRelay ⟨⟨0, Nat.zero_le _, rfl⟩, Nat.zero_le _⟩⟩
  | data seq payload => exact data h hf
  | done seq => exact done h seq
  | directReady bytes nextSeq =>
      rw [Receiver.handle]
      split
      · exact ⟨k, Nat.le_refl k, h.of_same rfl, Out.All.onRelay hf⟩
      · exact stay h Out.All.none
  | abort => exact ⟨k, Nat.le_refl k, h.of_same rfl, Out.All.none⟩
  | ack bytes => exact stay h Out.All.none
  | pathSwitch bytes nextSeq => exact stay h Out.All.none

end Handled

/-! ## The sender -/

/-- The chunks read so far are the file up to the offset, and the window agrees. -/
structure SendInv (file : List UInt8) (s : Sender) : Prop where
  nonempty : ∀ chunk ∈ s.chunks, chunk ≠ []
  read : s.chunks.flatten = file.take s.offset
  offset : s.offset = offsetAt s.chunks s.chunks.length
  le : s.offset ≤ file.length
  seq : s.seq = s.chunks.length + 1
  window : WindowAt s.chunks s.window
  eof : s.eof = true → s.offset = file.length
  ended : s.pc.ended = true → s.eof = true

/-- What one step of the sender leads to, while the sink holds `sink` bytes. -/
structure Stepped (file : List UInt8) (sink : Nat) (s : Sender) (result : Sender × Out) : Prop where
  inv : SendInv file result.1
  chunks : s.chunks <+: result.1.chunks
  sent : result.2.All (Sent result.1.chunks)
  returned : result.1.pc = .returned → s.offset ≤ sink ∧ result.1.offset = s.offset

section Steps

variable {file : List UInt8} {sink : Nat} {s : Sender} {result : Sender × Out}

theorem SendInv.boundary (h : SendInv file s) : Boundary s.chunks s.window.acked := by
  obtain ⟨i, hacked, hframes⟩ := h.window
  exact ⟨i, hframes.le, hacked⟩

/-- The sender moved on and read nothing. -/
theorem SendInv.moved (h : SendInv file s) {s' : Sender} {out : Out}
    (hsame : (s'.offset, s'.seq, s'.eof, s'.chunks) = (s.offset, s.seq, s.eof, s.chunks))
    (hwindow : WindowAt s.chunks s'.window) (hended : s'.pc.ended = true → s.eof = true)
    (hout : out.All (Sent s.chunks)) (hret : s'.pc = .returned → s.offset ≤ sink) :
    Stepped file sink s (s', out) := by
  simp only [Prod.mk.injEq] at hsame
  obtain ⟨hoffset, hseq, heof, hchunks⟩ := hsame
  refine ⟨⟨?_, ?_, ?_, ?_, ?_, ?_, ?_, ?_⟩, ?_, ?_, fun hpc => ⟨hret hpc, hoffset⟩⟩
  · rw [hchunks]
    exact h.nonempty
  · rw [hchunks, hoffset]
    exact h.read
  · rw [hchunks, hoffset]
    exact h.offset
  · rw [hoffset]
    exact h.le
  · rw [hchunks, hseq]
    exact h.seq
  · rw [hchunks]
    exact hwindow
  · rw [heof, hoffset]
    exact h.eof
  · rw [heof]
    exact hended
  · rewrite [hchunks]
    exact List.prefix_rfl
  · rw [hchunks]
    exact hout

/-- An acknowledgement of the receiver, taken into the window. -/
theorem SendInv.ack (h : SendInv file s) {bytes : Nat} (hb : Boundary s.chunks bytes) :
    WindowAt s.chunks (s.window.ack bytes) := by
  obtain ⟨m, hm, rfl⟩ := hb
  exact h.window.ack h.nonempty hm

theorem Sender.Repeats.sent {out : Out} (h : s.Repeats out) (hwindow : WindowAt s.chunks s.window) :
    out.All (Sent s.chunks) := by
  cases h with
  | none => exact Out.All.none
  | abort => exact Out.All.onRelay trivial
  | metadata => exact Out.All.onRelay trivial
  | oldest =>
      rw [Sender.retransmitOldest]
      split
      · exact Out.All.none
      next frame hfirst =>
        obtain ⟨i, -, hframes⟩ := hwindow
        obtain ⟨j, -, hframe⟩ := hframes.mem (List.mem_of_mem_head? hfirst)
        exact Out.All.onRelay ⟨j, hframe.lt, hframe.seq, hframe.payload⟩

/-- A chunk of the file is read and sent. -/
theorem SendInv.chunk (h : SendInv file s) {s' : Sender} {out : Out} {n : Nat} {chunk : List UInt8}
    (hread : Sender.sourceRead file s.offset n = some chunk) (hne : chunk ≠ [])
    (hle : chunk.length ≤ directChunkBytes) (hr : s.readChunk chunk = some (s', out)) :
    Stepped file sink s (s', out) := by
  rw [Sender.sourceRead] at hread
  split at hread
  swap
  · cases hread
  next hn =>
    cases hread
    have hlen : ((file.drop s.offset).take n).length = n := by
      rw [List.length_take, List.length_drop]
      omega
    obtain ⟨rfl, rfl⟩ := Sender.readChunk_eq hne hle hr
    have hended : (if s.directReady then SendPc.filled else SendPc.fill).ended = false := by
      split
      · rfl
      · rfl
    have hdata : Sent (s.chunks ++ [(file.drop s.offset).take n])
        (.data s.seq ((file.drop s.offset).take n)) := by
      refine ⟨s.chunks.length, by simp, h.seq, ?_⟩
      rw [getD_concat]
    have hout : (if s.directActive then Out.onDirect (.data s.seq ((file.drop s.offset).take n))
        else Out.onRelay (.data s.seq ((file.drop s.offset).take n))).All
        (Sent (s.chunks ++ [(file.drop s.offset).take n])) := by
      split
      · exact Out.All.onDirect hdata
      · exact Out.All.onRelay hdata
    refine ⟨⟨fun c hc => ?_, ?_, ?_, ?_, ?_, ?_, fun he => ?_, fun hp => ?_⟩,
      List.prefix_append _ _, ?_, fun hp => ?_⟩
    · rcases List.mem_append.mp hc with hc | hc
      · exact h.nonempty c hc
      · rw [List.mem_singleton.mp hc]
        exact hne
    · show (s.chunks ++ [_]).flatten = file.take (s.offset + _)
      rw [List.flatten_append, h.read, hlen, List.take_add]
      simp
    · show s.offset + _ = _
      rw [List.length_append, List.length_singleton, offsetAt_succ (by simp),
        offsetAt_append _ (Nat.le_refl _), getD_concat, h.offset]
    · show s.offset + _ ≤ _
      rw [hlen]
      exact hn.1
    · show s.seq + 1 = _
      rw [h.seq, List.length_append, List.length_singleton]
    · show WindowAt _ ((s.window.push _).markSent s.seq)
      rw [h.offset, h.seq]
      exact h.window.push _
    · have hend := h.eof he
      have hz : n = 0 := by
        have := hn.1
        omega
      rw [hz, List.take_zero] at hne
      exact absurd rfl hne
    · have hp' : (if s.directReady then SendPc.filled else SendPc.fill).ended = true := hp
      rw [hended] at hp'
      cases hp'
    · exact hout
    · have hp' : (if s.directReady then SendPc.filled else SendPc.fill) = .returned := hp
      rw [hp'] at hended
      cases hended

/-- The frames that are replayed count as acknowledged one after the other. -/
theorem SendInv.replayed {chunks : List (List UInt8)} (hne : ∀ chunk ∈ chunks, chunk ≠ [])
    {frames : List RelayFrame} (hframes : ∀ frame ∈ frames, ∃ i, IsFrame chunks i frame)
    {w : RelayWindow} (hw : WindowAt chunks w) :
    WindowAt chunks (frames.foldl (fun w frame => w.ack frame.nextOffset) w) := by
  induction frames generalizing w with
  | nil => exact hw
  | cons frame frames ih =>
      obtain ⟨i, hframe⟩ := hframes frame List.mem_cons_self
      refine ih (fun f hf => hframes f (List.mem_cons_of_mem _ hf)) ?_
      show WindowAt chunks (w.ack frame.nextOffset)
      rw [hframe.nextOffset]
      exact hw.ack hne hframe.lt

/-- The receiver has taken the offer, and the frames behind what it has are sent again. -/
theorem SendInv.switched (h : SendInv file s) {s' : Sender} {out : Out} {bytes nextSeq : Nat}
    (hseq : nextSeq ≤ s.seq) (hbytes : Boundary s.chunks bytes)
    (hr : s.trySwitch (.pathSwitch bytes nextSeq) = some (s', out)) : Stepped file sink s (s', out) := by
  obtain ⟨rfl, rfl⟩ := Sender.trySwitch_eq hseq hr
  obtain ⟨m, hm, hstart⟩ : Boundary s.chunks (max bytes s.window.acked) := by
    rcases Nat.le_total bytes s.window.acked with hle | hle
    · rw [Nat.max_eq_right hle]
      exact h.boundary
    · rw [Nat.max_eq_left hle]
      exact hbytes
  obtain ⟨i, hframes⟩ := h.window.replayFrom h.nonempty hm
  rw [← hstart] at hframes
  have hmem : ∀ frame ∈ s.replayed bytes, ∃ j, IsFrame s.chunks j frame := by
    intro frame hframe
    obtain ⟨j, -, hj⟩ := hframes.mem hframe
    exact ⟨j, hj⟩
  obtain ⟨k, hacked, hleft⟩ := SendInv.replayed h.nonempty hmem h.window
  refine h.moved rfl ⟨k, hacked, hleft⟩ nofun ⟨nofun, fun f hf => ?_⟩ nofun
  obtain ⟨frame, hframe, rfl⟩ := List.mem_map.mp hf
  obtain ⟨j, hj⟩ := hmem frame hframe
  exact ⟨j, hj.lt, hj.seq, hj.payload⟩

/-- One step of the sender. -/
theorem SendInv.step (h : SendInv file s) {l : SendLabel}
    (hf : ∀ f, l = .relayFrame f ∨ l = .directFrame f → Answered s.chunks sink f)
    (hr : s.step file l = some result) : Stepped file sink s result := by
  obtain ⟨s', out⟩ := result
  cases Sender.sendStep hr with
  | quiet hpc hpc' hkept hwindow hout =>
      have hacked : WindowAt s.chunks s'.window := by
        obtain hsame | ⟨bytes, hl, hack⟩ := hwindow
        · rw [hsame]
          exact h.window
        · rw [hack]
          exact h.ack (hf _ hl).1
      have hsent : out.All (Sent s'.chunks) := hout.sent (hkept.chunks ▸ hacked)
      rw [hkept.chunks] at hsent
      refine h.moved ?_ hacked (fun hp => ?_) hsent fun hp => ?_
      · rw [hkept.offset, hkept.seq, hkept.eof, hkept.chunks]
      · rw [hpc'] at hp
        cases hp
      · rw [hp] at hpc'
        cases hpc'
  | failed hout => exact h.moved rfl h.window nofun (hout.sent h.window) nofun
  | eof hpc hend =>
      exact ⟨⟨h.nonempty, h.read, h.offset, h.le, h.seq, h.window, fun _ => hend, nofun⟩, List.prefix_rfl,
        Out.All.none, nofun⟩
  | chunk hpc hfilled hread hne hle hr => exact h.chunk hread hne hle hr
  | offered => exact h.moved rfl h.window nofun (Out.All.onRelay h.boundary) nofun
  | switched hpc hl hseq hr => exact h.switched hseq (hf _ (.inl hl)) hr
  | finished hpc heof hempty hr =>
      obtain ⟨rfl, rfl⟩ := Sender.finish_eq hr
      refine h.moved rfl h.window (fun _ => heof) ?_ fun hp => ?_
      · split
        · exact Out.All.onDirect trivial
        · exact Out.All.onRelay trivial
      · have hp' : (if s.directActive then SendPc.doneDirect else .done) = .returned := hp
        split at hp' <;> cases hp'
  | closing hpc hout =>
      refine h.moved rfl h.window h.ended ?_ fun hp => ?_
      · rcases hout with rfl | rfl
        · exact Out.All.none
        · exact Out.All.onRelay trivial
      · rcases hpc with hpc | hpc
        · cases hpc.symm.trans hp
        · cases hpc.symm.trans hp
  | returned hpc hl hle =>
      refine h.moved rfl h.window (fun _ => h.ended ?_) Out.All.none fun _ => ?_
      · rcases hpc with hpc | hpc
        · rw [hpc]
          rfl
        · rw [hpc]
          rfl
      · exact Nat.le_trans hle (hf _ (.inl hl)).2

end Steps

/-! ## Both parties -/

/-- The invariant of a transfer. -/
structure Inv (file : List UInt8) (t : Transfer) : Prop where
  sender : SendInv file t.sender
  sent : t.sent.All (Sent t.sender.chunks)
  receiver : t.receiver.status = .running → ∃ k, RecvAt t.sender.chunks k t.receiver
  sink : t.receiver.sink <+: t.sender.chunks.flatten
  answered : t.answered.All (Answered t.sender.chunks t.receiver.sink.length)
  returned : t.sender.pc = .returned → t.sender.offset ≤ t.receiver.sink.length

namespace Inv

variable {file : List UInt8} {t t' : Transfer}

theorem init (size : Int) (senderDirect receiverDirect : Bool) :
    Inv file (Transfer.init size senderDirect receiverDirect) where
  sender := ⟨fun _ hc => (by cases hc), rfl, rfl, Nat.zero_le _, rfl, WindowAt.new _ _,
    fun h => (by cases h), fun h => (by cases h)⟩
  sent := Out.All.onRelay trivial
  receiver := fun _ => ⟨0, Nat.le_refl 0, rfl, rfl, rfl, fun _ _ h => (by cases h)⟩
  sink := List.prefix_rfl
  answered := Out.All.none
  returned := fun h => by cases h

/-- A frame that the sender can read is one the receiver answered. -/
theorem answered_of_readable (h : Inv file t) {l : SendLabel} {f : Frame}
    (hl : l = .relayFrame f ∨ l = .directFrame f) (hread : t.readable l = true) :
    Answered t.sender.chunks t.receiver.sink.length f := by
  rcases hl with rfl | rfl
  · exact h.answered.1 f (List.contains_iff_mem.mp hread)
  · rw [Transfer.readable, Bool.and_eq_true] at hread
    exact h.answered.2 f (List.contains_iff_mem.mp hread.2)

theorem send (h : Inv file t) {l : SendLabel} (hs : t.step file (.send l) = some t') : Inv file t' := by
  rw [Transfer.step] at hs
  split at hs
  · rename_i hread
    obtain ⟨⟨s, out⟩, hr, heq⟩ := Option.map_eq_some_iff.mp hs
    cases heq
    have hstep := h.sender.step (fun f hl => h.answered_of_readable hl hread) hr
    obtain ⟨more, hmore⟩ := hstep.chunks
    refine ⟨hstep.inv, Out.All.append ?_ hstep.sent, fun hrun => ?_, ?_, ?_, fun hpc => ?_⟩
    · exact h.sent.mono fun f hf => hmore ▸ hf.append more
    · obtain ⟨k, hk⟩ := h.receiver hrun
      exact ⟨k, hmore ▸ hk.append more⟩
    · exact h.sink.trans (prefix_flatten hstep.chunks)
    · exact h.answered.mono fun f hf => hmore ▸ hf.append more
    · obtain ⟨hle, heq⟩ := hstep.returned hpc
      exact heq ▸ hle
  · cases hs

/-- A frame that the receiver can read is one the sender sent. -/
theorem sent_of_deliverable (h : Inv file t) {f : Frame} (hf : t.deliverable f = true) :
    Sent t.sender.chunks f := by
  rw [Transfer.deliverable, Bool.or_eq_true, Bool.and_eq_true] at hf
  rcases hf with hf | hf
  · exact h.sent.1 f (List.contains_iff_mem.mp hf)
  · exact h.sent.2 f (List.contains_iff_mem.mp hf.2)

theorem deliver (h : Inv file t) {f : Frame} (hs : t.step file (.deliver f) = some t') :
    Inv file t' := by
  rw [Transfer.step] at hs
  split at hs
  · rename_i hg
    cases hs
    obtain ⟨k, hk⟩ := h.receiver hg.1
    obtain ⟨j, hkj, hj, hout⟩ := Handled.handle hk (h.sent_of_deliverable hg.2)
    have hgrow := (hk.sink_prefix hj hkj).length_le
    refine ⟨h.sender, h.sent, fun _ => ⟨j, hj⟩, ?_, Out.All.append ?_ hout, fun hpc => ?_⟩
    · show (t.receiver.handle f).1.sink <+: _
      rw [hj.sink]
      exact prefix_flatten (List.take_prefix _ _)
    · exact h.answered.mono fun f hf => hf.mono hgrow
    · exact Nat.le_trans (h.returned hpc) hgrow
  · cases hs

theorem sinkFails (h : Inv file t) {f : Frame} {n : Nat}
    (hs : t.step file (.sinkFails f n) = some t') : Inv file t' := by
  rw [Transfer.step] at hs
  split at hs
  · rename_i hg
    cases hs
    obtain ⟨k, hk⟩ := h.receiver hg.1
    obtain ⟨j, hkj, hj, -⟩ := Handled.handle hk (h.sent_of_deliverable hg.2.1)
    have hgrow : t.receiver.sink.length ≤ ((t.receiver.handle f).1.sink.take n).length := by
      have := (hk.sink_prefix hj hkj).length_le
      rw [List.length_take]
      omega
    refine ⟨h.sender, h.sent, fun hrun => (by cases hrun), ?_, Out.All.append ?_ (Out.All.onRelay trivial),
      fun hpc => ?_⟩
    · show (t.receiver.handle f).1.sink.take n <+: _
      refine (List.take_prefix _ _).trans ?_
      rw [hj.sink]
      exact prefix_flatten (List.take_prefix _ _)
    · exact h.answered.mono fun f hf => hf.mono hgrow
    · exact Nat.le_trans (h.returned hpc) hgrow
  · cases hs

theorem step (h : Inv file t) {l : Label} (hs : t.step file l = some t') : Inv file t' := by
  cases l with
  | send l => exact h.send hs
  | deliver f => exact h.deliver hs
  | sinkFails f n => exact h.sinkFails hs
  | stop =>
      rw [Transfer.step] at hs
      split at hs
      · cases hs
        exact ⟨h.sender, h.sent, fun hrun => (by cases hrun), h.sink, h.answered, h.returned⟩
      · cases hs

/-- What was read is a prefix of the file, and so is the sink. -/
theorem sink_prefix (h : Inv file t) : t.receiver.sink <+: file :=
  h.sink.trans (h.sender.read ▸ List.take_prefix _ _)

end Inv

/-- In every run of a transfer the sink holds a prefix of the file, and `Offer.send`
returns without an error only when it holds all of it. -/
theorem web_relay_integrity (file : List UInt8) (size : Int) (senderDirect receiverDirect : Bool)
    (ls : List Label) (t : Transfer)
    (hrun : runFrom (Transfer.step file)
      (Transfer.init size senderDirect receiverDirect) ls = some t) :
    t.receiver.sink <+: file ∧ (t.sender.pc = .returned → t.receiver.sink = file) := by
  have h := runFrom_invariant (I := Inv file) (fun _ _ _ h hs => h.step hs) ls (Inv.init _ _ _) hrun
  refine ⟨h.sink_prefix, fun hpc => h.sink_prefix.eq_of_length_le ?_⟩
  have hend := h.sender.eof (h.sender.ended (by rw [hpc]; rfl))
  rw [← hend]
  exact h.returned hpc

/-- Three chunks: the second overtakes the first, and the third goes over the direct
path. -/
def exampleRun : List Label :=
  [.deliver (.metadata 6), .send (.relayFrame (.ack 0)), .send (.poll .quiet), .send (.read 2),
    .send (.read 2), .send (.read 2), .deliver (.data 2 [3, 4]), .deliver (.data 1 [1, 2]),
    .send (.read 0), .send (.poll .ready), .send (.relayFrame (.ack 4)), .send (.poll .quiet),
    .send .next, .deliver (.directReady 4 3), .send (.relayFrame (.pathSwitch 4 3)),
    .deliver (.data 3 [5, 6]), .send .next, .deliver (.done 4), .send (.relayFrame (.ack 6))]

theorem web_relay_integrity_switched :
    ∃ t, runFrom (Transfer.step [1, 2, 3, 4, 5, 6]) (Transfer.init 6 true true) exampleRun = some t ∧
      t.sender.pc = .returned ∧ t.receiver.sink = [1, 2, 3, 4, 5, 6] := by
  have h : (runFrom (Transfer.step [1, 2, 3, 4, 5, 6]) (Transfer.init 6 true true) exampleRun).any
      (fun t => decide (t.sender.pc = .returned)) = true := by decide +kernel
  obtain ⟨t, hrun, ht⟩ := (Option.any_eq_true ..).mp h
  have hpc := of_decide_eq_true ht
  exact ⟨t, hrun, hpc, (web_relay_integrity _ _ _ _ _ t hrun).2 hpc⟩

end WebRelay
