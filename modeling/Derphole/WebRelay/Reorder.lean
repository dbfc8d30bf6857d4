import Derphole.WebRelay.Integrity

/-!
# Frames put aside

The receiver puts data frames aside that arrive ahead of their turn, and aborts when there are too
many of them or their bytes are.  The sender keeps what is not acknowledged within its window, and the
limits of the receiver are no smaller than those of the window.

All that the receiver puts aside lies between what it has written and what was sent.  So it stays
within the limits as long as the window starts no later than the receiver stands.  Acknowledgements
keep it so; the switch to the direct path does not, since the frames that it sends again count as
acknowledged.  If the receiver has them all by then, no frame is ever one too many
(`no_spurious_abort`).
-/

namespace WebRelay

open Lib

/-! ## The window -/

/-- The window has these limits, and what is in flight lies within the frames and `limitBytes`. -/
structure RelayWindow.Fits (w : RelayWindow) (limitFrames windowBytes limitBytes : Nat) : Prop where
  maxFrames : w.maxFrames = limitFrames
  maxBytes : w.maxBytes = windowBytes
  inFlight : w.inFlight = (w.frames.map fun frame => frame.payload.length).sum
  frames : w.frames.length ≤ limitFrames
  bytes : w.inFlight ≤ limitBytes

theorem trimRelayFramePrefix_length (frame : RelayFrame) (n : Nat) :
    (trimRelayFramePrefix frame n).payload.length ≤ frame.payload.length := by
  rw [trimRelayFramePrefix]
  split
  · exact Nat.le_refl _
  split
  · exact Nat.zero_le _
  · show (frame.payload.drop n).length ≤ _
    rw [List.length_drop]
    omega

theorem framesPast_length (offset : Nat) (frames : List RelayFrame) :
    (framesPast offset frames).length ≤ frames.length := by
  induction frames with
  | nil => exact Nat.le_refl _
  | cons frame frames ih =>
      rw [framesPast]
      split
      · exact Nat.le_succ_of_le ih
      · exact Nat.succ_le_succ ih

theorem framesPast_sum (offset : Nat) (frames : List RelayFrame) :
    ((framesPast offset frames).map fun frame => frame.payload.length).sum ≤
      (frames.map fun frame => frame.payload.length).sum := by
  induction frames with
  | nil => exact Nat.le_refl _
  | cons frame frames ih =>
      rw [framesPast]
      split
      · rw [List.map_cons, List.sum_cons]
        omega
      · have htrim := trimRelayFramePrefix_length frame (offset - frame.offset)
        simp only [List.map_cons, List.sum_cons]
        split
        · omega
        · omega

theorem length_markSent (seq : Nat) (frames : List RelayFrame) :
    (markSent seq frames).length = frames.length := by
  have hmap := congrArg List.length (markSent_map (fun _ => ()) (fun _ => rfl) seq frames)
  rwa [List.length_map, List.length_map] at hmap

namespace RelayWindow.Fits

variable {w : RelayWindow} {limitFrames windowBytes limitBytes : Nat}

theorem ack (h : w.Fits limitFrames windowBytes limitBytes) (bytes : Nat) :
    (w.ack bytes).Fits limitFrames windowBytes limitBytes := by
  rw [RelayWindow.ack]
  split
  · exact h
  · refine ⟨h.maxFrames, h.maxBytes, rfl, ?_, ?_⟩
    · exact Nat.le_trans (framesPast_length bytes w.frames) h.frames
    · have hsum := framesPast_sum bytes w.frames
      rw [← h.inFlight] at hsum
      exact Nat.le_trans hsum h.bytes

theorem replay (h : w.Fits limitFrames windowBytes limitBytes) (frames : List RelayFrame) :
    (frames.foldl (fun w frame => w.ack frame.nextOffset) w).Fits limitFrames windowBytes limitBytes := by
  induction frames generalizing w with
  | nil => exact h
  | cons frame frames ih => exact ih (h.ack frame.nextOffset)

theorem push (h : w.Fits limitFrames windowBytes limitBytes) {payloadBytes : Nat} {frame : RelayFrame}
    (hroom : w.canSend payloadBytes = true)
    (hlimit : windowBytes + frame.payload.length ≤ limitBytes + payloadBytes) (seq : Nat) :
    ((w.push frame).markSent seq).Fits limitFrames windowBytes limitBytes := by
  rw [RelayWindow.canSend, Bool.and_eq_true, decide_eq_true_eq, decide_eq_true_eq] at hroom
  obtain ⟨hframes, hbytes⟩ := hroom
  rw [h.maxFrames] at hframes
  rw [h.maxBytes] at hbytes
  refine ⟨h.maxFrames, h.maxBytes, ?_, ?_, ?_⟩
  · show w.inFlight + frame.payload.length = ((WebRelay.markSent seq (w.frames ++ [frame])).map _).sum
    rw [markSent_map _ (fun _ => rfl), List.map_append, List.sum_append, h.inFlight]
    simp
  · show (WebRelay.markSent seq (w.frames ++ [frame])).length ≤ _
    rw [length_markSent, List.length_append, List.length_singleton]
    omega
  · show w.inFlight + frame.payload.length ≤ _
    omega

end RelayWindow.Fits

/-- The window of the sender fits the limits of the receiver, which are the larger ones when the
sender uses the direct path. -/
def Sender.Fits (s : Sender) (receiverActive : Bool) : Prop :=
  s.window.Fits relayWindowFrames relayWindowBytes maxPendingBytes ∨
    s.directActive = true ∧ receiverActive = true ∧
      s.window.Fits maxDirectPendingFrames maxDirectPendingBytes maxDirectPendingBytes

/-! ## What is put aside -/

/-- The frames put aside have numbers from `lo` on, and their bytes are counted. -/
structure PendingFrom (chunks : List (List UInt8)) (lo : Nat) (r : Receiver) : Prop where
  ahead : ∀ seq ∈ r.pendingFrames.keys, lo ≤ seq
  bytes : r.pendingBytes =
    (r.pendingFrames.keys.map fun seq => (chunks.getD (seq - 1) []).length).sum

section

variable {chunks : List (List UInt8)} {k lo : Nat} {r : Receiver}

theorem mem_keys_of_lookup {m : Map Nat (List UInt8)} {seq : Nat} {payload : List UInt8}
    (h : m.lookup seq = some payload) : seq ∈ m.keys := by
  rw [← AList.mem_keys]
  exact AList.lookup_isSome.mp (by rw [h]; rfl)

theorem keys_insert_of_lookup {m : Map Nat (List UInt8)} {seq : Nat} (payload : List UInt8)
    (h : m.lookup seq = none) : (m.insert seq payload).keys = seq :: m.keys := by
  have hnot : seq ∉ m := AList.lookup_eq_none.mp h
  rw [AList.keys_insert, List.erase_of_not_mem (by rwa [← AList.mem_keys])]

theorem IsData.payload_eq {seq : Nat} {payload : List UInt8} (h : IsData chunks seq payload) :
    payload = chunks.getD (seq - 1) [] := by
  obtain ⟨i, -, rfl, rfl⟩ := h
  rw [Nat.add_sub_cancel]

theorem IsData.le {seq : Nat} {payload : List UInt8} (h : IsData chunks seq payload) :
    seq ≤ chunks.length := by
  obtain ⟨i, hi, rfl, -⟩ := h
  exact hi

/-- A frame put aside was sent. -/
theorem RecvAt.pending_le (h : RecvAt chunks k r) {seq : Nat} (hseq : seq ∈ r.pendingFrames.keys) :
    seq ≤ chunks.length := by
  rw [← AList.mem_keys, ← AList.lookup_isSome] at hseq
  obtain ⟨payload, hp⟩ := Option.isSome_iff_exists.mp hseq
  exact (h.pending seq payload hp).le

theorem PendingFrom.append (h : PendingFrom chunks lo r) (hat : RecvAt chunks k r)
    (hlo : 0 < lo) (more : List (List UInt8)) : PendingFrom (chunks ++ more) lo r where
  ahead := h.ahead
  bytes := by
    rw [h.bytes]
    congr 1
    apply List.map_congr_left
    intro seq hseq
    have hle := hat.pending_le hseq
    have hge := h.ahead seq hseq
    rw [getD_append_of_lt more (by omega)]

theorem PendingFrom.insert (h : PendingFrom chunks lo r) {seq : Nat} {payload : List UInt8}
    (hdata : IsData chunks seq payload) (hlo : lo ≤ seq) (hnew : r.pendingFrames.lookup seq = none) :
    PendingFrom chunks lo
      { r with
        pendingFrames := r.pendingFrames.insert seq payload
        pendingBytes := r.pendingBytes + payload.length } := by
  have hkeys := keys_insert_of_lookup payload hnew
  refine ⟨?_, ?_⟩
  · intro seq' hseq'
    rw [hkeys, List.mem_cons] at hseq'
    rcases hseq' with rfl | hold
    · exact hlo
    · exact h.ahead seq' hold
  · rw [hkeys, List.map_cons, List.sum_cons, ← hdata.payload_eq, ← h.bytes]
    exact Nat.add_comm _ _

/-- The next frame is taken out. -/
theorem PendingFrom.erase (h : PendingFrom chunks r.expectedSeq r) {payload : List UInt8}
    (hdata : IsData chunks r.expectedSeq payload)
    (hold : r.pendingFrames.lookup r.expectedSeq = some payload) :
    PendingFrom chunks (r.expectedSeq + 1)
        { r with
          pendingFrames := r.pendingFrames.erase r.expectedSeq
          pendingBytes := r.pendingBytes - payload.length } ∧
      (r.pendingFrames.erase r.expectedSeq).keys.length + 1 = r.pendingFrames.keys.length := by
  have hmem := mem_keys_of_lookup hold
  have hsum := List.sum_map_erase (fun seq => (chunks.getD (seq - 1) []).length) hmem
  refine ⟨⟨?_, ?_⟩, ?_⟩
  · intro seq hseq
    rw [AList.keys_erase, r.pendingFrames.keys_nodup.mem_erase_iff] at hseq
    have := h.ahead seq hseq.2
    omega
  · rw [AList.keys_erase, h.bytes, ← hsum, ← hdata.payload_eq, Nat.add_sub_cancel_left]
  · rw [AList.keys_erase]
    exact List.length_erase_add_one hmem

/-- The loop ends when the next frame is missing: there is a round for every frame put aside. -/
theorem PendingFrom.drainPending (fuel : Nat) (h : PendingFrom chunks r.expectedSeq r)
    (hat : RecvAt chunks k r) (hfuel : r.pendingFrames.keys.length < fuel) :
    PendingFrom chunks ((Receiver.drainPending fuel r).expectedSeq + 1)
      (Receiver.drainPending fuel r) := by
  induction fuel generalizing k r with
  | zero => exact absurd hfuel (Nat.not_lt_zero _)
  | succ fuel ih =>
      rw [Receiver.drainPending]
      split
      next hnone =>
        refine ⟨?_, h.bytes⟩
        intro seq hseq
        have hne : seq ≠ r.expectedSeq := by
          rintro rfl
          rw [← AList.mem_keys] at hseq
          exact AList.lookup_eq_none.mp hnone hseq
        have := h.ahead seq hseq
        omega
      next payload hsome =>
        have hdata := hat.pending _ _ hsome
        obtain ⟨herased, hlength⟩ := h.erase hdata hsome
        have hout : RecvAt chunks k
            { r with
              pendingFrames := r.pendingFrames.erase r.expectedSeq
              pendingBytes := r.pendingBytes - payload.length } :=
          ⟨hat.le, hat.expectedSeq, hat.received, hat.sink, Map.All.erase hat.pending _⟩
        refine ih ⟨herased.ahead, herased.bytes⟩ (hout.writeFrame hdata) ?_
        show (r.pendingFrames.erase r.expectedSeq).keys.length < fuel
        omega

/-- Handling a frame keeps what is put aside ahead of its turn. -/
theorem PendingFrom.handle (h : PendingFrom chunks (r.expectedSeq + 1) r) (hat : RecvAt chunks k r)
    {f : Frame} (hf : Sent chunks f) :
    PendingFrom chunks ((r.handle f).1.expectedSeq + 1) (r.handle f).1 := by
  cases f with
  | metadata declared =>
      rw [Receiver.handle]
      split
      · exact h
      · exact ⟨h.ahead, h.bytes⟩
  | data seq payload =>
      rw [Receiver.handle]
      unfold Receiver.handleData
      split
      · exact ⟨h.ahead, h.bytes⟩
      split
      · exact h
      split
      next hahead =>
        split
        · exact h
        next hnone =>
          split
          · exact ⟨h.ahead, h.bytes⟩
          · exact h.insert hf hahead hnone
      next hge hle =>
        have hseq : seq = r.expectedSeq := by omega
        have hwritten := hat.writeFrame (hseq ▸ hf)
        have hdrained : PendingFrom chunks _ _ :=
          PendingFrom.drainPending (r.pendingFrames.entries.length + 1) (r := r.writeFrame payload)
            ⟨h.ahead, h.bytes⟩ hwritten (by simp [Receiver.writeFrame, AList.keys, List.keys])
        dsimp only
        split
        · exact hdrained
        next r' out hsome =>
          obtain ⟨status, rfl⟩ := Receiver.completeIfDone_eq hsome
          exact ⟨hdrained.ahead, hdrained.bytes⟩
  | done seq =>
      rw [Receiver.handle, Receiver.handleDone]
      dsimp only
      split
      next result hsome =>
        obtain ⟨status, hr'⟩ := Receiver.completeIfDone_eq hsome
        rw [hr']
        exact ⟨h.ahead, h.bytes⟩
      next => exact ⟨h.ahead, h.bytes⟩
  | directReady bytes nextSeq =>
      rw [Receiver.handle]
      split
      · exact ⟨h.ahead, h.bytes⟩
      · exact h
  | abort => exact ⟨h.ahead, h.bytes⟩
  | ack bytes => exact h
  | pathSwitch bytes nextSeq => exact h

/-- There is room for one more frame when all that was sent beyond the receiver lies within the
limits. -/
theorem PendingFrom.not_tooMany (h : PendingFrom chunks (r.expectedSeq + 1) r)
    (hat : RecvAt chunks k r) {seq : Nat} {payload : List UInt8} (hdata : IsData chunks seq payload)
    (hahead : r.expectedSeq < seq) (hnew : r.pendingFrames.lookup seq = none)
    {limitFrames limitBytes : Nat}
    (hframes : chunks.length ≤ k + limitFrames)
    (hbytes : offsetAt chunks chunks.length ≤ offsetAt chunks k + limitBytes) :
    r.pendingFrames.entries.length < limitFrames ∧ r.pendingBytes + payload.length ≤ limitBytes := by
  -- the new frame and those put aside are different frames after the next one
  have hinsert := h.insert hdata hahead hnew
  have hkeys := keys_insert_of_lookup payload hnew
  have hrange : ∀ s ∈ (r.pendingFrames.insert seq payload).keys, k + 1 < s ∧ s ≤ chunks.length := by
    intro s hs
    have hge := hinsert.ahead s hs
    have hexp := hat.expectedSeq
    refine ⟨by omega, ?_⟩
    rw [hkeys, List.mem_cons] at hs
    rcases hs with rfl | hold
    · exact hdata.le
    · exact hat.pending_le hold
  have hle : k + 1 ≤ chunks.length := by
    have := (hrange seq (by rw [hkeys]; exact List.mem_cons_self)).1
    have := hdata.le
    omega
  constructor
  · have hcount := length_pieces_le (r.pendingFrames.insert seq payload).keys_nodup hle hrange
    rw [hkeys, List.length_cons] at hcount
    have hlen : r.pendingFrames.keys.length = r.pendingFrames.entries.length := by
      simp [AList.keys, List.keys]
    omega
  · have hsum := sum_pieces_le chunks (r.pendingFrames.insert seq payload).keys_nodup hle hrange
    have heq : r.pendingBytes + payload.length =
        ((r.pendingFrames.insert seq payload).keys.map fun seq =>
          (chunks.getD (seq - 1) []).length).sum := hinsert.bytes
    have hmono := offsetAt_mono chunks (Nat.le_add_right k 1) hle
    omega

end

/-- How much the receiver may put aside. -/
def Receiver.limitFrames (r : Receiver) : Nat :=
  if r.directActive then maxDirectPendingFrames else maxPendingFrames

def Receiver.limitBytes (r : Receiver) : Nat :=
  if r.directActive then maxDirectPendingBytes else maxPendingBytes

section

variable {r : Receiver} {f : Frame}

theorem Receiver.tooMany_iff {payload : List UInt8} : r.tooMany payload = true ↔
    r.limitFrames ≤ r.pendingFrames.entries.length ∨
      r.limitBytes < r.pendingBytes + payload.length := by
  simp [Receiver.tooMany, Receiver.limitFrames, Receiver.limitBytes]

/-- The receiver stays with the direct path. -/
theorem Receiver.handle_directActive (h : r.directActive = true) :
    (r.handle f).1.directActive = true := by
  cases f with
  | metadata declared =>
      rw [Receiver.handle]
      split
      · exact h
      · exact h
  | data seq payload =>
      obtain ⟨_, _, _, _, _, _, hkept⟩ := r.handleData_eq seq payload
      rw [Receiver.handle, hkept]
      exact h
  | done seq =>
      rw [Receiver.handle, Receiver.handleDone]
      dsimp only
      split
      next result hsome =>
        obtain ⟨status, hr'⟩ := Receiver.completeIfDone_eq hsome
        rw [hr']
        exact h
      next => exact h
  | directReady bytes nextSeq =>
      rw [Receiver.handle]
      split
      · rfl
      · exact h
  | abort => exact h
  | ack bytes => exact h
  | pathSwitch bytes nextSeq => exact h

theorem Receiver.pathSwitch_notMem_ackData (bytes nextSeq : Nat) :
    .pathSwitch bytes nextSeq ∉ r.ackData.relay := by
  rw [Receiver.ackData]
  split <;> simp [Out.onRelay, Out.onDirect]

theorem Receiver.pathSwitch_notMem_completeIfDone {r' : Receiver} {out : Out}
    (h : r.completeIfDone = some (r', out)) (bytes nextSeq : Nat) :
    .pathSwitch bytes nextSeq ∉ out.relay := by
  rw [Receiver.completeIfDone] at h
  split at h
  · cases h
  split at h
  · cases h
    simp [Out.onRelay]
  · cases h
    simp [Out.onRelay]

/-- It agrees to a switch only when it uses the direct path itself. -/
theorem Receiver.handle_pathSwitch {bytes nextSeq : Nat}
    (h : .pathSwitch bytes nextSeq ∈ (r.handle f).2.relay) : (r.handle f).1.directActive = true := by
  have hack := r.pathSwitch_notMem_ackData bytes nextSeq
  cases f with
  | metadata declared =>
      rw [Receiver.handle] at h
      split at h <;> simp [Out.onRelay] at h
  | data seq payload =>
      exfalso
      rw [Receiver.handle] at h
      unfold Receiver.handleData at h
      split at h
      · simp [Receiver.abort, Out.onRelay] at h
      split at h
      · exact hack h
      split at h
      · split at h
        · exact hack h
        split at h
        · simp [Receiver.abort, Out.onRelay] at h
        · exact hack h
      · dsimp only at h
        split at h
        · exact Receiver.pathSwitch_notMem_ackData bytes nextSeq h
        next hsome =>
          rcases List.mem_append.mp h with h | h
          · exact Receiver.pathSwitch_notMem_ackData bytes nextSeq h
          · exact Receiver.pathSwitch_notMem_completeIfDone hsome bytes nextSeq h
  | done seq =>
      exfalso
      rw [Receiver.handle, Receiver.handleDone] at h
      dsimp only at h
      split at h
      next result hsome => exact Receiver.pathSwitch_notMem_completeIfDone hsome bytes nextSeq h
      next => split at h <;> simp [Out.none, Out.onRelay] at h
  | directReady ready next =>
      rw [Receiver.handle] at h ⊢
      split at h
      next hready => rw [if_pos hready]
      next => cases h
  | abort => cases h
  | ack bytes => cases h
  | pathSwitch bytes nextSeq => cases h

end

/-! ## The sender -/

section

variable {file : List UInt8} {chunks : List (List UInt8)} {s s' : Sender} {l : SendLabel} {out : Out}

/-- What a window holds, by the chunks. -/
theorem FramesFrom.length_add {i : Nat} {frames : List RelayFrame} (h : FramesFrom chunks i frames) :
    frames.length + i = chunks.length := by
  induction frames generalizing i with
  | nil =>
      have hi : i = chunks.length := h
      rw [hi, List.length_nil, Nat.zero_add]
  | cons frame frames ih =>
      have := ih h.2
      rw [List.length_cons]
      omega

theorem FramesFrom.sum_add {i : Nat} {frames : List RelayFrame} (h : FramesFrom chunks i frames) :
    (frames.map fun frame => frame.payload.length).sum + offsetAt chunks i =
      offsetAt chunks chunks.length := by
  induction frames generalizing i with
  | nil =>
      have hi : i = chunks.length := h
      rw [hi, List.map_nil, List.sum_nil, Nat.zero_add]
  | cons frame frames ih =>
      have hrest := ih h.2
      rw [offsetAt_succ h.1.lt, ← h.1.payload] at hrest
      rw [List.map_cons, List.sum_cons]
      omega

/-- The acknowledged watermark after the frames of a switch: at most all that was read. -/
theorem acked_replay {bound : Nat} (frames : List RelayFrame)
    (hframes : ∀ frame ∈ frames, frame.nextOffset ≤ bound) {w : RelayWindow} (hw : w.acked ≤ bound) :
    (frames.foldl (fun w frame => w.ack frame.nextOffset) w).acked ≤ bound := by
  induction frames generalizing w with
  | nil => exact hw
  | cons frame frames ih =>
      refine ih (fun f hf => hframes f (List.mem_cons_of_mem _ hf)) ?_
      show (w.ack frame.nextOffset).acked ≤ bound
      rw [RelayWindow.acked_ack]
      exact Nat.max_le.mpr ⟨hw, hframes frame List.mem_cons_self⟩

/-- All frames that a switch sends again end at the offset or before. -/
theorem SendInv.replayed_le (h : SendInv file s) {bytes : Nat} (hb : Boundary s.chunks bytes) :
    ∀ frame ∈ s.replayed bytes, frame.nextOffset ≤ s.offset := by
  obtain ⟨m, hm, hbytes⟩ : Boundary s.chunks (max bytes s.window.acked) := by
    rcases Nat.le_total bytes s.window.acked with hle | hle
    · rw [Nat.max_eq_right hle]
      exact h.boundary
    · rw [Nat.max_eq_left hle]
      exact hb
  obtain ⟨i, hframes⟩ := h.window.replayFrom h.nonempty hm
  rw [← hbytes] at hframes
  intro frame hframe
  obtain ⟨j, -, hj⟩ := hframes.mem hframe
  rw [hj.nextOffset, h.offset]
  exact offsetAt_mono _ hj.lt (Nat.le_refl _)

theorem Sender.Fits.chunk {active : Bool} (h : s.Fits active) {chunk : List UInt8}
    (hfilled : s.filled = false) (hne : chunk ≠ []) (hle : chunk.length ≤ directChunkBytes)
    (hr : s.readChunk chunk = some (s', out)) : s'.Fits active := by
  obtain ⟨rfl, -⟩ := Sender.readChunk_eq hne hle hr
  have hroom : s.window.canSend s.chunkSize = true := by
    rw [Sender.filled, Bool.or_eq_false_iff, Bool.or_eq_false_iff] at hfilled
    simpa using hfilled.1.2
  rcases h with hrelay | ⟨hactive, hreceiver, hdirect⟩
  · left
    refine hrelay.push hroom ?_ _
    have hsize : relayChunkBytes ≤ s.chunkSize := by
      rw [Sender.chunkSize]
      split <;> decide
    show relayWindowBytes + chunk.length ≤ maxPendingBytes + s.chunkSize
    have hlimits : relayWindowBytes + directChunkBytes ≤ maxPendingBytes + relayChunkBytes := by decide
    omega
  · right
    refine ⟨hactive, hreceiver, hdirect.push hroom ?_ _⟩
    have hsize : s.chunkSize = directChunkBytes := by
      rw [Sender.chunkSize, if_pos hactive]
    show maxDirectPendingBytes + chunk.length ≤ maxDirectPendingBytes + s.chunkSize
    omega

theorem RelayWindow.Fits.widen {w : RelayWindow}
    (h : w.Fits relayWindowFrames relayWindowBytes maxPendingBytes) :
    RelayWindow.Fits { w with maxBytes := maxDirectPendingBytes, maxFrames := maxDirectPendingFrames }
      maxDirectPendingFrames maxDirectPendingBytes maxDirectPendingBytes where
  maxFrames := rfl
  maxBytes := rfl
  inFlight := h.inFlight
  frames := Nat.le_trans h.frames (by decide)
  bytes := Nat.le_trans h.bytes (by decide)

/-- The larger limits come with the direct path, which the receiver uses by then. -/
theorem Sender.Fits.switch {active : Bool} (h : s.Fits active) {bytes nextSeq : Nat}
    (hseq : nextSeq ≤ s.seq) (htransport : s.transport = true) (hreceiver : active = true)
    (hr : s.trySwitch (.pathSwitch bytes nextSeq) = some (s', out)) : s'.Fits active := by
  obtain ⟨rfl, -⟩ := Sender.trySwitch_eq hseq hr
  right
  refine ⟨by simp [Sender.directActive, htransport], hreceiver, ?_⟩
  rcases h with hrelay | ⟨-, -, hdirect⟩
  · exact (hrelay.replay _).widen
  · have hreplay := hdirect.replay (s.replayed bytes)
    exact ⟨rfl, rfl, hreplay.inFlight, hreplay.frames, hreplay.bytes⟩

end

/-! ## Both parties -/

/-- Handling the frame ends with "too many out-of-order data frames". -/
structure Receiver.Overflows (r : Receiver) (seq : Nat) (payload : List UInt8) : Prop where
  opened : r.opened = true
  ahead : r.expectedSeq < seq
  fresh : r.pendingFrames.lookup seq = none
  tooMany : r.tooMany payload = true

/-- A switch finds the receiver with all data that was sent so far. -/
def Transfer.SwitchesSettled (t : Transfer) : Label → Prop
  | .send (.relayFrame (.pathSwitch _ _)) =>
      t.sender.pc = .switching → t.sender.offset ≤ t.receiver.received
  | _ => True

structure Orderly (file : List UInt8) (t : Transfer) : Prop where
  base : Inv file t
  fits : t.sender.Fits t.receiver.directActive
  acked : t.receiver.status = .running → t.sender.window.acked ≤ t.receiver.received
  pending : t.receiver.status = .running →
    PendingFrom t.sender.chunks (t.receiver.expectedSeq + 1) t.receiver
  switching : t.sender.pc = .switching → t.sender.transport = true
  active : ∀ bytes nextSeq, .pathSwitch bytes nextSeq ∈ t.answered.relay →
    t.receiver.directActive = true

namespace Orderly

variable {file : List UInt8} {t t' : Transfer}

theorem init (size : Int) (senderDirect receiverDirect : Bool) :
    Orderly file (.init size senderDirect receiverDirect) where
  base := .init size senderDirect receiverDirect
  fits := .inl ⟨rfl, rfl, rfl, Nat.zero_le _, Nat.zero_le _⟩
  acked := by
    intro _
    exact Nat.le_refl 0
  pending := by
    intro _
    refine ⟨?_, rfl⟩
    intro seq h
    cases h
  switching := by
    intro h
    cases h
  active := by
    intro bytes nextSeq h
    cases h

/-- The sender moved on with its window as it was or acknowledged further. -/
theorem sent (h : Orderly file t) {s : Sender} {out : Out}
    (hbase : Inv file { t with sender := s, sent := t.sent ++ out })
    (hchunks : t.sender.chunks <+: s.chunks) (hfits : s.Fits t.receiver.directActive)
    (hacked : t.receiver.status = .running → s.window.acked ≤ t.receiver.received)
    (hswitching : s.pc = .switching → s.transport = true) :
    Orderly file { t with sender := s, sent := t.sent ++ out } where
  base := hbase
  fits := hfits
  acked := hacked
  pending := by
    intro hrun
    obtain ⟨k, hk⟩ := h.base.receiver hrun
    obtain ⟨more, hmore⟩ := hchunks
    rw [← hmore]
    exact (h.pending hrun).append hk (Nat.succ_pos _) more
  switching := hswitching
  active := h.active

theorem send (h : Orderly file t) {l : SendLabel} (hok : t.SwitchesSettled (.send l))
    (hs : t.step file (.send l) = some t') : Orderly file t' := by
  have hbase := h.base.step hs
  rw [Transfer.step] at hs
  split at hs
  next hread =>
    obtain ⟨⟨s, out⟩, hr, heq⟩ := Option.map_eq_some_iff.mp hs
    cases heq
    have hstep := h.base.sender.step (fun f hl => h.base.answered_of_readable hl hread) hr
    cases Sender.sendStep hr with
    | quiet hpc hpc' hkept hwindow hout =>
        refine h.sent hbase hstep.chunks ?_ ?_ ?_
        · rcases hwindow with heq | ⟨bytes, -, heq⟩
          · rw [Sender.Fits, heq]
            rcases h.fits with hfits | ⟨hactive, hrest⟩
            · exact .inl hfits
            · exact .inr ⟨hkept.active hactive, hrest⟩
          · rw [Sender.Fits, heq]
            rcases h.fits with hfits | ⟨hactive, hreceiver, hfits⟩
            · exact .inl (hfits.ack bytes)
            · exact .inr ⟨hkept.active hactive, hreceiver, hfits.ack bytes⟩
        · intro hrun
          rcases hwindow with heq | ⟨bytes, hl, heq⟩
          · rw [heq]
            exact h.acked hrun
          · obtain ⟨k, hk⟩ := h.base.receiver hrun
            have hanswered := h.base.answered_of_readable hl hread
            rw [heq, RelayWindow.acked_ack]
            exact Nat.max_le.mpr ⟨h.acked hrun, hk.length_sink ▸ hanswered.2⟩
        · intro hsw
          obtain ⟨hold, heq⟩ := hkept.switching hsw
          rw [heq]
          exact h.switching hold
    | offered hpc hbefore =>
        refine h.sent hbase hstep.chunks h.fits h.acked fun _ => ?_
        exact hbefore.elim h.switching And.left
    | failed hout => exact h.sent hbase hstep.chunks h.fits h.acked fun hsw => by cases hsw
    | eof hpc hend => exact h.sent hbase hstep.chunks h.fits h.acked fun hsw => by cases hsw
    | chunk hpc hfilled hread' hne hle hr' =>
        refine h.sent hbase hstep.chunks (h.fits.chunk hfilled hne hle hr') ?_ ?_
        · obtain ⟨rfl, -⟩ := Sender.readChunk_eq hne hle hr'
          exact h.acked
        · obtain ⟨rfl, -⟩ := Sender.readChunk_eq hne hle hr'
          intro hsw
          have hsw' : (if t.sender.directReady then SendPc.filled else .fill) = .switching := hsw
          split at hsw' <;> cases hsw'
    | switched hpc hl hseq hr' =>
        subst hl
        have hmem : .pathSwitch _ _ ∈ t.answered.relay := List.contains_iff_mem.mp hread
        refine h.sent hbase hstep.chunks
          (h.fits.switch hseq (h.switching hpc) (h.active _ _ hmem) hr') ?_ ?_
        · intro hrun
          obtain ⟨rfl, -⟩ := Sender.trySwitch_eq hseq hr'
          have hboundary := h.base.answered_of_readable (.inl rfl) hread
          refine Nat.le_trans ?_ (hok hpc)
          refine acked_replay _ (h.base.sender.replayed_le hboundary) ?_
          obtain ⟨i, hacked, hframes⟩ := h.base.sender.window
          rw [hacked, h.base.sender.offset]
          exact offsetAt_mono _ hframes.le (Nat.le_refl _)
        · obtain ⟨rfl, -⟩ := Sender.trySwitch_eq hseq hr'
          intro hsw
          cases hsw
    | finished hpc heof hempty hr' =>
        obtain ⟨rfl, -⟩ := Sender.finish_eq hr'
        refine h.sent hbase hstep.chunks h.fits h.acked ?_
        intro hsw
        have hsw' : (if t.sender.directActive then SendPc.doneDirect else .done) = .switching := hsw
        split at hsw' <;> cases hsw'
    | closing hpc hout => exact h.sent hbase hstep.chunks h.fits h.acked h.switching
    | returned hpc hl hle =>
        exact h.sent hbase hstep.chunks h.fits h.acked fun hsw => by cases hsw
  next => cases hs

theorem deliver (h : Orderly file t) {f : Frame} (hs : t.step file (.deliver f) = some t') :
    Orderly file t' := by
  have hbase := h.base.step hs
  rw [Transfer.step] at hs
  split at hs
  next hguard =>
    obtain ⟨hrun, hdeliver⟩ := hguard
    cases hs
    have hsent := h.base.sent_of_deliverable hdeliver
    obtain ⟨k, hk⟩ := h.base.receiver hrun
    obtain ⟨j, hkj, hj, -⟩ := Handled.handle hk hsent
    refine ⟨hbase, ?_, ?_, ?_, h.switching, ?_⟩
    · rcases h.fits with hfits | ⟨hactive, hreceiver, hfits⟩
      · exact .inl hfits
      · exact .inr ⟨hactive, Receiver.handle_directActive hreceiver, hfits⟩
    · intro _
      have hmono : t.receiver.received ≤ (t.receiver.handle f).1.received := by
        rw [hk.received, hj.received]
        exact offsetAt_mono _ hkj hj.le
      exact Nat.le_trans (h.acked hrun) hmono
    · intro _
      exact (h.pending hrun).handle hk hsent
    · intro bytes nextSeq hmem
      rcases List.mem_append.mp hmem with hold | hnew
      · exact Receiver.handle_directActive (h.active bytes nextSeq hold)
      · exact Receiver.handle_pathSwitch hnew
  next => cases hs

theorem step (h : Orderly file t) {l : Label} (hok : t.SwitchesSettled l)
    (hs : t.step file l = some t') : Orderly file t' := by
  cases l with
  | send l => exact h.send hok hs
  | deliver f => exact h.deliver hs
  | sinkFails f n =>
      have hbase := h.base.step hs
      rw [Transfer.step] at hs
      split at hs
      next =>
        cases hs
        refine ⟨hbase, h.fits, (fun hrun => by cases hrun), (fun hrun => by cases hrun), h.switching, ?_⟩
        intro bytes nextSeq hmem
        rcases List.mem_append.mp hmem with hold | hnew
        · exact h.active bytes nextSeq hold
        · cases List.mem_singleton.mp hnew
      next => cases hs
  | stop =>
      have hbase := h.base.step hs
      rw [Transfer.step] at hs
      split at hs
      next =>
        cases hs
        exact ⟨hbase, h.fits, (fun hrun => by cases hrun), (fun hrun => by cases hrun), h.switching,
          h.active⟩
      next => cases hs

/-- What was sent beyond the receiver lies within its limits. -/
theorem within (h : Orderly file t) (hrun : t.receiver.status = .running) {k : Nat}
    (hk : RecvAt t.sender.chunks k t.receiver) :
    t.sender.chunks.length ≤ k + t.receiver.limitFrames ∧
      offsetAt t.sender.chunks t.sender.chunks.length ≤
        offsetAt t.sender.chunks k + t.receiver.limitBytes := by
  obtain ⟨i, hacked, hframes⟩ := h.base.sender.window
  have hik : i ≤ k := by
    apply le_of_offsetAt_le h.base.sender.nonempty hframes.le
    rw [← hacked, ← hk.received]
    exact h.acked hrun
  have hlength := hframes.length_add
  have hsum := hframes.sum_add
  have hmono := offsetAt_mono t.sender.chunks hik hk.le
  have hlimits : t.sender.window.frames.length ≤ t.receiver.limitFrames ∧
      t.sender.window.inFlight ≤ t.receiver.limitBytes ∧
      t.sender.window.inFlight =
        (t.sender.window.frames.map fun frame => frame.payload.length).sum := by
    rcases h.fits with hrelay | ⟨-, hreceiver, hdirect⟩
    · refine ⟨Nat.le_trans hrelay.frames ?_, Nat.le_trans hrelay.bytes ?_, hrelay.inFlight⟩
      · rw [Receiver.limitFrames]
        split <;> decide
      · rw [Receiver.limitBytes]
        split <;> decide
    · rw [Receiver.limitFrames, Receiver.limitBytes, if_pos hreceiver, if_pos hreceiver]
      exact ⟨hdirect.frames, hdirect.bytes, hdirect.inFlight⟩
  obtain ⟨hf, hb, hflight⟩ := hlimits
  rw [hflight] at hb
  omega

end Orderly

/-- In every run in which each switch to the direct path finds the receiver with all data sent so far,
the data frames sent and not yet written are no more than the receiver may put aside, and no frame that
can arrive is one too many. -/
theorem no_spurious_abort (file : List UInt8) (size : Int) (senderDirect receiverDirect : Bool)
    (ls : List Label) (t : Transfer)
    (hrun : runFrom (Transfer.step file) (.init size senderDirect receiverDirect) ls = some t)
    (hok : StepsMeet (Transfer.step file) Transfer.SwitchesSettled
      (.init size senderDirect receiverDirect) ls)
    (hrunning : t.receiver.status = .running) :
    t.sender.seq ≤ t.receiver.expectedSeq + t.receiver.limitFrames ∧
      ∀ seq payload, t.deliverable (.data seq payload) = true →
        ¬ t.receiver.Overflows seq payload := by
  have h : Orderly file t :=
    runFrom_invariant_of_meet (fun _ _ _ h hok hs => h.step hok hs) ls
      (.init size senderDirect receiverDirect) hok hrun
  obtain ⟨k, hk⟩ := h.base.receiver hrunning
  obtain ⟨hframes, hbytes⟩ := h.within hrunning hk
  constructor
  · rw [h.base.sender.seq, hk.expectedSeq]
    omega
  · intro seq payload hdeliver hover
    have hroom := (h.pending hrunning).not_tooMany hk (h.base.sent_of_deliverable hdeliver) hover.ahead
      hover.fresh hframes hbytes
    have htoo := hover.tooMany
    rw [Receiver.tooMany_iff] at htoo
    omega

instance Transfer.SwitchesSettled.decidable (t : Transfer) : ∀ l, Decidable (t.SwitchesSettled l)
  | .send (.relayFrame (.pathSwitch _ _)) =>
      inferInstanceAs (Decidable (t.sender.pc = .switching →
        t.sender.offset ≤ t.receiver.received))
  | .send (.relayFrame (.metadata _)) => isTrue trivial
  | .send (.relayFrame (.data _ _)) => isTrue trivial
  | .send (.relayFrame (.done _)) => isTrue trivial
  | .send (.relayFrame (.directReady _ _)) => isTrue trivial
  | .send (.relayFrame (.ack _)) => isTrue trivial
  | .send (.relayFrame .abort) => isTrue trivial
  | .send (.directFrame _) => isTrue trivial
  | .send (.poll _) => isTrue trivial
  | .send (.read _) => isTrue trivial
  | .send .next => isTrue trivial
  | .send .timer => isTrue trivial
  | .send (.fail _) => isTrue trivial
  | .deliver _ => isTrue trivial
  | .sinkFails _ _ => isTrue trivial
  | .stop => isTrue trivial

/-- The third chunk is received but not acknowledged, so the switch sends it again. -/
def settledRun : List Label :=
  [.deliver (.metadata 6), .send (.relayFrame (.ack 0)), .send (.poll .quiet), .send (.read 2),
    .send (.read 2), .send (.read 2), .deliver (.data 2 [3, 4]), .deliver (.data 1 [1, 2]),
    .deliver (.data 3 [5, 6]), .send (.read 0), .send (.poll .ready), .send (.relayFrame (.ack 4)),
    .send (.poll .quiet), .send .next, .deliver (.directReady 4 3),
    .send (.relayFrame (.pathSwitch 4 3))]

theorem no_spurious_abort_settled :
    ∃ t, runFrom (Transfer.step [1, 2, 3, 4, 5, 6]) (.init 6 true true) settledRun = some t ∧
      t.sent.direct = [.data 3 [5, 6]] ∧
      ∀ seq payload, t.deliverable (.data seq payload) = true →
        ¬ t.receiver.Overflows seq payload := by
  have h : (runFrom (Transfer.step [1, 2, 3, 4, 5, 6]) (.init 6 true true) settledRun).any
      (fun t => decide (t.sent.direct = [.data 3 [5, 6]] ∧ t.receiver.status = .running)) = true := by
    decide +kernel
  obtain ⟨t, hrun, ht⟩ := (Option.any_eq_true ..).mp h
  obtain ⟨hdirect, hrunning⟩ := of_decide_eq_true ht
  exact ⟨t, hrun, hdirect,
    (no_spurious_abort _ _ _ _ _ t hrun (by decide +kernel) hrunning).2⟩

/-! ## One frame too many

A source that returns one byte at a time.  Sixteen frames go over the relay, of which the receiver gets
the first; the other fifteen are sent again at the switch and count as acknowledged. -/

def zeros (n : Nat) : List UInt8 := List.replicate n 0

/-- The transfer up to the first read on the direct path. -/
def switchRun (size : Int) : List Label :=
  let claimed : List Label :=
    [.deliver (.metadata size), .send (.relayFrame (.ack 0)), .send (.poll .quiet)]
  let switched : List Label :=
    [.send .next, .send (.poll .ready), .deliver (.data 1 [0]), .send (.relayFrame (.ack 1)),
      .send (.poll .quiet), .send .next, .deliver (.directReady 1 2),
      .send (.relayFrame (.pathSwitch 1 2)), .send .next, .send (.poll .quiet)]
  claimed ++ List.replicate 16 (Label.send (.read 1)) ++ switched

/-- The sender reads on the direct path, and its next frame is `q`. -/
structure Reading (t : Transfer) (q : Nat) : Prop where
  pc : t.sender.pc = .fill
  eof : t.sender.eof = false
  direct : t.sender.direct = some ⟨true, true⟩
  transport : t.sender.transport = true
  maxFrames : t.sender.window.maxFrames = maxDirectPendingFrames
  maxBytes : t.sender.window.maxBytes = maxDirectPendingBytes
  frames : t.sender.window.frames.length + 17 = q
  inFlight : t.sender.window.inFlight + 17 = q
  seq : t.sender.seq = q
  offset : t.sender.offset + 1 = q
  sent : ∀ seq, 3 ≤ seq → seq < q → .data seq [0] ∈ t.sent.direct
  count : t.sent.direct.length + 2 = q

/-- The receiver waits for frame 2 and has put the next `m` frames aside. -/
structure Waiting (r : Receiver) (m : Nat) : Prop where
  status : r.status = .running
  direct : r.direct = true
  opened : r.opened = true
  expectedSeq : r.expectedSeq = 2
  directActive : r.directActive = true
  count : r.pendingFrames.entries.length = m
  bytes : r.pendingBytes = m
  fresh : ∀ seq, m + 3 ≤ seq → r.pendingFrames.lookup seq = none

section

variable {t : Transfer} {q m n : Nat}

theorem sourceRead_zeros {offset : Nat} (h : offset < n) :
    Sender.sourceRead (zeros n) offset 1 = some [0] := by
  have hread : ((zeros n).drop offset).take 1 = [0] := by
    rw [zeros, List.drop_replicate, List.take_replicate, Nat.min_eq_left (by omega)]
    rfl
  have hlen : (zeros n).length = n := List.length_replicate
  rw [Sender.sourceRead, if_pos (by rw [hlen]; omega), hread]

theorem Reading.read (h : Reading t q) (hroom : q < 17 + maxDirectPendingFrames) (hq : q ≤ n) :
    ∃ t', t.step (zeros n) (.send (.read 1)) = some t' ∧ Reading t' (q + 1) ∧
      t'.receiver = t.receiver := by
  have hactive : t.sender.directActive = true := by simp [Sender.directActive, h.direct, h.transport]
  have hready : t.sender.directReady = false := by simp [Sender.directReady, h.direct]
  have hcan : t.sender.window.canSend t.sender.chunkSize = true := by
    have hflight := h.inFlight
    have hframes := h.frames
    have hlimits : maxDirectPendingFrames + directChunkBytes ≤ maxDirectPendingBytes := by decide
    simp only [RelayWindow.canSend, Sender.chunkSize, hactive, h.maxFrames, h.maxBytes, if_true,
      Bool.and_eq_true, decide_eq_true_eq]
    omega
  have hfilled : t.sender.filled = false := by simp [Sender.filled, h.eof, hcan, hready]
  have hsource : Sender.sourceRead (zeros n) t.sender.offset 1 = some [0] := by
    apply sourceRead_zeros
    have := h.offset
    omega
  obtain ⟨s, out, hread⟩ : ∃ s out, t.sender.readChunk [0] = some (s, out) := ⟨_, _, rfl⟩
  have hstep : t.step (zeros n) (.send (.read 1)) =
      some { t with sender := s, sent := t.sent ++ out } := by
    simp only [Transfer.step, Transfer.readable, Sender.step, h.pc, hfilled, hsource, hread]
    rfl
  obtain ⟨rfl, rfl⟩ := Sender.readChunk_eq (List.cons_ne_nil _ _) (by decide) hread
  refine ⟨_, hstep, ⟨?_, h.eof, h.direct, h.transport, h.maxFrames, h.maxBytes, ?_, ?_, ?_, ?_, ?_, ?_⟩,
    rfl⟩
  · simp [hready]
  · have hframes := h.frames
    show (WebRelay.markSent _ (t.sender.window.frames ++ [_])).length + 17 = q + 1
    rw [length_markSent, List.length_append, List.length_singleton]
    omega
  · have hflight := h.inFlight
    show t.sender.window.inFlight + 1 + 17 = q + 1
    omega
  · exact congrArg (· + 1) h.seq
  · have hoffset := h.offset
    show t.sender.offset + 1 + 1 = q + 1
    omega
  · intro seq hge hlt
    show _ ∈ t.sent.direct ++ (if t.sender.directActive then Out.onDirect _ else Out.onRelay _).direct
    rw [if_pos hactive]
    rcases Nat.lt_or_ge seq q with hold | hnew
    · exact List.mem_append_left _ (h.sent seq hge hold)
    · have hseq : seq = t.sender.seq := by
        have := h.seq
        omega
      rw [hseq]
      exact List.mem_append_right _ List.mem_cons_self
  · have hcount := h.count
    show (t.sent.direct ++ (if t.sender.directActive then Out.onDirect _ else Out.onRelay _).direct).length +
      2 = q + 1
    rw [if_pos hactive, List.length_append]
    show t.sent.direct.length + 1 + 2 = q + 1
    omega

theorem Reading.reads (h : Reading t q) (k : Nat) (hroom : q + k ≤ 17 + maxDirectPendingFrames)
    (hn : q + k ≤ n + 1) :
    ∃ t', runFrom (Transfer.step (zeros n)) t (List.replicate k (.send (.read 1))) = some t' ∧
      Reading t' (q + k) ∧ t'.receiver = t.receiver := by
  induction k generalizing t q with
  | zero => exact ⟨t, rfl, h, rfl⟩
  | succ k ih =>
      obtain ⟨u, hu, hreading, hreceiver⟩ := h.read (n := n) (by omega) (by omega)
      obtain ⟨t', hrun, hreading', hreceiver'⟩ := ih hreading (by omega) (by omega)
      refine ⟨t', ?_, ?_, hreceiver'.trans hreceiver⟩
      · rw [List.replicate_succ, runFrom, hu]
        exact hrun
      · rwa [Nat.add_assoc, Nat.add_comm 1 k] at hreading'

theorem Waiting.deliverable (h : Waiting t.receiver m) (hr : Reading t q) {seq : Nat} (hge : 3 ≤ seq)
    (hlt : seq < q) : t.deliverable (.data seq [0]) = true := by
  simp [Transfer.deliverable, h.direct, hr.sent seq hge hlt]

/-- The next frame is put aside. -/
theorem Waiting.deliver (h : Waiting t.receiver m) (hr : Reading t q)
    (hm : m < maxDirectPendingFrames) (hq : m + 3 < q) :
    ∃ t', t.step (zeros n) (.deliver (.data (m + 3) [0])) = some t' ∧ Reading t' q ∧
      Waiting t'.receiver (m + 1) := by
  have hnew := h.fresh (m + 3) (Nat.le_refl _)
  have hroom : t.receiver.tooMany [0] = false := by
    rw [Bool.eq_false_iff, ne_eq, Receiver.tooMany_iff, Receiver.limitFrames, Receiver.limitBytes,
      if_pos h.directActive, if_pos h.directActive, h.count, h.bytes]
    have hlimits : maxDirectPendingFrames ≤ maxDirectPendingBytes := by decide
    simp only [List.length_singleton]
    omega
  have hhandle : t.receiver.handle (.data (m + 3) [0]) =
      ({ t.receiver with
          pendingFrames := t.receiver.pendingFrames.insert (m + 3) [0]
          pendingBytes := t.receiver.pendingBytes + 1 }, t.receiver.ackData) := by
    have hahead : ¬ m + 3 < t.receiver.expectedSeq := by
      rw [h.expectedSeq]
      omega
    simp only [Receiver.handle, Receiver.handleData, h.opened, h.expectedSeq, hnew, hroom]
    simp
  have hstep : t.step (zeros n) (.deliver (.data (m + 3) [0])) =
      some
        { t with
          receiver :=
            { t.receiver with
              pendingFrames := t.receiver.pendingFrames.insert (m + 3) [0]
              pendingBytes := t.receiver.pendingBytes + 1 }
          answered := t.answered ++ t.receiver.ackData } := by
    rw [Transfer.step, if_pos ⟨h.status, h.deliverable hr (by omega) hq⟩, hhandle]
  refine ⟨_, hstep, ⟨hr.pc, hr.eof, hr.direct, hr.transport, hr.maxFrames, hr.maxBytes, hr.frames,
    hr.inFlight, hr.seq, hr.offset, hr.sent, hr.count⟩,
    ⟨h.status, h.direct, h.opened, h.expectedSeq, h.directActive, ?_, ?_, ?_⟩⟩
  · have hnot : m + 3 ∉ t.receiver.pendingFrames := AList.lookup_eq_none.mp hnew
    show (t.receiver.pendingFrames.insert (m + 3) [0]).entries.length = m + 1
    rw [AList.entries_insert_of_notMem hnot, List.length_cons, h.count]
  · exact congrArg (· + 1) h.bytes
  · intro seq hseq
    show (t.receiver.pendingFrames.insert (m + 3) [0]).lookup seq = none
    rw [AList.lookup_insert_ne (by omega)]
    exact h.fresh seq (by omega)

theorem Waiting.delivers (h : Waiting t.receiver 0) (hr : Reading t q) (k : Nat)
    (hk : k ≤ maxDirectPendingFrames) (hq : k + 2 < q) :
    ∃ t', runFrom (Transfer.step (zeros n)) t
        ((List.range k).map fun j => .deliver (.data (j + 3) [0])) = some t' ∧
      Reading t' q ∧ Waiting t'.receiver k := by
  induction k with
  | zero => exact ⟨t, rfl, hr, h⟩
  | succ k ih =>
      obtain ⟨u, hu, hr', h'⟩ := ih (by omega) (by omega)
      obtain ⟨t', ht', hr'', h''⟩ := h'.deliver (n := n) hr' hk (by omega)
      refine ⟨t', ?_, hr'', h''⟩
      rw [List.range_succ, List.map_append, runFrom_append hu, List.map_singleton, runFrom, ht']
      rfl

/-- The receiver has put aside what it may. -/
theorem Waiting.overflows (h : Waiting t.receiver maxDirectPendingFrames) :
    t.receiver.Overflows (maxDirectPendingFrames + 3) [0] where
  opened := h.opened
  ahead := by
    rw [h.expectedSeq]
    decide
  fresh := h.fresh _ (Nat.le_refl _)
  tooMany := by
    rw [Receiver.tooMany_iff, Receiver.limitFrames, if_pos h.directActive, h.count]
    exact .inl (Nat.le_refl _)

theorem Waiting.abort (h : Waiting t.receiver maxDirectPendingFrames) (hr : Reading t q)
    (hq : maxDirectPendingFrames + 3 < q) :
    ∃ t', t.step (zeros n) (.deliver (.data (maxDirectPendingFrames + 3) [0])) = some t' ∧
      t'.receiver.status = .failed := by
  have hover := h.overflows
  have hhandle : t.receiver.handle (.data (maxDirectPendingFrames + 3) [0]) = t.receiver.abort := by
    have hbehind : ¬ maxDirectPendingFrames + 3 < t.receiver.expectedSeq := Nat.lt_asymm hover.ahead
    rw [Receiver.handle, Receiver.handleData, if_neg (by rw [hover.opened]; simp), if_neg hbehind,
      if_pos hover.ahead, hover.fresh]
    dsimp only
    rw [if_pos hover.tooMany]
  have hstep : t.step (zeros n) (.deliver (.data (maxDirectPendingFrames + 3) [0])) =
      some
        { t with
          receiver := { t.receiver with status := .failed }
          answered := t.answered ++ .onRelay .abort } := by
    rw [Transfer.step, if_pos ⟨h.status, h.deliverable hr (Nat.le_add_left ..) hq⟩, hhandle]
    rfl
  exact ⟨_, hstep, rfl⟩

end

/-- The transfer stands where `switchRun` ends. -/
def switched (t : Transfer) : Bool :=
  decide (t.sender.pc = .fill ∧ t.sender.eof = false ∧
    t.sender.direct.map (fun d => (d.ready, d.active)) = some (true, true) ∧
    t.sender.transport = true ∧ t.sender.window.maxFrames = maxDirectPendingFrames ∧
    t.sender.window.maxBytes = maxDirectPendingBytes ∧
    t.sender.window.frames.length + 17 = 17 ∧ t.sender.window.inFlight + 17 = 17 ∧
    t.sender.seq = 17 ∧ t.sender.offset + 1 = 17) &&
  decide (t.sent.direct = (List.range 15).map fun i => .data (i + 2) [0]) &&
  decide (t.receiver.status = .running ∧ t.receiver.direct = true ∧ t.receiver.opened = true ∧
    t.receiver.expectedSeq = 2 ∧ t.receiver.directActive = true ∧
    t.receiver.pendingFrames.entries.length = 0 ∧ t.receiver.pendingBytes = 0)

theorem reading_of_switched {t : Transfer} (h : switched t = true) :
    Reading t 17 ∧ Waiting t.receiver 0 := by
  simp only [switched, Bool.and_eq_true, decide_eq_true_eq] at h
  obtain ⟨⟨⟨hpc, heof, hdirect, htransport, hmaxFrames, hmaxBytes, hframes, hflight, hseq, hoffset⟩,
    hsent⟩, hstatus, hdirect', hopened, hexpected, hactive, hcount, hbytes⟩ := h
  refine ⟨⟨hpc, heof, ?_, htransport, hmaxFrames, hmaxBytes, hframes, hflight, hseq, hoffset,
    ?_, by rw [hsent]; rfl⟩,
    ⟨hstatus, hdirect', hopened, hexpected, hactive, hcount, hbytes, ?_⟩⟩
  · obtain ⟨⟨ready, active⟩, hd, heq⟩ := Option.map_eq_some_iff.mp hdirect
    cases heq
    exact hd
  · intro seq hge hlt
    rw [hsent, List.mem_map]
    exact ⟨seq - 2, List.mem_range.mpr (by omega), by rw [Nat.sub_add_cancel (Nat.le_of_succ_le hge)]⟩
  · intro seq _
    rw [AList.lookup_eq_none, AList.mem_keys, AList.keys, List.eq_nil_of_length_eq_zero hcount]
    simp [List.keys]

theorem switchRun_reading :
    ∃ t, runFrom (Transfer.step (zeros 1027)) (.init 1027 true true) (switchRun 1027) = some t ∧
      Reading t 17 ∧ Waiting t.receiver 0 := by
  have h : (runFrom (Transfer.step (zeros 1027)) (.init 1027 true true) (switchRun 1027)).any
      switched = true := by
    decide +kernel
  obtain ⟨t, hrun, ht⟩ := (Option.any_eq_true ..).mp h
  exact ⟨t, hrun, reading_of_switched ht⟩

/-- The receiver waits for frame 2, and the next 1024 frames arrive before it. -/
def reorderRun : List Label :=
  switchRun 1027 ++ (List.replicate 1011 (Label.send (.read 1)) ++
    (List.range 1024).map fun j => Label.deliver (.data (j + 3) [0]))

theorem reorder_aborts : ∃ t t',
    runFrom (Transfer.step (zeros 1027)) (.init 1027 true true) reorderRun = some t ∧
      t.receiver.Overflows 1027 [0] ∧
      t.step (zeros 1027) (.deliver (.data 1027 [0])) = some t' ∧ t'.receiver.status = .failed := by
  obtain ⟨t₁, hrun₁, hreading₁, hwaiting₁⟩ := switchRun_reading
  obtain ⟨t₂, hrun₂, hreading₂, hreceiver⟩ := hreading₁.reads (n := 1027) 1011 (by decide) (by decide)
  rw [← hreceiver] at hwaiting₁
  obtain ⟨t₃, hrun₃, hreading₃, hwaiting₃⟩ :=
    hwaiting₁.delivers (n := 1027) hreading₂ 1024 (by decide) (by decide)
  obtain ⟨t', hstep, hfailed⟩ := hwaiting₃.abort (n := 1027) hreading₃ (by decide)
  refine ⟨t₃, t', ?_, hwaiting₃.overflows, hstep, hfailed⟩
  rw [reorderRun, runFrom_append hrun₁, runFrom_append hrun₂, hrun₃]

end WebRelay
