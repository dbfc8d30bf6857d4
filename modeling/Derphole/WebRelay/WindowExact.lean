import Derphole.Lib.InPlace
import Derphole.Lib.Run
import Derphole.WebRelay.Window

/-!
# The relay window and any acknowledgements

`relayWindow` of `pkg/derphole/webrelay/window.go` on its own: frames are pushed one behind the other,
and acknowledgements count any number of the bytes pushed so far, so that they may fall inside a frame.
The window holds exactly the bytes that are not acknowledged (`Carries`), cut as they were pushed but for
the first frame.

`ack` rewrites the list of frames in place, and runs are about this loop.  It gives the same frames as a new
list would (`ackInPlace_eq_ack`).
-/

namespace WebRelay

open Lib

/-! ## The loop of `ack` -/

/-- What the loop keeps of a frame. -/
def RelayFrame.past (offset : Nat) (frame : RelayFrame) : Option RelayFrame :=
  if frame.nextOffset ≤ offset then none
  else if frame.offset < offset then some (trimRelayFramePrefix frame (offset - frame.offset))
  else some frame

theorem framesPast_eq_filterMap (offset : Nat) (frames : List RelayFrame) :
    framesPast offset frames = frames.filterMap (RelayFrame.past offset) := by
  induction frames with
  | nil => rfl
  | cons frame frames ih =>
      rw [framesPast, List.filterMap_cons, RelayFrame.past, ih]
      split
      · rfl
      split
      · rfl
      · rfl

/-- `ack` as it is written: the frames that are kept are written over the ones that were read. -/
def RelayWindow.ackInPlace (w : RelayWindow) (bytesReceived : Nat) : RelayWindow :=
  if bytesReceived ≤ w.acked then w
  else
    let kept := compact (RelayFrame.past bytesReceived) w.frames.length 0 0 w.frames
    { w with
      acked := bytesReceived
      frames := kept
      inFlight := (kept.map fun frame => frame.payload.length).sum
      bufferedBytes := (kept.map fun frame => frame.payload.length).sum }

theorem RelayWindow.ackInPlace_eq_ack (w : RelayWindow) (bytesReceived : Nat) :
    w.ackInPlace bytesReceived = w.ack bytesReceived := by
  rw [ackInPlace, ack]
  split
  · rfl
  · rw [compact_eq, ← framesPast_eq_filterMap]

/-! ## What the frames carry -/

/-- The frames carry the bytes from `a` on, one behind the other. -/
def Carries (bytes : List UInt8) : Nat → List RelayFrame → Prop
  | a, [] => a = bytes.length
  | a, frame :: frames =>
      frame.offset = a ∧ frame.nextOffset = a + frame.payload.length ∧
        SliceAt bytes a frame.payload ∧ Carries bytes frame.nextOffset frames

def payloadBytes (frames : List RelayFrame) : Nat := (frames.map fun frame => frame.payload.length).sum

namespace Carries

variable {bytes : List UInt8} {a : Nat} {frames : List RelayFrame}

theorem le (h : Carries bytes a frames) : a ≤ bytes.length := by
  cases frames with
  | nil => exact Nat.le_of_eq h
  | cons frame frames => exact h.2.2.1.1

theorem flatMap_payload (h : Carries bytes a frames) :
    frames.flatMap RelayFrame.payload = bytes.drop a := by
  induction frames generalizing a with
  | nil => rw [show a = bytes.length from h, List.drop_length, List.flatMap_nil]
  | cons frame frames ih =>
      obtain ⟨-, hnext, hslice, hrest⟩ := h
      obtain ⟨rest, hsplit⟩ := hslice.2
      rw [List.flatMap_cons, ih hrest, hnext, ← List.drop_drop, ← hsplit, List.drop_left]

theorem length_payload (h : Carries bytes a frames) :
    ∀ frame ∈ frames, frame.nextOffset = frame.offset + frame.payload.length := by
  induction frames generalizing a with
  | nil => simp
  | cons frame frames ih =>
      obtain ⟨hoffset, hnext, -, hrest⟩ := h
      refine List.forall_mem_cons.mpr ⟨?_, ih hrest⟩
      rw [hnext, hoffset]

theorem contiguous (h : Carries bytes a frames) (i : Nat) (f g : RelayFrame)
    (hf : frames[i]? = some f) (hg : frames[i + 1]? = some g) : f.nextOffset = g.offset := by
  induction frames generalizing a i with
  | nil => cases hf
  | cons frame frames ih =>
      obtain ⟨-, -, -, hrest⟩ := h
      cases i with
      | zero =>
          cases hf
          cases frames with
          | nil => cases hg
          | cons next frames =>
              cases hg
              exact hrest.1.symm
      | succ i => exact ih hrest i hf hg

theorem nextOffset_getLast (h : Carries bytes a frames) :
    ∀ frame ∈ frames.getLast?, frame.nextOffset = bytes.length := by
  induction frames generalizing a with
  | nil => simp
  | cons frame frames ih =>
      obtain ⟨-, -, -, hrest⟩ := h
      cases frames with
      | nil =>
          intro last hlast
          cases hlast
          exact hrest
      | cons next frames =>
          rw [List.getLast?_cons_cons]
          exact ih hrest

/-- A frame is pushed behind the others. -/
theorem push (h : Carries bytes a frames) (seq : Nat) (payload : List UInt8) (sent : Bool) :
    Carries (bytes ++ payload) a
      (frames ++ [⟨seq, bytes.length, bytes.length + payload.length, payload, sent⟩]) := by
  induction frames generalizing a with
  | nil =>
      have ha : a = bytes.length := h
      subst ha
      refine ⟨rfl, rfl, ⟨?_, ?_⟩, (List.length_append).symm⟩
      · rw [List.length_append]
        exact Nat.le_add_right _ _
      · rw [List.drop_left]
  | cons frame frames ih =>
      obtain ⟨hoffset, hnext, hslice, hrest⟩ := h
      exact ⟨hoffset, hnext, hslice.mono (List.prefix_append _ _), ih hrest⟩

theorem markSent (h : Carries bytes a frames) (seq : Nat) : Carries bytes a (markSent seq frames) := by
  induction frames generalizing a with
  | nil => exact h
  | cons frame frames ih =>
      obtain ⟨hoffset, hnext, hslice, hrest⟩ := h
      rw [WebRelay.markSent]
      split
      · exact ⟨hoffset, hnext, hslice, hrest⟩
      · exact ⟨hoffset, hnext, hslice, ih hrest⟩

/-- Frames behind the offset stay as they are. -/
theorem past_of_lt (h : Carries bytes a frames) {offset : Nat} (hlt : offset < a) :
    framesPast offset frames = frames := by
  induction frames generalizing a with
  | nil => rfl
  | cons frame frames ih =>
      obtain ⟨hoffset, hnext, -, hrest⟩ := h
      rw [framesPast, if_neg (by omega), if_neg (by omega), ih hrest (by omega)]

/-- The frames past an offset carry the bytes from there on. -/
theorem past (h : Carries bytes a frames) {offset : Nat} (hle : a ≤ offset)
    (hend : offset ≤ bytes.length) : Carries bytes offset (framesPast offset frames) := by
  induction frames generalizing a with
  | nil => exact Nat.le_antisymm hend (Nat.le_trans (Nat.le_of_eq (show a = _ from h).symm) hle)
  | cons frame frames ih =>
      obtain ⟨hoffset, hnext, hslice, hrest⟩ := h
      rw [framesPast]
      split
      next hgone => exact ih hrest hgone
      next hkept =>
        rw [hrest.past_of_lt (Nat.lt_of_not_le hkept)]
        split
        next hinside =>
          -- the offset is inside the frame, so some of its bytes stay
          rw [trimRelayFramePrefix, if_neg (by omega), if_neg (by omega)]
          refine ⟨?_, ?_, ?_, hrest⟩
          · show frame.offset + (offset - frame.offset) = offset
            omega
          · show frame.nextOffset = offset + (frame.payload.drop (offset - frame.offset)).length
            rw [List.length_drop]
            omega
          · have hdrop := hslice.drop (k := offset - frame.offset) (by omega)
            rwa [show a + (offset - frame.offset) = offset by omega] at hdrop
        next houtside =>
          have ha : offset = a := by omega
          subst ha
          exact ⟨hoffset, hnext, hslice, hrest⟩

/-- Nothing is past the end. -/
theorem past_eq_nil (h : Carries bytes a frames) {offset : Nat} (hend : bytes.length ≤ offset) :
    framesPast offset frames = [] := by
  induction frames generalizing a with
  | nil => rfl
  | cons frame frames ih =>
      obtain ⟨-, -, -, hrest⟩ := h
      rw [framesPast, if_pos (Nat.le_trans hrest.le hend), ih hrest]

end Carries

/-! ## Runs -/

/-- A call of a method that changes the window. -/
inductive WindowOp where
  /-- A frame is pushed that starts at the end of the last one. -/
  | push (seq : Nat) (payload : List UInt8) (sent : Bool)
  | markSent (seq : Nat)
  | ack (bytesReceived : Int)

/-- A window, and all that was pushed into it. -/
structure Pushed where
  window : RelayWindow
  bytes : List UInt8

namespace Pushed

def init (maxBytes maxFrames : Nat) : Pushed := ⟨RelayWindow.new maxBytes maxFrames, []⟩

/-- No more is acknowledged than was pushed.  A count below zero is one that `ack` ignores, as it ignores
zero. -/
def step (t : Pushed) : WindowOp → Option Pushed
  | .push seq payload sent =>
      some
        { window := t.window.push
            ⟨seq, t.bytes.length, t.bytes.length + payload.length, payload, sent⟩
          bytes := t.bytes ++ payload }
  | .markSent seq => some { t with window := t.window.markSent seq }
  | .ack bytesReceived =>
      if bytesReceived ≤ t.bytes.length then some { t with window := t.window.ackInPlace bytesReceived.toNat }
      else none

/-- The window holds what is not acknowledged, and its counters agree. -/
structure Exact (t : Pushed) : Prop where
  carries : Carries t.bytes t.window.acked t.window.frames
  inFlight : t.window.inFlight = payloadBytes t.window.frames
  bufferedBytes : t.window.bufferedBytes = payloadBytes t.window.frames

end Pushed

theorem payloadBytes_concat (frames : List RelayFrame) (frame : RelayFrame) :
    payloadBytes (frames ++ [frame]) = payloadBytes frames + frame.payload.length := by
  simp [payloadBytes]

theorem payloadBytes_markSent (seq : Nat) (frames : List RelayFrame) :
    payloadBytes (markSent seq frames) = payloadBytes frames := by
  rw [payloadBytes, markSent_map _ (fun _ => rfl), payloadBytes]

namespace Pushed

variable {t t' : Pushed} {op : WindowOp}

theorem Exact.init (maxBytes maxFrames : Nat) : (Pushed.init maxBytes maxFrames).Exact := ⟨rfl, rfl, rfl⟩

theorem Exact.ack (h : t.Exact) {n : Nat} (hn : n ≤ t.bytes.length) :
    Exact { t with window := t.window.ackInPlace n } := by
  rw [RelayWindow.ackInPlace_eq_ack, RelayWindow.ack]
  split
  · exact h
  next hmore => exact ⟨h.carries.past (Nat.le_of_not_le hmore) hn, rfl, rfl⟩

theorem Exact.step (h : t.Exact) (hs : t.step op = some t') : t'.Exact := by
  cases op with
  | push seq payload sent =>
      cases hs
      refine ⟨h.carries.push seq payload sent, ?_, ?_⟩
      · show t.window.inFlight + payload.length = payloadBytes (t.window.frames ++ [_])
        rw [payloadBytes_concat, h.inFlight]
      · show t.window.bufferedBytes + payload.length = payloadBytes (t.window.frames ++ [_])
        rw [payloadBytes_concat, h.bufferedBytes]
  | markSent seq =>
      cases hs
      refine ⟨h.carries.markSent seq, ?_, ?_⟩
      · exact h.inFlight.trans (payloadBytes_markSent seq t.window.frames).symm
      · exact h.bufferedBytes.trans (payloadBytes_markSent seq t.window.frames).symm
  | ack bytesReceived =>
      rw [Pushed.step] at hs
      split at hs
      next hle =>
        cases hs
        exact h.ack (by omega)
      next => cases hs

theorem acked_le_step (hs : t.step op = some t') : t.window.acked ≤ t'.window.acked := by
  cases op with
  | push seq payload sent =>
      cases hs
      exact Nat.le_refl _
  | markSent seq =>
      cases hs
      exact Nat.le_refl _
  | ack bytesReceived =>
      rw [Pushed.step] at hs
      split at hs
      next =>
        cases hs
        rw [RelayWindow.ackInPlace_eq_ack, RelayWindow.acked_ack]
        exact Nat.le_max_left _ _
      next => cases hs

theorem acked_le_run (ops : List WindowOp) (hrun : runFrom Pushed.step t ops = some t') :
    t.window.acked ≤ t'.window.acked :=
  runFrom_invariant (I := fun u : Pushed => t.window.acked ≤ u.window.acked)
    (fun _ _ _ hle hs => Nat.le_trans hle (acked_le_step hs)) ops (Nat.le_refl _) hrun

theorem Exact.replayFrom (h : t.Exact) {offset : Nat} (hle : t.window.acked ≤ offset) :
    (t.window.replayFrom offset).flatMap RelayFrame.payload = t.bytes.drop offset := by
  rw [RelayWindow.replayFrom]
  obtain hend | hend := Nat.le_total offset t.bytes.length
  · exact (h.carries.past hle hend).flatMap_payload
  · rw [h.carries.past_eq_nil hend, List.drop_of_length_le hend, List.flatMap_nil]

end Pushed

/-- After any pushes and acknowledgements: the frames are contiguous, start at the acknowledged offset and
end where the last push ended, their payloads are as long as they say, both counters are exact, the
acknowledged offset has not gone down, and a replay gives what was pushed from its offset on. -/
theorem relay_window_exact (maxBytes maxFrames : Nat) (ops : List WindowOp) (t : Pushed)
    (hrun : runFrom Pushed.step (Pushed.init maxBytes maxFrames) ops = some t) :
    (∀ (i : Nat) f g, t.window.frames[i]? = some f → t.window.frames[i + 1]? = some g →
      f.nextOffset = g.offset) ∧
    (∀ f ∈ t.window.frames.head?, f.offset = t.window.acked) ∧
    (∀ f ∈ t.window.frames.getLast?, f.nextOffset = t.bytes.length) ∧
    (t.window.frames = [] → t.window.acked = t.bytes.length) ∧
    (∀ f ∈ t.window.frames, f.offset ≤ f.nextOffset ∧ f.payload.length = f.nextOffset - f.offset) ∧
    t.window.inFlight = (t.window.frames.map fun f => f.payload.length).sum ∧
    t.window.bufferedBytes = (t.window.frames.map fun f => f.payload.length).sum ∧
    (∀ k u, runFrom Pushed.step (Pushed.init maxBytes maxFrames) (ops.take k) = some u →
      u.window.acked ≤ t.window.acked) ∧
    ∀ offset, t.window.acked ≤ offset →
      (t.window.replayFrom offset).flatMap RelayFrame.payload = t.bytes.drop offset := by
  have h := runFrom_invariant (I := Pushed.Exact) (fun _ _ _ h hs => h.step hs) ops (Pushed.Exact.init _ _) hrun
  refine ⟨h.carries.contiguous, ?_, h.carries.nextOffset_getLast, ?_, ?_, h.inFlight, h.bufferedBytes, ?_,
    fun _ => h.replayFrom⟩
  · intro f hf
    have hcarries := h.carries
    cases hframes : t.window.frames with
    | nil =>
        rw [hframes] at hf
        cases hf
    | cons first frames =>
        rw [hframes] at hf hcarries
        cases hf
        exact hcarries.1
  · intro hnone
    have hcarries := h.carries
    rwa [hnone] at hcarries
  · intro f hf
    have hlength := h.carries.length_payload f hf
    omega
  · intro k u hu
    rw [← List.take_append_drop k ops, runFrom_append hu] at hrun
    exact Pushed.acked_le_run _ hrun

/-- An acknowledgement within the first frame. -/
theorem relay_window_exact_split :
    ∃ t, runFrom Pushed.step (Pushed.init 64 4)
        [.push 1 [1, 2, 3] false, .markSent 1, .push 2 [4, 5] false, .ack 2, .ack (-1)] = some t ∧
      t.window.frames.map RelayFrame.payload = [[3], [4, 5]] ∧
      (t.window.replayFrom 4).flatMap RelayFrame.payload = [5] := by
  obtain ⟨t, hrun, hframes, hacked, hbytes⟩ : ∃ t, runFrom Pushed.step (Pushed.init 64 4)
      [.push 1 [1, 2, 3] false, .markSent 1, .push 2 [4, 5] false, .ack 2, .ack (-1)] = some t ∧
      t.window.frames.map RelayFrame.payload = [[3], [4, 5]] ∧ t.window.acked ≤ 4 ∧
      t.bytes = [1, 2, 3, 4, 5] := ⟨_, rfl, rfl, by decide, rfl⟩
  have hreplay := (relay_window_exact 64 4 _ t hrun).2.2.2.2.2.2.2.2 4 hacked
  rw [hbytes] at hreplay
  exact ⟨t, hrun, hframes, hreplay⟩

end WebRelay
