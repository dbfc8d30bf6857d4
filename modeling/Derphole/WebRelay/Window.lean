import Derphole.Lib.Pieces
import Mathlib.Algebra.Ring.Nat

/-!
# The relay window

`relayWindow` of `pkg/derphole/webrelay/window.go`: the data frames that the
receiver has not acknowledged, in the order they were read.

An acknowledgement counts bytes and may fall inside a frame, which is then trimmed
and keeps its sequence number.  `FramesFrom` says what the window is while every
acknowledgement falls between frames: the chunks of the file from some chunk on,
each under its own number.
-/

namespace WebRelay

open Lib

/-- `relayFrame`. -/
structure RelayFrame where
  seq : Nat
  offset : Nat
  nextOffset : Nat
  payload : List UInt8
  sent : Bool

/-- `relayWindow`, with its configuration. -/
structure RelayWindow where
  maxBytes : Nat
  maxFrames : Nat
  frames : List RelayFrame
  acked : Nat
  inFlight : Nat
  bufferedBytes : Nat

/-- `webproto.MaxRelayPayloadBytes`. -/
def relayChunkBytes : Nat := 16 * 1024

/-- `webproto.MaxPayloadBytes`. -/
def directChunkBytes : Nat := 128 * 1024

def relayWindowBytes : Nat := 256 * 1024

def relayWindowFrames : Nat := relayWindowBytes / relayChunkBytes

def maxPendingFrames : Nat := relayWindowFrames * 2

def maxPendingBytes : Nat := maxPendingFrames * relayChunkBytes

def maxDirectPendingBytes : Nat := 128 * 1024 * 1024

def maxDirectPendingFrames : Nat := maxDirectPendingBytes / directChunkBytes

/-- `trimRelayFramePrefix`. -/
def trimRelayFramePrefix (frame : RelayFrame) (trimBytes : Nat) : RelayFrame :=
  if trimBytes = 0 then frame
  else if frame.payload.length ≤ trimBytes then { frame with payload := [], offset := frame.nextOffset }
  else { frame with offset := frame.offset + trimBytes, payload := frame.payload.drop trimBytes }

/-- The frames that go past `offset`, the first of them trimmed.  This is the loop of
`ack` and of `replayFrom`. -/
def framesPast (offset : Nat) : List RelayFrame → List RelayFrame
  | [] => []
  | frame :: frames =>
      if frame.nextOffset ≤ offset then framesPast offset frames
      else
        (if frame.offset < offset then trimRelayFramePrefix frame (offset - frame.offset)
          else frame) :: framesPast offset frames

def markSent (seq : Nat) : List RelayFrame → List RelayFrame
  | [] => []
  | frame :: frames =>
      if frame.seq = seq then { frame with sent := true } :: frames
      else frame :: markSent seq frames

namespace RelayWindow

/-- `newRelayWindow`. -/
def new (maxBytes maxFrames : Nat) : RelayWindow where
  maxBytes := if maxBytes = 0 then relayChunkBytes else maxBytes
  maxFrames := if maxFrames = 0 then 1 else maxFrames
  frames := []
  acked := 0
  inFlight := 0
  bufferedBytes := 0

variable (w : RelayWindow)

def canSend (payloadBytes : Nat) : Bool :=
  decide (w.frames.length < w.maxFrames) && decide (w.inFlight + payloadBytes ≤ w.maxBytes)

def push (frame : RelayFrame) : RelayWindow :=
  { w with
    frames := w.frames ++ [frame]
    inFlight := w.inFlight + frame.payload.length
    bufferedBytes := w.bufferedBytes + frame.payload.length }

def markSent (seq : Nat) : RelayWindow := { w with frames := WebRelay.markSent seq w.frames }

def firstUnacked : Option RelayFrame := w.frames.head?

def ack (bytesReceived : Nat) : RelayWindow :=
  if bytesReceived ≤ w.acked then w
  else
    { w with
      acked := bytesReceived
      frames := framesPast bytesReceived w.frames
      inFlight := ((framesPast bytesReceived w.frames).map fun frame => frame.payload.length).sum
      bufferedBytes := ((framesPast bytesReceived w.frames).map fun frame => frame.payload.length).sum }

def empty : Bool := w.frames.isEmpty

def replayFrom (offset : Nat) : List RelayFrame := framesPast offset w.frames

theorem acked_ack (bytes : Nat) : (w.ack bytes).acked = max w.acked bytes := by
  rw [ack]
  split
  next hle => rw [Nat.max_eq_left hle]
  next hlt => rw [Nat.max_eq_right (Nat.le_of_not_le hlt)]

end RelayWindow

/-- What a frame says but for its mark stays. -/
theorem markSent_map {β : Type} (f : RelayFrame → β)
    (hf : ∀ frame : RelayFrame, f { frame with sent := true } = f frame) (seq : Nat)
    (frames : List RelayFrame) : (markSent seq frames).map f = frames.map f := by
  induction frames with
  | nil => rfl
  | cons frame frames ih =>
      rw [markSent]
      split
      · rw [List.map_cons, List.map_cons, hf]
      · rw [List.map_cons, List.map_cons, ih]

/-! ## The window and the chunks -/

/-- The frame carries the chunk `i`. -/
structure IsFrame (chunks : List (List UInt8)) (i : Nat) (frame : RelayFrame) : Prop where
  lt : i < chunks.length
  seq : frame.seq = i + 1
  offset : frame.offset = offsetAt chunks i
  nextOffset : frame.nextOffset = offsetAt chunks (i + 1)
  payload : frame.payload = chunks.getD i []

/-- The frames carry the chunks from `i` on. -/
def FramesFrom (chunks : List (List UInt8)) : Nat → List RelayFrame → Prop
  | i, [] => i = chunks.length
  | i, frame :: frames => IsFrame chunks i frame ∧ FramesFrom chunks (i + 1) frames

theorem IsFrame.append {chunks : List (List UInt8)} {i : Nat} {frame : RelayFrame}
    (h : IsFrame chunks i frame) (more : List (List UInt8)) : IsFrame (chunks ++ more) i frame where
  lt := by
    have := h.lt
    rw [List.length_append]
    omega
  seq := h.seq
  offset := by
    rw [h.offset, offsetAt_append _ (Nat.le_of_lt h.lt)]
  nextOffset := by
    rw [h.nextOffset, offsetAt_append _ h.lt]
  payload := by
    rw [h.payload, getD_append_of_lt _ h.lt]

namespace FramesFrom

variable {chunks : List (List UInt8)}

theorem le {i : Nat} {frames : List RelayFrame} (h : FramesFrom chunks i frames) :
    i ≤ chunks.length := by
  cases frames with
  | nil => exact Nat.le_of_eq h
  | cons frame frames => exact Nat.le_of_lt h.1.lt

theorem mem {i : Nat} {frames : List RelayFrame} (h : FramesFrom chunks i frames) {frame : RelayFrame}
    (hmem : frame ∈ frames) : ∃ j, i ≤ j ∧ IsFrame chunks j frame := by
  induction frames generalizing i with
  | nil => cases hmem
  | cons f fs ih =>
      rcases List.mem_cons.mp hmem with rfl | hmem
      · exact ⟨i, Nat.le_refl i, h.1⟩
      · obtain ⟨j, hj, hframe⟩ := ih h.2 hmem
        exact ⟨j, by omega, hframe⟩

/-- An acknowledgement of whole chunks keeps the chunks after it. -/
theorem past (hne : ∀ chunk ∈ chunks, chunk ≠ []) {m : Nat} (hm : m ≤ chunks.length) {i : Nat}
    {frames : List RelayFrame} (h : FramesFrom chunks i frames) :
    FramesFrom chunks (max i m) (framesPast (offsetAt chunks m) frames) := by
  induction frames generalizing i with
  | nil =>
      have hi : i = chunks.length := h
      show max i m = chunks.length
      omega
  | cons f fs ih =>
      obtain ⟨hf, hfs⟩ := h
      have hlt := hf.lt
      rw [framesPast, hf.nextOffset, hf.offset]
      split
      · rename_i hle
        have him := le_of_offsetAt_le hne hlt hle
        have hrest := ih hfs
        rw [Nat.max_eq_right him] at hrest
        rwa [Nat.max_eq_right (by omega)]
      · rename_i hgt
        have him : m ≤ i := by
          by_contra hlt'
          exact hgt (offsetAt_mono chunks (by omega) hm)
        have hrest := ih hfs
        rw [Nat.max_eq_left (by omega)] at hrest
        rw [Nat.max_eq_left him, if_neg (Nat.not_lt.mpr (offsetAt_mono chunks him (by omega)))]
        exact ⟨hf, hrest⟩

theorem mark {i : Nat} {frames : List RelayFrame} (h : FramesFrom chunks i frames) (seq : Nat) :
    FramesFrom chunks i (WebRelay.markSent seq frames) := by
  induction frames generalizing i with
  | nil => exact h
  | cons f fs ih =>
      obtain ⟨hf, hfs⟩ := h
      rw [WebRelay.markSent]
      split
      · exact ⟨⟨hf.lt, hf.seq, hf.offset, hf.nextOffset, hf.payload⟩, hfs⟩
      · exact ⟨hf, ih hfs⟩

/-- The next chunk is read. -/
theorem push {i : Nat} {frames : List RelayFrame} (h : FramesFrom chunks i frames)
    (chunk : List UInt8) (sent : Bool) :
    FramesFrom (chunks ++ [chunk]) i (frames ++ [⟨chunks.length + 1, offsetAt chunks chunks.length,
      offsetAt chunks chunks.length + chunk.length, chunk, sent⟩]) := by
  induction frames generalizing i with
  | nil =>
      have hi : i = chunks.length := h
      have hlen : (chunks ++ [chunk]).length = chunks.length + 1 := by simp
      rw [hi]
      refine ⟨⟨by omega, rfl, ?_, ?_, ?_⟩, hlen.symm⟩
      · exact (offsetAt_append _ (Nat.le_refl _)).symm
      · rw [offsetAt_succ (by omega), offsetAt_append _ (Nat.le_refl _), getD_concat]
      · exact (getD_concat _ _).symm
  | cons f fs ih => exact ⟨h.1.append _, ih h.2⟩

end FramesFrom

/-- The window starts after the chunks that it counts as acknowledged. -/
def WindowAt (chunks : List (List UInt8)) (w : RelayWindow) : Prop :=
  ∃ i, w.acked = offsetAt chunks i ∧ FramesFrom chunks i w.frames

namespace WindowAt

variable {chunks : List (List UInt8)} {w : RelayWindow}

theorem new (maxBytes maxFrames : Nat) : WindowAt [] (RelayWindow.new maxBytes maxFrames) :=
  ⟨0, rfl, rfl⟩

theorem ack (h : WindowAt chunks w) (hne : ∀ chunk ∈ chunks, chunk ≠ []) {m : Nat}
    (hm : m ≤ chunks.length) : WindowAt chunks (w.ack (offsetAt chunks m)) := by
  obtain ⟨i, hacked, hframes⟩ := h
  rw [RelayWindow.ack]
  split
  · exact ⟨i, hacked, hframes⟩
  · rename_i hlt
    have him : i ≤ m := by
      by_contra hmi
      have hi := hframes.le
      exact hlt (hacked ▸ offsetAt_mono chunks (by omega) hi)
    refine ⟨m, rfl, ?_⟩
    have hpast := hframes.past hne hm
    rwa [Nat.max_eq_right him] at hpast

theorem push (h : WindowAt chunks w) (chunk : List UInt8) :
    WindowAt (chunks ++ [chunk]) ((w.push ⟨chunks.length + 1, offsetAt chunks chunks.length,
      offsetAt chunks chunks.length + chunk.length, chunk, false⟩).markSent (chunks.length + 1)) := by
  obtain ⟨i, hacked, hframes⟩ := h
  refine ⟨i, ?_, (hframes.push chunk false).mark _⟩
  rw [offsetAt_append _ hframes.le]
  exact hacked

/-- What is replayed are frames of the window. -/
theorem replayFrom (h : WindowAt chunks w) (hne : ∀ chunk ∈ chunks, chunk ≠ []) {m : Nat}
    (hm : m ≤ chunks.length) :
    ∃ i, FramesFrom chunks i (w.replayFrom (offsetAt chunks m)) := by
  obtain ⟨i, -, hframes⟩ := h
  exact ⟨max i m, hframes.past hne hm⟩

end WindowAt

end WebRelay
