import Derphole.Lib.Codec
import Derphole.Session.Handoff

/-!
# Frames of a handoff carrier

The frames of `pkg/session/external_handoff.go`, and `receiveExternalHandoffCarrier`, which reads them from
a carrier.  A carrier is a list of bytes with an end, at which reading it says `io.EOF`.

The header of a frame is read field by field, and `io.ReadFull` says `io.EOF` when nothing at all of a field
is there.  So a carrier that is cut between two fields, or between the header and the payload, looks like
one that was closed between two frames (`readFrame_cut`).
-/

namespace Session

open Lib

def externalHandoffTransferIDHandoff : UInt64 := 0xffffffffffffffff

/-- `externalHandoffChunk`. -/
structure HandoffFrame where
  transferID : UInt64
  offset : Int64
  payload : List UInt8
  deriving DecidableEq

inductive HandoffFrameError where
  | eof
  | unexpectedEOF
  | negativeOffset (offset : Int64)
  | payloadExceedsUint32 (length : Nat)
  | markerPayload (length : Nat)
  | exceedsMax (length : Nat) (max : Int)
  deriving DecidableEq

/-! ## Writing and reading -/

/-- The bytes of a frame.  What `writeExternalHandoffHandoffFrame` writes is the frame of a chunk with the id
of the marker and no payload. -/
def handoffFrameBytes (chunk : HandoffFrame) : List UInt8 :=
  Codec.uint64.write chunk.transferID ++ (Codec.int64.write chunk.offset ++
    (Codec.uint32.write (UInt32.ofNat chunk.payload.length) ++ chunk.payload))

def writeExternalHandoffChunkFrame (chunk : HandoffFrame) : Except HandoffFrameError (List UInt8) :=
  if chunk.offset < 0 then .error (.negativeOffset chunk.offset)
  else if chunk.payload.length > 2 ^ 32 - 1 then .error (.payloadExceedsUint32 chunk.payload.length)
  else .ok (handoffFrameBytes chunk)

def ofReaderError : Reader.Error → HandoffFrameError
  | .eof => .eof
  | .unexpectedEOF => .unexpectedEOF

def readExternalHandoffChunkFrame (maxPayload : Int) (r : List UInt8) :
    Except HandoffFrameError (HandoffFrame × List UInt8) :=
  match Reader.readFull Codec.uint64 r with
  | .error e => .error (ofReaderError e)
  | .ok (transferID, r) =>
      match Reader.readFull Codec.int64 r with
      | .error e => .error (ofReaderError e)
      | .ok (offset, r) =>
          if offset < 0 then .error (.negativeOffset offset)
          else
            match Reader.readFull Codec.uint32 r with
            | .error e => .error (ofReaderError e)
            | .ok (payloadLen, r) =>
                if transferID = externalHandoffTransferIDHandoff then
                  if payloadLen ≠ 0 then .error (.markerPayload payloadLen.toNat)
                  else .ok (⟨transferID, offset, []⟩, r)
                else if maxPayload < 0 ∨ payloadLen.toNat > maxPayload then
                  .error (.exceedsMax payloadLen.toNat maxPayload)
                else
                  match Reader.readBytes payloadLen.toNat r with
                  | .error e => .error (ofReaderError e)
                  | .ok (payload, r) => .ok (⟨transferID, offset, payload⟩, r)

/-- Frames until there is an error, and the error.  A frame takes at least one byte. -/
def readHandoffFrames (maxPayload : Int) : Nat → List UInt8 → List HandoffFrame × HandoffFrameError
  | 0, _ => ([], .eof)
  | fuel + 1, r =>
      match readExternalHandoffChunkFrame maxPayload r with
      | .error e => ([], e)
      | .ok (chunk, r) =>
          (chunk :: (readHandoffFrames maxPayload fuel r).1, (readHandoffFrames maxPayload fuel r).2)

/-! ## The carrier -/

/-- `externalHandoffCarrierClosed` of what reading a frame returns. -/
def externalHandoffCarrierClosed (e : HandoffFrameError) : Bool := e = .eof

/-- What else happens in a round of `receiveExternalHandoffCarrier`. -/
structure CarrierRound where
  /-- Writing the watermark fails. -/
  ackFails : Bool
  /-- Closing the writing side fails. -/
  closeFails : Bool
  cancelled : Bool
  /-- Writing to the output fails. -/
  fault : Option HandoffReceiver.WriteFault

/-- How `receiveExternalHandoffCarrier` ends.  It returns nil when it takes the carrier as closed, unless the
last watermark or the close fails; all the other ends are errors. -/
inductive CarrierEnd where
  | closed (ok : Bool)
  | handoff (ok : Bool)
  | frame (e : HandoffFrameError)
  | refused
  | ackFailed
  | cancelled
  deriving DecidableEq

/-- The carrier is not taken as closed, and an error is returned. -/
def CarrierEnd.isError : CarrierEnd → Bool
  | .closed _ => false
  | _ => true

/-- The loop, which takes at least one byte in a round that does not end it. -/
def receiveCarrier (maxPayload : Int) (rounds : Nat → CarrierRound) :
    Nat → Nat → HandoffReceiver → List UInt8 → CarrierEnd × HandoffReceiver
  | 0, _, rx, _ => (.closed true, rx)
  | fuel + 1, i, rx, r =>
      let round := rounds i
      match readExternalHandoffChunkFrame maxPayload r with
      | .error e =>
          if externalHandoffCarrierClosed e then (.closed (!round.ackFails && !round.closeFails), rx)
          else (.frame e, rx)
      | .ok (chunk, r) =>
          if chunk.transferID = externalHandoffTransferIDHandoff then
            (.handoff (!round.ackFails && !round.closeFails), rx)
          else
            match rx.acceptChunk ⟨chunk.offset.toNatClampNeg, chunk.payload⟩ round.fault with
            | (false, rx) => (.refused, rx)
            | (true, rx) =>
                if round.ackFails then (.ackFailed, rx)
                else if round.cancelled then (.cancelled, rx)
                else receiveCarrier maxPayload rounds fuel (i + 1) rx r

def receiveExternalHandoffCarrier (maxPayload : Int) (rounds : Nat → CarrierRound) (rx : HandoffReceiver)
    (r : List UInt8) : CarrierEnd × HandoffReceiver :=
  receiveCarrier maxPayload rounds (r.length + 1) 0 rx r

/-! ## One frame -/

variable {maxPayload : Int} {c : HandoffFrame}

/-- `writeExternalHandoffChunkFrame` takes the chunk. -/
structure HandoffFrame.Writable (c : HandoffFrame) : Prop where
  offset : 0 ≤ c.offset
  short : c.payload.length < 2 ^ 32

theorem write_eq_ok_iff {bytes : List UInt8} :
    writeExternalHandoffChunkFrame c = .ok bytes ↔ c.Writable ∧ bytes = handoffFrameBytes c := by
  rw [writeExternalHandoffChunkFrame]
  constructor
  · intro h
    split at h
    · cases h
    next hoffset =>
      split at h
      · cases h
      next hshort =>
        cases h
        exact ⟨⟨Int64.not_lt.mp hoffset, by omega⟩, rfl⟩
  · rintro ⟨⟨hoffset, hshort⟩, rfl⟩
    rw [if_neg (Int64.not_lt.mpr hoffset), if_neg (by omega)]

theorem length_handoffFrameBytes : (handoffFrameBytes c).length = 20 + c.payload.length := by
  simp only [handoffFrameBytes, List.length_append, Codec.length_write, Codec.size_uint64,
    Codec.size_int64, Codec.size_uint32]
  omega

theorem toNat_payloadLen (hw : c.Writable) :
    (UInt32.ofNat c.payload.length).toNat = c.payload.length := by
  rw [UInt32.toNat_ofNat']
  exact Nat.mod_eq_of_lt hw.short

theorem payloadLen_eq_zero_iff (hw : c.Writable) :
    UInt32.ofNat c.payload.length = 0 ↔ c.payload = [] := by
  rw [← UInt32.toNat_inj, toNat_payloadLen hw]
  exact List.length_eq_zero_iff

/-- The frames that are read back: those with the id of the marker have no payload. -/
def HandoffFrame.Plain (c : HandoffFrame) : Prop :=
  c.transferID = externalHandoffTransferIDHandoff → c.payload = []

theorem readFrame_append (hw : c.Writable) (hlimit : c.payload.length ≤ maxPayload) (hplain : c.Plain)
    (rest : List UInt8) :
    readExternalHandoffChunkFrame maxPayload (handoffFrameBytes c ++ rest) = .ok (c, rest) := by
  have hoffset : ¬ c.offset < 0 := Int64.not_lt.mpr hw.offset
  simp only [readExternalHandoffChunkFrame, handoffFrameBytes, List.append_assoc, Reader.readFull_append,
    if_neg hoffset, toNat_payloadLen hw]
  by_cases hid : c.transferID = externalHandoffTransferIDHandoff
  · have hnone := hplain hid
    rw [if_pos hid, if_neg (not_not.mpr ((payloadLen_eq_zero_iff hw).mpr hnone)), hnone]
    exact congrArg (fun p => Except.ok (HandoffFrame.mk _ _ p, rest)) hnone.symm
  · rw [if_neg hid, if_neg (by omega), Reader.readBytes_append]

/-- A marker with a payload is not read. -/
theorem readFrame_marker (hw : c.Writable) (hid : c.transferID = externalHandoffTransferIDHandoff)
    (hsome : c.payload ≠ []) (rest : List UInt8) :
    readExternalHandoffChunkFrame maxPayload (handoffFrameBytes c ++ rest) =
      .error (.markerPayload c.payload.length) := by
  have hoffset : ¬ c.offset < 0 := Int64.not_lt.mpr hw.offset
  simp only [readExternalHandoffChunkFrame, handoffFrameBytes, List.append_assoc, Reader.readFull_append,
    if_neg hoffset, toNat_payloadLen hw, if_pos hid]
  exact if_pos (mt (payloadLen_eq_zero_iff hw).mp hsome)

/-- Where a cut looks like the end of the carrier: behind a field of the header. -/
def HandoffFrame.LooksClosed (c : HandoffFrame) (k : Nat) : Prop :=
  k = 8 ∨ k = 16 ∨ k = 20 ∧ c.transferID ≠ externalHandoffTransferIDHandoff

instance (k : Nat) : Decidable (c.LooksClosed k) := inferInstanceAs (Decidable (_ ∨ _))

/-- A frame that is cut is not read, and the error is `io.EOF` just behind a field of the header. -/
theorem readFrame_cut (hw : c.Writable) (hlimit : c.payload.length ≤ maxPayload) {k : Nat} (hpos : 0 < k)
    (hcut : k < (handoffFrameBytes c).length) :
    ∃ e, readExternalHandoffChunkFrame maxPayload ((handoffFrameBytes c).take k) = .error e ∧
      (e = .eof ↔ c.LooksClosed k) := by
  have hoffset : ¬ c.offset < 0 := Int64.not_lt.mpr hw.offset
  rw [length_handoffFrameBytes] at hcut
  rw [handoffFrameBytes, readExternalHandoffChunkFrame, Reader.readFull_take, if_neg (by omega),
    Codec.size_uint64, HandoffFrame.LooksClosed]
  by_cases h8 : k < 8
  · exact ⟨.unexpectedEOF, by rw [if_pos h8]; rfl, by simp; omega⟩
  rw [if_neg h8]
  dsimp only
  rw [Reader.readFull_take, Codec.size_int64]
  by_cases h8' : k - 8 = 0
  · exact ⟨.eof, by rw [if_pos h8']; rfl, by simp; omega⟩
  rw [if_neg h8']
  by_cases h16 : k - 8 < 8
  · exact ⟨.unexpectedEOF, by rw [if_pos h16]; rfl, by simp; omega⟩
  rw [if_neg h16]
  dsimp only
  rw [if_neg hoffset, Reader.readFull_take, Codec.size_uint32]
  by_cases h16' : k - 8 - 8 = 0
  · exact ⟨.eof, by rw [if_pos h16']; rfl, by simp; omega⟩
  rw [if_neg h16']
  by_cases h20 : k - 8 - 8 < 4
  · exact ⟨.unexpectedEOF, by rw [if_pos h20]; rfl, by simp; omega⟩
  rw [if_neg h20]
  dsimp only
  by_cases hid : c.transferID = externalHandoffTransferIDHandoff
  · have hsome : c.payload ≠ [] := List.length_pos_iff.mp (by omega)
    refine ⟨.markerPayload c.payload.length, ?_, by simp [hid]; omega⟩
    rw [if_pos hid, if_pos (mt (payloadLen_eq_zero_iff hw).mp hsome), toNat_payloadLen hw]
  rw [if_neg hid, toNat_payloadLen hw, if_neg (by omega), Reader.readBytes_take, if_neg (by omega)]
  by_cases h20' : k - 8 - 8 - 4 = 0
  · exact ⟨.eof, by rw [if_pos h20']; rfl, by simp [hid]; omega⟩
  · exact ⟨.unexpectedEOF, by rw [if_neg h20']; rfl, by simp; omega⟩

/-! ## A carrier -/

/-- The bytes of some frames. -/
def handoffStream (cs : List HandoffFrame) : List UInt8 := (cs.map handoffFrameBytes).flatten

theorem length_handoffStream (cs : List HandoffFrame) : cs.length ≤ (handoffStream cs).length := by
  induction cs with
  | nil => exact Nat.le_refl _
  | cons c cs ih =>
      rw [handoffStream, List.map_cons, List.flatten_cons, List.length_append, ← handoffStream,
        length_handoffFrameBytes, List.length_cons]
      omega

theorem readHandoffFrames_stream {cs : List HandoffFrame} (hw : ∀ c ∈ cs, c.Writable)
    (hlimit : ∀ c ∈ cs, c.payload.length ≤ maxPayload) (hplain : ∀ c ∈ cs, c.Plain) {fuel : Nat}
    (hfuel : cs.length < fuel) : readHandoffFrames maxPayload fuel (handoffStream cs) = (cs, .eof) := by
  induction cs generalizing fuel with
  | nil =>
      obtain ⟨fuel, rfl⟩ := Nat.exists_eq_succ_of_ne_zero (Nat.ne_of_gt hfuel)
      rfl
  | cons c cs ih =>
      rw [List.length_cons] at hfuel
      obtain ⟨fuel, rfl⟩ := Nat.exists_eq_succ_of_ne_zero (show fuel ≠ 0 by omega)
      have hrest := ih (fun d hd => hw d (List.mem_cons_of_mem c hd))
        (fun d hd => hlimit d (List.mem_cons_of_mem c hd))
        (fun d hd => hplain d (List.mem_cons_of_mem c hd)) (show cs.length < fuel by omega)
      rw [readHandoffFrames, handoffStream, List.map_cons, List.flatten_cons,
        readFrame_append (hw c List.mem_cons_self) (hlimit c List.mem_cons_self)
          (hplain c List.mem_cons_self)]
      dsimp only
      rw [← handoffStream, hrest]

/-- Frames are read back just when no marker has a payload. -/
theorem readHandoffFrames_iff {cs : List HandoffFrame} (hw : ∀ c ∈ cs, c.Writable)
    (hlimit : ∀ c ∈ cs, c.payload.length ≤ maxPayload) {fuel : Nat} (hfuel : cs.length < fuel) :
    readHandoffFrames maxPayload fuel (handoffStream cs) = (cs, .eof) ↔ ∀ c ∈ cs, c.Plain := by
  refine ⟨fun h => ?_, fun hplain => readHandoffFrames_stream hw hlimit hplain hfuel⟩
  induction cs generalizing fuel with
  | nil => simp
  | cons c cs ih =>
      rw [List.length_cons] at hfuel
      obtain ⟨fuel, rfl⟩ := Nat.exists_eq_succ_of_ne_zero (show fuel ≠ 0 by omega)
      rw [readHandoffFrames, handoffStream, List.map_cons, List.flatten_cons, ← handoffStream] at h
      have hhere : c.Plain := by
        intro hid
        by_contra hsome
        rw [readFrame_marker (hw c List.mem_cons_self) hid hsome] at h
        cases h
      rw [readFrame_append (hw c List.mem_cons_self) (hlimit c List.mem_cons_self) hhere] at h
      simp only [Prod.mk.injEq, List.cons.injEq, true_and] at h
      refine List.forall_mem_cons.mpr ⟨hhere, ?_⟩
      exact ih (fun d hd => hw d (List.mem_cons_of_mem c hd))
        (fun d hd => hlimit d (List.mem_cons_of_mem c hd)) (show cs.length < fuel by omega)
        (Prod.ext h.1 h.2)

/-- The loop gets past all of the frames. -/
def PassesAll (rounds : Nat → CarrierRound) : Nat → HandoffReceiver → List HandoffFrame → Prop
  | _, _, [] => True
  | i, rx, c :: cs =>
      c.transferID ≠ externalHandoffTransferIDHandoff ∧
        (rx.acceptChunk ⟨c.offset.toNatClampNeg, c.payload⟩ (rounds i).fault).1 = true ∧
        (rounds i).ackFails = false ∧ (rounds i).cancelled = false ∧
        PassesAll rounds (i + 1)
          (rx.acceptChunk ⟨c.offset.toNatClampNeg, c.payload⟩ (rounds i).fault).2 cs

/-- A carrier that is cut within a frame is taken as closed just when the loop gets that far and the cut is
right behind a field of the header. -/
theorem receiveCarrier_cut {cs : List HandoffFrame} {last : HandoffFrame} {k : Nat}
    (hw : ∀ c ∈ cs, c.Writable) (hlimit : ∀ c ∈ cs, c.payload.length ≤ maxPayload)
    (hlast : last.Writable) (hlastLimit : last.payload.length ≤ maxPayload) (hpos : 0 < k)
    (hcut : k < (handoffFrameBytes last).length) (rounds : Nat → CarrierRound) {fuel : Nat}
    (hfuel : cs.length < fuel) (i : Nat) (rx : HandoffReceiver) :
    (receiveCarrier maxPayload rounds fuel i rx
        (handoffStream cs ++ (handoffFrameBytes last).take k)).1.isError = true ↔
      ¬(PassesAll rounds i rx cs ∧ last.LooksClosed k) := by
  induction cs generalizing fuel i rx with
  | nil =>
      obtain ⟨fuel, rfl⟩ := Nat.exists_eq_succ_of_ne_zero (Nat.ne_of_gt hfuel)
      obtain ⟨e, he, heof⟩ := readFrame_cut hlast hlastLimit hpos hcut
      rw [receiveCarrier, show handoffStream [] = [] from rfl, List.nil_append, he]
      simp only [PassesAll, true_and, externalHandoffCarrierClosed, decide_eq_true_eq]
      by_cases hclosed : last.LooksClosed k
      · simp [heof.mpr hclosed, hclosed, CarrierEnd.isError]
      · simp [mt heof.mp hclosed, hclosed, CarrierEnd.isError]
  | cons c cs ih =>
      rw [List.length_cons] at hfuel
      obtain ⟨fuel, rfl⟩ := Nat.exists_eq_succ_of_ne_zero (show fuel ≠ 0 by omega)
      have hstream : handoffStream (c :: cs) ++ (handoffFrameBytes last).take k =
          handoffFrameBytes c ++ (handoffStream cs ++ (handoffFrameBytes last).take k) := by
        rw [handoffStream, List.map_cons, List.flatten_cons, ← handoffStream, List.append_assoc]
      rw [receiveCarrier, hstream, PassesAll]
      by_cases hid : c.transferID = externalHandoffTransferIDHandoff
      · -- A marker ends the loop, and one with a payload is an error.
        by_cases hsome : c.payload = []
        · rw [readFrame_append (hw c List.mem_cons_self) (hlimit c List.mem_cons_self) fun _ => hsome]
          simp [hid, CarrierEnd.isError]
        · rw [readFrame_marker (hw c List.mem_cons_self) hid hsome]
          simp [hid, CarrierEnd.isError, externalHandoffCarrierClosed]
      rw [readFrame_append (hw c List.mem_cons_self) (hlimit c List.mem_cons_self) fun h => absurd h hid]
      dsimp only
      rw [if_neg hid]
      cases haccept : rx.acceptChunk ⟨c.offset.toNatClampNeg, c.payload⟩ (rounds i).fault with
      | mk ok rx' =>
          have hrest := ih (fun d hd => hw d (List.mem_cons_of_mem c hd))
            (fun d hd => hlimit d (List.mem_cons_of_mem c hd)) (show cs.length < fuel by omega) (i + 1) rx'
          cases ok with
          | false => simp [CarrierEnd.isError]
          | true =>
              cases hack : (rounds i).ackFails with
              | true => simp [CarrierEnd.isError]
              | false =>
                  cases hcancel : (rounds i).cancelled with
                  | true => simp [CarrierEnd.isError]
                  | false => simpa [hid] using hrest

theorem of_mapM_write {cs : List HandoffFrame} {frames : List (List UInt8)}
    (h : cs.mapM writeExternalHandoffChunkFrame = .ok frames) :
    (∀ c ∈ cs, c.Writable) ∧ frames = cs.map handoffFrameBytes := by
  induction cs generalizing frames with
  | nil =>
      cases h
      exact ⟨by simp, rfl⟩
  | cons c cs ih =>
      rw [List.mapM_cons] at h
      cases hc : writeExternalHandoffChunkFrame c with
      | error e => rw [hc] at h; cases h
      | ok bytes =>
          obtain ⟨hw, rfl⟩ := write_eq_ok_iff.mp hc
          rw [hc] at h
          cases hcs : cs.mapM writeExternalHandoffChunkFrame with
          | error e => rw [hcs] at h; cases h
          | ok rest =>
              rw [hcs] at h
              cases h
              obtain ⟨hws, rfl⟩ := ih hcs
              exact ⟨List.forall_mem_cons.mpr ⟨hw, hws⟩, rfl⟩

/-- Frames with payloads within the limit are read back just when none has the id of the marker and a
payload.  A carrier that ends within a frame is not taken as closed, unless the loop gets to the end and the
cut is right behind a field of the header. -/
theorem handoff_frames_iff (maxPayload : Int) (cs : List HandoffFrame) (frames : List (List UInt8))
    (hwritten : cs.mapM writeExternalHandoffChunkFrame = .ok frames)
    (hlimit : ∀ c ∈ cs, c.payload.length ≤ maxPayload) :
    (readHandoffFrames maxPayload (frames.flatten.length + 1) frames.flatten = (cs, .eof) ↔
      ∀ c ∈ cs, c.transferID = externalHandoffTransferIDHandoff → c.payload = []) ∧
    ∀ (last : HandoffFrame) (frame : List UInt8), writeExternalHandoffChunkFrame last = .ok frame →
      last.payload.length ≤ maxPayload → ∀ k, 0 < k → k < frame.length →
      ∀ (rounds : Nat → CarrierRound) (rx : HandoffReceiver),
        ((receiveExternalHandoffCarrier maxPayload rounds rx (frames.flatten ++ frame.take k)).1.isError =
            true ↔
          ¬(PassesAll rounds 0 rx cs ∧
            (k = 8 ∨ k = 16 ∨ k = 20 ∧ last.transferID ≠ externalHandoffTransferIDHandoff))) := by
  obtain ⟨hw, rfl⟩ := of_mapM_write hwritten
  have hlength : cs.length ≤ (cs.map handoffFrameBytes).flatten.length := length_handoffStream cs
  refine ⟨readHandoffFrames_iff hw hlimit (Nat.lt_succ_of_le hlength), ?_⟩
  intro last frame hlast hlastLimit k hpos hcut rounds rx
  obtain ⟨hlw, rfl⟩ := write_eq_ok_iff.mp hlast
  refine receiveCarrier_cut hw hlimit hlw hlastLimit hpos hcut rounds ?_ 0 rx
  rw [List.length_append]
  omega

theorem handoff_frames_iff_cut :
    let first := handoffFrameBytes ⟨7, 0, [1, 2]⟩
    let second := handoffFrameBytes ⟨7, 2, [3]⟩
    let quiet : Nat → CarrierRound := fun _ => ⟨false, false, false, none⟩
    readHandoffFrames 4 (([first].flatten).length + 1) [first].flatten = ([⟨7, 0, [1, 2]⟩], .eof) ∧
      (receiveExternalHandoffCarrier 4 quiet (.new 64) ([first].flatten ++ second.take 9)).1.isError =
        true := by
  have h := handoff_frames_iff 4 [⟨7, 0, [1, 2]⟩] [handoffFrameBytes ⟨7, 0, [1, 2]⟩] rfl (by decide)
  refine ⟨h.1.mpr (by decide), ?_⟩
  exact (h.2 ⟨7, 2, [3]⟩ _ rfl (by decide) 9 (by decide) (by decide) _ _).mpr (by simp)

/-- A carrier that ends behind the transfer id of a frame, behind its offset or behind its header is taken
as closed, and nil is returned. -/
theorem handoff_cut_looks_closed :
    let first := handoffFrameBytes ⟨7, 0, [1, 2]⟩
    let second := handoffFrameBytes ⟨7, 2, [3]⟩
    let quiet : Nat → CarrierRound := fun _ => ⟨false, false, false, none⟩
    second.length = 21 ∧
      ∀ k ∈ [8, 16, 20],
        (receiveExternalHandoffCarrier 4 quiet (.new 64) (first ++ second.take k)).1 = .closed true := by
  decide +kernel

end Session
