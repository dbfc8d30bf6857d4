import Derphole.Lib.Codec
import Derphole.Lib.Json

/-!
# Frames on a carrier

`writeOnCarrier` and `readFrame` of `pkg/derptun/mux.go`.  A frame is the length of its header, the header as
JSON, and a payload whose length stands in the header.  What `json.Marshal` writes is that of `Lib.Json`;
`json.Unmarshal` into a header is a parameter.

A reader takes headers of at most 64 KiB, and a writer does not look at how long a header is.  The types that
the multiplexer uses are short (`length_marshal_le`), so that its frames are read back (`mux_frame_codec`),
but a header with a long type is refused (`long_type_refused`).
-/

namespace Derptun

open Lib

structure FrameHeader where
  type : List UInt8
  streamID : UInt64
  seq : UInt64
  length : Int64
  deriving DecidableEq

def frameTypeOpen : List UInt8 := ascii "open"

def frameTypeData : List UInt8 := ascii "data"

def frameTypeClose : List UInt8 := ascii "close"

def frameTypeAck : List UInt8 := ascii "ack"

def frameTypePing : List UInt8 := ascii "ping"

def frameTypePong : List UInt8 := ascii "pong"

def frameTypes : List (List UInt8) :=
  [frameTypeOpen, frameTypeData, frameTypeClose, frameTypeAck, frameTypePing, frameTypePong]

def maxFrameHeaderBytes : Nat := 65536

def maxFramePayloadBytes : Nat := 1048576

/-- `json.Marshal` of a header, which leaves out the fields that are zero. -/
def FrameHeader.marshal (h : FrameHeader) : List UInt8 :=
  Json.object (("type", Json.quote h.type) ::
    ((if h.streamID = 0 then [] else [("stream_id", natDecimal h.streamID.toNat)]) ++
      ((if h.seq = 0 then [] else [("seq", natDecimal h.seq.toNat)]) ++
        (if h.length = 0 then [] else [("length", Json.number h.length)]))))

inductive CarrierError where
  | errClosed
  | eof
  | write
  deriving DecidableEq

/-- What is written on the carrier.  `closed` and `current` are what the multiplexer finds out about itself
and the carrier under the lock, and `writes` says which writes on the carrier succeed. -/
def writeOnCarrier (closed current : Bool) (writes : Nat → Bool) (header : FrameHeader)
    (payload : List UInt8) : Except CarrierError (List UInt8) :=
  let headerBytes := header.marshal
  let size := Codec.uint32.write (UInt32.ofNat headerBytes.length)
  if closed then .error .errClosed
  else if !current then .error .eof
  else if !writes 0 then .error .write
  else if !writes 1 then .error .write
  else if payload.length = 0 then .ok (size ++ headerBytes)
  else if !writes 2 then .error .write
  else .ok (size ++ (headerBytes ++ payload))

inductive FrameError where
  | read (e : Reader.Error)
  | errInvalidFrame
  | unmarshal
  deriving DecidableEq

structure MuxFrame where
  header : FrameHeader
  payload : List UInt8
  deriving DecidableEq

section

variable (unmarshal : List UInt8 → Option FrameHeader)

/-- The frame at the front, and what is left. -/
def readFrame (r : List UInt8) : Except FrameError (MuxFrame × List UInt8) :=
  match Reader.readFull Codec.uint32 r with
  | .error e => .error (.read e)
  | .ok (headerLen, r) =>
      if headerLen = 0 ∨ headerLen.toNat > maxFrameHeaderBytes then .error .errInvalidFrame
      else
        match Reader.readBytes headerLen.toNat r with
        | .error e => .error (.read e)
        | .ok (headerBytes, r) =>
            match unmarshal headerBytes with
            | none => .error .unmarshal
            | some header =>
                if header.length < 0 ∨ header.length.toInt > maxFramePayloadBytes then
                  .error .errInvalidFrame
                else
                  match Reader.readBytes header.length.toNatClampNeg r with
                  | .error e => .error (.read e)
                  | .ok (payload, r) => .ok (⟨header, payload⟩, r)

/-- `readFrame`, as often as given. -/
def readFrames : Nat → List UInt8 → Except FrameError (List MuxFrame × List UInt8)
  | 0, r => .ok ([], r)
  | n + 1, r =>
      match readFrame unmarshal r with
      | .error e => .error e
      | .ok (frame, r) =>
          match readFrames n r with
          | .error e => .error e
          | .ok (frames, r) => .ok (frame :: frames, r)

end

/-! ## Headers -/

theorem length_number_le (n : Int64) : (Json.number n).length ≤ 20 := by
  have hlow := n.le_toInt
  have hhigh := n.toInt_lt
  rw [Json.number]
  cases h : n.toInt with
  | ofNat m =>
      rw [h, Int.ofNat_eq_natCast] at hhigh
      rw [decimal]
      exact length_natDecimal_le (by omega) (by omega)
  | negSucc m =>
      rw [decimal, List.length_cons]
      exact Nat.succ_le_succ (length_natDecimal_le (k := 19) (by omega) (by omega))

theorem length_uint64_le (n : UInt64) : (natDecimal n.toNat).length ≤ 20 :=
  length_natDecimal_le (by omega) (Nat.lt_trans n.toNat_lt (by omega))

/-- A field that may be left out, with a value of at most 20 bytes. -/
theorem length_optional_le (p : Prop) [Decidable p] (key : String) {value : List UInt8} (n : Nat)
    (hkey : (Json.quote (ascii key)).length = n) (hvalue : value.length ≤ 20) :
    ((if p then [] else [(key, value)]).map fun f : String × List UInt8 =>
      (Json.quote (ascii f.1)).length + f.2.length + 2).sum ≤ n + 22 := by
  split
  · exact Nat.zero_le _
  · rw [List.map_singleton, List.sum_singleton]
    dsimp only
    omega

/-- All but the type takes at most 100 bytes. -/
theorem length_marshal_le_type (h : FrameHeader) : h.marshal.length ≤ (Json.quote h.type).length + 100 := by
  have hmembers := Json.length_members_le (("type", Json.quote h.type) ::
    ((if h.streamID = 0 then [] else [("stream_id", natDecimal h.streamID.toNat)]) ++
      ((if h.seq = 0 then [] else [("seq", natDecimal h.seq.toNat)]) ++
        (if h.length = 0 then [] else [("length", Json.number h.length)]))))
  rw [List.map_cons, List.sum_cons, List.map_append, List.sum_append, List.map_append,
    List.sum_append] at hmembers
  dsimp only at hmembers
  have htype : (Json.quote (ascii "type")).length = 6 := by decide +kernel
  have hid := length_optional_le (h.streamID = 0) "stream_id" 11 (by decide +kernel) (length_uint64_le h.streamID)
  have hseq := length_optional_le (h.seq = 0) "seq" 5 (by decide +kernel) (length_uint64_le h.seq)
  have hlength := length_optional_le (h.length = 0) "length" 8 (by decide +kernel) (length_number_le h.length)
  rw [FrameHeader.marshal, Json.object, List.length_append, List.length_cons, List.length_singleton]
  omega

/-- The headers that the multiplexer sends are short. -/
theorem length_marshal_le {h : FrameHeader} (htype : h.type ∈ frameTypes) :
    h.marshal.length ≤ maxFrameHeaderBytes := by
  have hshort : ∀ type ∈ frameTypes, (Json.quote type).length ≤ 7 := by decide +kernel
  have htypeLength := hshort h.type htype
  have hlength := length_marshal_le_type h
  rw [maxFrameHeaderBytes]
  omega

theorem length_type_le (h : FrameHeader) : (Json.quote h.type).length ≤ h.marshal.length := by
  have hvalue := Json.length_value_le "type" (Json.quote h.type)
    ((if h.streamID = 0 then [] else [("stream_id", natDecimal h.streamID.toNat)]) ++
      ((if h.seq = 0 then [] else [("seq", natDecimal h.seq.toNat)]) ++
        (if h.length = 0 then [] else [("length", Json.number h.length)])))
  rw [FrameHeader.marshal, Json.object, List.length_append, List.length_cons]
  omega

theorem length_marshal_pos (h : FrameHeader) : 0 < h.marshal.length := by
  rw [FrameHeader.marshal, Json.object, List.length_append, List.length_cons]
  omega

/-! ## Writing and reading -/

section

variable {unmarshal : List UInt8 → Option FrameHeader} {frame : MuxFrame} {r rest : List UInt8}

/-- What is on the carrier when nothing has failed. -/
theorem writeOnCarrier_ok {closed current : Bool} {writes : Nat → Bool} {header : FrameHeader}
    {payload chunk : List UInt8} (h : writeOnCarrier closed current writes header payload = .ok chunk) :
    chunk = Codec.uint32.write (UInt32.ofNat header.marshal.length) ++ (header.marshal ++ payload) := by
  unfold writeOnCarrier at h
  dsimp only at h
  split_ifs at h with _ _ _ _ hempty
  · cases h
    rw [List.length_eq_zero_iff.mp hempty, List.append_nil]
  · cases h
    rfl

/-- A frame within the limits is read back. -/
theorem readFrame_write (hheader : frame.header.marshal.length ≤ maxFrameHeaderBytes)
    (hround : unmarshal frame.header.marshal = some frame.header)
    (hlength : frame.header.length.toInt = frame.payload.length)
    (hpayload : frame.payload.length ≤ maxFramePayloadBytes) (rest : List UInt8) :
    readFrame unmarshal (Codec.uint32.write (UInt32.ofNat frame.header.marshal.length) ++
      (frame.header.marshal ++ frame.payload) ++ rest) = .ok (frame, rest) := by
  have hpos := length_marshal_pos frame.header
  have hsize : (UInt32.ofNat frame.header.marshal.length).toNat = frame.header.marshal.length := by
    rw [UInt32.toNat_ofNat']
    unfold maxFrameHeaderBytes at hheader
    omega
  have hne : ¬ UInt32.ofNat frame.header.marshal.length = 0 := by
    intro hzero
    rw [hzero, UInt32.toNat_zero] at hsize
    omega
  have hclamp : frame.header.length.toNatClampNeg = frame.payload.length := by
    rw [← Int64.toNat_toInt, hlength, Int.toNat_natCast]
  have hnonneg : ¬ frame.header.length < 0 := by
    rw [Int64.lt_iff_toInt_lt, hlength, Int64.toInt_zero]
    omega
  rw [readFrame, List.append_assoc, List.append_assoc, Reader.readFull_append]
  dsimp only
  rw [hsize, if_neg (not_or.mpr ⟨hne, by omega⟩), Reader.readBytes_append]
  dsimp only
  rw [hround]
  dsimp only
  rw [hlength, if_neg (not_or.mpr ⟨hnonneg, by omega⟩), hclamp, Reader.readBytes_append]

/-- A header beyond the limit is refused. -/
theorem readFrame_long {headerBytes : List UInt8} (hlong : maxFrameHeaderBytes < headerBytes.length)
    (hlt : headerBytes.length < 2 ^ 32) (rest : List UInt8) :
    readFrame unmarshal (Codec.uint32.write (UInt32.ofNat headerBytes.length) ++ rest) =
      .error .errInvalidFrame := by
  have hsize : (UInt32.ofNat headerBytes.length).toNat = headerBytes.length := by
    rw [UInt32.toNat_ofNat']
    omega
  rw [readFrame, Reader.readFull_append]
  dsimp only
  rw [hsize, if_pos (.inr hlong)]

/-- A frame that is read accounts for the bytes that are taken. -/
theorem readFrame_exact (h : readFrame unmarshal r = .ok (frame, rest)) :
    ∃ headerBytes, unmarshal headerBytes = some frame.header ∧ 0 < headerBytes.length ∧
      headerBytes.length ≤ maxFrameHeaderBytes ∧ frame.header.length.toInt = frame.payload.length ∧
      frame.payload.length ≤ maxFramePayloadBytes ∧
      r = Codec.uint32.write (UInt32.ofNat headerBytes.length) ++ (headerBytes ++ (frame.payload ++ rest)) := by
  rw [readFrame] at h
  split at h
  · cases h
  next headerLen r₁ hprefix =>
    split at h
    · cases h
    next hlimit =>
      split at h
      · cases h
      next headerBytes r₂ hheader =>
        split at h
        · cases h
        next header hunmarshal =>
          split at h
          · cases h
          next hpayloadLimit =>
            split at h
            · cases h
            next payload r₃ hpayload =>
              cases h
              have hr := Reader.eq_append_of_readFull hprefix
              obtain ⟨hr₁, hlen₁⟩ := Reader.eq_append_of_readBytes hheader
              obtain ⟨hr₂, hlen₂⟩ := Reader.eq_append_of_readBytes hpayload
              obtain ⟨hneg, hmax⟩ := not_or.mp hpayloadLimit
              have hnonneg : 0 ≤ header.length := Int64.not_lt.mp hneg
              have hexact : header.length.toInt = payload.length := by
                rw [hlen₂, Int64.cast_toNatClampNeg _ hnonneg]
              have hle : payload.length ≤ maxFramePayloadBytes := by
                rw [hexact] at hmax
                omega
              have hsize : UInt32.ofNat headerBytes.length = headerLen := by
                rw [hlen₁, UInt32.ofNat_toNat]
              have hzero : headerLen.toNat ≠ 0 := by
                intro hzero
                exact hlimit (.inl (UInt32.toNat_inj.mp hzero))
              refine ⟨headerBytes, hunmarshal, by omega, by omega, hexact, hle, ?_⟩
              rw [hsize, hr, hr₁, hr₂]

/-- Frames within the limits are read back from the carrier they were written on. -/
theorem readFrames_write {frames : List MuxFrame} {chunks : List (List UInt8)}
    (hwritten : List.Forall₂ (fun frame chunk => ∃ closed current writes,
      writeOnCarrier closed current writes frame.header frame.payload = .ok chunk) frames chunks)
    (hround : ∀ frame ∈ frames, unmarshal frame.header.marshal = some frame.header)
    (hlength : ∀ frame ∈ frames, frame.header.length.toInt = frame.payload.length)
    (hpayload : ∀ frame ∈ frames, frame.payload.length ≤ maxFramePayloadBytes)
    (hheader : ∀ frame ∈ frames, frame.header.marshal.length ≤ maxFrameHeaderBytes) (rest : List UInt8) :
    readFrames unmarshal frames.length (chunks.flatten ++ rest) = .ok (frames, rest) := by
  induction hwritten with
  | nil => rfl
  | @cons frame chunk frames chunks hfirst htail ih =>
      obtain ⟨closed, current, writes, hchunk⟩ := hfirst
      obtain ⟨hround₁, hround⟩ := List.forall_mem_cons.mp hround
      obtain ⟨hlength₁, hlength⟩ := List.forall_mem_cons.mp hlength
      obtain ⟨hpayload₁, hpayload⟩ := List.forall_mem_cons.mp hpayload
      obtain ⟨hheader₁, hheader⟩ := List.forall_mem_cons.mp hheader
      have hread := readFrame_write hheader₁ hround₁ hlength₁ hpayload₁ (chunks.flatten ++ rest)
      rw [← writeOnCarrier_ok hchunk] at hread
      rw [List.length_cons, readFrames, List.flatten_cons, List.append_assoc, hread]
      dsimp only
      rw [ih hround hlength hpayload hheader]

end

/-- Frames with headers of at most 64 KiB, as all frames of the multiplexer have, are read back from the
carrier they were written on.  On any bytes at all, a frame that is read accounts for exactly the bytes
taken, and its payload is as long as its header says. -/
theorem mux_frame_codec (unmarshal : List UInt8 → Option FrameHeader) :
    (∀ frames chunks rest,
      List.Forall₂ (fun (frame : MuxFrame) chunk => ∃ closed current writes,
        writeOnCarrier closed current writes frame.header frame.payload = .ok chunk) frames chunks →
      (∀ frame ∈ frames, unmarshal frame.header.marshal = some frame.header) →
      (∀ frame ∈ frames, frame.header.length.toInt = frame.payload.length) →
      (∀ frame ∈ frames, frame.payload.length ≤ maxFramePayloadBytes) →
      (∀ frame ∈ frames, frame.header.marshal.length ≤ maxFrameHeaderBytes) →
      readFrames unmarshal frames.length (chunks.flatten ++ rest) = .ok (frames, rest)) ∧
    (∀ header : FrameHeader, header.type ∈ frameTypes → header.marshal.length ≤ maxFrameHeaderBytes) ∧
    readFrame unmarshal [] = .error (.read .eof) ∧
    (∀ r frame rest, readFrame unmarshal r = .ok (frame, rest) →
      ∃ headerBytes, unmarshal headerBytes = some frame.header ∧ 0 < headerBytes.length ∧
        headerBytes.length ≤ maxFrameHeaderBytes ∧ frame.header.length.toInt = frame.payload.length ∧
        frame.payload.length ≤ maxFramePayloadBytes ∧
        r = Codec.uint32.write (UInt32.ofNat headerBytes.length) ++
          (headerBytes ++ (frame.payload ++ rest))) := by
  refine ⟨?_, ?_, rfl, ?_⟩
  · intro frames chunks rest hwritten hround hlength hpayload hheader
    exact readFrames_write hwritten hround hlength hpayload hheader rest
  · intro header htype
    exact length_marshal_le htype
  · intro r frame rest h
    exact readFrame_exact h

/-- A stream is opened, and three bytes are sent on it. -/
theorem mux_frame_codec_two :
    let opening : MuxFrame := ⟨⟨frameTypeOpen, 1, 0, 0⟩, []⟩
    let data : MuxFrame := ⟨⟨frameTypeData, 1, 0, 3⟩, [7, 8, 9]⟩
    let unmarshal := fun bytes =>
      if bytes = ascii "\x7b\"type\":\"open\",\"stream_id\":1\x7d" then some opening.header
      else if bytes = ascii "\x7b\"type\":\"data\",\"stream_id\":1,\"length\":3\x7d" then
        some data.header
      else none
    ∃ first second, writeOnCarrier false true (fun _ => true) opening.header opening.payload = .ok first ∧
      writeOnCarrier false true (fun _ => true) data.header data.payload = .ok second ∧
      readFrames unmarshal 2 ([first, second].flatten ++ []) = .ok ([opening, data], []) := by
  intro opening data unmarshal
  refine ⟨_, _, rfl, rfl, ?_⟩
  refine (mux_frame_codec unmarshal).1 [opening, data] _ [] ?_ ?_ ?_ ?_ ?_
  · exact .cons ⟨false, true, fun _ => true, rfl⟩ (.cons ⟨false, true, fun _ => true, rfl⟩ .nil)
  all_goals decide +kernel

/-- A frame whose type is a text of 64 KiB is written, and the reader refuses it. -/
theorem long_type_refused :
    ∃ (frame : MuxFrame) (unmarshal : List UInt8 → Option FrameHeader) (chunk : List UInt8),
      unmarshal frame.header.marshal = some frame.header ∧
      frame.header.length.toInt = frame.payload.length ∧ frame.payload.length ≤ maxFramePayloadBytes ∧
      writeOnCarrier false true (fun _ => true) frame.header frame.payload = .ok chunk ∧
      readFrames unmarshal 1 chunk = .error .errInvalidFrame := by
  have hplain : ∀ b ∈ List.replicate maxFrameHeaderBytes (97 : UInt8), Json.Plain b := by
    intro b hb
    rw [List.eq_of_mem_replicate hb]
    decide
  have htype : (Json.quote (List.replicate maxFrameHeaderBytes 97)).length = maxFrameHeaderBytes + 2 := by
    rw [Json.length_quote hplain, List.length_replicate]
  let header : FrameHeader := ⟨List.replicate maxFrameHeaderBytes 97, 1, 0, 0⟩
  have hle : header.marshal.length ≤ maxFrameHeaderBytes + 2 + 100 :=
    htype ▸ length_marshal_le_type header
  have hlong : maxFrameHeaderBytes < header.marshal.length := by
    have hvalue : maxFrameHeaderBytes + 2 ≤ header.marshal.length := htype ▸ length_type_le header
    omega
  refine ⟨⟨header, []⟩, fun _ => some header, _, rfl, rfl, Nat.zero_le _, rfl, ?_⟩
  have hrefused : readFrame (fun _ => some header)
      (Codec.uint32.write (UInt32.ofNat header.marshal.length) ++ header.marshal) =
        .error .errInvalidFrame :=
    readFrame_long hlong (by unfold maxFrameHeaderBytes at hle; omega) header.marshal
  rw [readFrames, hrefused]

end Derptun
