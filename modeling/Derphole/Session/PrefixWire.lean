import Derphole.Lib.BigEndian
import Derphole.Lib.Json
import Derphole.Lib.TableCipher
import Derphole.Session.HandoffReceive
import Mathlib.Data.List.GetD

/-!
# Frames of the relay prefix

The frames of `sendExternalHandoffDERP` and `receiveExternalHandoffDERP` in
`pkg/session/external_direct_udp.go` as bytes, and the loop of the receiver on whatever the relay
hands it.  A data frame is its header, sealed payload behind it; the nonce is a hash of the header,
and so the kind and the offset of a frame decide its nonce.  The other frames are headers and
nothing seals them.

The relay is not trusted: it may lose, repeat, reorder and make up packets.  What it cannot do is
seal a payload: no packet that it hands over opens unless it is a frame of the sender (`Unforged`).
-/

namespace Session

open Lib

/-! ## Frames -/

/-- `externalRelayPrefixDERPFrameKind`. -/
inductive PrefixKind where
  | data
  | ack
  | eof
  | handoff
  | handoffAck
  deriving DecidableEq

def PrefixKind.code : PrefixKind → UInt8
  | .data => 1
  | .ack => 2
  | .eof => 3
  | .handoff => 4
  | .handoffAck => 5

def externalRelayPrefixDERPMagic : List UInt8 := 0 :: ascii "derphole-prefv1"

def externalRelayPrefixDERPHeaderSize : Nat := 25

def externalRelayPrefixDERPDataNonceDomain : List UInt8 :=
  ascii "derphole-relay-prefix-derp-data-nonce-v1"

inductive PrefixWireError where
  | negativeOffset (offset : Int)
  | headerLength (length : Nat)
  | controlPayload
  | nilAEAD
  | nonceSize
  | invalidFrame
  | offsetOverflow (offset : Nat)
  | unexpectedAck
  | unexpectedData
  | decrypt

/-- `cipher.AEAD`: nonce, payload and header. -/
structure PrefixAEAD where
  nonceSize : Nat
  sealPayload : List UInt8 → List UInt8 → List UInt8 → List UInt8
  openPayload : List UInt8 → List UInt8 → List UInt8 → Option (List UInt8)
  open_seal : ∀ nonce payload header,
    openPayload nonce (sealPayload nonce payload header) header = some payload

def PrefixAEAD.ofTable {rows : List TableCipher.Row} (h : TableCipher.Table rows) : PrefixAEAD where
  nonceSize := 12
  sealPayload := TableCipher.sealMessage rows
  openPayload := TableCipher.openSealed rows
  open_seal := h.open_seal

/-- `none` for the kind 0. -/
def externalRelayPrefixDERPFrameKindOf (payload : List UInt8) : Option PrefixKind :=
  if payload.length < externalRelayPrefixDERPHeaderSize ∨ payload.take 16 ≠ externalRelayPrefixDERPMagic then none
  else
    match (payload.getD 16 0).toNat with
    | 1 => some .data
    | 2 => some .ack
    | 3 => some .eof
    | 4 => some .handoff
    | 5 => some .handoffAck
    | _ => none

/-- The bytes of a header. -/
def prefixHeaderBytes (kind : PrefixKind) (offset : Nat) : List UInt8 :=
  externalRelayPrefixDERPMagic ++ kind.code :: bigEndian 8 offset

def externalRelayPrefixDERPHeader (kind : PrefixKind) (offset : Int) : Except PrefixWireError (List UInt8) :=
  if offset < 0 then .error (.negativeOffset offset) else .ok (prefixHeaderBytes kind offset.toNat)

section

variable (sha256 : List UInt8 → Vector UInt8 32)

def externalRelayPrefixDERPDataNonce (header : List UInt8) : Except PrefixWireError (List UInt8) :=
  if header.length ≠ externalRelayPrefixDERPHeaderSize then .error (.headerLength header.length)
  else .ok ((sha256 (externalRelayPrefixDERPDataNonceDomain ++ header)).toList.take 12)

def externalRelayPrefixDERPPayload (kind : PrefixKind) (offset : Int) (payload : List UInt8)
    (packetAEAD : Option PrefixAEAD) : Except PrefixWireError (List UInt8) := do
  let header ← externalRelayPrefixDERPHeader kind offset
  if kind ≠ .data then
    if payload.length ≠ 0 then .error .controlPayload else .ok header
  else
    match packetAEAD with
    | none => .error .nilAEAD
    | some aead =>
        if aead.nonceSize ≠ 12 then .error .nonceSize
        else do
          let nonce ← externalRelayPrefixDERPDataNonce sha256 header
          .ok (header ++ aead.sealPayload nonce payload header)

/-- `externalRelayPrefixDERPSendAck` and `externalRelayPrefixDERPSendHandoffAck`. -/
def PrefixAck.payload (a : PrefixAck) : Except PrefixWireError (List UInt8) :=
  externalRelayPrefixDERPPayload sha256 (if a.handoff then .handoffAck else .ack) a.watermark [] none

def externalRelayPrefixDERPDecodeOffset (payload : List UInt8) : Except PrefixWireError Nat :=
  match externalRelayPrefixDERPFrameKindOf payload with
  | none => .error .invalidFrame
  | some kind =>
      if kind ≠ .data ∧ payload.length ≠ externalRelayPrefixDERPHeaderSize then .error .controlPayload
      else
        let offset := ofBigEndian ((payload.drop 17).take 8)
        if offset > 2 ^ 63 - 1 then .error (.offsetOverflow offset) else .ok offset

def externalRelayPrefixDERPDecodeAck (payload : List UInt8) : Except PrefixWireError Nat :=
  match externalRelayPrefixDERPFrameKindOf payload with
  | some .ack => externalRelayPrefixDERPDecodeOffset payload
  | some .handoffAck => externalRelayPrefixDERPDecodeOffset payload
  | _ => .error .unexpectedAck

def externalRelayPrefixDERPDecodeChunk (payload : List UInt8) (packetAEAD : Option PrefixAEAD) :
    Except PrefixWireError HandoffChunk :=
  if externalRelayPrefixDERPFrameKindOf payload ≠ some .data then .error .unexpectedData
  else do
    let offset ← externalRelayPrefixDERPDecodeOffset payload
    match packetAEAD with
    | none => .error .nilAEAD
    | some aead =>
        if aead.nonceSize ≠ 12 then .error .nonceSize
        else do
          let header := payload.take externalRelayPrefixDERPHeaderSize
          let nonce ← externalRelayPrefixDERPDataNonce sha256 header
          match aead.openPayload nonce (payload.drop externalRelayPrefixDERPHeaderSize) header with
          | none => .error .decrypt
          | some cleartext => .ok ⟨offset, cleartext⟩

/-! ## The loop of the receiver -/

/-- A packet, the write of the output that fails, if one does, and whether the answers cannot be sent. -/
structure PrefixPacket where
  payload : List UInt8
  fault : Option HandoffReceiver.WriteFault
  sendFails : Bool

namespace PrefixReceiver

variable (packetAEAD : Option PrefixAEAD) (r : PrefixReceiver)

/-- What the loop makes of a packet of this kind. -/
def frame (payload : List UInt8) : PrefixKind → Except PrefixWireError (Option PrefixFrame)
  | .data => do
      let chunk ← externalRelayPrefixDERPDecodeChunk sha256 payload packetAEAD
      .ok (some (.data chunk))
  | .eof => do
      let offset ← externalRelayPrefixDERPDecodeOffset payload
      .ok (some (.eof offset))
  | .handoff => do
      let offset ← externalRelayPrefixDERPDecodeOffset payload
      .ok (some (.handoff offset))
  | .ack => .ok none
  | .handoffAck => .error .invalidFrame

/-- One round of the loop, and what is answered.  The subscription passes on only frames, and after its
end the loop takes no more. -/
def receivePacket (p : PrefixPacket) : PrefixReceiver × List PrefixAck :=
  if r.status ≠ .running then (r, [])
  else
    match externalRelayPrefixDERPFrameKindOf p.payload with
    | none => (r, [])
    | some kind =>
        match frame sha256 packetAEAD p.payload kind with
        | .error _ => ({ r with status := .failed }, [])
        | .ok none => (r, [])
        | .ok (some frame) =>
            let (r', acks) := r.handle p.fault frame
            if acks ≠ [] ∧ p.sendFails = true then ({ r' with status := .failed }, []) else (r', acks)

def receivePackets (packets : List PrefixPacket) : PrefixReceiver × List PrefixAck :=
  packets.foldl (fun (r, acks) p =>
    let (r', sent) := receivePacket sha256 packetAEAD r p
    (r', acks ++ sent)) (new, [])

end PrefixReceiver

end

/-! ## What the bytes say -/

theorem length_externalRelayPrefixDERPMagic : externalRelayPrefixDERPMagic.length = 16 := by decide +kernel

section

variable {kind : PrefixKind} {offset : Nat} {body : List UInt8}

theorem length_prefixHeaderBytes : (prefixHeaderBytes kind offset).length = externalRelayPrefixDERPHeaderSize := by
  simp [prefixHeaderBytes, length_externalRelayPrefixDERPMagic, externalRelayPrefixDERPHeaderSize]

theorem kindOf_header :
    externalRelayPrefixDERPFrameKindOf (prefixHeaderBytes kind offset ++ body) = some kind := by
  have hmagic := length_externalRelayPrefixDERPMagic
  have hlength : ¬ (prefixHeaderBytes kind offset ++ body).length < externalRelayPrefixDERPHeaderSize := by
    rw [List.length_append, length_prefixHeaderBytes]
    omega
  have htake : (prefixHeaderBytes kind offset ++ body).take 16 = externalRelayPrefixDERPMagic := by
    rw [prefixHeaderBytes, List.append_assoc, List.take_left' hmagic]
  have hcode : (prefixHeaderBytes kind offset ++ body).getD 16 0 = kind.code := by
    rw [prefixHeaderBytes, List.append_assoc, List.getD_append_right _ _ _ _ hmagic.le, hmagic]
    rfl
  rw [externalRelayPrefixDERPFrameKindOf, if_neg (not_or.mpr ⟨hlength, not_not.mpr htake⟩), hcode]
  cases kind <;> rfl

theorem offset_header (h : offset < 2 ^ 63) :
    ofBigEndian (((prefixHeaderBytes kind offset ++ body).drop 17).take 8) = offset := by
  have hmagic := length_externalRelayPrefixDERPMagic
  have hdrop : ((prefixHeaderBytes kind offset ++ body).drop 17).take 8 = bigEndian 8 offset := by
    rw [prefixHeaderBytes, List.append_assoc, List.drop_append, hmagic, List.drop_eq_nil_of_le (by omega)]
    simp
  rw [hdrop, ofBigEndian_bigEndian_of_lt (by norm_num at h ⊢; omega)]

theorem decodeOffset_header (h : offset < 2 ^ 63) (hbody : kind = .data ∨ body = []) :
    externalRelayPrefixDERPDecodeOffset (prefixHeaderBytes kind offset ++ body) = .ok offset := by
  have hcontrol : ¬ (kind ≠ .data ∧
      (prefixHeaderBytes kind offset ++ body).length ≠ externalRelayPrefixDERPHeaderSize) := by
    rintro ⟨hkind, hlength⟩
    refine hlength ?_
    rw [hbody.resolve_left hkind, List.append_nil, length_prefixHeaderBytes]
  simp only [externalRelayPrefixDERPDecodeOffset, kindOf_header, if_neg hcontrol, offset_header h]
  rw [if_neg (by omega)]

/-- A header says its kind and its offset. -/
theorem prefixHeaderBytes_inj {offset' : Nat} (h : offset < 2 ^ 63) (h' : offset' < 2 ^ 63)
    (heq : prefixHeaderBytes kind offset = prefixHeaderBytes kind offset') : offset = offset' := by
  have hoffset : ofBigEndian (((prefixHeaderBytes kind offset ++ []).drop 17).take 8) = offset := offset_header h
  rw [heq, offset_header h'] at hoffset
  exact hoffset.symm

end

section

variable {sha256 : List UInt8 → Vector UInt8 32} {aead : PrefixAEAD} {kind : PrefixKind} {offset : Nat}
  {payload bytes : List UInt8}

/-- The header of a frame that is sent. -/
theorem externalRelayPrefixDERPHeader_ok :
    externalRelayPrefixDERPHeader kind offset = .ok (prefixHeaderBytes kind offset) := by
  rw [externalRelayPrefixDERPHeader, if_neg (by omega), Int.toNat_natCast]

theorem externalRelayPrefixDERPDataNonce_ok :
    externalRelayPrefixDERPDataNonce sha256 (prefixHeaderBytes kind offset) =
      .ok ((sha256 (externalRelayPrefixDERPDataNonceDomain ++ prefixHeaderBytes kind offset)).toList.take 12) := by
  rw [externalRelayPrefixDERPDataNonce, if_neg (not_not.mpr length_prefixHeaderBytes)]

/-- A data frame is decoded to what was sealed. -/
theorem decodeChunk_payload (hoffset : offset < 2 ^ 63)
    (h : externalRelayPrefixDERPPayload sha256 .data offset payload (some aead) = .ok bytes) :
    externalRelayPrefixDERPDecodeChunk sha256 bytes (some aead) = .ok ⟨offset, payload⟩ := by
  simp only [externalRelayPrefixDERPPayload, externalRelayPrefixDERPHeader_ok,
    externalRelayPrefixDERPDataNonce_ok, bind, Except.bind, ne_eq, not_true_eq_false, if_false] at h
  split at h
  · cases h
  next hsize =>
    cases h
    simp only [externalRelayPrefixDERPDecodeChunk, kindOf_header, decodeOffset_header hoffset (.inl rfl),
      bind, Except.bind, List.take_left' length_prefixHeaderBytes, List.drop_left' length_prefixHeaderBytes,
      externalRelayPrefixDERPDataNonce_ok, aead.open_seal, ne_eq, not_true_eq_false, if_false, hsize]

/-- With a nonce of twelve bytes every chunk can be sent. -/
theorem exists_payload (hsize : aead.nonceSize = 12) :
    ∃ bytes, externalRelayPrefixDERPPayload sha256 .data offset payload (some aead) = .ok bytes := by
  simp only [externalRelayPrefixDERPPayload, externalRelayPrefixDERPHeader_ok,
    externalRelayPrefixDERPDataNonce_ok, bind, Except.bind, ne_eq, not_true_eq_false, if_false, hsize]
  exact ⟨_, rfl⟩

/-- An acknowledgement is decoded to the watermark that was sent. -/
theorem decodeAck_payload {a : PrefixAck} (hoffset : a.watermark < 2 ^ 63) :
    ∃ bytes, a.payload sha256 = .ok bytes ∧ externalRelayPrefixDERPDecodeAck bytes = .ok a.watermark := by
  obtain ⟨handoff, watermark⟩ := a
  have hdecode : ∀ kind, externalRelayPrefixDERPDecodeOffset (prefixHeaderBytes kind watermark) = .ok watermark := by
    intro kind
    rw [← List.append_nil (prefixHeaderBytes kind watermark)]
    exact decodeOffset_header hoffset (.inr rfl)
  have hkind : ∀ kind, externalRelayPrefixDERPFrameKindOf (prefixHeaderBytes kind watermark) = some kind := by
    intro kind
    rw [← List.append_nil (prefixHeaderBytes kind watermark)]
    exact kindOf_header
  cases handoff with
  | true =>
      refine ⟨prefixHeaderBytes .handoffAck watermark, ?_, ?_⟩
      · simp [PrefixAck.payload, externalRelayPrefixDERPPayload, externalRelayPrefixDERPHeader_ok, bind, Except.bind]
      · simp only [externalRelayPrefixDERPDecodeAck, hkind, hdecode]
  | false =>
      refine ⟨prefixHeaderBytes .ack watermark, ?_, ?_⟩
      · simp [PrefixAck.payload, externalRelayPrefixDERPPayload, externalRelayPrefixDERPHeader_ok, bind, Except.bind]
      · simp only [externalRelayPrefixDERPDecodeAck, hkind, hdecode]

end

/-- The packet is no forgery: if it opens, it is the frame of one of these chunks. -/
def Unforged (sha256 : List UInt8 → Vector UInt8 32) (aead : PrefixAEAD) (chunks : List HandoffChunk)
    (packet : List UInt8) : Prop :=
  ∀ nonce cleartext,
    externalRelayPrefixDERPDataNonce sha256 (packet.take externalRelayPrefixDERPHeaderSize) = .ok nonce →
    aead.openPayload nonce (packet.drop externalRelayPrefixDERPHeaderSize)
      (packet.take externalRelayPrefixDERPHeaderSize) = some cleartext →
    ∃ c ∈ chunks, externalRelayPrefixDERPPayload sha256 .data c.offset c.payload (some aead) = .ok packet

/-- What is decoded was opened, and so it was sealed. -/
theorem Unforged.mem_of_decodeChunk {sha256 : List UInt8 → Vector UInt8 32} {aead : PrefixAEAD}
    {chunks : List HandoffChunk} {packet : List UInt8} (hunforged : Unforged sha256 aead chunks packet)
    (hfits : ∀ c ∈ chunks, c.offset < 2 ^ 63) {chunk : HandoffChunk}
    (h : externalRelayPrefixDERPDecodeChunk sha256 packet (some aead) = .ok chunk) : chunk ∈ chunks := by
  have hopened : ∃ nonce cleartext,
      externalRelayPrefixDERPDataNonce sha256 (packet.take externalRelayPrefixDERPHeaderSize) = .ok nonce ∧
      aead.openPayload nonce (packet.drop externalRelayPrefixDERPHeaderSize)
        (packet.take externalRelayPrefixDERPHeaderSize) = some cleartext := by
    simp only [externalRelayPrefixDERPDecodeChunk, bind, Except.bind] at h
    split at h
    · cases h
    split at h
    · cases h
    split at h
    · cases h
    split at h
    · cases h
    next nonce hnonce =>
      split at h
      · cases h
      next cleartext hopen => exact ⟨nonce, cleartext, hnonce, hopen⟩
  obtain ⟨nonce, cleartext, hnonce, hopen⟩ := hopened
  obtain ⟨c, hc, hsent⟩ := hunforged nonce cleartext hnonce hopen
  rw [decodeChunk_payload (hfits c hc) hsent] at h
  cases h
  exact hc

/-! ## The receiver against the relay -/

namespace PrefixReceiver

/-- The packet is an EOF frame with this offset. -/
def Announces (payload : List UInt8) (offset : Nat) : Prop :=
  externalRelayPrefixDERPFrameKindOf payload = some .eof ∧
    externalRelayPrefixDERPDecodeOffset payload = .ok offset

/-- What holds of the receiver and its answers, whatever packets came. -/
structure Sound (S : List UInt8) (announced : Nat → Prop) (r : PrefixReceiver) (acks : List PrefixAck) :
    Prop where
  safe : r.status ≠ .failed → r.rx.Safe S
  out : r.rx.out <+: S
  written : r.rx.watermark ≤ r.rx.out.length
  acks : ∀ a ∈ acks, a.watermark ≤ r.rx.watermark
  eof : ∀ offset, r.eofOffset = some offset → announced offset
  finished : r.status = .finished → ∃ offset, r.eofOffset = some offset ∧ offset ≤ r.rx.watermark

variable {S : List UInt8} {announced : Nat → Prop} {r : PrefixReceiver} {acks : List PrefixAck}

theorem Sound.new (S : List UInt8) (announced : Nat → Prop) : Sound S announced new [] where
  safe _ := HandoffReceiver.Safe.new S _
  out := List.nil_prefix
  written := Nat.le_refl 0
  acks _ h := nomatch h
  eof _ h := nomatch h
  finished h := nomatch h

theorem Sound.fail (h : Sound S announced r acks) : Sound S announced { r with status := .failed } acks where
  safe hne := absurd rfl hne
  out := h.out
  written := h.written
  acks := h.acks
  eof := h.eof
  finished hf := nomatch hf

theorem Sound.keep_acks (h : Sound S announced r acks) {sent : List PrefixAck} (hsent : ∀ a ∈ sent, a ∈ acks) :
    Sound S announced r sent :=
  ⟨h.safe, h.out, h.written, fun a ha => h.acks a (hsent a ha), h.eof, h.finished⟩

/-- The watermark is acknowledged. -/
theorem Sound.answer (h : Sound S announced r acks) (handoff : Bool) :
    Sound S announced r (acks ++ [⟨handoff, r.rx.watermark⟩]) := by
  refine ⟨h.safe, h.out, h.written, fun a ha => ?_, h.eof, h.finished⟩
  rcases List.mem_append.mp ha with ha | ha
  · exact h.acks a ha
  · rw [List.mem_singleton.mp ha]

/-- What comes of a chunk. -/
theorem Sound.accepts (h : Sound S announced r acks) {fault : Option HandoffReceiver.WriteFault}
    {result : Bool × HandoffReceiver}
    (haccepts : HandoffReceiver.Accepts S r.rx.watermark fault result) :
    Sound S announced { r with rx := result.2, status := if result.1 then .running else .failed } acks where
  safe hne := by
    cases hok : result.1 with
    | true => exact haccepts.safe hok
    | false =>
        rw [hok] at hne
        exact absurd rfl hne
  out := haccepts.out_isPrefix
  written := haccepts.watermark_le_out
  acks a ha := Nat.le_trans (h.acks a ha) haccepts.watermark_le
  eof := h.eof
  finished hf := by
    dsimp only at hf
    split at hf <;> cases hf

theorem Sound.finishIfBoundaryReached (h : Sound S announced r acks) (hrun : r.status = .running) :
    Sound S announced r.finishIfBoundaryReached.1 (acks ++ r.finishIfBoundaryReached.2) := by
  unfold PrefixReceiver.finishIfBoundaryReached
  split
  · rw [List.append_nil]
    exact h
  next offset hoffset =>
    split
    · next hreached =>
        have ha := h.answer false
        exact ⟨fun _ => h.safe (by rw [hrun]; exact nofun), ha.out, ha.written, ha.acks, ha.eof,
          fun _ => ⟨offset, hoffset, hreached⟩⟩
    · rw [List.append_nil]
      exact h

theorem Sound.handle (h : Sound S announced r acks) (hrun : r.status = .running)
    (fault : Option HandoffReceiver.WriteFault) {frame : PrefixFrame}
    (hdata : ∀ chunk, frame = .data chunk → SliceAt S chunk.offset chunk.payload)
    (heof : ∀ offset, frame = .eof offset → announced offset) :
    Sound S announced (r.handle fault frame).1 (acks ++ (r.handle fault frame).2) := by
  have hsafe : r.rx.Safe S := h.safe (by rw [hrun]; exact nofun)
  cases frame with
  | data chunk =>
      have haccepts := h.accepts (hsafe.accepts (hdata chunk rfl) fault)
      unfold PrefixReceiver.handle
      dsimp only
      split
      · next rx hresult =>
          rw [hresult] at haccepts
          rw [List.append_nil]
          exact haccepts
      · next rx hresult =>
          rw [hresult] at haccepts
          have hr : Sound S announced { r with rx := rx } acks := by
            rw [← hrun] at haccepts
            exact haccepts
          have hfinish := (hr.answer false).finishIfBoundaryReached hrun
          rw [List.append_assoc] at hfinish
          exact hfinish
  | eof offset =>
      have hr : Sound S announced { r with eofOffset := some offset } acks := by
        refine ⟨fun _ => hsafe, h.out, h.written, h.acks, fun o ho => ?_,
          fun hf => absurd (hrun.symm.trans hf) nofun⟩
        cases ho
        exact heof offset rfl
      exact hr.finishIfBoundaryReached hrun
  | handoff offset =>
      have ha := h.answer true
      exact ⟨fun _ => hsafe, ha.out, ha.written, ha.acks, ha.eof, fun hf => nomatch hf⟩

/-- A packet that is handled is a data frame that opens, an EOF frame or a handoff frame. -/
theorem of_frame {sha256 : List UInt8 → Vector UInt8 32} {packetAEAD : Option PrefixAEAD}
    {payload : List UInt8} {kind : PrefixKind} {f : PrefixFrame}
    (h : frame sha256 packetAEAD payload kind = .ok (some f)) :
    match f with
    | .data chunk => externalRelayPrefixDERPDecodeChunk sha256 payload packetAEAD = .ok chunk
    | .eof offset => kind = .eof ∧ externalRelayPrefixDERPDecodeOffset payload = .ok offset
    | .handoff _ => True := by
  cases kind with
  | data =>
      simp only [PrefixReceiver.frame, bind, Except.bind] at h
      split at h
      · cases h
      next hchunk =>
        cases h
        exact hchunk
  | eof =>
      simp only [PrefixReceiver.frame, bind, Except.bind] at h
      split at h
      · cases h
      next hoffset =>
        cases h
        exact ⟨rfl, hoffset⟩
  | handoff =>
      simp only [PrefixReceiver.frame, bind, Except.bind] at h
      split at h
      · cases h
      · cases h
        trivial
  | ack => cases h
  | handoffAck => cases h

theorem Sound.receivePacket {sha256 : List UInt8 → Vector UInt8 32} {aead : PrefixAEAD}
    {chunks : List HandoffChunk} (hfits : ∀ c ∈ chunks, c.offset < 2 ^ 63)
    (hslices : ∀ c ∈ chunks, SliceAt S c.offset c.payload) (h : Sound S announced r acks) {p : PrefixPacket}
    (hunforged : Unforged sha256 aead chunks p.payload)
    (hp : ∀ offset, Announces p.payload offset → announced offset) :
    Sound S announced (receivePacket sha256 (some aead) r p).1
      (acks ++ (receivePacket sha256 (some aead) r p).2) := by
  have hsame : Sound S announced r (acks ++ []) := by
    rw [List.append_nil]
    exact h
  unfold PrefixReceiver.receivePacket
  split
  · exact hsame
  next hrun =>
    rw [not_not] at hrun
    split
    · exact hsame
    next kind hkind =>
      split
      · exact hsame.fail
      · exact hsame
      next f hframe =>
        have hspec := of_frame hframe
        have hhandle : Sound S announced (r.handle p.fault f).1 (acks ++ (r.handle p.fault f).2) := by
          refine h.handle hrun p.fault ?_ ?_
          · rintro chunk rfl
            exact hslices _ (hunforged.mem_of_decodeChunk hfits hspec)
          · rintro offset rfl
            obtain ⟨rfl, hoffset⟩ := hspec
            exact hp offset ⟨hkind, hoffset⟩
        dsimp only
        split
        · rw [List.append_nil]
          refine hhandle.fail.keep_acks ?_
          exact fun a ha => List.mem_append_left _ ha
        · exact hhandle

theorem Sound.receivePackets (sha256 : List UInt8 → Vector UInt8 32) {aead : PrefixAEAD}
    {chunks : List HandoffChunk} (hfits : ∀ c ∈ chunks, c.offset < 2 ^ 63)
    (hslices : ∀ c ∈ chunks, SliceAt S c.offset c.payload) (packets : List PrefixPacket)
    (hunforged : ∀ p ∈ packets, Unforged sha256 aead chunks p.payload) :
    Sound S (fun offset => ∃ p ∈ packets, Announces p.payload offset)
      (receivePackets sha256 (some aead) packets).1 (receivePackets sha256 (some aead) packets).2 := by
  unfold PrefixReceiver.receivePackets
  refine List.foldlRecOn packets _ 
    (motive := fun s : PrefixReceiver × List PrefixAck => Sound S _ s.1 s.2) (Sound.new S _) ?_
  intro s h p hp
  exact h.receivePacket hfits hslices (hunforged p hp) fun offset ho => ⟨p, hp, ho⟩

end PrefixReceiver

/-! ## The sender -/

namespace Spool

/-- The spool was never rewound, and no chunk is empty. -/
structure Forward (s : Spool) : Prop where
  waiting : ∀ w ∈ s.waiting, 0 < w.2
  returned : ∀ c ∈ s.returned, c.payload ≠ []
  since : s.since = 0
  base : s.base = 0

variable {S : List UInt8} {s t : Spool}

theorem Forward.new (chunkSize maxUnacked : Nat) : Forward (new chunkSize maxUnacked) :=
  ⟨fun _ h => (nomatch h), fun _ h => (nomatch h), rfl, rfl⟩

/-- A step that hands out no chunk. -/
theorem Forward.keep (h : Forward s) (hwaiting : ∀ w ∈ t.waiting, 0 < w.2) (hreturned : t.returned = s.returned)
    (hsince : t.since = s.since) (hbase : t.base = s.base) : Forward t :=
  ⟨hwaiting, hreturned ▸ h.returned, hsince.trans h.since, hbase.trans h.base⟩

theorem Forward.erase (h : Forward s) (w : SpoolCaller × Nat) : ∀ v ∈ s.waiting.erase w, 0 < v.2 :=
  fun v hv => h.waiting v (List.mem_of_mem_erase hv)

theorem Forward.ackTo (h : Forward s) (watermark : Int) : Forward (s.ackTo watermark) := by
  unfold Spool.ackTo
  split
  · exact h
  · exact h.keep h.waiting rfl rfl rfl

theorem Forward.take (hi : Inv S s) (h : Forward s) {who : SpoolCaller} {chunkLen : Nat}
    (ht : s.take who chunkLen = some t) : Forward t := by
  unfold Spool.take at ht
  split at ht
  · next hw =>
      obtain ⟨hmem, hlt⟩ := hw
      have hholds : File.HoldsAt s.file S s.readOffset (min chunkLen (s.sourceOffset - s.readOffset)) :=
        hi.file.mono (Nat.zero_le _) (by omega)
      have hpos : 0 < chunkLen := h.waiting _ hmem
      cases ht
      refine ⟨h.erase _, fun c hc => ?_, h.since, h.base⟩
      rcases List.mem_append.mp hc with hc | hc
      · exact h.returned c hc
      · rw [List.mem_singleton.mp hc, ← List.length_pos_iff, hholds.length_readAt]
        omega
  · cases ht

theorem Forward.step (hi : Inv S s) (h : Forward s) {l : SpoolLabel} (hl : ∀ offset, l ≠ .rewindTo offset)
    (ht : s.step S l = some t) : Forward t := by
  cases l with
  | turn =>
      simp only [Spool.step, Spool.turn] at ht
      split at ht
      · cases ht
      split at ht
      · cases ht
        exact h.keep h.waiting rfl rfl rfl
      split at ht
      · cases ht
      · cases ht
        exact h.keep h.waiting rfl rfl rfl
  | pull n result =>
      simp only [Spool.step, Spool.pull] at ht
      split at ht
      · split at ht
        · cases ht
          exact h.keep h.waiting rfl rfl rfl
        · cases ht
      · cases ht
  | store =>
      simp only [Spool.step, Spool.store] at ht
      split at ht
      · cases ht
        exact h.keep h.waiting rfl rfl rfl
      · cases ht
  | storeFails written =>
      simp only [Spool.step, Spool.storeFails] at ht
      split at ht
      · split at ht
        · cases ht
          exact h.keep h.waiting rfl rfl rfl
        · cases ht
      · cases ht
  | enter who =>
      simp only [Spool.step, Spool.enter] at ht
      split at ht
      · cases ht
      split at ht
      · cases ht
        exact h
      next hroom =>
        cases ht
        refine h.keep (fun w hw => ?_) rfl rfl rfl
        rcases List.mem_append.mp hw with hw | hw
        · exact h.waiting w hw
        · rw [List.mem_singleton.mp hw]
          rw [not_or] at hroom
          show 0 < s.chunkLen.toNat
          omega
  | take who chunkLen => exact h.take hi ht
  | takeFails who chunkLen =>
      simp only [Spool.step, Spool.takeFails] at ht
      split at ht
      · cases ht
        exact h.keep (h.erase _) rfl rfl rfl
      · cases ht
  | giveUp who chunkLen =>
      simp only [Spool.step, Spool.giveUp] at ht
      split at ht
      · split at ht
        · cases ht
          exact h.keep (h.erase _) rfl rfl rfl
        split at ht
        · cases ht
          exact h.keep (h.erase _) rfl rfl rfl
        split at ht
        · cases ht
          exact h.keep (h.erase _) rfl rfl rfl
        split at ht
        · cases ht
          exact h.keep (h.erase _) rfl rfl rfl
        · cases ht
      · cases ht
  | ackTo watermark =>
      cases ht
      exact h.ackTo watermark
  | rewindTo offset => exact absurd rfl (hl offset)
  | setMaxUnacked maxUnacked =>
      cases ht
      unfold Spool.setMaxUnacked
      split
      · exact h
      · exact h.keep h.waiting rfl rfl rfl
  | interruptPendingRead =>
      cases ht
      exact h.keep h.waiting rfl rfl rfl
  | close =>
      cases ht
      exact h.keep h.waiting rfl rfl rfl
  | newReader =>
      cases ht
      refine h.keep (fun w hw => ?_) rfl rfl rfl
      obtain ⟨v, hv, rfl⟩ := List.mem_map.mp hw
      exact h.waiting v hv
  | copy n =>
      simp only [Spool.step, Spool.copy] at ht
      split at ht
      · cases ht
        refine Forward.ackTo ?_ _
        exact h.keep h.waiting rfl rfl rfl
      · cases ht

/-- Chunks that follow each other and are not empty have their own offsets. -/
theorem Contiguous.nodup_offsets {start stop : Nat} {chunks : List HandoffChunk}
    (h : Contiguous start chunks stop) (hne : ∀ c ∈ chunks, c.payload ≠ []) :
    (chunks.map HandoffChunk.offset).Nodup ∧ ∀ c ∈ chunks, start ≤ c.offset := by
  induction chunks generalizing start with
  | nil => exact ⟨List.nodup_nil, fun _ hc => nomatch hc⟩
  | cons c chunks ih =>
      obtain ⟨hoffset, hrest⟩ := h
      obtain ⟨hnodup, hle⟩ := ih hrest fun d hd => hne d (List.mem_cons_of_mem _ hd)
      have hpos := List.length_pos_iff.mpr (hne c List.mem_cons_self)
      refine ⟨List.nodup_cons.mpr ⟨fun hmem => ?_, hnodup⟩, fun d hd => ?_⟩
      · obtain ⟨d, hd, heq⟩ := List.mem_map.mp hmem
        have := hle d hd
        omega
      · rcases List.mem_cons.mp hd with rfl | hd
        · exact hoffset.ge
        · have := hle d hd
          omega

theorem nodup_headers (hi : Inv S s) (h : Forward s) (hfits : ∀ c ∈ s.returned, c.offset < 2 ^ 63) :
    (s.returned.map fun c => prefixHeaderBytes .data c.offset).Nodup := by
  have hcontiguous := hi.contiguous
  rw [h.since, h.base, List.drop_zero] at hcontiguous
  have hnodup := (hcontiguous.nodup_offsets h.returned).1
  have hmap : s.returned.map (fun c => prefixHeaderBytes .data c.offset) =
      (s.returned.map HandoffChunk.offset).map (prefixHeaderBytes .data) := by simp
  rw [hmap]
  refine hnodup.map_on fun a ha b hb heq => ?_
  obtain ⟨c, hc, rfl⟩ := List.mem_map.mp ha
  obtain ⟨d, hd, rfl⟩ := List.mem_map.mp hb
  exact prefixHeaderBytes_inj (hfits c hc) (hfits d hd) heq

end Spool

/-- The sender takes its chunks from a spool, whatever acknowledgements come in, and the relay hands
the receiver whatever packets it likes, of which none opens unless the sender sealed it.  No two data
frames of the sender have the same header, and so none the nonce of another, and each is decoded to its
chunk.  What the receiver writes is always a beginning of the source; what it acknowledges it has
written, and the sender reads it so.  The receiver returns without an error only with as much of the
source as an EOF frame announced, and with all of it when the EOF frames are the sender's. -/
theorem relay_prefix_untrusted (S : List UInt8) (hS : S.length < 2 ^ 63) {chunkSize maxUnacked : Nat}
    {labels : List SpoolLabel} {s : Spool}
    (hrun : runFrom (Spool.step S) (Spool.new chunkSize maxUnacked) labels = some s)
    (hforward : ∀ l ∈ labels, ∀ offset, l ≠ .rewindTo offset) (sha256 : List UInt8 → Vector UInt8 32)
    (aead : PrefixAEAD) (hsize : aead.nonceSize = 12) (packets : List PrefixPacket)
    (hunforged : ∀ p ∈ packets, Unforged sha256 aead s.returned p.payload) :
    let (r, acks) := PrefixReceiver.receivePackets sha256 (some aead) packets
    (s.returned.map fun c => prefixHeaderBytes .data c.offset).Nodup ∧
      (∀ c ∈ s.returned, ∃ bytes,
        externalRelayPrefixDERPPayload sha256 .data c.offset c.payload (some aead) = .ok bytes ∧
        externalRelayPrefixDERPDecodeChunk sha256 bytes (some aead) = .ok c) ∧
      r.rx.out <+: S ∧ (r.status ≠ .failed → r.rx.out = S.take r.rx.watermark) ∧
      (∀ a ∈ acks, S.take a.watermark <+: r.rx.out ∧ ∃ bytes, a.payload sha256 = .ok bytes ∧
        externalRelayPrefixDERPDecodeAck bytes = .ok a.watermark) ∧
      (r.status = .finished → ∃ p ∈ packets, ∃ offset,
        PrefixReceiver.Announces p.payload offset ∧ offset ≤ r.rx.watermark) ∧
      ((∀ p ∈ packets, ∀ offset, PrefixReceiver.Announces p.payload offset → offset = S.length) →
        r.status = .finished → r.rx.out = S) := by
  have hinv : Spool.Inv S s ∧ Spool.Forward s := by
    refine runFrom_invariant_of_mem (I := fun s => Spool.Inv S s ∧ Spool.Forward s)
      (P := fun l => ∀ offset, l ≠ .rewindTo offset) (fun s l t hi hl ht => ?_) labels
      ⟨.new S chunkSize maxUnacked, .new chunkSize maxUnacked⟩ hforward hrun
    exact ⟨hi.1.step ht, hi.2.step hi.1 hl ht⟩
  obtain ⟨hi, hf⟩ := hinv
  have hfits : ∀ c ∈ s.returned, c.offset < 2 ^ 63 := by
    intro c hc
    have := (hi.chunks c hc).end_le
    omega
  have hsound := PrefixReceiver.Sound.receivePackets sha256 hfits hi.chunks packets hunforged
  generalize PrefixReceiver.receivePackets sha256 (some aead) packets = result at hsound
  obtain ⟨r, acks⟩ := result
  have hfinished : r.status = .finished → ∃ p ∈ packets, ∃ offset,
      PrefixReceiver.Announces p.payload offset ∧ offset ≤ r.rx.watermark := by
    intro hf
    obtain ⟨offset, heof, hle⟩ := hsound.finished hf
    obtain ⟨p, hp, ha⟩ := hsound.eof offset heof
    exact ⟨p, hp, offset, ha, hle⟩
  refine ⟨Spool.nodup_headers hi hf hfits, fun c hc => ?_, hsound.out, fun hne => (hsound.safe hne).out,
    fun a ha => ?_, hfinished, fun hgenuine hf => ?_⟩
  · have hpayload : ∃ bytes,
        externalRelayPrefixDERPPayload sha256 .data c.offset c.payload (some aead) = .ok bytes :=
      exists_payload hsize
    obtain ⟨bytes, hbytes⟩ := hpayload
    exact ⟨bytes, hbytes, decodeChunk_payload (hfits c hc) hbytes⟩
  · have hle : a.watermark ≤ r.rx.out.length := Nat.le_trans (hsound.acks a ha) hsound.written
    have hend : r.rx.out.length ≤ S.length := hsound.out.length_le
    refine ⟨?_, decodeAck_payload (by omega)⟩
    refine List.prefix_of_prefix_length_le (List.take_prefix _ _) hsound.out ?_
    rw [List.length_take]
    omega
  · obtain ⟨p, hp, offset, ha, hle⟩ := hfinished hf
    have hsafe := hsound.safe (by rw [hf]; exact nofun)
    rw [hgenuine p hp offset ha] at hle
    rw [hsafe.out]
    exact List.take_of_length_le hle

/-- SHA-256 on the headers of the two data frames below. -/
def samplePrefixHash (message : List UInt8) : Vector UInt8 32 :=
  if message = externalRelayPrefixDERPDataNonceDomain ++ prefixHeaderBytes .data 0 then
    (#v[150, 228, 199, 96, 226, 89, 108, 82, 158, 90, 112, 196, 220, 204, 105, 242, 146, 240, 8, 31, 134,
      151, 160, 49, 245, 150, 55, 132, 157, 101, 197, 2] : Vector UInt8 32)
  else if message = externalRelayPrefixDERPDataNonceDomain ++ prefixHeaderBytes .data 2 then
    (#v[16, 202, 129, 154, 220, 47, 229, 110, 166, 192, 255, 220, 76, 137, 186, 180, 53, 229, 73, 9, 44,
      198, 109, 151, 194, 45, 239, 244, 205, 61, 70, 130] : Vector UInt8 32)
  else Vector.replicate 32 0

def sampleBody : List UInt8 :=
  [140, 167, 177, 40, 227, 117, 0, 57, 175, 79, 179, 10, 45, 3, 166, 70, 47, 117]

def sampleTail : List UInt8 :=
  [90, 61, 254, 26, 168, 6, 222, 195, 133, 226, 21, 9, 23, 248, 147, 70, 237]

/-- AES-256-GCM on the two chunks. -/
def sampleRows : List TableCipher.Row :=
  [⟨[150, 228, 199, 96, 226, 89, 108, 82, 158, 90, 112, 196], [1, 2], prefixHeaderBytes .data 0, sampleBody⟩,
    ⟨[16, 202, 129, 154, 220, 47, 229, 110, 166, 192, 255, 220], [3], prefixHeaderBytes .data 2, sampleTail⟩]

theorem sampleRows_table : TableCipher.Table sampleRows :=
  ⟨by decide +kernel, by decide +kernel, by decide +kernel⟩

/-- The source is read in two parts, and both are handed to the carrier. -/
def twoChunks : List SpoolLabel :=
  [.turn, .pull 2 .ok, .store, .enter .carrier, .take .carrier 2, .ackTo 1, .turn, .pull 1 .eof, .store,
    .enter .carrier, .take .carrier 2]

/-- The relay turns the frames around and repeats one. -/
def turnedAround : List PrefixPacket :=
  [⟨prefixHeaderBytes .eof 3, none, false⟩,
    ⟨prefixHeaderBytes .data 2 ++ sampleTail, none, false⟩,
    ⟨prefixHeaderBytes .ack 7, none, false⟩,
    ⟨prefixHeaderBytes .data 2 ++ sampleTail, none, false⟩,
    ⟨prefixHeaderBytes .data 0 ++ sampleBody, none, false⟩]

/-- Nothing but the frames of the two chunks opens. -/
theorem turnedAround_unforged : ∀ p ∈ turnedAround,
    Unforged samplePrefixHash (.ofTable sampleRows_table) [⟨0, [1, 2]⟩, ⟨2, [3]⟩] p.payload := by
  have hbare : ∀ packet : List UInt8, packet.length = externalRelayPrefixDERPHeaderSize →
      Unforged samplePrefixHash (.ofTable sampleRows_table) [⟨0, [1, 2]⟩, ⟨2, [3]⟩] packet := by
    intro packet hlength nonce cleartext _ hopen
    have hopened := sampleRows_table.length_open hopen
    rw [List.length_drop, hlength, Nat.sub_self] at hopened
    omega
  intro p hp
  simp only [turnedAround, List.mem_cons, List.not_mem_nil, or_false] at hp
  rcases hp with rfl | rfl | rfl | rfl | rfl
  · exact hbare _ length_prefixHeaderBytes
  · exact fun _ _ _ _ => ⟨⟨2, [3]⟩, by decide, rfl⟩
  · exact hbare _ length_prefixHeaderBytes
  · exact fun _ _ _ _ => ⟨⟨2, [3]⟩, by decide, rfl⟩
  · exact fun _ _ _ _ => ⟨⟨0, [1, 2]⟩, by decide, rfl⟩

theorem relay_prefix_untrusted_turned_around :
    ∃ s, runFrom (Spool.step [1, 2, 3]) (Spool.new 2 4) twoChunks = some s ∧
      let (r, acks) := PrefixReceiver.receivePackets samplePrefixHash (some (.ofTable sampleRows_table)) turnedAround
      r.status = .finished ∧ r.rx.out = [1, 2, 3] ∧
        acks = [⟨false, 0⟩, ⟨false, 0⟩, ⟨false, 3⟩, ⟨false, 3⟩] := by
  have hany : (runFrom (Spool.step [1, 2, 3]) (Spool.new 2 4) twoChunks).any
      (fun s => s.returned = [⟨0, [1, 2]⟩, ⟨2, [3]⟩]) = true := by decide +kernel
  obtain ⟨s, hs, hreturned⟩ := (Option.any_eq_true ..).mp hany
  have hunforged := turnedAround_unforged
  rw [← of_decide_eq_true hreturned] at hunforged
  have hannounced : ∀ p ∈ turnedAround, ∀ offset, PrefixReceiver.Announces p.payload offset → offset = 3 := by
    have hall : ∀ p ∈ turnedAround, externalRelayPrefixDERPFrameKindOf p.payload = some .eof →
        externalRelayPrefixDERPDecodeOffset p.payload = .ok 3 := by
      intro p hp
      simp only [turnedAround, List.mem_cons, List.not_mem_nil, or_false] at hp
      rcases hp with rfl | rfl | rfl | rfl | rfl
      · exact fun _ => rfl
      · exact fun hkind => absurd hkind (by decide +kernel)
      · exact fun hkind => absurd hkind (by decide +kernel)
      · exact fun hkind => absurd hkind (by decide +kernel)
      · exact fun hkind => absurd hkind (by decide +kernel)
    rintro p hp offset ⟨hkind, hoffset⟩
    rw [hall p hp hkind] at hoffset
    cases hoffset
    rfl
  have hfinished : (PrefixReceiver.receivePackets samplePrefixHash (some (.ofTable sampleRows_table))
      turnedAround).1.status = .finished := by decide +kernel
  have hacks : (PrefixReceiver.receivePackets samplePrefixHash (some (.ofTable sampleRows_table))
      turnedAround).2 = [⟨false, 0⟩, ⟨false, 0⟩, ⟨false, 3⟩, ⟨false, 3⟩] := by decide +kernel
  have huntrusted := relay_prefix_untrusted [1, 2, 3] (by decide) hs (by simp [twoChunks]) samplePrefixHash
    (.ofTable sampleRows_table) rfl turnedAround hunforged
  exact ⟨s, hs, hfinished, huntrusted.2.2.2.2.2.2 hannounced hfinished, hacks⟩

end Session
