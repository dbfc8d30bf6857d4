import Derphole.Lib.Codec
import Derphole.Probe.ReplayMemory

/-!
# Packets on the wire

`pkg/probe/protocol.go` and the encoder and decoder of `pkg/probe/session.go` that blasts use, on
bytes.  A header field holds any value of its type here, the type of a packet among them.  Buffers
are written at offsets, as the code does; `putHeader` is the run of writes that `MarshalPacket` and
`encodePacketHeader` share.

`Seal` appends to the header in its buffer and `Open` decrypts behind it, so neither touches the
header.  The payload does not overlap the buffer.
-/

namespace Probe

namespace Wire

open Lib

structure WirePacket where
  version : UInt8
  type : UInt8
  stripeID : UInt16
  runID : RunID
  seq : UInt64
  offset : UInt64
  ackFloor : UInt64
  ackMask : UInt64
  payload : List UInt8
  deriving DecidableEq

/-- A `cipher.AEAD` with `Open`, which inverts `Seal` for the same nonce and header. -/
structure PacketAEAD extends AEAD where
  openBody : List UInt8 → List UInt8 → List UInt8 → Option (List UInt8)
  open_seal : ∀ nonce payload header,
    openBody nonce (sealBody nonce payload header) header = some payload

/-- A packet AEAD from a table of its values. -/
def PacketAEAD.ofTable {rows : List TableCipher.Row} (h : TableCipher.Table rows) : PacketAEAD where
  toAEAD := .ofTable h
  openBody := TableCipher.openSealed rows
  open_seal := h.open_seal

/-- `buf[a:b]`. -/
def slice (buf : List UInt8) (a b : Nat) : List UInt8 := File.readAt buf a (b - a)

theorem runIDField_pos : 0 < 16 := Nat.succ_pos 15

def runIDField : Codec RunID := Codec.array 16 runIDField_pos

/-- `packetAEADNonceTo`: what `dst` holds afterwards. -/
def packetAEADNonceTo (dst header : List UInt8) : Except String (List UInt8) :=
  if header.length < headerLen then .error "short packet header"
  else if dst.length ≠ 12 then .error "unsupported packet AEAD nonce size"
  else
    let seq := Codec.uint64.ofBytes (slice header 20 28)
    if packetAEADNonceSeqs ≤ seq.toNat then .error "packet sequence exceeds AEAD nonce range"
    else .ok (slice header 1 2 ++ (slice header 2 4 ++ (slice header 4 8 ++
      [(seq >>> 32).toUInt8, (seq >>> 24).toUInt8, (seq >>> 16).toUInt8, (seq >>> 8).toUInt8,
        seq.toUInt8])))

/-- The fields of a header at their offsets. -/
def putHeader (buf : File) (version type : UInt8) (runID : RunID) (stripeID : UInt16)
    (seq offset ackFloor ackMask : UInt64) : File :=
  let buf := buf.writeAt 0 [version]
  let buf := buf.writeAt 1 [type]
  let buf := buf.writeAt 2 (Codec.uint16.write stripeID)
  let buf := buf.writeAt 4 (runIDField.write runID)
  let buf := buf.writeAt 20 (Codec.uint64.write seq)
  let buf := buf.writeAt 28 (Codec.uint64.write offset)
  let buf := buf.writeAt 36 (Codec.uint64.write ackFloor)
  buf.writeAt 44 (Codec.uint64.write ackMask)

/-! ## One packet at a time -/

def marshalPacket (p : WirePacket) (aead : Option PacketAEAD) : Except String (List UInt8) :=
  let buf := putHeader (List.replicate headerLen 0) p.version p.type p.runID p.stripeID p.seq p.offset
    p.ackFloor p.ackMask
  match aead with
  | some aead =>
      if aead.nonceSize ≠ 12 then .error "unsupported packet AEAD nonce size"
      else
        match packetAEADNonceTo (List.replicate 12 0) (buf.take headerLen) with
        | .error e => .error e
        | .ok nonce => .ok (buf ++ aead.sealBody nonce p.payload (buf.take headerLen))
  | none => .ok (buf.writeAt headerLen p.payload)

def unmarshalPacket (buf : List UInt8) (aead : Option PacketAEAD) : Except String WirePacket :=
  if buf.length < headerLen then .error "short packet"
  else if buf.getD 0 0 ≠ protocolVersion then .error "unsupported protocol version"
  else
    let p : WirePacket := {
      version := buf.getD 0 0
      type := buf.getD 1 0
      stripeID := Codec.uint16.ofBytes (slice buf 2 4)
      runID := runIDField.ofBytes (slice buf 4 20)
      seq := Codec.uint64.ofBytes (slice buf 20 28)
      offset := Codec.uint64.ofBytes (slice buf 28 36)
      ackFloor := Codec.uint64.ofBytes (slice buf 36 44)
      ackMask := Codec.uint64.ofBytes (slice buf 44 52)
      payload := buf.drop 52 }
    match aead with
    | some aead =>
        if aead.nonceSize ≠ 12 then .error "unsupported packet AEAD nonce size"
        else
          match packetAEADNonceTo (List.replicate 12 0) (buf.take headerLen) with
          | .error e => .error e
          | .ok nonce =>
              match aead.openBody nonce (buf.drop 52) (buf.take headerLen) with
              | none => .error "cipher: message authentication failed"
              | some payload => .ok { p with payload := payload }
    | none => .ok p

/-! ## Blasts -/

/-- `encodePacketHeader` into a buffer. -/
def encodePacketHeader (dst : File) (type : UInt8) (runID : RunID) (stripeID : UInt16)
    (seq offset ackFloor ackMask : UInt64) : File :=
  if dst.length < headerLen then dst
  else
    putHeader (dst.writeAt 0 (List.replicate headerLen 0)) protocolVersion type runID stripeID seq offset
      ackFloor ackMask

/-- `marshalBlastPayloadPacketInto`: the buffer afterwards, and the packet in it.  `nonce` is a
scratch buffer of the caller. -/
def marshalBlastPayloadPacketInto (dst : File) (type : UInt8) (runID : RunID) (stripeID : UInt16)
    (seq offset ackFloor ackMask : UInt64) (payload : List UInt8) (aead : Option PacketAEAD)
    (nonce : Option (Vector UInt8 12)) : File × Except String (List UInt8) :=
  let capacity := headerLen + payload.length + aead.elim 0 fun aead => aead.overhead
  if dst.length < capacity then (dst, .error "short blast payload packet buffer")
  else
    let dst := encodePacketHeader dst type runID stripeID seq offset ackFloor ackMask
    match aead with
    | some aead =>
        let nonceBuf := (nonce.getD (Vector.replicate 12 0)).toList
        if aead.nonceSize ≠ nonceBuf.length then (dst, .error "unsupported packet AEAD nonce size")
        else
          match packetAEADNonceTo nonceBuf (dst.take headerLen) with
          | .error e => (dst, .error e)
          | .ok nonceBuf =>
              let body := aead.sealBody nonceBuf payload (dst.take headerLen)
              let dst := dst.writeAt headerLen body
              (dst, .ok (dst.take (headerLen + body.length)))
    | none =>
        let dst := dst.writeAt headerLen payload
        (dst, .ok (dst.take (headerLen + payload.length)))

/-- What `decodeBlastPacketFullWithAEAD` returns with `true`. -/
structure BlastPacket where
  type : UInt8
  payload : List UInt8
  runID : RunID
  seq : UInt64
  offset : UInt64
  deriving DecidableEq

def decodeBlastPacketFullWithAEAD (buf : List UInt8) (aead : Option PacketAEAD) : Option BlastPacket :=
  if buf.length < headerLen ∨ buf.getD 0 0 ≠ protocolVersion then none
  else
    let type := buf.getD 1 0
    if aead.isSome ∧ (type = PacketType.data.code ∨ type = PacketType.parity.code) then
      match unmarshalPacket buf aead with
      | .error _ => none
      | .ok packet => some ⟨packet.type, packet.payload, packet.runID, packet.seq, packet.offset⟩
    else
      some ⟨type, buf.drop headerLen, runIDField.ofBytes (slice buf 4 20),
        Codec.uint64.ofBytes (slice buf 20 28), Codec.uint64.ofBytes (slice buf 28 36)⟩

/-! ## Headers -/

section

variable (version type : UInt8) (runID : RunID) (stripeID : UInt16) (seq offset ackFloor ackMask : UInt64)

/-- The fields of a header, one after the other. -/
def header : List UInt8 :=
  version :: type :: (Codec.uint16.write stripeID ++ (runIDField.write runID ++
    (Codec.uint64.write seq ++ (Codec.uint64.write offset ++ (Codec.uint64.write ackFloor ++
      Codec.uint64.write ackMask)))))

@[simp] theorem length_header :
    (header version type runID stripeID seq offset ackFloor ackMask).length = headerLen := by
  simp [header, headerLen, runIDField]

/-- Every write starts where the last one ended, so nothing of the buffer is left in the header. -/
theorem putHeader_eq (buf : File) :
    putHeader buf version type runID stripeID seq offset ackFloor ackMask =
      header version type runID stripeID seq offset ackFloor ackMask ++ buf.drop headerLen := by
  have hjoin : ∀ (f : File) (p q : List UInt8) {o : Nat}, o = p.length →
      (f.writeAt 0 p).writeAt o q = f.writeAt 0 (p ++ q) := by
    intro f p q o ho
    rw [← File.writeAt_writeAt_end, Nat.zero_add, ho]
  have hrun : runIDField.size = 16 := rfl
  rw [putHeader, hjoin buf _ _ (o := 1) ?_, hjoin buf _ _ (o := 2) ?_, hjoin buf _ _ (o := 4) ?_,
    hjoin buf _ _ (o := 20) ?_, hjoin buf _ _ (o := 28) ?_, hjoin buf _ _ (o := 36) ?_,
    hjoin buf _ _ (o := 44) ?_]
  · simp [File.writeAt, header, headerLen, hrun, List.append_assoc]
  all_goals simp [hrun]

end

/-! ## Both encoders -/

namespace WirePacket

/-- The header of a packet. -/
def header (p : WirePacket) : List UInt8 :=
  Wire.header p.version p.type p.runID p.stripeID p.seq p.offset p.ackFloor p.ackMask

@[simp] theorem length_header (p : WirePacket) : p.header.length = headerLen := Wire.length_header ..

/-- Where the fields of a header stand. -/
theorem slice_header (p : WirePacket) (rest : List UInt8) :
    let buf := p.header ++ rest
    buf.getD 0 0 = p.version ∧ buf.getD 1 0 = p.type ∧ slice buf 2 4 = Codec.uint16.write p.stripeID ∧
      slice buf 4 20 = runIDField.write p.runID ∧ slice buf 20 28 = Codec.uint64.write p.seq ∧
      slice buf 28 36 = Codec.uint64.write p.offset ∧ slice buf 36 44 = Codec.uint64.write p.ackFloor ∧
      slice buf 44 52 = Codec.uint64.write p.ackMask ∧ buf.drop 52 = rest := by
  have hrun : runIDField.size = 16 := rfl
  simp [slice, File.readAt, header, Wire.header, hrun, List.drop_append, List.drop_eq_nil_of_le]

end WirePacket

/-- What follows the header, or why there is no packet. -/
def sealPayload (aead : Option PacketAEAD) (header payload : List UInt8) : Except String (List UInt8) :=
  match aead with
  | some aead =>
      if aead.nonceSize ≠ 12 then .error "unsupported packet AEAD nonce size"
      else (packetAEADNonceTo (List.replicate 12 0) header).map fun nonce =>
        aead.sealBody nonce payload header
  | none => .ok payload

/-- The nonce depends on the scratch buffer only by its length. -/
theorem packetAEADNonceTo_congr {dst dst' : List UInt8} (h : dst.length = dst'.length)
    (header : List UInt8) : packetAEADNonceTo dst header = packetAEADNonceTo dst' header := by
  rw [packetAEADNonceTo, packetAEADNonceTo, h]

theorem writeAt_header {header : List UInt8} (hlen : header.length = headerLen) (rest body : List UInt8) :
    File.writeAt (header ++ rest) headerLen body = header ++ (body ++ rest.drop body.length) := by
  simp [File.writeAt, ← hlen, List.append_assoc]

theorem marshalPacket_eq (p : WirePacket) (aead : Option PacketAEAD) :
    marshalPacket p aead = (sealPayload aead p.header p.payload).map (p.header ++ ·) := by
  have hbuf : putHeader (List.replicate headerLen 0) p.version p.type p.runID p.stripeID p.seq p.offset
      p.ackFloor p.ackMask = p.header := by
    rw [putHeader_eq]
    simp [WirePacket.header]
  have htake : p.header.take headerLen = p.header := List.take_of_length_le (by simp)
  cases aead with
  | none =>
      have hwrite := writeAt_header p.length_header [] p.payload
      rw [List.append_nil, List.drop_nil, List.append_nil] at hwrite
      rw [marshalPacket, hbuf, sealPayload, hwrite]
      rfl
  | some aead =>
      rw [marshalPacket, hbuf, sealPayload, htake]
      split
      · rfl
      · cases packetAEADNonceTo (List.replicate 12 0) p.header with
        | error e => rfl
        | ok nonce => rfl

section

variable (dst : File) (type : UInt8) (runID : RunID) (stripeID : UInt16) (seq offset ackFloor ackMask : UInt64)
  (payload : List UInt8) (aead : Option PacketAEAD) (nonce : Option (Vector UInt8 12))

theorem encodePacketHeader_eq {dst : File} (hlen : headerLen ≤ dst.length) :
    encodePacketHeader dst type runID stripeID seq offset ackFloor ackMask =
      header protocolVersion type runID stripeID seq offset ackFloor ackMask ++ dst.drop headerLen := by
  rw [encodePacketHeader, if_neg (Nat.not_lt.mpr hlen), putHeader_eq]
  simp [File.writeAt]

/-- The packet is written in place, and what is behind it in the buffer stays. -/
theorem marshalBlastPayloadPacketInto_eq {dst : File}
    (hlen : headerLen + payload.length + (aead.elim 0 fun aead => aead.overhead) ≤ dst.length) :
    let p : WirePacket := ⟨protocolVersion, type, stripeID, runID, seq, offset, ackFloor, ackMask, payload⟩
    marshalBlastPayloadPacketInto dst type runID stripeID seq offset ackFloor ackMask payload aead nonce =
      match sealPayload aead p.header payload with
      | .error e => (p.header ++ dst.drop headerLen, .error e)
      | .ok body => (p.header ++ body ++ dst.drop (headerLen + body.length), .ok (p.header ++ body)) := by
  intro p
  have hbuf : encodePacketHeader dst type runID stripeID seq offset ackFloor ackMask =
      p.header ++ dst.drop headerLen := encodePacketHeader_eq _ _ _ _ _ _ _ (by omega)
  have htake : (p.header ++ dst.drop headerLen).take headerLen = p.header :=
    List.take_left' p.length_header
  rw [marshalBlastPayloadPacketInto, if_neg (Nat.not_lt.mpr hlen), hbuf]
  cases aead with
  | none =>
      rw [sealPayload]
      dsimp only
      rw [writeAt_header p.length_header, List.drop_drop, ← List.append_assoc, List.take_left' (by simp)]
  | some aead =>
      have hnonce : ((nonce.getD (Vector.replicate 12 0)).toList).length = 12 := Vector.length_toList
      rw [sealPayload]
      dsimp only
      rw [htake, hnonce, packetAEADNonceTo_congr (hnonce.trans List.length_replicate.symm)]
      split
      · rfl
      · cases packetAEADNonceTo (List.replicate 12 0) p.header with
        | error e => rfl
        | ok nonce =>
            dsimp only [Except.map]
            rw [writeAt_header p.length_header, List.drop_drop, ← List.append_assoc,
              List.take_left' (by simp)]

end

/-! ## Both decoders -/

namespace WirePacket

variable (p : WirePacket)

/-- A header is read as it was written. -/
theorem unmarshalPacket_header (hversion : p.version = protocolVersion) (aead : Option PacketAEAD)
    (body : List UInt8) :
    unmarshalPacket (p.header ++ body) aead =
      match aead with
      | none => .ok { p with payload := body }
      | some aead =>
          if aead.nonceSize ≠ 12 then .error "unsupported packet AEAD nonce size"
          else
            match packetAEADNonceTo (List.replicate 12 0) p.header with
            | .error e => .error e
            | .ok nonce =>
                match aead.openBody nonce body p.header with
                | none => .error "cipher: message authentication failed"
                | some payload => .ok { p with payload := payload } := by
  obtain ⟨h₀, h₁, h₂, h₄, h₂₀, h₂₈, h₃₆, h₄₄, hbody⟩ := p.slice_header body
  have htake : (p.header ++ body).take headerLen = p.header := List.take_left' p.length_header
  have hlen : ¬(p.header ++ body).length < headerLen := by
    rw [List.length_append, p.length_header]
    omega
  rw [unmarshalPacket, if_neg hlen, h₀, if_neg (not_not.mpr hversion), h₁, h₂, h₄, h₂₀, h₂₈, h₃₆, h₄₄,
    hbody, htake]
  simp only [Codec.ofBytes_write]
  cases aead with
  | none => rfl
  | some aead => rfl

end WirePacket

/-- The nonce of a header. -/
theorem packetAEADNonceTo_header (p : WirePacket) :
    (∃ nonce, packetAEADNonceTo (List.replicate 12 0) p.header = .ok nonce) ↔
      p.seq.toNat < packetAEADNonceSeqs := by
  obtain ⟨-, -, -, -, hseq, -⟩ := p.slice_header []
  rw [List.append_nil] at hseq
  rw [packetAEADNonceTo, if_neg (by simp), if_neg (by simp), hseq, Codec.ofBytes_write]
  constructor
  · rintro ⟨nonce, h⟩
    by_contra hge
    rw [if_pos (Nat.not_lt.mp hge)] at h
    cases h
  · intro hlt
    exact ⟨_, if_neg (Nat.not_le.mpr hlt)⟩

/-- A packet is marshalled iff there is a nonce for it, where one is needed. -/
theorem marshalPacket_ok_iff (p : WirePacket) (aead : Option PacketAEAD) :
    (∃ wire, marshalPacket p aead = .ok wire) ↔
      ∀ a, aead = some a → a.nonceSize = 12 ∧ p.seq.toNat < packetAEADNonceSeqs := by
  rw [marshalPacket_eq, ← packetAEADNonceTo_header]
  cases aead with
  | none =>
      simp only [reduceCtorEq, false_implies, implies_true, iff_true]
      exact ⟨_, rfl⟩
  | some aead =>
      simp only [Option.some.injEq, forall_eq', sealPayload]
      split
      · rename_i hsize
        simp only [Except.map, reduceCtorEq, exists_false, false_iff]
        exact fun h => hsize h.1
      · rename_i hsize
        rw [not_not] at hsize
        cases packetAEADNonceTo (List.replicate 12 0) p.header with
        | error e => simp [Except.map]
        | ok nonce => simp [Except.map, hsize]

/-- What was marshalled is read back. -/
theorem unmarshalPacket_marshalPacket {p : WirePacket} (hversion : p.version = protocolVersion)
    {aead : Option PacketAEAD} {wire : List UInt8} (h : marshalPacket p aead = .ok wire) :
    unmarshalPacket wire aead = .ok p := by
  rw [marshalPacket_eq] at h
  cases aead with
  | none =>
      cases h
      exact p.unmarshalPacket_header hversion none p.payload
  | some aead =>
      rw [sealPayload] at h
      split at h
      · cases h
      · rename_i hsize
        cases hn : packetAEADNonceTo (List.replicate 12 0) p.header with
        | error e =>
            rw [hn] at h
            cases h
        | ok nonce =>
            rw [hn] at h
            cases h
            have hopen := aead.open_seal nonce p.payload p.header
            show unmarshalPacket (p.header ++ aead.sealBody nonce p.payload p.header) (some aead) = .ok p
            rw [p.unmarshalPacket_header hversion]
            dsimp only
            rw [if_neg hsize, hn]
            dsimp only
            rw [hopen]

/-- The part of a packet that a blast receiver gets. -/
def WirePacket.blast (p : WirePacket) : BlastPacket := ⟨p.type, p.payload, p.runID, p.seq, p.offset⟩

/-- Where a blast opens what it decodes, or nothing is sealed, both decoders agree. -/
theorem decodeBlastPacketFullWithAEAD_eq {buf : List UInt8} {aead : Option PacketAEAD}
    (h : aead = none ∨ buf.getD 1 0 = PacketType.data.code ∨ buf.getD 1 0 = PacketType.parity.code) :
    decodeBlastPacketFullWithAEAD buf aead = (unmarshalPacket buf aead).toOption.map WirePacket.blast := by
  rw [decodeBlastPacketFullWithAEAD]
  by_cases hlen : buf.length < headerLen
  · rw [if_pos (.inl hlen), unmarshalPacket, if_pos hlen]
    rfl
  by_cases hversion : buf.getD 0 0 ≠ protocolVersion
  · rw [if_pos (.inr hversion), unmarshalPacket, if_neg hlen, if_pos hversion]
    rfl
  rw [if_neg (not_or.mpr ⟨hlen, hversion⟩)]
  cases aead with
  | none =>
      rw [unmarshalPacket, if_neg hlen, if_neg hversion]
      rfl
  | some aead =>
      have htype := h.resolve_left (by simp)
      rw [if_pos ⟨rfl, htype⟩]
      cases unmarshalPacket buf (some aead) with
      | error e => rfl
      | ok p => rfl

/-! ## Packets of the rest of the model

Elsewhere a packet has natural numbers as fields, and one of the nine types.  Its bytes are those
of the packet here. -/

/-- The fields of a packet, cut to their width. -/
def ofPacket (runID : RunID) (p : Packet) : WirePacket :=
  ⟨protocolVersion, p.type.code, UInt16.ofNat p.stripeID, runID, UInt64.ofNat p.seq, UInt64.ofNat p.offset,
    UInt64.ofNat p.ackFloor, UInt64.ofNat p.ackMask, p.payload⟩

theorem header_ofPacket (runID : RunID) (p : Packet) :
    (ofPacket runID p).header = Probe.encodePacketHeader runID p := by
  have h16 : ∀ n, Codec.uint16.write (UInt16.ofNat n) = bigEndian 2 n := by
    intro n
    rw [← bigEndian_mod]
    rfl
  have h64 : ∀ n, Codec.uint64.write (UInt64.ofNat n) = bigEndian 8 n := by
    intro n
    rw [← bigEndian_mod]
    rfl
  rw [WirePacket.header, header, Probe.encodePacketHeader]
  simp only [ofPacket, h16, h64]
  rfl

/-- The low five bytes of a number, by shifts. -/
theorem shifts_eq_bigEndian (seq : UInt64) :
    [(seq >>> 32).toUInt8, (seq >>> 24).toUInt8, (seq >>> 16).toUInt8, (seq >>> 8).toUInt8,
      seq.toUInt8] = bigEndian 5 seq.toNat := by
  simp only [bigEndian, List.nil_append, List.cons_append, List.cons.injEq, and_true]
  refine ⟨?_, ?_, ?_, ?_, ?_⟩ <;>
    (apply UInt8.toNat_inj.mp
     simp [Nat.shiftRight_eq_div_pow, Nat.div_div_eq_div_mul])

theorem packetAEADNonceTo_toOption {dst : List UInt8} (hdst : dst.length = 12) (header : List UInt8) :
    (packetAEADNonceTo dst header).toOption = packetAEADNonce header := by
  rw [packetAEADNonceTo, packetAEADNonce]
  by_cases hlen : header.length < headerLen
  · rw [if_pos hlen, if_pos hlen]
    rfl
  have hslice : (slice header 20 28).length = 8 := by
    rw [headerLen] at hlen
    simp [slice, File.readAt]
    omega
  have hseq : (Codec.uint64.ofBytes (slice header 20 28)).toNat =
      ofBigEndian ((header.drop 20).take 8) := by
    have hsmall := ofBigEndian_lt (slice header 20 28)
    rw [hslice] at hsmall
    exact UInt64.toNat_ofNat_of_lt' hsmall
  rw [if_neg hlen, if_neg hlen, if_neg (not_not.mpr hdst)]
  generalize Codec.uint64.ofBytes (slice header 20 28) = seq at hseq ⊢
  dsimp only
  rw [hseq]
  split
  · rfl
  · rw [shifts_eq_bigEndian, hseq]
    rfl

/-- The wire images that the replay window holds are what `MarshalPacket` makes. -/
theorem marshalPacket_ofPacket {runID : RunID} {p : Packet} {aead : Option PacketAEAD} {wire : List UInt8}
    (h : marshalPacket (ofPacket runID p) aead = .ok wire) :
    wire = wireImage runID (aead.map (·.toAEAD)) p := by
  rw [marshalPacket_eq, header_ofPacket] at h
  cases aead with
  | none =>
      cases h
      rfl
  | some aead =>
      rw [sealPayload] at h
      split at h
      · cases h
      · have hnonce := packetAEADNonceTo_toOption (@List.length_replicate _ 12 (0 : UInt8))
          (Probe.encodePacketHeader runID p)
        cases hn : packetAEADNonceTo (List.replicate 12 0) (Probe.encodePacketHeader runID p) with
        | error e =>
            rw [hn] at h
            cases h
        | ok nonce =>
            rw [hn] at h hnonce
            cases h
            rw [Option.map_some, wireImage]
            dsimp only
            rw [← hnonce]
            rfl

/-! ## The codec -/

/-- Both encoders write the same bytes, into every buffer that is long enough.  A packet is
marshalled iff its sequence number fits the nonce, where there is one, and is then read back.  Both
decoders accept the same bytes and read the same from them. -/
theorem packet_codec_agrees (aead : Option PacketAEAD) :
    (∀ (type : UInt8) (runID : RunID) (stripeID : UInt16) (seq offset ackFloor ackMask : UInt64)
      (payload : List UInt8) (nonce : Option (Vector UInt8 12)) (dst : List UInt8),
      headerLen + payload.length + (aead.elim 0 fun aead => aead.overhead) ≤ dst.length →
        (marshalBlastPayloadPacketInto dst type runID stripeID seq offset ackFloor ackMask payload aead
            nonce).2 =
          marshalPacket ⟨protocolVersion, type, stripeID, runID, seq, offset, ackFloor, ackMask, payload⟩
            aead ∧
        ∀ wire, (marshalBlastPayloadPacketInto dst type runID stripeID seq offset ackFloor ackMask payload
            aead nonce).2 = .ok wire →
          (marshalBlastPayloadPacketInto dst type runID stripeID seq offset ackFloor ackMask payload aead
            nonce).1 = wire ++ dst.drop wire.length) ∧
    (∀ p : WirePacket, p.version = protocolVersion →
      (∀ wire, marshalPacket p aead = .ok wire → unmarshalPacket wire aead = .ok p) ∧
      ((∃ wire, marshalPacket p aead = .ok wire) ↔
        ∀ a, aead = some a → a.nonceSize = 12 ∧ p.seq.toNat < packetAEADNonceSeqs)) ∧
    ∀ buf : List UInt8,
      aead = none ∨ buf.getD 1 0 = PacketType.data.code ∨ buf.getD 1 0 = PacketType.parity.code →
        decodeBlastPacketFullWithAEAD buf aead =
          (unmarshalPacket buf aead).toOption.map WirePacket.blast := by
  refine ⟨?_, fun p hversion => ⟨fun wire h => unmarshalPacket_marshalPacket hversion h,
    marshalPacket_ok_iff p aead⟩, fun buf h => decodeBlastPacketFullWithAEAD_eq h⟩
  intro type runID stripeID seq offset ackFloor ackMask payload nonce dst hlen
  rw [marshalBlastPayloadPacketInto_eq type runID stripeID seq offset ackFloor ackMask payload aead nonce
    hlen, marshalPacket_eq]
  cases sealPayload aead (WirePacket.header
      ⟨protocolVersion, type, stripeID, runID, seq, offset, ackFloor, ackMask, payload⟩) payload with
  | error e => exact ⟨rfl, fun wire h => by cases h⟩
  | ok body =>
      refine ⟨rfl, ?_⟩
      intro wire h
      cases h
      rw [List.length_append, WirePacket.length_header]

/-- AES-256-GCM on the packets of `ReplayMemory.windowRows`. -/
def samplePacketAEAD : PacketAEAD := .ofTable ReplayMemory.windowRows_table

/-- Without an AEAD a packet of an unknown type is written over the old bytes of a buffer, with the
byte behind it left alone, and is read back by both decoders.  With one, a data packet is sealed and
opened. -/
theorem packet_codec_agrees_sealed :
    (marshalBlastPayloadPacketInto (List.replicate 55 9) 77 (Vector.replicate 16 1) 3 4 5 6 7 [8, 9] none
        none).1 =
      header 2 77 (Vector.replicate 16 1) 3 4 5 6 7 ++ [8, 9, 9] ∧
    unmarshalPacket (header 2 77 (Vector.replicate 16 1) 3 4 5 6 7 ++ [8, 9]) none =
      .ok ⟨2, 77, 3, Vector.replicate 16 1, 4, 5, 6, 7, [8, 9]⟩ ∧
    (let wire := header 2 3 (Vector.replicate 16 9) 0 2 2 0 0 ++
      [139, 122, 23, 214, 13, 26, 89, 81, 103, 171, 135, 77, 252, 106, 191, 109, 119]
    marshalPacket ⟨2, 3, 0, Vector.replicate 16 9, 2, 2, 0, 0, [9]⟩ (some samplePacketAEAD) = .ok wire ∧
      unmarshalPacket wire (some samplePacketAEAD) = .ok ⟨2, 3, 0, Vector.replicate 16 9, 2, 2, 0, 0, [9]⟩ ∧
      decodeBlastPacketFullWithAEAD wire (some samplePacketAEAD) =
        some (WirePacket.blast ⟨2, 3, 0, Vector.replicate 16 9, 2, 2, 0, 0, [9]⟩)) := by
  obtain ⟨hinto, hread, -⟩ := packet_codec_agrees none
  obtain ⟨-, hread', hdecode⟩ := packet_codec_agrees (some samplePacketAEAD)
  have hmarshal : marshalPacket ⟨2, 77, 3, Vector.replicate 16 1, 4, 5, 6, 7, [8, 9]⟩ none =
      .ok (header 2 77 (Vector.replicate 16 1) 3 4 5 6 7 ++ [8, 9]) := marshalPacket_eq _ none
  obtain ⟨hsame, hbuf⟩ := hinto 77 (Vector.replicate 16 1) 3 4 5 6 7 [8, 9] none (List.replicate 55 9)
    (by decide)
  have hsealed : marshalPacket ⟨2, 3, 0, Vector.replicate 16 9, 2, 2, 0, 0, [9]⟩ (some samplePacketAEAD) =
      .ok (header 2 3 (Vector.replicate 16 9) 0 2 2 0 0 ++
        [139, 122, 23, 214, 13, 26, 89, 81, 103, 171, 135, 77, 252, 106, 191, 109, 119]) := by
    decide +kernel
  have hopened := (hread' _ rfl).1 _ hsealed
  refine ⟨?_, (hread _ rfl).1 _ hmarshal, hsealed, hopened, ?_⟩
  · rw [hbuf _ (hsame.trans hmarshal)]
    rfl
  · rw [hdecode _ (.inr (.inl (by decide +kernel))), hopened]
    rfl

end Wire

end Probe
