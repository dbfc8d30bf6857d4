import Derphole.Lib.File
import Derphole.Lib.Run
import Derphole.Lib.TableCipher
import Derphole.Probe.Nonce
import Mathlib.Algebra.Order.BigOperators.Group.List
import Mathlib.Algebra.Order.Ring.Nat

/-!
# The memory of the stream replay window

`StreamReplay` describes the window of `pkg/probe/stream_replay.go` by the packets it holds.  Here it
holds what the code holds: slabs of bytes that are allocated when they are first needed, and for each
slot a slice of a slab.  `Holds m w` says that the memory `m` stands for the window `w`; every
operation keeps it, so that a slice reads as the wire image of its packet.

Counters are `uint64` and wrap around.
-/

namespace Probe

open Lib

/-- A `cipher.AEAD`; `sealBody nonce payload header` is what `Seal` appends. -/
structure AEAD where
  overhead : Nat
  nonceSize : Nat
  sealBody : List UInt8 → List UInt8 → List UInt8 → List UInt8
  length_sealBody : ∀ nonce payload header, (sealBody nonce payload header).length = payload.length + overhead

/-- An AEAD from a table of its values. -/
def AEAD.ofTable {rows : List TableCipher.Row} (h : TableCipher.Table rows) : AEAD where
  overhead := 16
  nonceSize := 12
  sealBody := TableCipher.sealMessage rows
  length_sealBody := h.length_seal

/-- What a packet is sealed to. -/
def packetRow (runID : RunID) (p : Packet) (sealed : List UInt8) : TableCipher.Row where
  nonce := (packetAEADNonce (encodePacketHeader runID p)).getD []
  message := p.payload
  additional := encodePacketHeader runID p
  sealed := sealed

/-- The bytes of a packet, as `MarshalPacket` makes them. -/
def wireImage (runID : RunID) (aead : Option AEAD) (p : Packet) : List UInt8 :=
  let header := encodePacketHeader runID p
  match aead with
  | none => header ++ p.payload
  | some aead => header ++ aead.sealBody ((packetAEADNonce header).getD []) p.payload header

/-- A slice of a slab. -/
structure View where
  slab : Nat
  offset : Nat
  length : Nat
  deriving DecidableEq

/-- `streamReplaySlot`. -/
structure MemorySlot where
  seq : Nat
  packet : Option View
  bytes : Nat
  present : Bool
  deriving DecidableEq

def MemorySlot.empty : MemorySlot := ⟨0, none, 0, false⟩

/-- `streamReplayWindow`. -/
structure ReplayMemory where
  runID : RunID
  maxBytes : Nat
  packetAEAD : Option AEAD
  packetStride : Nat
  slabSize : Nat
  slotsPerSlab : Nat
  slots : List MemorySlot
  slabs : List (Option File)
  retained : Nat
  maxRetained : Nat
  ackFloor : Nat

namespace ReplayMemory

def overhead (aead : Option AEAD) : Nat := aead.elim 0 AEAD.overhead

/-- The chunk size in effect. -/
def chunkFor (chunkSize : Int) : Nat := if chunkSize ≤ 0 then defaultChunkSize else chunkSize.toNat

/-- The byte limit in effect. -/
def bytesFor (maxBytes : UInt64) : Nat :=
  if maxBytes = 0 then defaultStreamReplayWindowBytes else maxBytes.toNat

/-- The stride of the slots, an `int`. -/
@[irreducible]
def packetStrideFor (chunkSize : Int) (aead : Option AEAD) : Nat :=
  let stride := ((headerLen + chunkFor chunkSize + overhead aead : Nat) : Int).bmod 18446744073709551616
  if stride ≤ headerLen then headerLen + 1 + overhead aead else stride.toNat

def newStreamReplayWindow (runID : RunID) (chunkSize : Int) (maxBytes : UInt64) (aead : Option AEAD) :
    ReplayMemory :=
  let bytes := bytesFor maxBytes
  let stride := packetStrideFor chunkSize aead
  let slotCount := max (bytes / stride) 1
  let slab := if bytes < blastRepairMemorySlab then max bytes stride else blastRepairMemorySlab
  let perSlab := max (slab / stride) 1
  { runID := runID
    maxBytes := bytes
    packetAEAD := aead
    packetStride := stride
    slabSize := slab
    slotsPerSlab := perSlab
    slots := List.replicate slotCount MemorySlot.empty
    slabs := List.replicate ((slotCount + perSlab - 1) / perSlab) none
    retained := 0
    maxRetained := 0
    ackFloor := 0 }

section

variable (m : ReplayMemory)

def slotIndex (seq : Nat) : Nat := seq % m.slots.length

def slot (seq : Nat) : MemorySlot := m.slots.getD (m.slotIndex seq) MemorySlot.empty

/-- The bytes of a slab; one that is not allocated yet would be all zero. -/
def slabAt (i : Nat) : File := (m.slabs.getD i none).getD (List.replicate m.slabSize 0)

def packetBytes (payload : List UInt8) : Nat := headerLen + payload.length + overhead m.packetAEAD

/-- The buffer of a slot. -/
def packetBufferForSlot (slotIndex packetBytes : Nat) : View where
  slab := slotIndex / m.slotsPerSlab
  offset := slotIndex % m.slotsPerSlab * m.packetStride
  length := packetBytes

/-- Neither the slab nor the end of the slice is out of range. -/
def InRange (view : View) : Prop :=
  view.slab < m.slabs.length ∧ view.offset + view.length ≤ m.slabSize

instance (view : View) : Decidable (m.InRange view) := inferInstanceAs (Decidable (_ ∧ _))

/-- The bytes that a slice shows. -/
def read (view : View) : List UInt8 := (m.slabAt view.slab).readAt view.offset view.length

/-- `marshalBlastPayloadPacketInto` writes into a slab.  The buffer is as long as the packet. -/
def marshalInto (slab : File) (offset : Nat) (p : Packet) : File × Except SendErr Nat :=
  let header := encodePacketHeader m.runID p
  let slab := slab.writeAt offset header
  match m.packetAEAD with
  | none => (slab.writeAt (offset + header.length) p.payload, .ok (headerLen + p.payload.length))
  | some aead =>
      if aead.nonceSize ≠ 12 then (slab, .error (.text "unsupported packet AEAD nonce size"))
      else
        match packetAEADNonce header with
        | none => (slab, .error .exceedsNonceRange)
        | some nonce =>
            let body := aead.sealBody nonce p.payload header
            (slab.writeAt (offset + header.length) body, .ok (headerLen + body.length))

def setSlab (i : Nat) (slab : File) : ReplayMemory := { m with slabs := m.slabs.set i (some slab) }

def setSlot (seq : Nat) (slot : MemorySlot) (retained : Nat) : ReplayMemory :=
  { m with slots := m.slots.set (m.slotIndex seq) slot, retained := retained }

/-- The bytes that stay, as the size check counts them. -/
def retainedAfterReplace (slot : MemorySlot) : Nat :=
  if slot.present ∧ slot.bytes ≤ m.retained then m.retained - slot.bytes else m.retained

/-- The packet takes its slot. -/
def store (seq : Nat) (view : View) (bytes : Nat) : ReplayMemory :=
  let slot := m.slot seq
  let kept := if slot.present then m.retained - min m.retained slot.bytes else m.retained
  let retained := (kept + bytes) % 2 ^ 64
  { m.setSlot seq ⟨seq, some view, bytes, true⟩ retained with
    maxRetained := max m.maxRetained retained }

/-- The packet is written into the buffer of its slot; an index out of range stops the program. -/
def fill (p : Packet) : ReplayMemory × Except SendErr View :=
  let bytes := m.packetBytes p.payload
  let view := m.packetBufferForSlot (m.slotIndex p.seq) bytes
  if m.InRange view then
    match m.marshalInto (m.slabAt view.slab) view.offset p with
    | (slab, .error e) => (m.setSlab view.slab slab, .error e)
    | (slab, .ok length) =>
        let wire : View := { view with length := length }
        ((m.setSlab view.slab slab).store p.seq wire bytes, .ok wire)
  else (m, .error .outOfRange)

def addPacket (type : PacketType) (stripeID seq offset : Nat) (payload : List UInt8) :
    ReplayMemory × Except SendErr View :=
  let bytes := m.packetBytes payload
  if (m.slot seq).present ∧ (m.slot seq).seq ≠ seq then (m, .error .windowFull)
  else if m.packetStride < bytes then (m, .error .exceedsSlot)
  else if 0 < m.maxBytes ∧ m.maxBytes < (m.retainedAfterReplace (m.slot seq) + bytes) % 2 ^ 64 then
    (m, .error .windowFull)
  else m.fill ⟨type, stripeID, seq, offset, 0, 0, payload⟩

def addDataPacket (stripeID seq offset : Nat) (payload : List UInt8) :
    ReplayMemory × Except SendErr View :=
  m.addPacket .data stripeID seq offset payload

def delete (seq : Nat) : ReplayMemory :=
  let slot := m.slot seq
  if slot.present ∧ slot.seq = seq then
    m.setSlot seq ⟨slot.seq, none, 0, false⟩ (if m.retained ≤ slot.bytes then 0 else m.retained - slot.bytes)
  else m

/-- `AckFloor`. -/
def advanceAck (seq : Nat) : ReplayMemory :=
  if seq ≤ m.ackFloor then m
  else { (List.range' m.ackFloor (seq - m.ackFloor)).foldl delete m with ackFloor := seq }

/-- `Packet`. -/
def packet (seq : Nat) : Option View :=
  if (m.slot seq).present ∧ (m.slot seq).seq = seq then (m.slot seq).packet else none

end

/-! ## The wire image -/

theorem length_encodePacketHeader (runID : RunID) (p : Packet) :
    (encodePacketHeader runID p).length = headerLen := by
  simp [encodePacketHeader, headerLen]

theorem length_wireImage (runID : RunID) (aead : Option AEAD) (p : Packet) :
    (wireImage runID aead p).length = headerLen + p.payload.length + overhead aead := by
  cases aead with
  | none => simp [wireImage, length_encodePacketHeader, overhead]
  | some aead =>
      simp only [wireImage, List.length_append, length_encodePacketHeader, aead.length_sealBody, overhead,
        Option.elim_some]
      omega

section Marshal

variable {m : ReplayMemory} {slab slab' : File} {offset : Nat} {p : Packet}

theorem marshalInto_ok {length : Nat} (h : m.marshalInto slab offset p = (slab', .ok length)) :
    slab' = slab.writeAt offset (wireImage m.runID m.packetAEAD p) ∧
      length = m.packetBytes p.payload := by
  unfold marshalInto at h
  simp only at h
  split at h
  · next haead =>
      cases h
      rw [File.writeAt_writeAt_end]
      simp [wireImage, haead, packetBytes, overhead]
  · next aead haead =>
      split at h
      · cases h
      split at h
      · cases h
      · next nonce hnonce =>
          cases h
          rw [File.writeAt_writeAt_end]
          simp [wireImage, haead, hnonce, packetBytes, overhead, aead.length_sealBody, Nat.add_assoc]

/-- A packet that cannot be sealed leaves its header behind. -/
theorem marshalInto_error {e : SendErr} (h : m.marshalInto slab offset p = (slab', .error e)) :
    slab' = slab.writeAt offset (encodePacketHeader m.runID p) ∧ e ≠ .outOfRange ∧ e ≠ .windowFull := by
  unfold marshalInto at h
  simp only at h
  split at h
  · cases h
  · split at h
    · cases h
      exact ⟨rfl, by simp, by simp⟩
    split at h
    · cases h
      exact ⟨rfl, by simp, by simp⟩
    · cases h

theorem marshalInto_exceeds {aead : AEAD} (haead : m.packetAEAD = some aead) {length : Nat}
    (h : m.marshalInto slab offset p = (slab', .ok length)) (hseq : p.seq < 2 ^ 64) :
    p.seq < packetAEADNonceSeqs := by
  unfold marshalInto at h
  simp only [haead] at h
  split at h
  · cases h
  split at h
  · cases h
  · next nonce hnonce =>
      by_contra hge
      have hnumber : ((encodePacketHeader m.runID p).drop 20).take 8 = bigEndian 8 p.seq := by
        simp [encodePacketHeader, List.drop_append, List.take_append]
      rw [packetAEADNonce] at hnonce
      simp only [length_encodePacketHeader, hnumber, Nat.lt_irrefl, if_false,
        ofBigEndian_bigEndian_of_lt (show p.seq < 256 ^ 8 by simpa using hseq)] at hnonce
      rw [if_pos (by omega)] at hnonce
      cases hnonce

end Marshal

/-! ## The layout of the slots -/

/-- The slots lie next to each other in the slabs. -/
structure Layout (m : ReplayMemory) : Prop where
  slots : 0 < m.slots.length
  perSlab : 0 < m.slotsPerSlab
  fits : m.slotsPerSlab * m.packetStride ≤ m.slabSize
  covers : m.slots.length ≤ m.slabs.length * m.slotsPerSlab
  slab : ∀ (i : Nat) (slab : File), m.slabs[i]? = some (some slab) → slab.length = m.slabSize
  room : m.slots.length * m.packetStride ≤ max m.maxBytes m.packetStride
  bound : max m.maxBytes m.packetStride < 2 ^ 64

/-- The slices show no byte in common. -/
def Apart (v v' : View) : Prop :=
  v.slab ≠ v'.slab ∨ v.offset + v.length ≤ v'.offset ∨ v'.offset + v'.length ≤ v.offset

section

variable {m : ReplayMemory}

theorem Layout.slotIndex_lt (h : Layout m) (seq : Nat) : m.slotIndex seq < m.slots.length :=
  Nat.mod_lt _ h.slots

theorem Layout.inRange (h : Layout m) {i bytes : Nat} (hi : i < m.slots.length)
    (hb : bytes ≤ m.packetStride) : m.InRange (m.packetBufferForSlot i bytes) := by
  have hmod : i % m.slotsPerSlab < m.slotsPerSlab := Nat.mod_lt _ h.perSlab
  refine ⟨?_, ?_⟩
  · exact (Nat.div_lt_iff_lt_mul h.perSlab).mpr (Nat.lt_of_lt_of_le hi h.covers)
  · calc i % m.slotsPerSlab * m.packetStride + bytes
        ≤ i % m.slotsPerSlab * m.packetStride + m.packetStride := Nat.add_le_add_left hb _
      _ = (i % m.slotsPerSlab + 1) * m.packetStride := (Nat.succ_mul _ _).symm
      _ ≤ m.slotsPerSlab * m.packetStride := Nat.mul_le_mul_right _ hmod
      _ ≤ m.slabSize := h.fits

/-- Different slots have different buffers. -/
theorem apart_of_ne (m : ReplayMemory) {i j bytes bytes' : Nat} (hij : i ≠ j)
    (hb : bytes ≤ m.packetStride) (hb' : bytes' ≤ m.packetStride) :
    Apart (m.packetBufferForSlot i bytes) (m.packetBufferForSlot j bytes') := by
  by_cases hslab : i / m.slotsPerSlab = j / m.slotsPerSlab
  · right
    have hmod : i % m.slotsPerSlab ≠ j % m.slotsPerSlab := by
      intro hmod
      apply hij
      rw [← Nat.div_add_mod i m.slotsPerSlab, ← Nat.div_add_mod j m.slotsPerSlab, hslab, hmod]
    have hnext : ∀ a b bytes : Nat, a < b → bytes ≤ m.packetStride →
        a * m.packetStride + bytes ≤ b * m.packetStride := by
      intro a b bytes hab hb
      have := Nat.mul_le_mul_right m.packetStride (show a + 1 ≤ b from hab)
      rw [Nat.succ_mul] at this
      omega
    rcases Nat.lt_or_gt_of_ne hmod with hlt | hgt
    · exact .inl (hnext _ _ _ hlt hb)
    · exact .inr (hnext _ _ _ hgt hb')
  · exact .inl hslab

theorem Layout.length_slabAt (h : Layout m) (i : Nat) : (m.slabAt i).length = m.slabSize := by
  rw [slabAt, List.getD_eq_getElem?_getD]
  cases hi : m.slabs[i]? with
  | none => simp
  | some slab =>
      cases slab with
      | none => simp
      | some slab => simpa using h.slab i slab hi

/-- Writing into one buffer does not show in another. -/
theorem Layout.read_setSlab (h : Layout m) {v v' : View} {bytes : List UInt8}
    (hv : m.InRange v) (hlen : bytes.length ≤ v.length) (hv' : m.InRange v') (hap : Apart v v') :
    (m.setSlab v.slab ((m.slabAt v.slab).writeAt v.offset bytes)).read v' = m.read v' := by
  rw [read, read]
  by_cases hs : v.slab = v'.slab
  · have hslab : (m.setSlab v.slab ((m.slabAt v.slab).writeAt v.offset bytes)).slabAt v'.slab =
        (m.slabAt v'.slab).writeAt v.offset bytes := by
      rw [slabAt, setSlab, ← hs, List.getD_eq_getElem?_getD, List.getElem?_set_self hv.1]
      rfl
    rw [hslab]
    refine File.readAt_writeAt_of_disjoint _ ?_ ?_
    · rw [h.length_slabAt]
      exact hv'.2
    · rcases hap with hap | hap | hap
      · exact absurd hs hap
      · right
        omega
      · exact .inl hap
  · have hslab : (m.setSlab v.slab ((m.slabAt v.slab).writeAt v.offset bytes)).slabAt v'.slab =
        m.slabAt v'.slab := by
      simp only [slabAt, setSlab, List.getD_eq_getElem?_getD, List.getElem?_set_ne hs]
    rw [hslab]

/-- What was written into a buffer shows. -/
theorem read_setSlab_self {v : View} {bytes : List UInt8} (hv : m.InRange v)
    (hlen : bytes.length = v.length) :
    (m.setSlab v.slab ((m.slabAt v.slab).writeAt v.offset bytes)).read v = bytes := by
  have hslab : (m.setSlab v.slab ((m.slabAt v.slab).writeAt v.offset bytes)).slabAt v.slab =
      (m.slabAt v.slab).writeAt v.offset bytes := by
    rw [slabAt, setSlab, List.getD_eq_getElem?_getD, List.getElem?_set_self hv.1]
    rfl
  rw [read, hslab, ← hlen, File.readAt_writeAt]

theorem Layout.setSlab (h : Layout m) {v : View} {bytes : List UInt8} (hv : m.InRange v)
    (hlen : bytes.length ≤ v.length) :
    Layout (m.setSlab v.slab ((m.slabAt v.slab).writeAt v.offset bytes)) := by
  refine { h with covers := ?_, slab := ?_ }
  · rw [ReplayMemory.setSlab, List.length_set]
    exact h.covers
  · intro i slab hi
    simp only [ReplayMemory.setSlab, List.getElem?_set] at hi
    split at hi
    · split at hi
      · cases hi
        have := hv.2
        rw [File.length_writeAt _ (by rw [h.length_slabAt]; omega), h.length_slabAt]
        rfl
      · cases hi
    · exact h.slab i slab hi

theorem Layout.setSlot (h : Layout m) (seq : Nat) (slot : MemorySlot) (retained : Nat) :
    Layout (m.setSlot seq slot retained) := by
  refine { h with slots := ?_, covers := ?_, room := ?_ } <;>
    simp only [ReplayMemory.setSlot, List.length_set]
  · exact h.slots
  · exact h.covers
  · exact h.room

theorem Layout.slot_setSlot (h : Layout m) (seq s : Nat) (slot : MemorySlot) (retained : Nat) :
    (m.setSlot seq slot retained).slot s =
      if m.slotIndex seq = m.slotIndex s then slot else m.slot s := by
  have hlt := h.slotIndex_lt seq
  simp only [ReplayMemory.slot, ReplayMemory.setSlot, slotIndex, List.length_set,
    List.getD_eq_getElem?_getD, List.getElem?_set] at hlt ⊢
  by_cases hi : seq % m.slots.length = s % m.slots.length
  · simp [hi, hi ▸ hlt]
  · simp [hi]

end

/-! ## The window that the memory stands for -/

/-- A slot and its packet. -/
structure SlotHolds (m : ReplayMemory) (i : Nat) (ms : MemorySlot) (ws : ReplaySlot) : Prop where
  seq : ms.seq = ws.seq
  bytes : ms.bytes = ws.bytes
  present : ms.present = ws.present
  absent : ms.present = false → ms.packet = none
  view : ms.present = true → ∃ p, ws.packet = some p ∧ ms.bytes = m.packetBytes p.payload ∧
    ms.bytes ≤ m.packetStride ∧ ms.packet = some (m.packetBufferForSlot i ms.bytes) ∧
    m.read (m.packetBufferForSlot i ms.bytes) = wireImage m.runID m.packetAEAD p

/-- The memory stands for the window. -/
structure Holds (m : ReplayMemory) (w : ReplayWindow) : Prop where
  layout : Layout m
  ring : w.Ring
  maxBytes : m.maxBytes = w.maxBytes
  aead : w.aead = m.packetAEAD.map AEAD.overhead
  stride : m.packetStride = w.packetStride
  slabSize : m.slabSize = w.slabSize
  perSlab : m.slotsPerSlab = w.slotsPerSlab
  retained : m.retained = w.retained
  ackFloor : m.ackFloor = w.ackFloor
  length : m.slots.length = w.slots.length
  slot : ∀ seq, SlotHolds m (m.slotIndex seq) (m.slot seq) (w.slot seq)
  positive : 0 < m.maxBytes
  limit : m.retained ≤ m.maxBytes

section

variable {m : ReplayMemory} {w : ReplayWindow}

/-- An empty slot does not depend on the slabs. -/
theorem SlotHolds.of_absent {m' : ReplayMemory} {i : Nat} {ms : MemorySlot} {ws : ReplaySlot}
    (h : SlotHolds m i ms ws) (hms : ms.present = false) : SlotHolds m' i ms ws where
  seq := h.seq
  bytes := h.bytes
  present := h.present
  absent := h.absent
  view := fun hp => by
    rw [hms] at hp
    cases hp

/-- Slots do not depend on anything but the slabs and what never changes. -/
theorem SlotHolds.of_read {m' : ReplayMemory} {i : Nat} {ms : MemorySlot} {ws : ReplaySlot}
    (h : SlotHolds m i ms ws) (hrun : m'.runID = m.runID) (haead : m'.packetAEAD = m.packetAEAD)
    (hstride : m'.packetStride = m.packetStride) (hper : m'.slotsPerSlab = m.slotsPerSlab)
    (hread : ms.bytes ≤ m.packetStride →
      m'.read (m.packetBufferForSlot i ms.bytes) = m.read (m.packetBufferForSlot i ms.bytes)) :
    SlotHolds m' i ms ws where
  seq := h.seq
  bytes := h.bytes
  present := h.present
  absent := h.absent
  view := fun hp => by
    obtain ⟨p, hw, hbytes, hle, hview, himage⟩ := h.view hp
    have hbuf : m'.packetBufferForSlot i ms.bytes = m.packetBufferForSlot i ms.bytes := by
      simp only [packetBufferForSlot, hstride, hper]
    refine ⟨p, hw, ?_, by rw [hstride]; exact hle, by rw [hbuf]; exact hview, ?_⟩
    · rw [packetBytes, haead]
      exact hbytes
    · rw [hbuf, hread hle, hrun, haead]
      exact himage

namespace Holds

theorem slotIndex (h : Holds m w) (seq : Nat) : m.slotIndex seq = w.slotIndex seq := by
  rw [ReplayMemory.slotIndex, ReplayWindow.slotIndex, h.length]

theorem packetBytes (h : Holds m w) (payload : List UInt8) :
    m.packetBytes payload = w.packetBytes payload := by
  rw [ReplayMemory.packetBytes, ReplayWindow.packetBytes, h.aead]
  cases m.packetAEAD <;> rfl

theorem retainedAfterReplace (h : Holds m w) (seq : Nat) :
    m.retainedAfterReplace (m.slot seq) = w.retainedAfterReplace (w.slot seq) := by
  have hs := h.slot seq
  simp only [ReplayMemory.retainedAfterReplace, ReplayWindow.retainedAfterReplace, hs.present, hs.bytes,
    h.retained]

/-- The bytes that a slot keeps are those that the size check counts. -/
theorem retainedWithout (h : Holds m w) (seq : Nat) :
    w.retainedWithout (w.slot seq) = w.retainedAfterReplace (w.slot seq) := by
  have hc := h.ring.counted seq
  unfold ReplayWindow.retainedWithout ReplayWindow.retainedAfterReplace
  cases hp : (w.slot seq).present with
  | false => simp
  | true =>
      rw [hp] at hc
      simp only [if_true] at hc
      simp [hc]

/-- The retained bytes with one slot replaced fit into the slots. -/
theorem retained_add_le (h : Holds m w) (seq : Nat) {bytes : Nat} (hb : bytes ≤ m.packetStride) :
    w.retainedAfterReplace (w.slot seq) + bytes ≤ m.slots.length * m.packetStride := by
  let counts := w.slots.map fun s => if s.present then s.bytes else 0
  have hlen : counts.length = m.slots.length := by rw [List.length_map, h.length]
  have hset := ReplayWindow.sum_set counts (w.slotIndex seq) bytes
    (by rw [List.length_map]; exact w.slotIndex_lt seq)
  rw [ReplayWindow.Ring.getD_bytes, ← h.ring.retained] at hset
  have hle : (counts.set (w.slotIndex seq) bytes).sum ≤ m.slots.length * m.packetStride := by
    have := List.sum_le_card_nsmul (counts.set (w.slotIndex seq) bytes) m.packetStride (by
      intro n hn
      rcases List.mem_or_eq_of_mem_set hn with hn | rfl
      · obtain ⟨ws, hws, rfl⟩ := List.mem_map.mp hn
        obtain ⟨i, hi⟩ := List.mem_iff_getElem?.mp hws
        have hlt : i < w.slots.length := (List.getElem?_eq_some_iff.mp hi).1
        have hslot : w.slot i = ws := by
          rw [ReplayWindow.slot, ReplayWindow.slotIndex, Nat.mod_eq_of_lt hlt,
            List.getD_eq_getElem?_getD, hi]
          rfl
        have hs := h.slot i
        rw [hslot] at hs
        split
        · next hp =>
            obtain ⟨-, -, -, hle, -⟩ := hs.view (hs.present.trans hp)
            rw [← hs.bytes]
            exact hle
        · exact Nat.zero_le _
      · exact hb)
    rwa [List.length_set, hlen, nsmul_eq_mul, Nat.cast_id] at this
  have hwithout : w.retainedAfterReplace (w.slot seq) + bytes =
      (counts.set (w.slotIndex seq) bytes).sum := by
    have hc := h.ring.counted seq
    unfold ReplayWindow.retainedAfterReplace
    cases hp : (w.slot seq).present with
    | false =>
        rw [hp] at hset
        simp only [Bool.false_eq_true, if_false, false_and] at hset ⊢
        omega
    | true =>
        rw [hp] at hset hc
        simp only [if_true] at hset hc
        simp only [hc, and_self, if_true]
        omega
  rw [hwithout]
  exact hle

/-- The counters do not wrap around. -/
theorem no_wrap (h : Holds m w) (seq : Nat) {bytes : Nat} (hb : bytes ≤ m.packetStride) :
    (w.retainedAfterReplace (w.slot seq) + bytes) % 2 ^ 64 =
      w.retainedAfterReplace (w.slot seq) + bytes :=
  Nat.mod_eq_of_lt (Nat.lt_of_le_of_lt ((h.retained_add_le seq hb).trans h.layout.room) h.layout.bound)

/-! ### Operations -/

/-- A slot is replaced on both sides. -/
theorem setSlot (h : Holds m w) (seq : Nat) (ms : MemorySlot) (ws : ReplaySlot) (retained : Nat)
    (hring : (w.setSlot seq ws retained).Ring)
    (hslot : SlotHolds m (m.slotIndex seq) ms ws) (hlimit : retained ≤ m.maxBytes) :
    Holds (m.setSlot seq ms retained) (w.setSlot seq ws retained) where
  layout := h.layout.setSlot seq ms retained
  ring := hring
  maxBytes := h.maxBytes
  aead := h.aead
  stride := h.stride
  slabSize := h.slabSize
  perSlab := h.perSlab
  retained := rfl
  ackFloor := h.ackFloor
  length := by
    simp only [ReplayMemory.setSlot, ReplayWindow.setSlot, List.length_set]
    exact h.length
  slot := fun s => by
    have hi : (m.setSlot seq ms retained).slotIndex s = m.slotIndex s := by
      simp only [ReplayMemory.slotIndex, ReplayMemory.setSlot, List.length_set]
    rw [hi, h.layout.slot_setSlot, ReplayWindow.slot_setSlot, ← h.slotIndex, ← h.slotIndex]
    split
    · next heq =>
        rw [← heq]
        exact hslot.of_read rfl rfl rfl rfl fun _ => rfl
    · exact (h.slot s).of_read rfl rfl rfl rfl fun _ => rfl
  positive := h.positive
  limit := hlimit

theorem delete (h : Holds m w) (seq : Nat) : Holds (m.delete seq) (w.delete seq) := by
  have hs := h.slot seq
  have hring := h.ring.delete seq
  unfold ReplayMemory.delete
  unfold ReplayWindow.delete at hring ⊢
  by_cases hholds : (w.slot seq).holds seq = true
  · rw [if_pos hholds] at hring ⊢
    obtain ⟨hp, hq⟩ := ReplayWindow.holds_iff.mp hholds
    have hret : (if m.retained ≤ (m.slot seq).bytes then 0 else m.retained - (m.slot seq).bytes) =
        w.retained - (w.slot seq).bytes := by
      rw [hs.bytes, h.retained]
      split <;> omega
    rw [if_pos ⟨hs.present.trans hp, hs.seq.trans hq⟩, hret]
    have hlimit := h.limit
    rw [h.retained] at hlimit
    refine h.setSlot seq _ _ _ hring ⟨hs.seq, rfl, rfl, fun _ => rfl, fun hf => ?_⟩ (by omega)
    cases hf
  · rw [if_neg hholds] at hring ⊢
    rw [if_neg]
    · exact h
    · rw [hs.present, hs.seq]
      exact fun hc => hholds (ReplayWindow.holds_iff.mpr hc)

theorem foldl_delete (seqs : List Nat) :
    ∀ {m : ReplayMemory} {w : ReplayWindow}, Holds m w →
      Holds (seqs.foldl ReplayMemory.delete m) (seqs.foldl ReplayWindow.delete w) := by
  induction seqs with
  | nil => exact fun h => h
  | cons seq seqs ih => exact fun h => ih (h.delete seq)

theorem advanceAck (h : Holds m w) (seq : Nat) : Holds (m.advanceAck seq) (w.advanceAck seq) := by
  have hring := h.ring.advanceAck seq
  unfold ReplayMemory.advanceAck
  unfold ReplayWindow.advanceAck at hring ⊢
  rw [h.ackFloor]
  split
  · exact h
  · next hlt =>
      rw [if_neg hlt] at hring
      have hd := h.foldl_delete (List.range' w.ackFloor (seq - w.ackFloor))
      exact
        { hd with
          layout := { hd.layout with }
          ring := hring
          ackFloor := rfl
          slot := fun s => (hd.slot s).of_read rfl rfl rfl rfl fun _ => rfl }

/-- The slot is empty, so nothing shows of what is written into its buffer. -/
theorem scribble (h : Holds m w) (seq : Nat) {bytes : List UInt8} {length : Nat}
    (hfree : (m.slot seq).present = false) (hlength : length ≤ m.packetStride)
    (hlen : bytes.length ≤ length) :
    let v := m.packetBufferForSlot (m.slotIndex seq) length
    Holds (m.setSlab v.slab ((m.slabAt v.slab).writeAt v.offset bytes)) w := by
  intro v
  have hv : m.InRange v := h.layout.inRange (h.layout.slotIndex_lt seq) hlength
  refine
    { h with
      layout := h.layout.setSlab hv hlen
      slot := fun s => ?_ }
  by_cases hi : m.slotIndex seq = m.slotIndex s
  · have hslot : m.slot s = m.slot seq := by
      rw [ReplayMemory.slot, ReplayMemory.slot, hi]
    exact (h.slot s).of_absent (hslot ▸ hfree)
  · refine (h.slot s).of_read rfl rfl rfl rfl fun hle => ?_
    exact h.layout.read_setSlab hv hlen (h.layout.inRange (h.layout.slotIndex_lt s) hle)
      (m.apart_of_ne hi hlength hle)

/-- The packet is in its slot. -/
theorem store (h : Holds m w) {p : Packet} {wire : View} {bytes : Nat}
    (hring : (w.store p.seq p bytes).Ring) (hbytes : bytes = m.packetBytes p.payload)
    (hle : bytes ≤ m.packetStride) (hwire : wire = m.packetBufferForSlot (m.slotIndex p.seq) bytes)
    (hread : m.read wire = wireImage m.runID m.packetAEAD p)
    (hlimit : w.retainedAfterReplace (w.slot p.seq) + bytes ≤ m.maxBytes) :
    Holds (m.store p.seq wire bytes) (w.store p.seq p bytes) := by
  have hs := h.slot p.seq
  have hkept : (if (m.slot p.seq).present then m.retained - min m.retained (m.slot p.seq).bytes
      else m.retained) = w.retainedAfterReplace (w.slot p.seq) := by
    rw [hs.present, hs.bytes, h.retained, ← h.retainedWithout]
    rfl
  have hnew : SlotHolds m (m.slotIndex p.seq) ⟨p.seq, some wire, bytes, true⟩
      ⟨p.seq, some p, bytes, true⟩ :=
    ⟨rfl, rfl, rfl, fun hf => (by cases hf), fun _ =>
      ⟨p, rfl, hbytes, hle, by rw [hwire], by rw [← hwire]; exact hread⟩⟩
  have hset := h.setSlot p.seq ⟨p.seq, some wire, bytes, true⟩ ⟨p.seq, some p, bytes, true⟩
    (w.retainedAfterReplace (w.slot p.seq) + bytes)
    (by
      rw [← h.retainedWithout]
      exact ⟨hring.index, hring.stored, hring.retained⟩) hnew hlimit
  unfold ReplayMemory.store ReplayWindow.store
  simp only [hkept, h.retainedWithout, h.no_wrap p.seq hle]
  exact
    { hset with
      layout := { hset.layout with }
      ring := ⟨hset.ring.index, hset.ring.stored, hset.ring.retained⟩
      slot := fun s => (hset.slot s).of_read rfl rfl rfl rfl fun _ => rfl }

/-- A packet that is in its slot is given back. -/
theorem packet (h : Holds m w) (seq : Nat) :
    (m.packet seq = none ∧ w.packet seq = none) ∨
      ∃ p bytes, w.packet seq = some p ∧ bytes = m.packetBytes p.payload ∧ bytes ≤ m.packetStride ∧
        m.packet seq = some (m.packetBufferForSlot (m.slotIndex seq) bytes) ∧
        m.read (m.packetBufferForSlot (m.slotIndex seq) bytes) = wireImage m.runID m.packetAEAD p := by
  have hs := h.slot seq
  unfold ReplayMemory.packet ReplayWindow.packet
  by_cases hholds : (w.slot seq).holds seq = true
  · right
    obtain ⟨hp, hq⟩ := ReplayWindow.holds_iff.mp hholds
    rw [if_pos hholds, if_pos ⟨hs.present.trans hp, hs.seq.trans hq⟩]
    obtain ⟨p, hw, hbytes, hle, hview, hread⟩ := hs.view (hs.present.trans hp)
    exact ⟨p, _, hw, hbytes, hle, hview, hread⟩
  · left
    rw [if_neg hholds, if_neg]
    · exact ⟨rfl, rfl⟩
    · rw [hs.present, hs.seq]
      exact fun hc => hholds (ReplayWindow.holds_iff.mpr hc)

/-- The slots count the bytes that their slices show. -/
theorem lengths (h : Holds m w) :
    (m.slots.map fun slot => slot.packet.elim 0 View.length) =
      w.slots.map fun slot => if slot.present then slot.bytes else 0 := by
  apply List.ext_getElem?
  intro i
  rw [List.getElem?_map, List.getElem?_map]
  by_cases hi : i < m.slots.length
  · have hmi : m.slotIndex i = i := Nat.mod_eq_of_lt hi
    have hwi : w.slotIndex i = i := Nat.mod_eq_of_lt (h.length ▸ hi)
    have hm : m.slots[i]? = some (m.slot i) := by
      rw [ReplayMemory.slot, hmi, List.getD_eq_getElem?_getD, List.getElem?_eq_getElem hi]
      rfl
    have hw : w.slots[i]? = some (w.slot i) := by
      have := ReplayWindow.Ring.slot_mem w i
      rwa [hwi] at this
    have hs := h.slot i
    rw [hm, hw, Option.map_some, Option.map_some]
    congr 1
    cases hp : (m.slot i).present with
    | false =>
        rw [hs.absent hp, ← hs.present, hp]
        rfl
    | true =>
        obtain ⟨p, -, -, -, hview, -⟩ := hs.view hp
        rw [hview, ← hs.present, hp, ← hs.bytes]
        rfl
  · rw [List.getElem?_eq_none (by omega), List.getElem?_eq_none (by rw [← h.length]; omega)]
    rfl

/-- Two numbers never share a slot. -/
theorem slotIndex_ne (h : Holds m w) {s s' : Nat} (hne : s ≠ s') {p p' : Packet}
    (hp : w.packet s = some p) (hp' : w.packet s' = some p') : m.slotIndex s ≠ m.slotIndex s' := by
  intro hi
  have hholds : ∀ {a : Nat} {q : Packet}, w.packet a = some q → (w.slot a).seq = a := by
    intro a q ha
    rw [ReplayWindow.packet] at ha
    split at ha
    · next hh => exact (ReplayWindow.holds_iff.mp hh).2
    · cases ha
  have hslot : w.slot s = w.slot s' := by
    rw [ReplayWindow.slot, ReplayWindow.slot, ← h.slotIndex, ← h.slotIndex, hi]
  exact hne ((hholds hp).symm.trans (hslot ▸ hholds hp'))

/-- A number that has no packet has no slot either. -/
theorem free (h : Holds m w) {seq : Nat} (hnone : w.packet seq = none)
    (hslot : ¬ ((m.slot seq).present = true ∧ (m.slot seq).seq ≠ seq)) :
    (m.slot seq).present = false := by
  have hs := h.slot seq
  cases hp : (m.slot seq).present with
  | false => rfl
  | true =>
      have hseq : (m.slot seq).seq = seq := by
        by_contra hne
        exact hslot ⟨hp, hne⟩
      obtain ⟨p, hw, -⟩ := hs.view hp
      have hholds : (w.slot seq).holds seq = true :=
        ReplayWindow.holds_iff.mpr ⟨hs.present.symm.trans hp, hs.seq.symm.trans hseq⟩
      rw [ReplayWindow.packet, if_pos hholds, hw] at hnone
      cases hnone

/-- What `addPacket` does under a number that has no packet. -/
theorem addPacket (h : Holds m w) (type : PacketType) (stripeID : Nat) {seq : Nat} (offset : Nat)
    {payload : List UInt8} (hnone : w.packet seq = none) (hseq : seq < 2 ^ 64)
    (hfit : m.packetBytes payload ≤ m.packetStride) :
    (∃ wire w', (m.addPacket type stripeID seq offset payload).2 = .ok wire ∧
        w.addPacket type stripeID seq offset payload = .ok (w', ⟨type, stripeID, seq, offset, 0, 0, payload⟩) ∧
        Holds (m.addPacket type stripeID seq offset payload).1 w') ∨
      ∃ e, (m.addPacket type stripeID seq offset payload).2 = .error e ∧ e ≠ .outOfRange ∧
        Holds (m.addPacket type stripeID seq offset payload).1 w := by
  have hs := h.slot seq
  unfold ReplayMemory.addPacket
  simp only
  by_cases hslot : (m.slot seq).present = true ∧ (m.slot seq).seq ≠ seq
  · rw [if_pos hslot]
    exact .inr ⟨_, rfl, by simp, h⟩
  rw [if_neg hslot, if_neg (Nat.not_lt_of_le hfit)]
  have hfree := h.free hnone hslot
  rw [h.retainedAfterReplace, h.no_wrap seq hfit]
  by_cases hfull : 0 < m.maxBytes ∧
      m.maxBytes < w.retainedAfterReplace (w.slot seq) + m.packetBytes payload
  · rw [if_pos hfull]
    exact .inr ⟨_, rfl, by simp, h⟩
  rw [if_neg hfull]
  have hlimit : w.retainedAfterReplace (w.slot seq) + m.packetBytes payload ≤ m.maxBytes := by
    have := h.positive
    omega
  let p : Packet := ⟨type, stripeID, seq, offset, 0, 0, payload⟩
  have hrange := h.layout.inRange (h.layout.slotIndex_lt seq) hfit
  unfold ReplayMemory.fill
  simp only
  rw [if_pos hrange]
  cases hm : m.marshalInto (m.slabAt (m.packetBufferForSlot (m.slotIndex seq) (m.packetBytes payload)).slab)
      (m.packetBufferForSlot (m.slotIndex seq) (m.packetBytes payload)).offset p with
  | mk slab r =>
      cases r with
      | error e =>
          obtain ⟨rfl, hne, -⟩ := marshalInto_error hm
          refine .inr ⟨e, rfl, hne, ?_⟩
          refine h.scribble seq hfree hfit ?_
          rw [length_encodePacketHeader, ReplayMemory.packetBytes]
          omega
      | ok length =>
          obtain ⟨rfl, rfl⟩ := marshalInto_ok hm
          have himage : (wireImage m.runID m.packetAEAD p).length = m.packetBytes payload :=
            length_wireImage _ _ _
          have hadd : w.addPacket type stripeID seq offset payload =
              .ok (w.store seq p (w.packetBytes payload), p) := by
            have hslab : w.bufferEnd seq (w.packetBytes payload) ≤ w.slabSize := by
              have hend := hrange.2
              simp only [packetBufferForSlot, h.slotIndex, h.perSlab, h.stride, h.slabSize,
                h.packetBytes] at hend
              exact hend
            unfold ReplayWindow.addPacket
            rw [if_neg (by rw [← hs.present, ← hs.seq]; exact hslot),
              if_neg (by rw [← h.packetBytes, ← h.stride]; omega),
              if_neg (by rw [← h.packetBytes, ← h.maxBytes]; exact hfull),
              if_neg (Nat.not_lt_of_le hslab)]
            have hnonce : ¬ (w.aead.isSome = true ∧ packetAEADNonceSeqs ≤ seq) := by
              rintro ⟨ha, hge⟩
              rw [h.aead, Option.isSome_map] at ha
              obtain ⟨aead, ha⟩ := Option.isSome_iff_exists.mp ha
              have := marshalInto_exceeds ha hm hseq
              exact absurd hge (Nat.not_le_of_lt this)
            rw [marshalPayloadPacket, if_neg hnonce]
          refine .inl ⟨_, _, rfl, hadd, ?_⟩
          have hscribble := h.scribble seq hfree hfit (Nat.le_of_eq himage)
          have hring := h.ring.addPacket hadd
          rw [← h.packetBytes] at hring ⊢
          exact hscribble.store (p := p) hring rfl hfit rfl (read_setSlab_self hrange himage) hlimit

end Holds

end

/-! ## Runs -/

/-- The largest datagram. -/
def maxDatagram : Nat := 65535

theorem overhead_eq (aead : Option AEAD) : (aead.map AEAD.overhead).getD 0 = overhead aead := by
  cases aead <;> rfl

theorem chunkFor_pos (chunkSize : Int) : 0 < chunkFor chunkSize := by
  unfold chunkFor
  split
  · decide
  · omega

/-- The size of a packet is an `int` where it fits a datagram. -/
theorem packetStrideFor_eq {chunkSize : Int} {aead : Option AEAD}
    (hfit : headerLen + chunkFor chunkSize + overhead aead ≤ maxDatagram) :
    packetStrideFor chunkSize aead = headerLen + chunkFor chunkSize + overhead aead := by
  have hpos := chunkFor_pos chunkSize
  have hgt : ¬((headerLen + chunkFor chunkSize + overhead aead : Nat) : Int) ≤ headerLen := by omega
  have hword : ((headerLen + chunkFor chunkSize + overhead aead : Nat) : Int).bmod 18446744073709551616 =
      (headerLen + chunkFor chunkSize + overhead aead : Nat) := by
    rw [maxDatagram] at hfit
    rw [Int.bmod_def, Int.emod_eq_of_lt (by omega) (by omega), if_pos (by omega)]
  unfold packetStrideFor
  simp only [hword, if_neg hgt, Int.toNat_natCast]

theorem bytesFor_pos (maxBytes : UInt64) : 0 < bytesFor maxBytes := by
  unfold bytesFor
  split
  · decide
  · next h =>
      rw [← UInt64.toNat_inj] at h
      exact Nat.pos_of_ne_zero h

theorem bytesFor_lt (maxBytes : UInt64) : bytesFor maxBytes < 2 ^ 64 := by
  unfold bytesFor
  split
  · decide
  · exact maxBytes.toNat_lt

/-- The slabs cover the slots where a packet fits a datagram. -/
theorem layout_new (runID : RunID) (chunkSize : Int) (maxBytes : UInt64) (aead : Option AEAD)
    (hfit : headerLen + chunkFor chunkSize + overhead aead ≤ maxDatagram) :
    Layout (newStreamReplayWindow runID chunkSize maxBytes aead) := by
  have hpos : 0 < packetStrideFor chunkSize aead := by
    rw [packetStrideFor_eq hfit]
    simp only [headerLen]
    omega
  rw [← packetStrideFor_eq hfit] at hfit
  have hslab : packetStrideFor chunkSize aead ≤
      (newStreamReplayWindow runID chunkSize maxBytes aead).slabSize := by
    show packetStrideFor chunkSize aead ≤ if bytesFor maxBytes < blastRepairMemorySlab then
      max (bytesFor maxBytes) (packetStrideFor chunkSize aead) else blastRepairMemorySlab
    split
    · exact Nat.le_max_right _ _
    · exact hfit.trans (by decide)
  have hper : 1 ≤ (newStreamReplayWindow runID chunkSize maxBytes aead).slabSize /
      packetStrideFor chunkSize aead :=
    (Nat.one_le_div_iff hpos).mpr hslab
  have hcount : (newStreamReplayWindow runID chunkSize maxBytes aead).slots.length =
      max (bytesFor maxBytes / packetStrideFor chunkSize aead) 1 := List.length_replicate
  refine ⟨?_, ?_, ?_, ?_, ?_, ?_, ?_⟩
  · rw [hcount]
    omega
  · exact Nat.lt_of_lt_of_le Nat.zero_lt_one (Nat.le_max_right _ _)
  · show max ((newStreamReplayWindow runID chunkSize maxBytes aead).slabSize /
      packetStrideFor chunkSize aead) 1 * packetStrideFor chunkSize aead ≤
        (newStreamReplayWindow runID chunkSize maxBytes aead).slabSize
    rw [Nat.max_eq_left hper]
    exact Nat.div_mul_le_self _ _
  · have hlen : (newStreamReplayWindow runID chunkSize maxBytes aead).slabs.length =
        ((newStreamReplayWindow runID chunkSize maxBytes aead).slots.length +
          (newStreamReplayWindow runID chunkSize maxBytes aead).slotsPerSlab - 1) /
          (newStreamReplayWindow runID chunkSize maxBytes aead).slotsPerSlab := by
      rw [hcount]
      exact List.length_replicate
    rw [hlen]
    have hp : 0 < (newStreamReplayWindow runID chunkSize maxBytes aead).slotsPerSlab :=
      Nat.lt_of_lt_of_le Nat.zero_lt_one (Nat.le_max_right _ _)
    have := Nat.lt_div_mul_add (a := (newStreamReplayWindow runID chunkSize maxBytes aead).slots.length +
      (newStreamReplayWindow runID chunkSize maxBytes aead).slotsPerSlab - 1) hp
    omega
  · intro i slab hi
    have := List.eq_of_mem_replicate (List.mem_of_getElem? hi)
    cases this
  · rw [hcount]
    show max (bytesFor maxBytes / packetStrideFor chunkSize aead) 1 * packetStrideFor chunkSize aead ≤
      max (bytesFor maxBytes) (packetStrideFor chunkSize aead)
    have := Nat.div_mul_le_self (bytesFor maxBytes) (packetStrideFor chunkSize aead)
    rcases Nat.le_total (bytesFor maxBytes / packetStrideFor chunkSize aead) 1 with h | h
    · rw [Nat.max_eq_right h, Nat.one_mul]
      exact Nat.le_max_right _ _
    · rw [Nat.max_eq_left h]
      exact this.trans (Nat.le_max_left _ _)
  · show max (bytesFor maxBytes) (packetStrideFor chunkSize aead) < 2 ^ 64
    have h₁ := bytesFor_lt maxBytes
    have h₂ : maxDatagram < 2 ^ 64 := by decide
    omega

theorem slot_new (runID : RunID) (chunkSize : Int) (maxBytes : UInt64) (aead : Option AEAD)
    (seq : Nat) : (newStreamReplayWindow runID chunkSize maxBytes aead).slot seq = MemorySlot.empty := by
  have h : ∀ n i, (List.replicate n MemorySlot.empty).getD i MemorySlot.empty = MemorySlot.empty := by
    intro n i
    rw [List.getD_eq_getElem?_getD, List.getElem?_replicate]
    split <;> rfl
  exact h _ _

theorem holds_new (runID : RunID) (chunkSize : Int) (maxBytes : UInt64) (aead : Option AEAD)
    (hfit : headerLen + chunkFor chunkSize + overhead aead ≤ maxDatagram) :
    Holds (newStreamReplayWindow runID chunkSize maxBytes aead)
      (ReplayWindow.new (chunkFor chunkSize) (bytesFor maxBytes) (aead.map AEAD.overhead)) := by
  have hc : (if chunkFor chunkSize = 0 then defaultChunkSize else chunkFor chunkSize) =
      chunkFor chunkSize := if_neg (Nat.ne_of_gt (chunkFor_pos chunkSize))
  have hb : (if bytesFor maxBytes = 0 then defaultStreamReplayWindowBytes else bytesFor maxBytes) =
      bytesFor maxBytes := if_neg (Nat.ne_of_gt (bytesFor_pos maxBytes))
  have hslot : ∀ seq, SlotHolds (newStreamReplayWindow runID chunkSize maxBytes aead)
      ((newStreamReplayWindow runID chunkSize maxBytes aead).slotIndex seq)
      ((newStreamReplayWindow runID chunkSize maxBytes aead).slot seq)
      ((ReplayWindow.new (chunkFor chunkSize) (bytesFor maxBytes) (aead.map AEAD.overhead)).slot seq) := by
    intro seq
    rw [ReplayWindow.slot_new, slot_new]
    exact ⟨rfl, rfl, rfl, fun _ => rfl, fun h => (by cases h)⟩
  refine ⟨layout_new runID chunkSize maxBytes aead hfit, ReplayWindow.Ring.new _ _ _, ?_, rfl, ?_, ?_, ?_,
    rfl, rfl, ?_, hslot, bytesFor_pos maxBytes, Nat.zero_le _⟩
  all_goals
    simp only [newStreamReplayWindow, ReplayWindow.new, hc, hb, packetStrideFor_eq hfit, overhead_eq,
      List.length_replicate, ReplayWindow.slotCount]

/-- A window with its caller: `added` lists for each number the wire image of its packet, if the
number was not given up, and `floor` is the largest number acknowledged. -/
structure Replay where
  memory : ReplayMemory
  added : List (Option (List UInt8))
  floor : Nat
  /-- The last call reported a full window. -/
  full : Bool
  /-- An index was out of range. -/
  panicked : Bool

inductive ReplayLabel where
  /-- `AddPacket`, or `AddDataPacket`, with the next number. -/
  | add (type : PacketType) (stripeID offset : Nat) (payload : List UInt8)
  /-- The number of a call that reported a full window is not tried again. -/
  | abandon
  | ackFloor (seq : Nat)

def Replay.init (runID : RunID) (chunkSize : Int) (maxBytes : UInt64) (aead : Option AEAD) : Replay where
  memory := newStreamReplayWindow runID chunkSize maxBytes aead
  added := []
  floor := 0
  full := false
  panicked := false

/-- How many packets were added. -/
def Replay.count (t : Replay) : Nat := t.added.countP Option.isSome

def Replay.step (chunkSize : Int) (t : Replay) : ReplayLabel → Option Replay
  | .add type stripeID offset payload =>
      if payload.length ≤ chunkFor chunkSize ∧ t.added.length < 2 ^ 64 then
        let r := t.memory.addPacket type stripeID t.added.length offset payload
        let image := wireImage t.memory.runID t.memory.packetAEAD
          ⟨type, stripeID, t.added.length, offset, 0, 0, payload⟩
        match r.2 with
        | .ok _ => some { t with memory := r.1, added := t.added ++ [some image], full := false }
        | .error .windowFull => some { t with memory := r.1, full := true }
        | .error .outOfRange => some { t with memory := r.1, full := false, panicked := true }
        | .error _ => some { t with memory := r.1, full := false }
      else none
  | .abandon => if t.full then some { t with added := t.added ++ [none], full := false } else none
  | .ackFloor seq =>
      if seq ≤ t.count then
        some { t with memory := t.memory.advanceAck seq, floor := max t.floor seq }
      else none

/-- What no operation changes. -/
def setup (m : ReplayMemory) : RunID × Option AEAD × Nat × Nat :=
  (m.runID, m.packetAEAD, m.packetStride, m.maxBytes)

theorem setup_addPacket (m : ReplayMemory) (type : PacketType) (stripeID seq offset : Nat)
    (payload : List UInt8) : (m.addPacket type stripeID seq offset payload).1.setup = m.setup := by
  unfold addPacket fill
  simp only
  repeat' split
  all_goals rfl

theorem setup_delete (m : ReplayMemory) (seq : Nat) : (m.delete seq).setup = m.setup := by
  unfold delete
  simp only
  split
  all_goals rfl

theorem setup_foldl_delete (seqs : List Nat) (m : ReplayMemory) :
    (seqs.foldl delete m).setup = m.setup := by
  induction seqs generalizing m with
  | nil => rfl
  | cons seq seqs ih => rw [List.foldl_cons, ih, setup_delete]

theorem setup_advanceAck (m : ReplayMemory) (seq : Nat) : (m.advanceAck seq).setup = m.setup := by
  unfold advanceAck
  split
  · rfl
  · exact setup_foldl_delete _ m

/-- The memory stands for the packets that were added and are not acknowledged. -/
structure Replay.Inv (runID : RunID) (chunkSize : Int) (maxBytes : UInt64) (aead : Option AEAD)
    (t : Replay) (w : ReplayWindow) (pkts : List (Option Packet)) : Prop where
  setup : t.memory.setup = (runID, aead, headerLen + chunkFor chunkSize + overhead aead, bytesFor maxBytes)
  holds : Holds t.memory w
  added : t.added = pkts.map (Option.map (wireImage runID aead))
  packet : ∀ s, w.packet s = if t.floor ≤ s then pkts.getD s none else none
  floor : w.ackFloor = t.floor
  bound : t.floor ≤ pkts.length
  panicked : t.panicked = false

section

variable {runID : RunID} {chunkSize : Int} {maxBytes : UInt64} {aead : Option AEAD} {t t' : Replay}
  {w : ReplayWindow} {pkts : List (Option Packet)}

theorem Replay.Inv.init (hfit : headerLen + chunkFor chunkSize + overhead aead ≤ maxDatagram) :
    Replay.Inv runID chunkSize maxBytes aead (Replay.init runID chunkSize maxBytes aead)
      (ReplayWindow.new (chunkFor chunkSize) (bytesFor maxBytes) (aead.map AEAD.overhead)) [] where
  setup := by
    show (runID, aead, packetStrideFor chunkSize aead, bytesFor maxBytes) = _
    rw [packetStrideFor_eq hfit]
  holds := holds_new runID chunkSize maxBytes aead hfit
  added := rfl
  packet := fun s => by
    rw [ReplayWindow.packet_new]
    split <;> rfl
  floor := rfl
  bound := Nat.zero_le _
  panicked := rfl

/-- A packet was added under the next number. -/
theorem Replay.Inv.added_packet (h : Replay.Inv runID chunkSize maxBytes aead t w pkts)
    {type : PacketType} {stripeID offset : Nat} {payload : List UInt8} {w' : ReplayWindow} {p : Packet}
    {m : ReplayMemory} (hm : Holds m w') (hsetup : m.setup = t.memory.setup)
    (hadd : w.addPacket type stripeID pkts.length offset payload = .ok (w', p)) {full : Bool} :
    Replay.Inv runID chunkSize maxBytes aead
      { t with memory := m, added := t.added ++ [some (wireImage runID aead p)], full := full } w'
      (pkts ++ [some p]) where
  setup := hsetup.trans h.setup
  holds := hm
  added := by simp [h.added]
  packet := fun s => by
    have hb := h.bound
    rw [ReplayWindow.packet_addPacket hadd, h.packet s]
    by_cases hs : s = pkts.length
    · rw [if_pos hs, hs, if_pos hb]
      simp
    · rw [if_neg hs]
      by_cases hlt : s < pkts.length
      · simp [List.getElem?_append_left hlt]
      · have h₁ : pkts[s]? = none := List.getElem?_eq_none (by omega)
        have h₂ : (pkts ++ [some p])[s]? = none := List.getElem?_eq_none (by
          rw [List.length_append, List.length_singleton]
          omega)
        simp [h₁, h₂]
  floor := (ReplayWindow.ackFloor_addPacket hadd).trans h.floor
  bound := h.bound.trans (List.length_append ▸ Nat.le_add_right _ _)
  panicked := h.panicked

/-- A number was given up. -/
theorem Replay.Inv.abandon (h : Replay.Inv runID chunkSize maxBytes aead t w pkts) :
    Replay.Inv runID chunkSize maxBytes aead { t with added := t.added ++ [none], full := false } w
      (pkts ++ [none]) where
  setup := h.setup
  holds := h.holds
  added := by simp [h.added]
  packet := fun s => by
    rw [h.packet s]
    by_cases hlt : s < pkts.length
    · simp [List.getElem?_append_left hlt]
    · have h₁ : pkts[s]? = none := List.getElem?_eq_none (by omega)
      have h₂ : (pkts ++ [none])[s]?.getD none = none := by
        rw [List.getElem?_append_right (by omega)]
        cases h : [none (α := Packet)][s - pkts.length]? with
        | none => rfl
        | some q =>
            have := List.mem_of_getElem? h
            simp only [List.mem_singleton] at this
            rw [this]
            rfl
      simp [h₁, h₂]
  floor := h.floor
  bound := h.bound.trans (List.length_append ▸ Nat.le_add_right _ _)
  panicked := h.panicked

theorem Replay.Inv.ackFloor (h : Replay.Inv runID chunkSize maxBytes aead t w pkts) {seq : Nat}
    (hseq : seq ≤ pkts.length) :
    Replay.Inv runID chunkSize maxBytes aead
      { t with memory := t.memory.advanceAck seq, floor := max t.floor seq } (w.advanceAck seq) pkts where
  setup := (setup_advanceAck _ _).trans h.setup
  holds := h.holds.advanceAck seq
  added := h.added
  packet := fun s => by
    rw [ReplayWindow.packet_advanceAck, h.packet s, h.floor]
    by_cases hs : t.floor ≤ s
    · by_cases hs' : s < seq
      · rw [if_pos ⟨hs, hs'⟩, if_neg (by simp only; omega)]
      · rw [if_neg (fun hc => hs' hc.2), if_pos hs, if_pos (by simp only; omega)]
    · rw [if_neg (fun hc => hs hc.1), if_neg hs, if_neg (by simp only; omega)]
  floor := by rw [ReplayWindow.ackFloor_advanceAck, h.floor]
  bound := Nat.max_le.mpr ⟨h.bound, hseq⟩
  panicked := h.panicked

theorem Replay.Inv.add (h : Replay.Inv runID chunkSize maxBytes aead t w pkts)
    {type : PacketType} {stripeID offset : Nat} {payload : List UInt8}
    (hs : t.step chunkSize (.add type stripeID offset payload) = some t') :
    ∃ w' pkts', Replay.Inv runID chunkSize maxBytes aead t' w' pkts' := by
  have hlen : t.added.length = pkts.length := by rw [h.added, List.length_map]
  have hsetup := h.setup
  simp only [ReplayMemory.setup, Prod.mk.injEq] at hsetup
  obtain ⟨hrun, haead, hstride, -⟩ := hsetup
  simp only [Replay.step] at hs
  split at hs
  · next hok =>
      have hnone : w.packet t.added.length = none := by
        rw [h.packet, hlen]
        simp
      have hfit : t.memory.packetBytes payload ≤ t.memory.packetStride := by
        rw [hstride, packetBytes, haead]
        omega
      have hset := setup_addPacket t.memory type stripeID t.added.length offset payload
      rcases h.holds.addPacket type stripeID offset hnone hok.2 hfit with
        ⟨wire, w', hr, hadd, hm⟩ | ⟨e, hr, hne, hm⟩
      · simp only [hr, hrun, haead] at hs
        cases hs
        rw [hlen] at hadd
        rw [hlen]
        rw [hlen] at hm hset
        exact ⟨_, _, h.added_packet hm hset hadd⟩
      · have hkeep : ∀ full, Replay.Inv runID chunkSize maxBytes aead
            { t with
              memory := (t.memory.addPacket type stripeID t.added.length offset payload).1
              full := full } w pkts :=
          fun full => { h with setup := hset.trans h.setup, holds := hm }
        simp only [hr] at hs
        cases e with
        | outOfRange => exact absurd rfl hne
        | windowFull => cases hs; exact ⟨_, _, hkeep true⟩
        | exceedsSlot => cases hs; exact ⟨_, _, hkeep false⟩
        | exceedsNonceRange => cases hs; exact ⟨_, _, hkeep false⟩
        | text message => cases hs; exact ⟨_, _, hkeep false⟩
  · cases hs

theorem Replay.Inv.step (h : Replay.Inv runID chunkSize maxBytes aead t w pkts) {l : ReplayLabel}
    (hs : t.step chunkSize l = some t') :
    ∃ w' pkts', Replay.Inv runID chunkSize maxBytes aead t' w' pkts' := by
  cases l with
  | add type stripeID offset payload => exact h.add hs
  | abandon =>
      simp only [Replay.step] at hs
      split at hs
      · cases hs
        exact ⟨_, _, h.abandon⟩
      · cases hs
  | ackFloor seq =>
      simp only [Replay.step] at hs
      split at hs
      · next hseq =>
          cases hs
          refine ⟨_, _, h.ackFloor (hseq.trans ?_)⟩
          have hlen : t.added.length = pkts.length := by rw [h.added, List.length_map]
          rw [← hlen]
          exact List.countP_le_length
      · cases hs

end

/-- In every run of a window for chunks that fit a datagram, under consecutive numbers and with
acknowledgements of what was added: no index is out of range, the retained bytes are those of the
packets stored and keep the limit, `Packet` gives back exactly what was added and is not
acknowledged, and the slices of two packets lie apart. -/
theorem replay_window_exact (runID : RunID) (chunkSize : Int) (maxBytes : UInt64) (aead : Option AEAD)
    (hfit : headerLen + chunkFor chunkSize + overhead aead ≤ maxDatagram) (labels : List ReplayLabel)
    (t : Replay)
    (hrun : runFrom (Replay.step chunkSize) (Replay.init runID chunkSize maxBytes aead) labels = some t) :
    t.panicked = false ∧
      t.memory.retained = (t.memory.slots.map fun slot => slot.packet.elim 0 View.length).sum ∧
      t.memory.retained ≤ bytesFor maxBytes ∧
      (∀ s, (t.memory.packet s).map t.memory.read =
        if t.floor ≤ s then t.added.getD s none else none) ∧
      (∀ s v, t.memory.packet s = some v → t.memory.InRange v) ∧
      ∀ s s' v v', s ≠ s' → t.memory.packet s = some v → t.memory.packet s' = some v' → Apart v v' := by
  obtain ⟨w, pkts, h⟩ : ∃ w pkts, Replay.Inv runID chunkSize maxBytes aead t w pkts :=
    runFrom_invariant (I := fun t => ∃ w pkts, Replay.Inv runID chunkSize maxBytes aead t w pkts)
      (fun _ _ _ ⟨_, _, h⟩ hs => h.step hs) labels ⟨_, _, .init hfit⟩ hrun
  have hsetup := h.setup
  simp only [setup, Prod.mk.injEq] at hsetup
  obtain ⟨hrunID, haead, -, hmax⟩ := hsetup
  refine ⟨h.panicked, ?_, ?_, fun s => ?_, fun s v hv => ?_, fun s s' v v' hne hv hv' => ?_⟩
  · rw [h.holds.lengths, h.holds.retained, h.holds.ring.retained]
  · rw [← hmax]
    exact h.holds.limit
  · have hadded : t.added.getD s none = (pkts.getD s none).map (wireImage runID aead) := by
      rw [h.added, List.getD_eq_getElem?_getD, List.getElem?_map, List.getD_eq_getElem?_getD]
      cases pkts[s]? with
      | none => rfl
      | some p => rfl
    have hw := h.packet s
    rw [hadded]
    rcases h.holds.packet s with ⟨hm, hnone⟩ | ⟨p, bytes, hsome, -, -, hm, hread⟩
    · rw [hm, Option.map_none]
      rw [hnone] at hw
      split
      · next hs =>
          rw [if_pos hs] at hw
          rw [← hw]
          rfl
      · rfl
    · rw [hm, Option.map_some, hread, hrunID, haead]
      rw [hsome] at hw
      split
      · next hs =>
          rw [if_pos hs] at hw
          rw [← hw]
          rfl
      · next hs =>
          rw [if_neg hs] at hw
          cases hw
  · rcases h.holds.packet s with ⟨hm, -⟩ | ⟨p, bytes, -, -, hle, hm, -⟩
    · rw [hm] at hv
      cases hv
    · rw [hm] at hv
      cases hv
      exact h.holds.layout.inRange (h.holds.layout.slotIndex_lt s) hle
  · rcases h.holds.packet s with ⟨hm, -⟩ | ⟨p, bytes, hp, -, hle, hm, -⟩
    · rw [hm] at hv
      cases hv
    rcases h.holds.packet s' with ⟨hm', -⟩ | ⟨p', bytes', hp', -, hle', hm', -⟩
    · rw [hm'] at hv'
      cases hv'
    rw [hm] at hv
    rw [hm'] at hv'
    cases hv
    cases hv'
    exact t.memory.apart_of_ne (h.holds.slotIndex_ne hne hp hp') hle hle'

/-! ### A window of sealed packets -/

/-- AES-256-GCM on three packets. -/
def windowRows : List TableCipher.Row :=
  [packetRow (Vector.replicate 16 9) ⟨.data, 0, 0, 0, 0, 0, [7]⟩
      [101, 124, 99, 18, 203, 64, 66, 35, 94, 167, 33, 107, 118, 53, 110, 28, 85],
    packetRow (Vector.replicate 16 9) ⟨.data, 0, 1, 1, 0, 0, [8]⟩
      [125, 112, 44, 139, 107, 68, 154, 71, 201, 208, 188, 201, 219, 169, 8, 247, 121],
    packetRow (Vector.replicate 16 9) ⟨.data, 0, 2, 2, 0, 0, [9]⟩
      [139, 122, 23, 214, 13, 26, 89, 81, 103, 171, 135, 77, 252, 106, 191, 109, 119]]

theorem windowRows_table : TableCipher.Table windowRows := ⟨by decide, by decide, by decide⟩

/-- Two slots; the third packet finds the window full and takes the first slot once its packet is
acknowledged. -/
theorem replay_window_exact_wrapped : ∃ t,
    runFrom (Replay.step 1) (Replay.init (Vector.replicate 16 9) 1 150 (some (.ofTable windowRows_table)))
        [.add .data 0 0 [7], .add .data 0 1 [8], .add .data 0 2 [9], .ackFloor 1, .add .data 0 2 [9]] =
      some t ∧ t.floor = 1 ∧ t.added.length = 3 ∧ t.memory.retained ≤ 150 ∧
      (t.memory.packet 2).map t.memory.read =
        some (encodePacketHeader (Vector.replicate 16 9) ⟨.data, 0, 2, 2, 0, 0, [9]⟩ ++
          [139, 122, 23, 214, 13, 26, 89, 81, 103, 171, 135, 77, 252, 106, 191, 109, 119]) := by
  have h : (runFrom (Replay.step 1)
      (Replay.init (Vector.replicate 16 9) 1 150 (some (.ofTable windowRows_table)))
      [.add .data 0 0 [7], .add .data 0 1 [8], .add .data 0 2 [9], .ackFloor 1,
        .add .data 0 2 [9]]).any (fun t => decide (t.floor = 1 ∧ t.added.length = 3 ∧
          t.added.getD 2 none = some (encodePacketHeader (Vector.replicate 16 9) ⟨.data, 0, 2, 2, 0, 0, [9]⟩ ++
            [139, 122, 23, 214, 13, 26, 89, 81, 103, 171, 135, 77, 252, 106, 191, 109, 119]))) = true := by
    decide +kernel
  obtain ⟨t, hrun, ht⟩ := (Option.any_eq_true ..).mp h
  obtain ⟨hfloor, hlen, hadded⟩ := of_decide_eq_true ht
  obtain ⟨-, -, hle, hpacket, -⟩ := replay_window_exact (Vector.replicate 16 9) 1 150
    (some (.ofTable windowRows_table)) (by decide) _ t hrun
  refine ⟨t, hrun, hfloor, hlen, hle, ?_⟩
  rw [hpacket 2, hfloor, if_pos (by decide), hadded]

end ReplayMemory

end Probe
