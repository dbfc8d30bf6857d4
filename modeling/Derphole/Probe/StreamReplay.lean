import Derphole.Lib.Run
import Derphole.Probe.Packet
import Mathlib.Data.List.Basic

/-!
# The stream replay window

`streamReplayWindow` of `pkg/probe/stream_replay.go`: a ring of slots that holds
the packets sent and not yet acknowledged.  A packet sits in the slot of its
sequence number modulo the number of slots, and an occupied slot is never given
to another number, so `packet_addPacket` and `packet_ackFloor` describe the
window as a map from sequence numbers to packets.

A wire packet is represented by what it decodes to.  An AEAD is represented by
its overhead; it seals sequence numbers below `2 ^ 40` only.
-/

namespace Probe

/-- `headerLen`. -/
def headerLen : Nat := 52

/-- `blastRepairMemorySlab`. -/
def blastRepairMemorySlab : Nat := 4 * 2 ^ 20

/-- `defaultStreamReplayWindowBytes`. -/
def defaultStreamReplayWindowBytes : Nat := 256 * 2 ^ 20

/-- `1 << packetAEADNonceSeqBits`. -/
def packetAEADNonceSeqs : Nat := 2 ^ 40

inductive SendErr where
  | windowFull
  | exceedsSlot
  | exceedsNonceRange
  | outOfRange
  | text (message : String)
  deriving DecidableEq, Repr

/-- `marshalBlastPayloadPacket`: what is sent, unless it cannot be sealed. -/
def marshalPayloadPacket (type : PacketType) (stripeID seq offset ackFloor : Nat)
    (payload : List UInt8) (aead : Option Nat) : Except SendErr Packet :=
  if aead.isSome ∧ packetAEADNonceSeqs ≤ seq then .error .exceedsNonceRange
  else .ok ⟨type, stripeID, seq, offset, ackFloor, 0, payload⟩

/-- `streamReplaySlot`. -/
structure ReplaySlot where
  seq : Nat
  packet : Option Packet
  bytes : Nat
  present : Bool
  deriving DecidableEq

def ReplaySlot.empty : ReplaySlot := ⟨0, none, 0, false⟩

/-- The slot holds `seq`. -/
def ReplaySlot.holds (slot : ReplaySlot) (seq : Nat) : Bool := slot.present && slot.seq == seq

/-- `streamReplayWindow`. -/
structure ReplayWindow where
  maxBytes : Nat
  aead : Option Nat
  packetStride : Nat
  slabSize : Nat
  slotsPerSlab : Nat
  slots : List ReplaySlot
  slots_pos : 0 < slots.length
  retained : Nat
  maxRetained : Nat
  ackFloor : Nat

namespace ReplayWindow

def slotCount (maxBytes stride : Nat) : Nat := max (maxBytes / stride) 1

/-- `newStreamReplayWindow`. -/
def new (chunkSize maxBytes : Nat) (aead : Option Nat) : ReplayWindow :=
  let chunk := if chunkSize = 0 then defaultChunkSize else chunkSize
  let bytes := if maxBytes = 0 then defaultStreamReplayWindowBytes else maxBytes
  let stride := headerLen + chunk + aead.getD 0
  let slab := if bytes < blastRepairMemorySlab then max bytes stride else blastRepairMemorySlab
  { maxBytes := bytes
    aead := aead
    packetStride := stride
    slabSize := slab
    slotsPerSlab := max (slab / stride) 1
    slots := List.replicate (slotCount bytes stride) ReplaySlot.empty
    slots_pos := by rw [List.length_replicate, slotCount]; omega
    retained := 0
    maxRetained := 0
    ackFloor := 0 }

def slotIndex (w : ReplayWindow) (seq : Nat) : Nat := seq % w.slots.length

def slot (w : ReplayWindow) (seq : Nat) : ReplaySlot :=
  w.slots.getD (w.slotIndex seq) ReplaySlot.empty

def setSlot (w : ReplayWindow) (seq : Nat) (slot : ReplaySlot) (retained : Nat) : ReplayWindow :=
  { w with
    slots := w.slots.set (w.slotIndex seq) slot
    slots_pos := by rw [List.length_set]; exact w.slots_pos
    retained := retained }

/-- The end of the buffer of a packet in its slab. -/
def bufferEnd (w : ReplayWindow) (seq packetBytes : Nat) : Nat :=
  w.slotIndex seq % w.slotsPerSlab * w.packetStride + packetBytes

/-- The bytes retained once the slot is replaced, as the size check counts
them. -/
def retainedAfterReplace (w : ReplayWindow) (slot : ReplaySlot) : Nat :=
  if slot.present ∧ slot.bytes ≤ w.retained then w.retained - slot.bytes else w.retained

/-- The bytes retained once the slot is emptied. -/
def retainedWithout (w : ReplayWindow) (slot : ReplaySlot) : Nat :=
  if slot.present then w.retained - min w.retained slot.bytes else w.retained

def packetBytes (w : ReplayWindow) (payload : List UInt8) : Nat :=
  headerLen + payload.length + w.aead.getD 0

/-- Put a packet into its slot. -/
def store (w : ReplayWindow) (seq : Nat) (wire : Packet) (bytes : Nat) : ReplayWindow :=
  let retained := w.retainedWithout (w.slot seq) + bytes
  { w.setSlot seq ⟨seq, some wire, bytes, true⟩ retained with
    maxRetained := max w.maxRetained retained }

def addPacket (w : ReplayWindow) (type : PacketType) (stripeID seq offset : Nat)
    (payload : List UInt8) : Except SendErr (ReplayWindow × Packet) :=
  if (w.slot seq).present ∧ (w.slot seq).seq ≠ seq then .error .windowFull
  else if w.packetStride < w.packetBytes payload then .error .exceedsSlot
  else if 0 < w.maxBytes ∧
      w.maxBytes < w.retainedAfterReplace (w.slot seq) + w.packetBytes payload then
    .error .windowFull
  else if w.slabSize < w.bufferEnd seq (w.packetBytes payload) then .error .outOfRange
  else
    match marshalPayloadPacket type stripeID seq offset 0 payload w.aead with
    | .error e => .error e
    | .ok wire => .ok (w.store seq wire (w.packetBytes payload), wire)

def addDataPacket (w : ReplayWindow) (stripeID seq offset : Nat) (payload : List UInt8) :
    Except SendErr (ReplayWindow × Packet) :=
  w.addPacket .data stripeID seq offset payload

/-- Drop the packet with this number, if it is there. -/
def delete (w : ReplayWindow) (seq : Nat) : ReplayWindow :=
  if (w.slot seq).holds seq then
    w.setSlot seq ⟨(w.slot seq).seq, none, 0, false⟩ (w.retained - (w.slot seq).bytes)
  else w

/-- Everything below `seq` is acknowledged. -/
def advanceAck (w : ReplayWindow) (seq : Nat) : ReplayWindow :=
  if seq ≤ w.ackFloor then w
  else
    { (List.range' w.ackFloor (seq - w.ackFloor)).foldl delete w with
      ackFloor := seq }

def packet (w : ReplayWindow) (seq : Nat) : Option Packet :=
  if (w.slot seq).holds seq then (w.slot seq).packet else none

/-! ## The window as a map -/

theorem slotIndex_lt (w : ReplayWindow) (seq : Nat) : w.slotIndex seq < w.slots.length :=
  Nat.mod_lt _ w.slots_pos

theorem slot_setSlot (w : ReplayWindow) (seq s : Nat) (slot : ReplaySlot) (retained : Nat) :
    (w.setSlot seq slot retained).slot s =
      if w.slotIndex seq = w.slotIndex s then slot else w.slot s := by
  have hlt := w.slotIndex_lt seq
  simp only [ReplayWindow.slot, setSlot, slotIndex, List.length_set, List.getD_eq_getElem?_getD,
    List.getElem?_set] at hlt ⊢
  by_cases h : seq % w.slots.length = s % w.slots.length
  · simp [h, h ▸ hlt]
  · simp [h]

theorem packet_of_empty {w : ReplayWindow} (h : ∀ s, w.slot s = ReplaySlot.empty) (s : Nat) :
    w.packet s = none := by
  rw [packet, h]
  rfl

theorem slot_new (chunkSize maxBytes : Nat) (aead : Option Nat) (s : Nat) :
    (new chunkSize maxBytes aead).slot s = ReplaySlot.empty := by
  have h : ∀ n i, (List.replicate n ReplaySlot.empty).getD i ReplaySlot.empty = ReplaySlot.empty := by
    intro n i
    rw [List.getD_eq_getElem?_getD, List.getElem?_replicate]
    split <;> rfl
  exact h _ _

theorem packet_new (chunkSize maxBytes : Nat) (aead : Option Nat) (s : Nat) :
    (new chunkSize maxBytes aead).packet s = none :=
  packet_of_empty (slot_new chunkSize maxBytes aead) s

theorem holds_iff {slot : ReplaySlot} {seq : Nat} :
    slot.holds seq = true ↔ slot.present = true ∧ slot.seq = seq := by
  simp [ReplaySlot.holds]

theorem packet_delete (w : ReplayWindow) (seq s : Nat) :
    (w.delete seq).packet s = if s = seq then none else w.packet s := by
  rw [delete]
  split
  · rename_i h
    rw [packet, slot_setSlot]
    by_cases hi : w.slotIndex seq = w.slotIndex s
    · rw [if_pos hi]
      by_cases hs : s = seq
      · simp [hs, ReplaySlot.holds]
      · have hslot : w.slot s = w.slot seq := by rw [slot, slot, hi]
        have hne : (w.slot s).holds s = false := by
          rw [← Bool.not_eq_true, holds_iff, hslot, (holds_iff.mp h).2]
          exact fun h' => hs h'.2.symm
        rw [if_neg hs, packet, hne]
        simp [ReplaySlot.holds]
    · have hs : s ≠ seq := fun hs => hi (by rw [hs])
      rw [if_neg hi, if_neg hs, packet]
  · rename_i h
    by_cases hs : s = seq
    · rw [if_pos hs, hs, packet, if_neg h]
    · rw [if_neg hs]

theorem packet_foldl_delete (seqs : List Nat) (w : ReplayWindow) (s : Nat) :
    (seqs.foldl delete w).packet s = if s ∈ seqs then none else w.packet s := by
  induction seqs generalizing w with
  | nil => simp
  | cons q seqs ih =>
      rw [List.foldl_cons, ih, packet_delete]
      by_cases hq : s = q
      · simp [hq]
      · simp [hq]

/-- Acknowledging releases exactly the numbers from the old floor to the new. -/
theorem packet_advanceAck (w : ReplayWindow) (floor s : Nat) :
    (w.advanceAck floor).packet s =
      if w.ackFloor ≤ s ∧ s < floor then none else w.packet s := by
  rw [advanceAck]
  split
  · rw [if_neg (by omega)]
  · show ((List.range' w.ackFloor (floor - w.ackFloor)).foldl delete w).packet s = _
    rw [packet_foldl_delete]
    have hmem : s ∈ List.range' w.ackFloor (floor - w.ackFloor) ↔ w.ackFloor ≤ s ∧ s < floor := by
      rw [List.mem_range'_1]
      omega
    simp only [hmem]

theorem ackFloor_advanceAck (w : ReplayWindow) (floor : Nat) :
    (w.advanceAck floor).ackFloor = max w.ackFloor floor := by
  rw [advanceAck]
  split
  · omega
  · show floor = _
    omega

/-- What a successful add did: the slot was free or held the number already. -/
theorem addPacket_ok {w w' : ReplayWindow} {type : PacketType} {stripeID seq offset : Nat}
    {payload : List UInt8} {wire : Packet}
    (h : w.addPacket type stripeID seq offset payload = .ok (w', wire)) :
    wire = ⟨type, stripeID, seq, offset, 0, 0, payload⟩ ∧
      ((w.slot seq).present = true → (w.slot seq).seq = seq) ∧
      w' = w.store seq wire (w.packetBytes payload) := by
  rw [addPacket] at h
  split at h
  · cases h
  split at h
  · cases h
  split at h
  · cases h
  split at h
  · cases h
  rename_i hfree _ _ _
  cases hm : marshalPayloadPacket type stripeID seq offset 0 payload w.aead with
  | error e => simp [hm] at h
  | ok p =>
      simp only [hm, Except.ok.injEq, Prod.mk.injEq] at h
      obtain ⟨rfl, rfl⟩ := h
      refine ⟨?_, ?_, rfl⟩
      · rw [marshalPayloadPacket] at hm
        split at hm
        · cases hm
        · cases hm
          rfl
      · intro hp
        by_contra hne
        exact hfree ⟨hp, hne⟩

/-- Adding sets one entry. -/
theorem packet_addPacket {w w' : ReplayWindow} {type : PacketType} {stripeID seq offset : Nat}
    {payload : List UInt8} {wire : Packet}
    (h : w.addPacket type stripeID seq offset payload = .ok (w', wire)) (s : Nat) :
    w'.packet s = if s = seq then some wire else w.packet s := by
  obtain ⟨-, hfree, rfl⟩ := addPacket_ok h
  have hslot : (w.store seq wire (w.packetBytes payload)).slot s =
      if w.slotIndex seq = w.slotIndex s then ⟨seq, some wire, w.packetBytes payload, true⟩
      else w.slot s :=
    w.slot_setSlot seq s _ (w.retainedWithout (w.slot seq) + w.packetBytes payload)
  rw [packet, hslot]
  by_cases hi : w.slotIndex seq = w.slotIndex s
  · by_cases hs : s = seq
    · simp [hi, hs, ReplaySlot.holds]
    · have hsame : w.slot s = w.slot seq := by rw [slot, slot, hi]
      have hne : (w.slot s).holds s = false := by
        rw [← Bool.not_eq_true, holds_iff, hsame]
        exact fun h' => hs (h'.2.symm.trans (hfree h'.1))
      have hne' : seq ≠ s := fun h' => hs h'.symm
      rw [if_pos hi, if_neg hs, packet, hne]
      simp [hne', ReplaySlot.holds]
  · have hs : s ≠ seq := fun hs => hi (by rw [hs])
    rw [if_neg hi, if_neg hs, packet]

theorem ackFloor_addPacket {w w' : ReplayWindow} {type : PacketType} {stripeID seq offset : Nat}
    {payload : List UInt8} {wire : Packet}
    (h : w.addPacket type stripeID seq offset payload = .ok (w', wire)) :
    w'.ackFloor = w.ackFloor := by
  obtain ⟨-, -, rfl⟩ := addPacket_ok h
  rfl

/-! ## Room in the window -/

/-- What the size checks rest on: a packet sits in the slot of its number, and the
retained bytes are those of the packets present. -/
structure Ring (w : ReplayWindow) : Prop where
  index : ∀ i slot, w.slots[i]? = some slot → slot.present = true → slot.seq % w.slots.length = i
  stored : ∀ slot ∈ w.slots, slot.present = true → slot.packet.isSome = true
  retained : w.retained = (w.slots.map fun slot => if slot.present then slot.bytes else 0).sum

/-- Replacing an entry changes the sum by the difference. -/
theorem sum_set (ns : List Nat) (i n : Nat) (hi : i < ns.length) :
    (ns.set i n).sum + ns.getD i 0 = ns.sum + n := by
  induction ns generalizing i with
  | nil => simp at hi
  | cons m ns ih =>
      cases i with
      | zero =>
          simp only [List.set_cons_zero, List.sum_cons, List.getD_cons_zero]
          omega
      | succ i =>
          have := ih i (by simpa using hi)
          simp only [List.set_cons_succ, List.sum_cons, List.getD_cons_succ]
          omega

namespace Ring

variable {w : ReplayWindow}

theorem slot_mem (w : ReplayWindow) (seq : Nat) : w.slots[w.slotIndex seq]? = some (w.slot seq) := by
  have hlt := w.slotIndex_lt seq
  rw [ReplayWindow.slot, List.getD_eq_getElem?_getD, List.getElem?_eq_getElem hlt]
  rfl

/-- What a slot counts for. -/
theorem getD_bytes (w : ReplayWindow) (seq : Nat) :
    (w.slots.map fun s => if s.present then s.bytes else 0).getD (w.slotIndex seq) 0 =
      if (w.slot seq).present then (w.slot seq).bytes else 0 := by
  rw [List.getD_eq_getElem?_getD, List.getElem?_map, slot_mem]
  rfl

theorem counted (h : Ring w) (seq : Nat) :
    (if (w.slot seq).present then (w.slot seq).bytes else 0) ≤ w.retained := by
  have hset := sum_set (w.slots.map fun s => if s.present then s.bytes else 0) (w.slotIndex seq) 0
    (by rw [List.length_map]; exact w.slotIndex_lt seq)
  rw [getD_bytes, ← h.retained] at hset
  omega

/-- Replacing the slot of a number by one that holds it, or by an empty one. -/
theorem setSlot (h : Ring w) (seq : Nat) (slot : ReplaySlot) (retained : Nat)
    (hseq : slot.present = true → slot.seq = seq ∧ slot.packet.isSome = true)
    (hretained : retained + (if (w.slot seq).present then (w.slot seq).bytes else 0) =
      w.retained + if slot.present then slot.bytes else 0) :
    Ring (w.setSlot seq slot retained) := by
  have hlt := w.slotIndex_lt seq
  refine ⟨fun i s hs hp => ?_, fun s hs hp => ?_, ?_⟩
  · show s.seq % (w.slots.set (w.slotIndex seq) slot).length = i
    rw [List.length_set]
    have hs' : (w.slots.set (w.slotIndex seq) slot)[i]? = some s := hs
    rw [List.getElem?_set] at hs'
    split at hs'
    · rename_i hi
      cases hs'
      rw [(hseq hp).1, ← hi, slotIndex]
    · exact h.index i s hs' hp
  · rcases List.mem_or_eq_of_mem_set hs with hold | rfl
    · exact h.stored s hold hp
    · exact (hseq hp).2
  · show retained = ((w.slots.set (w.slotIndex seq) slot).map fun s =>
      if s.present then s.bytes else 0).sum
    have hset := sum_set (w.slots.map fun s => if s.present then s.bytes else 0) (w.slotIndex seq)
      (if slot.present then slot.bytes else 0) (by rw [List.length_map]; exact hlt)
    rw [getD_bytes, ← h.retained] at hset
    rw [List.map_set]
    omega

theorem new (chunkSize maxBytes : Nat) (aead : Option Nat) :
    Ring (ReplayWindow.new chunkSize maxBytes aead) := by
  have hempty : ∀ slot ∈ (ReplayWindow.new chunkSize maxBytes aead).slots,
      slot = ReplaySlot.empty := fun slot hs => List.eq_of_mem_replicate hs
  refine ⟨fun i slot hs hp => ?_, fun slot hs hp => ?_, ?_⟩
  · rw [hempty slot (List.mem_of_getElem? hs)] at hp
    cases hp
  · rw [hempty slot hs] at hp
    cases hp
  · refine (List.sum_eq_zero_iff_forall_eq_nat.mpr fun n hn => ?_).symm
    obtain ⟨slot, hs, rfl⟩ := List.mem_map.mp hn
    rw [hempty slot hs]
    rfl

theorem delete (h : Ring w) (seq : Nat) : Ring (w.delete seq) := by
  rw [ReplayWindow.delete]
  split
  · rename_i hholds
    have hp := (holds_iff.mp hholds).1
    have hc := h.counted seq
    refine h.setSlot seq _ _ (fun hf => by cases hf) ?_
    rw [hp] at hc ⊢
    simp only [if_true, Bool.false_eq_true, if_false] at hc ⊢
    omega
  · exact h

theorem advanceAck (h : Ring w) (floor : Nat) : Ring (w.advanceAck floor) := by
  have hall : ∀ (seqs : List Nat) (w : ReplayWindow), Ring w → Ring (seqs.foldl ReplayWindow.delete w) := by
    intro seqs
    induction seqs with
    | nil => exact fun _ h => h
    | cons seq seqs ih => exact fun w h => ih (w.delete seq) (h.delete seq)
  rw [ReplayWindow.advanceAck]
  split
  · exact h
  · have hd := hall (List.range' w.ackFloor (floor - w.ackFloor)) w h
    exact ⟨hd.index, hd.stored, hd.retained⟩

theorem addPacket (h : Ring w) {w' : ReplayWindow} {type : PacketType} {stripeID seq offset : Nat}
    {payload : List UInt8} {wire : Packet}
    (hadd : w.addPacket type stripeID seq offset payload = .ok (w', wire)) : Ring w' := by
  obtain ⟨-, -, rfl⟩ := addPacket_ok hadd
  have hc := h.counted seq
  have hset := h.setSlot seq ⟨seq, some wire, w.packetBytes payload, true⟩
    (w.retainedWithout (w.slot seq) + w.packetBytes payload) (fun _ => ⟨rfl, rfl⟩) (by
      rw [retainedWithout]
      split
      · rename_i hp
        rw [hp] at hc
        simp only [if_true] at hc ⊢
        omega
      · simp only [if_true, Nat.add_zero])
  exact ⟨hset.index, hset.stored, hset.retained⟩

/-- Nothing is present in a window that gives back no packet. -/
theorem absent (h : Ring w) (hnone : ∀ s, w.packet s = none) :
    ∀ slot ∈ w.slots, slot.present = false := by
  intro slot hs
  by_contra hp
  have hp : slot.present = true := by simpa using hp
  obtain ⟨i, hi⟩ := List.mem_iff_getElem?.mp hs
  have hindex : w.slotIndex slot.seq = i := h.index i slot hi hp
  have hslot : w.slot slot.seq = slot := by
    have := slot_mem w slot.seq
    rw [hindex, hi] at this
    exact (Option.some.inj this).symm
  have hpacket := hnone slot.seq
  rw [packet, hslot, if_pos (holds_iff.mpr ⟨hp, rfl⟩)] at hpacket
  have := h.stored slot hs hp
  rw [hpacket] at this
  cases this

/-- A window that gives back no packet has room for any packet it could hold. -/
theorem not_full (h : Ring w) (hnone : ∀ s, w.packet s = none) {type : PacketType}
    {stripeID seq offset : Nat} {payload : List UInt8} (hfit : w.packetBytes payload ≤ w.maxBytes) :
    w.addPacket type stripeID seq offset payload ≠ .error .windowFull := by
  have habsent := h.absent hnone
  have hslot : (w.slot seq).present = false := habsent _ (List.mem_of_getElem? (slot_mem w seq))
  have hretained : w.retained = 0 := by
    rw [h.retained, List.sum_eq_zero_iff_forall_eq_nat]
    intro n hn
    obtain ⟨slot, hs, rfl⟩ := List.mem_map.mp hn
    rw [habsent slot hs]
    rfl
  rw [ReplayWindow.addPacket, retainedAfterReplace, hslot, hretained]
  simp only [Bool.false_eq_true, false_and, if_false, Nat.zero_add]
  split
  · simp
  split
  · omega
  split
  · simp
  split
  · rename_i he
    intro hc
    rw [Except.error.injEq] at hc
    rw [hc, marshalPayloadPacket] at he
    split at he <;> cases he
  · simp

end Ring

end ReplayWindow

end Probe
