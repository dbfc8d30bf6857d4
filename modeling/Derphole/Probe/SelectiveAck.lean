import Derphole.Lib.Bitmap
import Derphole.Lib.Map
import Derphole.Probe.Packet

/-!
# Selective acknowledgements

An Ack packet names what the receiver has in three ways: everything below its floor, the 64
numbers after the floor in a mask, and the 4096 numbers after the floor in a bitmap that is its
payload.  The receiver builds the two from the packets it keeps out of order, the sender
deletes from its window what they name.

`Ack.Claims` says which numbers an acknowledgement names.  The two ends agree on it: what the
receiver builds claims only what it has, and the sender deletes just what was claimed.

The code's numbers are `uint64`, and `word` is what a sum of them becomes.  It is the identity as
long as the numbers stay within the range; `AckExact` has it wrap around.
-/

namespace Probe

open Lib

/-- `maxAckMaskBits`. -/
def maxAckMaskBits : Nat := 64

/-- `extendedAckBits`. -/
def extendedAckBits : Nat := 4096

/-- `extendedAckBytes`. -/
def extendedAckBytes : Nat := extendedAckBits / 8

/-- What an Ack packet carries. -/
structure Ack where
  floor : Nat
  mask : Nat
  payload : List UInt8
  deriving DecidableEq, Repr

namespace Ack

/-- The mask names the number. -/
def Masked (ack : Ack) (seq : Nat) : Prop :=
  ack.floor < seq ∧ seq - ack.floor - 1 < maxAckMaskBits ∧
    ack.mask.testBit (seq - ack.floor - 1) = true

instance (ack : Ack) (seq : Nat) : Decidable (ack.Masked seq) :=
  inferInstanceAs (Decidable (_ ∧ _ ∧ _))

/-- The numbers that the bitmap names. -/
def extended (ack : Ack) (word : Nat → Nat) : List Nat :=
  (ones ack.payload).map fun delta => word (ack.floor + delta + 1)

/-- The acknowledgement names the number. -/
def Claims (ack : Ack) (word : Nat → Nat) (seq : Nat) : Prop :=
  seq < ack.floor ∨ ack.Masked seq ∨ seq ∈ ack.extended word

end Ack

section

variable {β : Type} (word : Nat → Nat)

/-! ## Building -/

/-- An iteration of `ackMaskFor`. -/
def maskWith (ackFloor mask seq : Nat) : Nat :=
  if seq ≤ ackFloor ∨ word (ackFloor + maxAckMaskBits) < seq then mask
  else mask ||| (1 <<< (seq - ackFloor - 1))

def ackMaskFor (buffered : Map Nat β) (ackFloor : Nat) : Nat :=
  buffered.keys.foldl (maskWith word ackFloor) 0

/-- An iteration of `extendedAckPayloadFor`.  No byte at all stands for `nil`. -/
def payloadWith (ackFloor : Nat) (payload : List UInt8) (seq : Nat) : List UInt8 :=
  if seq ≤ ackFloor then payload
  else if extendedAckBits ≤ seq - ackFloor - 1 then payload
  else
    setBit (if payload = [] then List.replicate extendedAckBytes 0 else payload)
      (seq - ackFloor - 1)

def extendedAckPayloadFor (buffered : Map Nat β) (ackFloor : Nat) : List UInt8 :=
  buffered.keys.foldl (payloadWith ackFloor) []

/-- What `sendPendingAck` sends. -/
def pendingAck (expectedSeq : Nat) (buffered : Map Nat β) : Ack :=
  ⟨expectedSeq, ackMaskFor word buffered expectedSeq, extendedAckPayloadFor buffered expectedSeq⟩

/-- What `lingerTerminalAcks` sends. -/
def terminalAck (expectedSeq : Nat) : Ack := ⟨expectedSeq, 0, []⟩

/-! ## Applying -/

/-- The sender has sent every number that the acknowledgement names. -/
def ackIsPlausible (nextSeq : Nat) (ack : Ack) : Bool :=
  decide (ack.floor ≤ nextSeq) &&
    ((List.range maxAckMaskBits).all fun bit =>
      !ack.mask.testBit bit || decide (word (ack.floor + bit + 1) < nextSeq)) &&
    (ack.extended word).all fun seq => decide (seq < nextSeq)

/-- An iteration of the loop of `applyAck` over the bitmap. -/
def deleteNamed (acc : Map Nat β × Nat) (seq : Nat) : Map Nat β × Nat :=
  match acc.1.lookup seq with
  | none => acc
  | some _ => (acc.1.erase seq, acc.2 + 1)

/-- The packets left and how many were deleted.  Two loops: over the window for floor and mask, over
the bitmap for the rest. -/
def applyAck (packets : Map Nat β) (ack : Ack) : Map Nat β × Nat :=
  let gone := packets.keys.filter fun seq => seq < ack.floor ∨ ack.Masked seq
  (ack.extended word).foldl deleteNamed (packets.eraseAll gone, gone.length)

end

/-! ## What is built -/

section

variable {β : Type} {word : Nat → Nat} {buffered packets : Map Nat β} {ack : Ack} {seq : Nat}

theorem testBit_maskWith {floor mask seq delta : Nat}
    (h : (maskWith word floor mask seq).testBit delta = true) :
    mask.testBit delta = true ∨ seq = floor + delta + 1 := by
  rw [maskWith] at h
  split at h
  · exact .inl h
  · rcases testBit_or_shiftLeft h with h | h
    · exact .inl h
    · exact .inr (by omega)

theorem bitAt_payloadWith {floor : Nat} {payload : List UInt8} {seq delta : Nat}
    (h : bitAt (payloadWith floor payload seq) delta = true) :
    bitAt payload delta = true ∨ seq = floor + delta + 1 := by
  rw [payloadWith] at h
  split at h
  · exact .inl h
  · split at h
    · exact .inl h
    · rcases bitAt_setBit h with h | h
      · split at h
        · rw [bitAt_replicate] at h
          cases h
        · exact .inl h
      · exact .inr (by omega)

/-- Where an iteration sets only the bit of its own number, the loop sets only the bits of the
numbers it goes over. -/
theorem foldl_sets {α : Type} {H : α → Nat → Prop} {f : α → Nat → α} {floor : Nat}
    (hf : ∀ a seq delta, H (f a seq) delta → H a delta ∨ seq = floor + delta + 1) :
    ∀ (seqs : List Nat) (a : α) (delta : Nat), H (seqs.foldl f a) delta →
      H a delta ∨ floor + delta + 1 ∈ seqs
  | [], _, _, h => .inl h
  | seq :: seqs, a, delta, h => by
      rcases foldl_sets hf seqs (f a seq) delta h with h | h
      · rcases hf a seq delta h with h | rfl
        · exact .inl h
        · exact .inr List.mem_cons_self
      · exact .inr (List.mem_cons_of_mem _ h)

/-- The mask has only the packets kept. -/
theorem mem_of_mask {floor bit : Nat} (hbit : (pendingAck word floor buffered).mask.testBit bit = true) :
    floor + bit + 1 ∈ buffered := by
  rcases foldl_sets (H := fun mask delta => mask.testBit delta = true)
    (fun _ _ _ h => testBit_maskWith h) _ 0 _ hbit with h | h
  · exact absurd h (by simp)
  · exact AList.mem_keys.mpr h

/-- The bitmap has only the packets kept. -/
theorem mem_of_bitmap {floor delta : Nat}
    (hbit : bitAt (pendingAck word floor buffered).payload delta = true) : floor + delta + 1 ∈ buffered := by
  rcases foldl_sets (H := fun payload delta => bitAt payload delta = true)
    (fun _ _ _ h => bitAt_payloadWith h) _ [] _ hbit with h | h
  · exact absurd h (by simp [bitAt])
  · exact AList.mem_keys.mpr h

/-- The receiver claims what it has passed and what it keeps. -/
theorem pendingAck_claims {expectedSeq : Nat} (hword : ∀ seq ∈ buffered, word seq = seq)
    (h : (pendingAck word expectedSeq buffered).Claims word seq) : seq < expectedSeq ∨ seq ∈ buffered := by
  have hfloor : (pendingAck word expectedSeq buffered).floor = expectedSeq := rfl
  rcases h with hlt | ⟨hlt, -, hbit⟩ | hext
  · exact .inl hlt
  · rw [hfloor] at hlt hbit
    have hmem := mem_of_mask hbit
    rw [show expectedSeq + (seq - expectedSeq - 1) + 1 = seq by omega] at hmem
    exact .inr hmem
  · obtain ⟨delta, hdelta, rfl⟩ := List.mem_map.mp hext
    have hmem := mem_of_bitmap (mem_ones hdelta)
    rw [hfloor, hword _ hmem]
    exact .inr hmem

theorem terminalAck_claims {expectedSeq : Nat} (h : (terminalAck expectedSeq).Claims word seq) :
    seq < expectedSeq := by
  rcases h with hlt | ⟨-, -, hbit⟩ | hext
  · exact hlt
  · exact absurd hbit (by simp [terminalAck])
  · exact absurd hext (by simp [terminalAck, Ack.extended, ones])

/-! ## What is deleted -/

theorem fst_foldl_deleteNamed (seqs : List Nat) (acc : Map Nat β × Nat) :
    (seqs.foldl deleteNamed acc).1 = acc.1.eraseAll seqs := by
  induction seqs generalizing acc with
  | nil => rfl
  | cons seq seqs ih =>
      have hone : (deleteNamed acc seq).1 = acc.1.erase seq := by
        rw [deleteNamed]
        cases hseq : acc.1.lookup seq with
        | none =>
            apply AList.ext
            exact (List.kerase_of_notMem_keys (AList.lookup_eq_none.mp hseq)).symm
        | some v => rfl
      rw [List.foldl_cons, ih, hone, Map.eraseAll, Map.eraseAll, List.foldl_cons]

theorem fst_applyAck (packets : Map Nat β) (ack : Ack) :
    (applyAck word packets ack).1 =
      (packets.eraseAll (packets.keys.filter fun seq =>
        seq < ack.floor ∨ ack.Masked seq)).eraseAll (ack.extended word) :=
  fst_foldl_deleteNamed _ _

/-- Every packet that the acknowledgement names is deleted, and no other. -/
theorem lookup_applyAck (word : Nat → Nat) (packets : Map Nat β) (ack : Ack) (q : Nat) :
    (ack.Claims word q → (applyAck word packets ack).1.lookup q = none) ∧
      (¬ack.Claims word q → (applyAck word packets ack).1.lookup q = packets.lookup q) := by
  rw [fst_applyAck]
  constructor
  · intro hnames
    by_cases hnamed : q ∈ ack.extended word
    · exact Map.lookup_eraseAll_of_mem hnamed
    · have hgone : q < ack.floor ∨ ack.Masked q := by
        rcases hnames with h | h | h
        · exact .inl h
        · exact .inr h
        · exact absurd h hnamed
      rw [Map.lookup_eraseAll_of_notMem hnamed]
      by_cases hkey : q ∈ packets
      · apply Map.lookup_eraseAll_of_mem
        rw [List.mem_filter, decide_eq_true_eq]
        exact ⟨AList.mem_keys.mp hkey, hgone⟩
      · rw [Map.lookup_eraseAll_of_notMem fun h => hkey (AList.mem_keys.mpr (List.mem_of_mem_filter h))]
        exact AList.lookup_eq_none.mpr hkey
  · intro hnot
    rw [Ack.Claims, not_or, not_or] at hnot
    rw [Map.lookup_eraseAll_of_notMem hnot.2.2, Map.lookup_eraseAll_of_notMem]
    intro hmem
    have hgone := of_decide_eq_true (List.mem_filter.mp hmem).2
    exact hgone.elim hnot.1 hnot.2.1

end

end Probe
