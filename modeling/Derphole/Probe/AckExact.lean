import Derphole.Probe.SelectiveAck

/-!
# Exact acknowledgements

Acknowledgements with the `uint64` arithmetic of the code: a bitmap may name a number that
wraps around, and `ackIsPlausible` and `applyAck` then read the same number.

An acknowledgement that the receiver built from packets within the reach of the bitmap names
them all and no other, so the sender deletes exactly what the receiver has.
-/

namespace Probe

open Lib

namespace AckWord

variable {β γ : Type}

/-! ## How many -/

theorem count_foldl_deleteNamed (seqs : List Nat) (acc : Map Nat β × Nat) :
    (seqs.foldl deleteNamed acc).2 + (seqs.foldl deleteNamed acc).1.entries.length =
      acc.2 + acc.1.entries.length := by
  induction seqs generalizing acc with
  | nil => rfl
  | cons seq seqs ih =>
      rw [List.foldl_cons, ih, deleteNamed]
      cases hseq : acc.1.lookup seq with
      | none => rfl
      | some v =>
          have hlen := (Map.perm_entries_erase hseq).length_eq
          rw [List.length_cons] at hlen
          show acc.2 + 1 + (acc.1.erase seq).entries.length = _
          omega

/-- What was deleted and what is left are all the packets. -/
theorem count_applyAck (packets : Map Nat β) (ack : Ack) :
    (applyAck u64 packets ack).2 + (applyAck u64 packets ack).1.entries.length = packets.entries.length := by
  rw [applyAck, count_foldl_deleteNamed, Nat.add_comm]
  apply Map.length_eraseAll
  · exact packets.keys_nodup.filter _
  · intro seq hseq
    exact AList.mem_keys.mpr (List.mem_of_mem_filter hseq)

/-- The number returned is the number of packets named. -/
theorem count_eq (packets : Map Nat β) (ack : Ack) {p : Nat → Bool}
    (hp : ∀ seq, p seq = true ↔ ack.Claims u64 seq) :
    (applyAck u64 packets ack).2 = (packets.keys.filter p).length := by
  have hleft : (applyAck u64 packets ack).1.keys.Perm (packets.keys.filter fun seq => !p seq) := by
    rw [List.perm_ext_iff_of_nodup (AList.keys_nodup _) (packets.keys_nodup.filter _)]
    intro seq
    rw [List.mem_filter, ← AList.mem_keys, ← AList.mem_keys, ← AList.lookup_isSome,
      ← AList.lookup_isSome]
    obtain ⟨hgone, hkept⟩ := lookup_applyAck u64 packets ack seq
    by_cases hnames : ack.Claims u64 seq
    · simp [hgone hnames, (hp seq).mpr hnames]
    · have hnot : p seq = false := by
        rw [Bool.eq_false_iff]
        exact fun h => hnames ((hp seq).mp h)
      simp [hkept hnames, hnot]
  have hlen := hleft.length_eq
  have hsplit := (List.filter_append_perm p packets.keys).length_eq
  have hcount := count_applyAck packets ack
  rw [List.length_append] at hsplit
  have hkeys : ∀ m : Map Nat β, m.keys.length = m.entries.length := fun m => List.length_map _
  rw [hkeys] at hlen hsplit
  omega

/-! ## The round trip -/

/-- The bitmap is not there yet, or it has its full size. -/
def Whole (payload : List UInt8) : Prop := payload = [] ∨ payload.length = extendedAckBytes

theorem Whole.payloadWith {payload : List UInt8} (h : Whole payload) (floor seq : Nat) :
    Whole (payloadWith floor payload seq) := by
  rw [Probe.payloadWith]
  split
  · exact h
  · split
    · exact h
    · right
      rw [length_setBit]
      split
      · exact List.length_replicate
      next hne => exact h.resolve_left hne

/-- The bit of a number within the reach of the bitmap is set. -/
theorem bitAt_payloadWith_self {payload : List UInt8} (h : Whole payload) {floor seq : Nat}
    (hfloor : floor < seq) (hreach : seq ≤ floor + extendedAckBits) :
    bitAt (payloadWith floor payload seq) (seq - floor - 1) = true := by
  have hdelta : ¬extendedAckBits ≤ seq - floor - 1 := by
    rw [extendedAckBits] at hreach ⊢
    omega
  rw [Probe.payloadWith, if_neg (Nat.not_le.mpr hfloor), if_neg hdelta]
  have hbyte : (seq - floor - 1) / 8 < extendedAckBytes := by
    rw [extendedAckBytes, extendedAckBits] at *
    omega
  apply bitAt_setBit_self
  split
  · rwa [List.length_replicate]
  next hne => rwa [h.resolve_left hne]

theorem bitAt_payloadWith_of_bitAt {payload : List UInt8} {floor seq delta : Nat}
    (h : bitAt payload delta = true) : bitAt (payloadWith floor payload seq) delta = true := by
  have hne : payload ≠ [] := by
    rintro rfl
    simp [bitAt] at h
  rw [Probe.payloadWith]
  split
  · exact h
  · split
    · exact h
    · exact bitAt_setBit_of_bitAt h

theorem bitAt_foldl_payloadWith {floor : Nat} (seqs : List Nat) {payload : List UInt8}
    (h : Whole payload) {delta : Nat}
    (hbit : bitAt payload delta = true ∨
      floor + delta + 1 ∈ seqs ∧ floor + delta + 1 ≤ floor + extendedAckBits) :
    bitAt (seqs.foldl (payloadWith floor) payload) delta = true := by
  induction seqs generalizing payload with
  | nil => exact hbit.resolve_right fun h => List.not_mem_nil h.1
  | cons seq seqs ih =>
      rw [List.foldl_cons]
      apply ih (h.payloadWith floor seq)
      rcases hbit with hbit | ⟨hmem, hreach⟩
      · exact .inl (bitAt_payloadWith_of_bitAt hbit)
      · rcases List.mem_cons.mp hmem with heq | hmem
        · have hself := bitAt_payloadWith_self h (show floor < seq by omega) (by omega)
          rw [show seq - floor - 1 = delta by omega] at hself
          exact .inl hself
        · exact .inr ⟨hmem, hreach⟩

variable {floor : Nat} {buffered : Map Nat β}

/-- The packets kept are within the reach of the bitmap. -/
def Reach (floor : Nat) (buffered : Map Nat β) : Prop :=
  ∀ seq ∈ buffered, floor < seq ∧ seq ≤ floor + extendedAckBits

theorem Reach.lt (h : Reach floor buffered) (hfloor : floor < 2 ^ 63) {seq : Nat}
    (hseq : seq ∈ buffered) : seq < 2 ^ 64 := by
  have := (h seq hseq).2
  rw [extendedAckBits] at this
  omega

/-- The receiver names what it has passed and what it keeps. -/
theorem pendingAck_names (hfloor : floor < 2 ^ 63) (h : Reach floor buffered) (seq : Nat) :
    (pendingAck u64 floor buffered).Claims u64 seq ↔ seq < floor ∨ seq ∈ buffered := by
  constructor
  · exact pendingAck_claims fun seq hseq => u64_of_lt (h.lt hfloor hseq)
  · rintro (hlt | hmem)
    · exact .inl hlt
    · obtain ⟨hgt, hreach⟩ := h seq hmem
      have hseq : floor + (seq - floor - 1) + 1 = seq := by omega
      have hbit : bitAt (pendingAck u64 floor buffered).payload (seq - floor - 1) = true :=
        bitAt_foldl_payloadWith _ (.inl rfl)
          (.inr ⟨hseq.symm ▸ AList.mem_keys.mp hmem, by omega⟩)
      refine .inr (.inr (List.mem_map.mpr ⟨_, mem_ones_of_bitAt hbit, ?_⟩))
      show u64 (floor + (seq - floor - 1) + 1) = seq
      rw [hseq]
      exact u64_of_lt (h.lt hfloor hmem)

/-! ## Plausible acknowledgements -/

theorem ackIsPlausible_pendingAck {nextSeq : Nat} (hfloor : floor < 2 ^ 63) (h : Reach floor buffered)
    (hle : floor ≤ nextSeq) (hsent : ∀ seq ∈ buffered, seq < nextSeq) :
    ackIsPlausible u64 nextSeq (pendingAck u64 floor buffered) = true := by
  rw [ackIsPlausible, Bool.and_eq_true, Bool.and_eq_true]
  refine ⟨⟨decide_eq_true hle, ?_⟩, ?_⟩
  · rw [List.all_eq_true]
    intro bit _
    cases hbit : (pendingAck u64 floor buffered).mask.testBit bit with
    | false => rfl
    | true =>
        have hmem := mem_of_mask hbit
        rw [show (pendingAck u64 floor buffered).floor = floor from rfl, u64_of_lt (h.lt hfloor hmem)]
        simpa using hsent _ hmem
  · rw [List.all_eq_true]
    intro seq hseq
    obtain ⟨delta, hdelta, rfl⟩ := List.mem_map.mp hseq
    have hmem := mem_of_bitmap (mem_ones hdelta)
    rw [show (pendingAck u64 floor buffered).floor = floor from rfl, u64_of_lt (h.lt hfloor hmem)]
    exact decide_eq_true (hsent _ hmem)

/-- A plausible acknowledgement names only numbers that were sent. -/
theorem lt_of_plausible {nextSeq seq : Nat} {ack : Ack} (h : ackIsPlausible u64 nextSeq ack = true)
    (hseq : seq < 2 ^ 64) (hnames : ack.Claims u64 seq) : seq < nextSeq := by
  rw [ackIsPlausible, Bool.and_eq_true, Bool.and_eq_true, decide_eq_true_eq, List.all_eq_true,
    List.all_eq_true] at h
  obtain ⟨⟨hfloor, hmask⟩, hnamed⟩ := h
  rcases hnames with hlt | ⟨hgt, hdelta, hbit⟩ | hmem
  · omega
  · have hsent := hmask _ (List.mem_range.mpr hdelta)
    rw [hbit, Bool.not_true, Bool.false_or, decide_eq_true_eq,
      show ack.floor + (seq - ack.floor - 1) + 1 = seq by omega, u64_of_lt hseq] at hsent
    exact hsent
  · exact of_decide_eq_true (hnamed seq hmem)

/-- The sender deletes exactly what the receiver has and counts it, it takes every honest
acknowledgement, and none that it takes deletes a packet it has not sent. -/
theorem selective_ack_exact (hfloor : floor < 2 ^ 63) (h : Reach floor buffered)
    (packets : Map Nat γ) (nextSeq : Nat) :
    (∀ seq, (applyAck u64 packets (pendingAck u64 floor buffered)).1.lookup seq =
        if seq < floor ∨ seq ∈ buffered.keys then none else packets.lookup seq) ∧
      (applyAck u64 packets (pendingAck u64 floor buffered)).2 =
        (packets.keys.filter fun seq => seq < floor ∨ seq ∈ buffered.keys).length ∧
      (floor ≤ nextSeq → (∀ seq ∈ buffered, seq < nextSeq) →
        ackIsPlausible u64 nextSeq (pendingAck u64 floor buffered) = true) ∧
      ∀ ack, ackIsPlausible u64 nextSeq ack = true → ∀ (packets : Map Nat γ), ∀ seq < 2 ^ 64,
        nextSeq ≤ seq → (applyAck u64 packets ack).1.lookup seq = packets.lookup seq := by
  refine ⟨?_, ?_, ackIsPlausible_pendingAck hfloor h, ?_⟩
  · intro seq
    have hlook := lookup_applyAck u64 packets (pendingAck u64 floor buffered) seq
    rw [pendingAck_names hfloor h, AList.mem_keys] at hlook
    split
    next hnames => exact hlook.1 hnames
    next hnot => exact hlook.2 hnot
  · apply count_eq
    intro seq
    rw [decide_eq_true_eq, pendingAck_names hfloor h, AList.mem_keys]
  · intro ack hplausible packets seq hseq hnext
    apply (lookup_applyAck u64 packets ack seq).2
    intro hnames
    have := lt_of_plausible hplausible hseq hnames
    omega

/-- One number in the reach of the mask and one beyond it. -/
def keptTwo : Map Nat Unit := (AList.insert 70 () ∅).insert 4 ()

def flightSix : Map Nat Unit :=
  (((((AList.insert 71 () ∅).insert 70 ()).insert 5 ()).insert 4 ()).insert 2 ()).insert 1 ()

theorem selective_ack_exact_two :
    (applyAck u64 flightSix (pendingAck u64 2 keptTwo)).2 = 3 ∧
      (applyAck u64 flightSix (pendingAck u64 2 keptTwo)).1.lookup 70 = none ∧
      (applyAck u64 flightSix (pendingAck u64 2 keptTwo)).1.lookup 2 = some () ∧
      ackIsPlausible u64 72 (pendingAck u64 2 keptTwo) = true := by
  have hkept : ∀ seq ∈ keptTwo, seq = 4 ∨ seq = 70 := by
    intro seq hseq
    rw [AList.mem_keys] at hseq
    simpa [keptTwo] using hseq
  have hreach : Reach 2 keptTwo := by
    intro seq hseq
    rcases hkept seq hseq with rfl | rfl
    · decide
    · decide
  obtain ⟨hlook, hcount, hplausible, -⟩ := selective_ack_exact (by decide) hreach flightSix 72
  refine ⟨?_, ?_, ?_, hplausible (by decide) ?_⟩
  · rw [hcount]
    decide
  · rw [hlook]
    decide
  · rw [hlook]
    decide
  · intro seq hseq
    rcases hkept seq hseq with rfl | rfl
    · decide
    · decide

end AckWord

end Probe
