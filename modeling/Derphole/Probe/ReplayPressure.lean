import Derphole.Probe.ReplayMemory

/-!
# A full replay window

The window of `pkg/probe/stream_replay.go` is full for a packet whose slot holds another number,
or that would take the retained bytes over the limit.  The senders test neither: their retry loops
wait only while `RetainedBytes` is at least `MaxBytes`.

The retained bytes reach the limit exactly when every slot holds a packet of the limit divided by
the number of slots (`retained_full_iff`).  Any other full window, with a short packet in it, a
free slot or a limit that is no multiple of the slot size, makes a loop try again at once.

Here any number may be added and any floor acknowledged, for every chunk size.
-/

namespace Probe

open Lib

namespace ReplayMemory

/-! ## What the operations do to the slots -/

section

variable {m : ReplayMemory}

/-- `addPacket` fails and leaves the slots, or it takes the slot of its number. -/
theorem addPacket_cases (m : ReplayMemory) (type : PacketType) (stripeID seq offset : Nat)
    (payload : List UInt8) :
    (∃ e, (m.addPacket type stripeID seq offset payload).2 = .error e ∧
      (m.addPacket type stripeID seq offset payload).1.slots = m.slots ∧
      (m.addPacket type stripeID seq offset payload).1.retained = m.retained ∧
      (m.addPacket type stripeID seq offset payload).1.ackFloor = m.ackFloor) ∨
    (∃ wire, (m.addPacket type stripeID seq offset payload).2 = .ok wire ∧
      ¬((m.slot seq).present = true ∧ (m.slot seq).seq ≠ seq) ∧
      m.packetBytes payload ≤ m.packetStride ∧
      ¬(0 < m.maxBytes ∧
        m.maxBytes < (m.retainedAfterReplace (m.slot seq) + m.packetBytes payload) % 2 ^ 64) ∧
      (m.addPacket type stripeID seq offset payload).1.slots =
        m.slots.set (m.slotIndex seq) ⟨seq, some wire, m.packetBytes payload, true⟩ ∧
      (m.addPacket type stripeID seq offset payload).1.retained =
        ((if (m.slot seq).present then m.retained - min m.retained (m.slot seq).bytes
          else m.retained) + m.packetBytes payload) % 2 ^ 64 ∧
      (m.addPacket type stripeID seq offset payload).1.ackFloor = m.ackFloor) := by
  rw [addPacket]
  split
  · exact .inl ⟨_, rfl, rfl, rfl, rfl⟩
  next hfree =>
    split
    · exact .inl ⟨_, rfl, rfl, rfl, rfl⟩
    next hfits =>
      split
      · exact .inl ⟨_, rfl, rfl, rfl, rfl⟩
      next hroom =>
        rw [fill]
        simp only
        split
        · split
          · exact .inl ⟨_, rfl, rfl, rfl, rfl⟩
          next slab length _ =>
            exact .inr ⟨_, rfl, hfree, Nat.le_of_not_lt hfits, hroom, rfl, rfl, rfl⟩
        · exact .inl ⟨_, rfl, rfl, rfl, rfl⟩

/-- The window is full: the slot is taken, or the bytes would exceed the limit. -/
theorem addPacket_full {type : PacketType} {stripeID seq offset : Nat} {payload : List UInt8}
    (h : (m.addPacket type stripeID seq offset payload).2 = .error .windowFull) :
    ((m.slot seq).present = true ∧ (m.slot seq).seq ≠ seq) ∨
      ¬((m.slot seq).present = true ∧ (m.slot seq).seq ≠ seq) ∧
        m.packetBytes payload ≤ m.packetStride ∧ 0 < m.maxBytes ∧
        m.maxBytes < (m.retainedAfterReplace (m.slot seq) + m.packetBytes payload) % 2 ^ 64 := by
  rw [addPacket] at h
  split at h
  next htaken => exact .inl htaken
  next hfree =>
    split at h
    · cases h
    next hfits =>
      split at h
      next hover => exact .inr ⟨hfree, Nat.le_of_not_lt hfits, hover⟩
      next hroom =>
        rw [fill] at h
        simp only at h
        split at h
        · split at h
          next slab e hmarshal =>
            cases h
            exact absurd rfl (marshalInto_error hmarshal).2.2
          next => cases h
        · cases h

/-- `delete` empties the slot of its number, if it holds it. -/
theorem delete_cases (m : ReplayMemory) (seq : Nat) :
    ((m.slot seq).present = true ∧ (m.slot seq).seq = seq ∧
      (m.delete seq).slots = m.slots.set (m.slotIndex seq) ⟨(m.slot seq).seq, none, 0, false⟩ ∧
      (m.delete seq).retained = m.retained - (m.slot seq).bytes ∧
      (m.delete seq).ackFloor = m.ackFloor) ∨
    (¬((m.slot seq).present = true ∧ (m.slot seq).seq = seq) ∧ m.delete seq = m) := by
  rw [delete]
  split
  next hheld =>
    refine .inl ⟨hheld.1, hheld.2, rfl, ?_, rfl⟩
    show (if m.retained ≤ (m.slot seq).bytes then 0 else _) = _
    split <;> omega
  next hnot => exact .inr ⟨hnot, rfl⟩

end

/-! ## The bytes of the slots -/

/-- The bytes that a slot is counted with. -/
def counted (slot : MemorySlot) : Nat := if slot.present then slot.bytes else 0

/-- The counters are those of the slots, and the slots have the sizes they were made with. -/
structure Sized (m : ReplayMemory) : Prop where
  slots : m.slots.length = max (m.maxBytes / m.packetStride) 1
  stride : 0 < m.packetStride
  positive : 0 < m.maxBytes
  bound : max m.maxBytes m.packetStride < 2 ^ 64
  bytes : ∀ slot ∈ m.slots, counted slot ≤ m.packetStride
  retained : m.retained = (m.slots.map counted).sum
  limit : m.retained ≤ m.maxBytes

section

variable {m : ReplayMemory}

theorem Sized.length_pos (h : Sized m) : 0 < m.slots.length := by
  rw [h.slots]
  omega

theorem Sized.slotIndex_lt (h : Sized m) (seq : Nat) : m.slotIndex seq < m.slots.length :=
  Nat.mod_lt _ h.length_pos

theorem Sized.slot_eq (h : Sized m) (seq : Nat) :
    m.slots[m.slotIndex seq]? = some (m.slot seq) := by
  rw [slot, List.getD_eq_getElem?_getD, List.getElem?_eq_getElem (h.slotIndex_lt seq)]
  rfl

theorem Sized.slot_mem (h : Sized m) (seq : Nat) : m.slot seq ∈ m.slots :=
  List.mem_of_getElem? (h.slot_eq seq)

/-- All the slots together are not larger than the limit or one slot. -/
theorem Sized.room (h : Sized m) : m.slots.length * m.packetStride ≤ max m.maxBytes m.packetStride := by
  have hle := Nat.div_mul_le_self m.maxBytes m.packetStride
  rw [h.slots]
  rcases Nat.le_total (m.maxBytes / m.packetStride) 1 with hone | hmany
  · rw [Nat.max_eq_right hone, Nat.one_mul]
    exact Nat.le_max_right _ _
  · rw [Nat.max_eq_left hmany]
    exact Nat.le_trans hle (Nat.le_max_left _ _)

/-- A slot is replaced. -/
theorem Sized.sum_set (h : Sized m) (seq : Nat) (slot : MemorySlot) :
    ((m.slots.set (m.slotIndex seq) slot).map counted).sum + counted (m.slot seq) =
      m.retained + counted slot := by
  have hset := ReplayWindow.sum_set (m.slots.map counted) (m.slotIndex seq) (counted slot)
    (by rw [List.length_map]; exact h.slotIndex_lt seq)
  rw [List.getD_eq_getElem?_getD, List.getElem?_map, h.slot_eq seq, Option.map_some, Option.getD_some,
    ← h.retained, ← List.map_set] at hset
  exact hset

/-- Numbers that are at most `b` do not sum up to more. -/
theorem sum_le_mul {b : Nat} : ∀ {l : List Nat}, (∀ x ∈ l, x ≤ b) → l.sum ≤ l.length * b
  | [], _ => by simp
  | x :: l, hl => by
      have hrest := sum_le_mul fun y hy => hl y (List.mem_cons_of_mem x hy)
      have hx := hl x List.mem_cons_self
      rw [List.sum_cons, List.length_cons, Nat.succ_mul]
      omega

/-- The bytes of the slots fit, with any slot replaced. -/
theorem Sized.sum_set_le (h : Sized m) (seq : Nat) (slot : MemorySlot)
    (hslot : counted slot ≤ m.packetStride) :
    ((m.slots.set (m.slotIndex seq) slot).map counted).sum < 2 ^ 64 := by
  have hle : ((m.slots.set (m.slotIndex seq) slot).map counted).sum ≤
      ((m.slots.set (m.slotIndex seq) slot).map counted).length * m.packetStride := by
    apply sum_le_mul
    intro x hx
    obtain ⟨s, hs, rfl⟩ := List.mem_map.mp hx
    rcases List.mem_or_eq_of_mem_set hs with hs | rfl
    · exact h.bytes s hs
    · exact hslot
  rw [List.length_map, List.length_set] at hle
  exact Nat.lt_of_le_of_lt (Nat.le_trans hle h.room) h.bound

/-- The slot of a number is replaced and the counter follows. -/
theorem Sized.setSlot (h : Sized m) {m' : ReplayMemory} (seq : Nat) (slot : MemorySlot)
    (hsetup : m'.setup = m.setup) (hslots : m'.slots = m.slots.set (m.slotIndex seq) slot)
    (hslot : counted slot ≤ m.packetStride)
    (hretained : m'.retained + counted (m.slot seq) = m.retained + counted slot)
    (hlimit : m'.retained ≤ m.maxBytes) : Sized m' := by
  simp only [setup, Prod.mk.injEq] at hsetup
  obtain ⟨-, -, hstride, hmax⟩ := hsetup
  constructor
  · rw [hslots, List.length_set, hmax, hstride]
    exact h.slots
  · rw [hstride]
    exact h.stride
  · rw [hmax]
    exact h.positive
  · rw [hmax, hstride]
    exact h.bound
  · intro s hs
    rw [hslots] at hs
    rw [hstride]
    rcases List.mem_or_eq_of_mem_set hs with hs | rfl
    · exact h.bytes s hs
    · exact hslot
  · have hsum := h.sum_set seq slot
    rw [hslots]
    omega
  · rw [hmax]
    exact hlimit

theorem Sized.counted_le (h : Sized m) (seq : Nat) : counted (m.slot seq) ≤ m.retained := by
  rw [h.retained]
  exact List.single_le_sum (fun _ _ => Nat.zero_le _) _ (List.mem_map_of_mem (h.slot_mem seq))

/-- The bytes that stay beside a slot, as the code counts them before and after it writes. -/
theorem Sized.retainedAfterReplace (h : Sized m) (seq : Nat) :
    m.retainedAfterReplace (m.slot seq) + counted (m.slot seq) = m.retained ∧
      (if (m.slot seq).present then m.retained - min m.retained (m.slot seq).bytes else m.retained) =
        m.retainedAfterReplace (m.slot seq) := by
  have hle := h.counted_le seq
  rw [ReplayMemory.retainedAfterReplace, counted] at *
  cases hp : (m.slot seq).present with
  | false => simp
  | true =>
      rw [hp] at hle
      simp only [if_true] at hle
      simp only [hle, and_self, if_true]
      omega

theorem Sized.addPacket (h : Sized m) (type : PacketType) (stripeID seq offset : Nat)
    (payload : List UInt8) : Sized (m.addPacket type stripeID seq offset payload).1 := by
  have hsetup := setup_addPacket m type stripeID seq offset payload
  rcases addPacket_cases m type stripeID seq offset payload with
    ⟨e, -, hslots, hretained, -⟩ | ⟨wire, -, -, hfits, hroom, hslots, hretained, -⟩
  · have hsame : m.slots = m.slots.set (m.slotIndex seq) (m.slot seq) := by
      obtain ⟨hlt, heq⟩ := List.getElem?_eq_some_iff.mp (h.slot_eq seq)
      rw [← heq, List.set_getElem_self hlt]
    exact h.setSlot seq (m.slot seq) hsetup (hslots.trans hsame)
      (h.bytes _ (h.slot_mem seq)) (by rw [hretained]) (by rw [hretained]; exact h.limit)
  · obtain ⟨hbeside, hkept⟩ := h.retainedAfterReplace seq
    have hsum := h.sum_set seq ⟨seq, some wire, m.packetBytes payload, true⟩
    have hlt := h.sum_set_le seq ⟨seq, some wire, m.packetBytes payload, true⟩ hfits
    have hbytes : counted ⟨seq, some wire, m.packetBytes payload, true⟩ = m.packetBytes payload := rfl
    have hmod : (m.retainedAfterReplace (m.slot seq) + m.packetBytes payload) % 2 ^ 64 =
        m.retainedAfterReplace (m.slot seq) + m.packetBytes payload := Nat.mod_eq_of_lt (by omega)
    rw [hkept, hmod] at hretained
    rw [hmod] at hroom
    have := h.positive
    exact h.setSlot seq _ hsetup hslots hfits (by omega) (by omega)

theorem Sized.delete (h : Sized m) (seq : Nat) : Sized (m.delete seq) := by
  rcases delete_cases m seq with ⟨hp, -, hslots, hretained, -⟩ | ⟨-, hsame⟩
  · have hle := h.counted_le seq
    have hlimit := h.limit
    have hcounted : counted (m.slot seq) = (m.slot seq).bytes := by rw [counted, if_pos hp]
    apply h.setSlot seq _ (setup_delete m seq) hslots (Nat.zero_le _)
    · show (m.delete seq).retained + counted (m.slot seq) = m.retained + 0
      omega
    · omega
  · rw [hsame]
    exact h

theorem Sized.foldl_delete (h : Sized m) (seqs : List Nat) : Sized (seqs.foldl ReplayMemory.delete m) := by
  induction seqs generalizing m with
  | nil => exact h
  | cons seq seqs ih => exact ih (h.delete seq)

theorem Sized.advanceAck (h : Sized m) (seq : Nat) : Sized (m.advanceAck seq) := by
  rw [ReplayMemory.advanceAck]
  split
  · exact h
  · have hfold := h.foldl_delete (List.range' m.ackFloor (seq - m.ackFloor))
    exact ⟨hfold.slots, hfold.stride, hfold.positive, hfold.bound, hfold.bytes, hfold.retained,
      hfold.limit⟩

theorem packetStrideFor_bounds (chunkSize : Int) {aead : Option AEAD} (hover : overhead aead < 2 ^ 62) :
    0 < packetStrideFor chunkSize aead ∧ packetStrideFor chunkSize aead < 2 ^ 64 := by
  have hheader : headerLen = 52 := rfl
  have hlt := Int.bmod_lt (x := (headerLen + chunkFor chunkSize + overhead aead : Nat))
    (m := 18446744073709551616) (by decide)
  unfold packetStrideFor
  generalize ((headerLen + chunkFor chunkSize + overhead aead : Nat) : Int).bmod _ = stride at hlt ⊢
  simp only
  split <;> omega

theorem Sized.new (runID : RunID) (chunkSize : Int) (maxBytes : UInt64) {aead : Option AEAD}
    (hover : overhead aead < 2 ^ 62) : Sized (newStreamReplayWindow runID chunkSize maxBytes aead) := by
  have hstride := packetStrideFor_bounds chunkSize hover
  have hbytes := bytesFor_lt maxBytes
  constructor
  · exact List.length_replicate
  · exact hstride.1
  · exact bytesFor_pos maxBytes
  · show max (bytesFor maxBytes) (packetStrideFor chunkSize aead) < 2 ^ 64
    omega
  · intro slot hslot
    rw [List.eq_of_mem_replicate hslot]
    exact Nat.zero_le _
  · show 0 = ((List.replicate _ MemorySlot.empty).map counted).sum
    rw [List.map_replicate]
    simp [counted, MemorySlot.empty]
  · exact Nat.zero_le _

end

/-! ## When the limit is reached -/

/-- Every slot holds a packet of the limit divided by the number of slots. -/
def AllFull (m : ReplayMemory) : Prop :=
  ∀ slot ∈ m.slots, slot.present = true ∧ m.slots.length * slot.bytes = m.maxBytes

instance (m : ReplayMemory) : Decidable m.AllFull := inferInstanceAs (Decidable (∀ slot ∈ m.slots, _))

/-- Numbers that are at most `b` and sum up to as much are all `b`. -/
theorem eq_of_mul_le_sum {b : Nat} :
    ∀ {l : List Nat}, (∀ x ∈ l, x ≤ b) → l.length * b ≤ l.sum → ∀ x ∈ l, x = b
  | [], _, _ => by simp
  | x :: l, hl, hsum => by
      have hrest := sum_le_mul fun y hy => hl y (List.mem_cons_of_mem x hy)
      have hx := hl x List.mem_cons_self
      rw [List.sum_cons, List.length_cons, Nat.succ_mul] at hsum
      intro y hy
      rcases List.mem_cons.mp hy with rfl | hy
      · omega
      · exact eq_of_mul_le_sum (fun z hz => hl z (List.mem_cons_of_mem x hz)) (by omega) y hy

theorem mul_sum_eq {k n : Nat} {l : List Nat} (hl : ∀ x ∈ l, k * x = n) : k * l.sum = l.length * n := by
  induction l with
  | nil => simp
  | cons x l ih =>
      rw [List.sum_cons, List.length_cons, Nat.mul_add, Nat.succ_mul,
        ih fun y hy => hl y (List.mem_cons_of_mem x hy), hl x List.mem_cons_self, Nat.add_comm]

theorem mul_sum_le {k n : Nat} {l : List Nat} (hl : ∀ x ∈ l, k * x ≤ n) : k * l.sum ≤ l.length * n := by
  induction l with
  | nil => simp
  | cons x l ih =>
      have hrest := ih fun y hy => hl y (List.mem_cons_of_mem x hy)
      have hx := hl x List.mem_cons_self
      rw [List.sum_cons, List.length_cons, Nat.mul_add, Nat.succ_mul]
      omega

section

variable {m : ReplayMemory}

theorem counted_of_pos (slot : MemorySlot) (h : 0 < counted slot) :
    slot.present = true ∧ slot.bytes = counted slot := by
  rw [counted] at *
  split at h
  next hp =>
    rw [if_pos hp]
    exact ⟨hp, rfl⟩
  next => omega

/-- The counters reach the limit exactly when every slot is full. -/
theorem Sized.retained_full_iff (h : Sized m) : m.maxBytes ≤ m.retained ↔ m.AllFull := by
  have hpos := h.length_pos
  have hbytes : ∀ x ∈ m.slots.map counted, x ≤ m.packetStride := by
    intro x hx
    obtain ⟨slot, hslot, rfl⟩ := List.mem_map.mp hx
    exact h.bytes slot hslot
  constructor
  · intro hle slot hslot
    have hmem : counted slot ∈ m.slots.map counted := List.mem_map_of_mem hslot
    rw [h.retained] at hle
    rcases Nat.lt_or_ge m.maxBytes m.packetStride with hsmall | hlarge
    · -- There is one slot, and it cannot hold more than the limit.
      have hone : m.slots.length = 1 := by rw [h.slots, Nat.div_eq_of_lt hsmall]; rfl
      obtain ⟨only, honly⟩ := List.length_eq_one_iff.mp hone
      have hlimit := h.limit
      rw [h.retained] at hlimit
      rw [honly, List.mem_singleton] at hslot
      rw [honly, List.map_singleton, List.sum_singleton, ← hslot] at hle hlimit
      have := h.positive
      obtain ⟨hp, hb⟩ := counted_of_pos slot (by omega)
      exact ⟨hp, by rw [hone, hb]; omega⟩
    · have hcount : m.slots.length = m.maxBytes / m.packetStride := by
        have := (Nat.one_le_div_iff h.stride).mpr hlarge
        rw [h.slots]
        omega
      have hfits : m.slots.length * m.packetStride ≤ m.maxBytes := by
        rw [hcount]
        exact Nat.div_mul_le_self _ _
      have hsum := sum_le_mul hbytes
      rw [List.length_map] at hsum
      have hall := eq_of_mul_le_sum hbytes (by rw [List.length_map]; omega) _ hmem
      have := h.stride
      obtain ⟨hp, hb⟩ := counted_of_pos slot (by omega)
      exact ⟨hp, by rw [hb, hall]; omega⟩
  · intro hfull
    have hmul : m.slots.length * (m.slots.map counted).sum = (m.slots.map counted).length * m.maxBytes := by
      apply mul_sum_eq
      intro x hx
      obtain ⟨slot, hslot, rfl⟩ := List.mem_map.mp hx
      rw [counted, if_pos (hfull slot hslot).1]
      exact (hfull slot hslot).2
    rw [List.length_map] at hmul
    rw [h.retained]
    exact Nat.le_of_eq (Nat.eq_of_mul_eq_mul_left hpos hmul).symm

end

/-! ## Packets of one size, added in order -/

/-- The slots hold the numbers of `[lo, next)`, each with a packet of the limit divided by the
number of slots. -/
structure Queue (m : ReplayMemory) (lo next : Nat) : Prop where
  le : lo ≤ next
  length : next ≤ lo + m.slots.length
  held : ∀ seq, lo ≤ seq → seq < next → (m.slot seq).present = true ∧ (m.slot seq).seq = seq ∧
    m.slots.length * (m.slot seq).bytes = m.maxBytes
  only : ∀ seq, (m.slot seq).present = true → lo ≤ (m.slot seq).seq ∧ (m.slot seq).seq < next ∧
    (m.slot seq).seq % m.slots.length = seq % m.slots.length

section

variable {m m' : ReplayMemory} {lo next : Nat}

theorem slot_congr {q r : Nat} (h : q % m.slots.length = r % m.slots.length) : m.slot q = m.slot r := by
  rw [slot, slot, slotIndex, slotIndex, h]

/-- The slot of `seq` is replaced. -/
theorem Sized.slot_set (h : Sized m) {seq : Nat} {slot : MemorySlot}
    (hslots : m'.slots = m.slots.set (m.slotIndex seq) slot) (q : Nat) :
    m'.slot q = if q % m.slots.length = seq % m.slots.length then slot else m.slot q := by
  rw [ReplayMemory.slot, ReplayMemory.slotIndex, hslots, List.length_set, List.getD_eq_getElem?_getD,
    List.getElem?_set, ReplayMemory.slotIndex]
  by_cases hq : q % m.slots.length = seq % m.slots.length
  · have hlt : seq % m.slots.length < m.slots.length := Nat.mod_lt _ h.length_pos
    rw [if_pos hq.symm, if_pos hlt, if_pos hq]
    rfl
  · rw [if_neg fun he => hq he.symm, if_neg hq, ← List.getD_eq_getElem?_getD]
    rfl

/-- Two numbers of one slot are at least the number of slots apart. -/
theorem add_le_of_mod_eq {q r n : Nat} (hlt : q < r) (h : q % n = r % n) : q + n ≤ r := by
  have hdvd : n ∣ r - q := Nat.dvd_of_mod_eq_zero (Nat.sub_mod_eq_zero_of_mod_eq h.symm)
  have := Nat.le_of_dvd (by omega) hdvd
  omega

theorem Queue.next_free (h : Queue m lo next) (hfree : ¬((m.slot next).present = true ∧
    (m.slot next).seq ≠ next)) : (m.slot next).present = false := by
  rw [Bool.eq_false_iff]
  intro hp
  have := (h.only next hp).2.1
  exact hfree ⟨hp, by omega⟩

/-- The next number takes its slot. -/
theorem Queue.add (h : Queue m lo next) (hs : Sized m) {view : Option View} {bytes : Nat}
    (hfree : (m.slot next).present = false) (hbytes : m.slots.length * bytes = m.maxBytes)
    (hmax : m'.maxBytes = m.maxBytes)
    (hslots : m'.slots = m.slots.set (m.slotIndex next) ⟨next, view, bytes, true⟩) :
    Queue m' lo (next + 1) := by
  have hlen : m'.slots.length = m.slots.length := by rw [hslots, List.length_set]
  have hpos := hs.length_pos
  have hother : ∀ q, lo ≤ q → q < next → q % m.slots.length ≠ next % m.slots.length := by
    intro q hlo hlt hmod
    have hheld := (h.held q hlo hlt).1
    rw [slot_congr hmod, hfree] at hheld
    cases hheld
  constructor
  · exact Nat.le_succ_of_le h.le
  · have hroom : next ≠ lo + m.slots.length := by
      intro heq
      apply hother lo (Nat.le_refl lo) (by omega)
      rw [heq, Nat.add_mod_right]
    have := h.length
    rw [hlen]
    omega
  · intro q hlo hlt
    rw [hs.slot_set hslots, hlen, hmax]
    rcases Nat.lt_or_ge q next with hold | hnew
    · rw [if_neg (hother q hlo hold)]
      exact h.held q hlo hold
    · have hq : q = next := by omega
      rw [if_pos (by rw [hq])]
      exact ⟨rfl, hq.symm, hbytes⟩
  · intro q hp
    rw [hs.slot_set hslots] at hp ⊢
    rw [hlen]
    split at hp
    next hmod =>
      rw [if_pos hmod]
      exact ⟨h.le, Nat.lt_succ_self next, hmod.symm⟩
    next hmod =>
      rw [if_neg hmod]
      obtain ⟨hlo, hlt, heq⟩ := h.only q hp
      exact ⟨hlo, Nat.lt_succ_of_lt hlt, heq⟩

/-- The first number is acknowledged. -/
theorem Queue.delete (h : Queue m lo next) (hs : Sized m) (hlt : lo < next) :
    Queue (m.delete lo) (lo + 1) next := by
  obtain ⟨hp, hseq, -⟩ := h.held lo (Nat.le_refl lo) hlt
  rcases delete_cases m lo with ⟨-, -, hslots, -, -⟩ | ⟨hnot, -⟩
  · have hsetup := setup_delete m lo
    simp only [setup, Prod.mk.injEq] at hsetup
    have hlen : (m.delete lo).slots.length = m.slots.length := by rw [hslots, List.length_set]
    have hother : ∀ q, lo + 1 ≤ q → q < next → q % m.slots.length ≠ lo % m.slots.length := by
      intro q hlo hq hmod
      have := add_le_of_mod_eq (show lo < q by omega) hmod.symm
      have := h.length
      omega
    constructor
    · exact hlt
    · have := h.length
      rw [hlen]
      omega
    · intro q hlo hq
      rw [hs.slot_set hslots, hlen, hsetup.2.2.2, if_neg (hother q hlo hq)]
      exact h.held q (by omega) hq
    · intro q hq
      rw [hs.slot_set hslots] at hq ⊢
      rw [hlen]
      split at hq
      · cases hq
      next hmod =>
        rw [if_neg hmod]
        obtain ⟨hlo, hlt', heq⟩ := h.only q hq
        refine ⟨?_, hlt', heq⟩
        rcases Nat.lt_or_ge lo (m.slot q).seq with hgt | hle
        · exact hgt
        · exfalso
          apply hmod
          rw [← heq, show (m.slot q).seq = lo by omega]
  · exact absurd ⟨hp, hseq⟩ hnot

theorem Queue.foldl_delete (h : Queue m lo next) (hs : Sized m) {n : Nat} (hle : lo + n ≤ next) :
    Queue ((List.range' lo n).foldl ReplayMemory.delete m) (lo + n) next := by
  induction n generalizing m lo with
  | zero => exact h
  | succ n ih =>
      rw [List.range'_succ, List.foldl_cons, show lo + (n + 1) = lo + 1 + n by omega]
      exact ih (h.delete hs (by omega)) (hs.delete lo) (by omega)

theorem Queue.advanceAck (h : Queue m m.ackFloor next) (hs : Sized m) {seq : Nat} (hle : seq ≤ next) :
    Queue (m.advanceAck seq) (m.advanceAck seq).ackFloor next := by
  rw [ReplayMemory.advanceAck]
  split
  · exact h
  next hgt =>
    have hfold := h.foldl_delete hs (show m.ackFloor + (seq - m.ackFloor) ≤ next by omega)
    rw [show m.ackFloor + (seq - m.ackFloor) = seq by omega] at hfold
    exact ⟨hfold.le, hfold.length, hfold.held, hfold.only⟩

/-- A slot that is taken holds a packet of that size. -/
theorem Queue.mul_counted_le (h : Queue m lo next) {slot : MemorySlot}
    (hslot : slot ∈ m.slots) : m.slots.length * counted slot ≤ m.maxBytes := by
  obtain ⟨i, hi⟩ := List.mem_iff_getElem?.mp hslot
  have hlt : i < m.slots.length := (List.getElem?_eq_some_iff.mp hi).1
  have heq : m.slot i = slot := by
    rw [ReplayMemory.slot, slotIndex, Nat.mod_eq_of_lt hlt, List.getD_eq_getElem?_getD, hi]
    rfl
  rw [← heq, counted]
  split
  next hp =>
    obtain ⟨hlo, hnext, hmod⟩ := h.only i hp
    have hheld := (h.held _ hlo hnext).2.2
    rw [slot_congr hmod] at hheld
    omega
  next => exact Nat.zero_le _

/-- The next number finds the window full only when every slot is. -/
theorem Queue.allFull (h : Queue m lo next) (hs : Sized m) {type : PacketType} {stripeID offset : Nat}
    {payload : List UInt8} (hbytes : m.slots.length * m.packetBytes payload = m.maxBytes)
    (hfull : (m.addPacket type stripeID next offset payload).2 = .error .windowFull) : m.AllFull := by
  have hpos := hs.length_pos
  rcases addPacket_full hfull with ⟨hp, hne⟩ | ⟨hfree, hfits, -, hover⟩
  · -- The number in the slot is a whole turn behind, so the numbers between fill all slots.
    obtain ⟨hlo, hlt, hmod⟩ := h.only next hp
    have hturn := add_le_of_mod_eq hlt hmod
    intro slot hslot
    obtain ⟨i, hi⟩ := List.mem_iff_getElem?.mp hslot
    have hil : i < m.slots.length := (List.getElem?_eq_some_iff.mp hi).1
    have hindex : (lo + (i + m.slots.length - lo % m.slots.length)) % m.slots.length = i := by
      have hmodlt := Nat.mod_lt lo hpos
      have hdiv := Nat.div_add_mod lo m.slots.length
      rw [show lo + (i + m.slots.length - lo % m.slots.length) =
        i + m.slots.length * (lo / m.slots.length + 1) by rw [Nat.mul_add]; omega,
        Nat.add_mul_mod_self_left, Nat.mod_eq_of_lt hil]
    have hmodlt := Nat.mod_lt (i + m.slots.length - lo % m.slots.length) hpos
    have hseq : (lo + (i + m.slots.length - lo % m.slots.length) % m.slots.length) % m.slots.length = i := by
      rw [Nat.add_mod, Nat.mod_mod, ← Nat.add_mod]
      exact hindex
    obtain ⟨hheld, -, hsize⟩ :=
      h.held (lo + (i + m.slots.length - lo % m.slots.length) % m.slots.length) (by omega) (by omega)
    have heq : m.slot (lo + (i + m.slots.length - lo % m.slots.length) % m.slots.length) = slot := by
      rw [ReplayMemory.slot, slotIndex, hseq, List.getD_eq_getElem?_getD, hi]
      rfl
    rw [heq] at hheld hsize
    exact ⟨hheld, hsize⟩
  · -- A free slot leaves room for a packet of its size.
    exfalso
    have habsent := h.next_free hfree
    let slot : MemorySlot := ⟨next, none, m.packetBytes payload, true⟩
    have hsum := hs.sum_set next slot
    have hlt := hs.sum_set_le next slot hfits
    have hcounted : counted (m.slot next) = 0 := by simp [counted, habsent]
    have hslot : counted slot = m.packetBytes payload := rfl
    have hafter : m.retainedAfterReplace (m.slot next) = m.retained := by
      simp [ReplayMemory.retainedAfterReplace, habsent]
    have hmul : m.slots.length * ((m.slots.set (m.slotIndex next) slot).map counted).sum ≤
        ((m.slots.set (m.slotIndex next) slot).map counted).length * m.maxBytes := by
      apply mul_sum_le
      intro x hx
      obtain ⟨s, hmem, rfl⟩ := List.mem_map.mp hx
      rcases List.mem_or_eq_of_mem_set hmem with hmem | rfl
      · exact h.mul_counted_le hmem
      · exact Nat.le_of_eq hbytes
    rw [List.length_map, List.length_set] at hmul
    have hle := Nat.le_of_mul_le_mul_left hmul hpos
    rw [hafter, Nat.mod_eq_of_lt (by omega)] at hover
    omega

end

/-! ## Retry loops -/

/-- What a turn of a retry loop ends with. -/
inductive Turn where
  | added (view : View)
  | failed (e : SendErr)
  /-- The loop tries again at once. -/
  | again
  /-- The loop waits, and tells the rate control of the pressure. -/
  | waited
  deriving DecidableEq

/-- A turn of the retry loops of the senders and of the lane encoder.  The senders take in the
acknowledgements `drained` between the attempt and the test; the lane encoder takes in none. -/
def retryTurn (m : ReplayMemory) (drained : List Nat) (type : PacketType) (stripeID seq offset : Nat)
    (payload : List UInt8) : ReplayMemory × Turn :=
  match m.addPacket type stripeID seq offset payload with
  | (m', .ok view) => (m', .added view)
  | (m', .error .windowFull) =>
      let m'' := drained.foldl advanceAck m'
      if m''.retained < m''.maxBytes then (m'', .again) else (m'', .waited)
  | (m', .error e) => (m', .failed e)

/-- A full window is left as it is. -/
theorem addPacket_full_eq {m : ReplayMemory} {type : PacketType} {stripeID seq offset : Nat}
    {payload : List UInt8} (h : (m.addPacket type stripeID seq offset payload).2 = .error .windowFull) :
    m.addPacket type stripeID seq offset payload = (m, .error .windowFull) := by
  rw [addPacket]
  rcases addPacket_full h with htaken | ⟨hfree, hfits, hover⟩
  · rw [if_pos htaken]
  · rw [if_neg hfree, if_neg (Nat.not_lt.mpr hfits), if_pos hover]

/-- With no acknowledgement a full window makes the loop wait or turn on the spot. -/
theorem retryTurn_full {m : ReplayMemory} {type : PacketType} {stripeID seq offset : Nat}
    {payload : List UInt8} (h : (m.addPacket type stripeID seq offset payload).2 = .error .windowFull) :
    m.retryTurn [] type stripeID seq offset payload =
      (m, if m.maxBytes ≤ m.retained then .waited else .again) := by
  rw [retryTurn, addPacket_full_eq h]
  show (if m.retained < m.maxBytes then (m, Turn.again) else (m, Turn.waited)) = _
  by_cases hle : m.maxBytes ≤ m.retained
  · rw [if_neg (Nat.not_lt.mpr hle), if_pos hle]
  · rw [if_pos (Nat.lt_of_not_le hle), if_neg hle]

/-! ## Histories -/

/-- A window and the first number above all that were added. -/
structure Pressure where
  memory : ReplayMemory
  next : Nat

inductive PressureLabel where
  | add (type : PacketType) (stripeID seq offset : Nat) (payload : List UInt8)
  | ackFloor (seq : Nat)

namespace Pressure

def init (runID : RunID) (chunkSize : Int) (maxBytes : UInt64) (aead : Option AEAD) : Pressure :=
  ⟨newStreamReplayWindow runID chunkSize maxBytes aead, 0⟩

def step (t : Pressure) : PressureLabel → Option Pressure
  | .add type stripeID seq offset payload =>
      let r := t.memory.addPacket type stripeID seq offset payload
      match r.2 with
      | .ok _ => some ⟨r.1, max t.next (seq + 1)⟩
      | .error _ => some { t with memory := r.1 }
  | .ackFloor seq => some { t with memory := t.memory.advanceAck seq }

/-- The packet has the limit divided by the number of slots and comes under the next number; an
acknowledgement names what was added. -/
def InOrder (t : Pressure) : PressureLabel → Prop
  | .add _ _ seq _ payload =>
      seq = t.next ∧ t.memory.slots.length * t.memory.packetBytes payload = t.memory.maxBytes
  | .ackFloor seq => seq ≤ t.next

instance (t : Pressure) : ∀ label, Decidable (t.InOrder label)
  | .add _ _ _ _ _ => inferInstanceAs (Decidable (_ ∧ _))
  | .ackFloor _ => inferInstanceAs (Decidable (_ ≤ _))

theorem sized_step {t t' : Pressure} {label : PressureLabel} (h : t.memory.Sized)
    (hstep : t.step label = some t') : t'.memory.Sized := by
  cases label with
  | add type stripeID seq offset payload =>
      have hadd := h.addPacket type stripeID seq offset payload
      simp only [step] at hstep
      split at hstep
      · cases hstep
        exact hadd
      · cases hstep
        exact hadd
  | ackFloor seq =>
      cases hstep
      exact h.advanceAck seq

theorem queue_step {t t' : Pressure} {label : PressureLabel} (hs : t.memory.Sized)
    (h : t.memory.Queue t.memory.ackFloor t.next) (hok : t.InOrder label)
    (hstep : t.step label = some t') : t'.memory.Queue t'.memory.ackFloor t'.next := by
  cases label with
  | add type stripeID seq offset payload =>
      obtain ⟨rfl, hbytes⟩ := hok
      have hsetup := setup_addPacket t.memory type stripeID t.next offset payload
      simp only [setup, Prod.mk.injEq] at hsetup
      simp only [step] at hstep
      rcases addPacket_cases t.memory type stripeID t.next offset payload with
        ⟨e, he, hslots, -, hfloor⟩ | ⟨wire, hwire, hfree, -, -, hslots, -, hfloor⟩
      · rw [he] at hstep
        cases hstep
        have hslot : ∀ q, (t.memory.addPacket type stripeID t.next offset payload).1.slot q =
            t.memory.slot q := fun q => by rw [slot, slotIndex, hslots]; rfl
        refine ⟨?_, ?_, ?_, ?_⟩
        · rw [hfloor]
          exact h.le
        · rw [hfloor, hslots]
          exact h.length
        · intro q hlo hlt
          rw [hfloor] at hlo
          rw [hslot, hslots, hsetup.2.2.2]
          exact h.held q hlo hlt
        · intro q hp
          rw [hslot] at hp ⊢
          rw [hfloor, hslots]
          exact h.only q hp
      · rw [hwire] at hstep
        cases hstep
        have hqueue := h.add hs (h.next_free hfree) hbytes hsetup.2.2.2 hslots
        rw [show max t.next (t.next + 1) = t.next + 1 by omega, hfloor]
        exact hqueue
  | ackFloor seq =>
      cases hstep
      exact h.advanceAck hs hok

theorem queue_init (runID : RunID) (chunkSize : Int) (maxBytes : UInt64) (aead : Option AEAD) :
    (init runID chunkSize maxBytes aead).memory.Queue (init runID chunkSize maxBytes aead).memory.ackFloor
      (init runID chunkSize maxBytes aead).next := by
  have hempty : ∀ seq, (init runID chunkSize maxBytes aead).memory.slot seq = MemorySlot.empty := by
    intro seq
    have hreplicate : ∀ n i, (List.replicate n MemorySlot.empty).getD i MemorySlot.empty =
        MemorySlot.empty := by
      intro n i
      rw [List.getD_eq_getElem?_getD, List.getElem?_replicate]
      split <;> rfl
    exact hreplicate _ _
  refine ⟨Nat.le_refl _, Nat.zero_le _, ?_, ?_⟩
  · intro seq _ hlt
    exact absurd hlt (Nat.not_lt_zero seq)
  · intro seq hp
    rw [hempty] at hp
    cases hp

variable {runID : RunID} {chunkSize : Int} {maxBytes : UInt64} {aead : Option AEAD}

/-- In every history the retained bytes reach the limit, and a full window makes the retry loops
wait, exactly when every slot holds a packet of the limit divided by the number of slots.  Where
all packets have that size, come in order and are not acknowledged before they were added, a full
window is always of that kind. -/
theorem window_full_waits (hover : overhead aead < 2 ^ 62) {labels : List PressureLabel} {t : Pressure}
    (hrun : runFrom step (init runID chunkSize maxBytes aead) labels = some t) {type : PacketType}
    {stripeID seq offset : Nat} {payload : List UInt8}
    (hfull : (t.memory.addPacket type stripeID seq offset payload).2 = .error .windowFull) :
    (t.memory.maxBytes ≤ t.memory.retained ↔ t.memory.AllFull) ∧
      t.memory.retryTurn [] type stripeID seq offset payload =
        (t.memory, if t.memory.AllFull then .waited else .again) ∧
      (StepsMeet step InOrder (init runID chunkSize maxBytes aead) labels →
        t.InOrder (.add type stripeID seq offset payload) → t.memory.AllFull) := by
  have hnew : (init runID chunkSize maxBytes aead).memory.Sized :=
    Sized.new runID chunkSize maxBytes hover
  have hsized : t.memory.Sized :=
    runFrom_invariant (I := fun t => t.memory.Sized) (fun _ _ _ h hs => sized_step h hs) labels hnew hrun
  refine ⟨hsized.retained_full_iff, ?_, ?_⟩
  · rw [retryTurn_full hfull]
    simp only [hsized.retained_full_iff]
  · rintro hmeet ⟨rfl, hbytes⟩
    have hqueue := runFrom_invariant_of_meet
      (I := fun t => t.memory.Sized ∧ t.memory.Queue t.memory.ackFloor t.next)
      (fun _ _ _ h hok hs => ⟨sized_step h.1 hs, queue_step h.1 h.2 hok hs⟩) labels
      ⟨hnew, queue_init runID chunkSize maxBytes aead⟩ hmeet hrun
    exact hqueue.2.allFull hqueue.1 hbytes hfull

/-- Two packets of one byte, in order. -/
def twoPackets : List PressureLabel := [.add .data 0 0 0 [7], .add .data 0 1 1 [8]]

/-- The limit is twice the size of a packet, and the third packet waits. -/
theorem window_full_waits_two :
    ∃ t, runFrom step (init (Vector.replicate 16 9) 1 106 none) twoPackets = some t ∧
      (t.memory.addPacket .data 0 2 2 [9]).2 = .error .windowFull ∧
      t.memory.maxBytes ≤ t.memory.retained ∧
      (t.memory.retryTurn [] .data 0 2 2 [9]).2 = .waited := by
  have hany : (runFrom step (init (Vector.replicate 16 9) 1 106 none) twoPackets).any
      (fun t => decide ((t.memory.addPacket .data 0 2 2 [9]).2 = .error .windowFull ∧
        t.InOrder (.add .data 0 2 2 [9]))) = true := by decide +kernel
  obtain ⟨t, hrun, ht⟩ := (Option.any_eq_true ..).mp hany
  obtain ⟨hfull, horder⟩ := of_decide_eq_true ht
  obtain ⟨hiff, hturn, hall⟩ := window_full_waits (by decide) hrun hfull
  have hslots := hall (by decide +kernel) horder
  refine ⟨t, hrun, hfull, hiff.mpr hslots, ?_⟩
  rw [hturn, if_pos hslots]

/-- With a limit that is no multiple of the size of a packet, the window is full below it and the
loop tries again at once, with the window as it was. -/
theorem window_full_spins :
    ∃ t, runFrom step (init (Vector.replicate 16 9) 1 120 none) twoPackets = some t ∧
      (t.memory.addPacket .data 0 2 2 [9]).2 = .error .windowFull ∧
      t.memory.retained < t.memory.maxBytes ∧
      t.memory.retryTurn [] .data 0 2 2 [9] = (t.memory, .again) := by
  have hany : (runFrom step (init (Vector.replicate 16 9) 1 120 none) twoPackets).any
      (fun t => decide ((t.memory.addPacket .data 0 2 2 [9]).2 = .error .windowFull ∧
        t.memory.retained < t.memory.maxBytes)) = true := by decide +kernel
  obtain ⟨t, hrun, ht⟩ := (Option.any_eq_true ..).mp hany
  obtain ⟨hfull, hlt⟩ := of_decide_eq_true ht
  refine ⟨t, hrun, hfull, hlt, ?_⟩
  rw [retryTurn_full hfull, if_neg (Nat.not_le.mpr hlt)]

end Pressure

end ReplayMemory

end Probe
