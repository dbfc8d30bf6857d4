import Derphole.Lib.BlockCyclic
import Derphole.Probe.StripedReceive

/-!
# Stripe geometry

The sender deals the chunks of a striped send out to its lanes in blocks of 128
(`blastParallelLaneIndexForOffset`); the receiver counts the packets of a stripe and finds the
offset of a packet from that of another one in closed form (`stripedDataPacketsForStripe`,
`stripedFECOffsetForSeq` of `pkg/probe/session.go`).  Both are block-cyclic distributions, with
two products in 64 bits: the bytes of a block and the packets of a round.  A chunk is the payload of
one datagram and a send has a few stripes, so neither product comes near 64 bits; `stripe_geometry`
asks of both factors that they are below `2 ^ 57`.
-/

namespace Probe

namespace Geometry

open Lib.BlockCyclic

/-- The chunk size in effect. -/
def chunkOf (chunkSize : Int) : Nat := if chunkSize ≤ 0 then defaultChunkSize else chunkSize.toNat

def blastParallelLaneIndexForOffset (offset : Nat) (lanes chunkSize : Int) : Nat :=
  if lanes ≤ 1 then 0
  else
    let blockBytes := u64 (parallelBlastStripeBlockPackets * chunkOf chunkSize)
    if blockBytes = 0 then 0 else offset / blockBytes % lanes.toNat

def stripedDataPacketsForStripe (totalBytes : Nat) (chunkSize totalStripes : Int) (stripeID : Nat) :
    Nat :=
  if totalBytes = 0 ∨ totalStripes ≤ 0 ∨ totalStripes ≤ stripeID then 0
  else
    let globalPackets := u64 (totalBytes + chunkOf chunkSize - 1) / chunkOf chunkSize
    let blockPackets := parallelBlastStripeBlockPackets
    let cyclePackets := u64 (blockPackets * totalStripes.toNat)
    if cyclePackets = 0 then 0
    else
      let count := globalPackets / cyclePackets * blockPackets
      let remaining := globalPackets % cyclePackets
      let stripeStart := stripeID * blockPackets
      if remaining ≤ stripeStart then count else count + min (remaining - stripeStart) blockPackets

/-- The numbers of packets may be subtracted below zero on the way. -/
def stripedFECOffsetForSeq (startOffset startSeq seq : Nat) (chunkSize totalStripes : Int) : Nat :=
  if seq ≤ startSeq then startOffset
  else if totalStripes ≤ 1 then u64 (startOffset + (seq - startSeq) * chunkOf chunkSize)
  else
    let block := parallelBlastStripeBlockPackets
    let deltaPackets := u64 ((seq / block - startSeq / block) * block * totalStripes.toNat +
      seq % block + (2 ^ 64 - startSeq % block))
    u64 (startOffset + deltaPackets * chunkOf chunkSize)

/-! ## What the sender does -/

/-- How many packets a send has, all but the last of them of full size. -/
def packetCount (totalBytes : Nat) (chunkSize : Int) : Nat :=
  (totalBytes + chunkOf chunkSize - 1) / chunkOf chunkSize

/-- The offsets of the packets that go to a lane, in order. -/
def laneOffsets (totalBytes : Nat) (chunkSize lanes : Int) (lane : Nat) : List Nat :=
  ((List.range (packetCount totalBytes chunkSize)).map fun i => i * chunkOf chunkSize).filter
    fun offset => blastParallelLaneIndexForOffset offset lanes chunkSize = lane

/-- The receiver counts the packets of every stripe and finds the offset of every packet of a
stripe from that of an earlier one. -/
def Agrees (totalBytes : Nat) (chunkSize stripes : Int) : Prop :=
  ∀ k : Nat, k < 2 ^ 16 → (k : Int) < stripes →
    stripedDataPacketsForStripe totalBytes chunkSize stripes k =
        (laneOffsets totalBytes chunkSize stripes k).length ∧
      ∀ s₀ s, s₀ ≤ s → s < (laneOffsets totalBytes chunkSize stripes k).length →
        stripedFECOffsetForSeq ((laneOffsets totalBytes chunkSize stripes k).getD s₀ 0) s₀ s chunkSize
          stripes = (laneOffsets totalBytes chunkSize stripes k).getD s 0

section

variable {total : Nat} {chunkSize stripes : Int} {k : Nat}

theorem chunkOf_pos (chunkSize : Int) : 0 < chunkOf chunkSize := by
  rw [chunkOf]
  split
  · decide
  · omega

theorem chunkOf_lt (hchunk : chunkSize < 2 ^ 57) : chunkOf chunkSize < 2 ^ 57 := by
  rw [chunkOf]
  split
  · decide
  · omega

theorem lt_packetCount {i : Nat} : i < packetCount total chunkSize ↔ i * chunkOf chunkSize < total := by
  have hpos := chunkOf_pos chunkSize
  rw [packetCount, ← Nat.succ_le_iff, Nat.le_div_iff_mul_le hpos, Nat.succ_mul]
  omega

theorem block_eq : parallelBlastStripeBlockPackets = 128 := rfl

/-- The lane of the packet at an offset. -/
theorem laneIndex_eq (hstripes : 0 < stripes) (offset : Nat) :
    blastParallelLaneIndexForOffset offset stripes chunkSize =
      offset / u64 (parallelBlastStripeBlockPackets * chunkOf chunkSize) % stripes.toNat := by
  rw [blastParallelLaneIndexForOffset]
  split
  next hone => rw [show stripes.toNat = 1 by omega, Nat.mod_one]
  next =>
    simp only
    split
    next hzero => rw [hzero, Nat.div_zero, Nat.zero_mod]
    next => rfl

/-- The count of the receiver. -/
theorem stripedDataPackets_eq (htotal : total < 2 ^ 62) (hchunk : chunkSize < 2 ^ 57)
    (hround : stripes < 2 ^ 57) (hk : (k : Int) < stripes) :
    stripedDataPacketsForStripe total chunkSize stripes k =
      laneCount parallelBlastStripeBlockPackets stripes.toNat (packetCount total chunkSize) k := by
  have hcycle : u64 (parallelBlastStripeBlockPackets * stripes.toNat) =
      parallelBlastStripeBlockPackets * stripes.toNat := by
    rw [block_eq]
    exact u64_of_lt (by omega)
  have hpos := chunkOf_pos chunkSize
  rw [stripedDataPacketsForStripe]
  split
  next hnone =>
    have hcount : packetCount total chunkSize = 0 := by
      rw [packetCount, show total = 0 by omega]
      exact Nat.div_eq_of_lt (by omega)
    rw [hcount]
    simp [laneCount]
  next hsome =>
    have hpackets : u64 (total + chunkOf chunkSize - 1) / chunkOf chunkSize =
        packetCount total chunkSize := by
      have := chunkOf_lt hchunk
      rw [u64_of_lt (by omega)]
      rfl
    simp only [hcycle, hpackets]
    rw [if_neg (by rw [block_eq]; omega), laneCount, Nat.mul_comm k]
    split
    next hle => rw [Nat.sub_eq_zero_of_le hle, Nat.zero_min, Nat.add_zero]
    next => rfl

/-- Where the offset fits 64 bits it is the one that the receiver of `StripedReceive` computes. -/
theorem stripedFECOffset_eq {startOffset startSeq seq : Nat} (hstripes : 0 < stripes)
    (hlt : Probe.stripedFECOffsetForSeq startOffset startSeq seq (chunkOf chunkSize) stripes.toNat <
      2 ^ 64) :
    stripedFECOffsetForSeq startOffset startSeq seq chunkSize stripes =
      Probe.stripedFECOffsetForSeq startOffset startSeq seq (chunkOf chunkSize) stripes.toNat := by
  have hpos := chunkOf_pos chunkSize
  rw [stripedFECOffsetForSeq]
  rw [Probe.stripedFECOffsetForSeq] at hlt ⊢
  split
  next => rfl
  next hgt =>
    rw [if_neg hgt] at hlt
    split
    next hone =>
      rw [if_pos (show stripes.toNat ≤ 1 by omega)] at hlt ⊢
      exact u64_of_lt hlt
    next hmany =>
      rw [if_neg (show ¬stripes.toNat ≤ 1 by omega)] at hlt ⊢
      simp only at hlt ⊢
      have hmod : startSeq % parallelBlastStripeBlockPackets < parallelBlastStripeBlockPackets :=
        Nat.mod_lt _ (by decide)
      have hstart := Nat.div_add_mod startSeq parallelBlastStripeBlockPackets
      have hseq := Nat.div_add_mod seq parallelBlastStripeBlockPackets
      have hbelow : startSeq % parallelBlastStripeBlockPackets ≤
          (seq / parallelBlastStripeBlockPackets - startSeq / parallelBlastStripeBlockPackets) *
            parallelBlastStripeBlockPackets * stripes.toNat + seq % parallelBlastStripeBlockPackets := by
        rcases Nat.lt_or_ge (startSeq / parallelBlastStripeBlockPackets)
          (seq / parallelBlastStripeBlockPackets) with hblock | hsame
        · have h₁ := Nat.le_mul_of_pos_left parallelBlastStripeBlockPackets (Nat.sub_pos_of_lt hblock)
          have h₂ := Nat.le_mul_of_pos_right
            ((seq / parallelBlastStripeBlockPackets - startSeq / parallelBlastStripeBlockPackets) *
              parallelBlastStripeBlockPackets) (show 0 < stripes.toNat by omega)
          omega
        · have := Nat.div_le_div_right (c := parallelBlastStripeBlockPackets) (Nat.le_of_not_le hgt)
          rw [Nat.le_antisymm this hsame] at hstart
          omega
      generalize (seq / parallelBlastStripeBlockPackets - startSeq / parallelBlastStripeBlockPackets) *
        parallelBlastStripeBlockPackets * stripes.toNat = rounds at hlt hbelow ⊢
      generalize seq % parallelBlastStripeBlockPackets = within at hlt hbelow ⊢
      generalize startSeq % parallelBlastStripeBlockPackets = startWithin at hlt hbelow hmod ⊢
      have hdelta := Nat.le_mul_of_pos_right (rounds + within - startWithin) hpos
      have hwrap : u64 (rounds + within + (2 ^ 64 - startWithin)) = rounds + within - startWithin := by
        rw [block_eq] at hmod
        rw [u64]
        omega
      rw [hwrap, u64_of_lt hlt]

/-! ## The packets of a lane in closed form -/

/-- The offset of a packet of a lane from that of an earlier one. -/
theorem fecOffset_itemAt {lanes c s₀ s : Nat} (hk : k < lanes) (hs : s₀ ≤ s) :
    Probe.stripedFECOffsetForSeq (itemAt parallelBlastStripeBlockPackets lanes k s₀ * c) s₀ s c lanes =
      itemAt parallelBlastStripeBlockPackets lanes k s * c := by
  rw [Probe.stripedFECOffsetForSeq]
  split
  next hle => rw [show s₀ = s by omega]
  next hgt =>
    split
    next hone =>
      rw [show lanes = 1 by omega, show k = 0 by omega, itemAt_one, itemAt_one, ← Nat.add_mul,
        show s₀ + (s - s₀) = s by omega]
    next =>
      have hadd := @itemAt_add parallelBlastStripeBlockPackets lanes k s₀ s hs
      have hle := @itemAt_le parallelBlastStripeBlockPackets lanes k (by decide) (by omega) s₀ s hs
      rw [← Nat.mul_assoc] at hadd
      have hdelta : (s / parallelBlastStripeBlockPackets - s₀ / parallelBlastStripeBlockPackets) *
          parallelBlastStripeBlockPackets * lanes + s % parallelBlastStripeBlockPackets -
          s₀ % parallelBlastStripeBlockPackets =
          itemAt parallelBlastStripeBlockPackets lanes k s -
            itemAt parallelBlastStripeBlockPackets lanes k s₀ := by
        omega
      simp only [hdelta]
      rw [← Nat.add_mul, Nat.add_sub_cancel' hle]

theorem getD_map_range {f : Nat → Nat} {n i : Nat} (h : i < n) : ((List.range n).map f).getD i 0 = f i := by
  simp [List.getD_eq_getElem?_getD, h]

/-- A lane whose packets are in closed form agrees with the receiver on their offsets. -/
theorem offsets_agree (htotal : total < 2 ^ 62) (hk : (k : Int) < stripes) (count : Nat)
    (hoffsets : laneOffsets total chunkSize stripes k = (List.range count).map fun s =>
      itemAt parallelBlastStripeBlockPackets stripes.toNat k s * chunkOf chunkSize)
    (hitem : ∀ s < count, itemAt parallelBlastStripeBlockPackets stripes.toNat k s <
      packetCount total chunkSize) (s₀ s : Nat) (hs : s₀ ≤ s)
    (hlt : s < (laneOffsets total chunkSize stripes k).length) :
    stripedFECOffsetForSeq ((laneOffsets total chunkSize stripes k).getD s₀ 0) s₀ s chunkSize stripes =
      (laneOffsets total chunkSize stripes k).getD s 0 := by
  rw [hoffsets, List.length_map, List.length_range] at hlt
  rw [hoffsets, getD_map_range hlt, getD_map_range (show s₀ < count by omega)]
  have hplace := lt_packetCount.mp (hitem s hlt)
  have hoffset := @fecOffset_itemAt k stripes.toNat (chunkOf chunkSize) s₀ s (by omega) hs
  rw [stripedFECOffset_eq (by omega) (by rw [hoffset]; omega), hoffset]

/-- Where a block has no more bytes than fit 64 bits, the chunks are dealt out block by block. -/
theorem laneOffsets_small (hsmall : parallelBlastStripeBlockPackets * chunkOf chunkSize < 2 ^ 64)
    (hk : (k : Int) < stripes) :
    laneOffsets total chunkSize stripes k =
      (List.range (laneCount parallelBlastStripeBlockPackets stripes.toNat
        (packetCount total chunkSize) k)).map fun s =>
          itemAt parallelBlastStripeBlockPackets stripes.toNat k s * chunkOf chunkSize := by
  have hlane : ∀ i, blastParallelLaneIndexForOffset (i * chunkOf chunkSize) stripes chunkSize =
      laneOf parallelBlastStripeBlockPackets stripes.toNat i := by
    intro i
    rw [laneIndex_eq (by omega), u64_of_lt hsmall, Nat.mul_div_mul_right _ _ (chunkOf_pos chunkSize),
      laneOf]
  have hfilter := @filter_laneOf parallelBlastStripeBlockPackets stripes.toNat k (by decide) (by omega)
    (packetCount total chunkSize)
  rw [laneOffsets, List.filter_map]
  simp only [Function.comp_def, hlane]
  rw [hfilter, List.map_map]
  rfl

/-- The receiver counts and places the packets of every stripe as the sender dealt them out. -/
theorem stripe_geometry (htotal : total < 2 ^ 62) (hchunk : chunkSize < 2 ^ 57)
    (hround : stripes < 2 ^ 57) : Agrees total chunkSize stripes := by
  intro k hk hks
  have hsmall : parallelBlastStripeBlockPackets * chunkOf chunkSize < 2 ^ 64 := by
    have := chunkOf_lt hchunk
    rw [block_eq]
    omega
  have hoffsets := @laneOffsets_small total chunkSize stripes k hsmall hks
  refine ⟨?_, ?_⟩
  · rw [stripedDataPackets_eq htotal hchunk hround hks, hoffsets, List.length_map, List.length_range]
  · exact offsets_agree htotal hks _ hoffsets fun s hs => itemAt_lt (by decide) (by omega) hs

/-- Three lanes, a round and a part of the next. -/
theorem stripe_geometry_three :
    Agrees 900 2 3 ∧ stripedDataPacketsForStripe 900 2 3 0 = 194 ∧
      (laneOffsets 900 2 3 0).length = 194 := by
  have hagrees : Agrees 900 2 3 := stripe_geometry (by decide) (by decide) (by decide)
  have hdata : stripedDataPacketsForStripe 900 2 3 0 = 194 := by decide
  exact ⟨hagrees, hdata, (hagrees 0 (by decide) (by decide)).1.symm.trans hdata⟩

end

end Geometry

end Probe
