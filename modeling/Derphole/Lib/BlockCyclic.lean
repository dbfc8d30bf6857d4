import Mathlib.Algebra.Order.Ring.Nat
import Mathlib.Data.List.Basic

/-!
# Block-cyclic distribution

Numbered items are dealt out to lanes in blocks of `block` items, lane after lane and then from
the first lane again.  `laneOf` is the lane of an item, `laneCount` counts the items of a lane
among the first `total`, and `itemAt` finds the item at a position of its lane.
-/

namespace Lib

namespace BlockCyclic

/-- The lane of an item. -/
def laneOf (block lanes item : Nat) : Nat := item / block % lanes

/-- How many of the first `total` items a lane has: its blocks of whole rounds and what it has of
the last one. -/
def laneCount (block lanes total lane : Nat) : Nat :=
  total / (block * lanes) * block + min (total % (block * lanes) - block * lane) block

/-- The item at a position of a lane. -/
def itemAt (block lanes lane pos : Nat) : Nat :=
  pos / block * (block * lanes) + block * lane + pos % block

variable {block lanes lane : Nat}

/-- The lane of an item is its block within the round. -/
theorem laneOf_eq (block lanes item : Nat) :
    laneOf block lanes item = item % (block * lanes) / block := by
  rw [laneOf, Nat.mod_mul_right_div_self]

/-- The count in terms of the rounds done and the place in the round. -/
theorem laneCount_of_round (lane rounds : Nat) {place : Nat} (hplace : place < block * lanes) :
    laneCount block lanes (block * lanes * rounds + place) lane =
      rounds * block + min (place - block * lane) block := by
  have hpos : 0 < block * lanes := Nat.lt_of_le_of_lt (Nat.zero_le place) hplace
  rw [laneCount, Nat.mul_add_div hpos, Nat.mul_add_mod, Nat.div_eq_of_lt hplace,
    Nat.mod_eq_of_lt hplace, Nat.add_zero]

/-- After the last item of a round the next one starts. -/
theorem laneCount_round (lane : Nat) (hpos : 0 < block * lanes) (rounds : Nat) :
    laneCount block lanes (block * lanes * rounds) lane = rounds * block := by
  have h := laneCount_of_round lane rounds hpos
  rwa [Nat.add_zero, Nat.zero_sub, Nat.zero_min, Nat.add_zero] at h

/-- The next item goes to the lane, or the lane stays as it is. -/
theorem laneCount_succ (hblock : 0 < block) (hlane : lane < lanes) (total : Nat) :
    if laneOf block lanes total = lane then
      laneCount block lanes (total + 1) lane = laneCount block lanes total lane + 1 ∧
        itemAt block lanes lane (laneCount block lanes total lane) = total
    else laneCount block lanes (total + 1) lane = laneCount block lanes total lane := by
  have hpos : 0 < block * lanes := Nat.mul_pos hblock (Nat.lt_of_le_of_lt (Nat.zero_le _) hlane)
  have hplace : total % (block * lanes) < block * lanes := Nat.mod_lt _ hpos
  have htotal := Nat.div_add_mod total (block * lanes)
  rw [laneOf_eq]
  generalize total / (block * lanes) = rounds at htotal
  generalize total % (block * lanes) = place at hplace htotal
  have hsplit := Nat.div_add_mod place block
  have hoffset : place % block < block := Nat.mod_lt _ hblock
  have hend : block * lane + block ≤ block * lanes := Nat.mul_le_mul_left block hlane
  have hcount := laneCount_of_round lane rounds hplace
  rw [htotal] at hcount
  -- The item after this one, in this round or the first of the next.
  have hnext : laneCount block lanes (total + 1) lane =
      if place + 1 = block * lanes then rounds * block + block
      else rounds * block + min (place + 1 - block * lane) block := by
    split
    next hlast =>
      rw [← htotal, Nat.add_assoc, hlast, ← Nat.mul_succ, laneCount_round lane hpos, Nat.succ_mul]
    next hmore =>
      rw [← htotal, Nat.add_assoc, laneCount_of_round lane rounds (by omega)]
  rw [hnext, hcount]
  split
  next heq =>
    rw [heq] at hsplit
    have hmin : min (place - block * lane) block = place % block := by omega
    rw [hmin]
    constructor
    · split <;> omega
    · have hdiv : (rounds * block + place % block) / block = rounds := by
        rw [Nat.mul_comm, Nat.mul_add_div hblock, Nat.div_eq_of_lt hoffset, Nat.add_zero]
      have hmod : (rounds * block + place % block) % block = place % block := by
        rw [Nat.mul_comm, Nat.mul_add_mod, Nat.mod_mod]
      rw [itemAt, hdiv, hmod, Nat.mul_comm rounds]
      omega
  next hne =>
    rcases Nat.lt_or_gt_of_ne hne with hbefore | hafter
    · have : block * (place / block) + block ≤ block * lane := Nat.mul_le_mul_left block hbefore
      split <;> omega
    · have : block * lane + block ≤ block * (place / block) := Nat.mul_le_mul_left block hafter
      split <;> omega

/-- The items of a lane, in order. -/
theorem filter_laneOf (hblock : 0 < block) (hlane : lane < lanes) (total : Nat) :
    (List.range total).filter (fun item => laneOf block lanes item = lane) =
      (List.range (laneCount block lanes total lane)).map (itemAt block lanes lane) := by
  induction total with
  | zero => simp [laneCount]
  | succ total ih =>
      have hsucc := laneCount_succ hblock hlane total
      rw [List.range_succ, List.filter_append, ih]
      split at hsucc
      next heq =>
        rw [hsucc.1, List.range_succ, List.map_append, List.map_singleton, hsucc.2]
        simp [heq]
      next hne =>
        rw [hsucc]
        simp [hne]

theorem itemAt_lt (hblock : 0 < block) (hlane : lane < lanes) {total pos : Nat}
    (hpos : pos < laneCount block lanes total lane) : itemAt block lanes lane pos < total := by
  have hmem : itemAt block lanes lane pos ∈
      (List.range (laneCount block lanes total lane)).map (itemAt block lanes lane) :=
    List.mem_map_of_mem (List.mem_range.mpr hpos)
  rw [← filter_laneOf hblock hlane total] at hmem
  exact List.mem_range.mp (List.mem_of_mem_filter hmem)

/-- How far apart two items of a lane are. -/
theorem itemAt_add {pos pos' : Nat} (hle : pos ≤ pos') :
    itemAt block lanes lane pos + ((pos' / block - pos / block) * (block * lanes) + pos' % block) =
      itemAt block lanes lane pos' + pos % block := by
  obtain ⟨d, hd⟩ := Nat.exists_eq_add_of_le (Nat.div_le_div_right (c := block) hle)
  rw [itemAt, itemAt, hd, Nat.add_sub_cancel_left, Nat.add_mul]
  omega

theorem itemAt_le (hblock : 0 < block) (hlanes : 0 < lanes) {pos pos' : Nat} (hle : pos ≤ pos') :
    itemAt block lanes lane pos ≤ itemAt block lanes lane pos' := by
  have hadd := @itemAt_add block lanes lane pos pos' hle
  have hlt : pos % block < block := Nat.mod_lt _ hblock
  have hround : block ≤ block * lanes := Nat.le_mul_of_pos_right block hlanes
  obtain ⟨d, hd⟩ := Nat.exists_eq_add_of_le (Nat.div_le_div_right (c := block) hle)
  rw [hd, Nat.add_sub_cancel_left] at hadd
  rcases Nat.eq_zero_or_pos d with rfl | hd'
  · have h₁ := Nat.div_add_mod pos block
    have h₂ := Nat.div_add_mod pos' block
    rw [hd, Nat.add_zero] at h₂
    omega
  · have := Nat.le_mul_of_pos_left (block * lanes) hd'
    omega

/-- One lane has all the items. -/
theorem itemAt_one (pos : Nat) : itemAt block 1 0 pos = pos := by
  rw [itemAt, Nat.mul_one, Nat.mul_zero, Nat.add_zero, Nat.div_add_mod']

end BlockCyclic

end Lib
