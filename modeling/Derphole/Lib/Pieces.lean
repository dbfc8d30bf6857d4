import Mathlib.Algebra.BigOperators.Intervals
import Mathlib.Algebra.Order.BigOperators.Group.Finset
import Mathlib.Data.List.Basic
import Mathlib.Data.List.GetD
import Derphole.Lib.Slice

/-!
# A stream cut into pieces

A stream is sent as a list of pieces `ps`.  `offsetAt ps i` is the offset at which
the piece `i` starts, and so the length of what the first `i` pieces carry.
-/

namespace Lib

variable {α : Type}

/-- The stream offset of a piece. -/
def offsetAt (ps : List (List α)) (i : Nat) : Nat := (ps.take i).flatten.length

@[simp] theorem offsetAt_zero (ps : List (List α)) : offsetAt ps 0 = 0 := rfl

theorem offsetAt_length (ps : List (List α)) : offsetAt ps ps.length = ps.flatten.length := by
  rw [offsetAt, List.take_length]

theorem getD_append_of_lt {ps : List (List α)} (qs : List (List α)) {i : Nat}
    (hi : i < ps.length) : (ps ++ qs).getD i [] = ps.getD i [] :=
  List.getD_append _ _ _ _ hi

theorem getD_concat (ps : List (List α)) (p : List α) : (ps ++ [p]).getD ps.length [] = p := by
  rw [List.getD_append_right _ _ _ _ (Nat.le_refl _), Nat.sub_self]
  rfl

theorem offsetAt_append {ps : List (List α)} (qs : List (List α)) {i : Nat}
    (hi : i ≤ ps.length) : offsetAt (ps ++ qs) i = offsetAt ps i := by
  rw [offsetAt, offsetAt, List.take_append_of_le_length hi]

/-- The pieces before the next one. -/
theorem flatten_take_succ {ps : List (List α)} {i : Nat} (hi : i < ps.length) :
    (ps.take (i + 1)).flatten = (ps.take i).flatten ++ ps.getD i [] := by
  rw [List.take_succ_eq_append_getElem hi, List.flatten_append, List.getD_eq_getElem _ _ hi]
  simp

theorem offsetAt_succ {ps : List (List α)} {i : Nat} (hi : i < ps.length) :
    offsetAt ps (i + 1) = offsetAt ps i + (ps.getD i []).length := by
  rw [offsetAt, offsetAt, flatten_take_succ hi, List.length_append]

theorem offsetAt_eq_sum (ps : List (List α)) {n : Nat} (hn : n ≤ ps.length) :
    offsetAt ps n = ∑ i ∈ Finset.range n, (ps.getD i []).length := by
  induction n with
  | zero => simp
  | succ n ih => rw [offsetAt_succ hn, ih (by omega), Finset.sum_range_succ]

/-- A piece stands in the stream at its offset. -/
theorem sliceAt_piece {ps : List (List α)} {i : Nat} (hi : i < ps.length) :
    SliceAt ps.flatten (offsetAt ps i) (ps.getD i []) := by
  have hsplit : ps.flatten = (ps.take i).flatten ++ (ps.getD i [] ++ (ps.drop (i + 1)).flatten) := by
    rw [← List.append_assoc, ← flatten_take_succ hi, ← List.flatten_append, List.take_append_drop]
  rw [hsplit]
  refine ⟨?_, ?_⟩
  · simp [offsetAt]
  · rw [offsetAt, List.drop_left]
    exact List.prefix_append _ _

theorem offsetAt_mono (ps : List (List α)) {i j : Nat} (hij : i ≤ j) (hj : j ≤ ps.length) :
    offsetAt ps i ≤ offsetAt ps j := by
  induction j with
  | zero =>
      have hi : i = 0 := by omega
      exact Nat.le_of_eq (by rw [hi])
  | succ j ih =>
      rcases Nat.lt_or_ge i (j + 1) with hlt | hge
      · have := ih (by omega) (by omega)
        rw [offsetAt_succ (by omega)]
        omega
      · have hi : i = j + 1 := by omega
        exact Nat.le_of_eq (by rw [hi])

/-- Where no piece is empty, offsets are ordered as the pieces are. -/
theorem offsetAt_lt {ps : List (List α)} (hne : ∀ p ∈ ps, p ≠ []) {i j : Nat} (hij : i < j)
    (hj : j ≤ ps.length) : offsetAt ps i < offsetAt ps j := by
  have hi : i < ps.length := by omega
  have hpos : 0 < (ps.getD i []).length := by
    rw [List.getD_eq_getElem _ _ hi]
    exact List.length_pos_iff.mpr (hne _ (List.getElem_mem hi))
  have := offsetAt_mono ps (Nat.succ_le_of_lt hij) hj
  rw [offsetAt_succ hi] at this
  omega

theorem le_of_offsetAt_le {ps : List (List α)} (hne : ∀ p ∈ ps, p ≠ []) {i j : Nat}
    (hi : i ≤ ps.length) (h : offsetAt ps i ≤ offsetAt ps j) : i ≤ j := by
  by_contra hlt
  have := offsetAt_lt hne (Nat.lt_of_not_le hlt) hi
  omega

theorem prefix_flatten {ps qs : List (List α)} (h : ps <+: qs) : ps.flatten <+: qs.flatten := by
  obtain ⟨rest, rfl⟩ := h
  rw [List.flatten_append]
  exact List.prefix_append _ _

/-! ## Some of the pieces

Pieces are numbered from one here, as the frames that carry them. -/

/-- The weight of some numbers is at most that of a set that holds them. -/
theorem sum_map_le_sum {keys : List Nat} (hnodup : keys.Nodup) {s : Finset Nat}
    (hkeys : ∀ k ∈ keys, k ∈ s) (weight : Nat → Nat) :
    (keys.map weight).sum ≤ ∑ k ∈ s, weight k := by
  rw [← List.sum_toFinset weight hnodup]
  apply Finset.sum_le_sum_of_subset
  intro k hk
  exact hkeys k (List.mem_toFinset.mp hk)

theorem sum_Ioc_pieces (ps : List (List α)) {lo hi : Nat} (hle : lo ≤ hi) (hhi : hi ≤ ps.length) :
    ∑ k ∈ Finset.Ioc lo hi, (ps.getD (k - 1) []).length + offsetAt ps lo = offsetAt ps hi := by
  induction hi, hle using Nat.le_induction with
  | base => simp
  | succ hi hle ih =>
      rw [Finset.sum_Ioc_succ_top hle, offsetAt_succ hhi, ← ih (by omega), Nat.add_sub_cancel]
      omega

/-- Different pieces after the first `lo` carry no more than the rest of the stream. -/
theorem sum_pieces_le (ps : List (List α)) {keys : List Nat} (hnodup : keys.Nodup) {lo : Nat}
    (hlo : lo ≤ ps.length) (hkeys : ∀ k ∈ keys, lo < k ∧ k ≤ ps.length) :
    (keys.map fun k => (ps.getD (k - 1) []).length).sum + offsetAt ps lo ≤
      offsetAt ps ps.length := by
  rw [← sum_Ioc_pieces ps hlo (Nat.le_refl _)]
  apply Nat.add_le_add_right
  apply sum_map_le_sum hnodup
  intro k hk
  exact Finset.mem_Ioc.mpr (hkeys k hk)

/-- And there are no more of them than pieces are left. -/
theorem length_pieces_le {keys : List Nat} (hnodup : keys.Nodup) {lo hi : Nat} (hlo : lo ≤ hi)
    (hkeys : ∀ k ∈ keys, lo < k ∧ k ≤ hi) : keys.length + lo ≤ hi := by
  have hsub : keys.toFinset ⊆ Finset.Ioc lo hi := by
    intro k hk
    exact Finset.mem_Ioc.mpr (hkeys k (List.mem_toFinset.mp hk))
  have hcard := Finset.card_le_card hsub
  rw [List.toFinset_card_of_nodup hnodup, Nat.card_Ioc] at hcard
  omega

end Lib
