import Mathlib.Algebra.Ring.Nat
import Mathlib.Data.List.AList
import Mathlib.Data.List.GetD

/-!
# Sequence sets

`blastSeqSet` of `pkg/probe/session.go`: a bitmap of 64-bit words, dense for
small sequence numbers and a map of words beyond.  The two parts never hold the
same word: the dense part stays below `maxDenseWords`, and the sparse part starts
there.  `has_add` and `add_snd` say that this is a set of numbers.
-/

namespace Probe

/-- `blastSeqSetMaxDenseWords`. -/
def maxDenseWords : Nat := 2 ^ 20

structure SeqSet where
  dense : List Nat
  sparse : AList fun _ : Nat => Nat
  count : Nat
  dense_le : dense.length ≤ maxDenseWords
  sparse_ge : ∀ word ∈ sparse, maxDenseWords ≤ word

namespace SeqSet

def empty : SeqSet where
  dense := []
  sparse := ∅
  count := 0
  dense_le := Nat.zero_le _
  sparse_ge := by simp

instance : Inhabited SeqSet := ⟨empty⟩

/-- The dense words, grown to hold `word`. -/
def grown (s : SeqSet) (word : Nat) : List Nat :=
  s.dense ++ List.replicate (word + 1 - s.dense.length) 0

theorem length_grown (s : SeqSet) (word : Nat) :
    (s.grown word).length = max s.dense.length (word + 1) := by
  simp only [grown, List.length_append, List.length_replicate]
  omega

/-- Set a bit of a word. -/
def withBit (w bit : Nat) : Nat := w ||| 2 ^ bit

theorem testBit_withBit (w bit i : Nat) :
    (withBit w bit).testBit i = (w.testBit i || decide (bit = i)) := by
  rw [withBit, Nat.testBit_or, Nat.testBit_two_pow]

def addDense (s : SeqSet) (word bit : Nat) (h : word < maxDenseWords) : SeqSet where
  dense := (s.grown word).set word (withBit ((s.grown word).getD word 0) bit)
  sparse := s.sparse
  count := s.count + 1
  dense_le := by
    have := s.dense_le
    rw [List.length_set, length_grown]
    omega
  sparse_ge := s.sparse_ge

def addSparse (s : SeqSet) (word bit : Nat) (h : ¬word < maxDenseWords) : SeqSet where
  dense := s.dense
  sparse := s.sparse.insert word (withBit ((s.sparse.lookup word).getD 0) bit)
  count := s.count + 1
  dense_le := s.dense_le
  sparse_ge := by
    intro w hw
    rcases (AList.mem_insert _).mp hw with rfl | hw
    · exact Nat.le_of_not_lt h
    · exact s.sparse_ge w hw

/-- The set with `seq` in it, and whether `seq` was new. -/
def add (s : SeqSet) (seq : Nat) : SeqSet × Bool :=
  if h : seq / 64 < maxDenseWords then
    if ((s.grown (seq / 64)).getD (seq / 64) 0).testBit (seq % 64) then (s, false)
    else (s.addDense (seq / 64) (seq % 64) h, true)
  else if ((s.sparse.lookup (seq / 64)).getD 0).testBit (seq % 64) then (s, false)
  else (s.addSparse (seq / 64) (seq % 64) h, true)

def has (s : SeqSet) (seq : Nat) : Bool :=
  if seq / 64 < s.dense.length then (s.dense.getD (seq / 64) 0).testBit (seq % 64)
  else ((s.sparse.lookup (seq / 64)).getD 0).testBit (seq % 64)

def len (s : SeqSet) : Nat := s.count

/-! ## A set of numbers -/

theorem has_empty (q : Nat) : empty.has q = false := by
  simp [has, empty]

theorem lookup_sparse_of_lt (s : SeqSet) {word : Nat} (h : word < maxDenseWords) :
    s.sparse.lookup word = none := by
  rw [AList.lookup_eq_none]
  intro hw
  have := s.sparse_ge word hw
  omega

theorem getD_grown (s : SeqSet) (word w : Nat) :
    (s.grown word).getD w 0 = s.dense.getD w 0 := by
  rw [grown]
  by_cases h : w < s.dense.length
  · rw [List.getD_append _ _ _ _ h]
  · rw [List.getD_append_right _ _ _ _ (Nat.le_of_not_lt h),
      List.getD_eq_default s.dense _ (Nat.le_of_not_lt h), List.getD_eq_getElem?_getD,
      List.getElem?_replicate]
    split <;> rfl

/-- The dense part alone decides membership of small numbers. -/
theorem has_of_lt (s : SeqSet) {seq : Nat} (h : seq / 64 < maxDenseWords) :
    s.has seq = (s.dense.getD (seq / 64) 0).testBit (seq % 64) := by
  rw [has]
  split
  · rfl
  · rename_i hd
    rw [s.lookup_sparse_of_lt h, List.getD_eq_default _ _ (Nat.le_of_not_lt hd)]
    rfl

theorem has_of_ge (s : SeqSet) {seq : Nat} (h : ¬seq / 64 < maxDenseWords) :
    s.has seq = ((s.sparse.lookup (seq / 64)).getD 0).testBit (seq % 64) := by
  have := s.dense_le
  rw [has, if_neg (by omega)]

/-- A number is its word and its bit. -/
theorem word_bit_inj {q r : Nat} (hw : q / 64 = r / 64) (hb : q % 64 = r % 64) : q = r := by
  omega

theorem has_addDense (s : SeqSet) (q r : Nat) (h : q / 64 < maxDenseWords) :
    (s.addDense (q / 64) (q % 64) h).has r = (s.has r || decide (q = r)) := by
  by_cases hr : r / 64 < maxDenseWords
  · have hlen : q / 64 < (s.grown (q / 64)).length := by
      rw [length_grown]
      omega
    rw [has_of_lt _ hr, has_of_lt s hr, addDense, List.getD_eq_getElem?_getD, List.getElem?_set]
    by_cases hw : q / 64 = r / 64
    · rw [if_pos hw, if_pos (hw ▸ hlen), Option.getD_some, testBit_withBit, getD_grown, hw]
      congr 1
      simp only [decide_eq_decide]
      exact ⟨fun hb => word_bit_inj hw hb, fun hq => by rw [hq]⟩
    · rw [if_neg hw, ← List.getD_eq_getElem?_getD, getD_grown]
      have : q ≠ r := fun hq => hw (by rw [hq])
      simp [this]
  · rw [has_of_ge _ hr, has_of_ge s hr]
    have : q ≠ r := fun hq => hr (hq ▸ h)
    simp [addDense, this]

theorem has_addSparse (s : SeqSet) (q r : Nat) (h : ¬q / 64 < maxDenseWords) :
    (s.addSparse (q / 64) (q % 64) h).has r = (s.has r || decide (q = r)) := by
  by_cases hr : r / 64 < maxDenseWords
  · rw [has_of_lt _ hr, has_of_lt s hr]
    have : q ≠ r := fun hq => h (hq ▸ hr)
    simp [addSparse, this]
  · rw [has_of_ge _ hr, has_of_ge s hr, addSparse]
    by_cases hw : r / 64 = q / 64
    · rw [hw, AList.lookup_insert, Option.getD_some, testBit_withBit]
      congr 1
      simp only [decide_eq_decide]
      exact ⟨fun hb => word_bit_inj hw.symm hb, fun hq => by rw [hq]⟩
    · rw [AList.lookup_insert_ne hw]
      have : q ≠ r := fun hq => hw (by rw [hq])
      simp [this]

/-- Exactly `q` is added. -/
theorem has_add (s : SeqSet) (q r : Nat) : (s.add q).1.has r = (s.has r || decide (q = r)) := by
  rw [add]
  split
  · rename_i h
    split
    · rename_i hbit
      rw [getD_grown, ← has_of_lt s h] at hbit
      by_cases hq : q = r
      · rw [← hq, hbit]
        rfl
      · simp [hq]
    · exact has_addDense s q r h
  · rename_i h
    split
    · rename_i hbit
      rw [← has_of_ge s h] at hbit
      by_cases hq : q = r
      · rw [← hq, hbit]
        rfl
      · simp [hq]
    · exact has_addSparse s q r h

/-- The number was new exactly when it was not in the set. -/
theorem add_snd (s : SeqSet) (q : Nat) : (s.add q).2 = !s.has q := by
  rw [add]
  split
  · rename_i h
    rw [getD_grown, has_of_lt s h]
    split
    · rename_i hbit
      rw [hbit]
      rfl
    · rename_i hbit
      rw [Bool.not_eq_true] at hbit
      rw [hbit]
      rfl
  · rename_i h
    rw [has_of_ge s h]
    split
    · rename_i hbit
      rw [hbit]
      rfl
    · rename_i hbit
      rw [Bool.not_eq_true] at hbit
      rw [hbit]
      rfl

/-- `len` counts the numbers that were new. -/
theorem len_add (s : SeqSet) (q : Nat) :
    (s.add q).1.len = s.len + if (s.add q).2 then 1 else 0 := by
  rw [add]
  split
  · split
    · rfl
    · rfl
  · split
    · rfl
    · rfl

/-- All numbers of the set are below `n`, and `len` counts them. -/
structure Below (n : Nat) (s : SeqSet) : Prop where
  lt : ∀ i, s.has i = true → i < n
  len : s.len = (List.range n).countP s.has

namespace Below

variable {n : Nat} {s : SeqSet}

theorem empty : Below n empty where
  lt := fun i h => by
    rw [has_empty] at h
    cases h
  len := by
    rw [List.countP_eq_zero.mpr fun i _ => by simp [has_empty]]
    rfl

/-- One more number is counted once. -/
theorem countP_add {q : Nat} (hq : q < n) (hnew : s.has q = false) :
    (List.range n).countP (s.add q).1.has = (List.range n).countP s.has + 1 := by
  induction n with
  | zero => omega
  | succ n ih =>
      rw [List.range_succ, List.countP_append, List.countP_append, List.countP_singleton,
        List.countP_singleton, has_add]
      rcases Nat.lt_or_ge q n with hlt | hge
      · have hne : q ≠ n := Nat.ne_of_lt hlt
        rw [ih hlt]
        simp only [hne, decide_false, Bool.or_false]
        omega
      · have heq : q = n := by omega
        have hsame : (List.range n).countP (s.add q).1.has = (List.range n).countP s.has := by
          refine List.countP_congr fun i hi => ?_
          have : q ≠ i := by
            have := List.mem_range.mp hi
            omega
          simp [has_add, this]
        rw [hsame, ← heq, hnew]
        simp

theorem add (h : Below n s) {q : Nat} (hq : q < n) : Below n (s.add q).1 where
  lt := fun i hi => by
    rw [has_add, Bool.or_eq_true, decide_eq_true_eq] at hi
    rcases hi with hi | rfl
    · exact h.lt i hi
    · exact hq
  len := by
    rw [len_add, add_snd]
    cases hold : s.has q with
    | true =>
      have hsame : (s.add q).1.has = s.has := by
        funext i
        rw [has_add]
        by_cases hi : q = i
        · simp [← hi, hold]
        · simp [hi]
      rw [hsame]
      exact h.len
    | false =>
      rw [countP_add hq hold, ← h.len]
      rfl

/-- A higher bound counts the same numbers. -/
theorem mono (h : Below n s) {m : Nat} (hle : n ≤ m) : Below m s where
  lt := fun i hi => Nat.lt_of_lt_of_le (h.lt i hi) hle
  len := by
    induction hle with
    | refl => exact h.len
    | @step k hk ih =>
        have hnone : s.has k = false := by
          rw [Bool.eq_false_iff]
          intro hhas
          have := h.lt k hhas
          have : n ≤ k := hk
          omega
        rw [List.range_succ, List.countP_append, List.countP_singleton, hnone, ih]
        simp

/-- A set with `n` numbers below `n` has them all. -/
theorem full (h : Below n s) (hlen : n ≤ s.len) {i : Nat} (hi : i < n) : s.has i = true := by
  have hle := List.countP_le_length (p := s.has) (l := List.range n)
  rw [List.length_range] at hle
  have heq : (List.range n).countP s.has = (List.range n).length := by
    rw [List.length_range, ← h.len]
    have := h.len
    omega
  exact List.countP_eq_length.mp heq i (List.mem_range.mpr hi)

theorem le_len (h : Below n s) (hall : ∀ i < n, s.has i = true) : n ≤ s.len := by
  rw [h.len, List.countP_eq_length.mpr fun i hi => hall i (List.mem_range.mp hi), List.length_range]

end Below

end SeqSet

end Probe
