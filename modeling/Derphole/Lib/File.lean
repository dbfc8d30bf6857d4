import Derphole.Lib.Pieces

/-!
# Random-access files

A file is its contents.  `writeAt` fills a gap before the written range with
zeros, as a sparse file reads, and `readAt` stops at the end of the file.
`HoldsAt f S o n` says that the file agrees with the stream `S` on the range
`[o, o + n)`.  Writing a slice of `S` at its own offset never destroys such an
agreement, so pieces of one stream can share a file without a lock on ranges.
-/

namespace Lib

/-- The contents of a file. -/
abbrev File := List UInt8

namespace File

/-- Overwrite the range starting at `o`, growing the file when needed. -/
def writeAt (f : File) (o : Nat) (p : List UInt8) : File :=
  (f ++ List.replicate (o - f.length) 0).take o ++ p ++ f.drop (o + p.length)

/-- At most `n` bytes from `o` on. -/
def readAt (f : File) (o n : Nat) : List UInt8 := (f.drop o).take n

/-- The file agrees with `S` on `[o, o + n)`, and `S` reaches that far. -/
def HoldsAt (f : File) (S : List UInt8) (o n : Nat) : Prop :=
  o + n ≤ S.length ∧ ∀ i, o ≤ i → i < o + n → f[i]? = S[i]?

theorem length_pad (f : File) (o : Nat) :
    ((f ++ List.replicate (o - f.length) 0).take o).length = o := by
  simp only [List.length_take, List.length_append, List.length_replicate]
  omega

/-- A written byte is read back. -/
theorem getElem?_writeAt_mem (f : File) {o i : Nat} (p : List UInt8) (ho : o ≤ i)
    (hi : i < o + p.length) : (f.writeAt o p)[i]? = p[i - o]? := by
  have hl := length_pad f o
  rw [writeAt, List.getElem?_append_left (by rw [List.length_append, hl]; omega),
    List.getElem?_append_right (by rw [hl]; exact ho), hl]

/-- A byte of the file outside the written range is unchanged. -/
theorem getElem?_writeAt_of_lt (f : File) {o i : Nat} (p : List UInt8) (hf : i < f.length)
    (hi : i < o ∨ o + p.length ≤ i) : (f.writeAt o p)[i]? = f[i]? := by
  have hl := length_pad f o
  rcases hi with hi | hi
  · rw [writeAt, List.append_assoc, List.getElem?_append_left (by rw [hl]; exact hi),
      List.getElem?_take_of_lt hi, List.getElem?_append_left hf]
  · have hlen : ((f ++ List.replicate (o - f.length) 0).take o ++ p).length = o + p.length := by
      rw [List.length_append, hl]
    rw [writeAt, List.getElem?_append_right (by rw [hlen]; exact hi), hlen, List.getElem?_drop]
    congr 1
    omega

/-- A write grows the file to its end. -/
theorem length_writeAt_eq (f : File) (o : Nat) (p : List UInt8) :
    (f.writeAt o p).length = max f.length (o + p.length) := by
  rw [writeAt, List.length_append, List.length_append, length_pad, List.length_drop]
  omega

theorem length_writeAt (f : File) {o : Nat} {p : List UInt8} (h : o + p.length ≤ f.length) :
    (f.writeAt o p).length = f.length := by
  rw [length_writeAt_eq, Nat.max_eq_left h]

theorem length_readAt (f : File) {a n : Nat} (h : a + n ≤ f.length) : (f.readAt a n).length = n := by
  rw [readAt, List.length_take, List.length_drop]
  omega

/-- What was written is read back. -/
theorem readAt_writeAt (f : File) (o : Nat) (p : List UInt8) : (f.writeAt o p).readAt o p.length = p := by
  rw [readAt, writeAt, List.append_assoc, List.drop_left' (length_pad f o), List.take_left]

/-- A range of the file that the written one does not touch reads as before. -/
theorem readAt_writeAt_of_disjoint (f : File) {o a n : Nat} {p : List UInt8} (hf : a + n ≤ f.length)
    (h : a + n ≤ o ∨ o + p.length ≤ a) : (f.writeAt o p).readAt a n = f.readAt a n := by
  apply List.ext_getElem?
  intro i
  by_cases hi : i < n
  · rw [readAt, readAt, List.getElem?_take_of_lt hi, List.getElem?_take_of_lt hi, List.getElem?_drop,
      List.getElem?_drop, getElem?_writeAt_of_lt f p (by omega) (by omega)]
  · rw [readAt, readAt, List.getElem?_eq_none (by simp; omega), List.getElem?_eq_none (by simp; omega)]

/-- Two payloads have the same bytes where their ranges overlap. -/
def Agree (a : Nat) (p : List UInt8) (o : Nat) (q : List UInt8) : Prop :=
  ∀ i < p.length, ∀ j < q.length, a + i = o + j → p[i]? = q[j]?

instance (a : Nat) (p : List UInt8) (o : Nat) (q : List UInt8) : Decidable (Agree a p o q) :=
  inferInstanceAs (Decidable (∀ i < p.length, ∀ j < q.length, a + i = o + j → p[i]? = q[j]?))

/-- A payload in the file survives the write of one that agrees with it. -/
theorem readAt_writeAt_of_agree {f : File} {a o : Nat} {p q : List UInt8}
    (hf : a + p.length ≤ f.length) (hp : f.readAt a p.length = p) (h : Agree a p o q) :
    (f.writeAt o q).readAt a p.length = p := by
  apply List.ext_getElem?
  intro i
  by_cases hi : i < p.length
  · rw [readAt, List.getElem?_take_of_lt hi, List.getElem?_drop]
    by_cases hin : o ≤ a + i ∧ a + i < o + q.length
    · rw [getElem?_writeAt_mem f q hin.1 hin.2]
      exact (h i hi (a + i - o) (by omega) (by omega)).symm
    · rw [getElem?_writeAt_of_lt f q (by omega) (by omega), ← List.getElem?_drop,
        ← List.getElem?_take_of_lt hi]
      exact congrArg (fun l : List UInt8 => l[i]?) hp
  · rw [List.getElem?_eq_none (by simp [readAt]; omega), List.getElem?_eq_none (by omega)]

/-- Writing on where the last write ended. -/
theorem writeAt_writeAt_end (f : File) (o : Nat) (p q : List UInt8) :
    (f.writeAt o p).writeAt (o + p.length) q = f.writeAt o (p ++ q) := by
  have hlen : ((f ++ List.replicate (o - f.length) 0).take o ++ p).length = o + p.length := by
    rw [List.length_append, length_pad]
  have htake : (f.writeAt o p ++ List.replicate (o + p.length - (f.writeAt o p).length) 0).take
      (o + p.length) = (f ++ List.replicate (o - f.length) 0).take o ++ p := by
    rw [writeAt, List.append_assoc _ (f.drop _), List.take_left' hlen]
  have hdrop : (f.writeAt o p).drop (o + p.length + q.length) = f.drop (o + (p ++ q).length) := by
    rw [writeAt, List.drop_append, List.drop_eq_nil_of_le (by rw [hlen]; omega), List.nil_append, hlen,
      List.drop_drop, List.length_append]
    congr 1
    omega
  rw [writeAt, htake, hdrop, writeAt, List.append_assoc _ p q]

namespace HoldsAt

variable {f : File} {S p : List UInt8} {o a n : Nat}

/-- Inside an agreed range the file has a byte. -/
theorem lt_length (h : HoldsAt f S a n) {i : Nat} (ha : a ≤ i) (hi : i < a + n) :
    i < f.length := by
  have hS : i < S.length := by have := h.1; omega
  have he := h.2 i ha hi
  by_contra hc
  rw [List.getElem?_eq_none (by omega), List.getElem?_eq_getElem hS] at he
  cases he

/-- Writing a slice of `S` where it stands makes the file agree there. -/
theorem of_writeAt (f : File) (h : SliceAt S o p) : HoldsAt (f.writeAt o p) S o p.length := by
  refine ⟨h.end_le, ?_⟩
  intro i hi hi'
  rw [getElem?_writeAt_mem f p hi hi', ← h.getElem? (by omega : i - o < p.length)]
  congr 1
  omega

/-- Writing a slice of `S` where it stands keeps every other agreement. -/
theorem writeAt (h : HoldsAt f S a n) (hp : SliceAt S o p) :
    HoldsAt (f.writeAt o p) S a n := by
  refine ⟨h.1, ?_⟩
  intro i ha hi
  by_cases hin : o ≤ i ∧ i < o + p.length
  · exact (of_writeAt f hp).2 i hin.1 hin.2
  · rw [getElem?_writeAt_of_lt f p (h.lt_length ha hi) (by omega)]
    exact h.2 i ha hi

/-- Reading an agreed range gives the bytes of `S`. -/
theorem readAt_eq (h : HoldsAt f S o n) : f.readAt o n = (S.drop o).take n := by
  apply List.ext_getElem?
  intro i
  by_cases hi : i < n
  · rw [readAt, List.getElem?_take_of_lt hi, List.getElem?_take_of_lt hi, List.getElem?_drop,
      List.getElem?_drop]
    exact h.2 (o + i) (by omega) (by omega)
  · rw [readAt, List.getElem?_eq_none (by simp; omega), List.getElem?_eq_none (by simp; omega)]

theorem sliceAt_readAt (h : HoldsAt f S o n) : SliceAt S o (f.readAt o n) := by
  rw [h.readAt_eq]
  exact SliceAt.of_read S (by have := h.1; omega) n

theorem length_readAt (h : HoldsAt f S o n) : (f.readAt o n).length = n := by
  rw [h.readAt_eq, List.length_take, List.length_drop]
  have := h.1
  omega

/-- Two agreed ranges that meet make one agreed range. -/
theorem append {m : Nat} (h : HoldsAt f S o n) (h' : HoldsAt f S (o + n) m) :
    HoldsAt f S o (n + m) := by
  refine ⟨by have := h'.1; omega, ?_⟩
  intro i hi hi'
  by_cases hc : i < o + n
  · exact h.2 i hi hc
  · exact h'.2 i (by omega) (by omega)

/-- A file that holds the first pieces of a stream holds what they make up. -/
theorem of_pieces {ps : List (List UInt8)} {k : Nat} (hk : k ≤ ps.length)
    (h : ∀ i < k, HoldsAt f ps.flatten (offsetAt ps i) (ps.getD i []).length) :
    HoldsAt f ps.flatten 0 (offsetAt ps k) := by
  induction k with
  | zero =>
      refine ⟨Nat.zero_le _, ?_⟩
      intro i _ hi
      simp at hi
  | succ k ih =>
      rw [offsetAt_succ hk]
      apply append (ih (by omega) fun i hi => h i (by omega))
      rw [Nat.zero_add]
      exact h k (Nat.lt_succ_self k)

/-- An agreed range can be narrowed. -/
theorem mono {b m : Nat} (h : HoldsAt f S o n) (hb : o ≤ b) (hm : b + m ≤ o + n) :
    HoldsAt f S b m :=
  ⟨by have := h.1; omega, fun i hi hi' => h.2 i (by omega) (by omega)⟩

end HoldsAt

end File

end Lib
