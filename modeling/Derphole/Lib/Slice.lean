import Mathlib.Data.List.Basic

/-!
# Slices of a byte stream

A transport cuts a source into pieces and puts them together again.  The one
relation all of it rests on is *`p` stands in `S` at offset `o`*.  Everything
here is stated for lists over an arbitrary type.
-/

namespace Lib

variable {α : Type*}

/-- `p` stands in `S` at offset `o`. -/
def SliceAt (S : List α) (o : Nat) (p : List α) : Prop :=
  o ≤ S.length ∧ p <+: S.drop o

instance [DecidableEq α] (S : List α) (o : Nat) (p : List α) : Decidable (SliceAt S o p) :=
  inferInstanceAs (Decidable (_ ∧ _))

namespace SliceAt

variable {S p : List α} {o : Nat}

theorem end_le (h : SliceAt S o p) : o + p.length ≤ S.length := by
  have hl := h.2.length_le
  rw [List.length_drop] at hl
  have := h.1
  omega

theorem eq_take (h : SliceAt S o p) : p = (S.drop o).take p.length :=
  List.prefix_iff_eq_take.mp h.2

/-- A slice at the end of a prefix extends it. -/
theorem take_append (h : SliceAt S o p) : S.take o ++ p = S.take (o + p.length) := by
  rw [List.take_add, ← h.eq_take]

theorem take (h : SliceAt S o p) (k : Nat) : SliceAt S o (p.take k) :=
  ⟨h.1, (List.take_prefix k p).trans h.2⟩

theorem drop (h : SliceAt S o p) {k : Nat} (hk : k ≤ p.length) :
    SliceAt S (o + k) (p.drop k) := by
  have hend := h.end_le
  refine ⟨by omega, ?_⟩
  obtain ⟨t, ht⟩ := h.2
  refine ⟨t, ?_⟩
  rw [← List.drop_drop, ← ht, List.drop_append_of_le_length hk]

/-- Whatever is read from `S` at `o` stands there. -/
theorem of_read (S : List α) {o : Nat} (h : o ≤ S.length) (n : Nat) :
    SliceAt S o ((S.drop o).take n) :=
  ⟨h, List.take_prefix n _⟩

theorem getElem? (h : SliceAt S o p) {i : Nat} (hi : i < p.length) : S[o + i]? = p[i]? := by
  obtain ⟨t, ht⟩ := h.2
  rw [← List.getElem?_drop, ← ht, List.getElem?_append_left hi]

/-- What stands in a list stands in every longer one. -/
theorem mono {T : List α} (h : SliceAt S o p) (hST : S <+: T) : SliceAt T o p := by
  refine ⟨Nat.le_trans h.1 hST.length_le, h.2.trans ?_⟩
  obtain ⟨rest, rfl⟩ := hST
  rw [List.drop_append_of_le_length h.1]
  exact List.prefix_append _ _

/-- What ends before `n` stands in the first `n`. -/
theorem in_take {n : Nat} (h : SliceAt S o p) (hn : o + p.length ≤ n) : SliceAt (S.take n) o p := by
  have hend := h.end_le
  refine ⟨by rw [List.length_take]; omega, ?_⟩
  rw [List.drop_take, List.prefix_take_iff]
  exact ⟨h.2, by omega⟩

end SliceAt

/-- The prefix of length `o` followed by a slice at `o` is a prefix. -/
theorem take_append_prefix {S p : List α} {o : Nat} (h : SliceAt S o p) :
    S.take o ++ p <+: S := by
  rw [h.take_append]
  exact List.take_prefix _ _

end Lib
