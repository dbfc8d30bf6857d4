import Derphole.Lib.Object
import Derphole.Probe.SeqSet
import Mathlib.Data.Finset.Card

/-!
# The sequence set is a set

`blastSeqSet` of `pkg/probe/session.go` against a finite set of 64-bit numbers: callers that add
numbers, ask for them and ask for their count in any order get the same answers from both.

The count of the source is a `uint64`.  It is exact as long as one 64-bit number is missing from the
set, since the set has no others.
-/

namespace Probe

open Lib

/-- A call of one of the methods of `blastSeqSet`. -/
inductive SeqCall where
  | add (seq : UInt64)
  | has (seq : UInt64)
  | len
  deriving DecidableEq

inductive SeqAnswer where
  | bool (b : Bool)
  | count (n : Nat)
  deriving DecidableEq

def SeqSet.call (s : SeqSet) : SeqCall → SeqSet × SeqAnswer
  | .add seq => ((s.add seq.toNat).1, .bool (s.add seq.toNat).2)
  | .has seq => (s, .bool (s.has seq.toNat))
  | .len => (s, .count s.len)

/-- The same calls of a finite set. -/
def finsetCall (t : Finset UInt64) : SeqCall → Finset UInt64 × SeqAnswer
  | .add seq => (insert seq t, .bool (decide (seq ∉ t)))
  | .has seq => (t, .bool (decide (seq ∈ t)))
  | .len => (t, .count t.card)

/-- The bitmap and the map hold the numbers of `t`, and they are counted. -/
structure SeqSet.Holds (s : SeqSet) (t : Finset UInt64) : Prop where
  has : ∀ seq : UInt64, s.has seq.toNat = decide (seq ∈ t)
  len : s.len = t.card

namespace SeqSet.Holds

variable {s : SeqSet} {t : Finset UInt64}

theorem empty : Holds SeqSet.empty ∅ where
  has := fun seq => by rw [has_empty, decide_eq_false (Finset.notMem_empty seq)]
  len := rfl

theorem add_snd (h : s.Holds t) (seq : UInt64) : (s.add seq.toNat).2 = decide (seq ∉ t) := by
  rw [SeqSet.add_snd, h.has, decide_not]

theorem add (h : s.Holds t) (seq : UInt64) : (s.add seq.toNat).1.Holds (insert seq t) where
  has := by
    intro q
    rw [has_add, h.has, ← Bool.decide_or, decide_eq_decide, Finset.mem_insert, UInt64.toNat_inj]
    exact or_comm.trans (or_congr_left eq_comm)
  len := by
    rw [len_add, h.add_snd, h.len]
    by_cases hmem : seq ∈ t
    · rw [Finset.insert_eq_of_mem hmem, decide_eq_false (not_not.mpr hmem)]
      rfl
    · rw [Finset.card_insert_of_notMem hmem, decide_eq_true hmem]
      rfl

end SeqSet.Holds

theorem SeqSet.simulates_finset : Simulates SeqSet.call finsetCall SeqSet.Holds := by
  intro s t call h
  cases call with
  | add seq => exact ⟨h.add seq, congrArg SeqAnswer.bool (h.add_snd seq)⟩
  | has seq => exact ⟨h, congrArg SeqAnswer.bool (h.has seq)⟩
  | len => exact ⟨h, congrArg SeqAnswer.count h.len⟩

/-- A set of 64-bit numbers has fewer than `2 ^ 64` elements, or all of them. -/
theorem card_lt_or_forall_mem (t : Finset UInt64) : t.card < 2 ^ 64 ∨ ∀ seq, seq ∈ t := by
  have hsub : t.image UInt64.toNat ⊆ Finset.range (2 ^ 64) := by
    intro n hn
    obtain ⟨seq, -, rfl⟩ := Finset.mem_image.mp hn
    exact Finset.mem_range.mpr seq.toNat_lt
  have hcard : (t.image UInt64.toNat).card = t.card :=
    Finset.card_image_of_injective t fun _ _ => UInt64.toNat_inj.mp
  obtain hlt | hge := Nat.lt_or_ge t.card (2 ^ 64)
  · exact .inl hlt
  · right
    have hall : t.image UInt64.toNat = Finset.range (2 ^ 64) := by
      refine Finset.eq_of_subset_of_card_le hsub ?_
      rw [hcard, Finset.card_range]
      exact hge
    intro seq
    have hmem : seq.toNat ∈ t.image UInt64.toNat := hall ▸ Finset.mem_range.mpr seq.toNat_lt
    obtain ⟨q, hq, heq⟩ := Finset.mem_image.mp hmem
    exact UInt64.toNat_inj.mp heq ▸ hq

/-- Any sequence of calls is answered as a finite set answers it, and the count fits 64 bits unless all
64-bit numbers were added. -/
theorem seq_set_refines_finset (calls : List SeqCall) :
    answers SeqSet.call SeqSet.empty calls = answers finsetCall ∅ calls ∧
      ((answered SeqSet.call SeqSet.empty calls).len < 2 ^ 64 ∨
        ∀ seq : UInt64, (answered SeqSet.call SeqSet.empty calls).has seq.toNat = true) := by
  have h := SeqSet.simulates_finset.answered calls SeqSet.Holds.empty
  refine ⟨SeqSet.simulates_finset.answers_eq calls SeqSet.Holds.empty, ?_⟩
  rw [h.len]
  refine (card_lt_or_forall_mem _).imp_right fun hall seq => ?_
  rw [h.has, decide_eq_true (hall seq)]

/-- The last dense number, the first sparse one and the largest of all. -/
example : answers SeqSet.call SeqSet.empty
    [.add 67108863, .add 67108864, .add 18446744073709551615, .add 67108864, .has 67108865, .len] =
      [.bool true, .bool true, .bool true, .bool false, .bool false, .count 3] := by
  rw [SeqSet.simulates_finset.answers_eq _ SeqSet.Holds.empty]
  decide

end Probe
