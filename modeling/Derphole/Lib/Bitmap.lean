import Mathlib.Algebra.Ring.Nat
import Mathlib.Data.List.Basic

/-!
# Bitmaps in bytes

A set of small numbers as the bits of a list of bytes: the number `i` is bit `i % 8` of byte
`i / 8`.
-/

namespace Lib

/-- The bit of `i`. -/
def bitAt (bs : List UInt8) (i : Nat) : Bool := (bs.getD (i / 8) 0).toNat.testBit (i % 8)

/-- `bs[i/8] |= 1 << (i%8)`. -/
def setBit (bs : List UInt8) (i : Nat) : List UInt8 :=
  bs.modify (i / 8) fun b => b ||| (1 <<< UInt8.ofNat (i % 8))

/-- The numbers whose bit is set, byte by byte. -/
def ones (bs : List UInt8) : List Nat :=
  bs.zipIdx.flatMap fun e =>
    ((List.range 8).filter fun bit => e.1.toNat.testBit bit).map fun bit => e.2 * 8 + bit

theorem bitAt_replicate (n i : Nat) : bitAt (List.replicate n 0) i = false := by
  rw [bitAt, List.getD_eq_getElem?_getD, List.getElem?_replicate]
  split <;> exact Nat.zero_testBit _

theorem toNat_or_bit (b : UInt8) {k : Nat} (hk : k < 8) :
    (b ||| (1 <<< UInt8.ofNat k)).toNat = b.toNat ||| 2 ^ k := by
  rw [UInt8.toNat_or, UInt8.toNat_shiftLeft, UInt8.toNat_ofNat', UInt8.toNat_one]
  have hlt : 2 ^ k < 2 ^ 8 := Nat.pow_lt_pow_right (by omega) hk
  rw [Nat.mod_eq_of_lt (show k < 2 ^ 8 by omega), Nat.mod_eq_of_lt hk, Nat.shiftLeft_eq,
    Nat.one_mul, Nat.mod_eq_of_lt hlt]

/-- Setting a bit sets no other. -/
theorem bitAt_setBit {bs : List UInt8} {i j : Nat} (h : bitAt (setBit bs i) j = true) :
    bitAt bs j = true ∨ j = i := by
  rw [bitAt, setBit, List.getD_eq_getElem?_getD, List.getElem?_modify] at h
  cases hb : bs[j / 8]? with
  | none =>
      rw [hb] at h
      exact absurd h (by simp)
  | some b =>
      rw [hb] at h
      have hget : bitAt bs j = b.toNat.testBit (j % 8) := by
        rw [bitAt, List.getD_eq_getElem?_getD, hb]
        rfl
      rw [hget]
      simp only [Option.map_eq_map, Option.map_some, Option.getD_some] at h
      by_cases hij : i / 8 = j / 8
      · rw [if_pos hij, toNat_or_bit b (Nat.mod_lt _ (by omega)), Nat.testBit_or,
          Nat.testBit_two_pow, Bool.or_eq_true, decide_eq_true_eq] at h
        rcases h with h | h
        · exact .inl h
        · exact .inr (by omega)
      · rw [if_neg hij] at h
        exact .inl h

/-- Setting a bit sets it. -/
theorem bitAt_setBit_self {bs : List UInt8} {i : Nat} (h : i / 8 < bs.length) :
    bitAt (setBit bs i) i = true := by
  rw [bitAt, setBit, List.getD_eq_getElem?_getD, List.getElem?_modify, List.getElem?_eq_getElem h]
  simp only [Option.map_eq_map, Option.map_some, Option.getD_some, if_true]
  rw [toNat_or_bit _ (Nat.mod_lt _ (by omega)), Nat.testBit_or, Nat.testBit_two_pow_self,
    Bool.or_true]

/-- Setting a bit unsets no other. -/
theorem bitAt_setBit_of_bitAt {bs : List UInt8} {i j : Nat} (h : bitAt bs j = true) :
    bitAt (setBit bs i) j = true := by
  rw [bitAt, List.getD_eq_getElem?_getD] at h
  rw [bitAt, setBit, List.getD_eq_getElem?_getD, List.getElem?_modify]
  cases hb : bs[j / 8]? with
  | none => simp [hb] at h
  | some b =>
      simp only [hb, Option.getD_some] at h
      simp only [Option.map_eq_map, Option.map_some, Option.getD_some]
      split
      · rw [toNat_or_bit b (Nat.mod_lt _ (by omega)), Nat.testBit_or, h, Bool.true_or]
      · exact h

@[simp] theorem length_setBit (bs : List UInt8) (i : Nat) : (setBit bs i).length = bs.length := by
  rw [setBit, List.length_modify]

theorem mem_ones {bs : List UInt8} {i : Nat} (h : i ∈ ones bs) : bitAt bs i = true := by
  rw [ones, List.mem_flatMap] at h
  obtain ⟨⟨b, n⟩, he, hi⟩ := h
  obtain ⟨bit, hbit, rfl⟩ := List.mem_map.mp hi
  obtain ⟨hlt, hset⟩ := List.mem_filter.mp hbit
  have hlt' : bit < 8 := List.mem_range.mp hlt
  have hget : bs[n]? = some b := by
    have := List.mem_zipIdx_iff_getElem?.mp he
    simpa using this
  have hdiv : (n * 8 + bit) / 8 = n := by omega
  have hmod : (n * 8 + bit) % 8 = bit := by omega
  rw [bitAt, hdiv, hmod, List.getD_eq_getElem?_getD, hget]
  exact hset

theorem mem_ones_of_bitAt {bs : List UInt8} {i : Nat} (h : bitAt bs i = true) : i ∈ ones bs := by
  rw [bitAt, List.getD_eq_getElem?_getD] at h
  cases hb : bs[i / 8]? with
  | none => simp [hb] at h
  | some b =>
      rw [hb] at h
      rw [ones, List.mem_flatMap]
      refine ⟨(b, i / 8), ?_, ?_⟩
      · rw [List.mem_zipIdx_iff_getElem?]
        simpa using hb
      · rw [List.mem_map]
        refine ⟨i % 8, List.mem_filter.mpr ⟨List.mem_range.mpr (Nat.mod_lt _ (by omega)), h⟩, ?_⟩
        show i / 8 * 8 + i % 8 = i
        omega

/-- Setting a bit of a mask sets no other. -/
theorem testBit_or_shiftLeft {mask k delta : Nat} (h : (mask ||| (1 <<< k)).testBit delta = true) :
    mask.testBit delta = true ∨ k = delta := by
  rwa [Nat.testBit_or, Nat.shiftLeft_eq, Nat.one_mul, Nat.testBit_two_pow, Bool.or_eq_true,
    decide_eq_true_eq] at h

end Lib
