import Mathlib.Data.List.Basic
import Mathlib.Data.List.GetD
import Mathlib.Data.List.Nodup

/-!
# Exclusive-or of bytes

`xorInto` is the exclusive-or of two byte strings, the shorter one padded with
zeros.  `xorSum f is` is the exclusive-or of the bytes `f i` over a list of
indices.  Where only one index is missing from the list, its byte is the
difference of two sums (`xorSum_filter_ne`).
-/

namespace Lib

/-- The exclusive-or of two byte strings, the shorter one padded with zeros. -/
def xorInto : List UInt8 → List UInt8 → List UInt8
  | xs, [] => xs
  | [], ys => ys
  | x :: xs, y :: ys => (x ^^^ y) :: xorInto xs ys

theorem xorInto_nil_left (ys : List UInt8) : xorInto [] ys = ys := by
  cases ys <;> rfl

theorem xorInto_nil_right (xs : List UInt8) : xorInto xs [] = xs := by
  cases xs <;> rfl

theorem length_xorInto (xs ys : List UInt8) :
    (xorInto xs ys).length = max xs.length ys.length := by
  induction xs generalizing ys with
  | nil => rw [xorInto_nil_left]; simp
  | cons x xs ih =>
      cases ys with
      | nil => rw [xorInto_nil_right]; simp
      | cons y ys =>
          rw [xorInto, List.length_cons, ih]
          simp only [List.length_cons]
          omega

theorem getD_xorInto (xs ys : List UInt8) (k : Nat) :
    (xorInto xs ys).getD k 0 = xs.getD k 0 ^^^ ys.getD k 0 := by
  induction xs generalizing ys k with
  | nil => rw [xorInto_nil_left]; simp
  | cons x xs ih =>
      cases ys with
      | nil => rw [xorInto_nil_right]; simp
      | cons y ys =>
          rw [xorInto]
          cases k with
          | zero => rfl
          | succ k => simpa using ih ys k

/-- Byte strings with the same length and the same bytes are equal. -/
theorem ext_getD {xs ys : List UInt8} (hl : xs.length = ys.length)
    (hb : ∀ k < xs.length, xs.getD k 0 = ys.getD k 0) : xs = ys := by
  refine List.ext_getElem hl fun k hx hy => ?_
  have := hb k hx
  rwa [List.getD_eq_getElem _ _ hx, List.getD_eq_getElem _ _ hy] at this

/-- The exclusive-or of the bytes at some indices. -/
def xorSum (f : Nat → UInt8) (is : List Nat) : UInt8 := is.foldr (fun i b => f i ^^^ b) 0

theorem xorSum_cons (f : Nat → UInt8) (i : Nat) (is : List Nat) :
    xorSum f (i :: is) = f i ^^^ xorSum f is := rfl

theorem xorSum_append (f : Nat → UInt8) (is js : List Nat) :
    xorSum f (is ++ js) = xorSum f is ^^^ xorSum f js := by
  induction is with
  | nil => exact (UInt8.zero_xor).symm
  | cons i is ih => rw [List.cons_append, xorSum_cons, ih, xorSum_cons, UInt8.xor_assoc]

theorem xorSum_congr {f g : Nat → UInt8} {is : List Nat} (h : ∀ i ∈ is, f i = g i) :
    xorSum f is = xorSum g is := by
  induction is with
  | nil => rfl
  | cons i is ih =>
      rw [xorSum_cons, xorSum_cons, h i List.mem_cons_self,
        ih fun j hj => h j (List.mem_cons_of_mem i hj)]

/-- Taking one index out. -/
theorem xorSum_filter_ne (f : Nat → UInt8) {is : List Nat} {m : Nat} (hd : is.Nodup) (hm : m ∈ is) :
    xorSum f is = f m ^^^ xorSum f (is.filter fun i => i ≠ m) := by
  induction is with
  | nil => cases hm
  | cons i is ih =>
      obtain ⟨hi, hd⟩ := List.nodup_cons.mp hd
      by_cases him : i = m
      · have hall : is.filter (fun j => j ≠ m) = is := by
          refine List.filter_eq_self.mpr fun j hj => ?_
          simp only [ne_eq, decide_not, Bool.not_eq_eq_eq_not, Bool.not_true, decide_eq_false_iff_not]
          exact fun hjm => hi (him ▸ hjm ▸ hj)
        rw [xorSum_cons, List.filter_cons_of_neg (by simp [him]), hall, him]
      · have hmem : m ∈ is := (List.mem_cons.mp hm).resolve_left fun h => him h.symm
        rw [xorSum_cons, ih hd hmem, List.filter_cons_of_pos (by simp [him]), xorSum_cons,
          ← UInt8.xor_assoc, ← UInt8.xor_assoc, UInt8.xor_comm (f i)]

end Lib
