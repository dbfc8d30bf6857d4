import Mathlib.Data.List.Induction
import Mathlib.Data.List.Sort

/-!
# Insertion from the back

A loop that takes the entries of a list one by one and moves each to the front of those before it, as long
as it is to be promoted over the next one.  The relation need not be an order: an entry stops at the first
one that it is not promoted over, whatever stands before that.

`pairwise_promoteSort` is the rule for what then holds of any two entries.  It asks what an entry passes, and
what lies before the entry where it stops.
-/

namespace Lib

variable {α β : Type*}

/-- The entries in their new order.  Those so far are kept with the last one first. -/
def promoteSort (promote : α → α → Bool) (xs : List α) : List α :=
  (xs.foldl (fun sorted x => sorted.orderedInsert (fun x y => promote x y = false) x) []).reverse

theorem promoteSort_eq (promote : α → α → Bool) (xs : List α) :
    promoteSort promote xs = (xs.reverse.insertionSort fun x y => promote x y = false).reverse := by
  rw [promoteSort, List.insertionSort, List.foldr_reverse]

theorem perm_promoteSort (promote : α → α → Bool) (xs : List α) : (promoteSort promote xs).Perm xs := by
  rw [promoteSort_eq]
  exact (List.reverse_perm _).trans ((List.perm_insertionSort _ _).trans (List.reverse_perm xs))

theorem mem_promoteSort {promote : α → α → Bool} {xs : List α} {x : α} :
    x ∈ promoteSort promote xs ↔ x ∈ xs :=
  (perm_promoteSort promote xs).mem_iff

/-- Entries may carry something along that is not looked at. -/
theorem map_promoteSort (promote : β → β → Bool) (f : α → β) (xs : List α) :
    (promoteSort (fun a b => promote (f a) (f b)) xs).map f = promoteSort promote (xs.map f) := by
  rw [promoteSort_eq, promoteSort_eq, List.map_reverse,
    List.map_insertionSort _ (fun x y => promote x y = false) f _ (fun _ _ _ _ => Iff.rfl), List.map_reverse]

variable {promote : α → α → Bool} {R : α → α → Prop}

/-- The new entry `x` may follow the entries `before`: it is related to what it passes, and where it stops,
it is related to everything up to there. -/
structure Fits (promote : α → α → Bool) (R : α → α → Prop) (before : List α) (x : α) : Prop where
  passes : ∀ z ∈ before, promote x z = true → R x z
  stops : ∀ p ∈ before, promote x p = false → R p x ∧ ∀ z ∈ before, R z p → R z x

theorem pairwise_orderedInsert {sorted : List α} {x : α} (hsorted : sorted.Pairwise (flip R))
    (hfits : Fits promote R sorted x) :
    (sorted.orderedInsert (fun x y => promote x y = false) x).Pairwise (flip R) := by
  induction sorted with
  | nil => exact List.pairwise_singleton _ _
  | cons y sorted ih =>
      obtain ⟨hy, hrest⟩ := List.pairwise_cons.mp hsorted
      rw [List.orderedInsert_cons]
      split
      next hstop =>
        obtain ⟨hyx, hbefore⟩ := hfits.stops y List.mem_cons_self hstop
        refine List.pairwise_cons.mpr ⟨?_, hsorted⟩
        intro z hz
        obtain rfl | hz := List.mem_cons.mp hz
        · exact hyx
        · exact hbefore z (List.mem_cons_of_mem y hz) (hy z hz)
      next hpass =>
        rw [Bool.not_eq_false] at hpass
        have htail : Fits promote R sorted x := by
          constructor
          · exact fun z hz => hfits.passes z (List.mem_cons_of_mem y hz)
          · intro p hp hstop
            obtain ⟨hpx, hbefore⟩ := hfits.stops p (List.mem_cons_of_mem y hp) hstop
            exact ⟨hpx, fun z hz => hbefore z (List.mem_cons_of_mem y hz)⟩
        refine List.pairwise_cons.mpr ⟨?_, ih hrest htail⟩
        intro z hz
        obtain rfl | hz := (List.mem_orderedInsert _).mp hz
        · exact hfits.passes y List.mem_cons_self hpass
        · exact hy z hz

/-- If every entry fits behind those that come before it, any two are related in the end. -/
theorem pairwise_promoteSort {xs : List α}
    (h : ∀ before x after, xs = before ++ x :: after → Fits promote R before x) :
    (promoteSort promote xs).Pairwise R := by
  rw [promoteSort, List.pairwise_reverse]
  induction xs using List.reverseRecOn with
  | nil => exact List.Pairwise.nil
  | append_singleton xs x ih =>
      rw [List.foldl_concat]
      have hmem : ∀ z, z ∈ (xs.foldl
          (fun sorted x => sorted.orderedInsert (fun x y => promote x y = false) x) []) ↔ z ∈ xs := by
        intro z
        rw [← List.mem_reverse, ← promoteSort, mem_promoteSort]
      have hx := h xs x [] rfl
      refine pairwise_orderedInsert (ih ?_) ⟨?_, ?_⟩
      · intro before y after hxs
        refine h before y (after ++ [x]) ?_
        rw [hxs, List.append_assoc, List.cons_append]
      · exact fun z hz => hx.passes z ((hmem z).mp hz)
      · intro p hp hstop
        obtain ⟨hpx, hbefore⟩ := hx.stops p ((hmem p).mp hp) hstop
        exact ⟨hpx, fun z hz => hbefore z ((hmem z).mp hz)⟩

end Lib
