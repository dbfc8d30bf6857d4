import Mathlib.Data.List.Basic

/-!
# Filtering in place

A loop reads the cells of an array in their order and writes what it keeps over
the cells that it has read.  A cell that is still to be read has not been written
to, so the loop leaves what a filter into a new array would (`compact_eq`).
-/

namespace Lib

variable {α : Type*}

/-- The loop with `todo` cells to read, from `i` on, after `kept` were kept. -/
def compact (f : α → Option α) : Nat → Nat → Nat → List α → List α
  | 0, _, kept, cells => cells.take kept
  | todo + 1, i, kept, cells =>
      match cells[i]?.bind f with
      | none => compact f todo (i + 1) kept cells
      | some a => compact f todo (i + 1) (kept + 1) (cells.set kept a)

theorem compact_from (f : α → Option α) {todo i kept : Nat} {cells : List α} (hkept : kept ≤ i)
    (hend : i + todo = cells.length) :
    compact f todo i kept cells = cells.take kept ++ (cells.drop i).filterMap f := by
  induction todo generalizing i kept cells with
  | zero =>
      rw [compact, List.drop_of_length_le (by omega)]
      simp
  | succ todo ih =>
      have hi : i < cells.length := by omega
      rw [compact, List.drop_eq_getElem_cons hi, List.getElem?_eq_getElem hi, Option.bind_some]
      cases hf : f cells[i] with
      | none =>
          rw [List.filterMap_cons_none hf]
          exact ih (by omega) (by omega)
      | some a =>
          have hlast : kept < (cells.set kept a).length := by
            rw [List.length_set]
            omega
          dsimp only
          rw [List.filterMap_cons_some hf, ih (by omega) (by rw [List.length_set]; omega),
            List.take_succ_eq_append_getElem hlast, List.getElem_set_self, List.take_set_of_le (Nat.le_refl _),
            List.drop_set_of_lt (by omega), List.append_assoc]
          rfl

theorem compact_eq (f : α → Option α) (cells : List α) :
    compact f cells.length 0 0 cells = cells.filterMap f := by
  rw [compact_from f (Nat.le_refl 0) (Nat.zero_add _)]
  simp

end Lib
