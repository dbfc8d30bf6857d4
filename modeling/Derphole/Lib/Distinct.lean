import Mathlib.Data.List.Nodup

/-!
# The distinct elements of a list

`List.eraseDups` keeps the first of equal elements: what stays has no repetition and stands in the order it
had.
-/

namespace Lib

variable {α : Type*} [DecidableEq α]

theorem nodup_eraseDups (l : List α) : l.eraseDups.Nodup := by
  induction hn : l.length using Nat.strongRecOn generalizing l with
  | ind n ih =>
      cases l with
      | nil => exact List.nodup_nil
      | cons a l =>
          rw [List.eraseDups_cons, List.nodup_cons]
          have hle := List.length_filter_le (fun b => !b == a) l
          refine ⟨?_, ih _ (by rw [List.length_cons] at hn; omega) _ rfl⟩
          rw [List.mem_eraseDups]
          simp

theorem eraseDups_of_nodup {l : List α} (h : l.Nodup) : l.eraseDups = l := by
  induction l with
  | nil => rfl
  | cons a l ih =>
      obtain ⟨hnot, hnodup⟩ := List.nodup_cons.mp h
      have hfilter : l.filter (fun b => !b == a) = l := by
        rw [List.filter_eq_self]
        intro b hb
        have hne : b ≠ a := fun hba => hnot (hba ▸ hb)
        simpa using hne
      rw [List.eraseDups_cons, hfilter, ih hnodup]

theorem eraseDups_sublist (l : List α) : l.eraseDups.Sublist l := by
  induction hn : l.length using Nat.strongRecOn generalizing l with
  | ind n ih =>
      cases l with
      | nil => exact List.Sublist.refl _
      | cons a l =>
          have hle := List.length_filter_le (fun b => !b == a) l
          rw [List.eraseDups_cons]
          have hrest := ih _ (by rw [List.length_cons] at hn; omega) (l.filter fun b => !b == a) rfl
          exact (hrest.trans List.filter_sublist).cons_cons a

end Lib
