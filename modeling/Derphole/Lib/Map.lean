import Mathlib.Algebra.GroupWithZero.Nat
import Mathlib.Data.List.AList

/-!
# Maps with an invariant on their entries

A Go map is an association list with one entry for each key.  `Map.All P m` says
that every entry of `m` satisfies `P`; inserting a good entry and deleting any
entry keep it.
-/

namespace Lib

/-- A finite map. -/
abbrev Map (κ β : Type) := AList fun _ : κ => β

namespace Map

variable {κ β : Type} [DecidableEq κ] {P Q : κ → β → Prop} {m : Map κ β}

/-- Every entry satisfies `P`. -/
def All (P : κ → β → Prop) (m : Map κ β) : Prop := ∀ k v, m.lookup k = some v → P k v

theorem All.empty : All P (∅ : Map κ β) := by
  intro k v h
  rw [AList.lookup_empty] at h
  cases h

theorem All.insert (h : All P m) {k : κ} {v : β} (hv : P k v) : All P (m.insert k v) := by
  intro k' v' hl
  by_cases hk : k' = k
  · rw [hk, AList.lookup_insert] at hl
    cases hl
    rw [hk]
    exact hv
  · rw [AList.lookup_insert_ne hk] at hl
    exact h k' v' hl

theorem All.erase (h : All P m) (k : κ) : All P (m.erase k) := by
  intro k' v' hl
  by_cases hk : k' = k
  · rw [hk, AList.lookup_erase] at hl
    cases hl
  · rw [AList.lookup_erase_ne hk] at hl
    exact h k' v' hl

theorem All.mono (h : All P m) (hpq : ∀ k v, P k v → Q k v) : All Q m :=
  fun k v hl => hpq k v (h k v hl)

theorem All.getD (h : All P m) {k : κ} {d : β} (hd : P k d) : P k ((m.lookup k).getD d) := by
  cases hl : m.lookup k with
  | none => exact hd
  | some v => exact h k v hl

/-- A map without entries satisfies everything. -/
theorem All.of_isEmpty (h : m.entries.isEmpty = true) : All P m := by
  intro k v hl
  rw [List.isEmpty_iff] at h
  have hm : k ∈ m := AList.lookup_isSome.mp (by rw [hl]; rfl)
  rw [AList.mem_keys, AList.keys, h] at hm
  simp [List.keys] at hm

/-- An entry is among the entries. -/
theorem mem_entries_of_lookup {k : κ} {v : β} (h : m.lookup k = some v) : ⟨k, v⟩ ∈ m.entries :=
  AList.mem_lookup_iff.mp h

/-- Deleting an entry makes the map smaller. -/
theorem length_erase_lt {k : κ} {v : β} (h : m.lookup k = some v) :
    (m.erase k).entries.length < m.entries.length := by
  have hm : k ∈ m.entries.keys := by
    rw [← AList.keys, ← AList.mem_keys]
    exact AList.lookup_isSome.mp (by rw [h]; rfl)
  obtain ⟨b, l₁, l₂, -, hl, he⟩ := List.exists_of_kerase hm
  show (List.kerase k m.entries).length < m.entries.length
  rw [he, hl]
  simp only [List.length_append, List.length_cons]
  omega

/-- A new key adds one entry. -/
theorem entries_insert_of_lookup {k : κ} {v : β} (h : m.lookup k = none) :
    (m.insert k v).entries = ⟨k, v⟩ :: m.entries :=
  AList.entries_insert_of_notMem (AList.lookup_eq_none.mp h)

/-- A deleted entry and the others are all entries. -/
theorem perm_entries_erase {k : κ} {v : β} (h : m.lookup k = some v) :
    m.entries.Perm (⟨k, v⟩ :: (m.erase k).entries) := by
  have hm : k ∈ m.entries.keys := by
    rw [← AList.keys, ← AList.mem_keys]
    exact AList.lookup_isSome.mp (by rw [h]; rfl)
  obtain ⟨b, l₁, l₂, hnot, hl, he⟩ := List.exists_of_kerase hm
  have hb : b = v := by
    have hmem : (⟨k, b⟩ : Sigma fun _ : κ => β) ∈ m.entries := by
      rw [hl]
      simp
    have hlook := AList.mem_lookup_iff.mpr hmem
    rw [h] at hlook
    exact (Option.some.inj hlook).symm
  show m.entries.Perm (⟨k, v⟩ :: List.kerase k m.entries)
  rw [he, hl, hb]
  exact List.perm_middle

/-! ## Totals -/

/-- The sum of a size over the values of a map. -/
def total (size : β → Nat) (m : Map κ β) : Nat := (m.entries.map fun e => size e.2).sum

/-- A deleted entry no longer counts. -/
theorem total_erase (size : β → Nat) {k : κ} {v : β} (h : m.lookup k = some v) :
    total size m = size v + total size (m.erase k) := by
  rw [total, ((perm_entries_erase h).map _).sum_nat, List.map_cons, List.sum_cons]
  rfl

/-- A new entry counts with its size. -/
theorem total_insert_of_lookup (size : β → Nat) {k : κ} {v : β} (h : m.lookup k = none) :
    total size (m.insert k v) = size v + total size m := by
  rw [total, entries_insert_of_lookup h, List.map_cons, List.sum_cons]
  rfl

/-- An entry takes the place of the one under its key, where a missing entry counts
as the default. -/
theorem total_insert (size : β → Nat) {d : β} (hd : size d = 0) (k : κ) (v : β) :
    total size (m.insert k v) + size ((m.lookup k).getD d) = size v + total size m := by
  cases hl : m.lookup k with
  | none => rw [total_insert_of_lookup size hl, Option.getD_none, hd, Nat.add_zero]
  | some w =>
      have hentries : (m.insert k v).entries = ⟨k, v⟩ :: (m.erase k).entries := AList.entries_insert
      have hsum : total size (m.insert k v) = size v + total size (m.erase k) := by
        rw [total, hentries, List.map_cons, List.sum_cons]
        rfl
      have herase := total_erase size hl
      rw [Option.getD_some, hsum, herase]
      omega

/-! ## Deleting several keys -/

/-- Delete the keys of a list, one after the other. -/
def eraseAll (m : Map κ β) (ks : List κ) : Map κ β := ks.foldl (fun m k => m.erase k) m

theorem lookup_eraseAll_of_notMem {ks : List κ} {k : κ} (h : k ∉ ks) :
    (eraseAll m ks).lookup k = m.lookup k := by
  induction ks generalizing m with
  | nil => rfl
  | cons j ks ih =>
      rw [List.mem_cons, not_or] at h
      rw [eraseAll, List.foldl_cons, ← eraseAll, ih h.2, AList.lookup_erase_ne h.1]

/-- What is left was there. -/
theorem lookup_eraseAll {ks : List κ} {k : κ} {v : β} (h : (eraseAll m ks).lookup k = some v) :
    m.lookup k = some v := by
  induction ks generalizing m with
  | nil => exact h
  | cons j ks ih =>
      have hj := ih h
      by_cases hk : k = j
      · rw [hk, AList.lookup_erase] at hj
        cases hj
      · rwa [AList.lookup_erase_ne hk] at hj

theorem lookup_eraseAll_of_mem {ks : List κ} {k : κ} (h : k ∈ ks) :
    (eraseAll m ks).lookup k = none := by
  induction ks generalizing m with
  | nil => cases h
  | cons j ks ih =>
      rw [eraseAll, List.foldl_cons, ← eraseAll]
      by_cases hk : k ∈ ks
      · exact ih hk
      · rcases List.mem_cons.mp h with rfl | h
        · rw [lookup_eraseAll_of_notMem hk, AList.lookup_erase]
        · exact absurd h hk

/-- Different keys of the map leave as many entries fewer. -/
theorem length_eraseAll {ks : List κ} (hnodup : ks.Nodup) (hks : ∀ k ∈ ks, k ∈ m) :
    (eraseAll m ks).entries.length + ks.length = m.entries.length := by
  induction ks generalizing m with
  | nil => rfl
  | cons j ks ih =>
      rw [List.nodup_cons] at hnodup
      obtain ⟨v, hv⟩ := Option.isSome_iff_exists.mp (AList.lookup_isSome.mpr (hks j List.mem_cons_self))
      have hrest : ∀ k ∈ ks, k ∈ m.erase j := by
        intro k hk
        rw [AList.mem_erase]
        refine ⟨?_, hks k (List.mem_cons_of_mem j hk)⟩
        rintro rfl
        exact hnodup.1 hk
      have hlen := (perm_entries_erase hv).length_eq
      have := ih hnodup.2 hrest
      rw [List.length_cons] at hlen ⊢
      rw [eraseAll, List.foldl_cons, ← eraseAll]
      omega

end Map

end Lib
