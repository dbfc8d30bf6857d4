import Mathlib.Algebra.Order.BigOperators.Group.List
import Mathlib.Algebra.Order.Group.Int
import Mathlib.Algebra.Ring.Int.Defs

/-!
# Tilings of an interval

A section is an offset and a size.  `Tiles lo hi secs` says that the sections `secs` follow each other
without a gap, share no point and make up the interval from `lo` to `hi`.  There is one such list for given
sizes: `sectionsFrom` lays them end to end, and what they make up ends at the sum of the sizes
(`tiles_iff`).
-/

namespace Lib

/-- The points of a section. -/
def InSection (s : Int × Int) (x : Int) : Prop := s.1 ≤ x ∧ x < s.1 + s.2

structure Tiles (lo hi : Int) (secs : List (Int × Int)) : Prop where
  nonneg : ∀ s ∈ secs, 0 ≤ s.2
  first : ∀ s ∈ secs.head?, s.1 = lo
  contiguous : ∀ i a b, secs[i]? = some a → secs[i + 1]? = some b → b.1 = a.1 + a.2
  disjoint : secs.Pairwise fun a b => ∀ x, ¬(InSection a x ∧ InSection b x)
  covers : ∀ x, (∃ s ∈ secs, InSection s x) ↔ lo ≤ x ∧ x < hi

/-- Sections of the given sizes, laid end to end. -/
def sectionsFrom (lo : Int) : List Int → List (Int × Int)
  | [] => []
  | size :: sizes => (lo, size) :: sectionsFrom (lo + size) sizes

theorem inSection_sectionsFrom {sizes : List Int} (h : ∀ s ∈ sizes, 0 ≤ s) (lo x : Int) :
    (∃ s ∈ sectionsFrom lo sizes, InSection s x) ↔ lo ≤ x ∧ x < lo + sizes.sum := by
  induction sizes generalizing lo with
  | nil => simp [sectionsFrom]
  | cons size sizes ih =>
      obtain ⟨hsize, hrest⟩ := List.forall_mem_cons.mp h
      have hsum : 0 ≤ sizes.sum := List.sum_nonneg hrest
      rw [sectionsFrom, List.exists_mem_cons_iff, ih hrest, InSection, List.sum_cons]
      dsimp only
      omega

theorem tiles_sectionsFrom {sizes : List Int} (h : ∀ s ∈ sizes, 0 ≤ s) (lo : Int) :
    Tiles lo (lo + sizes.sum) (sectionsFrom lo sizes) := by
  induction sizes generalizing lo with
  | nil =>
      refine ⟨by simp [sectionsFrom], by simp [sectionsFrom], by simp [sectionsFrom], .nil, ?_⟩
      exact inSection_sectionsFrom h lo
  | cons size sizes ih =>
      obtain ⟨hsize, hrest⟩ := List.forall_mem_cons.mp h
      have htail := ih hrest (lo + size)
      refine ⟨?_, by simp [sectionsFrom], ?_, ?_, inSection_sectionsFrom h lo⟩
      · exact List.forall_mem_cons.mpr ⟨hsize, htail.nonneg⟩
      · intro i a b ha hb
        cases i with
        | zero =>
            cases ha
            exact htail.first b (by rw [List.head?_eq_getElem?]; exact hb)
        | succ i => exact htail.contiguous i a b ha hb
      · refine List.pairwise_cons.mpr ⟨?_, htail.disjoint⟩
        rintro s hs x ⟨hhere, hthere⟩
        obtain ⟨hlo, -⟩ := (htail.covers x).mp ⟨s, hs, hthere⟩
        exact Int.not_lt.mpr hlo hhere.2

/-- Sections without a gap are those of their sizes. -/
theorem eq_sectionsFrom {lo : Int} {secs : List (Int × Int)} (hfirst : ∀ s ∈ secs.head?, s.1 = lo)
    (hcont : ∀ i a b, secs[i]? = some a → secs[i + 1]? = some b → b.1 = a.1 + a.2) :
    secs = sectionsFrom lo (secs.map Prod.snd) := by
  induction secs generalizing lo with
  | nil => rfl
  | cons s secs ih =>
      have hs : s.1 = lo := hfirst s rfl
      have hnext : ∀ t ∈ secs.head?, t.1 = lo + s.2 := by
        intro t ht
        rw [← hs]
        exact hcont 0 s t rfl (by rw [List.getElem?_cons_succ, ← List.head?_eq_getElem?]; exact ht)
      rw [List.map_cons, sectionsFrom, ← ih hnext fun i a b ha hb => hcont (i + 1) a b ha hb, ← hs]

/-- Sections tile an interval just when they are laid end to end and their sizes add up to its length. -/
theorem tiles_iff {lo hi : Int} (hle : lo ≤ hi) {secs : List (Int × Int)} :
    Tiles lo hi secs ↔ (∀ s ∈ secs, 0 ≤ s.2) ∧ secs = sectionsFrom lo (secs.map Prod.snd) ∧
      lo + (secs.map Prod.snd).sum = hi := by
  constructor
  · intro h
    have heq := eq_sectionsFrom h.first h.contiguous
    have hnonneg : ∀ s ∈ secs.map Prod.snd, 0 ≤ s := by
      intro s hs
      obtain ⟨t, ht, rfl⟩ := List.mem_map.mp hs
      exact h.nonneg t ht
    have hcovers : ∀ x, (lo ≤ x ∧ x < lo + (secs.map Prod.snd).sum) ↔ lo ≤ x ∧ x < hi := by
      intro x
      rw [← inSection_sectionsFrom hnonneg, ← heq]
      exact h.covers x
    have hsum : 0 ≤ (secs.map Prod.snd).sum := List.sum_nonneg hnonneg
    refine ⟨h.nonneg, heq, ?_⟩
    have hat := hcovers hi
    have hend := hcovers (lo + (secs.map Prod.snd).sum)
    omega
  · rintro ⟨hnonneg, heq, hsum⟩
    have hsizes : ∀ s ∈ secs.map Prod.snd, 0 ≤ s := by
      intro s hs
      obtain ⟨t, ht, rfl⟩ := List.mem_map.mp hs
      exact hnonneg t ht
    rw [heq, ← hsum]
    exact tiles_sectionsFrom hsizes lo

end Lib
