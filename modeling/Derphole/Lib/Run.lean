import Mathlib.Data.List.Basic

/-!
# Runs of a labelled step function

A system is a partial step function: `step s a` is the state after the
environment chose the label `a` in the state `s`, or nothing when `a` is not
enabled there.  A run is a list of labels.  An invariant is proved once for a
step and then holds after every run, and a condition on the steps of a run is
carried along it.
-/

namespace Lib

variable {σ ℓ : Type*}

/-- The state after the labels of `as`, if every one of them was enabled. -/
def runFrom (step : σ → ℓ → Option σ) : σ → List ℓ → Option σ
  | s, [] => some s
  | s, a :: as =>
      match step s a with
      | none => none
      | some t => runFrom step t as

/-- Every step of the run meets `ok`, read in the state before the step. -/
def StepsMeet (step : σ → ℓ → Option σ) (ok : σ → ℓ → Prop) : σ → List ℓ → Prop
  | _, [] => True
  | s, a :: as =>
      ok s a ∧
        match step s a with
        | none => True
        | some t => StepsMeet step ok t as

instance StepsMeet.decidable {step : σ → ℓ → Option σ} {ok : σ → ℓ → Prop}
    [∀ s a, Decidable (ok s a)] : ∀ (s : σ) (as : List ℓ), Decidable (StepsMeet step ok s as)
  | _, [] => isTrue trivial
  | s, a :: as =>
      match hs : step s a with
      | none => decidable_of_iff (ok s a) (by simp [StepsMeet, hs])
      | some t =>
          have : Decidable (StepsMeet step ok t as) := StepsMeet.decidable t as
          decidable_of_iff (ok s a ∧ StepsMeet step ok t as) (by simp [StepsMeet, hs])

theorem runFrom_cons {step : σ → ℓ → Option σ} {s t : σ} {a : ℓ} {as : List ℓ}
    (h : runFrom step s (a :: as) = some t) :
    ∃ u, step s a = some u ∧ runFrom step u as = some t := by
  cases hs : step s a with
  | none => simp [runFrom, hs] at h
  | some u => exact ⟨u, rfl, by simpa [runFrom, hs] using h⟩

theorem runFrom_append {step : σ → ℓ → Option σ} {s t : σ} {as bs : List ℓ}
    (h : runFrom step s as = some t) : runFrom step s (as ++ bs) = runFrom step t bs := by
  induction as generalizing s with
  | nil =>
      cases h
      rfl
  | cons a as ih =>
      obtain ⟨u, hu, hrest⟩ := runFrom_cons h
      rw [List.cons_append, runFrom, hu]
      exact ih hrest

/-- A property kept by every step is kept by every run. -/
theorem runFrom_invariant {step : σ → ℓ → Option σ} {I : σ → Prop}
    (hstep : ∀ s a t, I s → step s a = some t → I t) :
    ∀ (as : List ℓ) {s t : σ}, I s → runFrom step s as = some t → I t
  | [], s, t, hi, h => by
      cases h
      exact hi
  | a :: as, s, t, hi, h => by
      obtain ⟨u, hu, hr⟩ := runFrom_cons h
      exact runFrom_invariant hstep as (hstep s a u hi hu) hr

/-- A property kept by every step that meets `ok` is kept by every run whose
steps all meet `ok`. -/
theorem runFrom_invariant_of_meet {step : σ → ℓ → Option σ} {ok : σ → ℓ → Prop} {I : σ → Prop}
    (hstep : ∀ s a t, I s → ok s a → step s a = some t → I t) :
    ∀ (as : List ℓ) {s t : σ}, I s → StepsMeet step ok s as →
      runFrom step s as = some t → I t
  | [], s, t, hi, _, h => by
      cases h
      exact hi
  | a :: as, s, t, hi, hm, h => by
      obtain ⟨u, hu, hr⟩ := runFrom_cons h
      simp only [StepsMeet, hu] at hm
      exact runFrom_invariant_of_meet hstep as (hstep s a u hi hm.1 hu) hm.2 hr

/-- A property kept by every step whose label meets `P`. -/
theorem runFrom_invariant_of_mem {step : σ → ℓ → Option σ} {P : ℓ → Prop} {I : σ → Prop}
    (hstep : ∀ s a t, I s → P a → step s a = some t → I t) :
    ∀ (as : List ℓ) {s t : σ}, I s → (∀ a ∈ as, P a) → runFrom step s as = some t → I t
  | [], s, t, hi, _, h => by
      cases h
      exact hi
  | a :: as, s, t, hi, hp, h => by
      obtain ⟨u, hu, hr⟩ := runFrom_cons h
      exact runFrom_invariant_of_mem hstep as (hstep s a u hi (hp a List.mem_cons_self) hu)
        (fun b hb => hp b (List.mem_cons_of_mem a hb)) hr

/-- A condition on the labels alone may be read off the run. -/
theorem StepsMeet.and_mem {step : σ → ℓ → Option σ} {ok : σ → ℓ → Prop} {P : ℓ → Prop} :
    ∀ {as : List ℓ} {s : σ}, StepsMeet step ok s as → (∀ a ∈ as, P a) →
      StepsMeet step (fun s a => ok s a ∧ P a) s as
  | [], _, _, _ => trivial
  | a :: as, s, hm, hp => by
      refine ⟨⟨hm.1, hp a List.mem_cons_self⟩, ?_⟩
      have hrest := hm.2
      cases hs : step s a with
      | none => exact trivial
      | some t =>
          simp only [hs] at hrest
          exact hrest.and_mem fun b hb => hp b (List.mem_cons_of_mem a hb)

theorem StepsMeet.and {step : σ → ℓ → Option σ} {ok ok' : σ → ℓ → Prop} :
    ∀ {as : List ℓ} {s : σ}, StepsMeet step ok s as → StepsMeet step ok' s as →
      StepsMeet step (fun s a => ok s a ∧ ok' s a) s as
  | [], _, _, _ => trivial
  | a :: as, s, hm, hm' => by
      refine ⟨⟨hm.1, hm'.1⟩, ?_⟩
      have hrest := hm.2
      have hrest' := hm'.2
      cases hs : step s a with
      | none => exact trivial
      | some t =>
          simp only [hs] at hrest hrest'
          exact hrest.and hrest'

theorem StepsMeet.imp {step : σ → ℓ → Option σ} {ok ok' : σ → ℓ → Prop} (himp : ∀ s a, ok s a → ok' s a) :
    ∀ {as : List ℓ} {s : σ}, StepsMeet step ok s as → StepsMeet step ok' s as
  | [], _, _ => trivial
  | a :: as, s, hm => by
      refine ⟨himp s a hm.1, ?_⟩
      have hrest := hm.2
      cases hs : step s a with
      | none => exact trivial
      | some t =>
          simp only [hs] at hrest
          exact hrest.imp himp

/-- The steps up to some point of a run. -/
theorem StepsMeet.take {step : σ → ℓ → Option σ} {ok : σ → ℓ → Prop} :
    ∀ {as : List ℓ} {s : σ}, StepsMeet step ok s as → ∀ k, StepsMeet step ok s (as.take k)
  | _, _, _, 0 => by
      rw [List.take_zero]
      exact trivial
  | [], _, _, _ + 1 => trivial
  | a :: as, s, hm, k + 1 => by
      refine ⟨hm.1, ?_⟩
      have hrest := hm.2
      cases hs : step s a with
      | none => exact trivial
      | some t =>
          simp only [hs] at hrest
          exact hrest.take k

theorem StepsMeet.of_forall {step : σ → ℓ → Option σ} {ok : σ → ℓ → Prop} :
    ∀ {as : List ℓ} {s : σ},
      (∀ k a u, as[k]? = some a → runFrom step s (as.take k) = some u → ok u a) →
      StepsMeet step ok s as
  | [], _, _ => trivial
  | a :: as, s, h => by
      refine ⟨h 0 a s rfl rfl, ?_⟩
      cases hs : step s a with
      | none => exact trivial
      | some t =>
          refine StepsMeet.of_forall fun k b u hb hu => h (k + 1) b u hb ?_
          rw [List.take_succ_cons, runFrom, hs]
          exact hu

/-- In a run that goes through, every label was enabled where it stood. -/
theorem runFrom_take_succ {step : σ → ℓ → Option σ} {s t u : σ} {as : List ℓ} {a : ℓ} {k : Nat}
    (h : runFrom step s as = some t) (ha : as[k]? = some a) (hu : runFrom step s (as.take k) = some u) :
    ∃ v, step u a = some v ∧ runFrom step s (as.take (k + 1)) = some v := by
  obtain ⟨hk, rfl⟩ := List.getElem?_eq_some_iff.mp ha
  rw [← List.take_append_drop k as, runFrom_append hu, List.drop_eq_getElem_cons hk] at h
  obtain ⟨v, hv, -⟩ := runFrom_cons h
  refine ⟨v, hv, ?_⟩
  rw [List.take_succ_eq_append_getElem hk, runFrom_append hu, runFrom, hv]
  rfl

end Lib
