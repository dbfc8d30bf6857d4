import Derphole.Lib.Program

/-!
# Traces with silent steps

A step relation on states labels some of its steps; the others are silent.  A
trace from `s` to `t` is a list of labels, those of a path from `s` to `t` in
their order.  A program leaves a trace when, seen through a view of its state,
it is a path of the relation.  So what holds along every path holds inside the
loops of the program too, not only between its calls.
-/

namespace Lib

variable {σ τ ε ℓ α β : Type}

/-- The labels of a path. -/
inductive Trace (step : τ → Option ℓ → τ → Prop) : τ → List ℓ → τ → Prop where
  | nil (s : τ) : Trace step s [] s
  | cons {s t u : τ} {e : Option ℓ} {es : List ℓ} :
      step s e t → Trace step t es u → Trace step s (e.toList ++ es) u

namespace Trace

variable {step : τ → Option ℓ → τ → Prop} {s t u : τ} {es es' : List ℓ}

theorem single {e : Option ℓ} (h : step s e t) : Trace step s e.toList t := by
  rw [← List.append_nil e.toList]
  exact .cons h (.nil t)

theorem append (h : Trace step s es t) (h' : Trace step t es' u) : Trace step s (es ++ es') u := by
  induction h with
  | nil => exact h'
  | cons hstep _ ih =>
      rw [List.append_assoc]
      exact .cons hstep (ih h')

/-- A property kept by every step whose label meets `P` is kept by every trace of
such labels. -/
theorem invariant_of_mem {I : τ → Prop} {P : ℓ → Prop}
    (hstep : ∀ s e t, I s → (∀ x ∈ e, P x) → step s e t → I t) (h : Trace step s es t)
    (hes : ∀ x ∈ es, P x) (hs : I s) : I t := by
  induction h with
  | nil => exact hs
  | cons hse _ ih =>
      refine ih (fun x hx => hes x (List.mem_append_right _ hx)) (hstep _ _ _ hs (fun x hx => ?_) hse)
      exact hes x (List.mem_append_left _ (Option.mem_toList.mpr hx))

theorem invariant {I : τ → Prop} (hstep : ∀ s e t, I s → step s e t → I t) (h : Trace step s es t)
    (hs : I s) : I t :=
  invariant_of_mem (P := fun _ => True) (fun s e t hi _ => hstep s e t hi) h (fun _ _ => trivial) hs

/-- A label of a trace is that of a step. -/
theorem split {pre post : List ℓ} {x : ℓ} (h : Trace step s (pre ++ x :: post) u) :
    ∃ t t', Trace step s pre t ∧ step t (some x) t' ∧ Trace step t' post u := by
  generalize hl : pre ++ x :: post = es at h
  induction h generalizing pre with
  | nil => simp at hl
  | @cons s t u e es hse hrest ih =>
      cases e with
      | none =>
          obtain ⟨v, w, hpre, hx, hpost⟩ := ih hl
          exact ⟨v, w, .cons hse hpre, hx, hpost⟩
      | some y =>
          cases pre with
          | nil =>
              obtain ⟨rfl, rfl⟩ := List.cons.inj hl
              exact ⟨s, t, .nil s, hse, hrest⟩
          | cons z pre =>
              obtain ⟨rfl, htail⟩ := List.cons.inj hl
              obtain ⟨v, w, hpre, hx, hpost⟩ := ih htail
              exact ⟨v, w, .cons hse hpre, hx, hpost⟩

end Trace

/-- Run in `s`, the program goes along a trace. -/
def Leaves (step : τ → Option ℓ → τ → Prop) (view : σ → τ) (m : Prog σ ε α) (s : σ) : Prop :=
  ∃ es, Trace step (view s) es (view (exec m s).2)

namespace Leaves

variable {step : τ → Option ℓ → τ → Prop} {view : σ → τ} {s : σ}

/-- A program that ends in the same view. -/
theorem of_view_eq {m : Prog σ ε α} (h : view (exec m s).2 = view s) : Leaves step view m s := by
  refine ⟨[], ?_⟩
  rw [h]
  exact .nil _

theorem pure (a : α) : Leaves step view (Pure.pure a : Prog σ ε α) s := of_view_eq rfl

theorem fail (e : ε) : Leaves step view (Lib.fail e : Prog σ ε α) s := of_view_eq rfl

theorem of_step {m : Prog σ ε α} {e : Option ℓ} (h : step (view s) e (view (exec m s).2)) :
    Leaves step view m s :=
  ⟨_, .single h⟩

/-- The continuation runs where `m` returned. -/
theorem bind_of {m : Prog σ ε α} {k : α → Prog σ ε β} (hm : Leaves step view m s)
    (hk : ∀ a t, exec m s = (.ok a, t) → Leaves step view (k a) t) :
    Leaves step view (m >>= k) s := by
  obtain ⟨es, hes⟩ := hm
  rw [Leaves, exec_bind]
  cases hr : exec m s with
  | mk r t =>
      rw [hr] at hes
      cases r with
      | ok a =>
          obtain ⟨es', hes'⟩ := hk a t hr
          exact ⟨es ++ es', hes.append hes'⟩
      | error e => exact ⟨es, hes⟩

theorem bind {m : Prog σ ε α} {k : α → Prog σ ε β} (hm : Leaves step view m s)
    (hk : ∀ a t, Leaves step view (k a) t) : Leaves step view (m >>= k) s :=
  bind_of hm fun a t _ => hk a t

/-- The continuation of a read runs in the state that was read. -/
theorem read_bind {k : σ → Prog σ ε β} (hk : Leaves step view (k s) s) :
    Leaves step view (Lib.read >>= k) s := by
  rw [Leaves, exec_bind_ok (exec_read s)]
  exact hk

theorem ite {c : Prop} [Decidable c] {m m' : Prog σ ε α} (hm : c → Leaves step view m s)
    (hm' : ¬c → Leaves step view m' s) : Leaves step view (if c then m else m') s := by
  split
  · exact hm ‹_›
  · exact hm' ‹_›

/-- After a failure nothing follows. -/
theorem fail_bind {e : ε} {k : α → Prog σ ε β} : Leaves step view (Lib.fail e >>= k) s :=
  of_view_eq rfl

end Leaves

end Lib
