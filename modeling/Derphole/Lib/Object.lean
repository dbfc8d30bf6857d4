import Mathlib.Data.List.Basic

/-!
# Objects and their answers

An object answers each call from its state and goes on to the next state.  Two
objects that give the same answers to all sequences of calls cannot be told
apart by their callers.  A relation between the states that every call keeps,
with equal answers, is enough for that.
-/

namespace Lib

variable {σ τ κ ρ : Type*}

/-- The state after the calls. -/
def answered (call : σ → κ → σ × ρ) : σ → List κ → σ
  | s, [] => s
  | s, k :: ks => answered call (call s k).1 ks

/-- What the calls return, in their order. -/
def answers (call : σ → κ → σ × ρ) : σ → List κ → List ρ
  | _, [] => []
  | s, k :: ks => (call s k).2 :: answers call (call s k).1 ks

/-- Every call keeps the relation and returns the same on both sides. -/
def Simulates (call : σ → κ → σ × ρ) (call' : τ → κ → τ × ρ) (R : σ → τ → Prop) : Prop :=
  ∀ s t k, R s t → R (call s k).1 (call' t k).1 ∧ (call s k).2 = (call' t k).2

section

variable {call : σ → κ → σ × ρ} {call' : τ → κ → τ × ρ} {R : σ → τ → Prop} {s : σ} {t : τ}

theorem Simulates.answers_eq (hsim : Simulates call call' R) (ks : List κ) (h : R s t) :
    answers call s ks = answers call' t ks := by
  induction ks generalizing s t with
  | nil => rfl
  | cons k ks ih =>
      obtain ⟨hnext, hsame⟩ := hsim s t k h
      rw [answers, answers, hsame, ih hnext]

theorem Simulates.answered (hsim : Simulates call call' R) (ks : List κ) (h : R s t) :
    R (answered call s ks) (answered call' t ks) := by
  induction ks generalizing s t with
  | nil => exact h
  | cons k ks ih => exact ih (hsim s t k h).1

end

end Lib
