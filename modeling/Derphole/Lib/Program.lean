import Mathlib.Logic.Basic

/-!
# Programs that change a state and may fail

A Go method that updates its receiver and may return an error is a computation
in `Prog σ ε`: the state after a failure is kept, as it is in Go.

`Triple P m Q E` is the rule of pre- and postconditions: run where `P` holds,
`m` ends in a state with `Q` when it returns and with `E` when it fails.  The
rules below follow the shape of the program, one for each construct.
-/

namespace Lib

/-- A computation over the state `σ` that may fail with `ε`. -/
abbrev Prog (σ ε : Type) := ExceptT ε (StateM σ)

variable {σ ε α β : Type}

/-- The outcome of `m` and the state after it. -/
def exec (m : Prog σ ε α) (s : σ) : Except ε α × σ := m.run s

/-- Stop with an error. -/
def fail (e : ε) : Prog σ ε α := throw e

/-- Read the state. -/
def read : Prog σ ε σ := fun s => (.ok s, s)

/-- Change the state. -/
def update (f : σ → σ) : Prog σ ε Unit := fun s => (.ok (), f s)

/-! ## Execution -/

@[simp] theorem exec_pure (a : α) (s : σ) : exec (pure a : Prog σ ε α) s = (.ok a, s) := rfl

@[simp] theorem exec_fail (e : ε) (s : σ) : exec (fail e : Prog σ ε α) s = (.error e, s) := rfl

@[simp] theorem exec_read (s : σ) : exec (read : Prog σ ε σ) s = (.ok s, s) := rfl

@[simp] theorem exec_update (f : σ → σ) (s : σ) :
    exec (update f : Prog σ ε Unit) s = (.ok (), f s) := rfl

theorem exec_bind (m : Prog σ ε α) (k : α → Prog σ ε β) (s : σ) :
    exec (m >>= k) s =
      match exec m s with
      | (.ok a, t) => exec (k a) t
      | (.error e, t) => (.error e, t) := by
  simp only [exec, ExceptT.run, Bind.bind, ExceptT.bind, ExceptT.mk, StateT.bind]
  cases m s with
  | mk r t =>
      cases r with
      | ok a => rfl
      | error e => rfl

theorem exec_bind_ok {m : Prog σ ε α} {k : α → Prog σ ε β} {s t : σ} {a : α}
    (h : exec m s = (.ok a, t)) : exec (m >>= k) s = exec (k a) t := by
  rw [exec_bind, h]

/-- A run that is known to return, with the state it returns in. -/
theorem exec_eq_ok {m : Prog σ ε α} {s : σ} {a : α} (h : (exec m s).1.toOption = some a) :
    exec m s = (.ok a, (exec m s).2) := by
  cases hr : exec m s with
  | mk r t =>
      rw [hr] at h
      cases r with
      | ok b =>
          cases h
          rfl
      | error e => cases h

/-! ## Pre- and postconditions -/

/-- Run where `P` holds, `m` returns with `Q` or fails with `E`. -/
def Triple (P : σ → Prop) (m : Prog σ ε α) (Q : α → σ → Prop) (E : ε → σ → Prop) : Prop :=
  ∀ s, P s →
    match exec m s with
    | (.ok a, t) => Q a t
    | (.error e, t) => E e t

namespace Triple

variable {P P' : σ → Prop} {Q Q' : α → σ → Prop} {R : β → σ → Prop} {E E' : ε → σ → Prop}

theorem pure {a : α} (h : ∀ s, P s → Q a s) : Triple P (Pure.pure a : Prog σ ε α) Q E :=
  fun s hs => h s hs

theorem fail {e : ε} (h : ∀ s, P s → E e s) : Triple P (Lib.fail e : Prog σ ε α) Q E :=
  fun s hs => h s hs

theorem update {f : σ → σ} {Q : Unit → σ → Prop} (h : ∀ s, P s → Q () (f s)) :
    Triple P (Lib.update f : Prog σ ε Unit) Q E :=
  fun s hs => h s hs

theorem bind {m : Prog σ ε α} {k : α → Prog σ ε β} (hm : Triple P m Q E)
    (hk : ∀ a, Triple (Q a) (k a) R E) : Triple P (m >>= k) R E := by
  intro s hs
  have h := hm s hs
  rw [exec_bind]
  cases hr : exec m s with
  | mk r t =>
      rw [hr] at h
      cases r with
      | ok a => exact hk a t h
      | error e => exact h

/-- The continuation of a read knows the state it was read in. -/
theorem read_bind {k : σ → Prog σ ε β} (h : ∀ s, P s → Triple (· = s) (k s) R E) :
    Triple P (Lib.read >>= k) R E := by
  intro s hs
  rw [exec_bind_ok (exec_read s)]
  exact h s hs s rfl

theorem ite {c : Prop} [Decidable c] {m m' : Prog σ ε α} (hm : c → Triple P m Q E)
    (hm' : ¬c → Triple P m' Q E) : Triple P (if c then m else m') Q E := by
  split
  · exact hm ‹_›
  · exact hm' ‹_›

/-- Strengthen the precondition, weaken the postconditions. -/
theorem conseq {m : Prog σ ε α} (h : Triple P m Q E) (hp : ∀ s, P' s → P s)
    (hq : ∀ a s, Q a s → Q' a s) (he : ∀ e s, E e s → E' e s) : Triple P' m Q' E' := by
  intro s hs
  have h' := h s (hp s hs)
  cases hr : exec m s with
  | mk r t =>
      rw [hr] at h'
      cases r with
      | ok a => exact hq a t h'
      | error e => exact he e t h'

/-- Two conditions on one computation. -/
theorem and {m : Prog σ ε α} (h : Triple P m Q E) (h' : Triple P' m Q' E') :
    Triple (fun s => P s ∧ P' s) m (fun a s => Q a s ∧ Q' a s) fun e s => E e s ∧ E' e s := by
  intro s hs
  have hleft := h s hs.1
  have hright := h' s hs.2
  cases hr : exec m s with
  | mk r t =>
      rw [hr] at hleft hright
      cases r with
      | ok a => exact ⟨hleft, hright⟩
      | error e => exact ⟨hleft, hright⟩

/-- A condition on a known state. -/
theorem of_eq {m : Prog σ ε α} (h : ∀ s, P s → Triple (· = s) m Q E) : Triple P m Q E :=
  fun s hs => h s hs s rfl

/-- What holds of the outcome when the run returned. -/
theorem ok {m : Prog σ ε α} (h : Triple P m Q E) {s t : σ} {a : α} (hs : P s)
    (hr : exec m s = (.ok a, t)) : Q a t := by
  have h' := h s hs
  rwa [hr] at h'

/-- A loop keeps the state in step with the list of what it went through. -/
theorem forM {f : α → Prog σ ε Unit} {P : List α → σ → Prop} (l done : List α)
    (h : ∀ done x, x ∈ l → Triple (P done) (f x) (fun _ => P (done ++ [x])) E) :
    Triple (P done) (ForM.forM l f) (fun _ => P (done ++ l)) E := by
  induction l generalizing done with
  | nil =>
      refine Triple.pure fun s hs => ?_
      rwa [List.append_nil]
  | cons x l ih =>
      rw [List.forM_cons]
      refine Triple.bind (h done x (by simp)) fun _ => ?_
      have := ih (done ++ [x]) fun done y hy => h done y (by simp [hy])
      rwa [List.append_assoc] at this

/-- What holds of the state after every outcome. -/
theorem state {m : Prog σ ε α} {R : σ → Prop} (h : Triple P m (fun _ => R) fun _ => R) {s : σ}
    (hs : P s) : R (exec m s).2 := by
  have h' := h s hs
  cases hr : exec m s with
  | mk r t =>
      rw [hr] at h'
      cases r with
      | ok a => exact h'
      | error e => exact h'

end Triple

/-- From related states, wherever `m` returns `m'` returns too, and the states
are related again. -/
def Follows {τ δ : Type} (R : σ → τ → Prop) (m : Prog σ ε Unit) (m' : Prog τ δ Unit) : Prop :=
  ∀ s t s', R s t → exec m s = (.ok (), s') → ∃ t', exec m' t = (.ok (), t') ∧ R s' t'

namespace Follows

variable {τ δ : Type} {R : σ → τ → Prop}

theorem pure : Follows R (Pure.pure () : Prog σ ε Unit) (Pure.pure () : Prog τ δ Unit) := by
  intro s t s' hR h
  cases h
  exact ⟨t, rfl, hR⟩

theorem bind {m k : Prog σ ε Unit} {m' k' : Prog τ δ Unit} (hm : Follows R m m')
    (hk : Follows R k k') :
    Follows R (do m; k) (do m'; k') := by
  intro s t s' hR h
  rw [exec_bind] at h
  cases hr : exec m s with
  | mk r u =>
      rw [hr] at h
      cases r with
      | error e => cases h
      | ok a =>
          obtain ⟨t', ht', hR'⟩ := hm s t u hR hr
          rw [exec_bind_ok ht']
          exact hk u t' s' hR' h

/-- Two loops over one list. -/
theorem forM {f : α → Prog σ ε Unit} {g : α → Prog τ δ Unit} :
    ∀ {l : List α}, (∀ x ∈ l, Follows R (f x) (g x)) → Follows R (ForM.forM l f) (ForM.forM l g)
  | [], _ => pure
  | x :: l, h => by
      rw [List.forM_cons, List.forM_cons]
      exact (h x (by simp)).bind (forM fun y hy => h y (by simp [hy]))

end Follows

/-- Run where `P` holds, `m` ends where `P` holds, whatever its outcome. -/
def Stays (P : σ → Prop) (m : Prog σ ε α) : Prop := Triple P m (fun _ => P) fun _ => P

namespace Stays

variable {P : σ → Prop}

theorem pure (a : α) : Stays P (Pure.pure a : Prog σ ε α) := Triple.pure fun _ h => h

theorem fail (e : ε) : Stays P (Lib.fail e : Prog σ ε α) := Triple.fail fun _ h => h

theorem update {f : σ → σ} (h : ∀ s, P s → P (f s)) : Stays P (Lib.update f : Prog σ ε Unit) :=
  Triple.update h

theorem bind {m : Prog σ ε α} {k : α → Prog σ ε β} (hm : Stays P m) (hk : ∀ a, Stays P (k a)) :
    Stays P (m >>= k) :=
  Triple.bind hm hk

theorem read_bind {k : σ → Prog σ ε β} (h : ∀ s, P s → Stays P (k s)) :
    Stays P (Lib.read >>= k) :=
  Triple.read_bind fun s hs =>
    (h s hs).conseq (fun _ ht => ht ▸ hs) (fun _ _ ht => ht) fun _ _ ht => ht

theorem ite {c : Prop} [Decidable c] {m m' : Prog σ ε α} (hm : Stays P m) (hm' : Stays P m') :
    Stays P (if c then m else m') :=
  Triple.ite (fun _ => hm) fun _ => hm'

theorem state {m : Prog σ ε α} (h : Stays P m) {s : σ} (hs : P s) : P (exec m s).2 :=
  Triple.state h hs

end Stays

end Lib
