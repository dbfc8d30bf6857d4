import Derphole.Probe.StripedPaths

/-!
# A stripe only moves forward

No packet, of any kind and with any contents, moves the expected sequence number
of a stripe back or makes a striped run unstriped.  `Ahead c₀ c` says that `c` is
at least as far as `c₀` in this sense; it is kept by every buffer step, and so by
every method of the receiver.
-/

namespace Probe

open Lib

/-- The coordinator is at least as far as `c₀`. -/
structure Ahead (c₀ c : Coord) : Prop where
  striped : c₀.run.striped = true → c.run.striped = true
  expectedSeq : ∀ id, (c₀.run.stripe id).expectedSeq ≤ (c.run.stripe id).expectedSeq

/-- A step leaves a striped run striped. -/
theorem BufferStep.striped {s s' : RunState} {e : Option SpoolEvent} (h : BufferStep s e s')
    (hs : s.striped = true) : s'.striped = true := by
  cases h with
  | quiet _ hprogress => exact (congrArg Prod.fst hprogress).trans hs
  | stripe _ _ hstriped _ => exact hstriped hs
  | unspoolFuture => exact (congrArg Prod.fst (RunState.maybeClose_progress _)).trans hs
  | unspoolPending => exact (congrArg Prod.fst (RunState.maybeClose_progress _)).trans hs
  | _ => exact hs

/-- A step replaces at most one stripe, by one at least as far. -/
theorem BufferStep.stripes {s s' : RunState} {e : Option SpoolEvent} (h : BufferStep s e s') :
    s'.stripes = s.stripes ∨ ∃ id st, s'.stripes = (s.updateStripe id fun _ => st).stripes ∧
      (s.stripe id).expectedSeq ≤ st.expectedSeq := by
  cases h with
  | quiet _ hprogress => exact .inl (congrArg Prod.snd hprogress)
  | stripe _ hstripes _ hst => exact .inr ⟨_, _, hstripes, hst.expectedSeq⟩
  | bufferFuture => exact .inr ⟨_, _, rfl, Nat.le_refl _⟩
  | spoolFuture => exact .inr ⟨_, _, rfl, Nat.le_refl _⟩
  | takeFuture => exact .inr ⟨_, _, rfl, Nat.le_refl _⟩
  | unspoolFuture => exact .inr ⟨_, _, maybeClose_stripes _, Nat.le_refl _⟩
  | bufferPending => exact .inl rfl
  | spoolPending => exact .inl rfl
  | takePending => exact .inl rfl
  | unspoolPending => exact .inl (maybeClose_stripes _)

theorem BufferStep.expectedSeq_le {s s' : RunState} {e : Option SpoolEvent} (h : BufferStep s e s')
    (j : Nat) : (s.stripe j).expectedSeq ≤ (s'.stripe j).expectedSeq := by
  rcases h.stripes with hsame | ⟨id, st, hstripes, hst⟩
  · rw [RunState.stripe.eq_1 s', hsame]
    exact Nat.le_refl _
  · rw [RunState.stripe.eq_1 s', hstripes, ← RunState.stripe, RunState.stripe_updateStripe]
    split
    · rename_i hj
      rw [hj]
      exact hst
    · exact Nat.le_refl _

/-- `m` moves no stripe back, whatever its outcome. -/
def Forward {α : Type} (m : Recv α) : Prop := ∀ c₀, Stays (Ahead c₀) m

/-- A path leads forward. -/
theorem Forward.of_traced {α : Type} {m : Recv α} (hm : Traced m) : Forward m := by
  intro c₀ c hc
  obtain ⟨es, htrace⟩ := hm c
  have hahead : Ahead c₀ (exec m c).2 := by
    refine ⟨fun h₀ => ?_, fun id => ?_⟩
    · exact htrace.invariant (I := fun s => s.striped = true)
        (fun _ _ _ hs hstep => hstep.striped hs) (hc.striped h₀)
    · exact htrace.invariant
        (I := fun s => (c₀.run.stripe id).expectedSeq ≤ (s.stripe id).expectedSeq)
        (fun _ _ _ hle hstep => Nat.le_trans hle (hstep.expectedSeq_le id)) (hc.expectedSeq id)
  cases hr : exec m c with
  | mk r t =>
      rw [hr] at hahead
      cases r with
      | ok a => exact hahead
      | error e => exact hahead

/-- Whatever arrives, no stripe moves back. -/
theorem ahead_receivePacket (cfg : RecvConfig) (a : Arrival) (c : Coord) :
    Ahead c (exec (receivePacket cfg a) c).2 :=
  (Forward.of_traced (Traced.receivePacket cfg a) c).state ⟨id, fun _ => Nat.le_refl _⟩

end Probe
