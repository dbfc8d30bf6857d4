import Derphole.Lib.Run
import Derphole.Probe.GlobalReceive

/-!
# Which packets of a run came

The part of `blastReceiveRunState` of `pkg/probe/session.go` that counts sequence
numbers, with the `uint64` arithmetic of the code.  `complete` compares a count with
the announced total, so it is right only while no accepted number lies at or above
the total.  `markDoneWithTotalBytes` sees to that for the numbers accepted before it,
and nothing does for those accepted after it.
-/

namespace Probe

open Lib

namespace RunSeqs

def empty : RunSeqs := ⟨SeqSet.empty, 0, 0, false, 0, 0, 0⟩

inductive Call where
  | acceptData (seq : Nat)
  | markDone (totalPackets totalBytes : Nat)
  deriving DecidableEq

def step (s : RunSeqs) : Call → Option RunSeqs
  | .acceptData seq => some (s.acceptData u64 seq).1
  | .markDone totalPackets totalBytes => some (s.markDoneWithTotalBytes totalPackets totalBytes)

/-- The number has a successor, and it is below the total once there is one. -/
def WithinTotal (s : RunSeqs) : Call → Prop
  | .acceptData seq => seq + 1 < 2 ^ 64 ∧ (s.done = true → seq < s.totalPackets)
  | .markDone _ _ => True

instance (s : RunSeqs) : ∀ call, Decidable (s.WithinTotal call)
  | .acceptData seq =>
      inferInstanceAs (Decidable (seq + 1 < 2 ^ 64 ∧ (s.done = true → seq < s.totalPackets)))
  | .markDone _ _ => inferInstanceAs (Decidable True)

/-- The set holds numbers below `maxSeqPlusOne` only, and that is below the total. -/
structure Counted (s : RunSeqs) : Prop where
  below : SeqSet.Below s.maxSeqPlusOne s.seen
  total : s.done = true → s.maxSeqPlusOne ≤ s.totalPackets

theorem Counted.empty : Counted RunSeqs.empty where
  below := SeqSet.Below.empty
  total := by simp [RunSeqs.empty]

theorem Counted.acceptData {s : RunSeqs} (h : Counted s) {seq : Nat} (hseq : seq + 1 < 2 ^ 64)
    (htotal : s.done = true → seq < s.totalPackets) : Counted (s.acceptData u64 seq).1 := by
  rw [RunSeqs.acceptData]
  split
  · constructor
    · show SeqSet.Below (max s.maxSeqPlusOne (u64 (seq + 1))) (s.seen.add seq).1
      rw [u64_of_lt hseq]
      exact (h.below.mono (Nat.le_max_left _ _)).add (by omega)
    · intro hdone
      have := h.total hdone
      have := htotal hdone
      show max s.maxSeqPlusOne (u64 (seq + 1)) ≤ s.totalPackets
      rw [u64_of_lt hseq]
      omega
  · exact h

theorem Counted.step {s t : RunSeqs} {call : Call} (h : Counted s) (hok : s.WithinTotal call)
    (hstep : s.step call = some t) : Counted t := by
  cases call with
  | acceptData seq =>
      cases hstep
      exact h.acceptData hok.1 hok.2
  | markDone totalPackets totalBytes =>
      cases hstep
      exact ⟨h.below, fun _ => Nat.le_max_right _ _⟩

/-- A complete count has every number below the total. -/
theorem Counted.has_of_complete {s : RunSeqs} (h : Counted s) (hcomplete : s.complete = true)
    {seq : Nat} (hseq : seq < s.totalPackets) : s.seen.has seq = true := by
  rw [complete, Bool.and_eq_true, decide_eq_true_eq] at hcomplete
  exact (h.below.mono (h.total hcomplete.1)).full hcomplete.2 hseq

/-- What is in the set was put there by a call. -/
theorem has_run {calls : List Call} {s t : RunSeqs} {seq : Nat}
    (hrun : runFrom step s calls = some t) (hseq : t.seen.has seq = true) :
    s.seen.has seq = true ∨ Call.acceptData seq ∈ calls := by
  induction calls generalizing s with
  | nil =>
      cases hrun
      exact .inl hseq
  | cons call calls ih =>
      obtain ⟨u, hstep, hrest⟩ := runFrom_cons hrun
      rcases ih hrest with hu | hmem
      · cases call with
        | acceptData q =>
            cases hstep
            rw [acceptData] at hu
            split at hu
            · rw [SeqSet.has_add, Bool.or_eq_true, decide_eq_true_eq] at hu
              rcases hu with hu | rfl
              · exact .inl hu
              · exact .inr List.mem_cons_self
            · exact .inl hu
        | markDone totalPackets totalBytes =>
            cases hstep
            exact .inl hu
      · exact .inr (List.mem_cons_of_mem call hmem)

/-- A run that is reported complete accepted every number below the total, if no number
came at or above a total announced before. -/
theorem complete_sound {calls : List Call} {s : RunSeqs} (hrun : runFrom step empty calls = some s)
    (hok : StepsMeet step WithinTotal empty calls) (hcomplete : s.complete = true) :
    ∀ seq < s.totalPackets, Call.acceptData seq ∈ calls := by
  intro seq hseq
  have hcounted : Counted s :=
    runFrom_invariant_of_meet (fun _ _ _ h hok hstep => h.step hok hstep) calls Counted.empty hok hrun
  rcases has_run hrun (hcounted.has_of_complete hcomplete hseq) with hempty | hmem
  · rw [show empty.seen = SeqSet.empty from rfl, SeqSet.has_empty] at hempty
    cases hempty
  · exact hmem

/-- Out of order, with the total in between. -/
def tidyCalls : List Call := [.acceptData 1, .markDone 3 0, .acceptData 2, .acceptData 0]

theorem complete_sound_tidy :
    ∃ s, runFrom step empty tidyCalls = some s ∧ s.totalPackets = 3 ∧
      ∀ seq < s.totalPackets, Call.acceptData seq ∈ tidyCalls := by
  have hany : (runFrom step empty tidyCalls).any
      (fun s => decide (s.complete = true ∧ s.totalPackets = 3)) = true := by decide +kernel
  obtain ⟨s, hrun, hs⟩ := (Option.any_eq_true ..).mp hany
  obtain ⟨hcomplete, htotal⟩ := of_decide_eq_true hs
  exact ⟨s, hrun, htotal, complete_sound hrun (by decide +kernel) hcomplete⟩

/-- Two packets are announced and number 5 comes in the place of number 1. -/
theorem complete_beyond_total :
    ∃ calls s, runFrom step empty calls = some s ∧ s.complete = true ∧
      ∃ seq < s.totalPackets, Call.acceptData seq ∉ calls := by
  have hany : (runFrom step empty [.markDone 2 0, .acceptData 0, .acceptData 5]).any
      (fun s => decide (s.complete = true ∧ s.totalPackets = 2)) = true := by decide +kernel
  obtain ⟨s, hrun, hs⟩ := (Option.any_eq_true ..).mp hany
  obtain ⟨hcomplete, htotal⟩ := of_decide_eq_true hs
  exact ⟨_, s, hrun, hcomplete, 1, by omega, by decide⟩

end RunSeqs

end Probe
