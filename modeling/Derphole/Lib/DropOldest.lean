import Derphole.Lib.Run
import Mathlib.Algebra.BigOperators.Fin
import Mathlib.Data.Fintype.BigOperators

/-!
# A bounded queue that drops its oldest entry

Producers share a channel.  One that finds it full takes the oldest entry out and then sends, and
in between the others go on: the entry it takes out need not be the one that was the oldest, there
may be none, and the room it made may be gone.

Whatever the interleaving, the entries of each producer leave the queue in their order, received or
dropped (`Inv.conserved`), and when all producers wait there is room for one (`Inv.room`).
-/

namespace Lib

/-- How far a producer is with its entry. -/
inductive Offer (α : Type) where
  | idle
  /-- It found the queue full. -/
  | full (a : α)
  /-- It sends, and waits for room. -/
  | waiting (a : α)
  /-- It sent, and reads the length. -/
  | measuring
  | noting (depth : Nat)

namespace Offer

variable {α : Type}

/-- The entry that is not in the queue yet. -/
def hand : Offer α → List α
  | .full a => [a]
  | .waiting a => [a]
  | _ => []

/-- It counted a drop that it has not made. -/
def owes : Offer α → Nat
  | .full _ => 1
  | _ => 0

def IsWaiting : Offer α → Prop
  | .waiting _ => True
  | _ => False

end Offer

/-- The queue, its producers and counters, and a record of what left the queue (and whether it was
received) and of what was offered. -/
structure DropOldest (ι α : Type) where
  queue : List (ι × α)
  producers : ι → Offer α
  drops : Nat
  maxDepth : Nat
  out : List (Bool × ι × α)
  offered : ι → List α

inductive DropOldestLabel (ι α : Type) where
  | offer (i : ι) (a : α)
  | drop (i : ι)
  | send (i : ι)
  | measure (i : ι)
  | note (i : ι)
  | receive

namespace DropOldest

variable {ι α : Type}

def init : DropOldest ι α where
  queue := []
  producers _ := .idle
  drops := 0
  maxDepth := 0
  out := []
  offered _ := []

/-- The entries of one producer. -/
def of [DecidableEq ι] (i : ι) (l : List (ι × α)) : List α :=
  l.filterMap fun p => if p.1 = i then some p.2 else none

section

variable [DecidableEq ι] (cap : Nat) (s : DropOldest ι α)

def setProducer (i : ι) (p : Offer α) : DropOldest ι α :=
  { s with producers := Function.update s.producers i p }

def push (i : ι) (a : α) : DropOldest ι α := { s with queue := s.queue ++ [(i, a)] }

/-- The first `select`. -/
def offer (i : ι) (a : α) : DropOldest ι α :=
  let t := { s with offered := Function.update s.offered i (s.offered i ++ [a]) }
  if t.queue.length < cap then (t.push i a).setProducer i .measuring
  else { t with drops := t.drops + 1 }.setProducer i (.full a)

/-- The oldest entry leaves the queue. -/
def pop (received : Bool) : Option (DropOldest ι α) :=
  match s.queue with
  | [] => none
  | p :: queue => some { s with queue := queue, out := s.out ++ [(received, p)] }

def step : DropOldestLabel ι α → Option (DropOldest ι α)
  | .offer i a =>
      match s.producers i with
      | .idle => some (s.offer cap i a)
      | _ => none
  | .drop i =>
      match s.producers i with
      | .full a => some (((s.pop false).getD s).setProducer i (.waiting a))
      | _ => none
  | .send i =>
      match s.producers i with
      | .waiting a => if s.queue.length < cap then some ((s.push i a).setProducer i .measuring) else none
      | _ => none
  | .measure i =>
      match s.producers i with
      | .measuring => some (s.setProducer i (.noting s.queue.length))
      | _ => none
  | .note i =>
      match s.producers i with
      | .noting depth => some ({ s with maxDepth := max s.maxDepth depth }.setProducer i .idle)
      | _ => none
  | .receive => s.pop true

end

/-- What left the queue and what is in it, in the order in which it was sent. -/
def sent (s : DropOldest ι α) : List (ι × α) := s.out.map Prod.snd ++ s.queue

def dropped (s : DropOldest ι α) : List (Bool × ι × α) := s.out.filter fun p => !p.1

structure Inv [DecidableEq ι] [Fintype ι] (cap : Nat) (s : DropOldest ι α) : Prop where
  length : s.queue.length ≤ cap
  depth : s.maxDepth ≤ cap ∧ ∀ i d, s.producers i = .noting d → d ≤ cap
  conserved : ∀ i, of i s.sent ++ (s.producers i).hand = s.offered i
  counted : s.dropped.length + ∑ i, (s.producers i).owes ≤ s.drops
  room : (∀ i, (s.producers i).IsWaiting) → s.queue.length < cap

theorem sent_pop {s t : DropOldest ι α} {received : Bool} (h : s.pop received = some t) :
    t.sent = s.sent := by
  unfold pop at h
  split at h
  · cases h
  next p queue hq =>
    cases h
    simp [sent, hq]

section

variable [DecidableEq ι]

@[simp] theorem producers_setProducer_self (s : DropOldest ι α) (i : ι) (p : Offer α) :
    (s.setProducer i p).producers i = p := Function.update_self _ _ _

theorem producers_setProducer_of_ne (s : DropOldest ι α) {i j : ι} (h : i ≠ j) (p : Offer α) :
    (s.setProducer i p).producers j = s.producers j := Function.update_of_ne h.symm _ _

theorem of_append (i : ι) (l l' : List (ι × α)) : of i (l ++ l') = of i l ++ of i l' :=
  List.filterMap_append

theorem of_single (i j : ι) (a : α) : of i [(j, a)] = if j = i then [a] else [] := by
  unfold of
  by_cases h : j = i
  · simp [h]
  · simp [h]

theorem of_sent_push (s : DropOldest ι α) (i j : ι) (a : α) :
    of j (s.push i a).sent = of j s.sent ++ if i = j then [a] else [] := by
  rw [← of_single, ← of_append]
  simp [sent, push]

variable [Fintype ι] {cap : Nat} {s : DropOldest ι α} {i : ι}

theorem owes_setProducer (s : DropOldest ι α) (i : ι) (p : Offer α) :
    ∑ j, ((s.setProducer i p).producers j).owes + (s.producers i).owes =
      ∑ j, (s.producers j).owes + p.owes := by
  have hcongr : ∀ j ∈ Finset.univ.erase i,
      ((s.setProducer i p).producers j).owes = (s.producers j).owes := by
    intro j hj
    rw [producers_setProducer_of_ne s (Finset.ne_of_mem_erase hj).symm]
  rw [← Finset.add_sum_erase _ _ (Finset.mem_univ i), ← Finset.add_sum_erase (Finset.univ)
    (fun j => (s.producers j).owes) (Finset.mem_univ i), Finset.sum_congr rfl hcongr]
  rw [producers_setProducer_self]
  omega

theorem Inv.init (hcap : 0 < cap) : Inv cap (init : DropOldest ι α) where
  length := Nat.zero_le _
  depth := ⟨Nat.zero_le _, fun _ _ h => nomatch h⟩
  conserved _ := rfl
  counted := by simp [DropOldest.init, dropped, Offer.owes]
  room _ := hcap

/-- What a step of a producer has to show. -/
theorem Inv.of_producer (hi : Inv cap s) {t : DropOldest ι α} {p : Offer α}
    (hproducers : t.producers = s.producers) (hlength : t.queue.length ≤ cap) (hdepth : t.maxDepth ≤ cap)
    (hnoting : ∀ d, p = .noting d → d ≤ cap) (hown : of i t.sent ++ p.hand = t.offered i)
    (hothers : ∀ j, i ≠ j → of j t.sent = of j s.sent ∧ t.offered j = s.offered j)
    (hcount : t.dropped.length + p.owes + s.drops ≤ s.dropped.length + (s.producers i).owes + t.drops)
    (hroom : p.IsWaiting → t.queue.length < cap) : Inv cap (t.setProducer i p) where
  length := hlength
  depth := by
    refine ⟨hdepth, fun j d hj => ?_⟩
    by_cases hji : i = j
    · subst hji
      rw [producers_setProducer_self] at hj
      exact hnoting d hj
    · rw [producers_setProducer_of_ne t hji, hproducers] at hj
      exact hi.depth.2 j d hj
  conserved j := by
    by_cases hji : i = j
    · subst hji
      rw [producers_setProducer_self]
      exact hown
    · obtain ⟨hsent, hoffered⟩ := hothers j hji
      have hj := hi.conserved j
      rw [← hsent, ← hoffered, ← hproducers] at hj
      rw [producers_setProducer_of_ne t hji]
      exact hj
  counted := by
    have hsum := owes_setProducer t i p
    rw [hproducers] at hsum
    have hold := hi.counted
    have hdropped : (t.setProducer i p).dropped = t.dropped := rfl
    have hdrops : (t.setProducer i p).drops = t.drops := rfl
    rw [hdropped, hdrops]
    omega
  room hall := by
    refine hroom ?_
    simpa using hall i

theorem Inv.push_idle (hi : Inv cap s) {a : α} {t : DropOldest ι α} (hproducers : t.producers = s.producers)
    (hqueue : t.queue = s.queue) (hout : t.out = s.out) (hdrops : t.drops = s.drops)
    (hdepth : t.maxDepth = s.maxDepth) (hroom : s.queue.length < cap)
    (hown : of i s.sent ++ [a] = t.offered i) (hothers : ∀ j, i ≠ j → t.offered j = s.offered j) :
    Inv cap ((t.push i a).setProducer i .measuring) := by
  have hsent : ∀ j, of j (t.push i a).sent = of j s.sent ++ if i = j then [a] else [] := by
    intro j
    rw [of_sent_push]
    simp [sent, hqueue, hout]
  refine hi.of_producer hproducers ?_ (hdepth ▸ hi.depth.1) (fun _ h => nomatch h) ?_ ?_ ?_ (fun h => h.elim)
  · simp only [push, hqueue, List.length_append, List.length_singleton]
    omega
  · rw [hsent, if_pos rfl, hown]
    exact List.append_nil _
  · intro j hj
    rw [hsent, if_neg hj, List.append_nil]
    exact ⟨rfl, hothers j hj⟩
  · simp only [push, dropped, hout, hdrops, Offer.owes]
    omega

theorem Inv.offer (hi : Inv cap s) (hidle : s.producers i = .idle) (a : α) : Inv cap (s.offer cap i a) := by
  have hown : of i s.sent = s.offered i := by simpa [hidle, Offer.hand] using hi.conserved i
  unfold DropOldest.offer
  dsimp only
  split
  · next hroom =>
      refine hi.push_idle rfl rfl rfl rfl rfl hroom ?_ ?_
      · simp [hown]
      · intro j hj
        simp [Function.update_of_ne (Ne.symm hj)]
  · refine hi.of_producer rfl hi.length hi.depth.1 (fun _ h => nomatch h) ?_ ?_ ?_ (fun h => h.elim)
    · simp [sent, Offer.hand, ← hown]
    · intro j hj
      simp [sent, Function.update_of_ne (Ne.symm hj)]
    · simp only [dropped, Offer.owes, hidle]
      omega

theorem Inv.drop (hcap : 0 < cap) (hi : Inv cap s) {a : α} (hfull : s.producers i = .full a) :
    Inv cap (((s.pop false).getD s).setProducer i (.waiting a)) := by
  have hown := hi.conserved i
  rw [hfull] at hown
  cases hpop : s.pop false with
  | none =>
      have hempty : s.queue = [] := by
        unfold pop at hpop
        split at hpop
        · next hq => exact hq
        · cases hpop
      refine hi.of_producer rfl hi.length hi.depth.1 (fun _ h => nomatch h) hown (fun j _ => ⟨rfl, rfl⟩) ?_ ?_
      · simp only [Option.getD_none, Offer.owes]
        omega
      · intro _
        simp [hempty, hcap]
  | some t =>
      have hsent := sent_pop hpop
      unfold pop at hpop
      split at hpop
      · cases hpop
      next p queue hq =>
        have hlength := hi.length
        rw [hq, List.length_cons] at hlength
        cases hpop
        refine hi.of_producer rfl ?_ hi.depth.1 (fun _ h => nomatch h) ?_ ?_ ?_ ?_
        · simp only [Option.getD_some]
          omega
        · rw [Option.getD_some, hsent]
          exact hown
        · intro j _
          rw [Option.getD_some, hsent]
          exact ⟨rfl, rfl⟩
        · simp [dropped, Offer.owes, hfull]
        · intro _
          simp only [Option.getD_some]
          omega

theorem Inv.pop_received (hi : Inv cap s) {t : DropOldest ι α} (h : s.pop true = some t) : Inv cap t := by
  have hsent := sent_pop h
  unfold pop at h
  split at h
  · cases h
  next p queue hq =>
    have hlength := hi.length
    rw [hq, List.length_cons] at hlength
    cases h
    refine ⟨?_, hi.depth, fun i => by rw [hsent]; exact hi.conserved i, ?_, ?_⟩
    · simp only
      omega
    · simpa [dropped] using hi.counted
    · intro _
      simp only
      omega

theorem Inv.step (hcap : 0 < cap) (hi : Inv cap s) {l : DropOldestLabel ι α} {t : DropOldest ι α}
    (h : s.step cap l = some t) : Inv cap t := by
  cases l with
  | offer i a =>
      simp only [DropOldest.step] at h
      split at h
      · next hidle =>
          cases h
          exact hi.offer hidle a
      · cases h
  | drop i =>
      simp only [DropOldest.step] at h
      split at h
      · next a hfull =>
          cases h
          exact hi.drop hcap hfull
      · cases h
  | send i =>
      simp only [DropOldest.step] at h
      split at h
      · next a hwaiting =>
          split at h
          · next hroom =>
              cases h
              refine hi.push_idle rfl rfl rfl rfl rfl hroom ?_ fun _ _ => rfl
              simpa [hwaiting, Offer.hand] using hi.conserved i
          · cases h
      · cases h
  | measure i =>
      simp only [DropOldest.step] at h
      split at h
      · next hmeasuring =>
          cases h
          refine hi.of_producer rfl hi.length hi.depth.1 ?_ ?_ (fun _ _ => ⟨rfl, rfl⟩) ?_ (fun h => h.elim)
          · intro d hd
            cases hd
            exact hi.length
          · simpa [hmeasuring, Offer.hand] using hi.conserved i
          · simp only [Offer.owes]
            omega
      · cases h
  | note i =>
      simp only [DropOldest.step] at h
      split at h
      · next depth hnoting =>
          cases h
          refine hi.of_producer rfl hi.length ?_ (fun _ h => nomatch h) ?_ (fun _ _ => ⟨rfl, rfl⟩) ?_
            (fun h => h.elim)
          · exact Nat.max_le.mpr ⟨hi.depth.1, hi.depth.2 i depth hnoting⟩
          · simpa [hnoting, Offer.hand, sent] using hi.conserved i
          · simp only [Offer.owes, dropped]
            omega
      · cases h
  | receive => exact hi.pop_received h

end

theorem pop_offered {s t : DropOldest ι α} {received : Bool} (h : s.pop received = some t) : t.offered = s.offered := by
  unfold pop at h
  split at h
  · cases h
  · cases h
    rfl

section

variable [DecidableEq ι] {cap : Nat} {s t : DropOldest ι α}

/-- Only `offer` adds to what was offered. -/
theorem step_offered {l : DropOldestLabel ι α} (h : s.step cap l = some t) (j : ι) :
    t.offered j = s.offered j ++
      match l with
      | .offer i a => of j [(i, a)]
      | _ => [] := by
  cases l with
  | offer i a =>
      simp only [step] at h
      split at h
      · cases h
        dsimp only
        rw [of_single]
        have hoffered : (s.offer cap i a).offered = Function.update s.offered i (s.offered i ++ [a]) := by
          unfold offer
          dsimp only
          split
          · rfl
          · rfl
        rw [hoffered]
        by_cases hij : i = j
        · subst hij
          simp
        · simp [hij, Function.update_of_ne (Ne.symm hij)]
      · cases h
  | drop i =>
      simp only [step] at h
      split at h
      · cases h
        have hpop : ((s.pop false).getD s).offered = s.offered := by
          cases hp : s.pop false with
          | none => rfl
          | some u => exact pop_offered hp
        simp [setProducer, hpop]
      · cases h
  | send i =>
      simp only [step] at h
      split at h
      · split at h
        · cases h
          simp [setProducer, push]
        · cases h
      · cases h
  | measure i =>
      simp only [step] at h
      split at h
      · cases h
        simp [setProducer]
      · cases h
  | note i =>
      simp only [step] at h
      split at h
      · cases h
        simp [setProducer]
      · cases h
  | receive =>
      rw [pop_offered h]
      simp

end

end DropOldest

end Lib
