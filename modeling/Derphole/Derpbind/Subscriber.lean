import Derphole.Lib.Run

/-!
# Lossless subscribers

`packetSubscriber` of `pkg/derpbind/client.go` in its lossless mode.  Four parties share it:
`recvLoop`, which finds the packets that match and enqueues them; `run`, which pumps them into the
channel; the consumer, which reads the channel; and whoever unsubscribes or closes the client.
Every label is one action of one of them, up to the next point where another may come between:
a lock, a channel operation or a `select`.

A `select` with several ready cases takes any of them.  Other subscribers only change how long
`recvLoop` is away.
-/

namespace Derpbind

open Lib

/-- `losslessSubscriberQueueSize`. -/
def losslessSubscriberQueueSize : Nat := 64

/-- The capacity of the channel that `subscribe` makes. -/
def subscriberChannelSize : Nat := 16

/-- Where `recvLoop` is in `enqueue`. -/
inductive ProducerPc (π : Type) where
  | idle
  /-- The packet matched. -/
  | matched (pkt : π)
  /-- At the `select` on `queueSlots`. -/
  | acquiring (pkt : π)
  /-- It has a slot. -/
  | holding (pkt : π)
  /-- The packet is in the queue. -/
  | signalling
  deriving DecidableEq

/-- Where `run` is. -/
inductive PumpPc (π : Type) where
  | looking
  /-- At the `select` of `nextQueuedPacket`. -/
  | waiting
  /-- At the `select` on the channel. -/
  | handing (pkt : π)
  /-- About to give back the slot. -/
  | releasing (delivered : Bool)
  /-- At its deferred call. -/
  | leaving
  | exited
  deriving DecidableEq

/-- Where the unsubscribe function is. -/
inductive CloserPc where
  | idle
  /-- The subscriber is no longer in the map. -/
  | removed
  /-- `closed` is set. -/
  | marked
  | returned
  deriving DecidableEq

/-- `packetSubscriber` with the state of the parties.  `found` lists the packets that matched,
`reads` those that the consumer has read. -/
structure Subscriber (π : Type) where
  registered : Bool
  queue : List π
  /-- Tokens in `queueSlots`. -/
  slots : Nat
  /-- There is a token in `queueReady`. -/
  ready : Bool
  closed : Bool
  /-- `done` is closed. -/
  done : Bool
  /-- `once` has been used. -/
  once : Bool
  ch : List π
  chClosed : Bool
  /-- `stopCh` is closed. -/
  stopped : Bool
  producer : ProducerPc π
  pump : PumpPc π
  closer : CloserPc
  found : List π
  reads : List π

inductive Label (π : Type) where
  /-- `recvLoop` receives a packet. -/
  | receive (pkt : π)
  /-- The first `select` of `enqueue`. -/
  | check
  | acquire
  | refuse
  | append
  | signal
  | look
  | wake
  | quit
  | put
  | drop
  | release
  | leave
  /-- The consumer reads. -/
  | read
  | unsubscribe
  | mark
  | closeDone
  /-- The client is closed. -/
  | stop

namespace Subscriber

variable {π : Type}

def init : Subscriber π where
  registered := true
  queue := []
  slots := 0
  ready := false
  closed := false
  done := false
  once := false
  ch := []
  chClosed := false
  stopped := false
  producer := .idle
  pump := .looking
  closer := .idle
  found := []
  reads := []

/-- `done` or `stopCh` is closed. -/
def ending (s : Subscriber π) : Bool := s.done || s.stopped

/-! ## The parties -/

section

variable (s : Subscriber π)

/-- `dispatchSubscriber` applies the filters of the subscribers in the map. -/
def receive (filter : π → Bool) (pkt : π) : Option (Subscriber π) :=
  match s.producer with
  | .idle =>
      if s.registered && filter pkt then
        some { s with producer := .matched pkt, found := s.found ++ [pkt] }
      else some s
  | _ => none

def check : Option (Subscriber π) :=
  match s.producer with
  | .matched pkt =>
      some { s with producer := if s.ending then .idle else .acquiring pkt }
  | _ => none

def acquire : Option (Subscriber π) :=
  match s.producer with
  | .acquiring pkt =>
      if s.slots < losslessSubscriberQueueSize then
        some { s with producer := .holding pkt, slots := s.slots + 1 }
      else none
  | _ => none

def refuse : Option (Subscriber π) :=
  match s.producer with
  | .acquiring _ => if s.ending then some { s with producer := .idle } else none
  | _ => none

def append : Option (Subscriber π) :=
  match s.producer with
  | .holding pkt =>
      if s.closed then some { s with producer := .idle, slots := s.slots - 1 }
      else some { s with producer := .signalling, queue := s.queue ++ [pkt] }
  | _ => none

def signal : Option (Subscriber π) :=
  match s.producer with
  | .signalling => some { s with producer := .idle, ready := true }
  | _ => none

def look : Option (Subscriber π) :=
  match s.pump, s.queue with
  | .looking, [] => some { s with pump := .waiting }
  | .looking, pkt :: queue => some { s with pump := .handing pkt, queue := queue }
  | _, _ => none

def wake : Option (Subscriber π) :=
  match s.pump with
  | .waiting => if s.ready then some { s with pump := .looking, ready := false } else none
  | _ => none

def quit : Option (Subscriber π) :=
  match s.pump with
  | .waiting => if s.ending then some { s with pump := .leaving } else none
  | _ => none

def put : Option (Subscriber π) :=
  match s.pump with
  | .handing pkt =>
      if s.ch.length < subscriberChannelSize then
        some { s with pump := .releasing true, ch := s.ch ++ [pkt] }
      else none
  | _ => none

def drop : Option (Subscriber π) :=
  match s.pump with
  | .handing _ => if s.ending then some { s with pump := .releasing false } else none
  | _ => none

def release : Option (Subscriber π) :=
  match s.pump with
  | .releasing delivered =>
      some { s with pump := if delivered then .looking else .leaving, slots := s.slots - 1 }
  | _ => none

/-- `run` closes the channel, unless `once` was used by `close`. -/
def leave : Option (Subscriber π) :=
  match s.pump with
  | .leaving => some { s with pump := .exited, chClosed := s.chClosed || !s.once, once := true }
  | _ => none

def read : Option (Subscriber π) :=
  match s.ch with
  | [] => none
  | pkt :: ch => some { s with ch := ch, reads := s.reads ++ [pkt] }

def unsubscribe : Option (Subscriber π) :=
  if s.registered then some { s with registered := false, closer := .removed } else none

/-- `close` up to the closing of `done`, unless `once` was used by `run`. -/
def mark : Option (Subscriber π) :=
  match s.closer with
  | .removed =>
      if s.once then some { s with closer := .returned }
      else some { s with closer := .marked, closed := true, once := true }
  | _ => none

def closeDone : Option (Subscriber π) :=
  match s.closer with
  | .marked => some { s with closer := .returned, done := true }
  | _ => none

end

def step (filter : π → Bool) (s : Subscriber π) : Label π → Option (Subscriber π)
  | .receive pkt => s.receive filter pkt
  | .check => s.check
  | .acquire => s.acquire
  | .refuse => s.refuse
  | .append => s.append
  | .signal => s.signal
  | .look => s.look
  | .wake => s.wake
  | .quit => s.quit
  | .put => s.put
  | .drop => s.drop
  | .release => s.release
  | .leave => s.leave
  | .read => s.read
  | .unsubscribe => s.unsubscribe
  | .mark => s.mark
  | .closeDone => s.closeDone
  | .stop => some { s with stopped := true }

/-! ## Packets on their way -/

end Subscriber

/-- The packet that `recvLoop` has in hand. -/
def ProducerPc.pkts {π : Type} : ProducerPc π → List π
  | .matched pkt | .acquiring pkt | .holding pkt => [pkt]
  | .idle | .signalling => []

/-- The slot that `recvLoop` has for a packet outside the queue. -/
def ProducerPc.slot {π : Type} : ProducerPc π → Nat
  | .holding _ => 1
  | _ => 0

/-- It may still append. -/
def ProducerPc.Appends {π : Type} : ProducerPc π → Prop
  | .acquiring _ | .holding _ => True
  | _ => False

/-- The packet that `run` has in hand. -/
def PumpPc.pkts {π : Type} : PumpPc π → List π
  | .handing pkt => [pkt]
  | _ => []

def PumpPc.slot {π : Type} : PumpPc π → Nat
  | .handing _ | .releasing _ => 1
  | _ => 0

/-- It will take another packet. -/
def PumpPc.alive {π : Type} : PumpPc π → Bool
  | .looking | .waiting | .handing _ | .releasing true => true
  | .releasing false | .leaving | .exited => false

namespace Subscriber

variable {π : Type}

/-- What `run` still has to put into the channel. -/
def backlog (s : Subscriber π) : List π :=
  if s.pump.alive then s.pump.pkts ++ s.queue else []

/-- The packets that were taken over from `recvLoop` and are not lost, oldest first. -/
def flow (s : Subscriber π) : List π := s.reads ++ (s.ch ++ s.backlog)

/-- Nothing is taken over any more. -/
def Ended (s : Subscriber π) : Prop :=
  s.pump.alive = false ∨ s.closed = true ∨ (s.stopped = true ∧ ¬ s.producer.Appends)

/-- Every packet that matched is still there. -/
def Intact (s : Subscriber π) : Prop := s.found = s.flow ++ s.producer.pkts

/-- What every step keeps.  A packet is lost only at the end of the subscription. -/
structure Inv (s : Subscriber π) : Prop where
  order : s.Intact ∨ (s.flow <+: s.found ∧ s.Ended)
  slots : s.slots = s.queue.length + s.producer.slot + s.pump.slot
  bound : s.slots ≤ losslessSubscriberQueueSize
  fresh : s.registered = true → s.closer = .idle ∧ s.closed = false
  marked : s.closer = .marked → s.closed = true
  closed : s.done = true → s.closed = true
  dead : s.pump.alive = false → s.ending = true

theorem Inv.init : Inv (Subscriber.init : Subscriber π) where
  order := .inl rfl
  slots := rfl
  bound := Nat.zero_le _
  fresh := fun _ => ⟨rfl, rfl⟩
  marked := fun h => by cases h
  closed := fun h => by cases h
  dead := fun h => by cases h

theorem Inv.flow_prefix {s : Subscriber π} (hi : Inv s) : s.flow <+: s.found := by
  rcases hi.order with h | h
  · rw [h]
    exact List.prefix_append _ _
  · exact h.1

theorem Inv.closed_or_stopped {s : Subscriber π} (hi : Inv s) (h : s.ending = true) :
    s.closed = true ∨ s.stopped = true := by
  simp only [ending, Bool.or_eq_true] at h
  exact h.imp hi.closed id

/-- Until the subscription ends nothing that matched is missing. -/
theorem Inv.intact {s : Subscriber π} (hi : Inv s) (hr : s.registered = true)
    (hs : s.stopped = false) : s.Intact := by
  have hc := (hi.fresh hr).2
  rcases hi.order with h | ⟨-, h | h | h⟩
  · exact h
  · rcases hi.closed_or_stopped (hi.dead h) with h | h
    · rw [hc] at h
      cases h
    · rw [hs] at h
      cases h
  · rw [hc] at h
    cases h
  · rw [hs] at h
    cases h.1

/-! ## What a step keeps -/

section Steps

variable {filter : π → Bool} {pkt : π} {s t : Subscriber π}

/-- A packet is given up when the subscription is over. -/
theorem Inv.giveUp (hi : Inv s) (hf : t.found = s.found) (hp : t.flow <+: s.flow)
    (he : t.Ended) : t.Intact ∨ (t.flow <+: t.found ∧ t.Ended) := by
  right
  rw [hf]
  exact ⟨hp.trans hi.flow_prefix, he⟩

/-- `recvLoop` turns away from a subscription that is over. -/
theorem Inv.ended (hi : Inv s) (hov : s.ending = true)
    (ht : ¬ t.producer.Appends) (hc : t.closed = s.closed) (hs : t.stopped = s.stopped) :
    t.Ended := by
  rcases hi.closed_or_stopped hov with h | h
  · exact .inr (.inl (hc.trans h))
  · exact .inr (.inr ⟨hs.trans h, ht⟩)

theorem Inv.receive (hi : Inv s) (h : s.receive filter pkt = some t) : Inv t := by
  unfold Subscriber.receive at h
  split at h
  · next hp =>
      split at h
      · cases h
        refine { hi with order := ?_, slots := ?_ }
        · rcases hi.order with ho | ⟨ho, he⟩
          · left
            simp only [Intact, hp, ProducerPc.pkts, List.append_nil] at ho ⊢
            rw [ho]
            rfl
          · right
            refine ⟨ho.trans (List.prefix_append _ _), ?_⟩
            exact he.imp id (Or.imp id fun he => ⟨he.1, fun h => h⟩)
        · simpa [hp, ProducerPc.slot] using hi.slots
      · cases h
        exact hi
  · cases h

theorem Inv.check (hi : Inv s) (h : s.check = some t) : Inv t := by
  unfold Subscriber.check at h
  split at h
  · next p hp =>
      cases h
      split
      · next hov =>
          refine { hi with order := ?_, slots := ?_ }
          · exact hi.giveUp rfl List.prefix_rfl (hi.ended hov id rfl rfl)
          · simpa [hp, ProducerPc.slot] using hi.slots
      · next hov =>
          refine { hi with order := ?_, slots := ?_ }
          · rcases hi.order with ho | ⟨ho, he⟩
            · left
              simpa [Intact, hp, flow, backlog, ProducerPc.pkts] using ho
            · right
              refine ⟨ho, he.imp id (Or.imp id fun he => ?_)⟩
              simp [ending, he.1] at hov
          · simpa [hp, ProducerPc.slot] using hi.slots
  · cases h

theorem Inv.acquire (hi : Inv s) (h : s.acquire = some t) : Inv t := by
  unfold Subscriber.acquire at h
  split at h
  · next p hp =>
      split at h
      · next hlt =>
          cases h
          refine { hi with order := ?_, slots := ?_, bound := hlt }
          · rcases hi.order with ho | ⟨ho, he⟩
            · left
              simpa [Intact, hp, flow, backlog, ProducerPc.pkts] using ho
            · right
              refine ⟨ho, he.imp id (Or.imp id fun he => ?_)⟩
              simp [hp, ProducerPc.Appends] at he
          · have := hi.slots
            simp only [hp, ProducerPc.slot] at this ⊢
            omega
      · cases h
  · cases h

theorem Inv.refuse (hi : Inv s) (h : s.refuse = some t) : Inv t := by
  unfold Subscriber.refuse at h
  split at h
  · next p hp =>
      split at h
      · next hov =>
          cases h
          refine { hi with order := ?_, slots := ?_ }
          · exact hi.giveUp rfl List.prefix_rfl (hi.ended hov id rfl rfl)
          · simpa [hp, ProducerPc.slot] using hi.slots
      · cases h
  · cases h

theorem Inv.append (hi : Inv s) (h : s.append = some t) : Inv t := by
  have hslots := hi.slots
  have hbound := hi.bound
  unfold Subscriber.append at h
  split at h
  · next p hp =>
      simp only [hp, ProducerPc.slot] at hslots
      split at h
      · next hc =>
          cases h
          refine { hi with order := ?_, slots := ?_, bound := ?_ }
          · exact hi.giveUp rfl List.prefix_rfl (.inr (.inl hc))
          · simp only [ProducerPc.slot]
            omega
          · exact Nat.le_trans (Nat.sub_le _ _) hbound
      · next hc =>
          cases h
          refine { hi with order := ?_, slots := ?_ }
          · cases ha : s.pump.alive with
            | false =>
                -- The packet stays in the queue of a pump that has left.
                refine hi.giveUp rfl ?_ (.inl ha)
                simp [flow, backlog, ha]
            | true =>
                rcases hi.order with ho | ⟨-, he | he | he⟩
                · left
                  simpa [Intact, hp, flow, backlog, ProducerPc.pkts, ha] using ho
                · rw [ha] at he
                  cases he
                · exact absurd he hc
                · simp [hp, ProducerPc.Appends] at he
          · simp only [ProducerPc.slot, List.length_append, List.length_singleton]
            omega
  · cases h

theorem Inv.signal (hi : Inv s) (h : s.signal = some t) : Inv t := by
  unfold Subscriber.signal at h
  split at h
  · next hp =>
      cases h
      refine { hi with order := ?_, slots := ?_ }
      · rcases hi.order with ho | ⟨ho, he⟩
        · left
          simpa [Intact, hp, flow, backlog, ProducerPc.pkts] using ho
        · right
          exact ⟨ho, he.imp id (Or.imp id fun he => ⟨he.1, id⟩)⟩
      · simpa [hp, ProducerPc.slot] using hi.slots
  · cases h

theorem Inv.look (hi : Inv s) (h : s.look = some t) : Inv t := by
  have hslots := hi.slots
  unfold Subscriber.look at h
  split at h
  · next hp hq =>
      cases h
      refine { hi with order := ?_, slots := ?_, dead := ?_ }
      · have ho := hi.order
        simpa [Intact, Ended, flow, backlog, PumpPc.alive, PumpPc.pkts, hp, hq] using ho
      · simpa [hp, hq, PumpPc.slot] using hslots
      · intro hd
        cases hd
  · next p queue hp hq =>
      cases h
      refine { hi with order := ?_, slots := ?_, dead := ?_ }
      · have ho := hi.order
        simpa [Intact, Ended, flow, backlog, PumpPc.alive, PumpPc.pkts, hp, hq] using ho
      · simp only [hp, hq, PumpPc.slot, List.length_cons] at hslots ⊢
        omega
      · intro hd
        cases hd
  · cases h

theorem Inv.wake (hi : Inv s) (h : s.wake = some t) : Inv t := by
  unfold Subscriber.wake at h
  split at h
  · next hp =>
      split at h
      · cases h
        refine { hi with order := ?_, slots := ?_, dead := ?_ }
        · have ho := hi.order
          simpa [Intact, Ended, flow, backlog, PumpPc.alive, PumpPc.pkts, hp] using ho
        · simpa [hp, PumpPc.slot] using hi.slots
        · intro hd
          cases hd
      · cases h
  · cases h

theorem Inv.quit (hi : Inv s) (h : s.quit = some t) : Inv t := by
  unfold Subscriber.quit at h
  split at h
  · next hp =>
      split at h
      · next hov =>
          cases h
          refine { hi with order := ?_, slots := ?_, dead := fun _ => hov }
          · refine hi.giveUp rfl ?_ (.inl rfl)
            simp [flow, backlog, PumpPc.alive]
          · simpa [hp, PumpPc.slot] using hi.slots
      · cases h
  · cases h

theorem Inv.put (hi : Inv s) (h : s.put = some t) : Inv t := by
  unfold Subscriber.put at h
  split at h
  · next p hp =>
      split at h
      · cases h
        refine { hi with order := ?_, slots := ?_, dead := ?_ }
        · have ho := hi.order
          simpa [Intact, Ended, flow, backlog, PumpPc.alive, PumpPc.pkts, hp] using ho
        · simpa [hp, PumpPc.slot] using hi.slots
        · intro hd
          cases hd
      · cases h
  · cases h

theorem Inv.drop (hi : Inv s) (h : s.drop = some t) : Inv t := by
  unfold Subscriber.drop at h
  split at h
  · next p hp =>
      split at h
      · next hov =>
          cases h
          refine { hi with order := ?_, slots := ?_, dead := fun _ => hov }
          · refine hi.giveUp rfl ?_ (.inl rfl)
            simp [flow, backlog, PumpPc.alive]
          · simpa [hp, PumpPc.slot] using hi.slots
      · cases h
  · cases h

theorem Inv.release (hi : Inv s) (h : s.release = some t) : Inv t := by
  have hslots := hi.slots
  have hbound := hi.bound
  have ho := hi.order
  unfold Subscriber.release at h
  split at h
  · next delivered hp =>
      cases h
      refine { hi with order := ?_, slots := ?_, bound := ?_, dead := ?_ }
      · cases delivered <;>
          simpa [Intact, Ended, flow, backlog, PumpPc.alive, PumpPc.pkts, hp] using ho
      · simp only [hp, PumpPc.slot] at hslots
        cases delivered <;> simp only [PumpPc.slot, Bool.false_eq_true, if_false, if_true] <;> omega
      · exact Nat.le_trans (Nat.sub_le _ _) hbound
      · intro hd
        cases delivered with
        | true => cases hd
        | false => exact hi.dead (by rw [hp]; rfl)
  · cases h

theorem Inv.leave (hi : Inv s) (h : s.leave = some t) : Inv t := by
  unfold Subscriber.leave at h
  split at h
  · next hp =>
      cases h
      refine { hi with order := ?_, slots := ?_, dead := ?_ }
      · have ho := hi.order
        simpa [Intact, Ended, flow, backlog, PumpPc.alive, hp] using ho
      · simpa [hp, PumpPc.slot] using hi.slots
      · exact fun _ => hi.dead (by rw [hp]; rfl)
  · cases h

theorem Inv.read (hi : Inv s) (h : s.read = some t) : Inv t := by
  unfold Subscriber.read at h
  split at h
  · cases h
  · next p ch hch =>
      cases h
      have hflow : s.flow = s.reads ++ [p] ++ (ch ++ s.backlog) := by
        simp [flow, hch]
      refine { hi with order := ?_ }
      have ho := hi.order
      simp only [Intact, hflow] at ho
      exact ho

theorem Inv.unsubscribe (hi : Inv s) (h : s.unsubscribe = some t) : Inv t := by
  unfold Subscriber.unsubscribe at h
  split at h
  · cases h
    refine { hi with fresh := ?_, marked := ?_ }
    · intro hr
      cases hr
    · intro hm
      cases hm
  · cases h

/-- From here on `recvLoop` gives up what it has in hand. -/
theorem Inv.mark (hi : Inv s) (h : s.mark = some t) : Inv t := by
  unfold Subscriber.mark at h
  split at h
  · next hp =>
      have hr : ¬ s.registered = true := by
        intro hr
        rw [(hi.fresh hr).1] at hp
        cases hp
      split at h
      · cases h
        refine { hi with fresh := fun hr' => absurd hr' hr, marked := ?_ }
        intro hm
        cases hm
      · cases h
        refine { hi with
          order := ?_, fresh := fun hr' => absurd hr' hr,
          marked := fun _ => rfl, closed := fun _ => rfl }
        rcases hi.order with ho | ⟨ho, -⟩
        · exact .inl ho
        · exact .inr ⟨ho, .inr (.inl rfl)⟩
  · cases h

theorem Inv.closeDone (hi : Inv s) (h : s.closeDone = some t) : Inv t := by
  unfold Subscriber.closeDone at h
  split at h
  · next hp =>
      cases h
      refine { hi with fresh := ?_, marked := ?_, closed := fun _ => hi.marked hp, dead := ?_ }
      · intro hr
        rw [(hi.fresh hr).1] at hp
        cases hp
      · intro hm
        cases hm
      · intro _
        simp [ending]
  · cases h

theorem Inv.stop (hi : Inv s) : Inv { s with stopped := true } := by
  refine { hi with order := ?_, dead := ?_ }
  · rcases hi.order with ho | ⟨ho, he⟩
    · exact .inl ho
    · exact .inr ⟨ho, he.imp id (Or.imp id fun he => ⟨rfl, he.2⟩)⟩
  · intro _
    simp [ending]

theorem Inv.step {a : Label π} (hi : Inv s) (h : s.step filter a = some t) : Inv t := by
  cases a with
  | receive pkt => exact hi.receive h
  | check => exact hi.check h
  | acquire => exact hi.acquire h
  | refuse => exact hi.refuse h
  | append => exact hi.append h
  | signal => exact hi.signal h
  | look => exact hi.look h
  | wake => exact hi.wake h
  | quit => exact hi.quit h
  | put => exact hi.put h
  | drop => exact hi.drop h
  | release => exact hi.release h
  | leave => exact hi.leave h
  | read => exact hi.read h
  | unsubscribe => exact hi.unsubscribe h
  | mark => exact hi.mark h
  | closeDone => exact hi.closeDone h
  | stop =>
      cases h
      exact hi.stop

/-- The packet of a `receive`. -/
def arrivals : Label π → List π
  | .receive pkt => [pkt]
  | _ => []

/-- What `dispatchSubscriber` adds to the packets that matched. -/
theorem receive_found {pkt : π} (h : s.receive filter pkt = some t) :
    t.found = s.found ++ (if s.registered then [pkt].filter filter else []) ∧ t.registered = s.registered := by
  rw [Subscriber.receive] at h
  split at h
  · split at h
    next hmatch =>
      rw [Bool.and_eq_true] at hmatch
      cases h
      simp [hmatch.1, hmatch.2]
    next hno =>
      cases h
      refine ⟨?_, rfl⟩
      cases hr : s.registered with
      | false => simp
      | true =>
          have hfilter : filter pkt = false := by simpa [hr] using hno
          simp [hfilter]
  · cases h

/-- A step adds to the packets that matched only by what arrives while the subscriber is in the map,
and none puts it back. -/
theorem step_found {a : Label π} (h : s.step filter a = some t) :
    t.found = s.found ++ (if s.registered then (arrivals a).filter filter else []) ∧
      (t.registered = true → s.registered = true) := by
  -- a step of another party, which leaves both alone
  have hkeep : t.found = s.found ∧ t.registered = s.registered → arrivals a = [] →
      t.found = s.found ++ (if s.registered then (arrivals a).filter filter else []) ∧
        (t.registered = true → s.registered = true) := by
    rintro ⟨hfound, hregistered⟩ hnone
    rw [hfound, hregistered, hnone]
    simp
  cases a with
  | receive pkt =>
      obtain ⟨hfound, hregistered⟩ := receive_found h
      exact ⟨hfound, fun ht => hregistered ▸ ht⟩
  | unsubscribe =>
      rw [Subscriber.step, Subscriber.unsubscribe] at h
      split at h
      next hr =>
        cases h
        refine ⟨?_, fun _ => hr⟩
        simp [arrivals]
      next => cases h
  | check => exact hkeep (by grind [Subscriber.step, Subscriber.check]) rfl
  | acquire => exact hkeep (by grind [Subscriber.step, Subscriber.acquire]) rfl
  | refuse => exact hkeep (by grind [Subscriber.step, Subscriber.refuse]) rfl
  | append => exact hkeep (by grind [Subscriber.step, Subscriber.append]) rfl
  | signal => exact hkeep (by grind [Subscriber.step, Subscriber.signal]) rfl
  | look => exact hkeep (by grind [Subscriber.step, Subscriber.look]) rfl
  | wake => exact hkeep (by grind [Subscriber.step, Subscriber.wake]) rfl
  | quit => exact hkeep (by grind [Subscriber.step, Subscriber.quit]) rfl
  | put => exact hkeep (by grind [Subscriber.step, Subscriber.put]) rfl
  | drop => exact hkeep (by grind [Subscriber.step, Subscriber.drop]) rfl
  | release => exact hkeep (by grind [Subscriber.step, Subscriber.release]) rfl
  | leave => exact hkeep (by grind [Subscriber.step, Subscriber.leave]) rfl
  | read => exact hkeep (by grind [Subscriber.step, Subscriber.read]) rfl
  | mark => exact hkeep (by grind [Subscriber.step, Subscriber.mark]) rfl
  | closeDone => exact hkeep (by grind [Subscriber.step, Subscriber.closeDone]) rfl
  | stop =>
      cases h
      exact hkeep ⟨rfl, rfl⟩ rfl

/-- Nothing matches once the subscriber is out of the map. -/
theorem runFrom_found_of_unregistered (labels : List (Label π))
    (hs : s.registered = false) (h : runFrom (step filter) s labels = some t) :
    t.registered = false ∧ t.found = s.found := by
  refine runFrom_invariant (I := fun u => u.registered = false ∧ u.found = s.found)
    ?_ labels ⟨hs, rfl⟩ h
  intro u a v hu hv
  obtain ⟨hfound, hkeep⟩ := step_found hv
  rw [hu.1] at hfound hkeep
  refine ⟨?_, by simpa [hu.2] using hfound⟩
  cases hr : v.registered with
  | false => rfl
  | true => exact absurd (hkeep hr) Bool.false_ne_true

/-- The packets that matched are those that arrived while the subscriber was in the map. -/
theorem runFrom_found : ∀ (labels : List (Label π)) {s t : Subscriber π},
    runFrom (step filter) s labels = some t →
      ∃ added, t.found = s.found ++ added ∧ added <+: (labels.flatMap arrivals).filter filter ∧
        (t.registered = true →
          s.registered = true ∧ added = (labels.flatMap arrivals).filter filter)
  | [], s, t, h => by
      cases h
      exact ⟨[], by simp, List.nil_prefix, fun h => ⟨h, rfl⟩⟩
  | a :: labels, s, t, h => by
      obtain ⟨u, hu, hr⟩ := runFrom_cons h
      obtain ⟨added, hadd, hpre, hreg⟩ := runFrom_found labels hr
      obtain ⟨hfound, hkeep⟩ := step_found hu
      rw [List.flatMap_cons, List.filter_append]
      cases hs : s.registered with
      | true =>
          refine ⟨(arrivals a).filter filter ++ added, ?_, ?_, ?_⟩
          · rw [hadd, hfound, hs, if_pos rfl, List.append_assoc]
          · exact (List.prefix_append_right_inj _).mpr hpre
          · intro ht
            rw [(hreg ht).2]
            exact ⟨rfl, rfl⟩
      | false =>
          have hrest := runFrom_found_of_unregistered (a :: labels) hs h
          refine ⟨[], by rw [hrest.2, List.append_nil], List.nil_prefix, ?_⟩
          intro ht
          rw [hrest.1] at ht
          cases ht

end Steps

theorem reachable_inv {filter : π → Bool} {labels : List (Label π)} {s : Subscriber π}
    (h : runFrom (step filter) Subscriber.init labels = some s) : Inv s :=
  runFrom_invariant (fun _ _ _ hi hs => hi.step hs) labels Inv.init h

/-- In every run the consumer has read a prefix of the packets that arrived and matched; until the
subscriber is removed or the client closed, every packet that arrived and matched has been read or is
still on its way, in order; and the queue keeps its limit. -/
theorem lossless_subscriber (filter : π → Bool) (labels : List (Label π)) (s : Subscriber π)
    (h : runFrom (step filter) Subscriber.init labels = some s) :
    s.reads <+: (labels.flatMap arrivals).filter filter ∧
      (s.registered = true → s.stopped = false →
        (labels.flatMap arrivals).filter filter =
          s.reads ++ s.ch ++ s.pump.pkts ++ s.queue ++ s.producer.pkts) ∧
      s.queue.length ≤ losslessSubscriberQueueSize := by
  have hi := reachable_inv h
  obtain ⟨added, hadd, hpre, hreg⟩ := runFrom_found labels h
  have hfound : s.found = added := by
    rw [hadd]
    rfl
  refine ⟨?_, ?_, ?_⟩
  · have hreads : s.reads <+: s.flow := List.prefix_append _ _
    rw [hfound.symm] at hpre
    exact (hreads.trans hi.flow_prefix).trans hpre
  · intro hr hs
    have hint := hi.intact hr hs
    have halive : s.pump.alive = true := by
      cases ha : s.pump.alive with
      | true => rfl
      | false =>
          rcases hi.closed_or_stopped (hi.dead ha) with hc | hc
          · rw [(hi.fresh hr).2] at hc
            cases hc
          · rw [hs] at hc
            cases hc
    rw [← (hreg hr).2, ← hfound, hint, flow, backlog, if_pos halive]
    simp only [List.append_assoc]
  · have := hi.slots
    have := hi.bound
    omega

/-- A packet is on its way to the channel when the subscriber is removed; the consumer reads the
one before it. -/
theorem lossless_subscriber_removed :
    ∃ s, runFrom (step fun n : Nat => n != 7) Subscriber.init
        [.receive 1, .check, .acquire, .append, .signal, .receive 7, .look, .put, .receive 2, .check,
          .acquire, .append, .read, .release, .look, .unsubscribe, .mark, .closeDone, .drop,
          .release, .leave, .signal, .receive 3] = some s ∧
      s.reads = [1] ∧ s.reads <+: [1, 2, 3] := by
  have hrun : (runFrom (step fun n : Nat => n != 7) Subscriber.init
        [.receive 1, .check, .acquire, .append, .signal, .receive 7, .look, .put, .receive 2, .check,
          .acquire, .append, .read, .release, .look, .unsubscribe, .mark, .closeDone, .drop,
          .release, .leave, .signal, .receive 3]).any (fun s => s.reads == [1]) = true := by
    decide +kernel
  obtain ⟨s, hs, hr⟩ := (Option.any_eq_true ..).mp hrun
  exact ⟨s, hs, eq_of_beq hr, (lossless_subscriber _ _ s hs).1⟩

end Subscriber

end Derpbind
