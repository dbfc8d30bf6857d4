import Derphole.Lib.DropOldest
import Derphole.Transport.Disco

/-!
# The queue of peer datagrams

`enqueuePeerDatagram`, `relayReadLoop`, `remotePeerAddr` and `RecvDatagram` of
`pkg/transport/peer.go`, with the packets that `handleDirectPacket` of `pkg/transport/disco.go`
hands on.  Two goroutines enqueue, the one that reads from the relay and the one that reads the
direct socket, and both go on while the other is in the middle of `enqueuePeerDatagram`.
-/

namespace Transport

open Lib

def defaultPeerRecvQueueDepth : Nat := 4096

/-- The goroutines that enqueue. -/
inductive PeerProducer where
  | relayReadLoop
  | directReadLoop
  deriving DecidableEq

def PeerProducer.all : Finset PeerProducer := {.relayReadLoop, .directReadLoop}

theorem PeerProducer.mem_all (p : PeerProducer) : p ∈ PeerProducer.all := by
  cases p <;> decide

instance : Fintype PeerProducer := ⟨PeerProducer.all, PeerProducer.mem_all⟩

/-- What a datagram is said to come from. -/
inductive PeerAddr where
  | none
  | relayAddr
  | direct (addr : UDPAddr)

structure PeerPacket where
  payload : List UInt8
  addr : PeerAddr

abbrev PeerQueue := DropOldest PeerProducer PeerPacket

inductive PeerLabel where
  /-- `ReceiveRelay` returns. -/
  | receiveRelay (payload : List UInt8)
  /-- A packet comes to the direct socket; the path as `shouldAcceptDirectPayload` and then as
  `remotePeerAddr` see it. -/
  | directPacket (state : PathState) (addr : UDPAddr) (payload : List UInt8) (later : PathState)
  /-- The oldest packet makes room. -/
  | drop (p : PeerProducer)
  | send (p : PeerProducer)
  /-- `len(m.peerRecvCh)`. -/
  | measure (p : PeerProducer)
  | notePeerRecvDepth (p : PeerProducer)
  | recvDatagram

section

variable {ι : Type} (c : DiscoConfig ι) (hasRelayAddr : Bool)

def remotePeerAddr (s : PathState) : PeerAddr :=
  if hasRelayAddr then .relayAddr
  else
    match s.directAddr with
    | some addr => .direct addr
    | none => .none

/-- What an arrival gives to enqueue. -/
def PeerLabel.arrival : PeerLabel → Option (PeerProducer × PeerPacket)
  | .receiveRelay payload =>
      if payload.length = 0 then none
      else some (.relayReadLoop, ⟨payload, if hasRelayAddr then .relayAddr else .none⟩)
  | .directPacket state addr payload later =>
      if c.handleDirectPacket state addr payload = .enqueuePeerDatagram then
        some (.directReadLoop, ⟨payload, remotePeerAddr hasRelayAddr later⟩)
      else none
  | _ => none

def PeerQueue.step (s : PeerQueue) : PeerLabel → Option PeerQueue
  | .drop p => DropOldest.step defaultPeerRecvQueueDepth s (.drop p)
  | .send p => DropOldest.step defaultPeerRecvQueueDepth s (.send p)
  | .measure p => DropOldest.step defaultPeerRecvQueueDepth s (.measure p)
  | .notePeerRecvDepth p => DropOldest.step defaultPeerRecvQueueDepth s (.note p)
  | .recvDatagram => DropOldest.step defaultPeerRecvQueueDepth s .receive
  | l =>
      match l.arrival c hasRelayAddr with
      | some (p, packet) => DropOldest.step defaultPeerRecvQueueDepth s (.offer p packet)
      | none => some s

end

namespace PeerQueue

variable {ι : Type} {c : DiscoConfig ι} {hasRelayAddr : Bool} {s t : PeerQueue}

/-- A step is one of the queue, or an arrival that is not for it. -/
theorem step_cases {l : PeerLabel} (h : PeerQueue.step c hasRelayAddr s l = some t) :
    (∃ p packet, l.arrival c hasRelayAddr = some (p, packet) ∧
      DropOldest.step defaultPeerRecvQueueDepth s (.offer p packet) = some t) ∨
    (l.arrival c hasRelayAddr = none ∧
      (t = s ∨ ∃ l', (∀ p packet, l' ≠ .offer p packet) ∧
        DropOldest.step defaultPeerRecvQueueDepth s l' = some t)) := by
  cases l with
  | receiveRelay payload =>
      simp only [PeerQueue.step] at h
      split at h
      · next p packet harrival => exact .inl ⟨p, packet, harrival, h⟩
      · next harrival =>
          cases h
          exact .inr ⟨harrival, .inl rfl⟩
  | directPacket state addr payload later =>
      simp only [PeerQueue.step] at h
      split at h
      · next p packet harrival => exact .inl ⟨p, packet, harrival, h⟩
      · next harrival =>
          cases h
          exact .inr ⟨harrival, .inl rfl⟩
  | drop p => exact .inr ⟨rfl, .inr ⟨.drop p, nofun, h⟩⟩
  | send p => exact .inr ⟨rfl, .inr ⟨.send p, nofun, h⟩⟩
  | measure p => exact .inr ⟨rfl, .inr ⟨.measure p, nofun, h⟩⟩
  | notePeerRecvDepth p => exact .inr ⟨rfl, .inr ⟨.note p, nofun, h⟩⟩
  | recvDatagram => exact .inr ⟨rfl, .inr ⟨.receive, nofun, h⟩⟩

theorem inv_step (hi : DropOldest.Inv defaultPeerRecvQueueDepth s) {l : PeerLabel}
    (h : PeerQueue.step c hasRelayAddr s l = some t) : DropOldest.Inv defaultPeerRecvQueueDepth t := by
  have hcap : 0 < defaultPeerRecvQueueDepth := by decide
  rcases step_cases h with ⟨p, packet, -, h⟩ | ⟨-, rfl | ⟨l', -, h⟩⟩
  · exact hi.step hcap h
  · exact hi
  · exact hi.step hcap h

theorem step_offered {l : PeerLabel} (h : PeerQueue.step c hasRelayAddr s l = some t) (p : PeerProducer) :
    t.offered p = s.offered p ++ DropOldest.of p (l.arrival c hasRelayAddr).toList := by
  rcases step_cases h with ⟨q, packet, harrival, h⟩ | ⟨harrival, rfl | ⟨l', hl', h⟩⟩
  · rw [DropOldest.step_offered h p, harrival]
    rfl
  · rw [harrival]
    simp [DropOldest.of]
  · rw [DropOldest.step_offered h p, harrival]
    cases l' with
    | offer q packet => exact absurd rfl (hl' q packet)
    | drop q => rfl
    | send q => rfl
    | measure q => rfl
    | note q => rfl
    | receive => rfl

/-- What a run gave a goroutine to enqueue, in order. -/
def arrivals (c : DiscoConfig ι) (hasRelayAddr : Bool) (p : PeerProducer) (labels : List PeerLabel) :
    List PeerPacket :=
  DropOldest.of p (labels.filterMap (PeerLabel.arrival c hasRelayAddr))

theorem run_offered (p : PeerProducer) : ∀ {labels : List PeerLabel} {s t : PeerQueue},
    runFrom (PeerQueue.step c hasRelayAddr) s labels = some t →
      t.offered p = s.offered p ++ arrivals c hasRelayAddr p labels
  | [], s, t, h => by
      cases h
      simp [arrivals, DropOldest.of]
  | l :: labels, s, t, h => by
      obtain ⟨u, hu, hrest⟩ := runFrom_cons h
      rw [run_offered p hrest, step_offered hu p, List.append_assoc, arrivals, arrivals, ← DropOldest.of_append]
      congr 2
      cases hl : l.arrival c hasRelayAddr with
      | none => rw [List.filterMap_cons_none hl]; rfl
      | some a => rw [List.filterMap_cons_some hl]; rfl

/-- What `RecvDatagram` returned of one goroutine. -/
def received (s : PeerQueue) (p : PeerProducer) : List PeerPacket :=
  DropOldest.of p ((s.out.filter fun e => e.1).map Prod.snd)

/-- No packet of discovery is a datagram. -/
theorem not_discovery {state : PathState} {addr : UDPAddr} {payload : List UInt8}
    (h : c.handleDirectPacket state addr payload = .enqueuePeerDatagram) :
    c.stunIs payload = false ∧ isDirectDiscoveryMACPayload payload = false ∧
      isLegacyDirectDiscoveryPayload payload = false := by
  unfold DiscoConfig.handleDirectPacket at h
  split at h
  · next action haction =>
      subst h
      unfold DiscoConfig.discoAction at haction
      repeat' split at haction
      all_goals cases haction
  · next haction =>
      unfold DiscoConfig.discoAction at haction
      split at haction
      · cases haction
      next hstun =>
        split at haction
        · cases haction
        next hprobe =>
          split at haction
          · cases haction
          next hack =>
            split at haction
            · cases haction
            next hreject =>
              simp only [Bool.or_eq_true, Bool.and_eq_true, not_or, not_and, Bool.not_eq_true] at hreject
              refine ⟨by simpa using hstun, hreject.1, ?_⟩
              cases hkey : c.key.isZero with
              | false => exact hreject.2 (by simp [hkey])
              | true =>
                  simp only [directAckPayloadForProbe, hkey, if_true] at hprobe
                  simp only [directAckTokenForPayload, hkey, if_true] at hack
                  unfold isLegacyDirectDiscoveryPayload
                  split at hprobe
                  · next hne =>
                      split at hack
                      · cases hack
                      · next hne' => simp [hne, hne']
                  · cases hprobe

/-- Whatever the two goroutines and the reader do in whatever order: the queue and the depth it
reports are bounded; of what each goroutine had to enqueue everything was received or dropped, is
queued or in its hand, in the order of its arrival; no more was dropped than is reported; not both
goroutines wait on a full queue; and what is read is neither STUN nor discovery. -/
theorem peer_datagrams {labels : List PeerLabel}
    (h : runFrom (PeerQueue.step c hasRelayAddr) DropOldest.init labels = some s) :
    s.queue.length ≤ defaultPeerRecvQueueDepth ∧ s.maxDepth ≤ defaultPeerRecvQueueDepth ∧
      (∀ p, DropOldest.of p s.sent ++ (s.producers p).hand = arrivals c hasRelayAddr p labels ∧
        (s.received p).Sublist (arrivals c hasRelayAddr p labels)) ∧
      s.dropped.length ≤ s.drops ∧
      ((∀ p, (s.producers p).IsWaiting) → s.queue.length < defaultPeerRecvQueueDepth) ∧
      ∀ packet ∈ s.received .directReadLoop, c.stunIs packet.payload = false ∧
        isDirectDiscoveryMACPayload packet.payload = false ∧
        isLegacyDirectDiscoveryPayload packet.payload = false := by
  have hi : DropOldest.Inv defaultPeerRecvQueueDepth s :=
    runFrom_invariant (fun s l t hi h => inv_step hi h) labels (DropOldest.Inv.init (by decide)) h
  have hconserved : ∀ p, DropOldest.of p s.sent ++ (s.producers p).hand = arrivals c hasRelayAddr p labels := by
    intro p
    rw [hi.conserved p, run_offered p h]
    rfl
  have hreceived : ∀ p, (s.received p).Sublist (arrivals c hasRelayAddr p labels) := by
    intro p
    rw [← hconserved p, DropOldest.sent, DropOldest.of_append, List.append_assoc]
    refine List.Sublist.trans ?_ (List.sublist_append_left _ _)
    exact ((List.filter_sublist (l := s.out)).map Prod.snd).filterMap _
  refine ⟨hi.length, hi.depth.1, fun p => ⟨hconserved p, hreceived p⟩, ?_, hi.room, ?_⟩
  · have := hi.counted
    omega
  · intro packet hpacket
    obtain ⟨⟨p, packet'⟩, hmem, hp⟩ := List.mem_filterMap.mp ((hreceived _).subset hpacket)
    obtain ⟨l, -, harrival⟩ := List.mem_filterMap.mp hmem
    split at hp
    · next hdirect =>
        cases hp
        cases l with
        | directPacket state addr payload later =>
            simp only [PeerLabel.arrival] at harrival
            split at harrival
            · next haction =>
                cases harrival
                exact not_discovery haction
            · cases harrival
        | receiveRelay payload =>
            simp only [PeerLabel.arrival] at harrival
            split at harrival
            · cases harrival
            · cases harrival
              cases hdirect
        | drop _ => cases harrival
        | send _ => cases harrival
        | measure _ => cases harrival
        | notePeerRecvDepth _ => cases harrival
        | recvDatagram => cases harrival
    · cases hp

/-- A datagram from the relay and one from the direct socket, a probe that is none, and a reader. -/
def sampleArrivals : List PeerLabel :=
  [.receiveRelay [1], .directPacket (.new true true) DiscoConfig.sampleEndpoint [2] (.new true true),
    .measure .relayReadLoop, .notePeerRecvDepth .relayReadLoop, .measure .directReadLoop,
    .notePeerRecvDepth .directReadLoop,
    .directPacket (.new true true) DiscoConfig.sampleEndpoint
      (DiscoConfig.sampleDisco.probePayload (List.replicate 16 42)) (.new true true),
    .recvDatagram, .recvDatagram]

theorem peer_datagrams_received :
    ∃ s, runFrom (PeerQueue.step DiscoConfig.sampleDisco true) DropOldest.init sampleArrivals = some s ∧
      (s.received .directReadLoop).map PeerPacket.payload = [[2]] ∧
      (s.received .directReadLoop).Sublist
        (arrivals DiscoConfig.sampleDisco true .directReadLoop sampleArrivals) := by
  have hsome : (runFrom (PeerQueue.step DiscoConfig.sampleDisco true) DropOldest.init
      sampleArrivals).isSome = true := by decide +kernel
  obtain ⟨s, hs⟩ := Option.isSome_iff_exists.mp hsome
  have hreceived : (runFrom (PeerQueue.step DiscoConfig.sampleDisco true) DropOldest.init
      sampleArrivals).map (fun s => (s.received .directReadLoop).map PeerPacket.payload) =
        some [[2]] := by decide +kernel
  rw [hs, Option.map_some, Option.some.injEq] at hreceived
  exact ⟨s, hs, hreceived, ((peer_datagrams hs).2.2.1 .directReadLoop).2⟩

end PeerQueue

end Transport
