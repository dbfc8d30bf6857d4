import Derphole.Lib.Json
import Derphole.Lib.Ledger
import Derphole.Lib.Run
import Derphole.Transport.DirectOrder
import Mathlib.Data.List.GetD

/-!
# Authenticated path discovery

`pkg/transport/disco_mac.go`, the packets of `pkg/transport/disco.go` and the path choice of
`sendPeerDatagram` in `pkg/transport/peer.go`.  Any number of managers hold one discovery key, and
the network between them belongs to an attacker: whatever he likes arrives from whatever address he
likes, in any order and as often as he likes.  What he cannot do is make the MAC of a message that
no holder of the key made before (`Unforged`).

A manager answers every probe under its key, also one of its own that comes back to it.  So an
acknowledgement shows that some holder of the key got the probe, and not which one.
-/

namespace Transport

open Lib

/-! ## The payloads -/

abbrev DiscoveryKey := Vector UInt8 32

def DiscoveryKey.isZero (k : DiscoveryKey) : Bool := k == Vector.replicate 32 0

abbrev Nonce := Vector UInt8 16

/-- HMAC-SHA256 of a message under a key. -/
abbrev HMAC := List UInt8 → List UInt8 → Vector UInt8 32

def discoProbePayload : List UInt8 := ascii "derphole-probe"

def discoAckPayload : List UInt8 := ascii "derphole-ack"

def discoMACMagic : List UInt8 := 0 :: ascii "derphole-disco1"

def discoMACKindProbe : UInt8 := 1

def discoMACKindAck : UInt8 := 2

/-- Where the MAC begins. -/
def macStart : Nat := 16 + 1 + 16

def discoMACSize : Nat := macStart + 32

section

variable (hmac : HMAC) (key : DiscoveryKey)

def encodeDiscoveryMAC (kind : UInt8) (nonce : List UInt8) : List UInt8 :=
  let payload := discoMACMagic ++ kind :: nonce
  payload ++ (hmac key.toList payload).toList

def decodeDiscoveryMAC (payload : List UInt8) (kind : UInt8) : Option (List UInt8) :=
  if payload.length ≠ discoMACSize then none
  else if payload.take 16 ≠ discoMACMagic then none
  else if payload.getD 16 0 ≠ kind then none
  else if payload.drop macStart = (hmac key.toList (payload.take macStart)).toList then
    some ((payload.drop 17).take 16)
  else none

/-- `newDirectProbePayload`, given what `rand.Read` draws. -/
def newDirectProbePayload (nonce : Nonce) : List UInt8 × DirectProbeToken :=
  if key.isZero then (discoProbePayload, ⟨false, List.replicate 16 0⟩)
  else (encodeDiscoveryMAC hmac key discoMACKindProbe nonce.toList, ⟨true, nonce.toList⟩)

def directAckPayloadForProbe (payload : List UInt8) : Option (List UInt8) :=
  if key.isZero then
    if payload ≠ discoProbePayload then none else some discoAckPayload
  else do
    let nonce ← decodeDiscoveryMAC hmac key payload discoMACKindProbe
    some (encodeDiscoveryMAC hmac key discoMACKindAck nonce)

def directAckTokenForPayload (payload : List UInt8) : Option DirectProbeToken :=
  if key.isZero then
    if payload = discoAckPayload then some ⟨false, List.replicate 16 0⟩ else none
  else do
    let nonce ← decodeDiscoveryMAC hmac key payload discoMACKindAck
    some ⟨true, nonce⟩

def isDirectDiscoveryMACPayload (payload : List UInt8) : Bool :=
  payload.length == discoMACSize && payload.take 16 == discoMACMagic

def isLegacyDirectDiscoveryPayload (payload : List UInt8) : Bool :=
  payload == discoProbePayload || payload == discoAckPayload

end

/-! ## What a packet comes to -/

/-- What is done with a packet of the direct socket. -/
inductive PacketAction where
  | handleSTUNPacket
  | writeAck (ack : List UInt8)
  | tryPromoteDirect (token : DirectProbeToken)
  | reject
  | enqueuePeerDatagram
  deriving DecidableEq

namespace PathState

variable (s : PathState)

def hasCandidate (addr : UDPAddr) : Bool := s.endpoints.entries.any fun e => sameAddr addr e.2

def shouldAcceptDirectPayload (addr : UDPAddr) : Bool :=
  if s.current ≠ .pathDirect then true
  else (s.endpoints.lookup s.bestEndpoint).any (sameAddr addr) || s.hasCandidate addr

/-- `DirectAddr`, once a stale path is demoted. -/
def directAddr : Option UDPAddr :=
  if s.current ≠ .pathDirect ∨ s.bestEndpoint = "" then none else s.endpoints.lookup s.bestEndpoint

end PathState

/-- What all the managers share: the key they were given, and code from elsewhere. -/
structure DiscoConfig (ι : Type) where
  key : DiscoveryKey
  hmac : HMAC
  /-- `stun.Is`. -/
  stunIs : List UInt8 → Bool
  manager : ι → ManagerConfig
  /-- There is a `RelaySend`. -/
  relaySend : ι → Bool

namespace DiscoConfig

variable {ι : Type} (c : DiscoConfig ι)

def probePayload (nonce : List UInt8) : List UInt8 := encodeDiscoveryMAC c.hmac c.key discoMACKindProbe nonce

def ackPayload (nonce : List UInt8) : List UInt8 := encodeDiscoveryMAC c.hmac c.key discoMACKindAck nonce

/-- `HandleDirectPacket`, which leaves a packet to its caller when it is nothing of discovery. -/
def discoAction (payload : List UInt8) : Option PacketAction :=
  if c.stunIs payload then some .handleSTUNPacket
  else
    match directAckPayloadForProbe c.hmac c.key payload with
    | some ack => some (.writeAck ack)
    | none =>
        match directAckTokenForPayload c.hmac c.key payload with
        | some token => some (.tryPromoteDirect token)
        | none =>
            if isDirectDiscoveryMACPayload payload ||
                !c.key.isZero && isLegacyDirectDiscoveryPayload payload then
              some .reject
            else none

def handleDirectPacket (s : PathState) (addr : UDPAddr) (payload : List UInt8) : PacketAction :=
  match c.discoAction payload with
  | some action => action
  | none => if s.shouldAcceptDirectPayload addr then .enqueuePeerDatagram else .reject

end DiscoConfig

/-! ## The managers and the network -/

/-- A probe of `discoveryTick` between `noteProbeSentIfCurrent` and `WriteTo`. -/
structure ProbeWrite (ι : Type) where
  manager : ι
  generation : UInt64
  addr : UDPAddr
  payload : List UInt8
  token : DirectProbeToken

/-- A call of `sendPeerDatagram` that found a direct path. -/
structure DatagramWrite (ι : Type) where
  manager : ι
  addr : UDPAddr
  payload : List UInt8

/-- What is recorded of a run. -/
inductive DiscoEntry (ι : Type) where
  /-- `noteProbeSentIfCurrent` is called. -/
  | noted (i : ι) (now : Int) (addr : UDPAddr) (token : DirectProbeToken)
  | probe (i : ι) (addr : UDPAddr) (payload : List UInt8)
  | ack (i : ι) (addr : UDPAddr) (payload : List UInt8)
  /-- `consumeProbe` takes an acknowledgement that came from the address. -/
  | consumed (i : ι) (now : Int) (addr : UDPAddr) (token : DirectProbeToken)
  | datagram (i : ι) (addr : UDPAddr) (payload : List UInt8)
  | relayed (i : ι) (payload : List UInt8)
  /-- `sendPeerDatagram` returns an error. -/
  | failed (i : ι) (payload : List UInt8)
  deriving DecidableEq

/-- The managers, what their goroutines are about to write, and the record, latest first. -/
structure DiscoNet (ι : Type) where
  managers : ι → Manager
  probes : List (ProbeWrite ι)
  datagrams : List (DatagramWrite ι)
  ledger : List (DiscoEntry ι)

/-- What `WriteTo` says. -/
inductive WriteResult where
  | written
  | emsgsize
  | broken

inductive DiscoLabel (ι : Type) where
  | candidates (i : ι) (addrs : List (Option UDPAddr))
  /-- A caller asks for the path, and a stale one is demoted. -/
  | directPath (i : ι) (now : Int)
  /-- `StopDirect` and `MarkDirectBroken`. -/
  | relayOnly (i : ι)
  | noteProbe (i : ι) (generation : UInt64) (now : Int) (addr : UDPAddr) (nonce : Nonce)
  | writeProbe (k : Nat) (ok : Bool)
  /-- A packet arrives that seems to come from the address. -/
  | packet (i : ι) (now : Int) (addr : UDPAddr) (payload : List UInt8)
  | activity (i : ι) (now : Int) (addr : UDPAddr)
  | sendPeerDatagram (i : ι) (now : Int) (payload : List UInt8)
  | writeDatagram (k : Nat) (now : Int) (result : WriteResult)

namespace DiscoConfig

variable {ι : Type} [DecidableEq ι] (c : DiscoConfig ι)

def init : DiscoNet ι where
  managers i := .new (c.manager i)
  probes := []
  datagrams := []
  ledger := []

section

variable (s : DiscoNet ι)

def handle (i : ι) (e : Event) : DiscoNet ι :=
  { s with managers := Function.update s.managers i ((s.managers i).handle (c.manager i) e) }

def record (e : DiscoEntry ι) : DiscoNet ι := { s with ledger := e :: s.ledger }

/-- The packet is dispatched. -/
def packet (i : ι) (now : Int) (addr : UDPAddr) (payload : List UInt8) : DiscoNet ι :=
  match c.handleDirectPacket (s.managers i).state addr payload with
  | .writeAck ack => record s (.ack i addr ack)
  | .tryPromoteDirect token =>
      let t := c.handle s i (.ack now (some addr) token)
      if ((s.managers i).state.consumeProbe (some addr) (c.manager i).discoveryInterval now token).2 then
        record t (.consumed i now addr token)
      else t
  | _ => s

/-- `sendPeerDatagram` without a direct path. -/
def relay (i : ι) (payload : List UInt8) : DiscoNet ι :=
  if c.relaySend i then record s (.relayed i payload) else record s (.failed i payload)

def sendPeerDatagram (i : ι) (now : Int) (payload : List UInt8) : DiscoNet ι :=
  if payload = [] then s
  else
    let t := c.handle s i (.demote now)
    match (t.managers i).state.directAddr with
    | none => c.relay t i payload
    | some addr => { t with datagrams := t.datagrams ++ [⟨i, addr, payload⟩] }

def step : DiscoLabel ι → Option (DiscoNet ι)
  | .candidates i addrs => some (c.handle s i (.candidates addrs))
  | .directPath i now => some (c.handle s i (.demote now))
  | .relayOnly i => some (c.handle s i .relayOnly)
  | .noteProbe i generation now addr nonce =>
      let (payload, token) := newDirectProbePayload c.hmac c.key nonce
      let t := record (c.handle s i (.probeSent generation now (some addr) token)) (.noted i now addr token)
      some { t with probes := t.probes ++ [⟨i, generation, addr, payload, token⟩] }
  | .writeProbe k ok => do
      let w ← s.probes[k]?
      let t := { s with probes := s.probes.eraseIdx k }
      if ok then some (record t (.probe w.manager w.addr w.payload))
      else some (c.handle t w.manager (.probeFailed w.generation (some w.addr) w.token))
  | .packet i now addr payload => some (c.packet s i now addr payload)
  | .activity i now addr => some (c.handle s i (.activity now (some addr)))
  | .sendPeerDatagram i now payload => some (c.sendPeerDatagram s i now payload)
  | .writeDatagram k now result => do
      let w ← s.datagrams[k]?
      let t := { s with datagrams := s.datagrams.eraseIdx k }
      match result with
      | .written =>
          some (c.handle (record t (.datagram w.manager w.addr w.payload)) w.manager
            (.activity now (some w.addr)))
      | .emsgsize => some (record t (.failed w.manager w.payload))
      | .broken =>
          if c.relaySend w.manager then
            some (record (c.handle t w.manager .relayOnly) (.relayed w.manager w.payload))
          else some (record t (.failed w.manager w.payload))

end

end DiscoConfig

/-! ## Codec -/

section

variable {hmac : HMAC} {key : DiscoveryKey} {kind kind' : UInt8} {nonce nonce' payload : List UInt8}

theorem length_discoMACMagic : discoMACMagic.length = 16 := by decide +kernel

theorem length_encodeDiscoveryMAC (hnonce : nonce.length = 16) :
    (encodeDiscoveryMAC hmac key kind nonce).length = discoMACSize := by
  simp [encodeDiscoveryMAC, length_discoMACMagic, hnonce, discoMACSize, macStart]

/-- The four fields of what is encoded. -/
theorem encodeDiscoveryMAC_fields (hmac : HMAC) (key : DiscoveryKey) (kind : UInt8)
    (hnonce : nonce.length = 16) :
    (encodeDiscoveryMAC hmac key kind nonce).take 16 = discoMACMagic ∧
      (encodeDiscoveryMAC hmac key kind nonce).getD 16 0 = kind ∧
      ((encodeDiscoveryMAC hmac key kind nonce).drop 17).take 16 = nonce ∧
      (encodeDiscoveryMAC hmac key kind nonce).take macStart = discoMACMagic ++ kind :: nonce ∧
      (encodeDiscoveryMAC hmac key kind nonce).drop macStart =
        (hmac key.toList (discoMACMagic ++ kind :: nonce)).toList := by
  have hmagic := length_discoMACMagic
  have hbody : (discoMACMagic ++ kind :: nonce).length = macStart := by simp [hmagic, hnonce, macStart]
  refine ⟨?_, ?_, ?_, ?_, ?_⟩
  · rw [encodeDiscoveryMAC, List.append_assoc, List.take_left' hmagic]
  · rw [encodeDiscoveryMAC, List.append_assoc, List.getD_append_right _ _ _ _ hmagic.le, hmagic]
    rfl
  · rw [encodeDiscoveryMAC, List.append_assoc, List.drop_append, hmagic, List.drop_eq_nil_of_le (by omega)]
    simp [hnonce]
  · rw [encodeDiscoveryMAC, List.take_left' hbody]
  · rw [encodeDiscoveryMAC, List.drop_left' hbody]

theorem decodeDiscoveryMAC_encode (hmac : HMAC) (key : DiscoveryKey) (kind kind' : UInt8)
    (hnonce : nonce.length = 16) :
    decodeDiscoveryMAC hmac key (encodeDiscoveryMAC hmac key kind nonce) kind' =
      if kind = kind' then some nonce else none := by
  obtain ⟨hmagic, hkind, hn, hbody, hmac⟩ := encodeDiscoveryMAC_fields hmac key kind hnonce
  rw [decodeDiscoveryMAC, if_neg (not_not.mpr (length_encodeDiscoveryMAC hnonce)),
    if_neg (not_not.mpr hmagic), hkind, hn, hbody, hmac]
  by_cases h : kind = kind'
  · simp [h]
  · simp [h]

/-- What decodes was encoded. -/
theorem eq_of_decodeDiscoveryMAC (h : decodeDiscoveryMAC hmac key payload kind = some nonce) :
    nonce.length = 16 ∧ payload = encodeDiscoveryMAC hmac key kind nonce := by
  unfold decodeDiscoveryMAC at h
  split at h
  · cases h
  next hlen =>
    split at h
    · cases h
    next hmagic =>
      split at h
      · cases h
      next hkind =>
        split at h
        · next hmac =>
            rw [not_not] at hlen hmagic hkind
            rw [Option.some.injEq] at h
            have hlen' : payload.length = 65 := hlen
            have hnonce : nonce.length = 16 := by
              rw [← h]
              simp [hlen']
            have hbody : payload.take macStart = discoMACMagic ++ kind :: nonce := by
              have h17 : payload.drop 16 = payload.getD 16 0 :: payload.drop 17 := by
                rw [List.drop_eq_getElem_cons (by omega), List.getD_eq_getElem _ _ (by omega)]
              calc payload.take macStart
                  = payload.take 16 ++ (payload.drop 16).take 17 := by rw [← List.take_add]; rfl
                _ = discoMACMagic ++ kind :: nonce := by rw [hmagic, h17, hkind, List.take_succ_cons, h]
            refine ⟨hnonce, ?_⟩
            rw [encodeDiscoveryMAC, ← hbody, ← hmac, List.take_append_drop]
        · cases h

end

/-! ## What an event does to a manager -/

/-- Every endpoint is filed under its own text. -/
def PathState.Filed (s : PathState) : Prop := Map.All (fun key addr => UDPAddr.string addr = key) s.endpoints

namespace PathState

variable {s : PathState}

theorem filed_candidateMap (candidates : List (Option UDPAddr)) :
    Map.All (fun key addr => UDPAddr.string addr = key) (candidateMap candidates) := by
  unfold candidateMap
  generalize hnext : (∅ : Map String UDPAddr) = next
  have h : Map.All (fun key addr => UDPAddr.string addr = key) next := by
    rw [← hnext]
    exact Map.All.empty
  clear hnext
  induction candidates generalizing next with
  | nil => exact h
  | cons candidate candidates ih =>
      cases candidate with
      | none => exact ih next h
      | some addr => exact ih _ (h.insert rfl)

theorem Filed.noteCandidates (h : s.Filed) (candidates : List (Option UDPAddr)) :
    (s.noteCandidates candidates).1.Filed := by
  have hkeep : Map.All (fun key addr => UDPAddr.string addr = key) (s.keepBest (candidateMap candidates)) := by
    unfold keepBest
    split
    · split
      · next hbest => exact (filed_candidateMap candidates).insert (h _ _ hbest)
      · exact filed_candidateMap candidates
    · exact filed_candidateMap candidates
  unfold PathState.noteCandidates
  dsimp only
  split
  · exact hkeep
  · exact hkeep

theorem noteDirect_endpoints (s : PathState) (now : Int) (addr : Option UDPAddr) :
    (s.noteDirect now addr).1.endpoints = s.endpoints := by
  unfold noteDirect
  split
  · rfl
  split
  · rfl
  split
  · rfl
  split
  · rfl
  · rfl

/-- A direct path keeps its endpoint when the candidates change. -/
theorem noteCandidates_best {candidates : List (Option UDPAddr)}
    (h : (s.noteCandidates candidates).1.current = .pathDirect) :
    s.current = .pathDirect ∧ (s.noteCandidates candidates).1.bestEndpoint = s.bestEndpoint := by
  have hdirect := noteCandidates_direct h
  refine ⟨hdirect, ?_⟩
  unfold noteCandidates at h ⊢
  dsimp only at h ⊢
  split at h
  · exact absurd h (noteRelay_current_ne _)
  next hkept =>
    rw [if_neg hkept]
    by_cases hbest : s.bestEndpoint = ""
    · simp [setEndpoints, hbest]
    · have hne : (s.setEndpoints (s.keepBest (candidateMap candidates))).bestEndpoint ≠ "" :=
        fun hempty => hkept ⟨hdirect, hbest, hempty⟩
      unfold setEndpoints at hne ⊢
      dsimp only at hne ⊢
      split at hne
      · exact absurd rfl hne
      · next hstay => rw [if_neg hstay]

/-- An acknowledgement is taken for the probe that is pending, within its time. -/
theorem consumeProbe_ok {addr : UDPAddr} {maxAge now : Int} {token : DirectProbeToken}
    (h : (s.consumeProbe (some addr) maxAge now token).2 = true) :
    ∃ sentAt, s.pendingProbes.lookup addr.string = some ⟨sentAt, token⟩ ∧ now ≤ sentAt + maxAge := by
  unfold consumeProbe at h
  dsimp only at h
  split at h
  · cases h
  next pending hpending =>
    split at h
    · cases h
    next htoken =>
      split at h
      · cases h
      next hage =>
        rw [not_not] at htoken
        exact ⟨pending.sentAt, by rw [hpending, ← htoken], by omega⟩

theorem noteDirect_best {now : Int} {addr : Option UDPAddr}
    (h : (s.noteDirect now addr).1.current = .pathDirect) :
    (s.current = .pathDirect ∧ (s.noteDirect now addr).1.bestEndpoint = s.bestEndpoint) ∨
      ∃ addr', addr = some addr' ∧ (s.noteDirect now addr).1.bestEndpoint = addr'.string := by
  unfold noteDirect at h ⊢
  split at h
  · exact .inl ⟨h, rfl⟩
  next addr =>
    by_cases hconf : (!s.directConfigured) = true
    · rw [if_pos hconf] at h ⊢
      exact .inl ⟨h, rfl⟩
    rw [if_neg hconf] at h ⊢
    cases hl : s.endpoints.lookup addr.string with
    | none =>
        rw [hl] at h
        exact .inl ⟨h, rfl⟩
    | some candidate =>
        rw [hl] at h
        dsimp only at h ⊢
        by_cases hkeeps : s.keepsBest addr.string candidate = true
        · rw [if_pos hkeeps] at h ⊢
          exact .inl ⟨h, rfl⟩
        · rw [if_neg hkeeps] at h ⊢
          exact .inr ⟨addr, rfl, rfl⟩

end PathState

namespace Manager

variable {cfg : ManagerConfig} {m : Manager}

theorem filed_handle (h : m.state.Filed) (e : Event) : (m.handle cfg e).state.Filed := by
  cases e with
  | candidates addrs => exact h.noteCandidates addrs
  | probeSent generation now addr token =>
      simp only [handle, ifCurrent]
      split
      · exact h
      · cases addr with
        | none => exact h
        | some addr => exact h
  | probeFailed generation addr token =>
      simp only [handle, ifCurrent, PathState.forgetProbe]
      repeat' split
      all_goals exact h
  | ack now addr token =>
      obtain ⟨latency, pending, heq, -, -⟩ :=
        m.state.consumeProbe_spec addr cfg.discoveryInterval now token
      simp only [handle, tryPromoteDirect]
      split
      · rw [PathState.Filed, update, PathState.noteDirect_endpoints, heq]
        exact h
      · rw [heq]
        exact h
  | activity now addr =>
      simp only [handle, PathState.noteDirectActivity]
      repeat' split
      all_goals exact h
  | demote now =>
      simp only [handle, demoteStaleDirectLocked]
      split
      · exact h
      · exact h
  | relayOnly => exact h

/-- A direct path has the endpoint it had, or that of the acknowledgement that was just taken. -/
theorem best_of_handle {e : Event} (h : (m.handle cfg e).state.current = .pathDirect) :
    (m.state.current = .pathDirect ∧ (m.handle cfg e).state.bestEndpoint = m.state.bestEndpoint) ∨
      ∃ now addr token, e = .ack now (some addr) token ∧
        (m.state.consumeProbe (some addr) cfg.discoveryInterval now token).2 = true ∧
        (m.handle cfg e).state.bestEndpoint = addr.string := by
  cases e with
  | candidates addrs => exact .inl (PathState.noteCandidates_best h)
  | probeSent generation now addr token =>
      simp only [handle, ifCurrent] at h ⊢
      split at h
      · next hg => exact .inl ⟨h, by rw [if_pos hg]⟩
      · next hg =>
          rw [PathState.noteProbeSent_current] at h
          exact .inl ⟨h, by rw [if_neg hg]; exact (m.state.noteProbeSent_frame now addr token).1⟩
  | probeFailed generation addr token =>
      simp only [handle, ifCurrent] at h ⊢
      split at h
      · next hg => exact .inl ⟨h, by rw [if_pos hg]⟩
      · next hg =>
          rw [PathState.forgetProbe_current] at h
          exact .inl ⟨h, by rw [if_neg hg]; exact (m.state.forgetProbe_frame addr token).1⟩
  | ack now addr token =>
      obtain ⟨latency, pending, heq, -, -⟩ :=
        m.state.consumeProbe_spec addr cfg.discoveryInterval now token
      simp only [handle, tryPromoteDirect] at h ⊢
      split at h
      · next hc =>
          rw [if_pos hc]
          rcases PathState.noteDirect_best h with ⟨hdirect, hbest⟩ | ⟨addr', rfl, hbest⟩
          · rw [heq] at hdirect
            refine .inl ⟨hdirect, hbest.trans ?_⟩
            rw [heq]
          · exact .inr ⟨now, addr', token, rfl, hc, hbest⟩
      · next hc =>
          rw [if_neg hc, heq]
          rw [heq] at h
          exact .inl ⟨h, rfl⟩
  | activity now addr =>
      exact .inl ⟨(m.state.noteDirectActivity_fields now addr).2.symm.trans h,
        (m.state.noteDirectActivity_frame now addr).1⟩
  | demote now =>
      simp only [handle, demoteStaleDirectLocked] at h ⊢
      split at h
      · next hd => exact .inl ⟨h, by rw [if_pos hd]⟩
      · exact absurd h m.noteRelayOnly_current_ne
  | relayOnly => exact absurd h m.noteRelayOnly_current_ne

end Manager

/-! ## What every step keeps -/

/-- The payload of a discovery packet that a holder of the key wrote. -/
def DiscoEntry.made {ι : Type} : DiscoEntry ι → Option (List UInt8)
  | .probe _ _ payload => some payload
  | .ack _ _ payload => some payload
  | _ => none

namespace DiscoConfig

section

variable {ι : Type} (c : DiscoConfig ι)

/-- The payload ends with the MAC of what is before it. -/
def Tagged (payload : List UInt8) : Prop :=
  payload.length = discoMACSize ∧
    payload.drop macStart = (c.hmac c.key.toList (payload.take macStart)).toList

instance (payload : List UInt8) : Decidable (c.Tagged payload) := inferInstanceAs (Decidable (_ ∧ _))

/-- Without the key nobody makes a MAC: what arrives with one was written before. -/
def Unforged (s : DiscoNet ι) : DiscoLabel ι → Prop
  | .packet _ _ _ payload => c.Tagged payload → payload ∈ s.ledger.filterMap DiscoEntry.made
  | _ => True

instance (s : DiscoNet ι) : ∀ l, Decidable (c.Unforged s l)
  | .packet _ _ _ payload =>
      inferInstanceAs (Decidable (c.Tagged payload → payload ∈ s.ledger.filterMap DiscoEntry.made))
  | .candidates _ _ => isTrue trivial
  | .directPath _ _ => isTrue trivial
  | .relayOnly _ => isTrue trivial
  | .noteProbe _ _ _ _ _ => isTrue trivial
  | .writeProbe _ _ => isTrue trivial
  | .activity _ _ _ => isTrue trivial
  | .sendPeerDatagram _ _ _ => isTrue trivial
  | .writeDatagram _ _ _ => isTrue trivial

/-- The manager took an acknowledgement from this address. -/
def Consumed (ledger : List (DiscoEntry ι)) (i : ι) (key : String) : Prop :=
  ∃ now addr token, .consumed i now addr token ∈ ledger ∧ UDPAddr.string addr = key

/-- The probe was drawn and noted. -/
def Drawn (ledger : List (DiscoEntry ι)) (i : ι) (addr : UDPAddr) (payload : List UInt8) : Prop :=
  ∃ nonce now, nonce.length = 16 ∧ payload = c.probePayload nonce ∧ .noted i now addr ⟨true, nonce⟩ ∈ ledger

/-- What an entry rests on. -/
def BorneOut (earlier : List (DiscoEntry ι)) : DiscoEntry ι → Prop
  | .probe i addr payload => c.Drawn earlier i addr payload
  | .ack _ _ payload =>
      ∃ nonce j addr, nonce.length = 16 ∧ payload = c.ackPayload nonce ∧
        .probe j addr (c.probePayload nonce) ∈ earlier
  | .consumed i now addr token =>
      (∃ sentAt addr', .noted i sentAt addr' token ∈ earlier ∧ addr'.string = addr.string ∧
        now ≤ sentAt + (c.manager i).discoveryInterval) ∧
      ∃ nonce j addr', nonce.length = 16 ∧ token = ⟨true, nonce⟩ ∧
        .ack j addr' (c.ackPayload nonce) ∈ earlier
  | .datagram i addr _ => Consumed earlier i addr.string
  | _ => True

/-- What holds of a manager, against the record. -/
structure ManagerInv (ledger : List (DiscoEntry ι)) (i : ι) (m : Manager) : Prop where
  filed : m.state.Filed
  pending : Map.All (fun key p => ∃ addr, DiscoEntry.noted i p.sentAt addr p.token ∈ ledger ∧
    UDPAddr.string addr = key) m.state.pendingProbes
  direct : m.state.current = .pathDirect → Consumed ledger i m.state.bestEndpoint

structure Inv (s : DiscoNet ι) : Prop where
  managers : ∀ i, ManagerInv s.ledger i (s.managers i)
  probes : ∀ w ∈ s.probes, c.Drawn s.ledger w.manager w.addr w.payload
  datagrams : ∀ w ∈ s.datagrams, Consumed s.ledger w.manager w.addr.string
  grounded : Grounded c.BorneOut s.ledger

end

variable {ι : Type} {c : DiscoConfig ι} {ledger : List (DiscoEntry ι)} {s : DiscoNet ι} {i : ι}

theorem Consumed.cons {key : String} (h : Consumed ledger i key) (e : DiscoEntry ι) :
    Consumed (e :: ledger) i key := by
  obtain ⟨now, addr, token, hmem, hkey⟩ := h
  exact ⟨now, addr, token, List.mem_cons_of_mem _ hmem, hkey⟩

theorem Drawn.cons {addr : UDPAddr} {payload : List UInt8} (h : c.Drawn ledger i addr payload)
    (e : DiscoEntry ι) : c.Drawn (e :: ledger) i addr payload := by
  obtain ⟨nonce, now, hlen, hpayload, hmem⟩ := h
  exact ⟨nonce, now, hlen, hpayload, List.mem_cons_of_mem _ hmem⟩

theorem ManagerInv.cons {m : Manager} (h : ManagerInv ledger i m) (e : DiscoEntry ι) :
    ManagerInv (e :: ledger) i m where
  filed := h.filed
  pending := h.pending.mono fun _ _ ⟨addr, hmem, hkey⟩ => ⟨addr, List.mem_cons_of_mem _ hmem, hkey⟩
  direct hd := (h.direct hd).cons e

theorem ManagerInv.new (cfg : ManagerConfig) : ManagerInv ledger i (.new cfg) where
  filed := Map.All.empty
  pending := Map.All.empty
  direct h := by
    unfold Manager.new PathState.new at h
    dsimp only at h
    split at h <;> cases h

/-- An event of the manager whose probe or acknowledgement is in the record. -/
theorem ManagerInv.handle {cfg : ManagerConfig} {m : Manager} (h : ManagerInv ledger i m) {e : Event}
    (hnoted : ∀ generation now addr token, e = .probeSent generation now (some addr) token →
      .noted i now addr token ∈ ledger)
    (hack : ∀ now addr token, e = .ack now (some addr) token →
      (m.state.consumeProbe (some addr) cfg.discoveryInterval now token).2 = true →
      .consumed i now addr token ∈ ledger) :
    ManagerInv ledger i (m.handle cfg e) where
  filed := Manager.filed_handle h.filed e
  pending key p hp := by
    rcases Manager.pending_of_handle hp with hp | ⟨addr, rfl, hkey⟩
    · exact h.pending key p hp
    · exact ⟨addr, hnoted _ _ _ _ rfl, hkey⟩
  direct hd := by
    rcases Manager.best_of_handle hd with ⟨hd, hbest⟩ | ⟨now, addr, token, rfl, hok, hbest⟩
    · rw [hbest]
      exact h.direct hd
    · rw [hbest]
      exact ⟨now, addr, token, hack now addr token rfl hok, rfl⟩

theorem Inv.init [DecidableEq ι] (c : DiscoConfig ι) : c.Inv c.init where
  managers _ := ManagerInv.new _
  probes _ hw := by cases hw
  datagrams _ hw := by cases hw
  grounded := Grounded.nil

theorem Inv.record (hi : c.Inv s) {e : DiscoEntry ι} (he : c.BorneOut s.ledger e) : c.Inv (record s e) where
  managers i := (hi.managers i).cons e
  probes w hw := (hi.probes w hw).cons e
  datagrams w hw := (hi.datagrams w hw).cons e
  grounded := hi.grounded.cons he

theorem tagged_encode (kind : UInt8) {nonce : List UInt8} (hnonce : nonce.length = 16) :
    c.Tagged (encodeDiscoveryMAC c.hmac c.key kind nonce) := by
  obtain ⟨-, -, -, hbody, hmac⟩ := encodeDiscoveryMAC_fields c.hmac c.key kind hnonce
  exact ⟨length_encodeDiscoveryMAC hnonce, by rw [hbody, hmac]⟩

theorem encodeDiscoveryMAC_inj {kind kind' : UInt8} {nonce nonce' : List UInt8} (h : nonce.length = 16)
    (h' : nonce'.length = 16)
    (heq : encodeDiscoveryMAC c.hmac c.key kind nonce = encodeDiscoveryMAC c.hmac c.key kind' nonce') :
    kind = kind' ∧ nonce = nonce' := by
  have hdecode := decodeDiscoveryMAC_encode c.hmac c.key kind kind h
  rw [heq, decodeDiscoveryMAC_encode c.hmac c.key kind' kind h', if_pos rfl] at hdecode
  by_cases hkind : kind' = kind
  · rw [if_pos hkind, Option.some.injEq] at hdecode
    exact ⟨hkind.symm, hdecode.symm⟩
  · rw [if_neg hkind] at hdecode
    cases hdecode

theorem probePayload_ne_ackPayload {nonce nonce' : List UInt8} (h : nonce.length = 16)
    (h' : nonce'.length = 16) : c.probePayload nonce ≠ c.ackPayload nonce' :=
  fun heq => absurd (encodeDiscoveryMAC_inj h h' heq).1 (by decide)

/-- A probe that somebody got was written. -/
theorem Inv.probe_mem (hi : c.Inv s) {nonce : List UInt8} (hnonce : nonce.length = 16)
    (h : c.probePayload nonce ∈ s.ledger.filterMap DiscoEntry.made) :
    ∃ j addr, .probe j addr (c.probePayload nonce) ∈ s.ledger := by
  obtain ⟨e, he, hmade⟩ := List.mem_filterMap.mp h
  cases e with
  | probe j addr payload =>
      cases hmade
      exact ⟨j, addr, he⟩
  | ack j addr payload =>
      cases hmade
      obtain ⟨-, -, nonce', -, -, hlen, heq, -⟩ := hi.grounded.of_mem he
      exact absurd heq (probePayload_ne_ackPayload hnonce hlen)
  | noted _ _ _ _ => cases hmade
  | consumed _ _ _ _ => cases hmade
  | datagram _ _ _ => cases hmade
  | relayed _ _ => cases hmade
  | failed _ _ => cases hmade

theorem Inv.ack_mem (hi : c.Inv s) {nonce : List UInt8} (hnonce : nonce.length = 16)
    (h : c.ackPayload nonce ∈ s.ledger.filterMap DiscoEntry.made) :
    ∃ j addr, .ack j addr (c.ackPayload nonce) ∈ s.ledger := by
  obtain ⟨e, he, hmade⟩ := List.mem_filterMap.mp h
  cases e with
  | ack j addr payload =>
      cases hmade
      exact ⟨j, addr, he⟩
  | probe j addr payload =>
      cases hmade
      obtain ⟨-, -, nonce', -, hlen, heq, -⟩ := hi.grounded.of_mem he
      exact absurd heq.symm (probePayload_ne_ackPayload hlen hnonce)
  | noted _ _ _ _ => cases hmade
  | consumed _ _ _ _ => cases hmade
  | datagram _ _ _ => cases hmade
  | relayed _ _ => cases hmade
  | failed _ _ => cases hmade

/-- Under a key nothing but probes is answered, and nothing but acknowledgements promotes a path. -/
theorem handleDirectPacket_cases (hkey : c.key.isZero = false) (t : PathState) (addr : UDPAddr)
    (payload : List UInt8) :
    (∃ nonce, nonce.length = 16 ∧ payload = c.probePayload nonce ∧
        c.handleDirectPacket t addr payload = .writeAck (c.ackPayload nonce)) ∨
      (∃ nonce, nonce.length = 16 ∧ payload = c.ackPayload nonce ∧
        c.handleDirectPacket t addr payload = .tryPromoteDirect ⟨true, nonce⟩) ∨
      c.handleDirectPacket t addr payload ∈
        [PacketAction.handleSTUNPacket, .reject, .enqueuePeerDatagram] := by
  unfold handleDirectPacket discoAction
  simp only [directAckPayloadForProbe, directAckTokenForPayload, hkey, Bool.false_eq_true, if_false]
  by_cases hstun : c.stunIs payload = true
  · simp [hstun]
  rw [if_neg hstun]
  cases hprobe : decodeDiscoveryMAC c.hmac c.key payload discoMACKindProbe with
  | some nonce =>
      obtain ⟨hlen, heq⟩ := eq_of_decodeDiscoveryMAC hprobe
      exact .inl ⟨nonce, hlen, heq, rfl⟩
  | none =>
      cases hack : decodeDiscoveryMAC c.hmac c.key payload discoMACKindAck with
      | some nonce =>
          obtain ⟨hlen, heq⟩ := eq_of_decodeDiscoveryMAC hack
          exact .inr (.inl ⟨nonce, hlen, heq, rfl⟩)
      | none =>
          right
          right
          simp only [Option.bind_eq_bind, Option.bind_none]
          by_cases hreject : (isDirectDiscoveryMACPayload payload ||
              !false && isLegacyDirectDiscoveryPayload payload) = true
          · rw [if_pos hreject]
            simp
          · rw [if_neg hreject]
            by_cases haccept : t.shouldAcceptDirectPayload addr = true
            · simp [haccept]
            · simp [haccept]

/-- The endpoint in use is filed under its text, and the manager took an acknowledgement from it. -/
theorem ManagerInv.directAddr {ledger : List (DiscoEntry ι)} {m : Manager} (h : ManagerInv ledger i m)
    {addr : UDPAddr} (haddr : m.state.directAddr = some addr) : Consumed ledger i addr.string := by
  unfold PathState.directAddr at haddr
  split at haddr
  · cases haddr
  · next hd =>
      rw [not_or, not_not] at hd
      rw [h.filed _ _ haddr]
      exact h.direct hd.1

section

variable [DecidableEq ι]

theorem Inv.handle (hi : c.Inv s) {e : Event}
    (hnoted : ∀ generation now addr token, e = .probeSent generation now (some addr) token →
      .noted i now addr token ∈ s.ledger)
    (hack : ∀ now addr token, e = .ack now (some addr) token →
      ((s.managers i).state.consumeProbe (some addr) (c.manager i).discoveryInterval now token).2 = true →
      .consumed i now addr token ∈ s.ledger) :
    c.Inv (c.handle s i e) where
  managers j := by
    by_cases hj : j = i
    · subst hj
      simp only [DiscoConfig.handle, Function.update_self]
      exact (hi.managers j).handle hnoted hack
    · simp only [DiscoConfig.handle, Function.update_of_ne hj]
      exact hi.managers j
  probes := hi.probes
  datagrams := hi.datagrams
  grounded := hi.grounded

/-- An event that neither notes a probe nor takes an acknowledgement. -/
theorem Inv.handle_quiet (hi : c.Inv s) {e : Event}
    (hquiet : ∀ generation now addr token, e ≠ .probeSent generation now addr token ∧ e ≠ .ack now addr token) :
    c.Inv (c.handle s i e) :=
  hi.handle (fun generation now addr token he => absurd he (hquiet generation now (some addr) token).1)
    (fun now addr token he => absurd he (hquiet 0 now (some addr) token).2)

theorem Inv.packet (hkey : c.key.isZero = false) (hi : c.Inv s) {now : Int} {addr : UDPAddr}
    {payload : List UInt8} (hunforged : c.Unforged s (.packet i now addr payload)) :
    c.Inv (c.packet s i now addr payload) := by
  unfold DiscoConfig.packet
  rcases handleDirectPacket_cases hkey (s.managers i).state addr payload with
    ⟨nonce, hlen, rfl, haction⟩ | ⟨nonce, hlen, rfl, haction⟩ | haction
  · obtain ⟨j, addr', hmem⟩ := hi.probe_mem hlen (hunforged (tagged_encode _ hlen))
    rw [haction]
    exact hi.record ⟨nonce, j, addr', hlen, rfl, hmem⟩
  · obtain ⟨j, addr', hmem⟩ := hi.ack_mem hlen (hunforged (tagged_encode _ hlen))
    rw [haction]
    dsimp only
    split
    · next hok =>
        obtain ⟨sentAt, hpending, htime⟩ := PathState.consumeProbe_ok hok
        obtain ⟨probed, hnoted, hprobed⟩ := (hi.managers i).pending _ _ hpending
        have hborne : c.BorneOut s.ledger (.consumed i now addr ⟨true, nonce⟩) :=
          ⟨⟨sentAt, probed, hnoted, hprobed, htime⟩, nonce, j, addr', hlen, rfl, hmem⟩
        refine (hi.record hborne).handle (fun _ _ _ _ he => nomatch he) fun now' addr'' token he _ => ?_
        cases he
        exact List.mem_cons_self
    · next hok =>
        refine hi.handle (fun _ _ _ _ he => nomatch he) fun now' addr'' token he hok' => ?_
        cases he
        exact absurd hok' hok
  · simp only [List.mem_cons, List.not_mem_nil, or_false] at haction
    rcases haction with haction | haction | haction <;> rw [haction] <;> exact hi

theorem Inv.sendPeerDatagram (hi : c.Inv s) (now : Int) (payload : List UInt8) :
    c.Inv (c.sendPeerDatagram s i now payload) := by
  unfold DiscoConfig.sendPeerDatagram
  split
  · exact hi
  dsimp only
  have ht : c.Inv (c.handle s i (.demote now)) := hi.handle_quiet fun _ _ _ _ => ⟨nofun, nofun⟩
  split
  · unfold relay
    split
    · exact ht.record trivial
    · exact ht.record trivial
  · next addr haddr =>
      refine ⟨ht.managers, ht.probes, fun w hw => ?_, ht.grounded⟩
      rcases List.mem_append.mp hw with hw | hw
      · exact ht.datagrams w hw
      · rw [List.mem_singleton.mp hw]
        exact (ht.managers i).directAddr haddr

theorem Inv.noteProbe (hkey : c.key.isZero = false) (hi : c.Inv s) (generation : UInt64) (now : Int)
    (addr : UDPAddr) (nonce : Nonce) {t : DiscoNet ι}
    (h : c.step s (.noteProbe i generation now addr nonce) = some t) : c.Inv t := by
  simp only [step, newDirectProbePayload, hkey, Bool.false_eq_true, if_false, Option.some.injEq] at h
  have hrec : c.Inv (DiscoConfig.record s (.noted i now addr ⟨true, nonce.toList⟩)) := hi.record trivial
  have hhandle : c.Inv (c.handle (DiscoConfig.record s (.noted i now addr ⟨true, nonce.toList⟩)) i
      (.probeSent generation now (some addr) ⟨true, nonce.toList⟩)) := by
    refine hrec.handle (fun _ _ _ _ he => ?_) fun _ _ _ he => nomatch he
    cases he
    exact List.mem_cons_self
  subst h
  refine ⟨hhandle.managers, fun w hw => ?_, hhandle.datagrams, hhandle.grounded⟩
  rcases List.mem_append.mp hw with hw | hw
  · exact hhandle.probes w hw
  · rw [List.mem_singleton.mp hw]
    exact ⟨nonce.toList, now, by simp, rfl, List.mem_cons_self⟩

theorem Inv.writeProbe (hi : c.Inv s) {k : Nat} {ok : Bool} {t : DiscoNet ι}
    (h : c.step s (.writeProbe k ok) = some t) : c.Inv t := by
  obtain ⟨w, hw, h⟩ := Option.bind_eq_some_iff.mp h
  have hdrawn := hi.probes w (List.mem_of_getElem? hw)
  have ht : c.Inv { s with probes := s.probes.eraseIdx k } :=
    ⟨hi.managers, fun w hw => hi.probes w (List.mem_of_mem_eraseIdx hw), hi.datagrams, hi.grounded⟩
  split at h
  · cases h
    exact ht.record hdrawn
  · cases h
    exact ht.handle_quiet fun _ _ _ _ => ⟨nofun, nofun⟩

theorem Inv.writeDatagram (hi : c.Inv s) {k : Nat} {now : Int} {result : WriteResult} {t : DiscoNet ι}
    (h : c.step s (.writeDatagram k now result) = some t) : c.Inv t := by
  obtain ⟨w, hw, h⟩ := Option.bind_eq_some_iff.mp h
  have hconsumed := hi.datagrams w (List.mem_of_getElem? hw)
  have ht : c.Inv { s with datagrams := s.datagrams.eraseIdx k } :=
    ⟨hi.managers, hi.probes, fun w hw => hi.datagrams w (List.mem_of_mem_eraseIdx hw), hi.grounded⟩
  cases result with
  | written =>
      cases h
      have hrec : c.Inv (DiscoConfig.record { s with datagrams := s.datagrams.eraseIdx k }
          (.datagram w.manager w.addr w.payload)) := ht.record hconsumed
      exact hrec.handle_quiet fun _ _ _ _ => ⟨nofun, nofun⟩
  | emsgsize =>
      cases h
      exact ht.record trivial
  | broken =>
      simp only at h
      split at h
      · cases h
        have hbroken : c.Inv (c.handle { s with datagrams := s.datagrams.eraseIdx k } w.manager .relayOnly) :=
          ht.handle_quiet fun _ _ _ _ => ⟨nofun, nofun⟩
        exact hbroken.record trivial
      · cases h
        exact ht.record trivial

theorem Inv.step (hkey : c.key.isZero = false) (hi : c.Inv s) {l : DiscoLabel ι} {t : DiscoNet ι}
    (hunforged : c.Unforged s l) (h : c.step s l = some t) : c.Inv t := by
  cases l with
  | candidates i addrs =>
      cases h
      exact hi.handle_quiet fun _ _ _ _ => ⟨nofun, nofun⟩
  | directPath i now =>
      cases h
      exact hi.handle_quiet fun _ _ _ _ => ⟨nofun, nofun⟩
  | relayOnly i =>
      cases h
      exact hi.handle_quiet fun _ _ _ _ => ⟨nofun, nofun⟩
  | noteProbe i generation now addr nonce => exact hi.noteProbe hkey generation now addr nonce h
  | writeProbe k ok => exact hi.writeProbe h
  | packet i now addr payload =>
      cases h
      exact hi.packet hkey hunforged
  | activity i now addr =>
      cases h
      exact hi.handle_quiet fun _ _ _ _ => ⟨nofun, nofun⟩
  | sendPeerDatagram i now payload =>
      cases h
      exact hi.sendPeerDatagram now payload
  | writeDatagram k now result => exact hi.writeDatagram h

/-! ## Runs -/

end

/-- No nonce is drawn twice. -/
def FreshNonces (ledger : List (DiscoEntry ι)) : Prop :=
  ∀ i j now now' addr addr' token, .noted i now addr token ∈ ledger → .noted j now' addr' token ∈ ledger →
    i = j ∧ addr = addr'

/-- The manager wrote a probe to the address, a holder of the key got it and answered it, and the
answer came back from the address in time, in this order. -/
def Acknowledged (c : DiscoConfig ι) (ledger : List (DiscoEntry ι)) (i : ι) (key : String) : Prop :=
  ∃ now addr nonce before, .consumed i now addr ⟨true, nonce⟩ :: before <:+ ledger ∧ addr.string = key ∧
    ∃ sentAt probed, .noted i sentAt probed ⟨true, nonce⟩ ∈ before ∧ probed.string = key ∧
      now ≤ sentAt + (c.manager i).discoveryInterval ∧
      ∃ j answered earlier, .ack j answered (c.ackPayload nonce) :: earlier <:+ before ∧
        .probe i probed (c.probePayload nonce) ∈ earlier

/-- The chain behind an acknowledgement that was taken. -/
theorem acknowledged_of_consumed {key : String} (hgrounded : Grounded c.BorneOut ledger)
    (hfresh : FreshNonces ledger) (h : Consumed ledger i key) : c.Acknowledged ledger i key := by
  obtain ⟨now, addr, token, hmem, rfl⟩ := h
  obtain ⟨before, hbefore, ⟨sentAt, probed, hnoted, hprobed, htime⟩, nonce, j, answered, hlen, rfl, hack⟩ :=
    hgrounded.of_mem hmem
  have hsuffix : before <:+ ledger := (List.suffix_cons _ _).trans hbefore
  obtain ⟨earlier, hearlier, nonce', k, addr', hlen', heq, hprobe⟩ := (hgrounded.of_suffix hsuffix).of_mem hack
  obtain rfl : nonce = nonce' := (encodeDiscoveryMAC_inj hlen hlen' heq).2
  have hsuffix' : earlier <:+ ledger := ((List.suffix_cons _ _).trans hearlier).trans hsuffix
  obtain ⟨older, holder, nonce', drawn, hlen', heq', hdrawn⟩ := (hgrounded.of_suffix hsuffix').of_mem hprobe
  obtain rfl : nonce = nonce' := (encodeDiscoveryMAC_inj hlen hlen' heq').2
  have hdrawn' : .noted k drawn addr' ⟨true, nonce⟩ ∈ ledger :=
    (((List.suffix_cons _ _).trans holder).trans hsuffix').subset hdrawn
  obtain ⟨rfl, rfl⟩ := hfresh i k sentAt drawn probed addr' _ (hsuffix.subset hnoted) hdrawn'
  exact ⟨now, addr, nonce, before, hbefore, rfl, sentAt, probed, hnoted, hprobed, htime, j, answered,
    earlier, hearlier, hprobe⟩

/-- Whatever the network does, a manager with a key takes a path for direct only after a holder of
the key has answered its probe of that very endpoint in time, and it writes datagrams to no other
address. -/
theorem direct_path_authenticated [DecidableEq ι] (c : DiscoConfig ι) (hkey : c.key.isZero = false)
    {labels : List (DiscoLabel ι)} {s : DiscoNet ι} (hrun : runFrom c.step c.init labels = some s)
    (hunforged : StepsMeet c.step c.Unforged c.init labels) (hfresh : FreshNonces s.ledger) :
    (∀ i, (s.managers i).state.current = .pathDirect →
      c.Acknowledged s.ledger i (s.managers i).state.bestEndpoint) ∧
    ∀ i addr payload earlier, .datagram i addr payload :: earlier <:+ s.ledger →
      c.Acknowledged earlier i addr.string := by
  have hi : c.Inv s := runFrom_invariant_of_meet (fun s l t hi hu h => hi.step hkey hu h) labels
    (Inv.init c) hunforged hrun
  refine ⟨fun i hd => acknowledged_of_consumed hi.grounded hfresh ((hi.managers i).direct hd), ?_⟩
  intro i addr payload earlier hs
  have hsuffix : earlier <:+ s.ledger := (List.suffix_cons _ _).trans hs
  refine acknowledged_of_consumed (hi.grounded.of_suffix hsuffix) ?_ (hi.grounded _ _ hs)
  intro i j now now' addr addr' token h h'
  exact hfresh i j now now' addr addr' token (hsuffix.subset h) (hsuffix.subset h')

/-- One manager, with HMAC-SHA256 on the two messages of the run below. -/
def sampleDisco : DiscoConfig Unit where
  key := Vector.replicate 32 7
  hmac _ message :=
    if message = discoMACMagic ++ discoMACKindProbe :: List.replicate 16 42 then
      (#v[85, 115, 229, 217, 219, 0, 103, 195, 148, 8, 197, 185, 186, 33, 93, 27, 203, 50, 24, 218, 139, 244,
    181, 59, 151, 246, 65, 74, 170, 36, 236, 184] : Vector UInt8 32)
    else if message = discoMACMagic ++ discoMACKindAck :: List.replicate 16 42 then
      (#v[7, 194, 54, 39, 122, 169, 199, 64, 60, 152, 178, 111, 173, 202, 166, 115, 90, 113, 130, 192, 227,
    77, 167, 230, 32, 131, 233, 179, 195, 218, 215, 143] : Vector UInt8 32)
    else Vector.replicate 32 0
  stunIs _ := false
  manager _ := ⟨true, true, 2000000000, 30000000000⟩
  relaySend _ := true

def sampleEndpoint : UDPAddr := ⟨[192, 0, 2, 7], 41641, ""⟩

/-- The probe comes back from the endpoint, is answered, and the answer comes back too. -/
def sampleReflection : List (DiscoLabel Unit) :=
  [.candidates () [some sampleEndpoint], .noteProbe () 0 10 sampleEndpoint (Vector.replicate 16 42),
    .writeProbe 0 true, .packet () 20 sampleEndpoint (sampleDisco.probePayload (List.replicate 16 42)),
    .packet () 30 sampleEndpoint (sampleDisco.ackPayload (List.replicate 16 42)),
    .sendPeerDatagram () 40 [1, 2, 3], .writeDatagram 0 41 .written]

/-- A manager that only ever hears itself takes the path for direct: the holder of the key that
answered is the manager. -/
theorem direct_path_authenticated_reflected :
    ∃ s, runFrom sampleDisco.step sampleDisco.init sampleReflection = some s ∧
      (s.managers ()).state.current = .pathDirect ∧
      sampleDisco.Acknowledged s.ledger () (s.managers ()).state.bestEndpoint := by
  have hsome : (runFrom sampleDisco.step sampleDisco.init sampleReflection).isSome = true := by decide +kernel
  obtain ⟨s, hs⟩ := Option.isSome_iff_exists.mp hsome
  have hdirect : (runFrom sampleDisco.step sampleDisco.init sampleReflection).map
      (fun s => (s.managers ()).state.current) = some .pathDirect := by decide +kernel
  have hledger : (runFrom sampleDisco.step sampleDisco.init sampleReflection).map
      (fun s => s.ledger.filter fun e => e matches .noted ..) =
        some [.noted () 10 sampleEndpoint ⟨true, List.replicate 16 42⟩] := by decide +kernel
  have hunforged : StepsMeet sampleDisco.step sampleDisco.Unforged sampleDisco.init sampleReflection := by
    decide +kernel
  rw [hs, Option.map_some, Option.some.injEq] at hdirect hledger
  have hfresh : FreshNonces s.ledger := by
    intro i j now now' addr addr' token h h'
    have hnoted : ∀ {k at' a tok}, DiscoEntry.noted k at' a tok ∈ s.ledger → a = sampleEndpoint := by
      intro k at' a tok hmem
      have := List.mem_filter (p := fun e : DiscoEntry Unit => e matches .noted ..).mpr ⟨hmem, rfl⟩
      rw [hledger, List.mem_singleton] at this
      cases this
      rfl
    exact ⟨rfl, (hnoted h).trans (hnoted h').symm⟩
  exact ⟨s, hs, hdirect,
    (direct_path_authenticated sampleDisco (by decide +kernel) hs hunforged hfresh).1 () hdirect⟩

end DiscoConfig

end Transport
