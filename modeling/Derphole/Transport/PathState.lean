import Derphole.Lib.Map
import Derphole.Lib.NetAddr
import Mathlib.Data.List.Induction

/-!
# The path of a transport manager

`pathState` of `pkg/transport/state.go` and the sections of `pkg/transport/manager.go` that change
it, each of them under the manager's lock.  Addresses are UDP addresses, the only ones that
candidate parsing makes and UDP sockets report; times and durations are in nanoseconds, and the
zero time is `none`.
-/

namespace Transport

open Lib

inductive Path where
  | pathUnknown
  | pathRelay
  | pathDirect
  deriving DecidableEq

/-- `directProbeToken`. -/
structure DirectProbeToken where
  mac : Bool
  nonce : List UInt8
  deriving DecidableEq

structure PendingDirectProbe where
  sentAt : Int
  token : DirectProbeToken
  deriving DecidableEq

/-- `pathState`, without the times that only pace discovery. -/
structure PathState where
  current : Path
  relayConfigured : Bool
  directConfigured : Bool
  endpoints : Map String UDPAddr
  endpointLatency : Map String Int
  bestEndpoint : String
  lastDirectAt : Option Int
  pendingProbes : Map String PendingDirectProbe
  upgrades : Nat
  fallbacks : Nat

/-! ## Preferences -/

def isCGNAT (ip : IP) : Bool :=
  match ip.to4 with
  | some ip4 => ip4.getD 0 0 == 100 && ip4.getD 1 0 &&& 0xc0 == 64
  | none => false

def directAddrPreferencePoints (ip : IP) : Int :=
  if ip.isLoopback then 50
  else if ip.isLinkLocalUnicast then 30
  else if ip.isPrivate || isCGNAT ip then 20
  else 0

def addrIP (addr : UDPAddr) : Option IP := if addr.ip = [] then none else some addr.ip

/-- The points of a latency against a larger one. -/
def latencyPoints (smaller larger : Int) : Int := 100 - (smaller * 100).tdiv larger

def betterDirectAddr (candidate : UDPAddr) (candidateLatency : Int) (current : UDPAddr)
    (currentLatency : Int) : Bool :=
  match addrIP candidate, addrIP current with
  | some _, none => true
  | none, _ => false
  | some candidateIP, some currentIP =>
      let currentPoints :=
        if candidateLatency > currentLatency ∧ candidateLatency > 0 then
          latencyPoints currentLatency candidateLatency
        else 0
      let candidatePoints :=
        if candidateLatency > currentLatency ∧ candidateLatency > 0 then 0
        else if currentLatency > 0 then latencyPoints candidateLatency currentLatency
        else 0
      let candidatePoints := candidatePoints + directAddrPreferencePoints candidateIP
      let currentPoints := currentPoints + directAddrPreferencePoints currentIP
      if candidatePoints ≤ 1 ∧ currentPoints = 0 then false
      else decide (candidatePoints > currentPoints)

def sameAddr (a b : UDPAddr) : Bool := a.port == b.port && a.zone == b.zone && a.ip.equal b.ip

namespace PathState

def new (hasRelay hasDirect : Bool) : PathState where
  current := if hasRelay then .pathRelay else .pathUnknown
  relayConfigured := hasRelay
  directConfigured := hasDirect
  endpoints := ∅
  endpointLatency := ∅
  bestEndpoint := ""
  lastDirectAt := none
  pendingProbes := ∅
  upgrades := 0
  fallbacks := 0

section

variable (s : PathState)

def noteRelay : PathState × Bool :=
  let next : Path := if s.relayConfigured then .pathRelay else .pathUnknown
  ({ s with
      fallbacks := if s.current = .pathDirect then s.fallbacks + 1 else s.fallbacks
      current := next
      pendingProbes := ∅ },
    decide (s.current ≠ next))

/-- The map that `noteCandidates` builds from the addresses. -/
def candidateMap (candidates : List (Option UDPAddr)) : Map String UDPAddr :=
  candidates.foldl
    (fun next candidate =>
      match candidate with
      | none => next
      | some addr => next.insert addr.string addr)
    ∅

/-- A path in use keeps its endpoint. -/
def keepBest (next : Map String UDPAddr) : Map String UDPAddr :=
  if s.current = .pathDirect ∧ s.bestEndpoint ≠ "" then
    match next.lookup s.bestEndpoint, s.endpoints.lookup s.bestEndpoint with
    | none, some addr => next.insert s.bestEndpoint addr
    | _, _ => next
  else next

/-- Delete the entries whose key is not an endpoint. -/
def restrict {β : Type} (m : Map String β) (endpoints : Map String UDPAddr) : Map String β :=
  Map.eraseAll m (m.keys.filter fun key => (endpoints.lookup key).isNone)

/-- The new endpoints take effect. -/
def setEndpoints (next : Map String UDPAddr) : PathState :=
  { s with
    endpoints := next
    pendingProbes := restrict s.pendingProbes next
    endpointLatency := restrict s.endpointLatency next
    bestEndpoint :=
      if s.bestEndpoint ≠ "" ∧ (next.lookup s.bestEndpoint).isNone then "" else s.bestEndpoint }

def noteCandidates (candidates : List (Option UDPAddr)) : PathState × Bool :=
  let next := s.keepBest (candidateMap candidates)
  let changed := next.keys.length ≠ s.endpoints.keys.length ∨
    ∃ key ∈ next.keys, (s.endpoints.lookup key).isNone
  let t := s.setEndpoints next
  if s.current = .pathDirect ∧ s.bestEndpoint ≠ "" ∧ t.bestEndpoint = "" then
    (t.noteRelay.1, decide changed || t.noteRelay.2)
  else (t, decide changed)

/-- The endpoint that is in use is better. -/
def keepsBest (key : String) (candidate : UDPAddr) : Bool :=
  if s.current = .pathDirect ∧ s.bestEndpoint ≠ "" ∧ s.bestEndpoint ≠ key then
    match s.endpoints.lookup s.bestEndpoint with
    | some best =>
        !betterDirectAddr candidate ((s.endpointLatency.lookup key).getD 0) best
          ((s.endpointLatency.lookup s.bestEndpoint).getD 0)
    | none => false
  else false

def noteDirect (now : Int) (addr : Option UDPAddr) : PathState × Bool :=
  match addr with
  | none => (s, false)
  | some addr =>
      if !s.directConfigured then (s, false)
      else
        match s.endpoints.lookup addr.string with
        | none => (s, false)
        | some candidate =>
            if s.keepsBest addr.string candidate then ({ s with lastDirectAt := some now }, false)
            else
              ({ s with
                  upgrades := if s.current ≠ .pathDirect then s.upgrades + 1 else s.upgrades
                  current := .pathDirect
                  bestEndpoint := addr.string
                  lastDirectAt := some now },
                decide (s.current ≠ .pathDirect ∨ s.bestEndpoint ≠ addr.string))

def noteDirectActivity (now : Int) (addr : Option UDPAddr) : PathState :=
  match addr with
  | none => s
  | some addr =>
      if s.current ≠ .pathDirect ∨ s.bestEndpoint = "" then s
      else
        match s.endpoints.lookup s.bestEndpoint with
        | none => s
        | some best => if sameAddr addr best then { s with lastDirectAt := some now } else s

def noteProbeSent (now : Int) (addr : Option UDPAddr) (token : DirectProbeToken) : PathState :=
  match addr with
  | none => s
  | some addr => { s with pendingProbes := s.pendingProbes.insert addr.string ⟨now, token⟩ }

def forgetProbe (addr : Option UDPAddr) (token : DirectProbeToken) : PathState :=
  match addr with
  | none => s
  | some addr =>
      match s.pendingProbes.lookup addr.string with
      | none => s
      | some pending =>
          if pending.token ≠ token then s
          else { s with pendingProbes := s.pendingProbes.erase addr.string }

def consumeProbe (addr : Option UDPAddr) (maxAge now : Int) (token : DirectProbeToken) :
    PathState × Bool :=
  match addr with
  | none => (s, false)
  | some addr =>
      match s.pendingProbes.lookup addr.string with
      | none => (s, false)
      | some pending =>
          let t := { s with pendingProbes := s.pendingProbes.erase addr.string }
          if pending.token ≠ token then (t, false)
          else if pending.sentAt + maxAge < now then (t, false)
          else
            ({ t with endpointLatency := t.endpointLatency.insert addr.string (now - pending.sentAt) },
              true)

def directIsStale (now staleAfter : Int) : Bool :=
  if s.current ≠ .pathDirect then true
  else
    match s.lastDirectAt with
    | none => true
    | some lastDirectAt => decide (¬ now < lastDirectAt + staleAfter)

end

end PathState

/-! ## The manager -/

/-- The configured intervals, with their defaults filled in. -/
structure ManagerConfig where
  hasRelay : Bool
  hasDirect : Bool
  discoveryInterval : Int
  directStaleTimeout : Int

/-- `Manager`.  `stateNotify` counts how often the channel was closed and replaced. -/
structure Manager where
  state : PathState
  discoveryGen : UInt64
  stateNotify : Nat

/-- One section under the lock, with what its caller hands in. -/
inductive Event where
  /-- `applyRemoteCandidates`. -/
  | candidates (addrs : List (Option UDPAddr))
  /-- `noteProbeSentIfCurrent`. -/
  | probeSent (generation : UInt64) (now : Int) (addr : Option UDPAddr) (token : DirectProbeToken)
  /-- `noteProbeFailedIfCurrent`. -/
  | probeFailed (generation : UInt64) (addr : Option UDPAddr) (token : DirectProbeToken)
  /-- `tryPromoteDirect`. -/
  | ack (now : Int) (addr : Option UDPAddr) (token : DirectProbeToken)
  /-- `NoteDirectActivity`. -/
  | activity (now : Int) (addr : Option UDPAddr)
  /-- `demoteStaleDirectLocked`. -/
  | demote (now : Int)
  /-- `noteRelayOnly`. -/
  | relayOnly

namespace Manager

def new (cfg : ManagerConfig) : Manager := ⟨.new cfg.hasRelay cfg.hasDirect, 0, 0⟩

section

variable (cfg : ManagerConfig) (m : Manager)

/-- Take over a state and signal where it changed. -/
def update (r : PathState × Bool) : Manager :=
  { m with state := r.1, stateNotify := if r.2 then m.stateNotify + 1 else m.stateNotify }

def applyRemoteCandidates (addrs : List (Option UDPAddr)) : Manager :=
  m.update (m.state.noteCandidates addrs)

def noteRelayOnly : Manager :=
  { m with discoveryGen := m.discoveryGen + 1 }.update m.state.noteRelay

def demoteStaleDirectLocked (now : Int) : Manager :=
  if m.state.current ≠ .pathDirect ∨ !m.state.directIsStale now cfg.directStaleTimeout then m
  else m.noteRelayOnly

def tryPromoteDirect (now : Int) (addr : Option UDPAddr) (token : DirectProbeToken) : Manager :=
  let r := m.state.consumeProbe addr cfg.discoveryInterval now token
  if r.2 then m.update (r.1.noteDirect now addr) else { m with state := r.1 }

/-- Results of a discovery tick that was overtaken are dropped. -/
def ifCurrent (generation : UInt64) (s : PathState) : Manager :=
  if m.discoveryGen ≠ generation then m else { m with state := s }

def handle : Event → Manager
  | .candidates addrs => m.applyRemoteCandidates addrs
  | .probeSent generation now addr token =>
      m.ifCurrent generation (m.state.noteProbeSent now addr token)
  | .probeFailed generation addr token =>
      m.ifCurrent generation (m.state.forgetProbe addr token)
  | .ack now addr token => m.tryPromoteDirect cfg now addr token
  | .activity now addr => { m with state := m.state.noteDirectActivity now addr }
  | .demote now => m.demoteStaleDirectLocked cfg now
  | .relayOnly => m.noteRelayOnly

end

/-- The manager after a history of events. -/
def run (cfg : ManagerConfig) (events : List Event) : Manager :=
  events.foldl (fun m e => m.handle cfg e) (new cfg)

end Manager

/-! ## What an event keeps -/

namespace PathState

/-- What every section keeps. -/
structure Inv (s : PathState) : Prop where
  best : s.bestEndpoint = "" ∨ (s.endpoints.lookup s.bestEndpoint).isSome = true
  direct : s.current = .pathDirect → s.directConfigured = true ∧ s.bestEndpoint ≠ ""
  count : s.upgrades = s.fallbacks + if s.current = .pathDirect then 1 else 0

variable {s : PathState}

theorem Inv.new (hasRelay hasDirect : Bool) : Inv (.new hasRelay hasDirect) := by
  cases hasRelay <;> exact ⟨.inl rfl, fun h => (by cases h), rfl⟩

theorem noteRelay_current_ne (s : PathState) : s.noteRelay.1.current ≠ .pathDirect := by
  unfold noteRelay
  cases s.relayConfigured <;> simp

theorem Inv.noteRelay (hi : Inv s) : Inv s.noteRelay.1 where
  best := hi.best
  direct := fun h => absurd h s.noteRelay_current_ne
  count := by
    rw [if_neg s.noteRelay_current_ne]
    have hc := hi.count
    simp only [PathState.noteRelay]
    split at hc
    · next h => rw [if_pos h]; exact hc
    · next h => rw [if_neg h]; exact hc

theorem setEndpoints_best (s : PathState) (next : Map String UDPAddr) :
    (s.setEndpoints next).bestEndpoint = "" ∨
      (next.lookup (s.setEndpoints next).bestEndpoint).isSome = true := by
  by_cases hb : s.bestEndpoint = ""
  · left
    simp [setEndpoints, hb]
  · cases hl : next.lookup s.bestEndpoint with
    | none =>
        left
        simp [setEndpoints, hb, hl]
    | some addr =>
        right
        have hkeep : (s.setEndpoints next).bestEndpoint = s.bestEndpoint := by
          simp [setEndpoints, hl]
        rw [hkeep, hl]
        rfl

theorem Inv.noteCandidates (hi : Inv s) (candidates : List (Option UDPAddr)) :
    Inv (s.noteCandidates candidates).1 := by
  have hbest := s.setEndpoints_best (s.keepBest (candidateMap candidates))
  unfold PathState.noteCandidates
  simp only
  split
  · refine ⟨hbest, fun h => absurd h (noteRelay_current_ne _), ?_⟩
    have ht : Inv { s.setEndpoints (s.keepBest (candidateMap candidates)) with
        bestEndpoint := s.bestEndpoint, endpoints := s.endpoints } := ⟨hi.best, hi.direct, hi.count⟩
    exact ht.noteRelay.count
  · next h =>
      refine ⟨hbest, ?_, hi.count⟩
      intro hd
      obtain ⟨hconf, hne⟩ := hi.direct hd
      exact ⟨hconf, fun he => h ⟨hd, hne, he⟩⟩

theorem Inv.noteDirect (hi : Inv s) (now : Int) (addr : Option UDPAddr) :
    Inv (s.noteDirect now addr).1 := by
  unfold PathState.noteDirect
  split
  · exact hi
  · next addr =>
      split
      · exact hi
      · next hconf =>
          split
          · exact hi
          · next candidate hl =>
              split
              · exact ⟨hi.best, hi.direct, hi.count⟩
              · refine ⟨.inr ?_, fun _ => ⟨by simpa using hconf, addr.string_ne_empty⟩, ?_⟩
                · rw [hl]
                  rfl
                · have hc := hi.count
                  by_cases hd : s.current = .pathDirect
                  · simpa [hd] using hc
                  · simpa [hd] using hc

theorem Inv.noteDirectActivity (hi : Inv s) (now : Int) (addr : Option UDPAddr) :
    Inv (s.noteDirectActivity now addr) := by
  unfold PathState.noteDirectActivity
  split
  · exact hi
  · split
    · exact hi
    · split
      · exact hi
      · split
        · exact ⟨hi.best, hi.direct, hi.count⟩
        · exact hi

theorem Inv.noteProbeSent (hi : Inv s) (now : Int) (addr : Option UDPAddr)
    (token : DirectProbeToken) : Inv (s.noteProbeSent now addr token) := by
  cases addr with
  | none => exact hi
  | some addr => exact ⟨hi.best, hi.direct, hi.count⟩

theorem Inv.forgetProbe (hi : Inv s) (addr : Option UDPAddr) (token : DirectProbeToken) :
    Inv (s.forgetProbe addr token) := by
  unfold PathState.forgetProbe
  split
  · exact hi
  · split
    · exact hi
    · split
      · exact hi
      · exact ⟨hi.best, hi.direct, hi.count⟩

/-- What `consumeProbe` leaves alone, and when it succeeds. -/
theorem consumeProbe_spec (s : PathState) (addr : Option UDPAddr) (maxAge now : Int)
    (token : DirectProbeToken) :
    ∃ latency pending,
      (s.consumeProbe addr maxAge now token).1 =
          { s with endpointLatency := latency, pendingProbes := pending } ∧
        (∀ key p, pending.lookup key = some p → s.pendingProbes.lookup key = some p) ∧
        ((s.consumeProbe addr maxAge now token).2 = true →
          ∃ addr' sentAt, addr = some addr' ∧
            s.pendingProbes.lookup addr'.string = some ⟨sentAt, token⟩) := by
  unfold PathState.consumeProbe
  split
  · exact ⟨_, _, rfl, fun _ _ h => h, fun h => (by cases h)⟩
  · next addr =>
      have herase : ∀ key p, (s.pendingProbes.erase addr.string).lookup key = some p →
          s.pendingProbes.lookup key = some p := by
        intro key p h
        by_cases hk : key = addr.string
        · rw [hk, AList.lookup_erase] at h
          cases h
        · rwa [AList.lookup_erase_ne hk] at h
      split
      · exact ⟨_, _, rfl, fun _ _ h => h, fun h => (by cases h)⟩
      · next pending hl =>
          simp only
          split
          · exact ⟨_, _, rfl, herase, fun h => (by cases h)⟩
          · next ht =>
              split
              · exact ⟨_, _, rfl, herase, fun h => (by cases h)⟩
              · refine ⟨_, _, rfl, herase, fun _ => ⟨addr, pending.sentAt, rfl, ?_⟩⟩
                rw [hl, ← not_not.mp ht]

theorem noteCandidates_direct {candidates : List (Option UDPAddr)}
    (h : (s.noteCandidates candidates).1.current = .pathDirect) : s.current = .pathDirect := by
  unfold PathState.noteCandidates at h
  simp only at h
  split at h
  · exact absurd h (noteRelay_current_ne _)
  · exact h

/-- A probe survives new endpoints only where it was. -/
theorem noteCandidates_pending {candidates : List (Option UDPAddr)} {key : String}
    {p : PendingDirectProbe}
    (h : (s.noteCandidates candidates).1.pendingProbes.lookup key = some p) :
    s.pendingProbes.lookup key = some p := by
  unfold PathState.noteCandidates at h
  simp only at h
  split at h
  · simp only [PathState.noteRelay, AList.lookup_empty] at h
    cases h
  · exact Map.lookup_eraseAll h

theorem noteDirect_pending (s : PathState) (now : Int) (addr : Option UDPAddr) :
    (s.noteDirect now addr).1.pendingProbes = s.pendingProbes := by
  unfold PathState.noteDirect
  repeat' split
  all_goals rfl

theorem noteDirectActivity_fields (s : PathState) (now : Int) (addr : Option UDPAddr) :
    (s.noteDirectActivity now addr).pendingProbes = s.pendingProbes ∧
      (s.noteDirectActivity now addr).current = s.current := by
  unfold PathState.noteDirectActivity
  repeat' split
  all_goals exact ⟨rfl, rfl⟩

theorem noteProbeSent_current (s : PathState) (now : Int) (addr : Option UDPAddr)
    (token : DirectProbeToken) : (s.noteProbeSent now addr token).current = s.current := by
  cases addr <;> rfl

theorem noteProbeSent_pending {now : Int} {addr : Option UDPAddr} {token : DirectProbeToken}
    {key : String} {p : PendingDirectProbe}
    (h : (s.noteProbeSent now addr token).pendingProbes.lookup key = some p) :
    s.pendingProbes.lookup key = some p ∨
      ∃ addr', addr = some addr' ∧ addr'.string = key ∧ p = ⟨now, token⟩ := by
  cases addr with
  | none => exact .inl h
  | some addr =>
      simp only [PathState.noteProbeSent] at h
      by_cases hk : key = addr.string
      · rw [hk, AList.lookup_insert] at h
        exact .inr ⟨addr, rfl, hk.symm, (Option.some.inj h).symm⟩
      · rw [AList.lookup_insert_ne hk] at h
        exact .inl h

theorem forgetProbe_current (s : PathState) (addr : Option UDPAddr) (token : DirectProbeToken) :
    (s.forgetProbe addr token).current = s.current := by
  unfold PathState.forgetProbe
  repeat' split
  all_goals rfl

theorem forgetProbe_pending {addr : Option UDPAddr} {token : DirectProbeToken}
    {key : String} {p : PendingDirectProbe}
    (h : (s.forgetProbe addr token).pendingProbes.lookup key = some p) :
    s.pendingProbes.lookup key = some p := by
  unfold PathState.forgetProbe at h
  split at h
  · exact h
  · next addr =>
      split at h
      · exact h
      · split at h
        · exact h
        · by_cases hk : key = addr.string
          · rw [hk, AList.lookup_erase] at h
            cases h
          · rwa [AList.lookup_erase_ne hk] at h

end PathState

namespace Manager

variable {cfg : ManagerConfig} {m : Manager}

theorem noteRelayOnly_current_ne (m : Manager) : m.noteRelayOnly.state.current ≠ .pathDirect :=
  m.state.noteRelay_current_ne

theorem inv_handle (hi : m.state.Inv) (e : Event) : (m.handle cfg e).state.Inv := by
  cases e with
  | candidates addrs => exact hi.noteCandidates addrs
  | probeSent generation now addr token =>
      simp only [handle, ifCurrent]
      split
      · exact hi
      · exact hi.noteProbeSent now addr token
  | probeFailed generation addr token =>
      simp only [handle, ifCurrent]
      split
      · exact hi
      · exact hi.forgetProbe addr token
  | ack now addr token =>
      obtain ⟨latency, pending, heq, -, -⟩ :=
        m.state.consumeProbe_spec addr cfg.discoveryInterval now token
      have hc : (m.state.consumeProbe addr cfg.discoveryInterval now token).1.Inv := by
        rw [heq]
        exact ⟨hi.best, hi.direct, hi.count⟩
      simp only [handle, tryPromoteDirect]
      split
      · exact hc.noteDirect now addr
      · exact hc
  | activity now addr => exact hi.noteDirectActivity now addr
  | demote now =>
      simp only [handle, demoteStaleDirectLocked]
      split
      · exact hi
      · exact hi.noteRelay
  | relayOnly => exact hi.noteRelay

/-- The path becomes direct only with the acknowledgement of a probe that is pending. -/
theorem direct_of_handle {e : Event} (h : (m.handle cfg e).state.current = .pathDirect) :
    m.state.current = .pathDirect ∨
      ∃ now addr token sentAt, e = .ack now (some addr) token ∧
        m.state.pendingProbes.lookup addr.string = some ⟨sentAt, token⟩ := by
  cases e with
  | candidates addrs => exact .inl (PathState.noteCandidates_direct h)
  | probeSent generation now addr token =>
      simp only [handle, ifCurrent] at h
      split at h
      · exact .inl h
      · exact .inl ((m.state.noteProbeSent_current now addr token).symm.trans h)
  | probeFailed generation addr token =>
      simp only [handle, ifCurrent] at h
      split at h
      · exact .inl h
      · exact .inl ((m.state.forgetProbe_current addr token).symm.trans h)
  | ack now addr token =>
      obtain ⟨latency, pending, heq, -, hok⟩ :=
        m.state.consumeProbe_spec addr cfg.discoveryInterval now token
      simp only [handle, tryPromoteDirect] at h
      split at h
      · next hc =>
          obtain ⟨addr', sentAt, rfl, hl⟩ := hok hc
          exact .inr ⟨now, addr', token, sentAt, rfl, hl⟩
      · rw [heq] at h
        exact .inl h
  | activity now addr =>
      exact .inl ((m.state.noteDirectActivity_fields now addr).2.symm.trans h)
  | demote now =>
      simp only [handle, demoteStaleDirectLocked] at h
      split at h
      · exact .inl h
      · exact absurd h m.noteRelayOnly_current_ne
  | relayOnly => exact absurd h m.noteRelayOnly_current_ne

/-- A pending probe was pending before or has just been sent. -/
theorem pending_of_handle {e : Event} {key : String} {p : PendingDirectProbe}
    (h : (m.handle cfg e).state.pendingProbes.lookup key = some p) :
    m.state.pendingProbes.lookup key = some p ∨
      ∃ addr, e = .probeSent m.discoveryGen p.sentAt (some addr) p.token ∧ addr.string = key := by
  cases e with
  | candidates addrs => exact .inl (PathState.noteCandidates_pending h)
  | probeSent generation now addr token =>
      simp only [handle, ifCurrent] at h
      split at h
      · exact .inl h
      · next hg =>
          rcases PathState.noteProbeSent_pending h with h | ⟨addr', rfl, hk, rfl⟩
          · exact .inl h
          · right
            refine ⟨addr', ?_, hk⟩
            rw [not_not.mp hg]
  | probeFailed generation addr token =>
      simp only [handle, ifCurrent] at h
      split at h
      · exact .inl h
      · exact .inl (PathState.forgetProbe_pending h)
  | ack now addr token =>
      obtain ⟨latency, pending, heq, hsub, -⟩ :=
        m.state.consumeProbe_spec addr cfg.discoveryInterval now token
      simp only [handle, tryPromoteDirect] at h
      split at h
      · simp only [update, PathState.noteDirect_pending, heq] at h
        exact .inl (hsub key p h)
      · rw [heq] at h
        exact .inl (hsub key p h)
  | activity now addr =>
      left
      simpa only [handle, (m.state.noteDirectActivity_fields now addr).1] using h
  | demote now =>
      simp only [handle, demoteStaleDirectLocked] at h
      split at h
      · exact .inl h
      · simp [noteRelayOnly, update, PathState.noteRelay] at h
  | relayOnly => simp [handle, noteRelayOnly, update, PathState.noteRelay] at h

/-! ## Histories -/

theorem run_append (cfg : ManagerConfig) (events : List Event) (e : Event) :
    run cfg (events ++ [e]) = (run cfg events).handle cfg e := by
  simp [run]

theorem run_inv (cfg : ManagerConfig) (events : List Event) : (run cfg events).state.Inv := by
  induction events using List.reverseRecOn with
  | nil => exact PathState.Inv.new _ _
  | append_singleton events e ih =>
      rw [run_append]
      exact inv_handle ih e

/-- A probe with this token was sent to the address in the history, by a discovery tick that was
current, and its entry has not been cleared or replaced since. -/
def Outstanding (cfg : ManagerConfig) (events : List Event) (key : String)
    (p : PendingDirectProbe) : Prop :=
  ∃ before since addr,
    events = before ++ .probeSent (run cfg before).discoveryGen p.sentAt (some addr) p.token :: since ∧
      addr.string = key ∧
      ∀ kept, kept <+: since →
        (run cfg (before ++ .probeSent (run cfg before).discoveryGen p.sentAt (some addr) p.token ::
          kept)).state.pendingProbes.lookup key = some p

theorem outstanding_of_pending (cfg : ManagerConfig) (events : List Event) {key : String}
    {p : PendingDirectProbe}
    (h : (run cfg events).state.pendingProbes.lookup key = some p) :
    Outstanding cfg events key p := by
  induction events using List.reverseRecOn with
  | nil => cases h
  | append_singleton events e ih =>
      rw [run_append] at h
      rcases pending_of_handle h with hp | ⟨addr, rfl, hk⟩
      · obtain ⟨before, since, addr, heq, hk, hkept⟩ := ih hp
        refine ⟨before, since ++ [e], addr, by rw [heq]; simp, hk, ?_⟩
        intro kept hpre
        rcases List.prefix_concat_iff.mp hpre with rfl | hpre
        · rw [← List.cons_append, ← List.append_assoc, ← heq, run_append]
          exact h
        · exact hkept kept hpre
      · refine ⟨events, [], addr, rfl, hk, ?_⟩
        intro kept hpre
        rw [List.prefix_nil.mp hpre, run_append]
        exact h

/-- After every history the path, the best endpoint and the counters agree, and the path becomes
direct only with the acknowledgement of the outstanding probe of its address. -/
theorem path_state (cfg : ManagerConfig) (events : List Event) :
    let s := (run cfg events).state
    (s.current = .pathDirect →
        s.directConfigured = true ∧ (s.endpoints.lookup s.bestEndpoint).isSome = true) ∧
      (s.bestEndpoint = "" ∨ (s.endpoints.lookup s.bestEndpoint).isSome = true) ∧
      ((s.upgrades : Int) - s.fallbacks = if s.current = .pathDirect then 1 else 0) ∧
      ∀ e, s.current ≠ .pathDirect → (run cfg (events ++ [e])).state.current = .pathDirect →
        ∃ now addr token sentAt, e = .ack now (some addr) token ∧
          s.pendingProbes.lookup addr.string = some ⟨sentAt, token⟩ ∧
          Outstanding cfg events addr.string ⟨sentAt, token⟩ := by
  intro s
  have hi : s.Inv := run_inv cfg events
  refine ⟨?_, hi.best, ?_, ?_⟩
  · intro hd
    obtain ⟨hconf, hne⟩ := hi.direct hd
    exact ⟨hconf, hi.best.resolve_left hne⟩
  · have hc := hi.count
    split at hc
    · next hd =>
        rw [if_pos hd]
        omega
    · next hd =>
        rw [if_neg hd]
        omega
  · intro e hs hd
    rw [run_append] at hd
    rcases direct_of_handle hd with h | ⟨now, addr, token, sentAt, he, hl⟩
    · exact absurd h hs
    · exact ⟨now, addr, token, sentAt, he, hl, outstanding_of_pending cfg events hl⟩

/-- A probe to a candidate is acknowledged. -/
theorem path_state_promoted :
    ∃ cfg events e, (run cfg events).state.current = .pathRelay ∧
      (run cfg (events ++ [e])).state.current = .pathDirect ∧
      ∃ now addr token sentAt, e = .ack now (some addr) token ∧
        Outstanding cfg events addr.string ⟨sentAt, token⟩ := by
  let cfg : ManagerConfig := ⟨true, true, 2000000000, 30000000000⟩
  let addr : UDPAddr := ⟨[192, 0, 2, 7], 41641, ""⟩
  let events : List Event := [.candidates [some addr], .probeSent 0 10 (some addr) ⟨true, [1, 2]⟩]
  let e : Event := .ack 20 (some addr) ⟨true, [1, 2]⟩
  have hrelay : (run cfg events).state.current = .pathRelay := by decide +kernel
  have hdirect : (run cfg (events ++ [e])).state.current = .pathDirect := by decide +kernel
  obtain ⟨now, addr', token, sentAt, he, -, hout⟩ :=
    (path_state cfg events).2.2.2 e (by rw [hrelay]; exact Path.noConfusion) hdirect
  exact ⟨cfg, events, e, hrelay, hdirect, now, addr', token, sentAt, he, hout⟩

end Manager

end Transport
