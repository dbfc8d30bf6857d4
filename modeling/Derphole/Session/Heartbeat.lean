import Derphole.Lib.Run
import Derphole.Session.ControlAuth

/-!
# Heartbeats

`withPeerControlContext` of `pkg/session/external.go` with the tags on heartbeats of
`pkg/session/external_control_security.go`: each of the two endpoints of a session counts up and sends
heartbeats, and takes those that come in.

Packets go over a relay, which says from whom they are, and which may lose, repeat and reorder them or give
them to any of the two.  All that is asked of the keyed hash is that nobody but the endpoints makes a tag
that verifies (`Unforgeable`).  Both endpoints have the same key, and the hash covers the sequence and the
count of bytes but not who sends them, so a heartbeat verifies at the endpoint that made it, too
(`heartbeat_reflected`).  Where none is given back (`NotReflected`), heartbeats are those of the peer
(`heartbeat_authentic_iff`).

An endpoint that has stopped listening may make heartbeats still.  The timer, and how a payload is decoded,
are not part of the model.
-/

namespace Session

open Lib

/-- The two endpoints of a session. -/
inductive Endpoint where
  | listener
  | dialer
  deriving DecidableEq

def Endpoint.peer : Endpoint → Endpoint
  | .listener => .dialer
  | .dialer => .listener

structure PeerHeartbeat where
  bytesTransferred : Option Int64
  sequence : UInt64
  mac : List UInt8
  deriving DecidableEq

inductive EnvelopeType where
  | heartbeat
  | other
  deriving DecidableEq

structure Envelope where
  type : EnvelopeType
  heartbeat : Option PeerHeartbeat
  deriving DecidableEq

/-- A packet with the sender that the relay names, and the envelope that its payload decodes to. -/
structure HeartbeatPacket where
  source : Vector UInt8 32
  envelope : Option Envelope
  deriving DecidableEq

/-- The value behind the pointer, or zero. -/
def PeerHeartbeat.transferred (hb : PeerHeartbeat) : Int64 := hb.bytesTransferred.getD 0

section

variable (hmac : List UInt8 → List UInt8 → List UInt8)

def externalPeerHeartbeatMAC (auth : ExternalPeerControlAuth) (sequence : UInt64)
    (bytesTransferred : Int64) : List UInt8 :=
  Base64.encodeToString (hmac auth.heartbeatKey.toList
    (ascii "heartbeat" ++ (Codec.uint64.write sequence ++ Codec.uint64.write bytesTransferred.toUInt64)))

def newAuthenticatedPeerHeartbeat (bytesTransferred : Int64) (sequence : UInt64)
    (auth : ExternalPeerControlAuth) : PeerHeartbeat :=
  if !auth.heartbeatEnabled then ⟨some bytesTransferred, 0, []⟩
  else ⟨some bytesTransferred, sequence, externalPeerHeartbeatMAC hmac auth sequence bytesTransferred⟩

/-- Whether the heartbeat is good, and the last sequence after it. -/
def verifyPeerHeartbeat (hb : Option PeerHeartbeat) (auth : ExternalPeerControlAuth)
    (lastSequence : Option UInt64) : Bool × Option UInt64 :=
  match hb with
  | none => (false, lastSequence)
  | some hb =>
      if !auth.heartbeatEnabled then (true, lastSequence)
      else if hb.mac = [] then (false, lastSequence)
      else if hb.mac ≠ externalPeerHeartbeatMAC hmac auth hb.sequence hb.transferred then
        (false, lastSequence)
      else
        match lastSequence with
        | none => (true, none)
        | some last => if hb.sequence ≤ last then (false, some last) else (true, some hb.sequence)

/-! ## Two endpoints -/

/-- The counters of the two goroutines of an endpoint, with the heartbeats it has made and accepted. -/
structure PeerControl where
  heartbeatSequence : UInt64
  lastHeartbeatSequence : UInt64
  listening : Bool
  made : List PeerHeartbeat
  accepted : List PeerHeartbeat

def PeerControl.init : PeerControl := ⟨0, 0, true, [], []⟩

/-- A round of the sending goroutine. -/
def PeerControl.send (auth : ExternalPeerControlAuth) (c : PeerControl) (bytesTransferred : Int64) :
    PeerControl :=
  let sequence := c.heartbeatSequence + 1
  { c with
    heartbeatSequence := sequence
    made := c.made ++ [newAuthenticatedPeerHeartbeat hmac bytesTransferred sequence auth] }

/-- A round of the listening goroutine with a packet.  Packets that are not from `peerDERP` are filtered out
by the subscription. -/
def PeerControl.receive (auth : ExternalPeerControlAuth) (peerDERP : Vector UInt8 32) (c : PeerControl)
    (pkt : HeartbeatPacket) : PeerControl :=
  if pkt.source ≠ peerDERP then c
  else
    match pkt.envelope with
    | none => c
    | some env =>
        if env.type ≠ .heartbeat then c
        else
          match verifyPeerHeartbeat hmac env.heartbeat auth (some c.lastHeartbeatSequence) with
          | (true, some last) =>
              { c with lastHeartbeatSequence := last, accepted := c.accepted ++ env.heartbeat.toList }
          | _ => c

inductive HeartbeatEvent where
  | send (e : Endpoint) (bytesTransferred : Int64)
  | deliver (e : Endpoint) (pkt : HeartbeatPacket)
  | stop (e : Endpoint)
  deriving DecidableEq

variable (tok : SessionToken.Token) (derp : Endpoint → Vector UInt8 32)

/-- One step of a session, chosen by the endpoints or by whoever controls the packets. -/
def heartbeatStep (s : Endpoint → PeerControl) : HeartbeatEvent → Option (Endpoint → PeerControl)
  | .send e bytesTransferred =>
      let auth := externalPeerControlAuthForToken hmac tok
      some (Function.update s e ((s e).send hmac auth bytesTransferred))
  | .deliver e pkt =>
      let auth := externalPeerControlAuthForToken hmac tok
      if (s e).listening then some (Function.update s e ((s e).receive hmac auth (derp e.peer) pkt))
      else none
  | .stop e => some (Function.update s e { s e with listening := false })

/-! ## What the relay may do -/

/-- The same heartbeat, with a count of bytes that may have been left out for zero. -/
def PeerHeartbeat.Same (hb made : PeerHeartbeat) : Prop :=
  hb.sequence = made.sequence ∧ hb.transferred = made.transferred ∧ hb.mac = made.mac

instance (hb made : PeerHeartbeat) : Decidable (hb.Same made) :=
  inferInstanceAs (Decidable (_ ∧ _ ∧ _))

/-- The heartbeat of a packet with a heartbeat envelope. -/
def HeartbeatPacket.heartbeat (pkt : HeartbeatPacket) : Option PeerHeartbeat :=
  match pkt.envelope with
  | some ⟨.heartbeat, hb⟩ => hb
  | _ => none

/-- A heartbeat comes with a tag that verifies only if it is one that an endpoint has made. -/
def Unforgeable (s : Endpoint → PeerControl) : HeartbeatEvent → Prop
  | .deliver _ pkt =>
      ∀ hb ∈ pkt.heartbeat,
        hb.mac = externalPeerHeartbeatMAC hmac (externalPeerControlAuthForToken hmac tok) hb.sequence
          hb.transferred →
        ∃ e ∈ [Endpoint.listener, .dialer], ∃ made ∈ (s e).made, hb.Same made
  | _ => True

/-- No endpoint is given back, as from its peer, a heartbeat of its own that is beyond those it has accepted,
unless the peer has made the same one. -/
def NotReflected (s : Endpoint → PeerControl) : HeartbeatEvent → Prop
  | .deliver e pkt =>
      pkt.source = derp e.peer →
        ∀ hb ∈ pkt.heartbeat, (s e).lastHeartbeatSequence < hb.sequence →
          (∃ made ∈ (s e).made, hb.Same made) → ∃ made ∈ (s e.peer).made, hb.Same made
  | _ => True

instance Unforgeable.decidable (s : Endpoint → PeerControl) : ∀ a, Decidable (Unforgeable hmac tok s a)
  | .deliver _ _ => inferInstanceAs (Decidable (∀ _ ∈ _, _ → ∃ _ ∈ _, ∃ _ ∈ _, _))
  | .send _ _ => isTrue trivial
  | .stop _ => isTrue trivial

instance NotReflected.decidable (s : Endpoint → PeerControl) : ∀ a, Decidable (NotReflected derp s a)
  | .deliver _ _ => inferInstanceAs (Decidable (_ → ∀ _ ∈ _, _ → (∃ _ ∈ _, _) → ∃ _ ∈ _, _))
  | .send _ _ => isTrue trivial
  | .stop _ => isTrue trivial

end

/-! ## One endpoint -/

section

variable {hmac : List UInt8 → List UInt8 → List UInt8} {auth : ExternalPeerControlAuth}

/-- With authentication on, a good heartbeat has a tag that verifies and is beyond the last one. -/
theorem verifyPeerHeartbeat_eq_true (henabled : auth.heartbeatEnabled = true) {hb : Option PeerHeartbeat}
    {last last' : UInt64} (h : verifyPeerHeartbeat hmac hb auth (some last) = (true, some last')) :
    ∃ got, hb = some got ∧ last < got.sequence ∧ last' = got.sequence ∧
      got.mac = externalPeerHeartbeatMAC hmac auth got.sequence got.transferred := by
  cases hb with
  | none => cases h
  | some got =>
      simp only [verifyPeerHeartbeat, henabled, Bool.not_true, Bool.false_eq_true, if_false] at h
      split at h
      · cases h
      split at h
      · cases h
      next hmac =>
        split at h
        · cases h
        next hnew =>
          cases h
          exact ⟨got, rfl, UInt64.not_le.mp hnew, rfl, not_not.mp hmac⟩

/-- What a packet does with authentication on. -/
theorem PeerControl.receive_cases (henabled : auth.heartbeatEnabled = true) (peerDERP : Vector UInt8 32)
    (c : PeerControl) (pkt : HeartbeatPacket) :
    c.receive hmac auth peerDERP pkt = c ∨
      ∃ hb ∈ pkt.heartbeat, pkt.source = peerDERP ∧ c.lastHeartbeatSequence < hb.sequence ∧
        hb.mac = externalPeerHeartbeatMAC hmac auth hb.sequence hb.transferred ∧
        c.receive hmac auth peerDERP pkt =
          { c with lastHeartbeatSequence := hb.sequence, accepted := c.accepted ++ [hb] } := by
  obtain ⟨source, envelope⟩ := pkt
  unfold PeerControl.receive
  split
  · exact .inl rfl
  next hsource =>
    cases envelope with
    | none => exact .inl rfl
    | some env =>
        obtain ⟨type, heartbeat⟩ := env
        dsimp only
        split
        · exact .inl rfl
        next htype =>
          rw [not_not] at htype
          subst htype
          split
          next last hgood =>
            obtain ⟨hb, rfl, hnew, rfl, hmac⟩ := verifyPeerHeartbeat_eq_true henabled hgood
            exact .inr ⟨hb, rfl, not_not.mp hsource, hnew, hmac, rfl⟩
          · exact .inl rfl

theorem externalPeerHeartbeatMAC_ne_nil (hsize : ∀ key input, (hmac key input).length = 32)
    (sequence : UInt64) (bytesTransferred : Int64) :
    externalPeerHeartbeatMAC hmac auth sequence bytesTransferred ≠ [] := by
  intro h
  have hdecoded := Base64.decodeString_encodeToString (hmac auth.heartbeatKey.toList
    (ascii "heartbeat" ++ (Codec.uint64.write sequence ++ Codec.uint64.write bytesTransferred.toUInt64)))
  rw [← externalPeerHeartbeatMAC, h] at hdecoded
  have hempty : some [] = some (hmac auth.heartbeatKey.toList _) := hdecoded
  have hlength := hsize auth.heartbeatKey.toList
    (ascii "heartbeat" ++ (Codec.uint64.write sequence ++ Codec.uint64.write bytesTransferred.toUInt64))
  rw [← Option.some.inj hempty] at hlength
  cases hlength

/-- A heartbeat with a tag that verifies is taken, whoever made it. -/
theorem PeerControl.receive_good (henabled : auth.heartbeatEnabled = true)
    (hsize : ∀ key input, (hmac key input).length = 32) (c : PeerControl) {pkt : HeartbeatPacket}
    {hb : PeerHeartbeat} (hmem : hb ∈ pkt.heartbeat) (hnew : c.lastHeartbeatSequence < hb.sequence)
    (hmac' : hb.mac = externalPeerHeartbeatMAC hmac auth hb.sequence hb.transferred) :
    hb ∈ (c.receive hmac auth pkt.source pkt).accepted := by
  obtain ⟨source, envelope⟩ := pkt
  unfold HeartbeatPacket.heartbeat at hmem
  split at hmem
  next got henv =>
    cases henv
    cases hmem
    have hne : hb.mac ≠ [] := hmac' ▸ externalPeerHeartbeatMAC_ne_nil hsize _ _
    have hgood : verifyPeerHeartbeat hmac (some hb) auth (some c.lastHeartbeatSequence) =
        (true, some hb.sequence) := by
      simp only [verifyPeerHeartbeat, henabled, Bool.not_true, Bool.false_eq_true, if_false]
      rw [if_neg hne, if_neg (not_not.mpr hmac'), if_neg (UInt64.not_le.mpr hnew)]
    simp only [PeerControl.receive, ne_eq, not_true_eq_false, if_false, hgood]
    exact List.mem_append_right _ List.mem_cons_self
  · cases hmem

/-- The accepted sequences go up, and the last one is kept. -/
structure PeerControl.Rising (c : PeerControl) : Prop where
  rising : c.accepted.Pairwise fun a b => a.sequence < b.sequence
  last : ∀ hb ∈ c.accepted, hb.sequence ≤ c.lastHeartbeatSequence

theorem PeerControl.Rising.receive {c : PeerControl} (h : c.Rising)
    (henabled : auth.heartbeatEnabled = true) (peerDERP : Vector UInt8 32) (pkt : HeartbeatPacket) :
    (c.receive hmac auth peerDERP pkt).Rising := by
  obtain heq | ⟨hb, -, -, hnew, -, heq⟩ : c.receive hmac auth peerDERP pkt = c ∨ _ :=
    c.receive_cases henabled peerDERP pkt
  · rwa [heq]
  · rw [heq]
    constructor
    · refine List.pairwise_append.mpr ⟨h.rising, List.pairwise_singleton _ _, ?_⟩
      intro a ha b hb'
      rw [List.mem_singleton.mp hb']
      exact UInt64.lt_of_le_of_lt (h.last a ha) hnew
    · intro a ha
      obtain ha | ha := List.mem_append.mp ha
      · exact UInt64.le_trans (h.last a ha) (UInt64.le_of_lt hnew)
      · rw [List.mem_singleton.mp ha]
        exact UInt64.le_refl _

end

/-! ## Runs -/

section

variable {hmac : List UInt8 → List UInt8 → List UInt8} {tok : SessionToken.Token}
  {derp : Endpoint → Vector UInt8 32} {s t : Endpoint → PeerControl} {a : HeartbeatEvent}

/-- What a step does to an endpoint: nothing that counts, or it makes a heartbeat, or it takes a packet. -/
theorem heartbeatStep_cases (h : heartbeatStep hmac tok derp s a = some t) (e : Endpoint) :
    ((t e).made = (s e).made ∧ (t e).accepted = (s e).accepted ∧
        (t e).lastHeartbeatSequence = (s e).lastHeartbeatSequence) ∨
      (∃ bytes sequence, (t e).made = (s e).made ++ [newAuthenticatedPeerHeartbeat hmac bytes sequence
            (externalPeerControlAuthForToken hmac tok)] ∧
          (t e).accepted = (s e).accepted ∧
          (t e).lastHeartbeatSequence = (s e).lastHeartbeatSequence) ∨
      ∃ pkt, a = .deliver e pkt ∧
        t e = (s e).receive hmac (externalPeerControlAuthForToken hmac tok) (derp e.peer) pkt := by
  have hother : ∀ {e' c}, t = Function.update s e' c → e ≠ e' → t e = s e := by
    rintro e' c rfl he
    exact Function.update_of_ne he c s
  cases a with
  | send e' bytesTransferred =>
      cases h
      by_cases he : e = e'
      · subst he
        rw [Function.update_self]
        exact .inr (.inl ⟨_, _, rfl, rfl, rfl⟩)
      · rw [hother rfl he]
        exact .inl ⟨rfl, rfl, rfl⟩
  | deliver e' pkt =>
      rw [heartbeatStep] at h
      split at h
      · cases h
        by_cases he : e = e'
        · subst he
          rw [Function.update_self]
          exact .inr (.inr ⟨pkt, rfl, rfl⟩)
        · rw [hother rfl he]
          exact .inl ⟨rfl, rfl, rfl⟩
      · cases h
  | stop e' =>
      cases h
      by_cases he : e = e'
      · subst he
        rw [Function.update_self]
        exact .inl ⟨rfl, rfl, rfl⟩
      · rw [hother rfl he]
        exact .inl ⟨rfl, rfl, rfl⟩

theorem PeerControl.Rising.of_eq {c c' : PeerControl} (h : c.Rising) (haccepted : c'.accepted = c.accepted)
    (hlast : c'.lastHeartbeatSequence = c.lastHeartbeatSequence) : c'.Rising := by
  refine ⟨?_, ?_⟩
  · rw [haccepted]
    exact h.rising
  · rw [haccepted, hlast]
    exact h.last

theorem rising_step (henabled : (externalPeerControlAuthForToken hmac tok).heartbeatEnabled = true)
    (hs : ∀ e, (s e).Rising) (h : heartbeatStep hmac tok derp s a = some t) : ∀ e, (t e).Rising := by
  intro e
  obtain ⟨-, haccepted, hlast⟩ | ⟨-, -, -, haccepted, hlast⟩ | ⟨pkt, -, ht⟩ := heartbeatStep_cases h e
  · exact (hs e).of_eq haccepted hlast
  · exact (hs e).of_eq haccepted hlast
  · rw [ht]
    exact (hs e).receive henabled (derp e.peer) pkt

/-- Everything that an endpoint has accepted, its peer has made. -/
def Genuine (s : Endpoint → PeerControl) : Prop :=
  ∀ e, ∀ hb ∈ (s e).accepted, ∃ made ∈ (s e.peer).made, hb.Same made

/-- What is accepted in a step without forgery and reflection was made by the peer before. -/
theorem accepted_step (henabled : (externalPeerControlAuthForToken hmac tok).heartbeatEnabled = true)
    (hunforgeable : Unforgeable hmac tok s a) (hdirect : NotReflected derp s a)
    (h : heartbeatStep hmac tok derp s a = some t) (e : Endpoint) :
    (s e).made ⊆ (t e).made ∧
      ∀ hb ∈ (t e).accepted, hb ∈ (s e).accepted ∨ ∃ made ∈ (s e.peer).made, hb.Same made := by
  obtain ⟨hmade, haccepted, -⟩ | ⟨bytes, sequence, hmade, haccepted, -⟩ | ⟨pkt, rfl, ht⟩ :=
    heartbeatStep_cases h e
  · rw [hmade, haccepted]
    exact ⟨fun _ => id, fun _ => .inl⟩
  · rw [hmade, haccepted]
    exact ⟨List.subset_append_left _ _, fun _ => .inl⟩
  · rw [ht]
    obtain heq | ⟨hb, hmem, hsource, hnew, hmac, heq⟩ :
        (s e).receive hmac (externalPeerControlAuthForToken hmac tok) (derp e.peer) pkt = s e ∨ _ :=
      (s e).receive_cases henabled (derp e.peer) pkt
    · rw [heq]
      exact ⟨fun _ => id, fun _ => .inl⟩
    · rw [heq]
      refine ⟨fun _ => id, ?_⟩
      intro got hgot
      obtain hold | hthis := List.mem_append.mp hgot
      · exact .inl hold
      · rw [List.mem_singleton.mp hthis]
        obtain ⟨e', -, made, hmade, hsame⟩ := hunforgeable hb hmem hmac
        -- it was made by this endpoint, which is the case excluded, or by the peer
        by_cases hown : e' = e
        · exact .inr (hdirect hsource hb hmem hnew ⟨made, hown ▸ hmade, hsame⟩)
        · have hpeer : e' = e.peer := by cases e <;> cases e' <;> simp_all [Endpoint.peer]
          exact .inr ⟨made, hpeer ▸ hmade, hsame⟩

theorem genuine_step (henabled : (externalPeerControlAuthForToken hmac tok).heartbeatEnabled = true)
    (hs : Genuine s) (hunforgeable : Unforgeable hmac tok s a) (hdirect : NotReflected derp s a)
    (h : heartbeatStep hmac tok derp s a = some t) : Genuine t := by
  have hstep := accepted_step henabled hunforgeable hdirect h
  intro e hb hmem
  obtain hold | ⟨made, hmade, hsame⟩ := (hstep e).2 hb hmem
  · obtain ⟨made, hmade, hsame⟩ := hs e hb hold
    exact ⟨made, (hstep e.peer).1 hmade, hsame⟩
  · exact ⟨made, (hstep e.peer).1 hmade, hsame⟩

theorem newAuthenticatedPeerHeartbeat_mac {auth : ExternalPeerControlAuth}
    (henabled : auth.heartbeatEnabled = true) (bytes : Int64) (sequence : UInt64) :
    let hb := newAuthenticatedPeerHeartbeat hmac bytes sequence auth
    hb.mac = externalPeerHeartbeatMAC hmac auth hb.sequence hb.transferred := by
  rw [newAuthenticatedPeerHeartbeat, henabled]
  rfl

/-- Every heartbeat made has a tag that verifies. -/
theorem made_step (henabled : (externalPeerControlAuthForToken hmac tok).heartbeatEnabled = true)
    (hs : ∀ e, ∀ hb ∈ (s e).made, hb.mac = externalPeerHeartbeatMAC hmac
      (externalPeerControlAuthForToken hmac tok) hb.sequence hb.transferred)
    (h : heartbeatStep hmac tok derp s a = some t) :
    ∀ e, ∀ hb ∈ (t e).made, hb.mac = externalPeerHeartbeatMAC hmac
      (externalPeerControlAuthForToken hmac tok) hb.sequence hb.transferred := by
  intro e
  obtain ⟨hmade, -, -⟩ | ⟨bytes, sequence, hmade, -, -⟩ | ⟨pkt, -, ht⟩ := heartbeatStep_cases h e
  · rw [hmade]
    exact hs e
  · rw [hmade, List.forall_mem_append, List.forall_mem_singleton]
    exact ⟨hs e, newAuthenticatedPeerHeartbeat_mac henabled bytes sequence⟩
  · rw [ht]
    obtain heq | ⟨hb, -, -, -, -, heq⟩ :
        (s e).receive hmac (externalPeerControlAuthForToken hmac tok) (derp e.peer) pkt = s e ∨ _ :=
      (s e).receive_cases henabled (derp e.peer) pkt
    · rw [heq]
      exact hs e
    · rw [heq]
      exact hs e

/-- A heartbeat that is given back to the endpoint that made it is accepted. -/
theorem notReflected_of_genuine
    (henabled : (externalPeerControlAuthForToken hmac tok).heartbeatEnabled = true)
    (hsize : ∀ key input, (hmac key input).length = 32)
    (hs : ∀ e, ∀ hb ∈ (s e).made, hb.mac = externalPeerHeartbeatMAC hmac
      (externalPeerControlAuthForToken hmac tok) hb.sequence hb.transferred)
    (h : heartbeatStep hmac tok derp s a = some t) (ht : Genuine t) : NotReflected derp s a := by
  cases a with
  | send e bytesTransferred => exact trivial
  | stop e => exact trivial
  | deliver e pkt =>
      rintro hsource hb hmem hnew ⟨made, hmade, hsequence, htransferred, hmac⟩
      rw [heartbeatStep] at h
      split at h
      · cases h
        have hne : e.peer ≠ e := by cases e <;> decide
        have hvalid := hs e made hmade
        rw [← hsequence, ← htransferred, ← hmac] at hvalid
        have haccepted := (s e).receive_good henabled hsize hmem hnew hvalid
        have hgenuine := ht e hb
        rw [Function.update_self, Function.update_of_ne hne, ← hsource] at hgenuine
        exact hgenuine haccepted
      · cases h

end

/-- The sequences that an endpoint accepts go up in every run.  In a run without forgery, everything that an
endpoint has accepted was made by its peer, at every time, just when no endpoint is given back a heartbeat of
its own. -/
theorem heartbeat_authentic_iff (hmac : List UInt8 → List UInt8 → List UInt8)
    (hsize : ∀ key input, (hmac key input).length = 32) (tok : SessionToken.Token)
    (derp : Endpoint → Vector UInt8 32)
    (henabled : (externalPeerControlAuthForToken hmac tok).heartbeatEnabled = true)
    (events : List HeartbeatEvent) (s : Endpoint → PeerControl)
    (hrun : runFrom (heartbeatStep hmac tok derp) (fun _ => .init) events = some s) :
    (∀ e, (s e).accepted.Pairwise fun a b => a.sequence < b.sequence) ∧
    (StepsMeet (heartbeatStep hmac tok derp) (Unforgeable hmac tok) (fun _ => .init) events →
      ((∀ k u, runFrom (heartbeatStep hmac tok derp) (fun _ => .init) (events.take k) = some u → Genuine u) ↔
        StepsMeet (heartbeatStep hmac tok derp) (NotReflected derp) (fun _ => .init) events)) := by
  constructor
  · have hinit : ∀ _ : Endpoint, PeerControl.init.Rising := fun _ =>
      ⟨.nil, by simp [PeerControl.init]⟩
    intro e
    exact (runFrom_invariant (fun _ _ _ hs h => rising_step henabled hs h) events hinit hrun e).rising
  · intro hunforgeable
    constructor
    · intro hgenuine
      refine StepsMeet.of_forall fun k a u ha hu => ?_
      obtain ⟨v, hv, hnext⟩ := runFrom_take_succ hrun ha hu
      have hmade := runFrom_invariant (fun _ _ _ hs h => made_step henabled hs h) (events.take k)
        (by simp [PeerControl.init]) hu
      exact notReflected_of_genuine henabled hsize hmade hv (hgenuine (k + 1) v hnext)
    · intro hdirect k u hu
      have hinit : Genuine fun _ => .init := by simp [Genuine, PeerControl.init]
      exact runFrom_invariant_of_meet (fun _ _ _ hs hok h => genuine_step henabled hs hok.1 hok.2 h)
        (events.take k) hinit ((hunforgeable.and hdirect).take k) hu

/-! ## A session -/

/-- The tags of the two heartbeats below. -/
def heartbeatHmac : List UInt8 → List UInt8 → List UInt8 :=
  sessionHmac
    [(ascii "heartbeat" ++ [0, 0, 0, 0, 0, 0, 0, 1, 0, 0, 0, 0, 0, 0, 0, 12],
      #v[245, 119, 157, 64, 98, 211, 177, 117, 162, 113, 234, 8, 76, 75, 201, 57, 145, 24, 26, 225, 13, 143, 242,
        1, 71, 219, 126, 136, 182, 76, 122, 46]),
      (ascii "heartbeat" ++ [0, 0, 0, 0, 0, 0, 0, 1, 0, 0, 0, 0, 0, 0, 0, 0],
      #v[159, 24, 117, 87, 169, 2, 252, 87, 175, 173, 170, 54, 17, 90, 217, 227, 123, 116, 237, 190, 177, 252,
        41, 35, 132, 9, 199, 160, 227, 18, 57, 43])]

def sessionDERP : Endpoint → Vector UInt8 32
  | .listener => Vector.replicate 32 2
  | .dialer => Vector.replicate 32 4

/-- The first heartbeat of the dialer, after twelve bytes. -/
def dialerHeartbeat : PeerHeartbeat :=
  ⟨some 12, 1, ascii "9XedQGLTsXWiceoITEvJOZEYGuENj_IBR9t-iLZMei4"⟩

/-- The first heartbeat of the listener. -/
def listenerHeartbeat : PeerHeartbeat :=
  ⟨some 0, 1, ascii "nxh1V6kC_Fevrao2EVrZ43t07b6x_CkjhAnHoOMSOSs"⟩

/-- A packet with a heartbeat, as from `e`. -/
def heartbeatPacket (e : Endpoint) (hb : PeerHeartbeat) : HeartbeatPacket :=
  ⟨sessionDERP e, some ⟨.heartbeat, some hb⟩⟩

/-- The endpoints exchange a heartbeat each, and one of the two packets is repeated. -/
theorem heartbeat_authentic_iff_exchange :
    ∃ s, runFrom (heartbeatStep heartbeatHmac sessionToken sessionDERP) (fun _ => .init)
        [.send .dialer 12, .deliver .listener (heartbeatPacket .dialer dialerHeartbeat), .send .listener 0,
          .deliver .dialer (heartbeatPacket .listener listenerHeartbeat),
          .deliver .listener (heartbeatPacket .dialer dialerHeartbeat)] = some s ∧
      (s .listener).accepted = [dialerHeartbeat] ∧ (s .dialer).accepted = [listenerHeartbeat] ∧
      Genuine s := by
  have haccepted : (runFrom (heartbeatStep heartbeatHmac sessionToken sessionDERP) (fun _ => .init)
      [.send .dialer 12, .deliver .listener (heartbeatPacket .dialer dialerHeartbeat), .send .listener 0,
        .deliver .dialer (heartbeatPacket .listener listenerHeartbeat),
        .deliver .listener (heartbeatPacket .dialer dialerHeartbeat)]).map
      (fun s => ((s .listener).accepted, (s .dialer).accepted)) =
        some ([dialerHeartbeat], [listenerHeartbeat]) := by
    decide +kernel
  obtain ⟨s, hs, hlists⟩ := Option.map_eq_some_iff.mp haccepted
  obtain ⟨hlistener, hdialer⟩ := Prod.mk.inj hlists
  have hgenuine := ((heartbeat_authentic_iff heartbeatHmac (length_sessionHmac _) sessionToken sessionDERP
    (by decide +kernel) _ s hs).2 (by decide +kernel)).mpr (by decide +kernel)
  exact ⟨s, hs, hlistener, hdialer, hgenuine 5 s hs⟩

/-- The dialer accepts its own heartbeat, and the listener has made none. -/
theorem heartbeat_reflected :
    ∃ s, runFrom (heartbeatStep heartbeatHmac sessionToken sessionDERP) (fun _ => .init)
        [.send .dialer 12, .deliver .dialer (heartbeatPacket .listener dialerHeartbeat)] = some s ∧
      StepsMeet (heartbeatStep heartbeatHmac sessionToken sessionDERP) (Unforgeable heartbeatHmac sessionToken)
        (fun _ => .init)
        [.send .dialer 12, .deliver .dialer (heartbeatPacket .listener dialerHeartbeat)] ∧
      (s .dialer).accepted = [dialerHeartbeat] ∧ (s .listener).made = [] ∧ ¬ Genuine s := by
  have hstate : (runFrom (heartbeatStep heartbeatHmac sessionToken sessionDERP) (fun _ => .init)
      [.send .dialer 12, .deliver .dialer (heartbeatPacket .listener dialerHeartbeat)]).map
      (fun s => ((s .dialer).accepted, (s .listener).made)) = some ([dialerHeartbeat], []) := by
    decide +kernel
  obtain ⟨s, hs, hlists⟩ := Option.map_eq_some_iff.mp hstate
  obtain ⟨haccepted, hmade⟩ := Prod.mk.inj hlists
  refine ⟨s, hs, by decide +kernel, haccepted, hmade, ?_⟩
  intro hgenuine
  obtain ⟨made, hmem, -⟩ := hgenuine .dialer dialerHeartbeat (haccepted ▸ List.mem_cons_self)
  rw [Endpoint.peer, hmade] at hmem
  cases hmem

end Session
