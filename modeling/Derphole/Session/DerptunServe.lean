import Derphole.Lib.Run
import Derphole.Rendezvous.Gate
import Derphole.Session.ControlAuth

/-!
# The tunnel server

`serveDerptunClaims`, `handleDerptunServeClaim` and `derptunClientGate` of `pkg/session/derptun.go`.
The loop serves one connector at a time.  A claim of another connector takes over when the active
tunnel does not answer a probe; the old tunnel is then cancelled, and the loop goes on after a short
time even when its goroutine has not ended.

Besides the loop there are, for every tunnel, its goroutine and a goroutine that sends the decision
again from time to time.  The latter lives under the context of the server and is cancelled by the
goroutine of the tunnel.
-/

namespace Session

open Lib Rendezvous Derptun

/-- The fields of an `envelope` that the server reads, with the text that its MAC covers. -/
structure ClaimEnvelope where
  /-- `env.Type == envelopeClaim`. -/
  isClaim : Bool
  mac : List UInt8
  claim : Option Claim
  signed : List UInt8

/-- A packet from the relay; the envelope is missing when `decodeEnvelope` fails. -/
structure ClaimPacket where
  source : Vector UInt8 32
  envelope : Option ClaimEnvelope

def sameDerptunConnector (a b : Claim) : Bool :=
  decide (a.derpPublic = b.derpPublic ∧ a.quicPublic = b.quicPublic)

structure DerptunClientGate where
  active : Option Claim

def DerptunClientGate.accept (codec : Codec) (g : DerptunClientGate) (now : Int)
    (tok : Rendezvous.Token) (claim : Claim) : DerptunClientGate × Decision × Option AcceptError :=
  match g.active with
  | some held =>
      if sameDerptunConnector held claim then (g, ((newGate tok).accept codec now claim).2)
      else (g, rejection .rejectClaimed "session already claimed", some .errClaimed)
  | none =>
      match (newGate tok).accept codec now claim with
      | (_, decision, some err) => (g, decision, some err)
      | (_, decision, none) => (⟨some claim⟩, decision, none)

def DerptunClientGate.release (g : DerptunClientGate) (derpPublic : Vector UInt8 32) :
    DerptunClientGate :=
  match g.active with
  | none => g
  | some held => if held.derpPublic ≠ derpPublic then g else ⟨none⟩

/-- `derptunServeActive` with its goroutine and its resender. -/
structure ServeTunnel where
  claim : Claim
  decision : Decision
  /-- `tunnelCtx` is cancelled. -/
  cancelled : Bool
  /-- The context of the resender is not cancelled. -/
  resends : Bool
  /-- The resender has found its context alive and is about to send. -/
  sending : Bool
  /-- The deferred function of the goroutine has begun. -/
  ending : Bool
  /-- `quicDone` is closed. -/
  transportDone : Bool
  /-- The error of the tunnel has been sent to `done`, and it is still there. -/
  reported : Bool
  done : Bool
  deriving DecidableEq

def ServeTunnel.new (claim : Claim) (decision : Decision) : ServeTunnel :=
  ⟨claim, decision, false, true, false, false, false, false, false⟩

/-- A decision that was sent, with the claims whose tunnels were not cancelled then. -/
structure SentDecision where
  peer : Claim
  decision : Decision
  live : List Claim
  deriving DecidableEq

/-- Where the loop is. -/
inductive ServePc where
  /-- In the `select` of `serveDerptunClaims`. -/
  | waiting
  /-- In `active.probe`, for this claim of another connector. -/
  | probing (claim : Claim) (tok : Rendezvous.Token)
  /-- In `active.stop` of `releaseDerptunActive`. -/
  | releasing (claim : Claim) (tok : Rendezvous.Token)
  /-- The claim is accepted and the decision not yet sent. -/
  | starting (claim : Claim) (decision : Decision)
  /-- On the way out, in `active.stop`. -/
  | draining
  | returned
  deriving DecidableEq

structure DerptunServer where
  gate : DerptunClientGate
  /-- The variable of `serveDerptunClaims`, as an index into `tunnels`. -/
  active : Option Nat
  tunnels : List ServeTunnel
  ctxDone : Bool
  pc : ServePc
  sent : List SentDecision

def DerptunServer.new : DerptunServer := ⟨⟨none⟩, none, [], false, .waiting, []⟩

/-- How the setup of a tunnel went. -/
inductive SetupResult where
  | transportFails
  | listenFails
  | sendFails
  | ok
  deriving DecidableEq

inductive ServeLabel where
  /-- A packet arrives; `sent` tells whether the answer, if there is one, could be sent. -/
  | claim (pkt : ClaimPacket) (now : Int) (sent : Bool)
  | probed (alive : Bool) (sent : Bool)
  /-- `active.stop` returns, at the end of the tunnel or at the timeout. -/
  | stopped (timeout : Bool) (now : Int) (sent : Bool)
  | setup (candidates : List (List UInt8)) (result : SetupResult)
  /-- The active tunnel has ended, with an error that ends the loop or not. -/
  | tunnelEnded (fails : Bool)
  | claimsClosed
  | shutdown
  | drained
  | cancelContext
  /-- The goroutine of a tunnel: `AcceptStream` returns, the connection closes, the deferred function
  begins, closes `quicDone`, and reports. -/
  | carrier (k : Nat)
  | quicClosed (k : Nat)
  | ended (k : Nat)
  | transportClosed (k : Nat)
  | report (k : Nat)
  /-- Its resender looks at its context, and sends. -/
  | tick (k : Nat)
  | resend (k : Nat) (sent : Bool)

/-- `CapabilityDerptunTCP`. -/
def capabilityDerptunTCP : UInt32 := 32

/-- The session token of a claim as a gate reads it. -/
def claimToken (tok : Derptun.SessionToken) : Rendezvous.Token where
  version := 4
  sessionID := tok.sessionID
  expiresUnix := tok.expiresUnix
  bearerSecret := tok.bearerSecret
  capabilities := capabilityDerptunTCP

def rejectCode : Derptun.RejectCode → Rendezvous.RejectCode
  | .rejectExpired => .rejectExpired
  | .rejectBadMAC => .rejectBadMAC
  | .rejectClaimMalformed => .rejectClaimMalformed

/-- What the server is given: its credential, `ForceRelay`, and the other packages. -/
structure ServeConfig where
  codec : Codec
  server : ServerCredential
  forceRelay : Bool

section

variable (cfg : ServeConfig)

/-- None where the claim has no client or the credential of the server is malformed. -/
def derptunClaimEnvelopeAuth (claim : Claim) : Option ExternalPeerControlAuth :=
  match claim.client, cfg.server.publicKeys with
  | some client, some (derpPublic, quicPublic) =>
      some (externalPeerControlAuthForToken cfg.codec.hmac
        { version := 4
          sessionID := cfg.server.sessionID
          expiresUnix := client.expiresUnix
          bootstrapRegion := 0
          derpPublic := derpPublic
          quicPublic := quicPublic
          bearerSecret := deriveClientBearerSecret cfg.codec.hmac cfg.server.signingSecret client.clientID
          capabilities := capabilityDerptunTCP
          bootstrapIP := Vector.replicate 16 0
          bootstrapPort := 0
          bootstrapFamily := 0 })
  | _, _ => none

def claimAuthenticated (env : ClaimEnvelope) (claim : Claim) : Bool :=
  (derptunClaimEnvelopeAuth cfg claim).any (verifyEnvelopeMAC cfg.codec.hmac env.mac env.signed)

namespace DerptunServer

variable (s : DerptunServer)

/-- The tunnel that `active` names. -/
def tunnelAt (active : Option Nat) : Option ServeTunnel := active.bind fun k => s.tunnels[k]?

def cancel (k : Nat) : DerptunServer :=
  { s with tunnels := s.tunnels.modify k fun t => { t with cancelled := true } }

def note (peer : Claim) (decision : Decision) : DerptunServer :=
  { s with sent := s.sent ++
      [⟨peer, decision, (s.tunnels.filter fun t => !t.cancelled).map (·.claim)⟩] }

/-- The loop returns; its deferred function stops what the variable `active` names. -/
def leave : DerptunServer :=
  match s.active with
  | none => { s with pc := .returned }
  | some k => { s.cancel k with pc := .draining }

/-- `handleDerptunServeClaim` sends a decision and returns `active`, or the error of the send. -/
def reply (active : Option Nat) (peer : Claim) (decision : Decision) (sent : Bool) : DerptunServer :=
  if sent ∧ ¬ s.ctxDone then { s.note peer decision with active := active, pc := .waiting }
  else s.leave

/-- The end of `handleDerptunServeClaim` from the second test of `decision.Accepted` on, with the
value that its own `active` has there. -/
def proceed (active : Option Nat) (claim : Claim) (decision : Decision) (sent : Bool) :
    DerptunServer :=
  if !decision.accepted then s.reply active claim decision sent
  else
    match s.tunnelAt active with
    | none => { s with pc := .starting claim decision }
    | some t =>
        if sameDerptunConnector t.claim claim then
          s.reply active claim
            (if t.decision.accept.isNone ∧ t.decision.reject.isNone then decision else t.decision) sent
        else { s with pc := .starting claim decision }

/-- The first call of `gate.Accept`, up to the probe of a stale tunnel. -/
def decideClaim (claim : Claim) (tok : Rendezvous.Token) (now : Int) (sent : Bool) : DerptunServer :=
  let result := s.gate.accept cfg.codec now tok claim
  let s := { s with gate := result.1 }
  let decision := result.2.1
  let stale := decide (!decision.accepted ∧ (decision.reject.map (·.code)) = some .rejectClaimed)
  match s.active, s.tunnelAt s.active with
  | some k, some t =>
      if stale ∧ !sameDerptunConnector t.claim claim then
        if t.transportDone then { s.cancel k with pc := .releasing claim tok }
        else { s with pc := .probing claim tok }
      else s.proceed s.active claim decision sent
  | _, _ => s.proceed s.active claim decision sent

def handleDerptunServeClaim (pkt : ClaimPacket) (now : Int) (sent : Bool) : DerptunServer :=
  match pkt.envelope with
  | none => s
  | some env =>
      match env.claim with
      | none => s
      | some claim =>
          if !env.isClaim then s
          else if pkt.source ≠ claim.derpPublic then s
          else if !claimAuthenticated cfg env claim then s
          else
            match derptunServerTokenForClaim cfg.codec.hmac cfg.server
                ⟨claim.sessionID, claim.client⟩ now with
            | .error none => s.leave
            | .error (some reject) =>
                s.reply s.active claim (rejection (rejectCode reject.code) reject.reason) sent
            | .ok tok => s.decideClaim cfg claim (claimToken tok) now sent

/-- The rest of `recoverStaleDerptunActive` after the probe. -/
def probed (claim : Claim) (tok : Rendezvous.Token) (alive sent : Bool) : DerptunServer :=
  if alive then
    s.proceed s.active claim (rejection .rejectClaimed "session already claimed") sent
  else if s.ctxDone then s.leave
  else
    match s.active with
    | none => s
    | some k => { s.cancel k with pc := .releasing claim tok }

/-- `gate.Release` after `active.stop`, and the second call of `gate.Accept`. -/
def recovered (t : ServeTunnel) (claim : Claim) (tok : Rendezvous.Token) (now : Int) (sent : Bool) :
    DerptunServer :=
  let result := (s.gate.release t.claim.derpPublic).accept cfg.codec now tok claim
  { s with gate := result.1 }.proceed none claim result.2.1 sent

/-- `decision.Accept.Candidates`. -/
def withCandidates (decision : Decision) (candidates : List (List UInt8)) : Decision :=
  if cfg.forceRelay then decision
  else { decision with accept := decision.accept.map fun info => { info with candidates := candidates } }

def setup (claim : Claim) (decision : Decision) (candidates : List (List UInt8))
    (result : SetupResult) : DerptunServer :=
  let decision := withCandidates cfg decision candidates
  if result = .ok ∧ ¬ s.ctxDone then
    { s.note claim decision with
      tunnels := s.tunnels ++ [.new claim decision]
      active := some s.tunnels.length
      pc := .waiting }
  else leave { s with gate := s.gate.release claim.derpPublic }

/-- Takes the report of tunnel `k` out of `done`. -/
def takeDone (k : Nat) : DerptunServer :=
  { s with tunnels := s.tunnels.modify k fun t => { t with done := false } }

/-- A step of one of the goroutines of tunnel `k`. -/
def onTunnel (k : Nat) (guard : ServeTunnel → Bool) (f : ServeTunnel → ServeTunnel) :
    Option DerptunServer :=
  match s.tunnels[k]? with
  | none => none
  | some t => if guard t then some { s with tunnels := s.tunnels.modify k f } else none

/-- The step of the loop for an event, or of a goroutine. -/
def step : ServeLabel → Option DerptunServer
  | .claim pkt now sent =>
      match s.pc with
      | .waiting => some (s.handleDerptunServeClaim cfg pkt now sent)
      | _ => none
  | .probed alive sent =>
      match s.pc with
      | .probing claim tok => some (s.probed claim tok alive sent)
      | _ => none
  | .stopped timeout now sent =>
      match s.pc, s.active, s.tunnelAt s.active with
      | .releasing claim tok, some k, some t =>
          if timeout then some (s.recovered cfg t claim tok now sent)
          else if t.done then some ((s.takeDone k).recovered cfg t claim tok now sent)
          else none
      | _, _, _ => none
  | .setup candidates result =>
      match s.pc with
      | .starting claim decision => some (s.setup cfg claim decision candidates result)
      | _ => none
  | .tunnelEnded fails =>
      match s.pc, s.active, s.tunnelAt s.active with
      | .waiting, some k, some t =>
          if t.done then
            some
              { s.takeDone k with
                gate := s.gate.release t.claim.derpPublic
                active := none
                pc := if s.ctxDone ∨ fails then .returned else .waiting }
          else none
      | _, _, _ => none
  | .claimsClosed => if s.pc = .waiting then some s.leave else none
  | .shutdown => if s.pc = .waiting ∧ s.ctxDone then some s.leave else none
  | .drained =>
      match s.pc, s.active, s.tunnelAt s.active with
      | .draining, some k, some t =>
          if t.done then
            some
              { s.takeDone k with
                gate := s.gate.release t.claim.derpPublic
                active := none
                pc := .returned }
          else none
      | _, _, _ => none
  | .cancelContext =>
      some
        { s with
          ctxDone := true
          tunnels := s.tunnels.map fun t => { t with cancelled := true, resends := false } }
  | .carrier k => s.onTunnel k (fun t => !t.ending) fun t => { t with resends := false }
  | .quicClosed k => s.onTunnel k (fun t => !t.ending) fun t => { t with cancelled := true }
  | .ended k =>
      s.onTunnel k (fun t => !t.ending) fun t =>
        { t with ending := true, resends := false, cancelled := true }
  | .transportClosed k =>
      s.onTunnel k (fun t => t.ending && !t.transportDone) fun t => { t with transportDone := true }
  | .report k =>
      s.onTunnel k (fun t => t.transportDone && !t.reported) fun t =>
        { t with reported := true, done := true }
  | .tick k => s.onTunnel k (fun t => t.resends && !t.sending) fun t => { t with sending := true }
  | .resend k sent =>
      match s.tunnels[k]? with
      | none => none
      | some t =>
          if sent then
            (s.note t.claim t.decision).onTunnel k (fun t => t.sending) fun t =>
              { t with sending := false }
          else s.onTunnel k (fun t => t.sending) fun t => { t with sending := false }

end DerptunServer

end

section

variable {codec : Codec} {g g' : DerptunClientGate} {now : Int} {tok : Rendezvous.Token}
  {claim : Claim} {decision : Decision} {err : Option AcceptError}

/-- What a call of `Accept` does to the gate, by its decision. -/
theorem DerptunClientGate.accept_cases (h : g.accept codec now tok claim = (g', decision, err)) :
    (decision.accepted = false ∧ g' = g) ∨
      (decision.accepted = true ∧ g.active = none ∧ g' = ⟨some claim⟩) ∨
      (decision.accepted = true ∧ g' = g ∧
        ∃ held, g.active = some held ∧ sameDerptunConnector held claim = true) := by
  simp only [DerptunClientGate.accept] at h
  split at h
  next held hheld =>
    split at h
    next hsame =>
      obtain ⟨rfl, hdec⟩ := Prod.mk.inj h
      cases hacc : decision.accepted with
      | false => exact Or.inl ⟨rfl, rfl⟩
      | true => exact Or.inr (Or.inr ⟨rfl, rfl, held, hheld, hsame⟩)
    next =>
      cases h
      exact Or.inl ⟨rfl, rfl⟩
  next hnone =>
    split at h
    next hacc =>
      cases h
      exact Or.inl ⟨Gate.accept_unclaimed rfl hacc, rfl⟩
    next hacc =>
      cases h
      exact Or.inr (Or.inl ⟨Gate.accept_unclaimed rfl hacc, hnone, rfl⟩)

/-- The key of the held claim is enough to release it. -/
theorem DerptunClientGate.release_held {held : Claim} (h : g.active = some held) :
    g.release held.derpPublic = ⟨none⟩ := by
  simp [DerptunClientGate.release, h]

end

/-! ## What holds in every state -/

/-- No tunnel of another connector was live when the decision was sent, if it is an acceptance. -/
def SentDecision.Alone (e : SentDecision) : Prop :=
  e.decision.accepted = true → ∀ c ∈ e.live, sameDerptunConnector c e.peer = true

namespace DerptunServer

/-- All tunnels are cancelled. -/
def Quiet (s : DerptunServer) : Prop := ∀ t ∈ s.tunnels, t.cancelled = true

/-- Only the tunnel of the loop may be live, and a tunnel that is ending is cancelled.  `careful`
stands for the condition on the resenders, under which the decisions were sent as they should. -/
structure Core (careful : Prop) (s : DerptunServer) : Prop where
  bound : ∀ k, s.active = some k → k < s.tunnels.length
  live : ∀ k t, s.tunnels[k]? = some t → t.cancelled = false → s.active = some k
  ended : ∀ t ∈ s.tunnels, t.ending = true ∨ t.transportDone = true ∨ t.done = true →
    t.cancelled = true
  alone : careful → ∀ e ∈ s.sent, e.Alone

/-- The gate holds the claim of the tunnel that `active` names. -/
def Holds (s : DerptunServer) (active : Option Nat) : Prop :=
  s.gate.active = (s.tunnelAt active).map (·.claim)

/-- What the position of the loop says about the gate. -/
def PcOk (s : DerptunServer) : Prop :=
  match s.pc with
  | .waiting => s.Holds s.active
  | .probing _ _ => s.Holds s.active
  | .releasing _ _ => s.Holds s.active ∧ ∀ t, s.tunnelAt s.active = some t → t.cancelled = true
  | .starting claim _ => s.gate.active = some claim ∧ s.Quiet
  | .draining => True
  | .returned => True

structure Inv (careful : Prop) (s : DerptunServer) : Prop where
  core : Core careful s
  pcOk : PcOk s

section

variable {careful : Prop} {s : DerptunServer} {cfg : ServeConfig}

theorem inv_new : Inv careful DerptunServer.new where
  core :=
    { bound := by
        intro k h
        cases h
      live := by
        intro k t h
        cases h
      ended := by
        intro t h
        cases h
      alone := by
        intro _ e h
        cases h }
  pcOk := rfl

theorem Core.quiet_of_none (hi : Core careful s) (h : s.active = none) : s.Quiet := by
  intro t ht
  obtain ⟨k, hk⟩ := List.mem_iff_getElem?.mp ht
  cases hc : t.cancelled with
  | true => rfl
  | false =>
      have hact := hi.live k t hk hc
      rw [h] at hact
      cases hact

/-- A tunnel that is live is the one of the loop. -/
theorem Core.live_tunnelAt (hi : Core careful s) {u : ServeTunnel} (hu : u ∈ s.tunnels)
    (hc : u.cancelled = false) : s.tunnelAt s.active = some u := by
  obtain ⟨k, hk⟩ := List.mem_iff_getElem?.mp hu
  simp [tunnelAt, hi.live k u hk hc, hk]

end

/-! ### Steps of the goroutines -/

/-- A tunnel may change in all but its claim, as long as it does not come back to life. -/
structure Fades (t t' : ServeTunnel) : Prop where
  claim : t'.claim = t.claim
  cancelled : t.cancelled = true → t'.cancelled = true
  ended : (t.ending = true ∨ t.transportDone = true ∨ t.done = true → t.cancelled = true) →
    t'.ending = true ∨ t'.transportDone = true ∨ t'.done = true → t'.cancelled = true

theorem Fades.refl (t : ServeTunnel) : Fades t t := ⟨rfl, id, id⟩

/-- The same for all tunnels. -/
structure Faded (ts ts' : List ServeTunnel) : Prop where
  length : ts'.length = ts.length
  fades : ∀ (k : Nat) t', ts'[k]? = some t' → ∃ t, ts[k]? = some t ∧ Fades t t'

section

variable {ts ts' : List ServeTunnel} {k : Nat} {t : ServeTunnel} {f : ServeTunnel → ServeTunnel}

theorem Faded.modify (ht : ts[k]? = some t) (hf : Fades t (f t)) : Faded ts (ts.modify k f) where
  length := List.length_modify ..
  fades := by
    intro i t' h
    rw [List.getElem?_modify] at h
    by_cases hki : k = i
    · subst hki
      simp only [ht, if_true] at h
      cases h
      exact ⟨t, ht, hf⟩
    · simp only [hki, if_false] at h
      exact ⟨t', by simpa using h, .refl t'⟩

theorem Faded.map (hf : ∀ t, Fades t (f t)) : Faded ts (ts.map f) where
  length := List.length_map ..
  fades := by
    intro i t' h
    rw [List.getElem?_map] at h
    obtain ⟨t, ht, rfl⟩ := Option.map_eq_some_iff.mp h
    exact ⟨t, ht, hf t⟩

theorem Faded.getElem? (h : Faded ts ts') (k : Nat) :
    (ts'[k]?).map (·.claim) = (ts[k]?).map (·.claim) := by
  cases hk : ts'[k]? with
  | some t' =>
      obtain ⟨t, ht, hf⟩ := h.fades k t' hk
      simp [ht, hf.claim]
  | none =>
      have hlen : ts.length ≤ k := by
        rw [← h.length]
        exact List.getElem?_eq_none_iff.mp hk
      simp [List.getElem?_eq_none hlen]

theorem Faded.mem (h : Faded ts ts') {t' : ServeTunnel} (ht : t' ∈ ts') : ∃ t ∈ ts, Fades t t' := by
  obtain ⟨k, hk⟩ := List.mem_iff_getElem?.mp ht
  obtain ⟨t, hkt, hf⟩ := h.fades k t' hk
  exact ⟨t, List.mem_of_getElem? hkt, hf⟩

end

section

variable {careful : Prop} {s : DerptunServer} {ts : List ServeTunnel}

theorem Quiet.fade (h : s.Quiet) (hf : Faded s.tunnels ts) : Quiet { s with tunnels := ts } := by
  intro t' ht'
  obtain ⟨t, ht, hft⟩ := hf.mem ht'
  exact hft.cancelled (h t ht)

theorem tunnelAt_fade (hf : Faded s.tunnels ts) (active : Option Nat) :
    (tunnelAt { s with tunnels := ts } active).map (·.claim) =
      (s.tunnelAt active).map (·.claim) := by
  cases active with
  | none => rfl
  | some k => exact hf.getElem? k

theorem Core.fade (hi : Core careful s) (hf : Faded s.tunnels ts) :
    Core careful { s with tunnels := ts } where
  bound := by
    intro k hk
    have hlt := hi.bound k hk
    rwa [← hf.length] at hlt
  live := by
    intro k t' hk hc
    obtain ⟨t, ht, hft⟩ := hf.fades k t' hk
    refine hi.live k t ht ?_
    cases hct : t.cancelled with
    | false => rfl
    | true =>
        rw [hft.cancelled hct] at hc
        cases hc
  ended := by
    intro t' ht'
    obtain ⟨t, ht, hft⟩ := hf.mem ht'
    exact hft.ended (hi.ended t ht)
  alone := hi.alone

theorem Inv.fade (hi : Inv careful s) (hf : Faded s.tunnels ts) :
    Inv careful { s with tunnels := ts } where
  core := hi.core.fade hf
  pcOk := by
    have hpc := hi.pcOk
    simp only [PcOk, Holds] at hpc ⊢
    cases hs : s.pc with
    | waiting =>
        simp only [hs] at hpc ⊢
        exact hpc.trans (tunnelAt_fade hf _).symm
    | probing claim tok =>
        simp only [hs] at hpc ⊢
        exact hpc.trans (tunnelAt_fade hf _).symm
    | releasing claim tok =>
        simp only [hs] at hpc ⊢
        refine ⟨hpc.1.trans (tunnelAt_fade hf _).symm, ?_⟩
        intro t' ht'
        obtain ⟨k, hk, hkt⟩ := Option.bind_eq_some_iff.mp ht'
        obtain ⟨t, ht, hft⟩ := hf.fades k t' hkt
        exact hft.cancelled (hpc.2 t (by simp [tunnelAt, hk, ht]))
    | starting claim decision =>
        simp only [hs] at hpc ⊢
        exact ⟨hpc.1, Quiet.fade hpc.2 hf⟩
    | draining => trivial
    | returned => trivial

theorem Inv.onTunnel {s' : DerptunServer} {k : Nat} {guard : ServeTunnel → Bool}
    {f : ServeTunnel → ServeTunnel} (hi : Inv careful s) (h : s.onTunnel k guard f = some s')
    (hf : ∀ t, guard t = true → Fades t (f t)) : Inv careful s' := by
  simp only [DerptunServer.onTunnel] at h
  split at h
  · cases h
  next t ht =>
    split at h
    next hguard =>
      cases h
      exact hi.fade (.modify ht (hf t hguard))
    next => cases h

/-! ### Steps of the loop -/

variable {cfg : ServeConfig} {peer : Claim} {decision : Decision}

/-- Sending a decision when every live tunnel is one of that connector. -/
theorem Core.note (hi : Core careful s)
    (hlive : careful → decision.accepted = true → ∀ t ∈ s.tunnels, t.cancelled = false →
      sameDerptunConnector t.claim peer = true) : Core careful (s.note peer decision) where
  bound := hi.bound
  live := hi.live
  ended := hi.ended
  alone := by
    intro hcareful e he
    rcases List.mem_append.mp he with hold | hnew
    · exact hi.alone hcareful e hold
    · obtain rfl := List.mem_singleton.mp hnew
      intro hacc c hc
      obtain ⟨t, ht, rfl⟩ := List.mem_map.mp hc
      obtain ⟨htmem, htlive⟩ := List.mem_filter.mp ht
      exact hlive hcareful hacc t htmem (by simpa using htlive)

theorem fades_cancel (t : ServeTunnel) : Fades t { t with cancelled := true } :=
  ⟨rfl, fun _ => rfl, fun _ _ => rfl⟩

theorem Core.cancel (hi : Core careful s) {k : Nat} (hk : k < s.tunnels.length) :
    Core careful (s.cancel k) :=
  hi.fade (.modify (List.getElem?_eq_getElem hk) (fades_cancel _))

theorem Core.leave (hi : Core careful s) : Inv careful s.leave := by
  simp only [DerptunServer.leave]
  split
  next => exact ⟨⟨hi.bound, hi.live, hi.ended, hi.alone⟩, trivial⟩
  next k hk =>
    have hc := hi.cancel (hi.bound k hk)
    exact ⟨⟨hc.bound, hc.live, hc.ended, hc.alone⟩, trivial⟩

/-- `active` is what the loop has, or nothing when all tunnels are cancelled. -/
def Local (s : DerptunServer) (active : Option Nat) : Prop :=
  active = s.active ∨ active = none ∧ s.Quiet

theorem Core.local_none (hi : Core careful s) (h : Local s none) : s.Quiet := by
  rcases h with h | h
  · exact hi.quiet_of_none h.symm
  · exact h.2

theorem Core.reply {active : Option Nat} {sent : Bool} (hi : Core careful s)
    (hloc : Local s active) (hholds : s.Holds active)
    (hlive : decision.accepted = true → ∀ t ∈ s.tunnels, t.cancelled = false →
      sameDerptunConnector t.claim peer = true) : Inv careful (s.reply active peer decision sent) := by
  simp only [DerptunServer.reply]
  split
  next =>
    have hn := hi.note fun _ => hlive
    refine ⟨⟨?_, ?_, hn.ended, hn.alone⟩, hholds⟩
    · intro k hk
      rcases hloc with rfl | ⟨rfl, -⟩
      · exact hi.bound k hk
      · cases hk
    · intro k t hk hc
      rcases hloc with rfl | ⟨rfl, hquiet⟩
      · exact hi.live k t hk hc
      · rw [hquiet t (List.mem_of_getElem? hk)] at hc
        cases hc
  next => exact hi.leave

/-- What a call of `Accept` for `claim` may leave, when the tunnel of the loop is at `active`. -/
inductive Decided (s : DerptunServer) (active : Option Nat) (claim : Claim) (decision : Decision) :
    Prop where
  | refused (hacc : decision.accepted = false) (hholds : s.Holds active)
  | fresh (hacc : decision.accepted = true) (hnone : active = none)
      (hgate : s.gate.active = some claim)
  | again (hacc : decision.accepted = true) (t : ServeTunnel) (hholds : s.Holds active)
      (ht : s.tunnelAt active = some t) (hsame : sameDerptunConnector t.claim claim = true)

theorem Core.proceed {active : Option Nat} {claim : Claim} {sent : Bool} (hi : Core careful s)
    (hloc : Local s active) (hd : Decided s active claim decision) :
    Inv careful (s.proceed active claim decision sent) := by
  simp only [DerptunServer.proceed]
  cases hd with
  | refused hacc hholds =>
      rw [if_pos (by simp [hacc])]
      exact hi.reply hloc hholds fun h => by rw [hacc] at h; cases h
  | fresh hacc hnone hgate =>
      subst hnone
      rw [if_neg (by simp [hacc])]
      exact ⟨⟨hi.bound, hi.live, hi.ended, hi.alone⟩, hgate, hi.local_none hloc⟩
  | again hacc t hholds ht hsame =>
      rw [if_neg (by simp [hacc])]
      simp only [ht, hsame, if_true]
      -- the only tunnel that may be live is the one of this connector
      have honly : ∀ u ∈ s.tunnels, u.cancelled = false →
          sameDerptunConnector u.claim claim = true := by
        intro u hu hc
        rcases hloc with rfl | ⟨rfl, -⟩
        · have hut := hi.live_tunnelAt hu hc
          rw [ht] at hut
          cases hut
          exact hsame
        · cases ht
      exact hi.reply hloc hholds fun _ => honly

/-- The gate after `Accept`, from a gate that held the claim of the tunnel at `active`. -/
theorem decided_accept {active : Option Nat} {claim : Claim} {tok : Rendezvous.Token} {now : Int}
    {g : DerptunClientGate} (hholds : g.active = (s.tunnelAt active).map (·.claim))
    (hnone : s.tunnelAt active = none → active = none) :
    Decided { s with gate := (g.accept cfg.codec now tok claim).1 } active claim
      (g.accept cfg.codec now tok claim).2.1 := by
  generalize haccept : g.accept cfg.codec now tok claim = result
  obtain ⟨g', decision, err⟩ := result
  rcases DerptunClientGate.accept_cases haccept with
    ⟨hacc, rfl⟩ | ⟨hacc, hg, rfl⟩ | ⟨hacc, rfl, held, hheld, hsame⟩
  · exact .refused hacc hholds
  · rw [hg] at hholds
    exact .fresh hacc (hnone (Option.map_eq_none_iff.mp hholds.symm)) rfl
  · have hmap := hheld.symm.trans hholds
    obtain ⟨t, ht, rfl⟩ := Option.map_eq_some_iff.mp hmap.symm
    exact .again hacc t hholds ht hsame

theorem Core.tunnelAt_none (hi : Core careful s) (h : s.tunnelAt s.active = none) :
    s.active = none := by
  cases hact : s.active with
  | none => rfl
  | some k =>
      simp only [tunnelAt, hact, Option.bind_some, List.getElem?_eq_none_iff] at h
      exact absurd (hi.bound k hact) (Nat.not_lt.mpr h)

/-- Cancelling the tunnel of the loop, which then waits for its end. -/
theorem Inv.release {k : Nat} {claim : Claim} {tok : Rendezvous.Token} (hi : Core careful s)
    (hk : s.active = some k) (hholds : s.Holds s.active) :
    Inv careful { s.cancel k with pc := .releasing claim tok } := by
  have hlt := hi.bound k hk
  have hfaded : Faded s.tunnels (s.cancel k).tunnels :=
    .modify (List.getElem?_eq_getElem hlt) (fades_cancel _)
  have hc := hi.cancel hlt
  refine ⟨⟨hc.bound, hc.live, hc.ended, hc.alone⟩, ?_, ?_⟩
  · exact hholds.trans (tunnelAt_fade hfaded _).symm
  · intro t ht
    simp only [DerptunServer.cancel, tunnelAt, hk, Option.bind_some, List.getElem?_modify,
      if_true] at ht
    obtain ⟨u, -, rfl⟩ := Option.map_eq_some_iff.mp ht
    rfl

theorem Core.withGate (hi : Core careful s) (g : DerptunClientGate) :
    Core careful { s with gate := g } := ⟨hi.bound, hi.live, hi.ended, hi.alone⟩

theorem Inv.decideClaim {claim : Claim} {tok : Rendezvous.Token} {now : Int} {sent : Bool}
    (hi : Core careful s) (hholds : s.Holds s.active) :
    Inv careful (s.decideClaim cfg claim tok now sent) := by
  simp only [DerptunServer.decideClaim]
  have hd : Decided { s with gate := (s.gate.accept cfg.codec now tok claim).1 } s.active claim
      (s.gate.accept cfg.codec now tok claim).2.1 := decided_accept hholds hi.tunnelAt_none
  generalize s.gate.accept cfg.codec now tok claim = result at hd ⊢
  have hg := hi.withGate result.1
  split
  next k t hk ht =>
    split
    next hstale =>
      have hrefused : result.2.1.accepted = false := by
        have := of_decide_eq_true hstale.1
        simpa using this.1
      have hheld : Holds { s with gate := result.1 } s.active := by
        cases hd with
        | refused _ hholds => exact hholds
        | fresh hacc _ _ =>
            rw [hrefused] at hacc
            cases hacc
        | again _ _ hholds _ _ => exact hholds
      split
      · exact .release hg hk hheld
      · exact ⟨⟨hg.bound, hg.live, hg.ended, hg.alone⟩, hheld⟩
    next => exact hg.proceed (.inl rfl) hd
  next => exact hg.proceed (.inl rfl) hd

theorem Inv.handleDerptunServeClaim {pkt : ClaimPacket} {now : Int} {sent : Bool}
    (hi : Inv careful s) (hpc : s.pc = .waiting) :
    Inv careful (s.handleDerptunServeClaim cfg pkt now sent) := by
  have hholds : s.Holds s.active := by
    have := hi.pcOk
    rwa [PcOk, hpc] at this
  simp only [DerptunServer.handleDerptunServeClaim]
  split
  · exact hi
  split
  · exact hi
  split
  · exact hi
  split
  · exact hi
  split
  · exact hi
  split
  · exact hi.core.leave
  · exact hi.core.reply (.inl rfl) hholds fun h => by cases h
  · exact .decideClaim hi.core hholds

theorem Inv.probed {claim : Claim} {tok : Rendezvous.Token} {alive sent : Bool}
    (hi : Inv careful s) (hpc : s.pc = .probing claim tok) :
    Inv careful (s.probed claim tok alive sent) := by
  have hholds : s.Holds s.active := by
    have := hi.pcOk
    rwa [PcOk, hpc] at this
  simp only [DerptunServer.probed]
  split
  · exact hi.core.proceed (.inl rfl) (.refused rfl hholds)
  split
  · exact hi.core.leave
  split
  · exact hi
  next k hk => exact .release hi.core hk hholds

theorem Inv.recovered {claim : Claim} {tok : Rendezvous.Token} {now : Int} {sent : Bool}
    {t : ServeTunnel} (hi : Inv careful s) (hpc : s.pc = .releasing claim tok)
    (ht : (s.tunnelAt s.active).map (·.claim) = some t.claim) :
    Inv careful (s.recovered cfg t claim tok now sent) := by
  obtain ⟨hholds, hcancelled⟩ : s.Holds s.active ∧
      ∀ t, s.tunnelAt s.active = some t → t.cancelled = true := by
    have := hi.pcOk
    rwa [PcOk, hpc] at this
  have hquiet : s.Quiet := by
    intro u hu
    cases hc : u.cancelled with
    | true => rfl
    | false => exact (hcancelled u (hi.core.live_tunnelAt hu hc)).symm.trans hc |>.symm
  have hheld : s.gate.active = some t.claim := hholds.trans ht
  simp only [DerptunServer.recovered, DerptunClientGate.release_held hheld]
  exact (hi.core.withGate _).proceed (.inr ⟨rfl, hquiet⟩) (decided_accept rfl fun _ => rfl)

theorem Core.started {claim : Claim} (hi : Core careful s) (hquiet : s.Quiet) :
    Core careful
      { s with
        tunnels := s.tunnels ++ [.new claim decision]
        active := some s.tunnels.length
        pc := .waiting } where
  bound := by
    intro k hk
    cases hk
    simp
  live := by
    intro k t hk hc
    rcases Nat.lt_trichotomy k s.tunnels.length with hlt | rfl | hgt
    · rw [List.getElem?_append_left hlt] at hk
      rw [hquiet t (List.mem_of_getElem? hk)] at hc
      cases hc
    · rfl
    · rw [List.getElem?_eq_none (by simpa using Nat.succ_le_of_lt hgt)] at hk
      cases hk
  ended := by
    intro t ht
    rcases List.mem_append.mp ht with hold | hnew
    · exact hi.ended t hold
    · obtain rfl := List.mem_singleton.mp hnew
      simp [ServeTunnel.new]
  alone := hi.alone

theorem Inv.setup {claim : Claim} {candidates : List (List UInt8)} {result : SetupResult}
    (hi : Inv careful s) (hpc : s.pc = .starting claim decision) :
    Inv careful (s.setup cfg claim decision candidates result) := by
  obtain ⟨hgate, hquiet⟩ : s.gate.active = some claim ∧ s.Quiet := by
    have := hi.pcOk
    rwa [PcOk, hpc] at this
  simp only [DerptunServer.setup]
  split
  next =>
    have hn : Core careful (s.note claim (withCandidates cfg decision candidates)) :=
      hi.core.note fun _ _ t ht hc => by
        rw [hquiet t ht] at hc
        cases hc
    refine ⟨hn.started hquiet, ?_⟩
    simp [PcOk, Holds, tunnelAt, ServeTunnel.new, DerptunServer.note, hgate]
  next => exact (hi.core.withGate _).leave

theorem faded_takeDone {k : Nat} {t : ServeTunnel} (ht : s.tunnels[k]? = some t) :
    Faded s.tunnels (s.takeDone k).tunnels := by
  refine .modify ht ⟨rfl, id, ?_⟩
  intro h hended
  apply h
  rcases hended with hending | htransport | hdone
  · exact .inl hending
  · exact .inr (.inl htransport)
  · cases hdone

/-- The loop takes the report of its tunnel, which is cancelled by then. -/
theorem Core.finished {k : Nat} {t : ServeTunnel} {pc : ServePc} (hi : Core careful s)
    (hk : s.active = some k) (ht : s.tunnels[k]? = some t) (hdone : t.done = true)
    (hpc : pc = .returned ∨ pc = .waiting ∧ s.Holds s.active) :
    Inv careful
      { s.takeDone k with gate := s.gate.release t.claim.derpPublic, active := none, pc := pc } := by
  have hcancelled := hi.ended t (List.mem_of_getElem? ht) (.inr (.inr hdone))
  have hf := hi.fade (faded_takeDone ht)
  refine ⟨⟨?_, ?_, hf.ended, hf.alone⟩, ?_⟩
  · intro k h
    cases h
  · intro i u hu hc
    obtain ⟨v, hv, hfade⟩ := (faded_takeDone ht).fades i u hu
    have hvlive : v.cancelled = false := by
      cases hvc : v.cancelled with
      | false => rfl
      | true =>
          rw [hfade.cancelled hvc] at hc
          cases hc
    have hik := hi.live i v hv hvlive
    rw [hk] at hik
    cases hik
    rw [ht] at hv
    cases hv
    rw [hcancelled] at hvlive
    cases hvlive
  · rcases hpc with rfl | ⟨rfl, hholds⟩
    · trivial
    · have hheld : s.gate.active = some t.claim := by
        rw [hholds, hk]
        simp [tunnelAt, ht]
      simp [PcOk, Holds, tunnelAt, DerptunClientGate.release_held hheld]

end

/-- Once a tunnel is cancelled, its resender sends its decision only while no tunnel is live. -/
def ResendsInTime (s : DerptunServer) : ServeLabel → Prop
  | .resend k true => ∀ t ∈ s.tunnels[k]?, t.cancelled = false ∨ s.Quiet
  | _ => True

section

variable {careful : Prop} {s s' : DerptunServer} {cfg : ServeConfig}

theorem Inv.cancelContext (hi : Inv careful s) :
    Inv careful
      { s with
        ctxDone := true
        tunnels := s.tunnels.map fun t => { t with cancelled := true, resends := false } } := by
  have hfaded : Faded s.tunnels
      (s.tunnels.map fun t => { t with cancelled := true, resends := false }) :=
    .map fun t => ⟨rfl, fun _ => rfl, fun _ _ => rfl⟩
  have hf := hi.fade hfaded
  exact ⟨⟨hf.core.bound, hf.core.live, hf.core.ended, hf.core.alone⟩, hf.pcOk⟩

theorem Inv.resend {k : Nat} {sent : Bool} (hi : Inv careful s)
    (hok : careful → ResendsInTime s (.resend k sent))
    (h : s.step cfg (.resend k sent) = some s') : Inv careful s' := by
  simp only [step] at h
  split at h
  · cases h
  next t ht =>
    have hfades : ∀ t : ServeTunnel, t.sending = true → Fades t { t with sending := false } :=
      fun t _ => ⟨rfl, id, id⟩
    cases sent with
    | false => exact hi.onTunnel h hfades
    | true =>
        refine Inv.onTunnel (s := s.note t.claim t.decision) ⟨hi.core.note ?_, hi.pcOk⟩ h hfades
        intro hcareful _ u hu hc
        rcases hok hcareful t ht with hlive | hquiet
        · -- both are the tunnel of the loop
          have hut := hi.core.live_tunnelAt hu hc
          rw [hi.core.live_tunnelAt (List.mem_of_getElem? ht) hlive] at hut
          cases hut
          simp [sameDerptunConnector]
        · rw [hquiet u hu] at hc
          cases hc

theorem Inv.step {l : ServeLabel} (hi : Inv careful s) (hok : careful → ResendsInTime s l)
    (h : s.step cfg l = some s') : Inv careful s' := by
  cases l with
  | claim pkt now sent =>
      simp only [DerptunServer.step] at h
      split at h
      next hpc =>
        cases h
        exact hi.handleDerptunServeClaim hpc
      next => cases h
  | probed alive sent =>
      simp only [DerptunServer.step] at h
      split at h
      next hpc =>
        cases h
        exact hi.probed hpc
      next => cases h
  | stopped timeout now sent =>
      simp only [DerptunServer.step] at h
      split at h
      next claim tok k t hpc hk ht =>
        have htk : s.tunnels[k]? = some t := by simpa [tunnelAt, hk] using ht
        split at h
        · cases h
          exact hi.recovered hpc (by rw [ht]; rfl)
        split at h
        · cases h
          have hf := faded_takeDone htk
          exact (hi.fade hf).recovered hpc ((tunnelAt_fade hf _).trans (by rw [ht]; rfl))
        · cases h
      next => cases h
  | setup candidates result =>
      simp only [DerptunServer.step] at h
      split at h
      next hpc =>
        cases h
        exact hi.setup hpc
      next => cases h
  | tunnelEnded fails =>
      simp only [DerptunServer.step] at h
      split at h
      next k t hpc hk ht =>
        have htk : s.tunnels[k]? = some t := by simpa [tunnelAt, hk] using ht
        have hholds : s.Holds s.active := by
          have := hi.pcOk
          rwa [PcOk, hpc] at this
        split at h
        next hdone =>
          cases h
          refine hi.core.finished hk htk hdone ?_
          split
          · exact .inl rfl
          · exact .inr ⟨rfl, hholds⟩
        next => cases h
      next => cases h
  | claimsClosed =>
      simp only [DerptunServer.step] at h
      split at h
      · cases h
        exact hi.core.leave
      · cases h
  | shutdown =>
      simp only [DerptunServer.step] at h
      split at h
      · cases h
        exact hi.core.leave
      · cases h
  | drained =>
      simp only [DerptunServer.step] at h
      split at h
      next k t hpc hk ht =>
        have htk : s.tunnels[k]? = some t := by simpa [tunnelAt, hk] using ht
        split at h
        next hdone =>
          cases h
          exact hi.core.finished hk htk hdone (.inl rfl)
        next => cases h
      next => cases h
  | cancelContext =>
      cases h
      exact hi.cancelContext
  | carrier k => exact hi.onTunnel h fun t _ => ⟨rfl, id, id⟩
  | quicClosed k => exact hi.onTunnel h fun t _ => fades_cancel t
  | ended k => exact hi.onTunnel h fun t _ => ⟨rfl, fun _ => rfl, fun _ _ => rfl⟩
  | transportClosed k =>
      refine hi.onTunnel h fun t hguard => ⟨rfl, id, fun hended _ => ?_⟩
      exact hended (.inl (Bool.and_eq_true_iff.mp hguard).1)
  | report k =>
      refine hi.onTunnel h fun t hguard => ⟨rfl, id, fun hended _ => ?_⟩
      exact hended (.inr (.inl (Bool.and_eq_true_iff.mp hguard).1))
  | tick k => exact hi.onTunnel h fun t _ => ⟨rfl, id, id⟩
  | resend k sent => exact hi.resend hok h

/-- In every run, whenever the loop waits for its next event, the gate holds no claim exactly when
there is no active tunnel, and otherwise it holds one of the same connector.  In every run in which no
resender sends for a cancelled tunnel while another one is live, an acceptance is sent to a connector
only when the tunnels of all others are cancelled. -/
theorem single_active_tunnel (cfg : ServeConfig) (labels : List ServeLabel) (s : DerptunServer)
    (hrun : runFrom (DerptunServer.step cfg) DerptunServer.new labels = some s) :
    (s.pc = .waiting → (s.gate.active = none ↔ s.active = none) ∧
      ∀ k, s.active = some k → ∃ t held, s.tunnels[k]? = some t ∧ s.gate.active = some held ∧
        sameDerptunConnector held t.claim = true) ∧
    (StepsMeet (DerptunServer.step cfg) ResendsInTime DerptunServer.new labels →
      ∀ e ∈ s.sent, e.decision.accepted = true → ∀ c ∈ e.live,
        sameDerptunConnector c e.peer = true) := by
  constructor
  · intro hpc
    have hi : Inv False s :=
      runFrom_invariant (fun _ _ _ hi h => hi.step False.elim h) labels inv_new hrun
    have hholds : s.Holds s.active := by
      have := hi.pcOk
      rwa [PcOk, hpc] at this
    refine ⟨⟨?_, ?_⟩, ?_⟩
    · intro hnone
      rw [Holds, hnone] at hholds
      exact hi.core.tunnelAt_none (Option.map_eq_none_iff.mp hholds.symm)
    · intro hnone
      rw [hholds, hnone]
      rfl
    · intro k hk
      have hlt := hi.core.bound k hk
      have ht : s.tunnels[k]? = some s.tunnels[k] := List.getElem?_eq_getElem hlt
      refine ⟨s.tunnels[k], s.tunnels[k].claim, ht, ?_, ?_⟩
      · rw [hholds, hk, tunnelAt, Option.bind_some, ht]
        rfl
      · simp [sameDerptunConnector]
  · intro hok
    have hi : Inv True s :=
      runFrom_invariant_of_meet (fun _ _ _ hi hok h => hi.step (fun _ => hok) h) labels inv_new hok
        hrun
    exact hi.core.alone trivial

end

/-! ## Two connectors -/

/-- The keyed hash of the sample: the last 32 bytes of the input. -/
def sampleServe : ServeConfig where
  codec :=
    { hmac := fun _ input => input.drop (input.length - 32)
      claimText := fun _ sessionID derpPublic quicPublic _ _ _ =>
        sessionID.toList ++ derpPublic.toList ++ quicPublic.toList
      validPeerAddrPort := fun _ => true }
  server :=
    { sessionID := Vector.replicate 16 1
      expiresUnix := 1000
      signingSecret := Vector.replicate 32 7
      publicKeys := some (Vector.replicate 32 2, Vector.replicate 32 3) }
  forceRelay := true

def sampleProof (id : UInt8) : ClientProof :=
  let unsigned : ClientProof := ⟨Vector.replicate 16 id, Vector.replicate 16 id, [id], 900, []⟩
  { unsigned with
    proofMAC := computeClientProofMAC sampleServe.codec.hmac sampleServe.server.signingSecret
      (clientForClaim sampleServe.codec.hmac sampleServe.server (Vector.replicate 32 2)
        (Vector.replicate 32 3) (Vector.replicate 16 1) unsigned) }

/-- The claim of a connector whose keys repeat `id`. -/
def sampleConnector (id : UInt8) : Claim :=
  let unsigned : Claim := ⟨4, Vector.replicate 16 1, [], Vector.replicate 32 id,
    Vector.replicate 32 (id + 1), 0, [], capabilityDerptunTCP, some (sampleProof id)⟩
  { unsigned with
    bearerMAC := computeBearerMAC sampleServe.codec
      (deriveClientBearerSecret sampleServe.codec.hmac sampleServe.server.signingSecret
        (Vector.replicate 16 id)) unsigned }

def samplePacket (id : UInt8) : ClaimPacket where
  source := Vector.replicate 32 id
  envelope := some
    { isClaim := true
      mac := Base64.encodeToString (List.replicate 32 id)
      claim := some (sampleConnector id)
      signed := List.replicate 32 id }

instance ResendsInTime.decidable (s : DerptunServer) : ∀ l, Decidable (ResendsInTime s l)
  | .resend k true =>
      decidable_of_iff (s.tunnels[k]?.all (fun t => !t.cancelled || s.tunnels.all (·.cancelled)) = true)
        (by cases h : s.tunnels[k]? <;> simp [ResendsInTime, Quiet, h])
  | .resend _ false => isTrue trivial
  | .claim _ _ _ => isTrue trivial
  | .probed _ _ => isTrue trivial
  | .stopped _ _ _ => isTrue trivial
  | .setup _ _ => isTrue trivial
  | .tunnelEnded _ => isTrue trivial
  | .claimsClosed => isTrue trivial
  | .shutdown => isTrue trivial
  | .drained => isTrue trivial
  | .cancelContext => isTrue trivial
  | .carrier _ => isTrue trivial
  | .quicClosed _ => isTrue trivial
  | .ended _ => isTrue trivial
  | .transportClosed _ => isTrue trivial
  | .report _ => isTrue trivial
  | .tick _ => isTrue trivial

/-- A second connector takes over from the first, whose goroutine has not ended. -/
def takeover : List ServeLabel :=
  [.claim (samplePacket 10) 100 true, .setup [] .ok, .tick 0, .resend 0 true,
    .claim (samplePacket 20) 101 true, .probed false true, .stopped true 102 true, .setup [] .ok]

theorem single_active_tunnel_taken_over : ∃ s,
    runFrom (DerptunServer.step sampleServe) DerptunServer.new
        (takeover ++ [ServeLabel.ended 0, ServeLabel.tick 1, ServeLabel.resend 1 true]) = some s ∧
      s.gate.active = some (sampleConnector 20) ∧ s.active = some 1 ∧
      s.sent.map (fun e => (e.peer.derpPublic, e.live.length)) =
        [(Vector.replicate 32 10, 0), (Vector.replicate 32 10, 1), (Vector.replicate 32 20, 0),
          (Vector.replicate 32 20, 1)] ∧
      ∀ e ∈ s.sent, e.decision.accepted = true → ∀ c ∈ e.live,
        sameDerptunConnector c e.peer = true := by
  have h : (runFrom (DerptunServer.step sampleServe) DerptunServer.new
      (takeover ++ [ServeLabel.ended 0, ServeLabel.tick 1, ServeLabel.resend 1 true])).any (fun s =>
        decide (s.gate.active = some (sampleConnector 20) ∧ s.active = some 1 ∧
          s.sent.map (fun e => (e.peer.derpPublic, e.live.length)) =
            [(Vector.replicate 32 10, 0), (Vector.replicate 32 10, 1), (Vector.replicate 32 20, 0),
              (Vector.replicate 32 20, 1)])) = true := by decide +kernel
  obtain ⟨s, hrun, hs⟩ := (Option.any_eq_true ..).mp h
  obtain ⟨hgate, hactive, hsent⟩ := of_decide_eq_true hs
  exact ⟨s, hrun, hgate, hactive, hsent,
    (single_active_tunnel sampleServe _ s hrun).2 (by decide +kernel)⟩

/-- The resender of the first tunnel sends once more after the second one has started. -/
theorem accept_sent_beside_tunnel : ∃ s,
    runFrom (DerptunServer.step sampleServe) DerptunServer.new
        (takeover ++ [ServeLabel.tick 0, ServeLabel.resend 0 true]) = some s ∧
      ∃ e ∈ s.sent, e.decision.accepted = true ∧ e.peer = sampleConnector 10 ∧
        e.live = [sampleConnector 20] ∧
        sameDerptunConnector (sampleConnector 20) (sampleConnector 10) = false := by
  have h : (runFrom (DerptunServer.step sampleServe) DerptunServer.new
      (takeover ++ [ServeLabel.tick 0, ServeLabel.resend 0 true])).any (fun s => s.sent.any fun e =>
        decide (e.decision.accepted = true ∧ e.peer = sampleConnector 10 ∧
          e.live = [sampleConnector 20] ∧
          sameDerptunConnector (sampleConnector 20) (sampleConnector 10) = false)) = true := by
    decide +kernel
  obtain ⟨s, hrun, hs⟩ := (Option.any_eq_true ..).mp h
  obtain ⟨e, he, hd⟩ := List.any_eq_true.mp hs
  exact ⟨s, hrun, e, he, of_decide_eq_true hd⟩

end DerptunServer

end Session
