import Derphole.Lib.Run
import Derphole.Rendezvous.Messages
import Derphole.Session.Heartbeat

/-!
# Who gets a shared session

`shareExternal`, `rejectAdditionalShareClaims` and `openExternal` of `pkg/session/external_share.go`, with
`sendClaimAndReceiveDecisionWithTelemetry` of `pkg/session/external.go`.

Any number of openers hold the token and send their claims, again and again until a decision comes.  The
listener answers in its main loop until it accepts a claim, and behind it, beside the connection it then
serves, in a loop whose gate holds that claim.  A decision does not name the claim it is about: it goes to
the key in the claim.

The relay may lose, repeat, reorder and make up packets; nobody without the token can make a tag that
verifies (`Unforged`).  Whether the relay hands a packet only to the key it was sent to is a further
assumption (`Routed`), which only the openers' side needs.
-/

namespace Session

open Lib Rendezvous

namespace Share

/-! ## Envelopes -/

inductive EnvelopeType where
  | claim
  | decision
  | abort
  | other (name : List UInt8)
  deriving DecidableEq

def EnvelopeType.name : EnvelopeType → List UInt8
  | .claim => ascii "claim"
  | .decision => ascii "decision"
  | .abort => ascii "abort"
  | .other name => name

/-- An envelope.  The members of other messages stand behind, as they are written. -/
structure Envelope where
  type : EnvelopeType
  mac : List UInt8
  claim : Option Claim
  decision : Option Decision
  behind : List (String × List UInt8)
  deriving DecidableEq

def Envelope.marshal (env : Envelope) : List UInt8 :=
  Json.object (
    [("type", Json.quote env.type.name)] ++ Json.omitEmpty env.mac.isEmpty "mac" (Json.quote env.mac) ++
    (env.claim.toList.map fun claim => ("claim", claim.marshal)) ++
    (env.decision.toList.map fun decision => ("decision", decision.marshal)) ++ env.behind)

/-- The text that the tag of an envelope covers. -/
def Envelope.text (env : Envelope) : List UInt8 := { env with mac := [] }.marshal

/-- A packet with the sender that the relay names, and the envelope that its payload decodes to. -/
structure Packet where
  source : Vector UInt8 32
  envelope : Option Envelope
  deriving DecidableEq

structure ShareConfig (ι : Type) where
  hmac : List UInt8 → List UInt8 → List UInt8
  fakeTransport : Bool
  tok : SessionToken.Token
  forceRelay : Bool
  /-- The keys that each opener has made for itself, and the candidates it has found. -/
  derpPublic : ι → Vector UInt8 32
  quicPublic : ι → Vector UInt8 32
  candidates : ι → List (List UInt8)

inductive Phase where
  /-- The main loop of `shareExternal`. -/
  | waiting
  /-- A claim is accepted, and the transport starts; claims wait in their channel. -/
  | starting
  /-- The decision is sent, and `rejectAdditionalShareClaims` runs. -/
  | serving
  | returned
  deriving DecidableEq

/-- What `openExternal` makes of the wait for a decision. -/
inductive Outcome where
  | accepted (decision : Decision)
  | rejected (reason : String)
  | errPeerAborted
  | failed
  deriving DecidableEq

structure State (ι : Type) where
  gate : Gate
  phase : Phase
  /-- The claim that the main loop has accepted, with the decision about it. -/
  accepted : Option (Claim × Decision)
  /-- Every envelope that a holder of the token has signed, with the key it was sent to. -/
  signed : List (Vector UInt8 32 × Envelope)
  claimed : ι → Bool
  outcomes : ι → Option Outcome

inductive Event (ι : Type) where
  /-- The opener sends its claim, for the first time or again. -/
  | sendClaim (i : ι)
  /-- A packet for the listener, the time on its clock, and the candidates it finds when it accepts. -/
  | deliverToListener (pkt : Packet) (now : Int) (localCandidates : List (List UInt8))
  | sendDecision
  | listenerReturns
  | deliverToOpener (i : ι) (pkt : Packet)
  | openerFails (i : ι)
  /-- Either side says something else, such as the messages of the transport. -/
  | signOther (dst : Vector UInt8 32) (name : List UInt8) (behind : List (String × List UInt8))

namespace ShareConfig

variable {ι : Type} (c : ShareConfig ι)

def auth : ExternalPeerControlAuth := externalPeerControlAuthForToken c.hmac c.tok

def gateToken : Rendezvous.Token :=
  ⟨c.tok.version, c.tok.sessionID, c.tok.expiresUnix, c.tok.bearerSecret, c.tok.capabilities⟩

def codec : Codec := Rendezvous.codec c.hmac c.fakeTransport

/-- `signEnvelopeMAC`. -/
def sign (env : Envelope) : Envelope := { env with mac := signEnvelopeMAC c.hmac env.mac env.text c.auth }

/-- `verifyEnvelopeMAC`. -/
def verifies (env : Envelope) : Bool := verifyEnvelopeMAC c.hmac env.mac env.text c.auth

/-- The claim of `openExternal`. -/
def openClaim (i : ι) : Claim :=
  let claim : Claim :=
    { version := c.tok.version
      sessionID := c.tok.sessionID
      bearerMAC := []
      derpPublic := c.derpPublic i
      quicPublic := c.quicPublic i
      parallel := 0
      candidates := c.candidates i
      capabilities := c.tok.capabilities
      client := none }
  { claim with bearerMAC := computeBearerMAC c.codec c.tok.bearerSecret claim }

def claimEnvelope (claim : Claim) : Envelope := ⟨.claim, [], some claim, none, []⟩

def decisionEnvelope (decision : Decision) : Envelope := ⟨.decision, [], none, some decision, []⟩

/-- `sendAuthenticatedEnvelope`. -/
def send (s : State ι) (dst : Vector UInt8 32) (env : Envelope) : State ι :=
  { s with signed := s.signed ++ [(dst, c.sign env)] }

/-- The claim in a packet: what `isClaimPayload` lets through, and the loops then take. -/
def receivedClaim (pkt : Packet) : Option Claim :=
  pkt.envelope.bind fun env => if env.type = .claim ∧ c.verifies env = true then env.claim else none

/-- The candidates of an acceptance are those of the listener, unless it has none to offer. -/
def shareDecision (decision : Decision) (localCandidates : List (List UInt8)) : Decision :=
  if c.forceRelay then decision
  else { decision with accept := decision.accept.map fun info => { info with candidates := localCandidates } }

def handleClaim (s : State ι) (now : Int) (localCandidates : List (List UInt8)) (claim : Claim) : Option (State ι) :=
  match s.phase with
  | .waiting =>
      match s.gate.accept c.codec now claim with
      | (gate, decision, _) =>
          if decision.accepted = false then
            some (c.send { s with gate := gate } claim.derpPublic (decisionEnvelope decision))
          else
            some
              { s with
                gate := gate
                phase := .starting
                accepted := some (claim, c.shareDecision decision localCandidates) }
  | .serving =>
      match s.gate.accept c.codec now claim with
      | (gate, decision, _) => some (c.send { s with gate := gate } claim.derpPublic (decisionEnvelope decision))
  | _ => none

/-- What `openExternal` makes of a decision. -/
def verdict (decision : Decision) : Outcome :=
  if decision.accepted then .accepted decision
  else .rejected (decision.reject.elim "claim rejected" RejectInfo.reason)

/-- What an opener does with a packet from the listener that `isDecisionOrAbortPayload` lets through. -/
def receivedOutcome (pkt : Packet) : Option Outcome :=
  if pkt.source ≠ c.tok.derpPublic then none
  else
    pkt.envelope.bind fun env =>
      if c.verifies env = false then none
      else if env.type = .abort then some .errPeerAborted
      else if env.type ≠ .decision then none
      else env.decision.map verdict

variable [DecidableEq ι]

def step (s : State ι) : Event ι → Option (State ι)
  | .sendClaim i =>
      if s.outcomes i ≠ none then none
      else
        some (c.send { s with claimed := Function.update s.claimed i true } c.tok.derpPublic
          (claimEnvelope (c.openClaim i)))
  | .deliverToListener pkt now localCandidates =>
      match c.receivedClaim pkt with
      | none => some s
      | some claim => c.handleClaim s now localCandidates claim
  | .sendDecision =>
      match s.phase, s.accepted with
      | .starting, some (claim, decision) =>
          some (c.send { s with phase := .serving } claim.derpPublic (decisionEnvelope decision))
      | _, _ => none
  | .listenerReturns => some { s with phase := .returned }
  | .deliverToOpener i pkt =>
      if s.claimed i = false ∨ s.outcomes i ≠ none then none
      else
        match c.receivedOutcome pkt with
        | none => some s
        | some outcome => some { s with outcomes := Function.update s.outcomes i (some outcome) }
  | .openerFails i =>
      if s.outcomes i ≠ none then none
      else some { s with outcomes := Function.update s.outcomes i (some .failed) }
  | .signOther dst name behind => some (c.send s dst ⟨.other name, [], none, none, behind⟩)

def init : State ι := ⟨newGate c.gateToken, .waiting, none, [], fun _ => false, fun _ => none⟩

/-- An envelope has a tag that verifies only if a holder of the token has signed it. -/
def Unforged (s : State ι) : Event ι → Prop
  | .deliverToListener pkt _ _ =>
      ∀ env ∈ pkt.envelope, env.mac = externalEnvelopeMAC c.hmac c.auth env.text → env ∈ s.signed.map Prod.snd
  | .deliverToOpener _ pkt =>
      ∀ env ∈ pkt.envelope, env.mac = externalEnvelopeMAC c.hmac c.auth env.text → env ∈ s.signed.map Prod.snd
  | _ => True

/-- What an opener gets was sent to its own key. -/
def Routed (s : State ι) : Event ι → Prop
  | .deliverToOpener i pkt =>
      ∀ env ∈ pkt.envelope, env.mac = externalEnvelopeMAC c.hmac c.auth env.text → (c.derpPublic i, env) ∈ s.signed
  | _ => True

end ShareConfig

namespace ShareConfig

/-! ## The claim of an opener -/

section

variable {ι : Type} (c : ShareConfig ι)

/-- The answer of the gate to a claim it takes: the claim's own candidates are in it. -/
def echo (i : ι) : Decision :=
  ⟨true, some ⟨c.tok.version, c.tok.sessionID, 0, c.candidates i, c.tok.capabilities⟩, none⟩

/-- The gate does not take such a claim, whoever has claimed the session. -/
def Malformed (i : ι) : Prop :=
  c.derpPublic i = Vector.replicate 32 0 ∨ c.quicPublic i = Vector.replicate 32 0 ∨
    Candidate.validateClaimStrings ((c.candidates i).map text) (candidateOptions c.fakeTransport) ≠ .ok ()

end

def malformedDecision : Decision := rejection .rejectClaimMalformed "claim malformed"

def expiredDecision : Decision := rejection .rejectExpired "token expired"

def claimedDecision : Decision := rejection .rejectClaimed "session already claimed"

variable {ι : Type} {c : ShareConfig ι}

theorem validBearerMAC_openClaim (i : ι) : validBearerMAC c.codec c.tok.bearerSecret (c.openClaim i) = true := by
  have hmac : computeBearerMAC c.codec c.tok.bearerSecret (c.openClaim i) = (c.openClaim i).bearerMAC := rfl
  have hdecode : ∃ bytes, hexDecode (c.openClaim i).bearerMAC = some bytes := ⟨_, hexDecode_hexEncode _⟩
  obtain ⟨bytes, hbytes⟩ := hdecode
  rw [validBearerMAC, hmac, hbytes]
  simp

theorem validateClaimForToken_openClaim (i : ι) :
    (¬c.Malformed i ∧ validateClaimForToken c.codec c.gateToken (c.openClaim i) = (c.echo i, none)) ∨
      (c.Malformed i ∧
        validateClaimForToken c.codec c.gateToken (c.openClaim i) = (malformedDecision, some .errDenied)) := by
  have hmac : validBearerMAC c.codec c.gateToken.bearerSecret (c.openClaim i) = true := validBearerMAC_openClaim i
  have hvalidate : validateClaimForToken c.codec c.gateToken (c.openClaim i) =
      if (c.openClaim i).derpPublic = Vector.replicate 32 0 ∨ (c.openClaim i).quicPublic = Vector.replicate 32 0 ∨
          validCandidates c.codec (c.openClaim i).candidates = false then (malformedDecision, some .errDenied)
      else (c.echo i, none) := by
    rw [validateClaimForToken, if_neg (fun h => h rfl), if_neg (fun h => h rfl), if_neg (by simp [hmac]),
      if_neg (fun h => h rfl)]
    rfl
  have hmalformed : c.Malformed i ↔
      (c.openClaim i).derpPublic = Vector.replicate 32 0 ∨ (c.openClaim i).quicPublic = Vector.replicate 32 0 ∨
        validCandidates c.codec (c.openClaim i).candidates = false := by
    rw [← Bool.not_eq_true]
    exact or_congr Iff.rfl (or_congr Iff.rfl (not_congr validCandidates_iff).symm)
  by_cases h : c.Malformed i
  · exact .inr ⟨h, by rw [hvalidate]; exact if_pos (hmalformed.mp h)⟩
  · exact .inl ⟨h, by rw [hvalidate]; exact if_neg (mt hmalformed.mpr h)⟩

/-- Claims of openers differ in more than the client proof. -/
theorem eq_of_sameClaim {i j : ι} (h : sameClaim (c.openClaim i) (c.openClaim j) = true) :
    c.openClaim i = c.openClaim j := by
  rw [sameClaim, decide_eq_true_eq] at h
  obtain ⟨-, -, hmac, hderp, hquic, -, -, hcandidates⟩ := h
  have heq : ∀ k, c.openClaim k =
      ⟨c.tok.version, c.tok.sessionID, (c.openClaim k).bearerMAC, (c.openClaim k).derpPublic,
        (c.openClaim k).quicPublic, 0, (c.openClaim k).candidates, c.tok.capabilities, none⟩ := fun _ => rfl
  rw [heq i, heq j, hmac, hderp, hquic, hcandidates]

theorem sameClaim_self (claim : Claim) : sameClaim claim claim = true := by simp [sameClaim]

/-- The gate's answers to a claim of an opener. -/
inductive Answer (c : ShareConfig ι) (g : Gate) (i : ι) : Gate → Decision → Prop where
  | expired : Answer c g i g expiredDecision
  | malformed : c.Malformed i → Answer c g i g malformedDecision
  | claims : ¬c.Malformed i → g.claim = none → Answer c g i { g with claim := some (c.openClaim i) } (c.echo i)
  | again : ¬c.Malformed i → g.claim = some (c.openClaim i) → Answer c g i g (c.echo i)
  | claimed {stored : Claim} : ¬c.Malformed i → g.claim = some stored → stored ≠ c.openClaim i →
      Answer c g i g claimedDecision

theorem accept_openClaim {g g' : Gate} {i : ι} {now : Int} {decision : Decision} {err : Option AcceptError}
    (htoken : g.token = c.gateToken) (hstored : ∀ stored ∈ g.claim, ∃ j, stored = c.openClaim j)
    (h : g.accept c.codec now (c.openClaim i) = (g', decision, err)) : Answer c g i g' decision := by
  have hvalidate := validateClaimForToken_openClaim (c := c) i
  rw [← htoken] at hvalidate
  unfold Gate.accept at h
  split at h
  · cases h
    exact .expired
  · rcases hvalidate with ⟨hgood, hvalidate⟩ | ⟨hbad, hvalidate⟩
    · rw [hvalidate] at h
      dsimp only at h
      split at h
      · next stored hclaim =>
          obtain ⟨j, rfl⟩ := hstored stored hclaim
          split at h
          · next hsame =>
              cases h
              exact .again hgood (by rw [hclaim, eq_of_sameClaim hsame])
          · next hother =>
              cases h
              refine .claimed hgood hclaim fun heq => hother ?_
              rw [heq]
              exact sameClaim_self _
      · next hclaim =>
          cases h
          exact .claims hgood hclaim
    · rw [hvalidate] at h
      cases h
      exact .malformed hbad

/-! ## What the envelopes say -/

/-- What a decision about an opener's claim says, and what the listener then holds. -/
inductive Answers (c : ShareConfig ι) (s : State ι) (i : ι) : Decision → Prop where
  /-- The decision of the main loop. -/
  | accepted {decision : Decision} : s.accepted = some (c.openClaim i, decision) → Answers c s i decision
  /-- The answer to the same claim when it comes again. -/
  | again {decision : Decision} : s.accepted = some (c.openClaim i, decision) → Answers c s i (c.echo i)
  | expired : Answers c s i expiredDecision
  | malformed : c.Malformed i → Answers c s i malformedDecision
  | claimed {claim : Claim} {decision : Decision} : s.accepted = some (claim, decision) → claim ≠ c.openClaim i →
      Answers c s i claimedDecision

structure Made (c : ShareConfig ι) (s : State ι) (dst : Vector UInt8 32) (env : Envelope) : Prop where
  claim : env.type = .claim → ∃ i, s.claimed i = true ∧ env.claim = some (c.openClaim i)
  decision : env.type = .decision →
    ∃ i decision, s.claimed i = true ∧ dst = c.derpPublic i ∧ env.decision = some decision ∧ c.Answers s i decision
  abort : env.type ≠ .abort

structure Inv (c : ShareConfig ι) (s : State ι) : Prop where
  token : s.gate.token = c.gateToken
  gate : s.gate.claim = s.accepted.map Prod.fst
  waiting : s.phase = .waiting → s.accepted = none
  busy : s.phase = .starting ∨ s.phase = .serving → s.accepted ≠ none
  accepted : ∀ claim decision, s.accepted = some (claim, decision) →
    ∃ i localCandidates, s.claimed i = true ∧ claim = c.openClaim i ∧ ¬c.Malformed i ∧
      decision = c.shareDecision (c.echo i) localCandidates
  signed : ∀ dst env, (dst, env) ∈ s.signed → c.Made s dst env
  outcomes : ∀ i decision, s.outcomes i = some (.accepted decision) →
    decision.accepted = true ∧ ∃ j, s.claimed j = true ∧ c.Answers s j decision

section

variable {s t : State ι}

theorem Answers.mono {i : ι} {decision : Decision} (h : c.Answers s i decision)
    (haccepted : ∀ a, s.accepted = some a → t.accepted = some a) : c.Answers t i decision := by
  cases h with
  | accepted h => exact .accepted (haccepted _ h)
  | again h => exact .again (haccepted _ h)
  | expired => exact .expired
  | malformed h => exact .malformed h
  | claimed h hne => exact .claimed (haccepted _ h) hne

theorem Made.mono {dst : Vector UInt8 32} {env : Envelope} (h : c.Made s dst env)
    (haccepted : ∀ a, s.accepted = some a → t.accepted = some a)
    (hclaimed : ∀ i, s.claimed i = true → t.claimed i = true) : c.Made t dst env := by
  refine ⟨fun htype => ?_, fun htype => ?_, h.abort⟩
  · obtain ⟨i, hi, hclaim⟩ := h.claim htype
    exact ⟨i, hclaimed i hi, hclaim⟩
  · obtain ⟨i, decision, hi, hdst, hdecision, hanswers⟩ := h.decision htype
    exact ⟨i, decision, hclaimed i hi, hdst, hdecision, hanswers.mono haccepted⟩

@[simp] theorem type_sign (env : Envelope) : (c.sign env).type = env.type := by
  unfold sign
  rfl

@[simp] theorem claim_sign (env : Envelope) : (c.sign env).claim = env.claim := by
  unfold sign
  rfl

@[simp] theorem decision_sign (env : Envelope) : (c.sign env).decision = env.decision := by
  unfold sign
  rfl

theorem Made.of_sign {dst : Vector UInt8 32} {env : Envelope} (h : c.Made s dst env) :
    c.Made s dst (c.sign env) := by
  constructor
  · rw [type_sign, claim_sign]
    exact h.claim
  · rw [type_sign, decision_sign]
    exact h.decision
  · rw [type_sign]
    exact h.abort

/-- Sending something that was made keeps the invariant. -/
theorem Inv.send {dst : Vector UInt8 32} {env : Envelope} (h : c.Inv s) (hmade : c.Made s dst env) :
    c.Inv (c.send s dst env) where
  token := h.token
  gate := h.gate
  waiting := h.waiting
  busy := h.busy
  accepted := h.accepted
  signed := by
    intro dst' env' hmem
    rcases List.mem_append.mp hmem with hold | hnew
    · exact (h.signed dst' env' hold).mono (fun _ h => h) fun _ h => h
    · cases List.mem_singleton.mp hnew
      exact hmade.of_sign.mono (fun _ h => h) fun _ h => h
  outcomes := by
    intro i decision hout
    obtain ⟨haccepted, j, hj, hanswers⟩ := h.outcomes i decision hout
    exact ⟨haccepted, j, hj, hanswers.mono fun _ h => h⟩

theorem made_decision {i : ι} {decision : Decision} (hi : s.claimed i = true) (h : c.Answers s i decision) :
    c.Made s (c.openClaim i).derpPublic (decisionEnvelope decision) :=
  ⟨nofun, fun _ => ⟨i, decision, hi, rfl, rfl, h⟩, nofun⟩

theorem Inv.stored (h : c.Inv s) : ∀ stored ∈ s.gate.claim, ∃ j, stored = c.openClaim j := by
  intro stored hstored
  rw [h.gate] at hstored
  obtain ⟨⟨claim, decision⟩, haccepted, rfl⟩ := Option.map_eq_some_iff.mp hstored
  obtain ⟨i, -, -, hclaim, -⟩ := h.accepted claim decision haccepted
  exact ⟨i, hclaim⟩

theorem Inv.handleClaim (h : c.Inv s) {i : ι} (hi : s.claimed i = true) {now : Int}
    {localCandidates : List (List UInt8)} (hstep : c.handleClaim s now localCandidates (c.openClaim i) = some t) :
    c.Inv t := by
  unfold ShareConfig.handleClaim at hstep
  generalize haccept : s.gate.accept c.codec now (c.openClaim i) = result at hstep
  obtain ⟨gate, decision, err⟩ := result
  have hanswer := accept_openClaim h.token h.stored haccept
  split at hstep
  next hphase =>
    have hnone := h.waiting hphase
    have hgate : s.gate.claim = none := by
      rw [h.gate, hnone]
      rfl
    cases hanswer with
    | expired =>
        cases hstep
        exact h.send (made_decision hi .expired)
    | malformed hbad =>
        cases hstep
        exact h.send (made_decision hi (.malformed hbad))
    | claims hgood _ =>
        cases hstep
        exact
          { token := h.token
            gate := rfl
            waiting := nofun
            busy := fun _ => nofun
            accepted := by
              rintro claim decision ⟨⟩
              exact ⟨i, localCandidates, hi, rfl, hgood, rfl⟩
            signed := fun dst env hmem =>
              (h.signed dst env hmem).mono (fun a ha => by rw [hnone] at ha; cases ha) fun _ hk => hk
            outcomes := by
              intro k decision hout
              obtain ⟨haccepted, j, hj, hanswers⟩ := h.outcomes k decision hout
              exact ⟨haccepted, j, hj, hanswers.mono fun a ha => by rw [hnone] at ha; cases ha⟩ }
    | again _ hstored =>
        rw [hgate] at hstored
        cases hstored
    | claimed _ hstored _ =>
        rw [hgate] at hstored
        cases hstored
  next hphase =>
    -- the gate holds a claim, so that it does not change
    have hsome := h.busy (.inr hphase)
    cases hanswer with
    | expired =>
        cases hstep
        exact h.send (made_decision hi .expired)
    | malformed hbad =>
        cases hstep
        exact h.send (made_decision hi (.malformed hbad))
    | claims _ hnone =>
        rw [h.gate, Option.map_eq_none_iff] at hnone
        exact absurd hnone hsome
    | again _ hstored =>
        rw [h.gate] at hstored
        obtain ⟨⟨claim, decision⟩, haccepted, hclaim⟩ := Option.map_eq_some_iff.mp hstored
        cases hclaim
        cases hstep
        exact h.send (made_decision hi (.again haccepted))
    | claimed _ hstored hne =>
        rw [h.gate] at hstored
        obtain ⟨⟨claim, decision⟩, haccepted, hclaim⟩ := Option.map_eq_some_iff.mp hstored
        cases hclaim
        cases hstep
        exact h.send (made_decision hi (.claimed haccepted hne))
  · cases hstep

/-- The listener takes only claims that openers have sent. -/
theorem Inv.received (h : c.Inv s) (henabled : c.auth.envelopeEnabled = true) {pkt : Packet} {claim : Claim}
    (hunforged : ∀ env ∈ pkt.envelope, env.mac = externalEnvelopeMAC c.hmac c.auth env.text → env ∈ s.signed.map Prod.snd)
    (hclaim : c.receivedClaim pkt = some claim) : ∃ i, s.claimed i = true ∧ claim = c.openClaim i := by
  obtain ⟨env, henv, hread⟩ := Option.bind_eq_some_iff.mp hclaim
  split at hread
  · next htaken =>
      obtain ⟨⟨dst, env⟩, hsigned, rfl⟩ :=
        List.mem_map.mp (hunforged env henv (mac_of_verifyEnvelopeMAC henabled htaken.2))
      obtain ⟨i, hi, hopen⟩ := (h.signed dst env hsigned).claim htaken.1
      exact ⟨i, hi, Option.some.inj (hread.symm.trans hopen)⟩
  · cases hread

theorem receivedOutcome_eq_some {pkt : Packet} {outcome : Outcome} (h : c.receivedOutcome pkt = some outcome) :
    ∃ env ∈ pkt.envelope, c.verifies env = true ∧
      (env.type = .abort ∨
        env.type = .decision ∧ ∃ decision, env.decision = some decision ∧ outcome = verdict decision) := by
  unfold receivedOutcome at h
  split at h
  · cases h
  · obtain ⟨env, henv, hread⟩ := Option.bind_eq_some_iff.mp h
    split at hread
    · cases hread
    next hverify =>
      refine ⟨env, henv, by simpa using hverify, ?_⟩
      split at hread
      next habort => exact .inl habort
      · split at hread
        · cases hread
        next htype =>
          obtain ⟨decision, hdecision, houtcome⟩ := Option.map_eq_some_iff.mp hread
          exact .inr ⟨not_not.mp htype, decision, hdecision, houtcome.symm⟩

theorem verdict_eq_accepted {decision decision' : Decision} (h : .accepted decision' = verdict decision) :
    decision' = decision ∧ decision.accepted = true := by
  unfold verdict at h
  split at h
  next haccepted =>
    cases h
    exact ⟨rfl, haccepted⟩
  · cases h

theorem Inv.init : c.Inv c.init where
  token := rfl
  gate := rfl
  waiting := fun _ => rfl
  busy := by rintro (hphase | hphase) <;> cases hphase
  accepted := by
    intro claim decision haccepted
    cases haccepted
  signed := by
    intro dst env hmem
    exact absurd hmem List.not_mem_nil
  outcomes := by
    intro i decision hout
    cases hout

/-- Only the openers' outcomes change. -/
theorem Inv.outcome [DecidableEq ι] (h : c.Inv s) {i : ι} {outcome : Outcome}
    (hout : ∀ decision, outcome = .accepted decision →
      decision.accepted = true ∧ ∃ j, s.claimed j = true ∧ c.Answers s j decision) :
    c.Inv { s with outcomes := Function.update s.outcomes i (some outcome) } where
  token := h.token
  gate := h.gate
  waiting := h.waiting
  busy := h.busy
  accepted := h.accepted
  signed := fun dst env hmem => (h.signed dst env hmem).mono (fun _ h => h) fun _ h => h
  outcomes := by
    intro k decision hk
    have hanswers : decision.accepted = true ∧ ∃ j, s.claimed j = true ∧ c.Answers s j decision := by
      dsimp only at hk
      by_cases hki : k = i
      · subst hki
        rw [Function.update_self] at hk
        exact hout decision (Option.some.inj hk)
      · rw [Function.update_of_ne hki] at hk
        exact h.outcomes k decision hk
    obtain ⟨haccepted, j, hj, hanswers⟩ := hanswers
    exact ⟨haccepted, j, hj, hanswers.mono fun _ h => h⟩

theorem Inv.step [DecidableEq ι] (h : c.Inv s) (henabled : c.auth.envelopeEnabled = true) {e : Event ι}
    (hunforged : c.Unforged s e) (hstep : c.step s e = some t) : c.Inv t := by
  cases e with
  | sendClaim i =>
      simp only [ShareConfig.step] at hstep
      split at hstep
      · cases hstep
      cases hstep
      have hclaimed : ∀ k, s.claimed k = true → Function.update s.claimed i true k = true := by
        intro k hk
        by_cases hki : k = i
        · rw [hki, Function.update_self]
        · rwa [Function.update_of_ne hki]
      have hinv : c.Inv { s with claimed := Function.update s.claimed i true } :=
        { h with
          accepted := by
            intro claim decision haccepted
            obtain ⟨k, localCandidates, hk, hrest⟩ := h.accepted claim decision haccepted
            exact ⟨k, localCandidates, hclaimed k hk, hrest⟩
          signed := fun dst env hmem => (h.signed dst env hmem).mono (fun _ h => h) hclaimed
          outcomes := by
            intro k decision hout
            obtain ⟨haccepted, j, hj, hanswers⟩ := h.outcomes k decision hout
            exact ⟨haccepted, j, hclaimed j hj, hanswers.mono fun _ h => h⟩ }
      refine hinv.send ⟨fun _ => ⟨i, ?_, rfl⟩, nofun, nofun⟩
      exact Function.update_self i true s.claimed
  | deliverToListener pkt now localCandidates =>
      simp only [ShareConfig.step] at hstep
      split at hstep
      · cases hstep
        exact h
      next claim hclaim =>
        obtain ⟨i, hi, rfl⟩ := h.received henabled hunforged hclaim
        exact h.handleClaim hi hstep
  | sendDecision =>
      simp only [ShareConfig.step] at hstep
      split at hstep
      next claim decision _ haccepted =>
        cases hstep
        obtain ⟨i, -, hi, rfl, -⟩ := h.accepted claim decision haccepted
        have hinv : c.Inv { s with phase := .serving } :=
          { h with
            waiting := nofun
            busy := fun _ hnone => by rw [haccepted] at hnone; cases hnone
            signed := fun dst env hmem => (h.signed dst env hmem).mono (fun _ h => h) fun _ h => h
            outcomes := by
              intro k decision hout
              obtain ⟨hyes, j, hj, hanswers⟩ := h.outcomes k decision hout
              exact ⟨hyes, j, hj, hanswers.mono fun _ h => h⟩ }
        exact hinv.send (made_decision hi (.accepted haccepted))
      · cases hstep
  | listenerReturns =>
      cases hstep
      exact
        { h with
          waiting := nofun
          busy := by rintro (hphase | hphase) <;> cases hphase
          signed := fun dst env hmem => (h.signed dst env hmem).mono (fun _ h => h) fun _ h => h
          outcomes := by
            intro k decision hout
            obtain ⟨hyes, j, hj, hanswers⟩ := h.outcomes k decision hout
            exact ⟨hyes, j, hj, hanswers.mono fun _ h => h⟩ }
  | deliverToOpener i pkt =>
      simp only [ShareConfig.step] at hstep
      split at hstep
      · cases hstep
      split at hstep
      · cases hstep
        exact h
      next outcome houtcome =>
        cases hstep
        refine h.outcome ?_
        rintro decision rfl
        obtain ⟨env, henv, hverify, hmeaning⟩ := receivedOutcome_eq_some houtcome
        obtain ⟨⟨dst, env⟩, hsigned, rfl⟩ :=
          List.mem_map.mp (hunforged env henv (mac_of_verifyEnvelopeMAC henabled hverify))
        have hmade := h.signed dst env hsigned
        obtain ⟨htype, decision', hdecision, hverdict⟩ := hmeaning.resolve_left hmade.abort
        obtain ⟨rfl, haccepted⟩ := verdict_eq_accepted hverdict
        obtain ⟨j, decision', hj, -, hdecision', hanswers⟩ := hmade.decision htype
        cases hdecision.symm.trans hdecision'
        exact ⟨haccepted, j, hj, hanswers⟩
  | openerFails i =>
      simp only [ShareConfig.step] at hstep
      split at hstep
      · cases hstep
      cases hstep
      exact h.outcome nofun
  | signOther dst name behind =>
      cases hstep
      exact h.send ⟨nofun, nofun, nofun⟩

theorem Inv.run [DecidableEq ι] (henabled : c.auth.envelopeEnabled = true) {events : List (Event ι)}
    (hrun : runFrom c.step c.init events = some s) (hunforged : StepsMeet c.step c.Unforged c.init events) :
    c.Inv s :=
  runFrom_invariant_of_meet (fun _ _ _ h hok hstep => h.step henabled hok hstep) events Inv.init hunforged hrun

/-! ## What a step leaves alone -/

structure Frame (c : ShareConfig ι) (s : State ι) (e : Event ι) (t : State ι) [DecidableEq ι] : Prop where
  signed : ∀ a ∈ s.signed, a ∈ t.signed
  accepted : t.accepted = s.accepted ∨ s.phase = .waiting ∧ ∃ pkt now localCandidates claim,
    e = .deliverToListener pkt now localCandidates ∧ (s.gate.accept c.codec now claim).2.1.accepted = true
  outcomes : t.outcomes = s.outcomes ∨ ∃ i outcome, t.outcomes = Function.update s.outcomes i (some outcome) ∧
    (outcome = .failed ∨ ∃ pkt, e = .deliverToOpener i pkt ∧ c.receivedOutcome pkt = some outcome)

theorem mem_signed_send {a : Vector UInt8 32 × Envelope} (h : a ∈ s.signed) (dst : Vector UInt8 32)
    (env : Envelope) : a ∈ (c.send s dst env).signed := List.mem_append_left _ h

theorem step_frame [DecidableEq ι] {e : Event ι} (hstep : c.step s e = some t) : c.Frame s e t := by
  cases e with
  | deliverToListener pkt now localCandidates =>
      simp only [ShareConfig.step] at hstep
      split at hstep
      · cases hstep
        exact ⟨fun _ h => h, .inl rfl, .inl rfl⟩
      · unfold ShareConfig.handleClaim at hstep
        split at hstep
        next hphase =>
          dsimp only at hstep
          split at hstep
          · cases hstep
            exact ⟨fun _ h => mem_signed_send h _ _, .inl rfl, .inl rfl⟩
          next haccepted =>
            cases hstep
            exact ⟨fun _ h => h,
              .inr ⟨hphase, pkt, now, localCandidates, _, rfl, (Bool.not_eq_false _).mp haccepted⟩, .inl rfl⟩
        · cases hstep
          exact ⟨fun _ h => mem_signed_send h _ _, .inl rfl, .inl rfl⟩
        · cases hstep
  | sendDecision =>
      simp only [ShareConfig.step] at hstep
      split at hstep
      · cases hstep
        exact ⟨fun _ h => mem_signed_send h _ _, .inl rfl, .inl rfl⟩
      · cases hstep
  | sendClaim i =>
      simp only [ShareConfig.step] at hstep
      split at hstep
      · cases hstep
      · cases hstep
        exact ⟨fun _ h => mem_signed_send h _ _, .inl rfl, .inl rfl⟩
  | listenerReturns =>
      cases hstep
      exact ⟨fun _ h => h, .inl rfl, .inl rfl⟩
  | deliverToOpener i pkt =>
      simp only [ShareConfig.step] at hstep
      split at hstep
      · cases hstep
      · split at hstep
        · cases hstep
          exact ⟨fun _ h => h, .inl rfl, .inl rfl⟩
        next outcome houtcome =>
          cases hstep
          exact ⟨fun _ h => h, .inl rfl, .inr ⟨i, outcome, rfl, .inr ⟨pkt, rfl, houtcome⟩⟩⟩
  | openerFails i =>
      simp only [ShareConfig.step] at hstep
      split at hstep
      · cases hstep
      · cases hstep
        exact ⟨fun _ h => h, .inl rfl, .inr ⟨i, .failed, rfl, .inl rfl⟩⟩
  | signOther dst name behind =>
      cases hstep
      exact ⟨fun _ h => mem_signed_send h _ _, .inl rfl, .inl rfl⟩

/-- The session stays with the claim that got it. -/
theorem Inv.accepted_later [DecidableEq ι] (henabled : c.auth.envelopeEnabled = true) {events : List (Event ι)}
    {a : Claim × Decision} (h : c.Inv s) (ha : s.accepted = some a) (hrun : runFrom c.step s events = some t)
    (hunforged : StepsMeet c.step c.Unforged s events) : t.accepted = some a := by
  have hstep : ∀ s e t, c.Inv s ∧ s.accepted = some a → c.Unforged s e → c.step s e = some t →
      c.Inv t ∧ t.accepted = some a := by
    rintro s e t ⟨h, ha⟩ hok hstep
    refine ⟨h.step henabled hok hstep, ?_⟩
    rcases (step_frame hstep).accepted with hsame | ⟨hphase, -⟩
    · rw [hsame, ha]
    · rw [h.waiting hphase] at ha
      cases ha
  exact (runFrom_invariant_of_meet hstep events ⟨h, ha⟩ hunforged hrun).2

/-- What an opener has got was sent to its key. -/
def Got (c : ShareConfig ι) (s : State ι) : Prop :=
  ∀ i outcome, s.outcomes i = some outcome → outcome = .failed ∨
    ∃ env decision, (c.derpPublic i, env) ∈ s.signed ∧ env.type = .decision ∧ env.decision = some decision ∧
      outcome = verdict decision

theorem Got.step [DecidableEq ι] (h : c.Got s) (hinv : c.Inv s) (henabled : c.auth.envelopeEnabled = true)
    {e : Event ι} (hrouted : c.Routed s e) (hstep : c.step s e = some t) : c.Got t := by
  have hframe := step_frame hstep
  have hold : ∀ i outcome, s.outcomes i = some outcome → outcome = .failed ∨
      ∃ env decision, (c.derpPublic i, env) ∈ t.signed ∧ env.type = .decision ∧ env.decision = some decision ∧
        outcome = verdict decision := by
    intro i outcome hout
    rcases h i outcome hout with hfailed | ⟨env, decision, hmem, hrest⟩
    · exact .inl hfailed
    · exact .inr ⟨env, decision, hframe.signed _ hmem, hrest⟩
  intro k outcome hk
  rcases hframe.outcomes with hsame | ⟨i, outcome', hupdate, hwhy⟩
  · rw [hsame] at hk
    exact hold k outcome hk
  · rw [hupdate] at hk
    by_cases hki : k = i
    · subst hki
      rw [Function.update_self] at hk
      cases hk
      rcases hwhy with hfailed | ⟨pkt, rfl, houtcome⟩
      · exact .inl hfailed
      · obtain ⟨env, henv, hverify, hmeaning⟩ := receivedOutcome_eq_some houtcome
        have hsigned := hrouted env henv (mac_of_verifyEnvelopeMAC henabled hverify)
        obtain ⟨htype, decision, hdecision, hverdict⟩ := hmeaning.resolve_left (hinv.signed _ env hsigned).abort
        exact .inr ⟨env, decision, hframe.signed _ hsigned, htype, hdecision, hverdict⟩
    · rw [Function.update_of_ne hki] at hk
      exact hold k outcome hk

theorem Got.run [DecidableEq ι] (henabled : c.auth.envelopeEnabled = true) {events : List (Event ι)}
    (hrun : runFrom c.step c.init events = some s) (hunforged : StepsMeet c.step c.Unforged c.init events)
    (hrouted : StepsMeet c.step c.Routed c.init events) : c.Got s := by
  have hstep : ∀ s e t, c.Inv s ∧ c.Got s → (c.Unforged s e ∧ c.Routed s e) → c.step s e = some t →
      c.Inv t ∧ c.Got t := by
    rintro s e t ⟨hinv, hgot⟩ ⟨hunforged, hrouted⟩ hstep
    exact ⟨hinv.step henabled hunforged hstep, hgot.step hinv henabled hrouted hstep⟩
  exact (runFrom_invariant_of_meet hstep events ⟨Inv.init, nofun⟩ (hunforged.and hrouted) hrun).2

/-! ## Late claims -/

/-- The claim reaches the listener when the token has expired. -/
def Late (c : ShareConfig ι) : Event ι → Prop
  | .deliverToListener _ now _ => c.tok.expiresUnix.toInt ≤ now
  | _ => True

theorem accept_late {g : Gate} (htoken : g.token = c.gateToken) {now : Int} (hlate : c.tok.expiresUnix.toInt ≤ now)
    (claim : Claim) : g.accept c.codec now claim = (g, expiredDecision, some .errExpired) := by
  have hexpired : now ≥ g.token.expiresUnix.toInt := by
    rw [htoken]
    exact hlate
  rw [Gate.accept, if_pos hexpired]
  rfl

/-- A late claim is answered that the token has expired, in the main loop and behind it. -/
theorem handleClaim_late (htoken : s.gate.token = c.gateToken) {now : Int}
    (hlate : c.tok.expiresUnix.toInt ≤ now) {localCandidates : List (List UInt8)} {claim : Claim}
    (hstep : c.handleClaim s now localCandidates claim = some t) :
    t = c.send s claim.derpPublic (decisionEnvelope expiredDecision) := by
  unfold ShareConfig.handleClaim at hstep
  rw [accept_late htoken hlate] at hstep
  split at hstep
  · cases hstep
    rfl
  · cases hstep
    rfl
  · cases hstep

/-- What a late packet does: nobody gets the session, and what is signed says that the token has expired. -/
theorem deliver_late [DecidableEq ι] (htoken : s.gate.token = c.gateToken) {pkt : Packet} {now : Int}
    (hlate : c.tok.expiresUnix.toInt ≤ now) {localCandidates : List (List UInt8)}
    (hstep : c.step s (.deliverToListener pkt now localCandidates) = some t) :
    t.accepted = s.accepted ∧ ∃ answers, t.signed = s.signed ++ answers ∧
      ∀ dst env, (dst, env) ∈ answers → env.decision = some expiredDecision := by
  simp only [ShareConfig.step] at hstep
  split at hstep
  · cases hstep
    exact ⟨rfl, [], (List.append_nil _).symm, nofun⟩
  next claim _ =>
    rw [handleClaim_late htoken hlate hstep]
    refine ⟨rfl, _, rfl, ?_⟩
    intro dst env hmem
    cases List.mem_singleton.mp hmem
    exact decision_sign _

/-- From there on the main loop accepts nothing. -/
theorem step_late [DecidableEq ι] {e : Event ι} (hlate : c.Late e) (h : c.Inv s)
    (hstep : c.step s e = some t) : t.accepted = s.accepted := by
  rcases (step_frame hstep).accepted with hsame | ⟨-, pkt, now, localCandidates, claim, rfl, haccepted⟩
  · exact hsame
  · exact (deliver_late h.token hlate hstep).1

theorem Inv.run_late [DecidableEq ι] (h : c.Inv s) (henabled : c.auth.envelopeEnabled = true)
    {events : List (Event ι)} (hrun : runFrom c.step s events = some t)
    (hunforged : StepsMeet c.step c.Unforged s events) (hlate : ∀ e ∈ events, c.Late e) :
    t.accepted = s.accepted := by
  have hstep : ∀ u e v, c.Inv u ∧ u.accepted = s.accepted → (c.Unforged u e ∧ c.Late e) →
      c.step u e = some v → c.Inv v ∧ v.accepted = s.accepted := by
    rintro u e v ⟨hinv, hsame⟩ ⟨hunforged, hlate⟩ hstep
    exact ⟨hinv.step henabled hunforged hstep, (step_late hlate hinv hstep).trans hsame⟩
  exact (runFrom_invariant_of_meet hstep events ⟨h, rfl⟩ (hunforged.and_mem hlate) hrun).2

/-! ## Exclusion -/

/-- A decision that accepts is about the claim that has the session. -/
theorem Answers.of_accepted {i : ι} {decision : Decision} (h : c.Answers s i decision)
    (haccepted : decision.accepted = true) :
    ∃ own, s.accepted = some (c.openClaim i, own) ∧ (decision = own ∨ decision = c.echo i) := by
  cases h with
  | accepted h => exact ⟨decision, h, .inl rfl⟩
  | again h => exact ⟨_, h, .inr rfl⟩
  | expired => cases haccepted
  | malformed h => cases haccepted
  | claimed h hne => cases haccepted

theorem Answers.of_rejected {i : ι} {decision : Decision} (h : c.Answers s i decision) (hinv : c.Inv s)
    {reason : String} (hreason : .rejected reason = verdict decision) :
    reason = "token expired" ∨ (c.Malformed i ∧ reason = "claim malformed") ∨
      reason = "session already claimed" ∧
        ∃ j own, s.accepted = some (c.openClaim j, own) ∧ c.openClaim j ≠ c.openClaim i := by
  have hgiven : ∀ own, s.accepted = some (c.openClaim i, own) → own.accepted = true := by
    intro own hown
    obtain ⟨k, localCandidates, -, -, -, rfl⟩ := hinv.accepted _ own hown
    unfold shareDecision
    split <;> rfl
  cases h with
  | accepted h =>
      rw [verdict, if_pos (hgiven _ h)] at hreason
      cases hreason
  | again h => cases hreason
  | expired =>
      cases hreason
      exact .inl rfl
  | malformed h =>
      cases hreason
      exact .inr (.inl ⟨h, rfl⟩)
  | claimed h hne =>
      cases hreason
      obtain ⟨j, -, -, rfl, -⟩ := hinv.accepted _ _ h
      exact .inr (.inr ⟨rfl, j, _, h, hne⟩)

/-- With different keys, the answer that an opener has got is about its own claim. -/
theorem Got.answers (h : c.Got s) (hinv : c.Inv s) (hkeys : Function.Injective c.derpPublic) {i : ι}
    {outcome : Outcome} (hout : s.outcomes i = some outcome) (hnot : outcome ≠ .failed) :
    ∃ decision, outcome = verdict decision ∧ c.Answers s i decision := by
  obtain ⟨env, decision, hsigned, htype, hdecision, hverdict⟩ := (h i outcome hout).resolve_left hnot
  obtain ⟨k, decision', -, hdst, hdecision', hanswers⟩ := (hinv.signed _ env hsigned).decision htype
  cases hdecision.symm.trans hdecision'
  cases hkeys hdst
  exact ⟨decision, hverdict, hanswers⟩

/-- An opener that was accepted has the session. -/
theorem Got.session (h : c.Got s) (hinv : c.Inv s) (hkeys : Function.Injective c.derpPublic) {i : ι}
    {decision : Decision} (hout : s.outcomes i = some (.accepted decision)) :
    ∃ own, s.accepted = some (c.openClaim i, own) := by
  obtain ⟨decision', hverdict, hanswers⟩ := h.answers hinv hkeys hout (fun hfailed => by cases hfailed)
  obtain ⟨rfl, haccepted⟩ := verdict_eq_accepted hverdict
  obtain ⟨own, hown, -⟩ := hanswers.of_accepted haccepted
  exact ⟨own, hown⟩

end

/-- **One opener gets the session.**  In every run, whatever the relay does: a claim that the listener has
accepted is a well-formed claim of an opener, as that opener sent it, and keeps the session for the rest of
the run; it is the claim in the gate; every decision that accepts goes to the key in that claim and is the
decision about it or, for the claim coming again, an echo of the claim; an opener that was accepted holds one
of these; and a packet that comes when the token has expired gives nobody the session and has nothing signed
but that the token has expired, so that nothing is accepted from there on.  If the relay hands packets only to
the key they were sent to, and the openers have different keys, at most one opener is ever accepted, the one
that has the session, and another one is turned away only because the token has expired, because its own claim
is malformed, or because some other opener has the session. -/
theorem share_exclusive {ι : Type} [DecidableEq ι] {c : ShareConfig ι} {s : State ι} {events : List (Event ι)}
    (henabled : c.auth.envelopeEnabled = true) (hrun : runFrom c.step c.init events = some s)
    (hunforged : StepsMeet c.step c.Unforged c.init events) :
    (∀ claim own, s.accepted = some (claim, own) →
      s.gate.claim = some claim ∧
      (∃ i localCandidates, s.claimed i = true ∧ claim = c.openClaim i ∧ ¬c.Malformed i ∧
        own = c.shareDecision (c.echo i) localCandidates) ∧
      ∀ later t, runFrom c.step s later = some t → StepsMeet c.step c.Unforged s later →
        t.accepted = some (claim, own)) ∧
    (∀ dst env decision, (dst, env) ∈ s.signed → env.type = .decision → env.decision = some decision →
      decision.accepted = true →
      ∃ i own, s.accepted = some (c.openClaim i, own) ∧ dst = c.derpPublic i ∧
        (decision = own ∨ decision = c.echo i)) ∧
    (∀ i decision, s.outcomes i = some (.accepted decision) →
      ∃ j own, s.accepted = some (c.openClaim j, own) ∧ (decision = own ∨ decision = c.echo j)) ∧
    (∀ pkt now localCandidates t, c.tok.expiresUnix.toInt ≤ now →
      c.step s (.deliverToListener pkt now localCandidates) = some t →
      t.accepted = s.accepted ∧ ∃ answers, t.signed = s.signed ++ answers ∧
        ∀ dst env, (dst, env) ∈ answers → env.decision = some expiredDecision) ∧
    (∀ later t, runFrom c.step s later = some t → StepsMeet c.step c.Unforged s later →
      (∀ e ∈ later, c.Late e) → t.accepted = s.accepted) ∧
    (StepsMeet c.step c.Routed c.init events → Function.Injective c.derpPublic →
      (∀ i decision, s.outcomes i = some (.accepted decision) →
        (∃ own, s.accepted = some (c.openClaim i, own)) ∧
        ∀ j decision', s.outcomes j = some (.accepted decision') → j = i) ∧
      ∀ i reason, s.outcomes i = some (.rejected reason) →
        reason = "token expired" ∨ (c.Malformed i ∧ reason = "claim malformed") ∨
          reason = "session already claimed" ∧ ∃ j own, j ≠ i ∧ s.accepted = some (c.openClaim j, own)) := by
  have hinv := Inv.run henabled hrun hunforged
  refine ⟨?_, ?_, ?_, fun _ _ _ _ hlate => deliver_late hinv.token hlate,
    fun _ _ hlater hok => hinv.run_late henabled hlater hok, ?_⟩
  · intro claim own haccepted
    refine ⟨by rw [hinv.gate, haccepted]; rfl, hinv.accepted claim own haccepted, ?_⟩
    intro later t hlater hok
    exact hinv.accepted_later henabled haccepted hlater hok
  · intro dst env decision hsigned htype hdecision haccepted
    obtain ⟨i, decision', -, hdst, hdecision', hanswers⟩ := (hinv.signed dst env hsigned).decision htype
    cases hdecision.symm.trans hdecision'
    obtain ⟨own, hown, hwhich⟩ := hanswers.of_accepted haccepted
    exact ⟨i, own, hown, hdst, hwhich⟩
  · intro i decision hout
    obtain ⟨haccepted, j, -, hanswers⟩ := hinv.outcomes i decision hout
    obtain ⟨own, hown, hwhich⟩ := hanswers.of_accepted haccepted
    exact ⟨j, own, hown, hwhich⟩
  · intro hrouted hkeys
    have hgot := Got.run henabled hrun hunforged hrouted
    refine ⟨?_, ?_⟩
    · intro i decision hout
      obtain ⟨own, hown⟩ := hgot.session hinv hkeys hout
      refine ⟨⟨own, hown⟩, fun j decision' hout' => ?_⟩
      obtain ⟨own', hown'⟩ := hgot.session hinv hkeys hout'
      have hclaims : c.openClaim j = c.openClaim i := by
        rw [hown] at hown'
        exact (Prod.mk.inj (Option.some.inj hown')).1.symm
      exact hkeys (congrArg Claim.derpPublic hclaims)
    · intro i reason hout
      obtain ⟨decision, hverdict, hanswers⟩ := hgot.answers hinv hkeys hout (fun hfailed => by cases hfailed)
      rcases hanswers.of_rejected hinv hverdict with hexpired | hmalformed | ⟨hreason, j, own, hown, hne⟩
      · exact .inl hexpired
      · exact .inr (.inl hmalformed)
      · exact .inr (.inr ⟨hreason, j, own, fun hji => hne (by rw [hji]), hown⟩)

/-! ### A run -/

/-! Keyed SHA-256 hashes of the texts below. -/

def firstBearer : Vector UInt8 32 :=
  #v[6, 170, 133, 185, 229, 158, 149, 62, 57, 97, 53, 60, 44, 121, 157, 172, 165, 209, 2, 172, 196, 123, 2, 152,
    117, 205, 203, 253, 198, 228, 192, 201]

def secondBearer : Vector UInt8 32 :=
  #v[7, 249, 185, 88, 221, 211, 164, 92, 173, 240, 146, 247, 230, 119, 235, 201, 224, 24, 9, 97, 212, 114, 217,
    207, 219, 148, 76, 198, 99, 142, 152, 212]

def firstClaimTag : Vector UInt8 32 :=
  #v[133, 87, 50, 210, 247, 144, 156, 205, 26, 77, 109, 33, 97, 37, 18, 2, 196, 54, 145, 161, 151, 163, 214,
    122, 9, 89, 168, 110, 10, 13, 134, 140]

def secondClaimTag : Vector UInt8 32 :=
  #v[96, 254, 18, 7, 53, 56, 46, 7, 251, 95, 213, 62, 26, 45, 66, 182, 108, 182, 64, 1, 145, 102, 186, 126, 170,
    184, 110, 132, 44, 111, 250, 242]

def acceptedTag : Vector UInt8 32 :=
  #v[43, 123, 37, 116, 187, 101, 98, 186, 9, 3, 165, 79, 82, 246, 25, 228, 50, 205, 164, 130, 78, 31, 54, 217,
    223, 125, 17, 220, 186, 34, 172, 70]

def claimedTag : Vector UInt8 32 :=
  #v[154, 197, 31, 67, 168, 184, 21, 128, 161, 241, 165, 113, 203, 159, 49, 172, 13, 203, 68, 44, 215, 252, 146,
    208, 75, 190, 251, 160, 47, 106, 53, 200]

/-- The claim of an opener whose keys repeat one byte each. -/
def claimOf (derp quic : UInt8) (candidates : List (List UInt8)) (bearer : Vector UInt8 32) : Claim where
  version := 4
  sessionID := Vector.replicate 16 1
  bearerMAC := hexEncode bearer.toList
  derpPublic := Vector.replicate 32 derp
  quicPublic := Vector.replicate 32 quic
  parallel := 0
  candidates := candidates
  capabilities := 0
  client := none

def firstClaim : Claim := claimOf 4 6 [ascii "203.0.113.7:41641"] firstBearer

def secondClaim : Claim := claimOf 5 8 [] secondBearer

def acceptedDecision : Decision :=
  ⟨true, some ⟨4, Vector.replicate 16 1, 0, [ascii "198.51.100.2:7"], 0⟩, none⟩

def shareHmac : List UInt8 → List UInt8 → List UInt8 :=
  sessionHmac
    [(bearerText 4 (Vector.replicate 16 1) (Vector.replicate 32 4) (Vector.replicate 32 6) 0
        [ascii "203.0.113.7:41641"] 0, firstBearer),
      (bearerText 4 (Vector.replicate 16 1) (Vector.replicate 32 5) (Vector.replicate 32 8) 0 [] 0, secondBearer),
      (ascii "envelope" ++ (claimEnvelope firstClaim).text, firstClaimTag),
      (ascii "envelope" ++ (claimEnvelope secondClaim).text, secondClaimTag),
      (ascii "envelope" ++ (decisionEnvelope acceptedDecision).text, acceptedTag),
      (ascii "envelope" ++ (decisionEnvelope claimedDecision).text, claimedTag)]

/-- Two openers. -/
def sharing : ShareConfig Bool where
  hmac := shareHmac
  fakeTransport := false
  tok := sessionToken
  forceRelay := false
  derpPublic := fun second => Vector.replicate 32 (if second then 5 else 4)
  quicPublic := fun second => Vector.replicate 32 (if second then 8 else 6)
  candidates := fun second => if second then [] else [ascii "203.0.113.7:41641"]

instance (s : State Bool) : ∀ e, Decidable (sharing.Unforged s e)
  | .deliverToListener _ _ _ => inferInstanceAs (Decidable (∀ _ ∈ _, _ → _))
  | .deliverToOpener _ _ => inferInstanceAs (Decidable (∀ _ ∈ _, _ → _))
  | .sendClaim _ => isTrue trivial
  | .sendDecision => isTrue trivial
  | .listenerReturns => isTrue trivial
  | .openerFails _ => isTrue trivial
  | .signOther _ _ _ => isTrue trivial

instance (s : State Bool) : ∀ e, Decidable (sharing.Routed s e)
  | .deliverToOpener _ _ => inferInstanceAs (Decidable (∀ _ ∈ _, _ → _))
  | .deliverToListener _ _ _ => isTrue trivial
  | .sendClaim _ => isTrue trivial
  | .sendDecision => isTrue trivial
  | .listenerReturns => isTrue trivial
  | .openerFails _ => isTrue trivial
  | .signOther _ _ _ => isTrue trivial

def decisionPacket (decision : Decision) (tag : Vector UInt8 32) : Packet :=
  ⟨sessionToken.derpPublic, some { decisionEnvelope decision with mac := Base64.encodeToString tag.toList }⟩

def claimPacket (claim : Claim) (tag : Vector UInt8 32) : Packet :=
  ⟨claim.derpPublic, some { claimEnvelope claim with mac := Base64.encodeToString tag.toList }⟩

/-- Two openers send their claims, and the first claim arrives first.  The relay makes up an acceptance for
the second opener. -/
def shareEvents : List (Event Bool) :=
  [.sendClaim false, .sendClaim true,
    .deliverToListener (claimPacket firstClaim firstClaimTag) 1699999990 [ascii "198.51.100.2:7"], .sendDecision,
    .deliverToListener (claimPacket secondClaim secondClaimTag) 1699999991 [],
    .deliverToOpener true (decisionPacket acceptedDecision claimedTag),
    .deliverToOpener true (decisionPacket claimedDecision claimedTag),
    .deliverToOpener false (decisionPacket acceptedDecision acceptedTag)]

/-- The run, and what is assumed of it. -/
theorem shareEvents_run :
    (sharing.auth.envelopeEnabled = true ∧
      (runFrom sharing.step sharing.init shareEvents).map (fun s => (s.outcomes false, s.outcomes true)) =
        some (some (.accepted acceptedDecision), some (.rejected "session already claimed"))) ∧
    StepsMeet sharing.step (fun s e => sharing.Unforged s e ∧ sharing.Routed s e) sharing.init shareEvents := by
  decide +kernel

/-- The first opener has the session, and keeps it when the other claim comes again too late. -/
theorem share_exclusive_two_openers :
    ∃ s own, runFrom sharing.step sharing.init shareEvents = some s ∧
      s.outcomes false = some (.accepted acceptedDecision) ∧
      s.outcomes true = some (.rejected "session already claimed") ∧
      s.accepted = some (sharing.openClaim false, own) ∧
      ∀ t, sharing.step s (.deliverToListener (claimPacket secondClaim secondClaimTag) 1800000000 []) = some t →
        t.accepted = some (sharing.openClaim false, own) := by
  obtain ⟨⟨henabled, hrun⟩, hmeet⟩ := shareEvents_run
  obtain ⟨s, hs, hstate⟩ := Option.map_eq_some_iff.mp hrun
  obtain ⟨hfirst, hsecond⟩ := Prod.mk.inj hstate
  have hkeys : Function.Injective sharing.derpPublic := by decide +kernel
  have hunforged : StepsMeet sharing.step sharing.Unforged sharing.init shareEvents := hmeet.imp fun _ _ h => h.1
  have hrouted : StepsMeet sharing.step sharing.Routed sharing.init shareEvents := hmeet.imp fun _ _ h => h.2
  obtain ⟨-, -, -, hlate, -, hexclusive⟩ := share_exclusive henabled hs hunforged
  obtain ⟨⟨own, hown⟩, -⟩ := (hexclusive hrouted hkeys).1 false acceptedDecision hfirst
  refine ⟨s, own, hs, hfirst, hsecond, hown, fun t ht => ?_⟩
  exact (hlate _ _ _ t (by decide) ht).1.trans hown

end ShareConfig

end Share

end Session
