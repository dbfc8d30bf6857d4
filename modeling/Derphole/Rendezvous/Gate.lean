import Derphole.Derptun.Token

/-!
# Rendezvous gates

`Gate` of `pkg/rendezvous/state.go` with `validateClaimForToken` of `pkg/rendezvous/durable_gate.go`:
the checks that a claim passes before a session is given to it.

The keyed hash, the text that is hashed and the parser of addresses are parameters.
-/

namespace Rendezvous

open Lib Derptun

/-- What the checks of a claim use of other packages: the keyed hash, the JSON text under the bearer
MAC, and whether a candidate is an address in its canonical spelling that a peer may advertise. -/
structure Codec where
  hmac : List UInt8 → List UInt8 → List UInt8
  claimText : UInt8 → Vector UInt8 16 → Vector UInt8 32 → Vector UInt8 32 → Int →
    List (List UInt8) → UInt32 → List UInt8
  validPeerAddrPort : List UInt8 → Bool

structure Claim where
  version : UInt8
  sessionID : Vector UInt8 16
  bearerMAC : List UInt8
  derpPublic : Vector UInt8 32
  quicPublic : Vector UInt8 32
  parallel : Int
  candidates : List (List UInt8)
  capabilities : UInt32
  client : Option ClientProof
  deriving DecidableEq

/-- What a gate reads of the session token. -/
structure Token where
  version : UInt8
  sessionID : Vector UInt8 16
  expiresUnix : Int64
  bearerSecret : Vector UInt8 32
  capabilities : UInt32
  deriving DecidableEq

structure AcceptInfo where
  version : UInt8
  sessionID : Vector UInt8 16
  parallel : Int
  candidates : List (List UInt8)
  capabilities : UInt32
  deriving DecidableEq

inductive RejectCode where
  | rejectExpired
  | rejectClaimed
  | rejectVersionMismatch
  | rejectSessionMismatch
  | rejectBadMAC
  | rejectCapabilities
  | rejectClaimMalformed
  deriving DecidableEq

structure RejectInfo where
  code : RejectCode
  reason : String
  deriving DecidableEq

structure Decision where
  accepted : Bool
  accept : Option AcceptInfo
  reject : Option RejectInfo
  deriving DecidableEq

inductive AcceptError where
  | errExpired
  | errClaimed
  | errDenied
  deriving DecidableEq

def rejection (code : RejectCode) (reason : String) : Decision := ⟨false, none, some ⟨code, reason⟩⟩

/-- `candidate.MaxCount`. -/
def maxCount : Nat := 32

/-- `candidate.MaxLength`. -/
def maxLength : Nat := 128

section

variable (codec : Codec)

/-- An accepted candidate equals its canonical spelling, so comparing those compares the strings. -/
def validCandidates (candidates : List (List UInt8)) : Bool :=
  decide (candidates.length ≤ maxCount) &&
    candidates.all (fun value =>
      decide (value ≠ [] ∧ value.length ≤ maxLength) && codec.validPeerAddrPort value) &&
    decide candidates.Nodup

def computeBearerMAC (secret : Vector UInt8 32) (claim : Claim) : List UInt8 :=
  hexEncode (codec.hmac secret.toList (codec.claimText claim.version claim.sessionID claim.derpPublic
    claim.quicPublic claim.parallel claim.candidates claim.capabilities))

def validBearerMAC (secret : Vector UInt8 32) (claim : Claim) : Bool :=
  match hexDecode claim.bearerMAC with
  | none => false
  | some got =>
      match hexDecode (computeBearerMAC codec secret claim) with
      | none => false
      | some want => got == want

def validateClaimForToken (tok : Token) (claim : Claim) : Decision × Option AcceptError :=
  if claim.version ≠ tok.version then
    (rejection .rejectVersionMismatch "version mismatch", some .errDenied)
  else if claim.sessionID ≠ tok.sessionID then
    (rejection .rejectSessionMismatch "session mismatch", some .errDenied)
  else if !validBearerMAC codec tok.bearerSecret claim then
    (rejection .rejectBadMAC "bad bearer mac", some .errDenied)
  else if claim.capabilities ≠ tok.capabilities then
    (rejection .rejectCapabilities "capabilities mismatch", some .errDenied)
  else if claim.derpPublic = Vector.replicate 32 0 ∨ claim.quicPublic = Vector.replicate 32 0 ∨
      validCandidates codec claim.candidates = false then
    (rejection .rejectClaimMalformed "claim malformed", some .errDenied)
  else
    (⟨true,
      some
        { version := tok.version
          sessionID := tok.sessionID
          parallel := claim.parallel
          candidates := claim.candidates
          capabilities := claim.capabilities },
      none⟩, none)

structure Gate where
  token : Token
  claim : Option Claim

def newGate (tok : Token) : Gate := ⟨tok, none⟩

/-- `sameClaim`: all but the client proof. -/
def sameClaim (a b : Claim) : Bool :=
  decide (a.version = b.version ∧ a.sessionID = b.sessionID ∧ a.bearerMAC = b.bearerMAC ∧
    a.derpPublic = b.derpPublic ∧ a.quicPublic = b.quicPublic ∧ a.parallel = b.parallel ∧
    a.capabilities = b.capabilities ∧ a.candidates = b.candidates)

def Gate.accept (g : Gate) (now : Int) (claim : Claim) : Gate × Decision × Option AcceptError :=
  if now ≥ g.token.expiresUnix.toInt then
    (g, rejection .rejectExpired "token expired", some .errExpired)
  else
    match validateClaimForToken codec g.token claim with
    | (decision, some err) => (g, decision, some err)
    | (decision, none) =>
        match g.claim with
        | some stored =>
            if sameClaim stored claim then (g, decision, none)
            else (g, rejection .rejectClaimed "session already claimed", some .errClaimed)
        | none => ({ g with claim := some claim }, decision, none)

end

section

variable {codec : Codec} {tok : Token} {claim : Claim} {decision : Decision}

/-- A decision without an error is an acceptance, and one with an error is not. -/
theorem validateClaimForToken_accepted {err : Option AcceptError}
    (h : validateClaimForToken codec tok claim = (decision, err)) :
    decision.accepted = err.isNone := by
  simp only [validateClaimForToken] at h
  split at h
  · cases h; rfl
  split at h
  · cases h; rfl
  split at h
  · cases h; rfl
  split at h
  · cases h; rfl
  split at h
  · cases h; rfl
  · cases h; rfl

theorem Gate.accept_unclaimed {g g' : Gate} {now : Int} {err : Option AcceptError}
    (hnone : g.claim = none) (h : g.accept codec now claim = (g', decision, err)) :
    decision.accepted = err.isNone := by
  simp only [Gate.accept, hnone] at h
  split at h
  next =>
    cases h
    rfl
  next =>
    split at h
    next hval =>
      cases h
      exact validateClaimForToken_accepted hval
    next hval =>
      cases h
      exact validateClaimForToken_accepted hval

end

end Rendezvous
