import Derphole.Lib.Base64
import Derphole.Lib.Codec
import Derphole.Lib.Text
import Derphole.Token.SessionToken

/-!
# Authenticated envelopes

The keys of `pkg/session/external_control_security.go` and the tags on the envelopes of a session.  The
keyed hash is a parameter `hmac key input`.

The messages of a session are members of one type of envelope.  Each module that has envelopes models the
members that its functions read, so what is signed is here the text of an envelope: its JSON with an empty tag.
-/

namespace Session

open Lib

structure ExternalPeerControlAuth where
  heartbeatKey : Vector UInt8 32
  envelopeKey : Vector UInt8 32
  deriving DecidableEq

def ExternalPeerControlAuth.heartbeatEnabled (auth : ExternalPeerControlAuth) : Bool :=
  auth.heartbeatKey != Vector.replicate 32 0

def ExternalPeerControlAuth.envelopeEnabled (auth : ExternalPeerControlAuth) : Bool :=
  auth.envelopeKey != Vector.replicate 32 0

section

variable (hmac : List UInt8 → List UInt8 → List UInt8)

def externalSessionSubkey (tok : SessionToken.Token) (label : String) : Vector UInt8 32 :=
  copyInto 32 (hmac tok.bearerSecret.toList (ascii label ++ tok.sessionID.toList))

def externalPeerControlAuthForToken (tok : SessionToken.Token) : ExternalPeerControlAuth where
  heartbeatKey := externalSessionSubkey hmac tok "derphole-peer-heartbeat-v1"
  envelopeKey := externalSessionSubkey hmac tok "derphole-control-envelope-v1"

def externalEnvelopeMAC (auth : ExternalPeerControlAuth) (text : List UInt8) : List UInt8 :=
  Base64.encodeToString (hmac auth.envelopeKey.toList (ascii "envelope" ++ text))

/-- The tag that an envelope has after it was signed. -/
def signEnvelopeMAC (mac text : List UInt8) (auth : ExternalPeerControlAuth) : List UInt8 :=
  if !auth.envelopeEnabled then mac else externalEnvelopeMAC hmac auth text

def verifyEnvelopeMAC (mac text : List UInt8) (auth : ExternalPeerControlAuth) : Bool :=
  if !auth.envelopeEnabled then true
  else if mac = [] then false
  else mac == externalEnvelopeMAC hmac auth text

end

/-- With a key, only signed envelopes are taken. -/
theorem mac_of_verifyEnvelopeMAC {hmac : List UInt8 → List UInt8 → List UInt8} {auth : ExternalPeerControlAuth}
    (henabled : auth.envelopeEnabled = true) {mac text : List UInt8}
    (h : verifyEnvelopeMAC hmac mac text auth = true) : mac = externalEnvelopeMAC hmac auth text := by
  simp only [verifyEnvelopeMAC, henabled, Bool.not_true, Bool.false_eq_true, if_false] at h
  split at h
  · cases h
  · exact beq_iff_eq.mp h

/-! ## A session -/

def sessionToken : SessionToken.Token where
  version := 4
  sessionID := Vector.replicate 16 1
  expiresUnix := 1700000000
  bootstrapRegion := 1
  derpPublic := Vector.replicate 32 2
  quicPublic := Vector.replicate 32 3
  bearerSecret := Vector.replicate 32 7
  capabilities := 0
  bootstrapIP := Vector.replicate 16 0
  bootstrapPort := 0
  bootstrapFamily := 0

/-- The keyed SHA-256 hashes of the labels of the two keys with the secret of `sessionToken`. -/
def labelHashes : List (List UInt8 × Vector UInt8 32) :=
  [(ascii "derphole-peer-heartbeat-v1" ++ List.replicate 16 1,
    #v[244, 205, 98, 244, 58, 154, 232, 126, 190, 188, 113, 30, 0, 192, 131, 216, 43, 56, 176, 26, 75, 187, 5,
      4, 168, 8, 56, 149, 113, 208, 37, 45]),
    (ascii "derphole-control-envelope-v1" ++ List.replicate 16 1,
    #v[80, 218, 186, 61, 233, 91, 145, 54, 235, 145, 108, 74, 58, 142, 214, 36, 66, 1, 38, 138, 55, 76, 30, 141,
      217, 221, 34, 41, 168, 77, 94, 223])]

/-- The keyed hash in that session, of the labels and of the texts in the rows.  No text is hashed with two keys,
so a row does not say its key. -/
def sessionHmac (rows : List (List UInt8 × Vector UInt8 32)) (_key input : List UInt8) : List UInt8 :=
  (((labelHashes ++ rows).lookup input).getD (Vector.replicate 32 0)).toList

theorem length_sessionHmac (rows : List (List UInt8 × Vector UInt8 32)) (key input : List UInt8) :
    (sessionHmac rows key input).length = 32 := Vector.length_toList

end Session
