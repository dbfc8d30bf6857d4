import Derphole.Lib.Codec
import Derphole.Lib.Text

/-!
# Client credentials

`pkg/derptun/token.go` and `derptunServerTokenForClaim` of `pkg/session/derptun.go`.  The keyed hash
is a parameter `hmac key input`.  The proof of a credential covers its fields without separators, so
what has to be shown is that the name, the keys and the expiry can be told apart in the input.

A Go string is the list of its bytes.  Tokens as JSON text, and how private keys give public keys, are
not part of the model.
-/

namespace Derptun

open Lib

structure ClientCredential where
  version : Int
  sessionID : Vector UInt8 16
  clientID : Vector UInt8 16
  tokenID : Vector UInt8 16
  clientName : List UInt8
  expiresUnix : Int64
  derpPublic : Vector UInt8 32
  quicPublic : Vector UInt8 32
  bearerSecret : Vector UInt8 32
  proofMAC : List UInt8
  deriving DecidableEq

inductive TokenError where
  | errExpired
  | errInvalidToken
  deriving DecidableEq

/-- `TokenVersion`. -/
def tokenVersion : Int := 1

/-- `now` is in seconds, read from the clock where the caller gave no time. -/
def expired (now : Int) (expiresUnix : Int64) : Bool := decide (now ≥ expiresUnix.toInt)

/-- What `computeClientProofMAC` writes into the hash. -/
def proofInput (client : ClientCredential) : List UInt8 :=
  ascii "derptun-client-proof-v1" ++ (client.sessionID.toList ++ (client.clientID.toList ++
    (client.tokenID.toList ++ (client.clientName ++
      (client.derpPublic.toList ++ client.quicPublic.toList ++ client.bearerSecret.toList) ++
      decimal client.expiresUnix.toInt))))

section

variable (hmac : List UInt8 → List UInt8 → List UInt8)

def deriveClientBearerSecret (secret : Vector UInt8 32) (clientID : Vector UInt8 16) :
    Vector UInt8 32 :=
  copyInto 32 (hmac secret.toList (ascii "derptun-client-bearer-v1" ++ clientID.toList))

def computeClientProofMAC (secret : Vector UInt8 32) (client : ClientCredential) : List UInt8 :=
  hexEncode (hmac secret.toList (proofInput client))

def validClientProofMAC (secret : Vector UInt8 32) (client : ClientCredential) : Bool :=
  match hexDecode client.proofMAC with
  | none => false
  | some got =>
      match hexDecode (computeClientProofMAC hmac secret client) with
      | none => false
      | some want => got == want

def verifyClientCredential (secret : Vector UInt8 32) (client : ClientCredential) (now : Int) :
    Except TokenError Unit :=
  if expired now client.expiresUnix then .error .errExpired
  else if client.bearerSecret ≠ deriveClientBearerSecret hmac secret client.clientID then
    .error .errInvalidToken
  else if !validClientProofMAC hmac secret client then .error .errInvalidToken
  else .ok ()

end

/-! ## What a valid credential says -/

section

variable {hmac : List UInt8 → List UInt8 → List UInt8} {secret : Vector UInt8 32}

theorem verifyClientCredential_ok {client : ClientCredential} {now : Int}
    (h : verifyClientCredential hmac secret client now = .ok ()) :
    client.bearerSecret = deriveClientBearerSecret hmac secret client.clientID ∧
      hexDecode client.proofMAC = some (hmac secret.toList (proofInput client)) := by
  unfold verifyClientCredential at h
  split at h
  · cases h
  · split at h
    · cases h
    · next hbearer =>
        split at h
        · cases h
        · next hmacOk =>
            refine ⟨not_not.mp hbearer, ?_⟩
            unfold validClientProofMAC computeClientProofMAC at hmacOk
            rw [hexDecode_hexEncode] at hmacOk
            cases hgot : hexDecode client.proofMAC with
            | none => simp [hgot] at hmacOk
            | some got =>
                simp only [hgot, Bool.not_eq_true', Bool.not_eq_false, beq_iff_eq] at hmacOk
                rw [hmacOk]

/-- The fields of fixed size at the front of the input. -/
theorem proofInput_ids {c₁ c₂ : ClientCredential} (h : proofInput c₁ = proofInput c₂) :
    c₁.sessionID = c₂.sessionID ∧ c₁.clientID = c₂.clientID ∧ c₁.tokenID = c₂.tokenID ∧
      c₁.clientName ++ (c₁.derpPublic.toList ++ c₁.quicPublic.toList ++ c₁.bearerSecret.toList) ++
          decimal c₁.expiresUnix.toInt =
        c₂.clientName ++ (c₂.derpPublic.toList ++ c₂.quicPublic.toList ++ c₂.bearerSecret.toList) ++
          decimal c₂.expiresUnix.toInt := by
  unfold proofInput at h
  obtain ⟨hs, h⟩ := List.append_inj (List.append_cancel_left h) (by simp only [Vector.length_toList])
  obtain ⟨hc, h⟩ := List.append_inj h (by simp only [Vector.length_toList])
  obtain ⟨ht, h⟩ := List.append_inj h (by simp only [Vector.length_toList])
  exact ⟨Vector.toList_inj.mp hs, Vector.toList_inj.mp hc, Vector.toList_inj.mp ht, h⟩

/-- The last byte of the keys that no number has marks where the expiry starts. -/
theorem proofInput_name_expires {c₁ c₂ : ClientCredential} (h : proofInput c₁ = proofInput c₂)
    (hderp : c₁.derpPublic = c₂.derpPublic) (hquic : c₁.quicPublic = c₂.quicPublic)
    (hbearer : c₁.bearerSecret = c₂.bearerSecret)
    (hbyte : ∃ b ∈ c₁.bearerSecret.toList, isDecimalByte b = false) :
    c₁.clientName = c₂.clientName ∧ c₁.expiresUnix = c₂.expiresUnix := by
  have htail := (proofInput_ids h).2.2.2
  rw [← hderp, ← hquic, ← hbearer] at htail
  have hkey : ∃ b ∈ c₁.derpPublic.toList ++ c₁.quicPublic.toList ++ c₁.bearerSecret.toList,
      isDecimalByte b = false := by
    obtain ⟨b, hb, hd⟩ := hbyte
    exact ⟨b, List.mem_append_right _ hb, hd⟩
  obtain ⟨hname, hexp⟩ := append_key_append_inj hkey
    (fun _ h => isDecimalByte_of_mem_decimal h) (fun _ h => isDecimalByte_of_mem_decimal h) htail
  exact ⟨hname, Int64.toInt_inj.mp (decimal_injective hexp)⟩

theorem credential_agrees (hinj : ∀ key, Function.Injective (hmac key))
    {c₁ c₂ : ClientCredential} {now₁ now₂ : Int}
    (h₁ : verifyClientCredential hmac secret c₁ now₁ = .ok ())
    (h₂ : verifyClientCredential hmac secret c₂ now₂ = .ok ())
    (hderp : c₁.derpPublic = c₂.derpPublic) (hquic : c₁.quicPublic = c₂.quicPublic)
    (hproof : c₁.proofMAC = c₂.proofMAC)
    (hbyte : ∃ b ∈ (deriveClientBearerSecret hmac secret c₁.clientID).toList,
      isDecimalByte b = false) :
    c₁ = { c₂ with version := c₁.version } := by
  obtain ⟨hb₁, hp₁⟩ := verifyClientCredential_ok h₁
  obtain ⟨hb₂, hp₂⟩ := verifyClientCredential_ok h₂
  rw [hproof, hp₂] at hp₁
  have hinput : proofInput c₁ = proofInput c₂ := (hinj _ (Option.some.inj hp₁)).symm
  obtain ⟨hsession, hclient, htoken, -⟩ := proofInput_ids hinput
  have hbearer : c₁.bearerSecret = c₂.bearerSecret := by
    rw [hb₁, hb₂, hclient]
  obtain ⟨hname, hexpires⟩ := proofInput_name_expires hinput hderp hquic hbearer (hb₁ ▸ hbyte)
  cases c₁
  cases c₂
  simp only at hsession hclient htoken hname hexpires hderp hquic hbearer hproof
  simp only [hsession, hclient, htoken, hname, hexpires, hderp, hquic, hbearer, hproof]

/-- Two credentials with one proof, valid under one secret and for the keys of one server, differ in
their version at most. -/
theorem client_credential_binding (hmac : List UInt8 → List UInt8 → List UInt8)
    (hinj : ∀ key, Function.Injective (hmac key)) (secret : Vector UInt8 32)
    (c₁ c₂ : ClientCredential) (now₁ now₂ : Int)
    (h₁ : verifyClientCredential hmac secret c₁ now₁ = .ok ())
    (h₂ : verifyClientCredential hmac secret c₂ now₂ = .ok ())
    (hderp : c₁.derpPublic = c₂.derpPublic) (hquic : c₁.quicPublic = c₂.quicPublic)
    (hproof : c₁.proofMAC = c₂.proofMAC)
    (hbyte : ∃ b ∈ (deriveClientBearerSecret hmac secret c₁.clientID).toList,
      isDecimalByte b = false) :
    c₁ = { c₂ with version := c₁.version } :=
  credential_agrees hinj h₁ h₂ hderp hquic hproof hbyte

end

/-! ## Claims -/

/-- `rendezvous.ClientProof`. -/
structure ClientProof where
  clientID : Vector UInt8 16
  tokenID : Vector UInt8 16
  clientName : List UInt8
  expiresUnix : Int64
  proofMAC : List UInt8
  deriving DecidableEq

/-- What `derptunServerTokenForClaim` reads of a `rendezvous.Claim`. -/
structure TokenClaim where
  sessionID : Vector UInt8 16
  client : Option ClientProof
  deriving DecidableEq

/-- A server credential with the public keys that `SessionToken` derives from its private keys, if
they are well formed. -/
structure ServerCredential where
  sessionID : Vector UInt8 16
  expiresUnix : Int64
  signingSecret : Vector UInt8 32
  publicKeys : Option (Vector UInt8 32 × Vector UInt8 32)

inductive RejectCode where
  | rejectExpired
  | rejectBadMAC
  | rejectClaimMalformed
  deriving DecidableEq

structure RejectInfo where
  code : RejectCode
  reason : String
  deriving DecidableEq

/-- The fields of the session token that depend on the claim. -/
structure SessionToken where
  sessionID : Vector UInt8 16
  derpPublic : Vector UInt8 32
  quicPublic : Vector UInt8 32
  bearerSecret : Vector UInt8 32
  expiresUnix : Int64
  deriving DecidableEq

section

variable (hmac : List UInt8 → List UInt8 → List UInt8)

/-- The credential that the server rebuilds from a claim. -/
def clientForClaim (server : ServerCredential) (derpPublic quicPublic : Vector UInt8 32)
    (sessionID : Vector UInt8 16) (client : ClientProof) : ClientCredential where
  version := tokenVersion
  sessionID := sessionID
  clientID := client.clientID
  tokenID := client.tokenID
  clientName := client.clientName
  expiresUnix := client.expiresUnix
  derpPublic := derpPublic
  quicPublic := quicPublic
  bearerSecret := deriveClientBearerSecret hmac server.signingSecret client.clientID
  proofMAC := client.proofMAC

/-- An error without a decision is `none`. -/
def derptunServerTokenForClaim (server : ServerCredential) (claim : TokenClaim) (now : Int) :
    Except (Option RejectInfo) SessionToken :=
  if now ≥ server.expiresUnix.toInt then
    .error (some ⟨.rejectExpired, "server token expired"⟩)
  else
    match claim.client with
    | none => .error (some ⟨.rejectClaimMalformed, "client proof missing"⟩)
    | some proof =>
        if proof.expiresUnix.toInt > server.expiresUnix.toInt then
          .error (some ⟨.rejectExpired, "client expiry exceeds server expiry"⟩)
        else
          match server.publicKeys with
          | none => .error none
          | some (derpPublic, quicPublic) =>
              let client := clientForClaim hmac server derpPublic quicPublic claim.sessionID proof
              match verifyClientCredential hmac server.signingSecret client now with
              | .error .errExpired => .error (some ⟨.rejectExpired, "client token expired"⟩)
              | .error .errInvalidToken => .error (some ⟨.rejectBadMAC, "client proof invalid"⟩)
              | .ok () =>
                  .ok
                    { sessionID := server.sessionID
                      derpPublic := derpPublic
                      quicPublic := quicPublic
                      bearerSecret := client.bearerSecret
                      expiresUnix := client.expiresUnix }

end

/-! ## A credential -/

def sampleSecret : Vector UInt8 32 := Vector.replicate 32 7

/-- Its bearer secret and its proof are those of the keyed SHA-256 hash. -/
def sampleCredential : ClientCredential where
  version := tokenVersion
  sessionID := Vector.replicate 16 1
  clientID := Vector.replicate 16 5
  tokenID := Vector.replicate 16 6
  clientName := ascii "client-05050505"
  expiresUnix := 1700000000
  derpPublic := Vector.replicate 32 2
  quicPublic := Vector.replicate 32 3
  bearerSecret := #v[247, 74, 209, 103, 193, 247, 178, 165, 9, 102, 219, 122, 116, 29, 129, 20, 218, 62,
    247, 49, 55, 235, 219, 36, 126, 247, 57, 29, 196, 18, 109, 236]
  proofMAC := ascii "4fb1d0f5640c0cb6ff7493c3771190eecedee47c7366070d95d87828a20526f9"

/-- The keyed SHA-256 hash on the two inputs of the sample, and some longer text elsewhere. -/
def sampleHmac (_key input : List UInt8) : List UInt8 :=
  if input = ascii "derptun-client-bearer-v1" ++ sampleCredential.clientID.toList then
    sampleCredential.bearerSecret.toList
  else if input = proofInput sampleCredential then
    (hexDecode sampleCredential.proofMAC).getD []
  else List.replicate 33 0 ++ input

theorem sampleHmac_injective (key : List UInt8) : Function.Injective (sampleHmac key) := by
  have hlen : ∀ input : List UInt8, (List.replicate 33 0 ++ input).length ≠ 32 := by
    intro input h
    simp at h
  have hbearer : sampleCredential.bearerSecret.toList.length = 32 := by decide
  have hproof : ((hexDecode sampleCredential.proofMAC).getD []).length = 32 := by decide +kernel
  have hne : sampleCredential.bearerSecret.toList ≠ (hexDecode sampleCredential.proofMAC).getD [] := by
    decide +kernel
  intro a b h
  unfold sampleHmac at h
  split at h
  · next ha =>
      split at h
      · next hb => rw [ha, hb]
      · split at h
        · exact absurd h hne
        · exact absurd (h ▸ hbearer) (hlen b)
  · split at h
    · next ha =>
        split at h
        · exact absurd h.symm hne
        · split at h
          · next hb => rw [ha, hb]
          · exact absurd (h ▸ hproof) (hlen b)
    · split at h
      · exact absurd (h ▸ hbearer) (hlen a)
      · split at h
        · exact absurd (h ▸ hproof) (hlen a)
        · exact List.append_cancel_left h

theorem sampleCredential_verifies :
    verifyClientCredential sampleHmac sampleSecret sampleCredential 1600000000 = .ok () := by
  decide +kernel

theorem sampleCredential_not_decimal :
    ∃ b ∈ (deriveClientBearerSecret sampleHmac sampleSecret sampleCredential.clientID).toList,
      isDecimalByte b = false :=
  ⟨247, by decide +kernel, by decide⟩

/-- The sample and the sample with another version. -/
theorem client_credential_binding_sample :
    sampleCredential = { { sampleCredential with version := 2 } with version := 1 } ∧
      verifyClientCredential sampleHmac sampleSecret sampleCredential 1600000000 = .ok () := by
  have h₂ : verifyClientCredential sampleHmac sampleSecret { sampleCredential with version := 2 }
      1650000000 = .ok () := by
    decide +kernel
  exact ⟨client_credential_binding sampleHmac sampleHmac_injective sampleSecret sampleCredential
    { sampleCredential with version := 2 } 1600000000 1650000000 sampleCredential_verifies h₂ rfl rfl rfl
    sampleCredential_not_decimal, sampleCredential_verifies⟩

/-- The version is neither hashed nor checked. -/
theorem client_credential_version_free :
    (∀ key, Function.Injective (sampleHmac key)) ∧
      verifyClientCredential sampleHmac sampleSecret sampleCredential 1600000000 = .ok () ∧
      verifyClientCredential sampleHmac sampleSecret { sampleCredential with version := 2 }
        1600000000 = .ok () ∧
      (∃ b ∈ (deriveClientBearerSecret sampleHmac sampleSecret sampleCredential.clientID).toList,
        isDecimalByte b = false) ∧
      sampleCredential ≠ { sampleCredential with version := 2 } :=
  ⟨sampleHmac_injective, sampleCredential_verifies, by decide +kernel, sampleCredential_not_decimal,
    by decide⟩

end Derptun
