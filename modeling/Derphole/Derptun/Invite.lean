import Derphole.Derptun.Token
import Derphole.Lib.Base64
import Derphole.Lib.BigEndian
import Derphole.Lib.Codec
import Derphole.Lib.Json
import Derphole.Lib.PairRadix

/-!
# Compact invites

`pkg/derptun/invite.go`, with `DecodeClientToken` of `pkg/derptun/token.go`.  An invite is the client
credential at fixed places of 186 bytes, written with an alphabet of 41 characters; the name is left
out and made again from the client ID.  How JSON text gives a credential is a parameter.
-/

namespace Derptun

open Lib

def clientTokenPrefix : List UInt8 := ascii "dtc1_"

def compactInvitePrefix : List UInt8 := ascii "DT1"

def compactInviteRawLen : Nat := 186

def compactInvitePayloadLen : Nat := 279

def compactInviteVersion : UInt8 := 1

def compactInviteKindTCP : UInt8 := 1

def compactInviteAlphabet : List UInt8 := ascii "0123456789ABCDEFGHIJKLMNOPQRSTUVWXYZ+-./:"

inductive InviteError where
  | errExpired
  | errInvalidToken
  /-- `base64.CorruptInputError`. -/
  | base64
  /-- An error of `json.Unmarshal`. -/
  | json
  deriving DecidableEq

def clientNameForID (clientID : Vector UInt8 16) : List UInt8 :=
  ascii "client-" ++ hexEncode (clientID.toList.take 4)

def validProofMACHex (value : List UInt8) : Bool :=
  match hexDecode value with
  | some raw => raw.length == 32
  | none => false

/-- A field that the checks compare with zeros. -/
def isZero {n : Nat} (v : Vector UInt8 n) : Bool := v == Vector.replicate n 0

/-- The checks that a token and an invite have in common. -/
def missingField (cred : ClientCredential) : Bool :=
  isZero cred.sessionID || isZero cred.clientID || isZero cred.tokenID || isZero cred.derpPublic ||
    isZero cred.quicPublic || isZero cred.bearerSecret || !validProofMACHex cred.proofMAC

section

variable (unmarshal : List UInt8 → Option ClientCredential)

def decodeJSONToken (encoded tokenPrefix : List UInt8) : Except InviteError ClientCredential :=
  if encoded.length ≤ tokenPrefix.length ∨ encoded.take tokenPrefix.length ≠ tokenPrefix then
    .error .errInvalidToken
  else
    match Base64.decodeString (encoded.drop tokenPrefix.length) with
    | none => .error .base64
    | some raw =>
        match unmarshal raw with
        | none => .error .json
        | some cred => .ok cred

def decodeClientToken (encoded : List UInt8) (now : Int) : Except InviteError ClientCredential := do
  let cred ← decodeJSONToken unmarshal encoded clientTokenPrefix
  if cred.version ≠ tokenVersion ∨ cred.clientName = [] ∨ missingField cred then .error .errInvalidToken
  else if expired now cred.expiresUnix then .error .errExpired
  else .ok cred

def compactInviteEncode (raw : List UInt8) : List UInt8 := PairRadix.encode compactInviteAlphabet raw

def compactInviteDecode (encoded : List UInt8) : Option (List UInt8) :=
  if encoded.length % 3 = 1 then none else PairRadix.decode compactInviteAlphabet encoded

/-- The bytes of an invite. -/
def inviteRaw (cred : ClientCredential) (proofMAC : List UInt8) : List UInt8 :=
  compactInviteVersion :: compactInviteKindTCP :: (cred.sessionID.toList ++ (cred.clientID.toList ++
    (cred.tokenID.toList ++ (Codec.int64.write cred.expiresUnix ++ (cred.derpPublic.toList ++
      (cred.quicPublic.toList ++ (cred.bearerSecret.toList ++ proofMAC)))))))

def encodeClientInvite (clientToken : List UInt8) (now : Int) : Except InviteError (List UInt8) := do
  let cred ← decodeClientToken unmarshal clientToken now
  if cred.clientName ≠ clientNameForID cred.clientID then .error .errInvalidToken
  else
    match hexDecode cred.proofMAC with
    | none => .error .errInvalidToken
    | some proofMAC =>
        if proofMAC.length ≠ 32 then .error .errInvalidToken
        else .ok (compactInvitePrefix ++ compactInviteEncode (inviteRaw cred proofMAC))

end

/-- The bytes from one offset up to another. -/
def bytesFrom (raw : List UInt8) (start stop : Nat) : List UInt8 := (raw.drop start).take (stop - start)

/-- The credential that the bytes give. -/
def inviteCredential (raw : List UInt8) : ClientCredential where
  version := tokenVersion
  sessionID := copyInto 16 (bytesFrom raw 2 18)
  clientID := copyInto 16 (bytesFrom raw 18 34)
  tokenID := copyInto 16 (bytesFrom raw 34 50)
  clientName := clientNameForID (copyInto 16 (bytesFrom raw 18 34))
  expiresUnix := Codec.int64.ofBytes (bytesFrom raw 50 58)
  derpPublic := copyInto 32 (bytesFrom raw 58 90)
  quicPublic := copyInto 32 (bytesFrom raw 90 122)
  bearerSecret := copyInto 32 (bytesFrom raw 122 154)
  proofMAC := hexEncode (raw.drop 154)

def decodeClientInvite (invite : List UInt8) (now : Int) : Except InviteError ClientCredential :=
  if invite.length ≤ compactInvitePrefix.length ∨ invite.take 3 ≠ compactInvitePrefix then
    .error .errInvalidToken
  else
    let encoded := invite.drop 3
    if encoded.length ≠ compactInvitePayloadLen then .error .errInvalidToken
    else
      match compactInviteDecode encoded with
      | none => .error .errInvalidToken
      | some raw =>
          if raw.length ≠ compactInviteRawLen ∨ raw.getD 0 0 ≠ compactInviteVersion ∨
              raw.getD 1 0 ≠ compactInviteKindTCP then
            .error .errInvalidToken
          else
            let cred := inviteCredential raw
            if missingField cred then .error .errInvalidToken
            else if expired now cred.expiresUnix then .error .errExpired
            else .ok cred

/-! ## Both directions -/

theorem enough_compactInviteAlphabet : PairRadix.Enough compactInviteAlphabet :=
  ⟨by decide +kernel, by decide +kernel, by decide +kernel⟩

section

variable {raw : List UInt8}

theorem length_bytesFrom {start stop : Nat} (h : start ≤ stop) (hstop : stop ≤ raw.length) :
    (bytesFrom raw start stop).length = stop - start := by
  rw [bytesFrom, List.length_take, List.length_drop]
  omega

/-- A section and what is behind it. -/
theorem bytesFrom_append_drop {start stop : Nat} (h : start ≤ stop) :
    bytesFrom raw start stop ++ raw.drop stop = raw.drop start := by
  have hdrop : raw.drop stop = (raw.drop start).drop (stop - start) := by
    rw [List.drop_drop, Nat.add_sub_cancel' h]
  rw [bytesFrom, hdrop, List.take_append_drop]

end

theorem length_inviteRaw (cred : ClientCredential) {proofMAC : List UInt8} (h : proofMAC.length = 32) :
    (inviteRaw cred proofMAC).length = compactInviteRawLen := by
  simp [inviteRaw, compactInviteRawLen, h]

/-- The fields are read where they were written. -/
theorem inviteCredential_inviteRaw (cred : ClientCredential) (proofMAC : List UInt8) :
    inviteCredential (inviteRaw cred proofMAC) =
      { cred with
        version := tokenVersion
        clientName := clientNameForID cred.clientID
        proofMAC := hexEncode proofMAC } := by
  have hsession : bytesFrom (inviteRaw cred proofMAC) 2 18 = cred.sessionID.toList := by
    simp [inviteRaw, bytesFrom]
  have hclient : bytesFrom (inviteRaw cred proofMAC) 18 34 = cred.clientID.toList := by
    simp [inviteRaw, bytesFrom]
  have htoken : bytesFrom (inviteRaw cred proofMAC) 34 50 = cred.tokenID.toList := by
    simp [inviteRaw, bytesFrom, List.drop_append, List.drop_eq_nil_of_le]
  have hexpiry : bytesFrom (inviteRaw cred proofMAC) 50 58 = Codec.int64.write cred.expiresUnix := by
    simp [inviteRaw, bytesFrom, List.drop_append, List.drop_eq_nil_of_le]
  have hderp : bytesFrom (inviteRaw cred proofMAC) 58 90 = cred.derpPublic.toList := by
    simp [inviteRaw, bytesFrom, List.drop_append, List.drop_eq_nil_of_le]
  have hquic : bytesFrom (inviteRaw cred proofMAC) 90 122 = cred.quicPublic.toList := by
    simp [inviteRaw, bytesFrom, List.drop_append, List.drop_eq_nil_of_le]
  have hbearer : bytesFrom (inviteRaw cred proofMAC) 122 154 = cred.bearerSecret.toList := by
    simp [inviteRaw, bytesFrom, List.drop_append, List.drop_eq_nil_of_le]
  have hproof : (inviteRaw cred proofMAC).drop 154 = proofMAC := by
    simp [inviteRaw, List.drop_append, List.drop_eq_nil_of_le]
  rw [inviteCredential, hsession, hclient, htoken, hexpiry, hderp, hquic, hbearer, hproof]
  simp only [copyInto_toList, Codec.ofBytes_write]

/-- Nothing of the bytes is lost. -/
theorem inviteRaw_inviteCredential {raw : List UInt8} (hlength : raw.length = compactInviteRawLen)
    (hversion : raw.getD 0 0 = compactInviteVersion) (hkind : raw.getD 1 0 = compactInviteKindTCP) :
    inviteRaw (inviteCredential raw) (raw.drop 154) = raw := by
  have hlength' : raw.length = 186 := hlength
  have hfield : ∀ n start, start + n ≤ 186 →
      (copyInto n (bytesFrom raw start (start + n))).toList = bytesFrom raw start (start + n) := by
    intro n start hstop
    exact toList_copyInto (by rw [length_bytesFrom (by omega) (by omega), Nat.add_sub_cancel_left])
  have hexpiry : Codec.int64.write (Codec.int64.ofBytes (bytesFrom raw 50 58)) = bytesFrom raw 50 58 :=
    Codec.int64.write_ofBytes _ (length_bytesFrom (by omega) (by omega))
  have hfront : raw = compactInviteVersion :: compactInviteKindTCP :: raw.drop 2 := by
    rw [← hversion, ← hkind]
    obtain ⟨a, b, rest, rfl⟩ : ∃ a b rest, raw = a :: b :: rest := by
      match raw, hlength' with
      | a :: b :: rest, _ => exact ⟨a, b, rest, rfl⟩
    rfl
  conv_rhs => rw [hfront]
  simp only [inviteRaw, inviteCredential]
  rw [hfield 16 2 (by omega), hfield 16 18 (by omega), hfield 16 34 (by omega), hexpiry, hfield 32 58 (by omega),
    hfield 32 90 (by omega), hfield 32 122 (by omega), bytesFrom_append_drop (by omega),
    bytesFrom_append_drop (by omega), bytesFrom_append_drop (by omega), bytesFrom_append_drop (by omega),
    bytesFrom_append_drop (by omega), bytesFrom_append_drop (by omega), bytesFrom_append_drop (by omega)]

theorem compactInviteDecode_compactInviteEncode (raw : List UInt8) :
    compactInviteDecode (compactInviteEncode raw) = some raw := by
  have hlength : (compactInviteEncode raw).length % 3 ≠ 1 := by
    rw [compactInviteEncode, PairRadix.length_encode]
    omega
  rw [compactInviteDecode, if_neg hlength]
  exact PairRadix.decode_encode enough_compactInviteAlphabet raw

theorem compactInviteEncode_of_compactInviteDecode {encoded raw : List UInt8}
    (h : compactInviteDecode encoded = some raw) : compactInviteEncode raw = encoded := by
  unfold compactInviteDecode at h
  split at h
  · cases h
  · exact PairRadix.encode_decode h

/-! ## What each side accepts -/

/-- The text of an invite with these bytes. -/
def inviteText (raw : List UInt8) : List UInt8 := compactInvitePrefix ++ compactInviteEncode raw

theorem length_compactInviteEncode {raw : List UInt8} (h : raw.length = compactInviteRawLen) :
    (compactInviteEncode raw).length = compactInvitePayloadLen := by
  rw [compactInviteEncode, PairRadix.length_encode, h]
  rfl

theorem length_inviteText {raw : List UInt8} (h : raw.length = compactInviteRawLen) :
    (inviteText raw).length = 282 := by
  rw [inviteText, List.length_append, length_compactInviteEncode h]
  rfl

/-- The hex digits of 32 bytes are a proof, whatever the bytes. -/
theorem validProofMACHex_hexEncode {bytes : List UInt8} (h : bytes.length = 32) :
    validProofMACHex (hexEncode bytes) = true := by
  simp [validProofMACHex, hexDecode_hexEncode, h]

section

variable {unmarshal : List UInt8 → Option ClientCredential} {token invite : List UInt8}
  {cred : ClientCredential} {now : Int}

theorem decodeClientToken_ok (h : decodeClientToken unmarshal token now = .ok cred) :
    cred.version = tokenVersion ∧ missingField cred = false := by
  unfold decodeClientToken at h
  cases hjson : decodeJSONToken unmarshal token clientTokenPrefix with
  | error err =>
      rw [hjson] at h
      cases h
  | ok decoded =>
      rw [hjson] at h
      simp only [bind, Except.bind] at h
      split at h
      · cases h
      · next hchecks =>
          split at h
          · cases h
          · cases h
            simp only [not_or, ne_eq, not_not, Bool.not_eq_true] at hchecks
            exact ⟨hchecks.1, hchecks.2.2⟩

theorem encodeClientInvite_ok (h : encodeClientInvite unmarshal token now = .ok invite) :
    ∃ cred proofMAC, decodeClientToken unmarshal token now = .ok cred ∧
      cred.clientName = clientNameForID cred.clientID ∧ hexDecode cred.proofMAC = some proofMAC ∧
      proofMAC.length = 32 ∧ invite = inviteText (inviteRaw cred proofMAC) := by
  unfold encodeClientInvite at h
  cases htoken : decodeClientToken unmarshal token now with
  | error err =>
      rw [htoken] at h
      cases h
  | ok cred =>
      rw [htoken] at h
      simp only [bind, Except.bind] at h
      split at h
      · cases h
      · next hname =>
          split at h
          · cases h
          · next proofMAC hproof =>
              split at h
              · cases h
              · next hlength =>
                  cases h
                  exact ⟨cred, proofMAC, rfl, not_not.mp hname, hproof, not_not.mp hlength, rfl⟩

theorem encodeClientInvite_of_decodeClientToken {proofMAC : List UInt8}
    (htoken : decodeClientToken unmarshal token now = .ok cred)
    (hname : cred.clientName = clientNameForID cred.clientID) (hproof : hexDecode cred.proofMAC = some proofMAC)
    (hlength : proofMAC.length = 32) :
    encodeClientInvite unmarshal token now = .ok (inviteText (inviteRaw cred proofMAC)) := by
  simp only [encodeClientInvite, htoken, bind, Except.bind, hname, hproof, hlength, ne_eq, not_true_eq_false,
    if_false]
  rfl

theorem decodeClientInvite_ok (h : decodeClientInvite invite now = .ok cred) :
    ∃ raw, raw.length = compactInviteRawLen ∧ raw.getD 0 0 = compactInviteVersion ∧
      raw.getD 1 0 = compactInviteKindTCP ∧ invite = inviteText raw ∧ cred = inviteCredential raw := by
  unfold decodeClientInvite at h
  split at h
  · cases h
  · next hprefix =>
      simp only [not_or, ne_eq, not_not] at hprefix
      dsimp only at h
      split at h
      · cases h
      · split at h
        · cases h
        · next raw hraw =>
            split at h
            · cases h
            · next hheader =>
                simp only [not_or, ne_eq, not_not] at hheader
                split at h
                · cases h
                · split at h
                  · cases h
                  · cases h
                    refine ⟨raw, hheader.1, hheader.2.1, hheader.2.2, ?_, rfl⟩
                    rw [inviteText, compactInviteEncode_of_compactInviteDecode hraw, ← hprefix.2,
                      List.take_append_drop]

end

/-- Decoding the text that encoding makes. -/
theorem decodeClientInvite_inviteText {cred : ClientCredential} {proofMAC : List UInt8}
    (hversion : cred.version = tokenVersion) (hname : cred.clientName = clientNameForID cred.clientID)
    (hfields : missingField cred = false) (hlength : proofMAC.length = 32) (now : Int) :
    decodeClientInvite (inviteText (inviteRaw cred proofMAC)) now =
      if expired now cred.expiresUnix then .error .errExpired
      else .ok { cred with proofMAC := hexEncode proofMAC } := by
  have hraw := length_inviteRaw cred hlength
  have hcred : inviteCredential (inviteRaw cred proofMAC) = { cred with proofMAC := hexEncode proofMAC } := by
    rw [inviteCredential_inviteRaw, ← hname, ← hversion]
  have hfields' : missingField { cred with proofMAC := hexEncode proofMAC } = false := by
    simp only [missingField, Bool.or_eq_false_iff] at hfields ⊢
    exact ⟨hfields.1, by rw [validProofMACHex_hexEncode hlength]; rfl⟩
  have hdrop : (inviteText (inviteRaw cred proofMAC)).drop 3 = compactInviteEncode (inviteRaw cred proofMAC) :=
    List.drop_left' rfl
  have htake : (inviteText (inviteRaw cred proofMAC)).take 3 = compactInvitePrefix := List.take_left' rfl
  have hlong : ¬(inviteText (inviteRaw cred proofMAC)).length ≤ compactInvitePrefix.length := by
    rw [length_inviteText hraw]
    decide
  unfold decodeClientInvite
  rw [if_neg (by rw [htake]; exact not_or.mpr ⟨hlong, not_not.mpr rfl⟩)]
  dsimp only
  rw [hdrop, if_neg (not_not.mpr (length_compactInviteEncode hraw)), compactInviteDecode_compactInviteEncode]
  dsimp only
  rw [if_neg (by rw [hraw]; simp [inviteRaw]), hcred, hfields']
  rfl

/-- The server looks at the bytes of the proof, not at its digits. -/
theorem verifyClientCredential_hexEncode (hmac : List UInt8 → List UInt8 → List UInt8) (secret : Vector UInt8 32)
    {cred : ClientCredential} {proofMAC : List UInt8} (h : hexDecode cred.proofMAC = some proofMAC) (now : Int) :
    verifyClientCredential hmac secret { cred with proofMAC := hexEncode proofMAC } now =
      verifyClientCredential hmac secret cred now := by
  simp only [verifyClientCredential, validClientProofMAC, hexDecode_hexEncode, h]
  rfl

/-- An invite that decodes is the one made from its credential. -/
theorem inviteText_of_decodeClientInvite {invite : List UInt8} {cred : ClientCredential} {now : Int}
    (h : decodeClientInvite invite now = .ok cred) :
    ∃ proofMAC, hexDecode cred.proofMAC = some proofMAC ∧ proofMAC.length = 32 ∧
      cred.clientName = clientNameForID cred.clientID ∧ invite = inviteText (inviteRaw cred proofMAC) := by
  obtain ⟨raw, hlength, hversion, hkind, rfl, rfl⟩ := decodeClientInvite_ok h
  have hlength' : raw.length = 186 := hlength
  refine ⟨raw.drop 154, hexDecode_hexEncode _, by rw [List.length_drop, hlength'], rfl, ?_⟩
  rw [inviteRaw_inviteCredential hlength hversion hkind]

/-- A credential goes through the invite without loss, and each invite has one credential. -/
theorem client_invite_codec (unmarshal : List UInt8 → Option ClientCredential)
    (hmac : List UInt8 → List UInt8 → List UInt8) (secret : Vector UInt8 32) :
    (∀ token clock invite, encodeClientInvite unmarshal token clock = .ok invite →
      ∃ cred proofMAC, decodeClientToken unmarshal token clock = .ok cred ∧
        hexDecode cred.proofMAC = some proofMAC ∧ invite.length = 282 ∧
        (∀ now, decodeClientInvite invite now =
          if expired now cred.expiresUnix then .error .errExpired
          else .ok { cred with proofMAC := hexEncode proofMAC }) ∧
        ∀ now, verifyClientCredential hmac secret { cred with proofMAC := hexEncode proofMAC } now =
          verifyClientCredential hmac secret cred now) ∧
    (∀ invite now cred, decodeClientInvite invite now = .ok cred →
      (∀ token clock, decodeClientToken unmarshal token clock = .ok cred →
        encodeClientInvite unmarshal token clock = .ok invite) ∧
      ∀ invite' now', decodeClientInvite invite' now' = .ok cred → invite' = invite) := by
  constructor
  · intro token clock invite h
    obtain ⟨cred, proofMAC, htoken, hname, hproof, hlength, rfl⟩ := encodeClientInvite_ok h
    obtain ⟨hversion, hfields⟩ := decodeClientToken_ok htoken
    exact ⟨cred, proofMAC, htoken, hproof, length_inviteText (length_inviteRaw cred hlength),
      decodeClientInvite_inviteText hversion hname hfields hlength,
      verifyClientCredential_hexEncode hmac secret hproof⟩
  · intro invite now cred h
    obtain ⟨proofMAC, hproof, hlength, hname, rfl⟩ := inviteText_of_decodeClientInvite h
    refine ⟨fun token clock htoken => encodeClientInvite_of_decodeClientToken htoken hname hproof hlength, ?_⟩
    intro invite' now' h'
    obtain ⟨proofMAC', hproof', -, -, rfl⟩ := inviteText_of_decodeClientInvite h'
    rw [hproof] at hproof'
    cases hproof'
    rfl

/-- An array of bytes in JSON. -/
def jsonArray {n : Nat} (v : Vector UInt8 n) : List UInt8 := Json.array (v.toList.map fun b => decimal b.toNat)

/-- `json.Marshal` of the sample. -/
def sampleJSON : List UInt8 :=
  ascii "\x7b\"version\":1,\"session_id\":" ++ jsonArray sampleCredential.sessionID ++
    ascii ",\"client_id\":" ++ jsonArray sampleCredential.clientID ++
    ascii ",\"token_id\":" ++ jsonArray sampleCredential.tokenID ++
    ascii ",\"client_name\":\"client-05050505\",\"expires_unix\":1700000000,\"derp_public\":" ++
    jsonArray sampleCredential.derpPublic ++ ascii ",\"quic_public\":" ++ jsonArray sampleCredential.quicPublic ++
    ascii ",\"bearer_secret\":" ++ jsonArray sampleCredential.bearerSecret ++ ascii ",\"proof_mac\":\"" ++
    sampleCredential.proofMAC ++ ascii "\"\x7d"

/-- `json.Unmarshal` on the text of the sample. -/
def sampleUnmarshal (raw : List UInt8) : Option ClientCredential :=
  if raw = sampleJSON then some sampleCredential else none

def sampleToken : List UInt8 := clientTokenPrefix ++ Base64.encodeToString sampleJSON

theorem decodeClientToken_sampleToken :
    decodeClientToken sampleUnmarshal sampleToken 1600000000 = .ok sampleCredential := by
  have hdrop : sampleToken.drop clientTokenPrefix.length = Base64.encodeToString sampleJSON := List.drop_left' rfl
  have hjson : decodeJSONToken sampleUnmarshal sampleToken clientTokenPrefix = .ok sampleCredential := by
    rw [decodeJSONToken, if_neg (by decide +kernel), hdrop, Base64.decodeString_encodeToString]
    simp only [sampleUnmarshal, if_true]
  rw [decodeClientToken, hjson]
  decide +kernel

/-- The sample goes through its invite until it expires. -/
theorem client_invite_codec_sample :
    ∃ invite, encodeClientInvite sampleUnmarshal sampleToken 1600000000 = .ok invite ∧
      decodeClientInvite invite 1699999999 = .ok sampleCredential ∧
      decodeClientInvite invite 1700000000 = .error .errExpired := by
  have hencode : ∃ invite, encodeClientInvite sampleUnmarshal sampleToken 1600000000 = .ok invite :=
    ⟨_, encodeClientInvite_of_decodeClientToken decodeClientToken_sampleToken (by decide +kernel) rfl
      (by decide +kernel)⟩
  obtain ⟨invite, hencode⟩ := hencode
  obtain ⟨cred, proofMAC, htoken, hproof, -, hdecode, -⟩ :=
    (client_invite_codec sampleUnmarshal sampleHmac sampleSecret).1 _ _ _ hencode
  rw [decodeClientToken_sampleToken] at htoken
  cases htoken
  refine ⟨invite, hencode, ?_, ?_⟩
  · rw [hdecode, if_neg (by decide +kernel)]
    have hsame : hexEncode proofMAC = sampleCredential.proofMAC := by
      have hdigits : ((hexDecode sampleCredential.proofMAC).map hexEncode) = some sampleCredential.proofMAC := by
        decide +kernel
      rw [hproof] at hdigits
      exact Option.some.inj hdigits
    rw [hsame]
  · rw [hdecode, if_pos (by decide +kernel)]

end Derptun
