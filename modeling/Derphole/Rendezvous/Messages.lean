import Derphole.Candidate.Policy
import Derphole.Lib.Json
import Derphole.Rendezvous.Gate

/-!
# Claims and decisions as text

`pkg/rendezvous/messages.go`: what `json.Marshal` writes for a claim and a decision, and the text under the
bearer MAC.  With the rules of `pkg/candidate` they are the `Codec` that the gates of this program use.
-/

open Lib

namespace Rendezvous

/-- An array of bytes is written as its numbers. -/
def marshalBytes (bytes : List UInt8) : List UInt8 := Json.array (bytes.map fun b => decimal b.toNat)

def marshalStrings (values : List (List UInt8)) : List UInt8 := Json.array (values.map Json.quote)

/-- The payload of `ComputeBearerMAC`. -/
def bearerText (version : UInt8) (sessionID : Vector UInt8 16) (derpPublic quicPublic : Vector UInt8 32)
    (parallel : Int) (candidates : List (List UInt8)) (capabilities : UInt32) : List UInt8 :=
  Json.object (
    [("version", decimal version.toNat), ("session_id", marshalBytes sessionID.toList),
      ("derp_public", marshalBytes derpPublic.toList), ("quic_public", marshalBytes quicPublic.toList)] ++
    Json.omitEmpty (parallel == 0) "parallel" (decimal parallel) ++
    Json.omitEmpty candidates.isEmpty "candidates" (marshalStrings candidates) ++
    [("capabilities", decimal capabilities.toNat)])

def marshalClientProof (client : Derptun.ClientProof) : List UInt8 :=
  Json.object
    [("client_id", marshalBytes client.clientID.toList), ("token_id", marshalBytes client.tokenID.toList),
      ("client_name", Json.quote client.clientName), ("expires_unix", Json.number client.expiresUnix),
      ("proof_mac", Json.quote client.proofMAC)]

/-- `EncodeClaim`. -/
def Claim.marshal (claim : Claim) : List UInt8 :=
  Json.object (
    [("version", decimal claim.version.toNat), ("session_id", marshalBytes claim.sessionID.toList),
      ("bearer_mac", Json.quote claim.bearerMAC), ("derp_public", marshalBytes claim.derpPublic.toList),
      ("quic_public", marshalBytes claim.quicPublic.toList)] ++
    Json.omitEmpty (claim.parallel == 0) "parallel" (decimal claim.parallel) ++
    Json.omitEmpty claim.candidates.isEmpty "candidates" (marshalStrings claim.candidates) ++
    Json.omitEmpty (claim.capabilities == 0) "capabilities" (decimal claim.capabilities.toNat) ++
    (claim.client.toList.map fun client => ("client", marshalClientProof client)))

def AcceptInfo.marshal (info : AcceptInfo) : List UInt8 :=
  Json.object (
    [("version", decimal info.version.toNat), ("session_id", marshalBytes info.sessionID.toList)] ++
    Json.omitEmpty (info.parallel == 0) "parallel" (decimal info.parallel) ++
    Json.omitEmpty info.candidates.isEmpty "candidates" (marshalStrings info.candidates) ++
    [("capabilities", decimal info.capabilities.toNat)])

def RejectCode.name : RejectCode → String
  | .rejectExpired => "expired"
  | .rejectClaimed => "claimed"
  | .rejectVersionMismatch => "version_mismatch"
  | .rejectSessionMismatch => "session_mismatch"
  | .rejectBadMAC => "bad_mac"
  | .rejectCapabilities => "capabilities_mismatch"
  | .rejectClaimMalformed => "claim_malformed"

def RejectInfo.marshal (info : RejectInfo) : List UInt8 :=
  Json.object (
    [("code", Json.quote (ascii info.code.name))] ++
    Json.omitEmpty (info.reason == "") "reason" (Json.quote (ascii info.reason)))

/-- `EncodeDecision`. -/
def Decision.marshal (decision : Decision) : List UInt8 :=
  Json.object (
    [("accepted", Json.bool decision.accepted)] ++
    (decision.accept.toList.map fun info => ("accept", info.marshal)) ++
    (decision.reject.toList.map fun info => ("reject", info.marshal)))

/-! ## The gates of this program -/

/-- A string of the program as the list of its bytes, each as a character. -/
def text (value : List UInt8) : List Char := value.map fun b => Char.ofNat b.toNat

theorem text_injective : Function.Injective text := by
  refine List.map_injective_iff.mpr fun b b' heq => ?_
  have hvalid : ∀ c : UInt8, (Char.ofNat c.toNat).toNat = c.toNat := by
    intro c
    have hlt := c.toNat_lt
    rw [Char.ofNat, dif_pos (.inl (by omega))]
    rfl
  have hnat := congrArg Char.toNat heq
  rw [hvalid, hvalid] at hnat
  exact UInt8.toNat_inj.mp hnat

@[simp] theorem length_text (value : List UInt8) : (text value).length = value.length := List.length_map _

/-- The options of `validCandidates`. -/
def candidateOptions (fakeTransport : Bool) : List (Option Candidate.Opt) :=
  if fakeTransport then [some Candidate.allowLoopback] else []

def codec (hmac : List UInt8 → List UInt8 → List UInt8) (fakeTransport : Bool) : Codec where
  hmac := hmac
  claimText := bearerText
  validPeerAddrPort := fun value =>
    (Candidate.parsePeerAddrPort (text value) (Candidate.newPolicy (candidateOptions fakeTransport))).isSome

open Candidate in
/-- The check of the gates is `ValidateClaimStrings`. -/
theorem validCandidates_iff {hmac : List UInt8 → List UInt8 → List UInt8} {fakeTransport : Bool}
    {values : List (List UInt8)} :
    validCandidates (codec hmac fakeTransport) values = true ↔
      validateClaimStrings (values.map text) (candidateOptions fakeTransport) = .ok () := by
  rw [validateClaimStrings_ok_iff]
  generalize hpolicy : newPolicy (candidateOptions fakeTransport) = p
  have hcheck : validCandidates (codec hmac fakeTransport) values = true ↔
      values.length ≤ 32 ∧ (∀ value ∈ values, (value ≠ [] ∧ value.length ≤ 128) ∧
        (parsePeerAddrPort (text value) p).isSome = true) ∧ values.Nodup := by
    simp only [validCandidates, codec, hpolicy, Bool.and_eq_true, decide_eq_true_eq, List.all_eq_true, and_assoc]
    rfl
  rw [hcheck]
  constructor
  · rintro ⟨hcount, hall, hnodup⟩
    have hkept : ((values.map text).filterMap fun value => parsePeerAddrPort value p).map Netip.AddrPort.string =
        values.map text := by
      rw [map_string_filterMap, List.filter_eq_self]
      intro value hvalue
      obtain ⟨bytes, hbytes, rfl⟩ := List.mem_map.mp hvalue
      exact (hall bytes hbytes).2
    refine ⟨_, hkept.symm, ?_, ?_, ?_⟩
    · intro ap hap
      obtain ⟨value, -, hread⟩ := List.mem_filterMap.mp hap
      exact (parsePeerAddrPort_eq_some.mp hread).2
    · have htexts : (values.map text).Nodup := hnodup.map text_injective
      rw [← hkept] at htexts
      exact htexts.of_map
    · have hlength := congrArg List.length hkept
      rw [List.length_map, List.length_map] at hlength
      rw [hlength]
      exact hcount
  · rintro ⟨aps, heq, hgood, hnodup, hcount⟩
    have hprintable : ∀ ap ∈ aps, Printable ap := fun ap hap =>
      printable_of_validLocal (validPeerAddrPort_iff.mp (hgood ap hap)).1
    refine ⟨?_, ?_, ?_⟩
    · have hlength := congrArg List.length heq
      rw [List.length_map, List.length_map] at hlength
      rw [hlength]
      exact hcount
    · intro value hvalue
      have hmem : text value ∈ aps.map Netip.AddrPort.string := heq ▸ List.mem_map_of_mem hvalue
      obtain ⟨ap, hap, hstring⟩ := List.mem_map.mp hmem
      obtain ⟨hpos, hshort⟩ := Netip.AddrPort.length_string (hprintable ap hap).1 (hprintable ap hap).2
      rw [hstring, length_text] at hpos hshort
      refine ⟨⟨List.ne_nil_of_length_pos hpos, hshort⟩, ?_⟩
      rw [parsePeerAddrPort_eq_some.mpr ⟨hstring, hgood ap hap⟩]
      rfl
    · have hstrings : (aps.map Netip.AddrPort.string).Nodup :=
        hnodup.map_on fun ap hap ap' hap' h => (hprintable ap hap).string_injective (hprintable ap' hap') h
      rw [← heq] at hstrings
      exact hstrings.of_map

end Rendezvous
