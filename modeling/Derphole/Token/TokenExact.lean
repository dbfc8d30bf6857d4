import Derphole.Token.SessionToken

/-!
# The token codec is exact

Encoding and decoding are inverse in both directions.  In the direction from the bytes the length
check comes first: `r.Read` fills what it can, so only a payload that is long enough is sure to
be read as a whole.
-/

namespace SessionToken

open Lib Netip

/-- The token as it is read back: version 0 is version 4, and version 3 has no bootstrap address. -/
def Token.received (tok : Token) : Token :=
  if tok.version = 0 then { tok with version := supportedVersion }
  else if tok.version = legacyVersion then
    { tok with bootstrapIP := Vector.replicate 16 0, bootstrapPort := 0, bootstrapFamily := 0 }
  else tok

/-! ## Reading fields -/

section

variable {α : Type} {c : Codec α} {r rest : List UInt8} {a : α}

theorem read_write (c : Codec α) (a : α) (rest : List UInt8) : read c (c.write a ++ rest) = .ok (a, rest) := by
  rw [read, Reader.read_append]
  rfl

theorem binaryRead_write (c : Codec α) (a : α) (rest : List UInt8) :
    binaryRead c (c.write a ++ rest) = .ok (a, rest) := by
  rw [binaryRead, Reader.readFull_append]
  rfl

theorem of_mapError {ε δ β : Type} {x : Except ε β} {f : ε → δ} {b : β} (h : x.mapError f = .ok b) :
    x = .ok b := by
  cases x with
  | error e => cases h
  | ok b' =>
      cases h
      rfl

theorem of_read (hlen : c.size ≤ r.length) (h : read c r = .ok (a, rest)) : r = c.write a ++ rest :=
  Reader.eq_append_of_read hlen (of_mapError h)

theorem of_binaryRead (h : binaryRead c r = .ok (a, rest)) : r = c.write a ++ rest :=
  Reader.eq_append_of_readFull (of_mapError h)

end

theorem exceptBind_eq_ok {ε α β : Type} {m : Except ε α} {k : α → Except ε β} {b : β}
    (h : m >>= k = .ok b) : ∃ a, m = .ok a ∧ k a = .ok b := by
  cases m with
  | error e => cases h
  | ok a => exact ⟨a, rfl, h⟩

theorem length_fields (tok : Token) : tok.fields.length + 1 = fixedPayloadSizeV3 := by
  simp only [Token.fields, List.length_append, Codec.length_write]
  rfl

theorem length_bootstrapFields (tok : Token) :
    fixedPayloadSizeV3 + tok.bootstrapFields.length = fixedPayloadSizeV4 := by
  simp only [Token.bootstrapFields, List.length_append, Codec.length_write]
  rfl

/-- The fields that a version has, after the version. -/
def versionFields (tok : Token) : List UInt8 :=
  tok.fields ++ if supportedVersion ≤ tok.version then tok.bootstrapFields else []

/-- Written fields are read. -/
theorem readFields_versionFields (tok : Token)
    (hv : tok.version = legacyVersion ∨ tok.version = supportedVersion) (rest : List UInt8) :
    readFields tok.version (versionFields tok ++ rest) = .ok (tok.received, rest) := by
  rcases hv with hv | hv
  · have hold : ¬supportedVersion ≤ tok.version := by rw [hv]; decide
    rw [versionFields, if_neg hold, Token.received, hv]
    simp only [readFields, Token.fields, List.append_nil, List.append_assoc, read_write, binaryRead_write,
      bind, Except.bind]
    rfl
  · have hnew : supportedVersion ≤ tok.version := by rw [hv]; decide
    rw [versionFields, if_pos hnew, Token.received, hv]
    simp only [readFields, Token.fields, Token.bootstrapFields, List.append_assoc, read_write,
      binaryRead_write, bind, Except.bind]
    rw [if_pos (by decide), if_neg (by decide), if_neg (by decide), ← hv]

/-- Where there is enough to read, the fields that are read are written in the same way. -/
theorem of_readFields {version : UInt8} {r rest : List UInt8} {tok : Token}
    (hlen : (if supportedVersion ≤ version then fixedPayloadSizeV4 else fixedPayloadSizeV3) ≤ r.length + 1)
    (h : readFields version r = .ok (tok, rest)) :
    tok.version = version ∧ r = versionFields tok ++ rest := by
  rw [readFields] at h
  have hsize : fixedPayloadSizeV3 ≤ r.length + 1 := by
    split at hlen
    · exact Nat.le_trans (by decide) hlen
    · exact hlen
  simp only [fixedPayloadSizeV3] at hsize
  obtain ⟨⟨sessionID, r₁⟩, h₁, k₁⟩ := exceptBind_eq_ok h
  obtain ⟨⟨expiresUnix, r₂⟩, h₂, k₂⟩ := exceptBind_eq_ok k₁
  obtain ⟨⟨bootstrapRegion, r₃⟩, h₃, k₃⟩ := exceptBind_eq_ok k₂
  obtain ⟨⟨derpPublic, r₄⟩, h₄, k₄⟩ := exceptBind_eq_ok k₃
  obtain ⟨⟨quicPublic, r₅⟩, h₅, k₅⟩ := exceptBind_eq_ok k₄
  obtain ⟨⟨bearerSecret, r₆⟩, h₆, k₆⟩ := exceptBind_eq_ok k₅
  obtain ⟨⟨capabilities, r₇⟩, h₇, k₇⟩ := exceptBind_eq_ok k₆
  -- each field is long enough, since the fields before it were
  have e₁ := of_read (by simp; omega) h₁
  have e₂ := of_binaryRead h₂
  have e₃ := of_binaryRead h₃
  have e₇ := of_binaryRead h₇
  dsimp only at e₂ e₃ e₇ h₄ h₅ h₆ k₇
  subst e₁ e₂ e₃
  simp only [List.length_append, Codec.length_write, Codec.size_array, Codec.size_int64,
    Codec.size_uint16] at hsize hlen
  have e₄ := of_read (by simp; omega) h₄
  subst e₄
  simp only [List.length_append, Codec.length_write, Codec.size_array] at hsize hlen
  have e₅ := of_read (by simp; omega) h₅
  subst e₅
  simp only [List.length_append, Codec.length_write, Codec.size_array] at hsize hlen
  have e₆ := of_read (by simp; omega) h₆
  subst e₆ e₇
  simp only [List.length_append, Codec.length_write, Codec.size_array, Codec.size_uint32] at hlen
  split at k₇
  · rename_i hnew
    obtain ⟨⟨bootstrapFamily, r₈⟩, h₈, k₈⟩ := exceptBind_eq_ok k₇
    obtain ⟨⟨bootstrapIP, r₉⟩, h₉, k₉⟩ := exceptBind_eq_ok k₈
    obtain ⟨⟨bootstrapPort, r₁₀⟩, h₁₀, k₁₀⟩ := exceptBind_eq_ok k₉
    have e₈ := of_binaryRead h₈
    have e₁₀ := of_binaryRead h₁₀
    dsimp only at e₁₀ h₉
    rw [if_pos hnew] at hlen
    subst e₈
    simp only [List.length_append, Codec.length_write, Codec.size_uint8, fixedPayloadSizeV4,
      fixedPayloadSizeV3] at hlen
    have e₉ := of_read (by simp; omega) h₉
    subst e₉ e₁₀
    cases k₁₀
    refine ⟨rfl, ?_⟩
    simp only [versionFields, if_pos hnew, Token.fields, Token.bootstrapFields, List.append_assoc]
  · rename_i hold
    cases k₇
    refine ⟨rfl, ?_⟩
    simp only [versionFields, if_neg hold, Token.fields, List.append_assoc, List.append_nil]

/-! ## The whole token -/

/-- The version is one that is sent. -/
def Sent (version : UInt8) : Prop := version = legacyVersion ∨ version = supportedVersion

theorem payload_eq (tok : Token) : tok.payload = tok.version :: versionFields tok := by
  have hbyte : Codec.uint8.write tok.version = [tok.version] := by
    show bigEndian 1 tok.version.toNat = [tok.version]
    simp [bigEndian]
  rw [Token.payload, hbyte, versionFields, List.append_assoc]
  rfl

theorem length_payload (tok : Token) : tok.payload.length =
    if supportedVersion ≤ tok.version then fixedPayloadSizeV4 else fixedPayloadSizeV3 := by
  have hfields := length_fields tok
  have hboot := length_bootstrapFields tok
  rw [payload_eq, List.length_cons, versionFields, List.length_append]
  split
  · omega
  · simpa using hfields

/-- The payload with its checksum. -/
def checked (tok : Token) : List UInt8 :=
  tok.payload ++ Codec.uint32.write (checksumIEEE tok.payload)

theorem encodeRaw_eq {tok : Token} (hv : Sent tok.version) : encodeRaw tok = .ok (checked tok) := by
  rcases hv with hv | hv
  · rw [encodeRaw, if_neg (by rw [hv]; decide), if_neg (by simp [hv])]
    rfl
  · rw [encodeRaw, if_neg (by rw [hv]; decide), if_neg (by simp [hv])]
    rfl

theorem encodeRaw_zero {tok : Token} (hv : tok.version = 0) :
    encodeRaw tok = .ok (checked { tok with version := supportedVersion }) := by
  rw [encodeRaw, if_pos hv]
  rfl

theorem length_checked (tok : Token) : (checked tok).length = tok.payload.length + 4 := by
  simp [checked]

theorem take_checked (tok : Token) : (checked tok).take ((checked tok).length - 4) = tok.payload := by
  rw [length_checked, Nat.add_sub_cancel, checked, List.take_left']
  rfl

theorem drop_checked (tok : Token) : (checked tok).drop ((checked tok).length - 4) =
    Codec.uint32.write (checksumIEEE tok.payload) := by
  rw [length_checked, Nat.add_sub_cancel, checked, List.drop_left']
  rfl

/-- What `Decode` checks before it reads the fields. -/
structure Checked (version : UInt8) (raw : List UInt8) : Prop where
  sent : Sent version
  length : wantLen version ≤ raw.length
  checksum : checksumIEEE (raw.take (raw.length - 4)) = Codec.uint32.ofBytes (raw.drop (raw.length - 4))

theorem decodeRaw_of_checked {version : UInt8} {tail : List UInt8} (h : Checked version (version :: tail))
    {tok : Token} (hfields : readFields version
      (((version :: tail).take ((version :: tail).length - 4)).drop 1) = .ok (tok, []))
    {now : Int64} (hnow : now < tok.expiresUnix) : decodeRaw (version :: tail) now = .ok tok := by
  have hversion : ¬(version ≠ legacyVersion ∧ version ≠ supportedVersion) := by
    rintro ⟨hold, hnew⟩
    exact h.sent.elim hold hnew
  rw [decodeRaw]
  dsimp only
  rw [if_neg hversion, if_neg (Nat.not_lt.mpr h.length), if_neg (not_not.mpr h.checksum), hfields]
  show (if now ≥ tok.expiresUnix then _ else _) = _
  rw [if_neg (Int64.not_le.mpr hnow)]

theorem of_decodeRaw {raw : List UInt8} {now : Int64} {tok : Token} (h : decodeRaw raw now = .ok tok) :
    ∃ version tail, raw = version :: tail ∧ Checked version raw ∧
      readFields version ((raw.take (raw.length - 4)).drop 1) = .ok (tok, []) := by
  cases raw with
  | nil => cases h
  | cons version tail =>
      rw [decodeRaw] at h
      dsimp only at h
      by_cases hversion : version ≠ legacyVersion ∧ version ≠ supportedVersion
      · rw [if_pos hversion] at h
        cases h
      rw [if_neg hversion] at h
      by_cases hlen : (version :: tail).length < wantLen version
      · rw [if_pos hlen] at h
        cases h
      rw [if_neg hlen] at h
      by_cases hsum : checksumIEEE ((version :: tail).take ((version :: tail).length - 4)) ≠
          Codec.uint32.ofBytes ((version :: tail).drop ((version :: tail).length - 4))
      · rw [if_pos hsum] at h
        cases h
      rw [if_neg hsum] at h
      obtain ⟨⟨tok', r⟩, hfields, h⟩ := exceptBind_eq_ok h
      dsimp only at h
      split at h
      · cases h
      · rename_i hr
        split at h
        · cases h
        · cases h
          rw [not_not] at hsum hr
          rw [List.eq_nil_of_length_eq_zero hr] at hfields
          refine ⟨version, tail, rfl, ⟨?_, Nat.not_lt.mp hlen, hsum⟩, hfields⟩
          by_contra hnot
          exact hversion ⟨fun heq => hnot (.inl heq), fun heq => hnot (.inr heq)⟩

/-- What was encoded is decoded until it expires. -/
theorem decodeRaw_checked {tok : Token} (hv : Sent tok.version) {now : Int64}
    (hnow : now < tok.expiresUnix) : decodeRaw (checked tok) now = .ok tok.received := by
  have hcons : checked tok = tok.version ::
      (versionFields tok ++ Codec.uint32.write (checksumIEEE tok.payload)) := by
    rw [checked]
    nth_rewrite 1 [payload_eq]
    rfl
  have hexpires : tok.received.expiresUnix = tok.expiresUnix := by
    rw [Token.received]
    split
    · rfl
    · split
      · rfl
      · rfl
  have hfields := readFields_versionFields tok hv []
  rw [List.append_nil] at hfields
  have hchecked : Checked tok.version (checked tok) := by
    refine ⟨hv, ?_, ?_⟩
    · rw [length_checked, length_payload]
      exact Nat.le_refl _
    · rw [take_checked, drop_checked, Codec.ofBytes_write]
  rw [hcons] at hchecked ⊢
  apply decodeRaw_of_checked hchecked
  · rw [← hcons, take_checked, payload_eq]
    exact hfields
  · rw [hexpires]
    exact hnow

/-- What is decoded is what encoding it gives. -/
theorem checked_of_decodeRaw {raw : List UInt8} {now : Int64} {tok : Token}
    (h : decodeRaw raw now = .ok tok) : Sent tok.version ∧ checked tok = raw := by
  obtain ⟨version, tail, hraw, hchecked, hfields⟩ := of_decodeRaw h
  have hlen := hchecked.length
  have hsplit := List.take_append_drop (raw.length - 4) raw
  rw [wantLen] at hlen
  obtain ⟨hversion, htail⟩ := of_readFields (by
    rw [List.length_drop, List.length_take]
    omega) hfields
  have hpayload : tok.payload = raw.take (raw.length - 4) := by
    have hpos : fixedPayloadSizeV3 ≤ raw.length - 4 := by
      split at hlen
      · exact Nat.le_trans (by decide) (Nat.le_sub_of_add_le hlen)
      · exact Nat.le_sub_of_add_le hlen
    obtain ⟨n, hn⟩ := Nat.exists_eq_add_of_le' (Nat.le_trans (show 1 ≤ fixedPayloadSizeV3 by decide) hpos)
    rw [payload_eq, hversion, ← List.append_nil (versionFields tok), ← htail, hn, hraw,
      List.take_succ_cons, List.drop_one, List.tail_cons]
  refine ⟨hversion ▸ hchecked.sent, ?_⟩
  rw [checked, hpayload, hchecked.checksum, Codec.write_ofBytes _ _ (by
    rw [List.length_drop]
    simp
    omega), hsplit]

theorem decode_encodeToString (raw : List UInt8) (now : Int64) :
    decode (Base64.encodeToString raw) now = decodeRaw raw now := by
  rw [decode, Base64.decodeString_encodeToString]

/-- A token whose version is known is read back. -/
theorem decode_encode {tok : Token} (hv : tok.version = 0 ∨ Sent tok.version) {now : Int64}
    (hnow : now < tok.expiresUnix) :
    ∃ s, encode tok = .ok s ∧ decode s now = .ok tok.received := by
  rcases hv with hv | hv
  · have hsent : Sent supportedVersion := .inr rfl
    have hreceived : Token.received { tok with version := supportedVersion } = tok.received := by
      rw [Token.received, Token.received, if_pos hv]
      rfl
    refine ⟨_, by rw [encode, encodeRaw_zero hv]; rfl, ?_⟩
    rw [decode_encodeToString, ← hreceived]
    exact decodeRaw_checked hsent hnow
  · refine ⟨_, by rw [encode, encodeRaw_eq hv]; rfl, ?_⟩
    rw [decode_encodeToString]
    exact decodeRaw_checked hv hnow

/-! ## The bootstrap address -/

/-- What is stored is read, with an IPv4 address in IPv6 form as IPv4. -/
theorem nativeTCPBootstrapAddr_set (tok : Token) {addr : AddrPort} (hvalid : addr.isValid = true)
    (hzone : addr.addr.zone = "") (hport : addr.port ≠ 0) :
    (tok.setNativeTCPBootstrapAddr addr).nativeTCPBootstrapAddr = some ⟨addr.addr.unmap, addr.port⟩ := by
  obtain ⟨ip, port⟩ := addr
  have hvalid' : ip.unmap.isValid = true := (Addr.isValid_unmap ip).trans hvalid
  have hzone' : ip.unmap.zone = "" := Addr.zone_unmap hzone
  rw [Token.setNativeTCPBootstrapAddr, if_neg (by simp [hvalid])]
  dsimp only at hport ⊢
  cases hip : ip.unmap with
  | zero =>
      rw [hip] at hvalid'
      cases hvalid'
  | v4 bytes =>
      have hbytes := copyInto_take_copyInto (show 4 ≤ 16 by omega) bytes
      simp [Token.nativeTCPBootstrapAddr, Addr.is4, Addr.isValid, Addr.asSlice, hport, hbytes]
  | v6 bytes zone =>
      rw [hip] at hzone'
      have hfamily : bootstrapFamilyV6 ≠ bootstrapFamilyV4 := by decide
      simp [Token.nativeTCPBootstrapAddr, Addr.is4, Addr.isValid, Addr.as16, hport, hfamily,
        show zone = "" from hzone']

theorem nativeTCPBootstrapAddr_received {tok : Token}
    (hv : tok.version = 0 ∨ tok.version = supportedVersion) :
    tok.received.nativeTCPBootstrapAddr = tok.nativeTCPBootstrapAddr := by
  rcases hv with hv | hv
  · rw [Token.received, if_pos hv]
    rfl
  · rw [Token.received, if_neg (by rw [hv]; decide), if_neg (by rw [hv]; decide)]

/-- A token with a known version that has not expired is read back as it was, a version 0 as
version 4 and a version 3 without bootstrap address.  What is decoded is, byte for byte, what
encoding it gives, for every text that base64 reads.  A bootstrap address of version 4 is read
back, in IPv4 form if it is an IPv4 address. -/
theorem token_codec_exact :
    (∀ (tok : Token) (now : Int64), tok.version = 0 ∨ Sent tok.version → now < tok.expiresUnix →
      ∃ s, encode tok = .ok s ∧ decode s now = .ok tok.received) ∧
    (∀ (raw : List UInt8) (now : Int64) (tok : Token),
      decode (Base64.encodeToString raw) now = .ok tok → encodeRaw tok = .ok raw) ∧
    (∀ (s : List UInt8) (now : Int64) (tok : Token), decode s now = .ok tok →
      ∃ raw, Base64.decodeString s = some raw ∧ encodeRaw tok = .ok raw) ∧
    ∀ (tok : Token) (addr : AddrPort) (now : Int64),
      tok.version = 0 ∨ tok.version = supportedVersion → now < tok.expiresUnix →
        addr.isValid = true → addr.addr.zone = "" → addr.port ≠ 0 →
          ∃ s tok', encode (tok.setNativeTCPBootstrapAddr addr) = .ok s ∧ decode s now = .ok tok' ∧
            tok'.nativeTCPBootstrapAddr = some ⟨addr.addr.unmap, addr.port⟩ := by
  have hraw : ∀ (raw : List UInt8) (now : Int64) (tok : Token), decodeRaw raw now = .ok tok →
      encodeRaw tok = .ok raw := by
    intro raw now tok h
    obtain ⟨hsent, hchecked⟩ := checked_of_decodeRaw h
    rw [encodeRaw_eq hsent, hchecked]
  refine ⟨fun tok now hv hnow => decode_encode hv hnow, fun raw now tok h => ?_, fun s now tok h => ?_,
    fun tok addr now hv hnow hvalid hzone hport => ?_⟩
  · rw [decode_encodeToString] at h
    exact hraw raw now tok h
  · rw [decode] at h
    cases hs : Base64.decodeString s with
    | none =>
        rw [hs] at h
        cases h
    | some raw =>
        rw [hs] at h
        exact ⟨raw, rfl, hraw raw now tok h⟩
  · have hset : (tok.setNativeTCPBootstrapAddr addr).version = tok.version ∧
        (tok.setNativeTCPBootstrapAddr addr).expiresUnix = tok.expiresUnix := by
      rw [Token.setNativeTCPBootstrapAddr]
      split
      · exact ⟨rfl, rfl⟩
      · dsimp only
        split
        · exact ⟨rfl, rfl⟩
        · exact ⟨rfl, rfl⟩
    have hversion := hset.1.symm ▸ hv
    obtain ⟨s, hs, hr⟩ := decode_encode (hversion.imp_right Or.inr) (hset.2.symm ▸ hnow)
    refine ⟨s, _, hs, hr, ?_⟩
    rw [nativeTCPBootstrapAddr_received hversion]
    exact nativeTCPBootstrapAddr_set tok hvalid hzone hport

/-- A token that expires at the second 1000. -/
def exampleToken (version : UInt8) : Token where
  version := version
  sessionID := Vector.replicate 16 7
  expiresUnix := 1000
  bootstrapRegion := 2
  derpPublic := Vector.replicate 32 1
  quicPublic := Vector.replicate 32 2
  bearerSecret := Vector.replicate 32 3
  capabilities := 5
  bootstrapIP := Vector.replicate 16 0
  bootstrapPort := 0
  bootstrapFamily := 0

/-- An IPv4 address in IPv6 form is stored in a token of version 0, which is read back. -/
theorem token_codec_exact_mapped :
    ∃ s tok', encode ((exampleToken 0).setNativeTCPBootstrapAddr
        ⟨.v6 (Vector.mk #[0, 0, 0, 0, 0, 0, 0, 0, 0, 0, 255, 255, 10, 0, 0, 1] rfl) "", 443⟩) = .ok s ∧
      decode s 999 = .ok tok' ∧
      tok'.nativeTCPBootstrapAddr = some ⟨.v4 (Vector.mk #[10, 0, 0, 1] rfl), 443⟩ :=
  token_codec_exact.2.2.2 (exampleToken 0) _ 999 (.inl rfl) (by decide) rfl rfl (by decide)

/-- A version that is not known is not encoded: there is nothing to decode. -/
theorem token_unknown_version :
    ∃ (tok : Token) (now : Int64), now < tok.expiresUnix ∧ encode tok = .error .errUnsupportedVersion ∧
      decode [] now = .error .errInvalidLength ∧
      ¬∃ s, encode tok = .ok s ∧ decode s now = .ok tok.received := by
  have hfails : encode (exampleToken 7) = .error .errUnsupportedVersion := rfl
  refine ⟨exampleToken 7, 999, by decide, hfails, rfl, ?_⟩
  rintro ⟨s, hs, -⟩
  rw [hfails] at hs
  cases hs

end SessionToken
