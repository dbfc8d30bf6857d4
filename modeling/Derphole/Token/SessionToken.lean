import Derphole.Lib.Base64
import Derphole.Lib.Codec
import Derphole.Lib.NetAddr

/-!
# Session tokens

`pkg/token/token.go`.  A token is sent as text: its fields in order, a CRC-32 of them, and
base64 over both.  Version 4 added a bootstrap address to the fields of version 3, so the first
byte decides how long a token is.  Decoding reads field by field and wants the reader empty at
the end; on an error the token read so far is returned with it, which no caller looks at and the
model leaves out.
-/

namespace SessionToken

open Lib Netip

structure Token where
  version : UInt8
  sessionID : Vector UInt8 16
  expiresUnix : Int64
  bootstrapRegion : UInt16
  derpPublic : Vector UInt8 32
  quicPublic : Vector UInt8 32
  bearerSecret : Vector UInt8 32
  capabilities : UInt32
  bootstrapIP : Vector UInt8 16
  bootstrapPort : UInt16
  bootstrapFamily : UInt8
  deriving DecidableEq

inductive TokenError where
  | corruptInput
  | reader (e : Reader.Error)
  | errExpired
  | errChecksum
  | errUnsupportedVersion
  | errInvalidLength
  deriving DecidableEq

def supportedVersion : UInt8 := 4

def legacyVersion : UInt8 := 3

def bootstrapFamilyNone : UInt8 := 0

def bootstrapFamilyV4 : UInt8 := 4

def bootstrapFamilyV6 : UInt8 := 6

def fixedPayloadSizeV3 : Nat := 1 + 16 + 8 + 2 + 32 + 32 + 32 + 4

def fixedPayloadSizeV4 : Nat := fixedPayloadSizeV3 + 1 + 16 + 2

/-! ## The checksum -/

/-- One bit of the division by the reversed IEEE polynomial. -/
def crcBit (crc : UInt32) : UInt32 :=
  if crc &&& 1 = 1 then (crc >>> 1) ^^^ 0xedb88320 else crc >>> 1

def crcByte (crc : UInt32) (b : UInt8) : UInt32 :=
  crcBit (crcBit (crcBit (crcBit (crcBit (crcBit (crcBit (crcBit (crc ^^^ b.toUInt32))))))))

/-- `crc32.ChecksumIEEE`. -/
def checksumIEEE (data : List UInt8) : UInt32 := ~~~(data.foldl crcByte (~~~0))

-- The check value of the polynomial: the checksum of the digits from 1 to 9.
example : checksumIEEE [49, 50, 51, 52, 53, 54, 55, 56, 57] = 0xcbf43926 := by decide +kernel

/-! ## Encoding -/

namespace Token

variable (tok : Token)

/-- The fields of both versions, after the version. -/
def fields : List UInt8 :=
  (Codec.array 16 (Nat.succ_pos 15)).write tok.sessionID ++ (Codec.int64.write tok.expiresUnix ++
    (Codec.uint16.write tok.bootstrapRegion ++ ((Codec.array 32 (Nat.succ_pos 31)).write tok.derpPublic ++
      ((Codec.array 32 (Nat.succ_pos 31)).write tok.quicPublic ++
        ((Codec.array 32 (Nat.succ_pos 31)).write tok.bearerSecret ++
          Codec.uint32.write tok.capabilities)))))

/-- The fields of version 4. -/
def bootstrapFields : List UInt8 :=
  Codec.uint8.write tok.bootstrapFamily ++ ((Codec.array 16 (Nat.succ_pos 15)).write tok.bootstrapIP ++
    Codec.uint16.write tok.bootstrapPort)

def payload : List UInt8 :=
  Codec.uint8.write tok.version ++ tok.fields ++
    if supportedVersion ≤ tok.version then tok.bootstrapFields else []

end Token

/-- `Encode` before base64. -/
def encodeRaw (tok : Token) : Except TokenError (List UInt8) :=
  let go (tok : Token) := tok.payload ++ Codec.uint32.write (checksumIEEE tok.payload)
  if tok.version = 0 then .ok (go { tok with version := supportedVersion })
  else if tok.version ≠ legacyVersion ∧ tok.version ≠ supportedVersion then .error .errUnsupportedVersion
  else .ok (go tok)

def encode (tok : Token) : Except TokenError (List UInt8) :=
  (encodeRaw tok).map Base64.encodeToString

/-! ## Decoding -/

/-- A field that `r.Read` fills. -/
def read {α : Type} (c : Codec α) (r : List UInt8) : Except TokenError (α × List UInt8) :=
  (Reader.read c r).mapError .reader

/-- A field that `binary.Read` fills. -/
def binaryRead {α : Type} (c : Codec α) (r : List UInt8) : Except TokenError (α × List UInt8) :=
  (Reader.readFull c r).mapError .reader

/-- The fields after the version, and what is left to read. -/
def readFields (version : UInt8) (r : List UInt8) : Except TokenError (Token × List UInt8) := do
  let (sessionID, r) ← read (Codec.array 16 (Nat.succ_pos 15)) r
  let (expiresUnix, r) ← binaryRead Codec.int64 r
  let (bootstrapRegion, r) ← binaryRead Codec.uint16 r
  let (derpPublic, r) ← read (Codec.array 32 (Nat.succ_pos 31)) r
  let (quicPublic, r) ← read (Codec.array 32 (Nat.succ_pos 31)) r
  let (bearerSecret, r) ← read (Codec.array 32 (Nat.succ_pos 31)) r
  let (capabilities, r) ← binaryRead Codec.uint32 r
  let tok : Token := {
    version := version
    sessionID := sessionID
    expiresUnix := expiresUnix
    bootstrapRegion := bootstrapRegion
    derpPublic := derpPublic
    quicPublic := quicPublic
    bearerSecret := bearerSecret
    capabilities := capabilities
    bootstrapIP := Vector.replicate 16 0
    bootstrapPort := 0
    bootstrapFamily := 0 }
  if supportedVersion ≤ version then do
    let (bootstrapFamily, r) ← binaryRead Codec.uint8 r
    let (bootstrapIP, r) ← read (Codec.array 16 (Nat.succ_pos 15)) r
    let (bootstrapPort, r) ← binaryRead Codec.uint16 r
    .ok ({ tok with
      bootstrapFamily := bootstrapFamily
      bootstrapIP := bootstrapIP
      bootstrapPort := bootstrapPort }, r)
  else .ok (tok, r)

/-- The length of a token with its checksum. -/
def wantLen (version : UInt8) : Nat :=
  (if supportedVersion ≤ version then fixedPayloadSizeV4 else fixedPayloadSizeV3) + 4

/-- `Decode` after base64.  `now` is `now.Unix()`. -/
def decodeRaw (raw : List UInt8) (now : Int64) : Except TokenError Token :=
  match raw with
  | [] => .error .errInvalidLength
  | version :: _ =>
      if version ≠ legacyVersion ∧ version ≠ supportedVersion then .error .errUnsupportedVersion
      else if raw.length < wantLen version then .error .errInvalidLength
      else
        let payload := raw.take (raw.length - 4)
        if checksumIEEE payload ≠ Codec.uint32.ofBytes (raw.drop (raw.length - 4)) then
          .error .errChecksum
        else do
          let (tok, r) ← readFields version (payload.drop 1)
          if r.length ≠ 0 then .error .errInvalidLength
          else if now ≥ tok.expiresUnix then .error .errExpired
          else .ok tok

def decode (encoded : List UInt8) (now : Int64) : Except TokenError Token :=
  match Base64.decodeString encoded with
  | none => .error .corruptInput
  | some raw => decodeRaw raw now

/-! ## The bootstrap address -/

namespace Token

def setNativeTCPBootstrapAddr (tok : Token) (addr : AddrPort) : Token :=
  if !addr.isValid then
    { tok with
      bootstrapFamily := bootstrapFamilyNone
      bootstrapIP := Vector.replicate 16 0
      bootstrapPort := 0 }
  else
    let ip := addr.addr.unmap
    if ip.is4 then
      { tok with
        bootstrapFamily := bootstrapFamilyV4
        bootstrapIP := copyInto 16 ip.asSlice
        bootstrapPort := addr.port }
    else
      { tok with
        bootstrapFamily := bootstrapFamilyV6
        bootstrapIP := ip.as16
        bootstrapPort := addr.port }

/-- `NativeTCPBootstrapAddr`, with `none` for `false`. -/
def nativeTCPBootstrapAddr (tok : Token) : Option AddrPort :=
  if tok.bootstrapFamily = bootstrapFamilyV4 then
    let addr := Addr.v4 (copyInto 4 (tok.bootstrapIP.toList.take 4))
    if !addr.isValid || tok.bootstrapPort = 0 then none else some ⟨addr, tok.bootstrapPort⟩
  else if tok.bootstrapFamily = bootstrapFamilyV6 then
    let addr := Addr.v6 tok.bootstrapIP ""
    if !addr.isValid || tok.bootstrapPort = 0 then none else some ⟨addr, tok.bootstrapPort⟩
  else none

end Token

end SessionToken
