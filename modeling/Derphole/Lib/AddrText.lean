import Derphole.Lib.NetAddr

/-!
# Addresses as text

`net.SplitHostPort`, `netip.ParseAddrPort` and the scopes of a `netip.Addr`, as in Go's standard library.
A Go string is the list of its bytes, each as a character.

Brackets and colons are looked at from both ends of the text: a port is what follows the last colon, and
an IPv6 address with a port stands in brackets.
-/

namespace Lib

/-- The last index of a character. -/
def lastIndexOf (c : Char) (s : List Char) : Option Nat :=
  (s.reverse.idxOf? c).map fun k => s.length - 1 - k

/-- `net.SplitHostPort`, without the texts of its errors. -/
def splitHostPort (hostport : List Char) : Option (List Char × List Char) :=
  match lastIndexOf ':' hostport with
  | none => none
  | some i =>
      let port := hostport.drop (i + 1)
      if hostport.head? = some '[' then
        match hostport.idxOf? ']' with
        | none => none
        | some last =>
            if last + 1 ≠ i then none
            else if '[' ∈ hostport.drop 1 ∨ ']' ∈ hostport.drop (last + 1) then none
            else some ((hostport.take last).drop 1, port)
      else
        let host := hostport.take i
        if ':' ∈ host then none
        else if '[' ∈ hostport ∨ ']' ∈ hostport then none
        else some (host, port)

/-! ## Numbers -/

def decimalValue (s : List Char) : Nat := s.foldl (fun n c => 10 * n + (c.toNat - 48)) 0

/-- `strconv.ParseUint` with base 10. -/
def parseUint (max : Nat) (s : List Char) : Option Nat :=
  if s = [] ∨ s.any (fun c => !c.isDigit) ∨ max < decimalValue s then none
  else some (decimalValue s)

def hexValue (c : Char) : Option Nat :=
  if c.isDigit then some (c.toNat - 48)
  else if 'a' ≤ c ∧ c ≤ 'f' then some (c.toNat - 87)
  else if 'A' ≤ c ∧ c ≤ 'F' then some (c.toNat - 55)
  else none

namespace Netip

/-! ## Addresses -/

/-- A field of an IPv4 address: no leading zero, and at most 255. -/
def parseOctet (s : List Char) : Option UInt8 :=
  if s.length ≥ 2 ∧ s.head? = some '0' then none else (parseUint 255 s).map UInt8.ofNat

def parseIPv4Fields (s : List Char) : Option (List UInt8) :=
  let fields := s.splitOn '.'
  if fields.length = 4 then fields.mapM parseOctet else none

/-- The loop over the groups of an IPv6 address, with the bytes so far and where the ellipsis was.  An IPv4
address may stand for the last two groups. -/
def parseIPv6Groups : Nat → List UInt8 → Option Nat → List Char →
    Option (List UInt8 × Option Nat × List Char)
  | 0, ip, ellipsis, s => some (ip, ellipsis, s)
  | groups + 1, ip, ellipsis, s =>
      let digits := s.takeWhile fun c => (hexValue c).isSome
      let acc := digits.foldl (fun n c => 16 * n + (hexValue c).getD 0) 0
      let next := ip ++ [UInt8.ofNat (acc / 256), UInt8.ofNat (acc % 256)]
      if digits.length > 4 ∨ digits = [] then none
      else
        match s.drop digits.length with
        | '.' :: _ =>
            if ellipsis = none ∧ ip.length ≠ 12 then none
            else if ip.length + 4 > 16 then none
            else (parseIPv4Fields s).map fun fields => (ip ++ fields, ellipsis, [])
        | [] => some (next, ellipsis, [])
        | [':'] => none
        | ':' :: ':' :: s =>
            if ellipsis.isSome then none
            else if s = [] then some (next, some next.length, [])
            else parseIPv6Groups groups next (some next.length) s
        | ':' :: s => parseIPv6Groups groups next ellipsis s
        | _ => none

def addrFrom16 (bytes : List UInt8) (zone : List Char) : Option Addr :=
  if h : bytes.length = 16 then some (.v6 ⟨bytes.toArray, h⟩ (String.ofList zone)) else none

/-- The bytes with as many zeros as are missing where the ellipsis was. -/
def expandEllipsis : List UInt8 × Option Nat × List Char → Option (List UInt8)
  | (ip, ellipsis, s) =>
      if s ≠ [] then none
      else
        match ellipsis with
        | none => if ip.length = 16 then some ip else none
        | some e =>
            if ip.length < 16 then some (ip.take e ++ List.replicate (16 - ip.length) 0 ++ ip.drop e) else none

def parseIPv6 (text : List Char) : Option Addr :=
  let s := text.takeWhile (· ≠ '%')
  let zone := text.drop (s.length + 1)
  if '%' ∈ text ∧ zone = [] then none
  else
    match s with
    | [':', ':'] => addrFrom16 (List.replicate 16 0) zone
    | ':' :: ':' :: s =>
        (parseIPv6Groups 8 [] (some 0) s).bind fun result =>
          (expandEllipsis result).bind fun ip => addrFrom16 ip zone
    | _ =>
        (parseIPv6Groups 8 [] none s).bind fun result =>
          (expandEllipsis result).bind fun ip => addrFrom16 ip zone

def addrFrom4 (bytes : List UInt8) : Option Addr :=
  if h : bytes.length = 4 then some (.v4 ⟨bytes.toArray, h⟩) else none

/-- `netip.ParseAddr`: the first dot, colon or percent sign says what it may be. -/
def parseAddr (s : List Char) : Option Addr :=
  match s.find? fun c => c == '.' || c == ':' || c == '%' with
  | some '.' => (parseIPv4Fields s).bind addrFrom4
  | some ':' => parseIPv6 s
  | _ => none

/-- `splitAddrPort`: the address, the port, and whether the address stood in brackets. -/
def splitAddrPort (s : List Char) : Option (List Char × List Char × Bool) :=
  match lastIndexOf ':' s with
  | none => none
  | some i =>
      let ip := s.take i
      let port := s.drop (i + 1)
      if ip = [] ∨ port = [] then none
      else if ip.head? = some '[' then
        if ip.length < 2 ∨ ip.getLast? ≠ some ']' then none else some (ip.tail.dropLast, port, true)
      else some (ip, port, false)

def parseAddrPort (s : List Char) : Option AddrPort :=
  match splitAddrPort s with
  | none => none
  | some (ip, port, v6) =>
      match parseUint 65535 port, parseAddr ip with
      | some port, some addr => if v6 = addr.is4 then none else some ⟨addr, UInt16.ofNat port⟩
      | _, _ => none

example : parseAddrPort "10.0.0.1:080".toList = some ⟨.v4 #v[10, 0, 0, 1], 80⟩ := by decide +kernel

example : parseAddrPort "[fd7a:115c:a1e0::1.2.3.4%eth0]:7".toList =
    some ⟨.v6 #v[0xfd, 0x7a, 0x11, 0x5c, 0xa1, 0xe0, 0, 0, 0, 0, 0, 0, 1, 2, 3, 4] "eth0", 7⟩ := by
  decide +kernel

example : ["10.0.0.01:1", "10.0.0:1", "[10.0.0.1]:1", "::1:1", "[1:2:3:4:5:6:7:8::]:1", "[::1%]:1"].map
    (fun s => parseAddrPort s.toList) = List.replicate 6 none := by
  decide +kernel

/-! ## Printing -/

def Addr.is4In6 : Addr → Bool
  | .v6 bytes _ => bytes.toList.take 12 = IP.v4InV6Prefix
  | _ => false

/-- `netip.AddrPort.String`. -/
def AddrPort.string (p : AddrPort) : List Char :=
  let port := toString p.port.toNat
  match p.addr with
  | .zero => "invalid AddrPort".toList
  | .v4 bytes => (IP.string bytes.toList ++ ":" ++ port).toList
  | .v6 bytes zone =>
      let suffix := if zone = "" then "" else "%" ++ zone
      if p.addr.is4In6 then ("[::ffff:" ++ IP.string bytes.toList ++ suffix ++ "]:" ++ port).toList
      else ("[" ++ IP.string6 bytes.toList ++ suffix ++ "]:" ++ port).toList

/-! ## Scopes -/

namespace Addr

def isUnspecified : Addr → Bool
  | zero => false
  | v4 bytes => bytes == Vector.replicate 4 0
  | v6 bytes zone => bytes == Vector.replicate 16 0 && zone == ""

def isLoopback (a : Addr) : Bool :=
  match a.unmap with
  | zero => false
  | v4 bytes => bytes[0]! == 127
  | v6 bytes _ => bytes.toList == IP.ipv6loopback

def isMulticast (a : Addr) : Bool :=
  match a.unmap with
  | zero => false
  | v4 bytes => bytes[0]! &&& 0xf0 == 0xe0
  | v6 bytes _ => bytes[0]! == 0xff

def isLinkLocalUnicast (a : Addr) : Bool :=
  match a.unmap with
  | zero => false
  | v4 bytes => bytes[0]! == 169 && bytes[1]! == 254
  | v6 bytes _ => bytes[0]! == 0xfe && bytes[1]! &&& 0xc0 == 0x80

def isLinkLocalMulticast (a : Addr) : Bool :=
  match a.unmap with
  | zero => false
  | v4 bytes => bytes[0]! == 224 && bytes[1]! == 0 && bytes[2]! == 0
  | v6 bytes _ => bytes[0]! == 0xff && bytes[1]! &&& 0x0f == 0x02

def isPrivate (a : Addr) : Bool :=
  match a.unmap with
  | zero => false
  | v4 bytes =>
      bytes[0]! == 10 || (bytes[0]! == 172 && bytes[1]! &&& 0xf0 == 16) ||
        (bytes[0]! == 192 && bytes[1]! == 168)
  | v6 bytes _ => bytes[0]! &&& 0xfe == 0xfc

def isGlobalUnicast (a : Addr) : Bool :=
  match a.unmap with
  | zero => false
  | v4 bytes =>
      bytes != Vector.replicate 4 0 && bytes != Vector.replicate 4 255 && !a.isLoopback && !a.isMulticast &&
        !a.isLinkLocalUnicast
  | v6 bytes zone =>
      !(bytes == Vector.replicate 16 0 && zone == "") && !a.isLoopback && !a.isMulticast &&
        !a.isLinkLocalUnicast

end Addr

/-- The bits of a byte, highest first. -/
def byteBits (b : UInt8) : List Bool := (List.range 8).map fun i => b.toNat.testBit (7 - i)

/-- `netip.Prefix.Contains`.  No prefix contains an address with a zone, and an IPv4 address in IPv6 form is
not in an IPv4 prefix. -/
def prefixContains (base : List UInt8) (bits : Nat) (a : Addr) : Bool :=
  a.zone == "" && a.asSlice.length == base.length &&
    (a.asSlice.flatMap byteBits).take bits == (base.flatMap byteBits).take bits

end Netip

end Lib
