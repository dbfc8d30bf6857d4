import Mathlib.Data.List.Basic

/-!
# Network addresses

`net.IP` and `net.UDPAddr` of Go's standard library: an IP address is the list of its bytes, of
length 4 or 16 where it is well formed.  `netip.Addr` tells the two kinds apart by its type.
-/

namespace Lib

abbrev IP := List UInt8

namespace IP

/-- The first twelve bytes of an IPv4 address in IPv6 form. -/
def v4InV6Prefix : IP := [0, 0, 0, 0, 0, 0, 0, 0, 0, 0, 255, 255]

def ipv6loopback : IP := [0, 0, 0, 0, 0, 0, 0, 0, 0, 0, 0, 0, 0, 0, 0, 1]

def to4 (ip : IP) : Option IP :=
  if ip.length = 4 then some ip
  else if ip.length = 16 ∧ ip.take 12 = v4InV6Prefix then some (ip.drop 12)
  else none

def equal (ip x : IP) : Bool :=
  if ip.length = x.length then ip == x
  else if ip.length = 4 ∧ x.length = 16 then x.take 12 == v4InV6Prefix && ip == x.drop 12
  else if ip.length = 16 ∧ x.length = 4 then ip.take 12 == v4InV6Prefix && ip.drop 12 == x
  else false

def isLoopback (ip : IP) : Bool :=
  match ip.to4 with
  | some ip4 => ip4.getD 0 0 == 127
  | none => ip.equal ipv6loopback

def isLinkLocalUnicast (ip : IP) : Bool :=
  match ip.to4 with
  | some ip4 => ip4.getD 0 0 == 169 && ip4.getD 1 0 == 254
  | none => ip.length == 16 && ip.getD 0 0 == 0xfe && ip.getD 1 0 &&& 0xc0 == 0x80

def isPrivate (ip : IP) : Bool :=
  match ip.to4 with
  | some ip4 =>
      ip4.getD 0 0 == 10 || (ip4.getD 0 0 == 172 && ip4.getD 1 0 &&& 0xf0 == 16) ||
        (ip4.getD 0 0 == 192 && ip4.getD 1 0 == 168)
  | none => ip.length == 16 && ip.getD 0 0 &&& 0xfe == 0xfc

/-! ## Text -/

/-- The eight groups of an IPv6 address. -/
def groups : IP → List Nat
  | hi :: lo :: rest => (256 * hi.toNat + lo.toNat) :: groups rest
  | _ => []

def zeroRun (gs : List Nat) (i : Nat) : Nat := ((gs.drop i).takeWhile (· == 0)).length

/-- The first of the longest runs of at least two zero groups, with its length. -/
def longestZeroRun (gs : List Nat) : Option (Nat × Nat) :=
  (List.range gs.length).foldl
    (fun best i =>
      if 2 ≤ zeroRun gs i ∧ (best.elim 0 Prod.snd) < zeroRun gs i then some (i, zeroRun gs i) else best)
    none

def hexGroups (gs : List Nat) : String :=
  ":".intercalate (gs.map fun g => String.ofList (Nat.toDigits 16 g))

def string6 (ip : IP) : String :=
  match longestZeroRun ip.groups with
  | none => hexGroups ip.groups
  | some (start, len) => hexGroups (ip.groups.take start) ++ "::" ++ hexGroups (ip.groups.drop (start + len))

def string (ip : IP) : String :=
  if ip.length = 0 then "<nil>"
  else
    match ip.to4 with
    | some ip4 => ".".intercalate (ip4.map fun b => toString b.toNat)
    | none =>
        if ip.length = 16 then ip.string6
        else "?" ++ String.join (ip.map fun b => String.ofList
          [Nat.digitChar (b.toNat / 16), Nat.digitChar (b.toNat % 16)])

end IP

def joinHostPort (host port : String) : String :=
  if ':' ∈ host.toList then "[" ++ host ++ "]:" ++ port else host ++ ":" ++ port

theorem joinHostPort_ne_empty (host port : String) : joinHostPort host port ≠ "" := by
  unfold joinHostPort
  split <;> simp [String.append_eq_empty_iff]

structure UDPAddr where
  ip : IP
  port : Int
  zone : String
  deriving DecidableEq

namespace UDPAddr

def string (a : UDPAddr) : String :=
  let ip := if a.ip.length = 0 then "" else a.ip.string
  joinHostPort (if a.zone ≠ "" then ip ++ "%" ++ a.zone else ip) (toString a.port)

theorem string_ne_empty (a : UDPAddr) : a.string ≠ "" := joinHostPort_ne_empty _ _

example : (UDPAddr.mk [10, 0, 0, 1] 41641 "").string = "10.0.0.1:41641" := by decide +kernel

example : (UDPAddr.mk [0xfe, 0x80, 0, 0, 0, 0, 0, 0, 0, 1, 0, 0, 0, 0, 0, 0xab] 7 "eth0").string =
    "[fe80::1:0:0:ab%eth0]:7" := by
  decide +kernel

end UDPAddr

/-! ## `netip` -/

namespace Netip

/-- `netip.Addr`.  The zero value is no address. -/
inductive Addr where
  | zero
  | v4 (bytes : Vector UInt8 4)
  | v6 (bytes : Vector UInt8 16) (zone : String)
  deriving DecidableEq

namespace Addr

def isValid : Addr → Bool
  | zero => false
  | _ => true

def is4 : Addr → Bool
  | v4 _ => true
  | _ => false

def zone : Addr → String
  | v6 _ zone => zone
  | _ => ""

/-- An IPv4 address in IPv6 form is read as IPv4. -/
def unmap : Addr → Addr
  | v6 bytes zone =>
      if bytes.toList.take 12 = IP.v4InV6Prefix then v4 (Vector.ofFn fun i : Fin 4 => bytes[12 + i.val])
      else v6 bytes zone
  | a => a

def asSlice : Addr → List UInt8
  | zero => []
  | v4 bytes => bytes.toList
  | v6 bytes _ => bytes.toList

def as16 : Addr → Vector UInt8 16
  | zero => Vector.replicate 16 0
  | v4 bytes => Vector.mk (IP.v4InV6Prefix ++ bytes.toList).toArray (by simp [IP.v4InV6Prefix])
  | v6 bytes _ => bytes

theorem isValid_unmap (a : Addr) : a.unmap.isValid = a.isValid := by
  cases a with
  | zero => rfl
  | v4 bytes => rfl
  | v6 bytes zone =>
      rw [unmap]
      split
      · rfl
      · rfl

theorem zone_unmap {a : Addr} (h : a.zone = "") : a.unmap.zone = "" := by
  cases a with
  | zero => rfl
  | v4 bytes => rfl
  | v6 bytes zone =>
      rw [unmap]
      split
      · rfl
      · exact h

end Addr

structure AddrPort where
  addr : Addr
  port : UInt16
  deriving DecidableEq

def AddrPort.isValid (p : AddrPort) : Bool := p.addr.isValid

end Netip

end Lib
