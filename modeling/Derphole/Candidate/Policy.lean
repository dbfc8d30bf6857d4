import Derphole.Lib.AddrPrint
import Derphole.Lib.Distinct

/-!
# Candidate addresses

`pkg/candidate`: which addresses a party advertises, in which spelling, and which ones it accepts from a
peer.  What a party advertises is a claim that its peer accepts, and the peer reads the same addresses
from it in the same order.
-/

open Lib Lib.Netip

namespace Candidate

def maxCount : Nat := 32

def maxLength : Nat := 128

inductive Error where
  | invalid
  deriving DecidableEq

structure Policy where
  allowLoopback : Bool
  deriving DecidableEq

abbrev Opt := Policy → Policy

def allowLoopback : Opt := fun p => { p with allowLoopback := true }

/-- An option may be nil. -/
def newPolicy (opts : List (Option Opt)) : Policy :=
  opts.foldl (fun p opt => match opt with | none => p | some opt => opt p) ⟨false⟩

/-- `net.Addr`: a UDP or TCP address, or another one that is known by its text only. -/
inductive NetAddr where
  | udp (a : UDPAddr)
  | tcp (a : UDPAddr)
  | other (text : List Char)
  deriving DecidableEq

/-! ## Which addresses are good -/

def validLocalAddrPort (ap : AddrPort) : Bool :=
  ap.port != 0 && ap.addr.isValid && ap.addr.zone == "" && !ap.addr.isUnspecified && !ap.addr.isMulticast

def validPeerAddrPort (ap : AddrPort) (p : Policy) : Bool :=
  if ap.addr.isLoopback && !p.allowLoopback then false
  else
    ap.port != 0 && ap.addr.isValid && ap.addr.zone == "" && !ap.addr.isUnspecified && !ap.addr.isMulticast

def validLocalAdvertiseAddrPort (ap : AddrPort) : Bool := validLocalAddrPort ap && !ap.addr.isLoopback

/-- The text has to be the canonical spelling. -/
def parseAddrPort (value : List Char) (valid : AddrPort → Bool) : Option AddrPort :=
  if value.length = 0 ∨ value.length > maxLength then none
  else
    match Netip.parseAddrPort value with
    | none => none
    | some ap => if ap.string ≠ value ∨ valid ap = false then none else some ap

def parsePeerAddrPort (value : List Char) (p : Policy) : Option AddrPort :=
  parseAddrPort value fun ap => validPeerAddrPort ap p

def parseLocalAddrPort (value : List Char) : Option AddrPort := parseAddrPort value validLocalAddrPort

/-! ## From `net.Addr` and back -/

def addrFromSlice (ip : IP) : Option Addr := (addrFrom4 ip).or (addrFrom16 ip [])

/-- An IPv4 address has no zone. -/
def withZone (addr : Addr) (zone : String) : Addr :=
  match addr with
  | .v6 bytes _ => .v6 bytes zone
  | addr => addr

def addrPortFromIPPort (ip : IP) (port : Int) (zone : String) : Option AddrPort :=
  if ip = [] ∨ port ≤ 0 ∨ port > 65535 then none
  else
    match addrFromSlice ip with
    | none => none
    | some addr =>
        let addr := addr.unmap
        let addr := if zone ≠ "" then withZone addr zone else addr
        some ⟨addr, UInt16.ofNat port.toNat⟩

def addrPortFromNetAddr : NetAddr → Option AddrPort
  | .udp a => addrPortFromIPPort a.ip a.port a.zone
  | .tcp a => addrPortFromIPPort a.ip a.port a.zone
  | .other text =>
      match splitHostPort text with
      | none => none
      | some (host, port) =>
          match parseAddr host with
          | none => none
          | some ip =>
              if ip.zone ≠ "" then none
              else (parseUint 65535 port).map fun parsedPort => ⟨ip, UInt16.ofNat parsedPort⟩

/-- `net.UDPAddrFromAddrPort`. -/
def udpAddrFromAddrPort (ap : AddrPort) : UDPAddr := ⟨ap.addr.asSlice, ap.port.toNat, ap.addr.zone⟩

/-! ## The lists -/

local instance lawfulText : LawfulBEq (List Char) := inferInstance

/-- The loop of `parseAddrs` and `StringifyLocalAddrs`: what is read, each address once, up to `MaxCount`. -/
def collect {α β : Type} (read : α → Option AddrPort) (emit : AddrPort → β) :
    List α → List (List Char) → List β → List β
  | [], _, out => out
  | value :: values, seen, out =>
      match read value with
      | none => collect read emit values seen out
      | some ap =>
          let canonical := ap.string
          if canonical ∈ seen then collect read emit values seen out
          else if (out ++ [emit ap]).length = maxCount then out ++ [emit ap]
          else collect read emit values (canonical :: seen) (out ++ [emit ap])

def parseAddrs (values : List (List Char)) (parse : List Char → Option AddrPort) : List UDPAddr :=
  collect parse udpAddrFromAddrPort values [] []

def parsePeerAddrs (values : List (List Char)) (opts : List (Option Opt)) : List UDPAddr :=
  parseAddrs values fun value => parsePeerAddrPort value (newPolicy opts)

def parseLocalAddrs (values : List (List Char)) : List UDPAddr := parseAddrs values parseLocalAddrPort

def localAdvertise (addr : NetAddr) : Option AddrPort :=
  (addrPortFromNetAddr addr).filter validLocalAdvertiseAddrPort

def stringifyLocalAddrs (addrs : List NetAddr) : List (List Char) :=
  collect localAdvertise AddrPort.string addrs [] []

def validateLoop (p : Policy) : List (List Char) → List (List Char) → Except Error Unit
  | [], _ => .ok ()
  | value :: values, seen =>
      match parsePeerAddrPort value p with
      | none => .error .invalid
      | some ap => if ap.string ∈ seen then .error .invalid else validateLoop p values (ap.string :: seen)

def validateClaimStrings (values : List (List Char)) (opts : List (Option Opt)) : Except Error Unit :=
  if values.length > maxCount then .error .invalid else validateLoop (newPolicy opts) values []

/-! ## What is good has one spelling -/

/-- An address that is printed so that it can be read back. -/
def Printable (ap : AddrPort) : Prop := ap.addr.isValid = true ∧ ap.addr.zone = ""

theorem Printable.string_injective {ap ap' : AddrPort} (h : Printable ap) (h' : Printable ap')
    (heq : ap.string = ap'.string) : ap = ap' := by
  have hread := Netip.parseAddrPort_string h.1 h.2
  rw [heq, Netip.parseAddrPort_string h'.1 h'.2] at hread
  exact (Option.some.inj hread).symm

theorem printable_of_validLocal {ap : AddrPort} (h : validLocalAddrPort ap = true) : Printable ap := by
  simp only [validLocalAddrPort, Bool.and_eq_true, beq_iff_eq] at h
  exact ⟨h.1.1.1.2, h.1.1.2⟩

theorem validPeerAddrPort_iff {ap : AddrPort} {p : Policy} :
    validPeerAddrPort ap p = true ↔
      validLocalAddrPort ap = true ∧ (ap.addr.isLoopback = true → p.allowLoopback = true) := by
  unfold validPeerAddrPort validLocalAddrPort
  cases ap.addr.isLoopback <;> cases p.allowLoopback <;> simp

theorem parseAddrPort_eq_some {value : List Char} {valid : AddrPort → Bool} {ap : AddrPort}
    (h : parseAddrPort value valid = some ap) : ap.string = value ∧ valid ap = true := by
  unfold parseAddrPort at h
  split at h
  · cases h
  · split at h
    · cases h
    · split at h
      · cases h
      · next hgood =>
          cases h
          simpa only [not_or, ne_eq, not_not, Bool.not_eq_false] using hgood

theorem parseAddrPort_of_valid {valid : AddrPort → Bool} {ap : AddrPort} (hap : Printable ap)
    (hvalid : valid ap = true) : parseAddrPort ap.string valid = some ap := by
  obtain ⟨hpos, hshort⟩ := AddrPort.length_string hap.1 hap.2
  rw [parseAddrPort, if_neg (by simp only [maxLength]; omega), Netip.parseAddrPort_string hap.1 hap.2]
  simp only [ne_eq, not_true_eq_false, hvalid, Bool.true_eq_false, or_self, if_false]

/-! ## The loops -/

section

variable {α β : Type} {read : α → Option AddrPort} {emit : AddrPort → β}

/-- The loop keeps the first of each address. -/
theorem collect_spec (hread : ∀ a ap, read a = some ap → Printable ap) (values : List α) (kept : List AddrPort)
    (hkept : ∀ ap ∈ kept, Printable ap) (hnodup : kept.eraseDups = kept) (hroom : kept.length < maxCount) :
    collect read emit values (kept.reverse.map AddrPort.string) (kept.map emit) =
      ((kept ++ values.filterMap read).eraseDups.take maxCount).map emit := by
  induction values generalizing kept with
  | nil => rw [collect, List.filterMap_nil, List.append_nil, hnodup, List.take_of_length_le (by omega)]
  | cons value values ih =>
      rw [collect]
      cases hvalue : read value with
      | none =>
          rw [List.filterMap_cons_none hvalue]
          exact ih kept hkept hnodup hroom
      | some ap =>
          have hap := hread value ap hvalue
          rw [List.filterMap_cons_some hvalue]
          have hseen : ap.string ∈ kept.reverse.map AddrPort.string ↔ ap ∈ kept := by
            simp only [List.mem_map, List.mem_reverse]
            constructor
            · rintro ⟨ap', hmem, heq⟩
              rwa [← (hkept ap' hmem).string_injective hap heq]
            · exact fun hmem => ⟨ap, hmem, rfl⟩
          by_cases hmem : ap ∈ kept
          · have hdup : (kept ++ ap :: values.filterMap read).eraseDups = (kept ++ values.filterMap read).eraseDups := by
              have hold : (ap :: values.filterMap read).removeAll kept = (values.filterMap read).removeAll kept := by
                simp [List.removeAll, hmem]
              rw [List.eraseDups_append, List.eraseDups_append, hold]
            rw [hdup]
            simp only [hseen, hmem, if_true]
            exact ih kept hkept hnodup hroom
          · have hnodup' : (kept ++ [ap]).eraseDups = kept ++ [ap] := by
              have hnew : [ap].removeAll kept = [ap] := by simp [List.removeAll, hmem]
              rw [List.eraseDups_append, hnodup, hnew]
              rfl
            have hout : kept.map emit ++ [emit ap] = (kept ++ [ap]).map emit := by simp
            have hassoc : kept ++ ap :: values.filterMap read = kept ++ [ap] ++ values.filterMap read := by simp
            simp only [hseen, hmem, if_false, hout, hassoc]
            split
            · next hfull =>
                rw [List.length_map] at hfull
                rw [List.eraseDups_append, hnodup', List.take_left' hfull]
            · next hopen =>
                have hroom' : (kept ++ [ap]).length < maxCount := by
                  rw [List.length_map, List.length_append, List.length_singleton] at hopen
                  rw [List.length_append, List.length_singleton]
                  omega
                have hall : ∀ ap' ∈ kept ++ [ap], Printable ap' := by
                  intro ap' hap'
                  rcases List.mem_append.mp hap' with hold | hnew
                  · exact hkept ap' hold
                  · rwa [List.mem_singleton.mp hnew]
                have hcollect := ih (kept ++ [ap]) hall hnodup' hroom'
                rwa [List.reverse_append, List.map_append] at hcollect

theorem collect_eq (hread : ∀ a ap, read a = some ap → Printable ap) (values : List α) :
    collect read emit values [] [] = ((values.filterMap read).eraseDups.take maxCount).map emit := by
  have h : collect read emit values [] [] = _ := collect_spec hread values [] nofun rfl (by decide)
  rwa [List.nil_append] at h

end

section

variable {opts : List (Option Opt)}

theorem parsePeerAddrPort_eq_some {value : List Char} {p : Policy} {ap : AddrPort} :
    parsePeerAddrPort value p = some ap ↔ ap.string = value ∧ validPeerAddrPort ap p = true := by
  constructor
  · exact parseAddrPort_eq_some
  · rintro ⟨rfl, hvalid⟩
    exact parseAddrPort_of_valid (printable_of_validLocal (validPeerAddrPort_iff.mp hvalid).1) hvalid

/-- What `ParsePeerAddrs` takes from the values. -/
def accepted (values : List (List Char)) (opts : List (Option Opt)) : List AddrPort :=
  (values.filterMap fun value => parsePeerAddrPort value (newPolicy opts)).eraseDups.take maxCount

theorem parsePeerAddrs_eq (values : List (List Char)) :
    parsePeerAddrs values opts = (accepted values opts).map udpAddrFromAddrPort := by
  refine collect_eq ?_ values
  intro value ap hread
  have hvalid := (parsePeerAddrPort_eq_some.mp hread).2
  exact printable_of_validLocal (validPeerAddrPort_iff.mp hvalid).1

/-- The addresses that are advertised. -/
def advertised (addrs : List NetAddr) : List AddrPort := (addrs.filterMap localAdvertise).eraseDups.take maxCount

theorem localAdvertise_eq_some {addr : NetAddr} {ap : AddrPort} (h : localAdvertise addr = some ap) :
    validLocalAdvertiseAddrPort ap = true := (Option.filter_eq_some_iff.mp h).2

theorem stringifyLocalAddrs_eq (addrs : List NetAddr) :
    stringifyLocalAddrs addrs = (advertised addrs).map AddrPort.string := by
  refine collect_eq ?_ addrs
  intro addr ap hread
  have hvalid := localAdvertise_eq_some hread
  rw [validLocalAdvertiseAddrPort, Bool.and_eq_true] at hvalid
  exact printable_of_validLocal hvalid.1

end

/-! ## Printed addresses -/

section

variable {opts : List (Option Opt)} {p : Policy} {aps : List AddrPort}

theorem filterMap_map_string (hgood : ∀ ap ∈ aps, validPeerAddrPort ap p = true) :
    (aps.map AddrPort.string).filterMap (fun value => parsePeerAddrPort value p) = aps := by
  induction aps with
  | nil => rfl
  | cons ap aps ih =>
      have hread : parsePeerAddrPort ap.string p = some ap :=
        parsePeerAddrPort_eq_some.mpr ⟨rfl, hgood ap List.mem_cons_self⟩
      rw [List.map_cons, List.filterMap_cons, hread, ih fun ap' hap' => hgood ap' (List.mem_cons_of_mem ap hap')]

/-- The values that are taken are their own canonical spelling. -/
theorem map_string_filterMap (values : List (List Char)) (p : Policy) :
    (values.filterMap fun value => parsePeerAddrPort value p).map AddrPort.string =
      values.filter fun value => (parsePeerAddrPort value p).isSome := by
  rw [List.map_filterMap, ← List.filterMap_eq_filter]
  congr 1
  funext value
  cases hread : parsePeerAddrPort value p with
  | none => simp [Option.guard, hread]
  | some ap => simp [Option.guard, hread, (parsePeerAddrPort_eq_some.mp hread).1]

theorem good_of_mem_accepted {values : List (List Char)} {ap : AddrPort} (h : ap ∈ accepted values opts) :
    validPeerAddrPort ap (newPolicy opts) = true := by
  obtain ⟨value, -, hread⟩ := List.mem_filterMap.mp (List.mem_eraseDups.mp (List.mem_of_mem_take h))
  exact (parsePeerAddrPort_eq_some.mp hread).2

theorem map_string_accepted_sublist (values : List (List Char)) :
    ((accepted values opts).map AddrPort.string).Sublist values := by
  have htaken : (accepted values opts).Sublist
      (values.filterMap fun value => parsePeerAddrPort value (newPolicy opts)) :=
    (List.take_sublist _ _).trans (eraseDups_sublist _)
  have hsub := htaken.map AddrPort.string
  rw [map_string_filterMap] at hsub
  exact hsub.trans List.filter_sublist

/-- An address is passed over only behind a full list. -/
theorem mem_accepted_or_full {values : List (List Char)} {ap : AddrPort} (hmem : ap.string ∈ values)
    (hgood : validPeerAddrPort ap (newPolicy opts) = true) :
    ap ∈ accepted values opts ∨ (accepted values opts).length = maxCount := by
  have hread : ap ∈ (values.filterMap fun value => parsePeerAddrPort value (newPolicy opts)).eraseDups := by
    rw [List.mem_eraseDups, List.mem_filterMap]
    exact ⟨ap.string, hmem, parsePeerAddrPort_eq_some.mpr ⟨rfl, hgood⟩⟩
  unfold accepted
  by_cases hfew :
      (values.filterMap fun value => parsePeerAddrPort value (newPolicy opts)).eraseDups.length ≤ maxCount
  · exact .inl (by rwa [List.take_of_length_le hfew])
  · exact .inr (by rw [List.length_take]; omega)

/-- A party's own candidates may be loopback addresses. -/
theorem parseLocalAddrs_eq (values : List (List Char)) :
    parseLocalAddrs values = parsePeerAddrs values [some allowLoopback] := by
  have hvalid : validLocalAddrPort = fun ap => validPeerAddrPort ap (newPolicy [some allowLoopback]) := by
    funext ap
    rw [Bool.eq_iff_iff, validPeerAddrPort_iff]
    exact ⟨fun h => ⟨h, fun _ => rfl⟩, fun h => h.1⟩
  unfold parseLocalAddrs parseLocalAddrPort
  rw [hvalid]
  rfl

theorem accepted_map_string (hgood : ∀ ap ∈ aps, validPeerAddrPort ap (newPolicy opts) = true) (hnodup : aps.Nodup)
    (hcount : aps.length ≤ maxCount) : accepted (aps.map AddrPort.string) opts = aps := by
  rw [accepted, filterMap_map_string hgood, eraseDups_of_nodup hnodup, List.take_of_length_le hcount]

theorem validateLoop_ok_iff {values seen : List (List Char)} :
    validateLoop p values seen = .ok () ↔
      ∃ aps : List AddrPort, values = aps.map AddrPort.string ∧ (∀ ap ∈ aps, validPeerAddrPort ap p = true) ∧ aps.Nodup ∧
        ∀ ap ∈ aps, ap.string ∉ seen := by
  induction values generalizing seen with
  | nil =>
      constructor
      · exact fun _ => ⟨[], rfl, nofun, List.nodup_nil, nofun⟩
      · exact fun _ => rfl
  | cons value values ih =>
      rw [validateLoop]
      constructor
      · intro h
        split at h
        · cases h
        · next ap hread =>
            obtain ⟨rfl, hvalid⟩ := parsePeerAddrPort_eq_some.mp hread
            split at h
            · cases h
            · next hnew =>
                obtain ⟨aps, rfl, hgood, hnodup, hseen⟩ := ih.mp h
                refine ⟨ap :: aps, rfl, ?_, ?_, ?_⟩
                · exact List.forall_mem_cons.mpr ⟨hvalid, hgood⟩
                · refine List.nodup_cons.mpr ⟨fun hmem => ?_, hnodup⟩
                  exact hseen ap hmem List.mem_cons_self
                · refine List.forall_mem_cons.mpr ⟨hnew, fun ap' hap' hmem => ?_⟩
                  exact hseen ap' hap' (List.mem_cons_of_mem _ hmem)
      · rintro ⟨aps, heq, hgood, hnodup, hseen⟩
        obtain ⟨ap, aps, rfl, rfl, rfl⟩ : ∃ ap aps', aps = ap :: aps' ∧ ap.string = value ∧
            aps'.map AddrPort.string = values := by
          cases aps with
          | nil => cases heq
          | cons ap aps => exact ⟨ap, aps, rfl, (List.cons.inj heq).1.symm, (List.cons.inj heq).2.symm⟩
        obtain ⟨hvalid, hgood'⟩ := List.forall_mem_cons.mp hgood
        obtain ⟨hnot, hnodup'⟩ := List.nodup_cons.mp hnodup
        obtain ⟨hnew, hseen'⟩ := List.forall_mem_cons.mp hseen
        rw [parsePeerAddrPort_eq_some.mpr ⟨rfl, hvalid⟩]
        simp only [hnew, if_false]
        refine ih.mpr ⟨aps, rfl, hgood', hnodup', ?_⟩
        intro ap' hap' hmem
        rcases List.mem_cons.mp hmem with hsame | hmem
        · have hprintable := fun a (ha : a ∈ ap :: aps) =>
            printable_of_validLocal (validPeerAddrPort_iff.mp (hgood a ha)).1
          have := (hprintable ap' (List.mem_cons_of_mem ap hap')).string_injective (hprintable ap List.mem_cons_self) hsame
          exact hnot (this ▸ hap')
        · exact hseen' ap' hap' hmem

/-- A claim is accepted when its values are the texts of different good addresses. -/
theorem validateClaimStrings_ok_iff {values : List (List Char)} :
    validateClaimStrings values opts = .ok () ↔
      ∃ aps : List AddrPort, values = aps.map AddrPort.string ∧ (∀ ap ∈ aps, validPeerAddrPort ap (newPolicy opts) = true) ∧
        aps.Nodup ∧ aps.length ≤ maxCount := by
  unfold validateClaimStrings
  split
  · next hlong =>
      constructor
      · nofun
      · rintro ⟨aps, rfl, -, -, hcount⟩
        rw [List.length_map] at hlong
        omega
  · next hshort =>
      rw [validateLoop_ok_iff]
      constructor
      · rintro ⟨aps, rfl, hgood, hnodup, -⟩
        rw [List.length_map] at hshort
        exact ⟨aps, rfl, hgood, hnodup, by omega⟩
      · rintro ⟨aps, rfl, hgood, hnodup, -⟩
        exact ⟨aps, rfl, hgood, hnodup, fun _ _ => List.not_mem_nil⟩

/-- The claim is accepted when reading it loses nothing. -/
theorem validateClaimStrings_ok_iff_length {values : List (List Char)} :
    validateClaimStrings values opts = .ok () ↔ (accepted values opts).length = values.length := by
  rw [validateClaimStrings_ok_iff]
  constructor
  · rintro ⟨aps, rfl, hgood, hnodup, hcount⟩
    rw [accepted_map_string hgood hnodup hcount, List.length_map]
  · intro hlength
    generalize hread : values.filterMap (fun value => parsePeerAddrPort value (newPolicy opts)) = aps
    have hfew : aps.length ≤ values.length := by
      rw [← hread]
      exact List.length_filterMap_le _ _
    have hfewer := (eraseDups_sublist aps).length_le
    rw [accepted, hread, List.length_take] at hlength
    have hsome : ∀ value ∈ values, (parsePeerAddrPort value (newPolicy opts)).isSome = true := by
      refine List.filterMap_length_eq_length.mp ?_
      rw [hread]
      omega
    have hdistinct : aps.eraseDups = aps := (eraseDups_sublist aps).eq_of_length (by omega)
    refine ⟨aps, ?_, ?_, hdistinct ▸ nodup_eraseDups aps, by omega⟩
    · rw [← hread, map_string_filterMap, List.filter_eq_self.mpr hsome]
    · intro ap hap
      rw [← hread] at hap
      obtain ⟨value, -, hvalue⟩ := List.mem_filterMap.mp hap
      exact (parsePeerAddrPort_eq_some.mp hvalue).2

theorem advertised_good {addrs : List NetAddr} {ap : AddrPort} (h : ap ∈ advertised addrs) (p : Policy) :
    validPeerAddrPort ap p = true := by
  have hmem := List.mem_eraseDups.mp (List.mem_of_mem_take h)
  obtain ⟨addr, -, haddr⟩ := List.mem_filterMap.mp hmem
  have hvalid := localAdvertise_eq_some haddr
  rw [validLocalAdvertiseAddrPort, Bool.and_eq_true] at hvalid
  refine validPeerAddrPort_iff.mpr ⟨hvalid.1, fun hloop => ?_⟩
  rw [hloop] at hvalid
  cases hvalid.2

end

/-- **Candidates.**  What a party advertises is accepted as a claim and read by the peer, and by the party
itself, as the advertised addresses in their order.  A claim is accepted exactly if reading it gives one
address for each value.  Whatever a peer sends, at most `MaxCount` different addresses are read from it,
all good ones, and nothing good is passed over before there are as many. -/
theorem candidate_exchange (opts : List (Option Opt)) :
    (∀ addrs : List NetAddr,
      validateClaimStrings (stringifyLocalAddrs addrs) opts = .ok () ∧
      parsePeerAddrs (stringifyLocalAddrs addrs) opts = (advertised addrs).map udpAddrFromAddrPort ∧
      parseLocalAddrs (stringifyLocalAddrs addrs) = (advertised addrs).map udpAddrFromAddrPort) ∧
    (∀ values : List (List Char), validateClaimStrings values opts = .ok () ↔
      (parsePeerAddrs values opts).length = values.length) ∧
    ∀ values : List (List Char), ∃ aps : List AddrPort, parsePeerAddrs values opts = aps.map udpAddrFromAddrPort ∧
      aps.length ≤ maxCount ∧ aps.Nodup ∧ (aps.map AddrPort.string).Sublist values ∧
      (∀ ap ∈ aps, validPeerAddrPort ap (newPolicy opts) = true) ∧
      ∀ ap, ap.string ∈ values → validPeerAddrPort ap (newPolicy opts) = true → ap ∈ aps ∨ aps.length = maxCount := by
  refine ⟨fun addrs => ?_, fun values => ?_, fun values => ⟨accepted values opts, parsePeerAddrs_eq values, ?_⟩⟩
  · have hgood : ∀ ap ∈ advertised addrs, validPeerAddrPort ap (newPolicy opts) = true :=
      fun ap hap => advertised_good hap _
    have hnodup : (advertised addrs).Nodup := (nodup_eraseDups _).sublist (List.take_sublist _ _)
    have hcount : (advertised addrs).length ≤ maxCount := List.length_take_le _ _
    rw [stringifyLocalAddrs_eq]
    refine ⟨validateClaimStrings_ok_iff.mpr ⟨_, rfl, hgood, hnodup, hcount⟩, ?_, ?_⟩
    · rw [parsePeerAddrs_eq, accepted_map_string hgood hnodup hcount]
    · rw [parseLocalAddrs_eq, parsePeerAddrs_eq, accepted_map_string (fun ap hap => advertised_good hap _) hnodup hcount]
  · rw [validateClaimStrings_ok_iff_length, parsePeerAddrs_eq, List.length_map]
  · exact ⟨List.length_take_le _ _, (nodup_eraseDups _).sublist (List.take_sublist _ _),
      map_string_accepted_sublist values, fun ap hap => good_of_mem_accepted hap,
      fun ap hmem hgood => mem_accepted_or_full hmem hgood⟩

end Candidate
