import Derphole.Lib.AddrText
import Mathlib.Data.List.TakeWhile

/-!
# Printed addresses are read back

`netip.ParseAddrPort` reads what `netip.AddrPort.String` prints, for every address without a zone.  An
IPv6 address is printed with its first longest run of zero groups left out, and the reader puts zeros
where the ellipsis was; an IPv4 address in IPv6 form ends with four decimal fields.
-/

namespace Lib

/-! ## Numbers -/

theorem decimalValue_toDigits (n : Nat) : decimalValue (Nat.toDigits 10 n) = n :=
  Nat.ofDigitChars_ten_toDigits

theorem isDigit_of_mem_toDigits {n : Nat} {c : Char} (h : c ∈ Nat.toDigits 10 n) : c.isDigit = true :=
  Nat.isDigit_of_mem_toDigits (by omega) (by omega) h

theorem parseUint_toDigits {max n : Nat} (h : n ≤ max) : parseUint max (Nat.toDigits 10 n) = some n := by
  have hdigits : (Nat.toDigits 10 n).any (fun c => !c.isDigit) = false := by
    rw [List.any_eq_false]
    intro c hc
    rw [isDigit_of_mem_toDigits hc]
    decide
  rw [parseUint, decimalValue_toDigits, if_neg]
  simp only [Nat.toDigits_ne_nil, hdigits, Bool.false_eq_true, false_or, Nat.not_lt]
  exact h

/-- Only zero starts with a zero. -/
theorem head?_toDigits_ne_zero {n : Nat} (hn : 0 < n) : (Nat.toDigits 10 n).head? ≠ some '0' := by
  induction n using Nat.strongRecOn with
  | ind n ih =>
      rw [Nat.toDigits_eq_if (by omega)]
      split
      · next hlt =>
          have hsmall : ∀ d < 10, 0 < d → [Nat.digitChar d].head? ≠ some '0' := by decide
          exact hsmall n hlt hn
      · rw [List.head?_append_of_ne_nil _ Nat.toDigits_ne_nil]
        exact ih (n / 10) (by omega) (by omega)

/-- The hexadecimal digits of a number. -/
theorem hexValue_digitChar : ∀ d < 16, hexValue (Nat.digitChar d) = some d := by decide

theorem isSome_hexValue_of_mem_toDigits {n : Nat} {c : Char} (h : c ∈ Nat.toDigits 16 n) :
    (hexValue c).isSome = true := by
  induction n using Nat.strongRecOn with
  | ind n ih =>
      rw [Nat.toDigits_eq_if (by omega)] at h
      split at h
      · next hlt =>
          rw [List.mem_singleton.mp h, hexValue_digitChar n hlt]
          rfl
      · rcases List.mem_append.mp h with h | h
        · exact ih (n / 16) (by omega) h
        · rw [List.mem_singleton.mp h, hexValue_digitChar _ (by omega)]
          rfl

theorem foldl_hexValue_toDigits (n : Nat) :
    (Nat.toDigits 16 n).foldl (fun n c => 16 * n + (hexValue c).getD 0) 0 = n := by
  induction n using Nat.strongRecOn with
  | ind n ih =>
      rw [Nat.toDigits_eq_if (by omega)]
      split
      · next hlt => simp [hexValue_digitChar n hlt]
      · rw [List.foldl_append, ih (n / 16) (by omega)]
        simp only [List.foldl_cons, List.foldl_nil, hexValue_digitChar (n % 16) (by omega), Option.getD_some]
        omega

/-! ## IPv4 -/

namespace Netip

/-- The four decimal fields. -/
def octets (bytes : List UInt8) : List Char :=
  ['.'].intercalate (bytes.map fun b => Nat.toDigits 10 b.toNat)

theorem parseOctet_toDigits (b : UInt8) : parseOctet (Nat.toDigits 10 b.toNat) = some b := by
  have hlt := b.toNat_lt
  have hlead : ¬((Nat.toDigits 10 b.toNat).length ≥ 2 ∧ (Nat.toDigits 10 b.toNat).head? = some '0') := by
    rintro ⟨hlong, hhead⟩
    rcases Nat.eq_zero_or_pos b.toNat with hzero | hpos
    · rw [hzero] at hlong
      exact absurd hlong (by decide)
    · exact head?_toDigits_ne_zero hpos hhead
  rw [parseOctet, if_neg hlead, parseUint_toDigits (by omega), Option.map_some, UInt8.ofNat_toNat]

theorem parseIPv4Fields_octets {bytes : List UInt8} (h : bytes.length = 4) :
    parseIPv4Fields (octets bytes) = some bytes := by
  have hdot : ∀ l ∈ bytes.map fun b => Nat.toDigits 10 b.toNat, '.' ∉ l := by
    intro l hl hmem
    obtain ⟨b, -, rfl⟩ := List.mem_map.mp hl
    exact absurd (isDigit_of_mem_toDigits hmem) (by decide)
  have hne : (bytes.map fun b => Nat.toDigits 10 b.toNat) ≠ [] := by
    intro hnil
    rw [List.map_eq_nil_iff.mp hnil] at h
    cases h
  have hfields : ∀ bytes : List UInt8,
      (bytes.map fun b => Nat.toDigits 10 b.toNat).mapM parseOctet = some bytes := by
    intro bytes
    induction bytes with
    | nil => rfl
    | cons b bytes ih => simp [parseOctet_toDigits, ih]
  have hsplit : (octets bytes).splitOn '.' = bytes.map fun b => Nat.toDigits 10 b.toNat :=
    List.splitOn_intercalate '.' hdot hne
  simp only [parseIPv4Fields, hsplit, List.length_map, h, if_true]
  exact hfields bytes

/-! ## Groups of an IPv6 address -/

def groupBytes (gs : List Nat) : List UInt8 := gs.flatMap fun g => [UInt8.ofNat (g / 256), UInt8.ofNat (g % 256)]

def groupsText (gs : List Nat) : List Char := [':'].intercalate (gs.map (Nat.toDigits 16))

@[simp] theorem groupBytes_nil : groupBytes [] = [] := rfl

theorem groupBytes_cons (g : Nat) (gs : List Nat) :
    groupBytes (g :: gs) = [UInt8.ofNat (g / 256), UInt8.ofNat (g % 256)] ++ groupBytes gs := rfl

@[simp] theorem length_groupBytes (gs : List Nat) : (groupBytes gs).length = 2 * gs.length := by
  induction gs with
  | nil => rfl
  | cons g gs ih =>
      rw [groupBytes_cons, List.length_append, ih, List.length_cons]
      simp only [List.length_cons, List.length_nil]
      omega

@[simp] theorem groupsText_nil : groupsText [] = [] := rfl

@[simp] theorem groupsText_singleton (g : Nat) : groupsText [g] = Nat.toDigits 16 g := by
  simp [groupsText]

theorem groupsText_cons {g : Nat} {gs : List Nat} (h : gs ≠ []) :
    groupsText (g :: gs) = Nat.toDigits 16 g ++ ':' :: groupsText gs := by
  obtain ⟨g', gs, rfl⟩ := List.exists_cons_of_ne_nil h
  rw [groupsText, List.map_cons, List.map_cons, List.intercalate_cons_cons, groupsText, List.map_cons,
    List.append_assoc]
  rfl

/-- The text starts with a hexadecimal digit. -/
theorem groupsText_head {gs : List Nat} (h : gs ≠ []) :
    ∃ c rest, groupsText gs = c :: rest ∧ (hexValue c).isSome = true := by
  obtain ⟨g, gs, rfl⟩ := List.exists_cons_of_ne_nil h
  obtain ⟨c, rest, hdigits⟩ := List.exists_cons_of_ne_nil (Nat.toDigits_ne_nil (n := g) (b := 16))
  have hhex : (hexValue c).isSome = true := isSome_hexValue_of_mem_toDigits (n := g) (by simp [hdigits])
  by_cases hgs : gs = []
  · subst hgs
    exact ⟨c, rest, by rw [groupsText_singleton, hdigits], hhex⟩
  · exact ⟨c, rest ++ ':' :: groupsText gs, by rw [groupsText_cons hgs, hdigits, List.cons_append], hhex⟩

section

variable {g k : Nat} {ip : List UInt8} {ellipsis : Option Nat} {s : List Char}

/-- A group, up to the character behind it. -/
theorem takeWhile_toDigits (hs : ∀ c ∈ s.head?, (hexValue c).isSome = false) :
    (Nat.toDigits 16 g ++ s).takeWhile (fun c => (hexValue c).isSome) = Nat.toDigits 16 g := by
  rw [List.takeWhile_append_of_pos fun c hc => isSome_hexValue_of_mem_toDigits hc]
  cases s with
  | nil => exact List.append_nil _
  | cons c s => rw [List.takeWhile_cons_of_neg (by simp [hs c rfl]), List.append_nil]

/-- The loop at a group, given what stands behind it. -/
def behindGroup (k : Nat) (ip next : List UInt8) (ellipsis : Option Nat) (text : List Char) :
    List Char → Option (List UInt8 × Option Nat × List Char)
  | '.' :: _ =>
      if ellipsis = none ∧ ip.length ≠ 12 then none
      else if ip.length + 4 > 16 then none
      else (parseIPv4Fields text).map fun fields => (ip ++ fields, ellipsis, [])
  | [] => some (next, ellipsis, [])
  | [':'] => none
  | ':' :: ':' :: s =>
      if ellipsis.isSome then none
      else if s = [] then some (next, some next.length, [])
      else parseIPv6Groups k next (some next.length) s
  | ':' :: s => parseIPv6Groups k next ellipsis s
  | _ => none

theorem parseIPv6Groups_group (hg : g < 65536) (hs : ∀ c ∈ s.head?, (hexValue c).isSome = false) :
    parseIPv6Groups (k + 1) ip ellipsis (Nat.toDigits 16 g ++ s) =
      behindGroup k ip (ip ++ groupBytes [g]) ellipsis (Nat.toDigits 16 g ++ s) s := by
  have hlength : (Nat.toDigits 16 g).length ≤ 4 :=
    (Nat.length_toDigits_le_iff (by omega) (by omega)).mpr (by omega)
  rw [parseIPv6Groups]
  simp only [takeWhile_toDigits hs, foldl_hexValue_toDigits, List.drop_left]
  rw [if_neg (by simp only [Nat.toDigits_ne_nil, or_false]; omega)]
  rfl

theorem parseIPv6Groups_last (hg : g < 65536) :
    parseIPv6Groups (k + 1) ip ellipsis (Nat.toDigits 16 g) = some (ip ++ groupBytes [g], ellipsis, []) := by
  have h : parseIPv6Groups (k + 1) ip ellipsis (Nat.toDigits 16 g ++ []) = _ := parseIPv6Groups_group hg nofun
  rwa [List.append_nil] at h

theorem parseIPv6Groups_colon (hg : g < 65536) (hs : ∃ c rest, s = c :: rest ∧ (hexValue c).isSome = true) :
    parseIPv6Groups (k + 1) ip ellipsis (Nat.toDigits 16 g ++ ':' :: s) =
      parseIPv6Groups k (ip ++ groupBytes [g]) ellipsis s := by
  obtain ⟨c, rest, rfl, hhex⟩ := hs
  have hcolon : c ≠ ':' := by
    rintro rfl
    exact absurd hhex (by decide)
  rw [parseIPv6Groups_group hg (by simp; decide)]
  unfold behindGroup
  split
  · next h => cases h
  · next h => cases h
  · next h => cases h
  · next h =>
      cases h
      exact absurd rfl hcolon
  · next h =>
      cases h
      rfl
  · next h => exact absurd rfl (h _)

theorem parseIPv6Groups_ellipsis (hg : g < 65536) :
    parseIPv6Groups (k + 1) ip none (Nat.toDigits 16 g ++ ':' :: ':' :: s) =
      if s = [] then some (ip ++ groupBytes [g], some (ip ++ groupBytes [g]).length, [])
      else parseIPv6Groups k (ip ++ groupBytes [g]) (some (ip ++ groupBytes [g]).length) s := by
  rw [parseIPv6Groups_group hg (by simp; decide)]
  rfl

end

/-- Groups to the end of the text. -/
theorem parseIPv6Groups_groupsText {k : Nat} {gs : List Nat} (hne : gs ≠ []) (hgs : ∀ g ∈ gs, g < 65536)
    (hk : gs.length ≤ k) (ip : List UInt8) (ellipsis : Option Nat) :
    parseIPv6Groups k ip ellipsis (groupsText gs) = some (ip ++ groupBytes gs, ellipsis, []) := by
  induction gs generalizing k ip with
  | nil => exact absurd rfl hne
  | cons g gs ih =>
      have hg := hgs g List.mem_cons_self
      obtain ⟨k, rfl⟩ : ∃ k', k = k' + 1 := ⟨k - 1, by simp at hk; omega⟩
      by_cases hnil : gs = []
      · subst hnil
        rw [groupsText_singleton]
        exact parseIPv6Groups_last hg
      · rw [groupsText_cons hnil, parseIPv6Groups_colon hg (groupsText_head hnil),
          ih hnil (fun g' hg' => hgs g' (List.mem_cons_of_mem g hg')) (by simp at hk; omega), groupBytes_cons g gs,
          ← List.append_assoc]
        rfl

/-- Groups, an ellipsis and more groups. -/
theorem parseIPv6Groups_groupsText_ellipsis {k : Nat} {gs gs' : List Nat} (hne : gs ≠ []) (hgs : ∀ g ∈ gs, g < 65536)
    (hgs' : ∀ g ∈ gs', g < 65536) (hk : gs.length + gs'.length ≤ k) (ip : List UInt8) :
    parseIPv6Groups k ip none (groupsText gs ++ ':' :: ':' :: groupsText gs') =
      some (ip ++ groupBytes gs ++ groupBytes gs', some (ip ++ groupBytes gs).length, []) := by
  induction gs generalizing k ip with
  | nil => exact absurd rfl hne
  | cons g gs ih =>
      have hg := hgs g List.mem_cons_self
      obtain ⟨k, rfl⟩ : ∃ k', k = k' + 1 := ⟨k - 1, by simp at hk; omega⟩
      by_cases hnil : gs = []
      · subst hnil
        rw [groupsText_singleton, parseIPv6Groups_ellipsis hg]
        by_cases hnil' : gs' = []
        · subst hnil'
          rw [groupsText_nil, if_pos rfl, groupBytes_nil, List.append_nil]
        · obtain ⟨c, text, hhead, -⟩ := groupsText_head hnil'
          rw [if_neg (by rw [hhead]; exact List.cons_ne_nil _ _),
            parseIPv6Groups_groupsText hnil' hgs' (by simp at hk; omega)]
      · obtain ⟨c, text, hhead, hhex⟩ := groupsText_head hnil
        rw [groupsText_cons hnil, List.append_assoc, List.cons_append,
          parseIPv6Groups_colon hg ⟨c, text ++ ':' :: ':' :: groupsText gs', by rw [hhead, List.cons_append], hhex⟩,
          ih hnil (fun g' hg' => hgs g' (List.mem_cons_of_mem g hg')) (by simp at hk; omega)]
        have hbytes : ip ++ groupBytes [g] ++ groupBytes gs = ip ++ groupBytes (g :: gs) := by
          rw [groupBytes_cons g gs, List.append_assoc]
          rfl
        rw [hbytes]

/-! ## The ellipsis -/

theorem groups_lt (ip : IP) : ∀ g ∈ ip.groups, g < 65536 := by
  induction ip using IP.groups.induct with
  | case1 hi lo rest ih =>
      have hhi := hi.toNat_lt
      have hlo := lo.toNat_lt
      intro g hg
      rw [IP.groups] at hg
      rcases List.mem_cons.mp hg with rfl | hg
      · omega
      · exact ih g hg
  | case2 ip h =>
      rw [IP.groups]
      · nofun
      · exact h

theorem groupBytes_groups {ip : IP} (h : ip.length % 2 = 0) : groupBytes ip.groups = ip := by
  induction ip using IP.groups.induct with
  | case1 hi lo rest ih =>
      have hlo := lo.toNat_lt
      have hdiv : (256 * hi.toNat + lo.toNat) / 256 = hi.toNat := by omega
      have hmod : (256 * hi.toNat + lo.toNat) % 256 = lo.toNat := by omega
      rw [IP.groups, groupBytes_cons, ih (by simp only [List.length_cons] at h; omega), hdiv, hmod,
        UInt8.ofNat_toNat, UInt8.ofNat_toNat]
      rfl
  | case2 ip hnot =>
      match ip, h with
      | [], _ => rfl
      | hi :: lo :: rest, _ => exact absurd rfl (hnot hi lo rest)

/-- A run that is left out consists of zeros. -/
theorem longestZeroRun_spec {gs : List Nat} {start len : Nat} (h : IP.longestZeroRun gs = some (start, len)) :
    2 ≤ len ∧ gs = gs.take start ++ (List.replicate len 0 ++ gs.drop (start + len)) := by
  have hrun : ∀ (l : List Nat) (best : Option (Nat × Nat)),
      (∀ i n, best = some (i, n) → 2 ≤ n ∧ n = IP.zeroRun gs i) →
      ∀ i n, l.foldl (fun best i =>
        if 2 ≤ IP.zeroRun gs i ∧ (best.elim 0 Prod.snd) < IP.zeroRun gs i then some (i, IP.zeroRun gs i)
        else best) best = some (i, n) → 2 ≤ n ∧ n = IP.zeroRun gs i := by
    intro l
    induction l with
    | nil => exact fun best hbest => hbest
    | cons j l ih =>
        intro best hbest
        refine ih _ ?_
        intro i n heq
        dsimp only at heq
        split at heq
        · next hlong =>
            cases heq
            exact ⟨hlong.1, rfl⟩
        · exact hbest i n heq
  obtain ⟨hlen, rfl⟩ := hrun _ none nofun start len h
  refine ⟨hlen, ?_⟩
  have hzeros : (gs.drop start).takeWhile (· == 0) = List.replicate (IP.zeroRun gs start) 0 := by
    refine List.eq_replicate_iff.mpr ⟨rfl, ?_⟩
    intro g hg
    simpa using List.mem_takeWhile_imp hg
  have hrest : gs.drop (start + IP.zeroRun gs start) = (gs.drop start).dropWhile (· == 0) := by
    rw [← List.drop_drop]
    conv_lhs => rw [← List.takeWhile_append_dropWhile (p := (· == 0)) (l := gs.drop start)]
    exact List.drop_left' rfl
  rw [hrest, ← hzeros, List.takeWhile_append_dropWhile, List.take_append_drop]

theorem groupBytes_append (gs gs' : List Nat) : groupBytes (gs ++ gs') = groupBytes gs ++ groupBytes gs' :=
  List.flatMap_append

theorem groupBytes_replicate_zero (n : Nat) : groupBytes (List.replicate n 0) = List.replicate (2 * n) 0 := by
  induction n with
  | zero => rfl
  | succ n ih =>
      rw [List.replicate_succ, groupBytes_cons, ih, Nat.mul_succ, Nat.add_comm, List.replicate_add]
      rfl

theorem expandEllipsis_some {front back : List UInt8} (h : (front ++ back).length < 16) :
    expandEllipsis (front ++ back, some front.length, []) =
      some (front ++ List.replicate (16 - (front ++ back).length) 0 ++ back) := by
  simp only [expandEllipsis, ne_eq, not_true_eq_false, if_false, if_pos h, List.take_left, List.drop_left]

/-! ## Addresses -/

theorem not_mem_toDigits {b n : Nat} {c : Char} (hb : 1 < b) (hb' : b ≤ 16) (hc : (hexValue c).isSome = false) :
    c ∉ Nat.toDigits b n := by
  intro hmem
  induction n using Nat.strongRecOn with
  | ind n ih =>
      have hsmall : ∀ d < b, c ≠ Nat.digitChar d := by
        rintro d hd rfl
        rw [hexValue_digitChar d (by omega)] at hc
        cases hc
      rw [Nat.toDigits_eq_if hb] at hmem
      split at hmem
      · next hlt => exact hsmall n hlt (List.mem_singleton.mp hmem)
      · next hge =>
          rcases List.mem_append.mp hmem with hmem | hmem
          · exact ih (n / b) (Nat.div_lt_self (by omega) hb) hmem
          · exact hsmall _ (Nat.mod_lt _ (by omega)) (List.mem_singleton.mp hmem)

theorem not_mem_intercalate {c d : Char} {ls : List (List Char)} (hd : c ≠ d) (h : ∀ l ∈ ls, c ∉ l) :
    c ∉ [d].intercalate ls := by
  induction ls with
  | nil => simp
  | cons l ls ih =>
      have hl := h l List.mem_cons_self
      have hls := ih fun l' hl' => h l' (List.mem_cons_of_mem l hl')
      cases ls with
      | nil => simpa using hl
      | cons l' ls =>
          rw [List.intercalate_cons_cons]
          simp only [List.mem_append, List.mem_singleton, not_or]
          exact ⟨⟨hl, hd⟩, hls⟩

theorem not_mem_groupsText {c : Char} (hc : (hexValue c).isSome = false) (hcolon : c ≠ ':') (gs : List Nat) :
    c ∉ groupsText gs := by
  refine not_mem_intercalate hcolon ?_
  intro l hl
  obtain ⟨g, -, rfl⟩ := List.mem_map.mp hl
  exact not_mem_toDigits (by omega) (by omega) hc

theorem not_mem_octets {c : Char} (hc : (hexValue c).isSome = false) (hdot : c ≠ '.') (bytes : List UInt8) :
    c ∉ octets bytes := by
  refine not_mem_intercalate hdot ?_
  intro l hl
  obtain ⟨b, -, rfl⟩ := List.mem_map.mp hl
  exact not_mem_toDigits (by omega) (by omega) hc

/-- What the reader makes of the groups. -/
def addrOf (result : Option (List UInt8 × Option Nat × List Char)) : Option Addr :=
  result.bind fun result => (expandEllipsis result).bind fun ip => addrFrom16 ip []

section

variable {s : List Char}

theorem takeWhile_zone (h : '%' ∉ s) : s.takeWhile (· ≠ '%') = s := by
  rw [List.takeWhile_eq_self_iff]
  intro c hc
  simp only [ne_eq, decide_not, Bool.not_eq_true', decide_eq_false_iff_not]
  rintro rfl
  exact h hc

theorem parseIPv6_head {c : Char} (hc : c ≠ ':') (h : '%' ∉ c :: s) :
    parseIPv6 (c :: s) = addrOf (parseIPv6Groups 8 [] none (c :: s)) := by
  rw [parseIPv6]
  simp only [takeWhile_zone h, List.drop_of_length_le (Nat.le_succ _)]
  rw [if_neg fun hzone => h hzone.1]
  split
  · next heq => exact absurd (List.cons.inj heq).1 hc
  · next heq => exact absurd (List.cons.inj heq).1 hc
  · rfl

theorem parseIPv6_front (hs : s ≠ []) (h : '%' ∉ s) :
    parseIPv6 (':' :: ':' :: s) = addrOf (parseIPv6Groups 8 [] (some 0) s) := by
  have hzone : '%' ∉ ':' :: ':' :: s := by simpa using h
  rw [parseIPv6]
  simp only [takeWhile_zone hzone, List.drop_of_length_le (Nat.le_succ _)]
  rw [if_neg fun hmem => hzone hmem.1]
  rfl

end

/-- An ellipsis among the groups. -/
theorem parseIPv6_ellipsis {front back : List Nat} (hfront : ∀ g ∈ front, g < 65536) (hback : ∀ g ∈ back, g < 65536)
    (hcount : front.length + back.length ≤ 8) (hne : front ≠ [] ∨ back ≠ []) :
    parseIPv6 (groupsText front ++ ':' :: ':' :: groupsText back) =
      addrOf (some (groupBytes front ++ groupBytes back, some (groupBytes front).length, [])) := by
  have hzone : ∀ gs : List Nat, '%' ∉ groupsText gs := not_mem_groupsText (by decide) (by decide)
  by_cases hnil : front = []
  · subst hnil
    have hnil' : back ≠ [] := hne.resolve_left fun h => h rfl
    obtain ⟨c, text, htext, -⟩ := groupsText_head hnil'
    have hread := parseIPv6Groups_groupsText hnil' hback (k := 8) (by simpa using hcount) [] (some 0)
    rw [groupsText_nil, List.nil_append, parseIPv6_front (by rw [htext]; exact List.cons_ne_nil _ _) (hzone back),
      hread]
    rfl
  · obtain ⟨c, text, htext, hhex⟩ := groupsText_head hnil
    have hcolon : c ≠ ':' := by
      rintro rfl
      exact absurd hhex (by decide)
    have hread := parseIPv6Groups_groupsText_ellipsis hnil hfront hback hcount []
    have hhead : '%' ∉ c :: (text ++ ':' :: ':' :: groupsText back) := by
      rw [← List.cons_append, ← htext]
      simp [hzone]
    have hparse := parseIPv6_head hcolon hhead
    rw [← List.cons_append, ← htext, hread] at hparse
    exact hparse

theorem toList_hexGroups (gs : List Nat) : (IP.hexGroups gs).toList = groupsText gs := by
  rw [IP.hexGroups, String.toList_intercalate, groupsText, List.map_map]
  congr 1
  refine List.map_congr_left fun g _ => ?_
  exact String.toList_ofList

theorem toList_string_of_to4 {ip bytes : IP} (hne : ip.length ≠ 0) (h : ip.to4 = some bytes) :
    (IP.string ip).toList = octets bytes := by
  rw [IP.string, if_neg hne, h]
  rw [String.toList_intercalate, octets, List.map_map]
  congr 1
  refine List.map_congr_left fun b _ => ?_
  exact Nat.toList_repr

theorem length_groups (ip : IP) : ip.groups.length = ip.length / 2 := by
  induction ip using IP.groups.induct with
  | case1 hi lo rest ih =>
      rw [IP.groups, List.length_cons, ih]
      simp only [List.length_cons]
      omega
  | case2 ip h =>
      match ip with
      | [] => rfl
      | [_] => simp [IP.groups]
      | hi :: lo :: rest => exact absurd rfl (h hi lo rest)

/-- The text of an IPv6 address is read as the bytes. -/
theorem parseIPv6_string6 {ip : IP} (h : ip.length = 16) : parseIPv6 ip.string6.toList = addrFrom16 ip [] := by
  have hlt := groups_lt ip
  have height : ip.groups.length = 8 := by rw [length_groups, h]
  have hbytes := groupBytes_groups (show ip.length % 2 = 0 by omega)
  have hzone : ∀ gs : List Nat, '%' ∉ groupsText gs := not_mem_groupsText (by decide) (by decide)
  unfold IP.string6
  split
  · rw [toList_hexGroups]
    have hne : ip.groups ≠ [] := by
      intro hnil
      rw [hnil] at height
      cases height
    obtain ⟨c, text, htext, hhex⟩ := groupsText_head hne
    have hcolon : c ≠ ':' := by
      rintro rfl
      exact absurd hhex (by decide)
    have hread := parseIPv6_head hcolon (htext ▸ hzone ip.groups)
    rw [← htext] at hread
    rw [hread, parseIPv6Groups_groupsText hne hlt (by omega), hbytes]
    simp only [addrOf, Option.bind_some, expandEllipsis, List.nil_append, ne_eq, not_true_eq_false, if_false, h,
      if_true]
  · next start len hrun =>
      obtain ⟨hlen, hgroups⟩ := longestZeroRun_spec hrun
      generalize hfront : ip.groups.take start = front at hgroups ⊢
      generalize hback : ip.groups.drop (start + len) = back at hgroups ⊢
      have hfrontlt : ∀ g ∈ front, g < 65536 := fun g hg => hlt g (by rw [hgroups]; simp [hg])
      have hbacklt : ∀ g ∈ back, g < 65536 := fun g hg => hlt g (by rw [hgroups]; simp [hg])
      have hcount : front.length + (len + back.length) = 8 := by
        rw [← height, hgroups]
        simp
      have hexpand : expandEllipsis (groupBytes front ++ groupBytes back, some (groupBytes front).length, []) =
          some ip := by
        rw [expandEllipsis_some (by simp only [List.length_append, length_groupBytes]; omega), ← hbytes, hgroups,
          groupBytes_append, groupBytes_append, groupBytes_replicate_zero, ← List.append_assoc]
        congr 4
        simp only [List.length_append, length_groupBytes]
        omega
      have htext : (IP.hexGroups front ++ "::" ++ IP.hexGroups back).toList =
          groupsText front ++ ':' :: ':' :: groupsText back := by
        simp only [String.toList_append, toList_hexGroups, List.append_assoc]
        rfl
      rw [htext]
      by_cases hne : front = [] ∧ back = []
      · obtain ⟨rfl, rfl⟩ := hne
        have hzeros : ip = List.replicate 16 0 := by
          have hlen : len = 8 := by simpa using hcount
          rw [← hbytes, hgroups, hlen]
          rfl
        rw [hzeros]
        rfl
      · rw [parseIPv6_ellipsis hfrontlt hbacklt (by omega) (by tauto), addrOf, Option.bind_some, hexpand,
          Option.bind_some]

/-! ## IPv4 in IPv6 form -/

theorem octets_cons (b : UInt8) {bytes : List UInt8} (h : bytes ≠ []) :
    octets (b :: bytes) = Nat.toDigits 10 b.toNat ++ '.' :: octets bytes := by
  obtain ⟨b', bytes, rfl⟩ := List.exists_cons_of_ne_nil h
  rw [octets, List.map_cons, List.map_cons, List.intercalate_cons_cons, octets, List.map_cons, List.append_assoc]
  rfl

theorem isSome_hexValue_of_isDigit {c : Char} (h : c.isDigit = true) : (hexValue c).isSome = true := by
  rw [hexValue, if_pos h]
  rfl

theorem octets_head {bytes : List UInt8} (h : bytes.length = 4) :
    ∃ c rest, octets bytes = c :: rest ∧ (hexValue c).isSome = true := by
  match bytes, h with
  | b :: b' :: bytes, _ =>
      obtain ⟨c, rest, hdigits⟩ := List.exists_cons_of_ne_nil (Nat.toDigits_ne_nil (n := b.toNat) (b := 10))
      rw [octets_cons b (List.cons_ne_nil b' bytes), hdigits]
      refine ⟨c, _, rfl, isSome_hexValue_of_isDigit (isDigit_of_mem_toDigits (n := b.toNat) ?_)⟩
      simp [hdigits]

/-- The four fields at the end of an address with an ellipsis. -/
theorem parseIPv6Groups_octets {k e : Nat} {ip bytes : List UInt8} (h : bytes.length = 4) (hip : ip.length ≤ 12) :
    parseIPv6Groups (k + 1) ip (some e) (octets bytes) = some (ip ++ bytes, some e, []) := by
  have hfields := parseIPv4Fields_octets h
  match bytes, h with
  | b :: b' :: bytes, h =>
      have hlt := b.toNat_lt
      have hlength : (Nat.toDigits 10 b.toNat).length ≤ 3 :=
        (Nat.length_toDigits_le_iff (by omega) (by omega)).mpr (by omega)
      have htext := octets_cons b (List.cons_ne_nil b' bytes)
      have hdigits : (octets (b :: b' :: bytes)).takeWhile (fun c => (hexValue c).isSome) = Nat.toDigits 10 b.toNat := by
        rw [htext, List.takeWhile_append_of_pos fun c hc => isSome_hexValue_of_isDigit (isDigit_of_mem_toDigits hc),
          List.takeWhile_cons_of_neg (by decide), List.append_nil]
      rw [parseIPv6Groups]
      simp only [hdigits]
      rw [if_neg (by simp only [Nat.toDigits_ne_nil, or_false]; omega)]
      have hdrop : (octets (b :: b' :: bytes)).drop (Nat.toDigits 10 b.toNat).length = '.' :: octets (b' :: bytes) := by
        rw [htext, List.drop_left]
      simp only [hdrop, hfields]
      rw [if_neg (by simp), if_neg (by omega)]
      rfl

/-- `::ffff:` and four fields. -/
theorem parseIPv6_octets {bytes : List UInt8} (h : bytes.length = 4) :
    parseIPv6 (':' :: ':' :: (Nat.toDigits 16 65535 ++ ':' :: octets bytes)) =
      addrFrom16 (IP.v4InV6Prefix ++ bytes) [] := by
  have hzone : '%' ∉ Nat.toDigits 16 65535 ++ ':' :: octets bytes := by
    simp only [List.mem_append, List.mem_cons, not_or]
    exact ⟨not_mem_toDigits (by omega) (by omega) (by decide), by decide, not_mem_octets (by decide) (by decide) bytes⟩
  rw [parseIPv6_front (by simp) hzone, parseIPv6Groups_colon (by omega) (octets_head h),
    parseIPv6Groups_octets h (by simp)]
  simp only [addrOf, Option.bind_some]
  have hexpand : expandEllipsis ([] ++ groupBytes [65535] ++ bytes, some 0, []) = some (IP.v4InV6Prefix ++ bytes) := by
    simp only [expandEllipsis, ne_eq, not_true_eq_false, if_false, List.nil_append, List.length_append,
      length_groupBytes, List.length_cons, List.length_nil, h]
    rfl
  rw [hexpand, Option.bind_some]

/-! ## Addresses with a port -/

section

variable {s : List Char}

theorem find?_mark {c : Char} (hc : c ∈ ['.', ':', '%']) (hmem : c ∈ s)
    (hothers : ∀ d ∈ ['.', ':', '%'], d ≠ c → d ∉ s) :
    s.find? (fun c => c == '.' || c == ':' || c == '%') = some c := by
  have hfound : (s.find? fun c => c == '.' || c == ':' || c == '%').isSome := by
    rw [List.find?_isSome]
    refine ⟨c, hmem, ?_⟩
    simp only [List.mem_cons, List.not_mem_nil, or_false] at hc
    rcases hc with rfl | rfl | rfl <;> rfl
  obtain ⟨d, hd⟩ := Option.isSome_iff_exists.mp hfound
  have hmark := List.find?_some hd
  simp only [Bool.or_eq_true, beq_iff_eq, or_assoc] at hmark
  by_cases hsame : d = c
  · rw [hd, hsame]
  · exact absurd (List.mem_of_find?_eq_some hd) (hothers d (by simpa using hmark) hsame)

theorem parseAddr_colon (hmem : ':' ∈ s) (hdot : '.' ∉ s) (hzone : '%' ∉ s) : parseAddr s = parseIPv6 s := by
  have hfind := find?_mark (by decide) hmem (by
    intro d hd hne
    simp only [List.mem_cons, List.not_mem_nil, or_false] at hd
    rcases hd with rfl | rfl | rfl
    · exact hdot
    · exact absurd rfl hne
    · exact hzone)
  rw [parseAddr, hfind]
  rfl

theorem parseAddr_dot (hmem : '.' ∈ s) (hcolon : ':' ∉ s) (hzone : '%' ∉ s) :
    parseAddr s = (parseIPv4Fields s).bind addrFrom4 := by
  have hfind := find?_mark (by decide) hmem (by
    intro d hd hne
    simp only [List.mem_cons, List.not_mem_nil, or_false] at hd
    rcases hd with rfl | rfl | rfl
    · exact absurd rfl hne
    · exact hcolon
    · exact hzone)
  rw [parseAddr, hfind]
  rfl

end

theorem lastIndexOf_append {c : Char} {ip port : List Char} (h : c ∉ port) :
    lastIndexOf c (ip ++ c :: port) = some ip.length := by
  have hidx : (ip ++ c :: port).reverse.idxOf? c = some port.length := by
    have hport : port.reverse.idxOf? c = none := List.idxOf?_eq_none_iff.mpr (by simpa using h)
    rw [List.idxOf?] at hport ⊢
    rw [List.reverse_append, List.reverse_cons, List.append_assoc, List.findIdx?_append, hport]
    simp [List.findIdx?_cons]
  rw [lastIndexOf, hidx, Option.map_some]
  simp

section

variable {ip port : List Char}

theorem splitAddrPort_plain (hip : ip ≠ []) (hport : port ≠ []) (hhead : ip.head? ≠ some '[') (hcolon : ':' ∉ port) :
    splitAddrPort (ip ++ ':' :: port) = some (ip, port, false) := by
  have hdrop : (ip ++ ':' :: port).drop (ip.length + 1) = port := by
    rw [List.drop_append]
    simp
  rw [splitAddrPort, lastIndexOf_append hcolon]
  simp only [List.take_left, hdrop, hip, hport, or_self, if_false, hhead]

theorem splitAddrPort_brackets (hport : port ≠ []) (hcolon : ':' ∉ port) :
    splitAddrPort ('[' :: (ip ++ ']' :: ':' :: port)) = some (ip, port, true) := by
  have htext : '[' :: (ip ++ ']' :: ':' :: port) = ('[' :: (ip ++ [']'])) ++ ':' :: port := by simp
  have hdrop : (('[' :: (ip ++ [']'])) ++ ':' :: port).drop (('[' :: (ip ++ [']'])).length + 1) = port := by
    rw [List.drop_append]
    simp
  rw [splitAddrPort, htext, lastIndexOf_append hcolon]
  simp only [List.take_left, hdrop]
  rw [if_neg (by simp [hport]), if_pos (by simp), if_neg (by simp [List.getLast?_cons])]
  simp

end

theorem toList_port (port : UInt16) : (toString port.toNat).toList = Nat.toDigits 10 port.toNat := Nat.toList_repr

theorem toList_string6_marks {ip : IP} (h : ip.length = 16) :
    ':' ∈ ip.string6.toList ∧ '.' ∉ ip.string6.toList ∧ '%' ∉ ip.string6.toList := by
  have hmarks : ∀ gs : List Nat, '.' ∉ groupsText gs ∧ '%' ∉ groupsText gs := fun gs =>
    ⟨not_mem_groupsText (by decide) (by decide) gs, not_mem_groupsText (by decide) (by decide) gs⟩
  unfold IP.string6
  split
  · have height : ip.groups.length = 8 := by rw [length_groups, h]
    rw [toList_hexGroups]
    refine ⟨?_, hmarks ip.groups⟩
    match hgroups : ip.groups, height with
    | g :: g' :: gs, _ =>
        rw [groupsText_cons (List.cons_ne_nil g' gs)]
        simp
  · next start len _ =>
      obtain ⟨hfront, hfront'⟩ := hmarks (ip.groups.take start)
      obtain ⟨hback, hback'⟩ := hmarks (ip.groups.drop (start + len))
      simp only [String.toList_append, toList_hexGroups, List.mem_append, not_or]
      exact ⟨.inl (.inr (by decide)), ⟨⟨hfront, by decide⟩, hback⟩, ⟨⟨hfront', by decide⟩, hback'⟩⟩

/-! ## The printed forms -/

section

variable {port : UInt16}

theorem AddrPort.string_v4 {bytes : Vector UInt8 4} :
    AddrPort.string ⟨.v4 bytes, port⟩ = octets bytes.toList ++ ':' :: Nat.toDigits 10 port.toNat := by
  have hlength : bytes.toList.length = 4 := bytes.length_toList
  have hstring : (IP.string bytes.toList).toList = octets bytes.toList :=
    toList_string_of_to4 (by omega) (by rw [IP.to4, if_pos hlength])
  simp only [AddrPort.string, String.toList_append, hstring, toList_port, List.append_assoc]
  rfl

theorem AddrPort.string_v4InV6 {bytes : Vector UInt8 16} (h : bytes.toList.take 12 = IP.v4InV6Prefix) :
    AddrPort.string ⟨.v6 bytes "", port⟩ =
      '[' :: ((':' :: ':' :: (Nat.toDigits 16 65535 ++ ':' :: octets (bytes.toList.drop 12))) ++
        ']' :: ':' :: Nat.toDigits 10 port.toNat) := by
  have hlength : bytes.toList.length = 16 := bytes.length_toList
  have hstring : (IP.string bytes.toList).toList = octets (bytes.toList.drop 12) :=
    toList_string_of_to4 (by omega) (by rw [IP.to4, if_neg (by omega), if_pos ⟨hlength, h⟩])
  simp only [AddrPort.string, Addr.is4In6, h, decide_true, if_true, String.toList_append, hstring, toList_port]
  simp
  rfl

theorem AddrPort.string_v6 {bytes : Vector UInt8 16} (h : bytes.toList.take 12 ≠ IP.v4InV6Prefix) :
    AddrPort.string ⟨.v6 bytes "", port⟩ =
      '[' :: ((IP.string6 bytes.toList).toList ++ ']' :: ':' :: Nat.toDigits 10 port.toNat) := by
  simp only [AddrPort.string, Addr.is4In6, h, decide_false, if_true, String.toList_append, toList_port]
  simp

end

theorem parseAddr_octets {bytes : Vector UInt8 4} : parseAddr (octets bytes.toList) = some (.v4 bytes) := by
  have hlength : bytes.toList.length = 4 := bytes.length_toList
  have hdot : '.' ∈ octets bytes.toList := by
    match hbytes : bytes.toList, hlength with
    | b :: b' :: rest, _ =>
        rw [octets_cons b (List.cons_ne_nil b' rest)]
        simp
  rw [parseAddr_dot hdot (not_mem_octets (by decide) (by decide) _) (not_mem_octets (by decide) (by decide) _),
    parseIPv4Fields_octets hlength, Option.bind_some, addrFrom4, dif_pos hlength]
  rfl

/-- `netip.ParseAddrPort` reads back what `String` prints. -/
theorem parseAddrPort_string {p : AddrPort} (hvalid : p.addr.isValid = true) (hzone : p.addr.zone = "") :
    parseAddrPort p.string = some p := by
  obtain ⟨addr, port⟩ := p
  have hport := port.toNat_lt
  have hnum : parseUint 65535 (Nat.toDigits 10 port.toNat) = some port.toNat := parseUint_toDigits (by omega)
  have hcolon : ':' ∉ Nat.toDigits 10 port.toNat := not_mem_toDigits (by omega) (by omega) (by decide)
  cases addr with
  | zero => cases hvalid
  | v4 bytes =>
      obtain ⟨c, rest, hhead, hhex⟩ := octets_head (show bytes.toList.length = 4 from bytes.length_toList)
      have hbracket : (octets bytes.toList).head? ≠ some '[' := by
        rw [hhead]
        rintro ⟨rfl⟩
        exact absurd hhex (by decide)
      rw [parseAddrPort, AddrPort.string_v4,
        splitAddrPort_plain (by rw [hhead]; exact List.cons_ne_nil _ _) Nat.toDigits_ne_nil hbracket hcolon]
      simp only [hnum, parseAddr_octets]
      simp [Addr.is4]
  | v6 bytes zone =>
      cases hzone
      have hlength : bytes.toList.length = 16 := bytes.length_toList
      -- whatever stands in the brackets, if it is read as these bytes
      have hread : ∀ text : List Char, parseAddr text = addrFrom16 bytes.toList [] →
          parseAddrPort ('[' :: (text ++ ']' :: ':' :: Nat.toDigits 10 port.toNat)) = some ⟨.v6 bytes "", port⟩ := by
        intro text haddr
        have haddr' : parseAddr text = some (.v6 bytes "") := by
          rw [haddr, addrFrom16, dif_pos hlength]
          rfl
        rw [parseAddrPort, splitAddrPort_brackets Nat.toDigits_ne_nil hcolon]
        simp only [hnum, haddr']
        simp [Addr.is4]
      by_cases hmapped : bytes.toList.take 12 = IP.v4InV6Prefix
      · have hbytes : bytes.toList = IP.v4InV6Prefix ++ bytes.toList.drop 12 := by
          rw [← hmapped, List.take_append_drop]
        have hlast : (bytes.toList.drop 12).length = 4 := by rw [List.length_drop, hlength]
        rw [AddrPort.string_v4InV6 hmapped]
        refine hread _ ?_
        rw [hbytes, ← parseIPv6_octets hlast]
        rfl
      · obtain ⟨hmem, hdot, hpercent⟩ := toList_string6_marks hlength
        rw [AddrPort.string_v6 hmapped]
        refine hread _ ?_
        rw [parseAddr_colon hmem hdot hpercent, parseIPv6_string6 hlength]

/-! ## Lengths -/

theorem length_intercalate_le {c : Char} {n : Nat} {ls : List (List Char)} (h : ∀ l ∈ ls, l.length ≤ n) :
    ([c].intercalate ls).length ≤ (n + 1) * ls.length := by
  induction ls with
  | nil => simp
  | cons l ls ih =>
      have hl := h l List.mem_cons_self
      have hls := ih fun l' hl' => h l' (List.mem_cons_of_mem l hl')
      cases ls with
      | nil =>
          rw [List.intercalate_singleton, List.length_singleton]
          omega
      | cons l' ls =>
          rw [List.intercalate_cons_cons, List.length_append, List.length_append, List.length_singleton,
            List.length_cons (a := l), Nat.mul_succ]
          omega

theorem length_octets_le (bytes : List UInt8) : (octets bytes).length ≤ 4 * bytes.length := by
  have hfields : ∀ l ∈ bytes.map fun b => Nat.toDigits 10 b.toNat, l.length ≤ 3 := by
    intro l hl
    obtain ⟨b, -, rfl⟩ := List.mem_map.mp hl
    have hlt := b.toNat_lt
    exact (Nat.length_toDigits_le_iff (by omega) (by omega)).mpr (by omega)
  have hle := length_intercalate_le (c := '.') hfields
  rwa [List.length_map] at hle

theorem length_groupsText_le {gs : List Nat} (h : ∀ g ∈ gs, g < 65536) : (groupsText gs).length ≤ 5 * gs.length := by
  have hgroups : ∀ l ∈ gs.map (Nat.toDigits 16), l.length ≤ 4 := by
    intro l hl
    obtain ⟨g, hg, rfl⟩ := List.mem_map.mp hl
    exact (Nat.length_toDigits_le_iff (by omega) (by omega)).mpr (by simpa using h g hg)
  have hle := length_intercalate_le (c := ':') hgroups
  rwa [List.length_map] at hle

theorem length_string6_le {ip : IP} (h : ip.length = 16) : ip.string6.toList.length ≤ 82 := by
  have hlt := groups_lt ip
  have height : ip.groups.length = 8 := by rw [length_groups, h]
  unfold IP.string6
  split
  · have hle := length_groupsText_le hlt
    rw [toList_hexGroups]
    omega
  · next start len _ =>
      have hfront : (groupsText (ip.groups.take start)).length ≤ _ :=
        length_groupsText_le fun g hg => hlt g (List.mem_of_mem_take hg)
      have hback : (groupsText (ip.groups.drop (start + len))).length ≤ _ :=
        length_groupsText_le fun g hg => hlt g (List.mem_of_mem_drop hg)
      have hcolons : "::".toList.length = 2 := rfl
      rw [List.length_take] at hfront
      rw [List.length_drop] at hback
      rw [String.toList_append, String.toList_append, toList_hexGroups, toList_hexGroups, List.length_append,
        List.length_append, hcolons]
      omega

theorem AddrPort.length_string {p : AddrPort} (hvalid : p.addr.isValid = true) (hzone : p.addr.zone = "") :
    0 < p.string.length ∧ p.string.length ≤ 128 := by
  obtain ⟨addr, port⟩ := p
  have hport : (Nat.toDigits 10 port.toNat).length ≤ 5 := by
    have hlt := port.toNat_lt
    exact (Nat.length_toDigits_le_iff (by omega) (by omega)).mpr (by omega)
  cases addr with
  | zero => cases hvalid
  | v4 bytes =>
      have hoctets := length_octets_le bytes.toList
      rw [Vector.length_toList] at hoctets
      rw [AddrPort.string_v4, List.length_append, List.length_cons]
      omega
  | v6 bytes zone =>
      cases hzone
      by_cases hmapped : bytes.toList.take 12 = IP.v4InV6Prefix
      · have hoctets := length_octets_le (bytes.toList.drop 12)
        have hffff : (Nat.toDigits 16 65535).length = 4 := by decide
        rw [List.length_drop, Vector.length_toList] at hoctets
        rw [AddrPort.string_v4InV6 hmapped]
        simp only [List.length_cons, List.length_append, hffff]
        omega
      · have htext := length_string6_le (show bytes.toList.length = 16 from bytes.length_toList)
        rw [AddrPort.string_v6 hmapped]
        simp only [List.length_cons, List.length_append]
        omega

end Netip

end Lib
