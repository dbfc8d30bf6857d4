import Derphole.Lib.AddrText
import Derphole.Lib.InsertionSort
import Mathlib.Data.Char
import Mathlib.Data.List.Lex

/-!
# The order of candidates

The ranks of candidate addresses in `pkg/session/external_direct_udp.go` and the three loops that order
candidates by them.  An address with a better scope has a lower rank, and text that is no address has the
last one.

`externalDirectUDPPreferWANStrings` compares two candidates of one rank only if they have the same endpoint
key.  A candidate does not get past one with another key, and so not to those of its own key that stand
before that (`prefer_wan_order_iff`).
-/

namespace Session

open Lib Netip

/-- `publicProbeTailscaleCGNATPrefix`, which is `100.64.0.0/10`. -/
def inTailscaleCGNAT (addr : Addr) : Bool := prefixContains [100, 64, 0, 0] 10 addr

/-- `publicProbeTailscaleULAPrefix`, which is `fd7a:115c:a1e0::/48`. -/
def inTailscaleULA (addr : Addr) : Bool :=
  prefixContains [0xfd, 0x7a, 0x11, 0x5c, 0xa1, 0xe0, 0, 0, 0, 0, 0, 0, 0, 0, 0, 0] 48 addr

def externalDirectUDPCandidateRank (candidate : List Char) : Nat :=
  match parseAddrPort candidate with
  | none => 6
  | some addrPort =>
      let addr := addrPort.addr
      if !addr.isValid || addr.isUnspecified then 6
      else if addr.isLoopback then 5
      else if addr.isLinkLocalUnicast || addr.isLinkLocalMulticast then 4
      else if inTailscaleCGNAT addr || inTailscaleULA addr then 3
      else if addr.isPrivate then 2
      else if addr.isGlobalUnicast then 0
      else 1

example : ["8.8.8.8:1", "192.168.0.1:1", "100.64.0.1:1", "[fd7a:115c:a1e0::1]:1", "[fe80::1%eth0]:1",
    "[::ffff:127.0.0.1]:1", "0.0.0.0:1", "8.8.8.8", "224.1.0.1:1"].map
    (fun s => externalDirectUDPCandidateRank s.toList) = [0, 2, 3, 3, 4, 5, 6, 6, 1] := by
  decide +kernel

/-- The port as text, or all of a candidate without one. -/
def externalDirectUDPEndpointKey (candidate : List Char) : List Char :=
  match splitHostPort candidate with
  | none => candidate
  | some (_, port) => port

def externalDirectUDPBetterCandidate (candidate existing : List Char) : Bool :=
  let candidateRank := externalDirectUDPCandidateRank candidate
  let existingRank := externalDirectUDPCandidateRank existing
  if candidateRank ≠ existingRank then decide (candidateRank < existingRank)
  else decide (candidate < existing)

def externalDirectUDPShouldPromoteCandidate (candidate existing : List Char) : Bool :=
  let candidateRank := externalDirectUDPCandidateRank candidate
  let existingRank := externalDirectUDPCandidateRank existing
  if candidateRank ≠ existingRank then decide (candidateRank < existingRank)
  else
    externalDirectUDPEndpointKey candidate == externalDirectUDPEndpointKey existing &&
      externalDirectUDPBetterCandidate candidate existing

def externalDirectUDPPreferWANStrings (candidates : List (List Char)) : List (List Char) :=
  promoteSort externalDirectUDPShouldPromoteCandidate candidates

def externalDirectUDPShouldPromoteLoopbackCandidate (candidate existing : List Char) : Bool :=
  let candidateLoopback := externalDirectUDPCandidateRank candidate == 5
  let existingLoopback := externalDirectUDPCandidateRank existing == 5
  if candidateLoopback ≠ existingLoopback then candidateLoopback
  else if candidateLoopback then externalDirectUDPShouldPromoteCandidate candidate existing
  else false

def externalDirectUDPPreferLoopbackStrings (candidates : List (List Char)) : List (List Char) :=
  promoteSort externalDirectUDPShouldPromoteLoopbackCandidate candidates

def externalDirectUDPMatchesPeerAddr (candidate : List Char) (peer : Addr) : Bool :=
  match parseAddrPort candidate with
  | none => false
  | some candidateAddr => candidateAddr.addr == peer

def externalDirectUDPShouldPromotePeerCandidate (peer : Addr) (candidate existing : List Char) : Bool :=
  let candidatePeer := externalDirectUDPMatchesPeerAddr candidate peer
  let existingPeer := externalDirectUDPMatchesPeerAddr existing peer
  if candidatePeer ≠ existingPeer then candidatePeer
  else candidatePeer && externalDirectUDPShouldPromoteCandidate candidate existing

/-- A `net.Addr` is what its `String` gives, and none where it is nil. -/
def externalDirectUDPAddrPort (addr : Option (List Char)) : Option AddrPort :=
  match addr with
  | none => none
  | some text =>
      match parseAddrPort text with
      | none => none
      | some addrPort =>
          if !addrPort.addr.isValid || addrPort.addr.isUnspecified then none else some addrPort

def externalDirectUDPPreferPeerAddrStrings (candidates : List (List Char)) (peer : Option (List Char)) :
    List (List Char) :=
  let out := externalDirectUDPPreferWANStrings candidates
  match externalDirectUDPAddrPort peer with
  | none => out
  | some peerAddr => promoteSort (externalDirectUDPShouldPromotePeerCandidate peerAddr.addr) out

/-! ## By rank, then by port -/

section

variable {a b x z : List Char}

/-- A candidate is promoted over one of a later rank, and over a larger one of its own rank and key. -/
theorem shouldPromoteCandidate_iff :
    externalDirectUDPShouldPromoteCandidate x z = true ↔
      externalDirectUDPCandidateRank x < externalDirectUDPCandidateRank z ∨
        (externalDirectUDPCandidateRank x = externalDirectUDPCandidateRank z ∧
          externalDirectUDPEndpointKey x = externalDirectUDPEndpointKey z ∧ x < z) := by
  by_cases h : externalDirectUDPCandidateRank x = externalDirectUDPCandidateRank z
  · simp [externalDirectUDPShouldPromoteCandidate, externalDirectUDPBetterCandidate, h]
  · simp [externalDirectUDPShouldPromoteCandidate, h]

theorem shouldPromoteCandidate_eq_false (h : externalDirectUDPShouldPromoteCandidate x z = false) :
    externalDirectUDPCandidateRank z ≤ externalDirectUDPCandidateRank x ∧
      (externalDirectUDPCandidateRank z = externalDirectUDPCandidateRank x →
        externalDirectUDPEndpointKey z = externalDirectUDPEndpointKey x → z ≤ x) := by
  rw [← Bool.not_eq_true, shouldPromoteCandidate_iff, not_or] at h
  obtain ⟨hrank, hsame⟩ := h
  refine ⟨Nat.not_lt.mp hrank, ?_⟩
  intro heq hkey
  exact not_lt.mp fun hlt => hsame ⟨heq.symm, hkey.symm, hlt⟩

/-- The order of two candidates, each with its place in the input: by rank, and as they came where the ranks
are equal and the keys are not. -/
def Kept (a b : List Char × Nat) : Prop :=
  externalDirectUDPCandidateRank a.1 ≤ externalDirectUDPCandidateRank b.1 ∧
    (externalDirectUDPCandidateRank a.1 = externalDirectUDPCandidateRank b.1 →
      externalDirectUDPEndpointKey a.1 ≠ externalDirectUDPEndpointKey b.1 → a.2 < b.2)

/-- Two candidates of one rank and one key stand in lexicographic order. -/
def Lexicographic (a b : List Char) : Prop :=
  externalDirectUDPCandidateRank a = externalDirectUDPCandidateRank b →
    externalDirectUDPEndpointKey a = externalDirectUDPEndpointKey b → a ≤ b

/-- Two candidates of one rank and one key come in lexicographic order if there is one of their rank and of
another key between them. -/
def OrderedAcross (candidates : List (List Char)) : Prop :=
  ∀ (i j k : Nat) (a b c : List Char), i < j → j < k → candidates[i]? = some a → candidates[j]? = some b →
    candidates[k]? = some c →
    externalDirectUDPCandidateRank a = externalDirectUDPCandidateRank b →
    externalDirectUDPCandidateRank b = externalDirectUDPCandidateRank c →
    externalDirectUDPEndpointKey a = externalDirectUDPEndpointKey c →
    externalDirectUDPEndpointKey b ≠ externalDirectUDPEndpointKey a → a ≤ c

/-- The loop on candidates with their places. -/
def preferPlaced (candidates : List (List Char)) : List (List Char × Nat) :=
  promoteSort (fun a b => externalDirectUDPShouldPromoteCandidate a.1 b.1) candidates.zipIdx

theorem map_fst_preferPlaced (candidates : List (List Char)) :
    (preferPlaced candidates).map Prod.fst = externalDirectUDPPreferWANStrings candidates := by
  rw [preferPlaced, externalDirectUDPPreferWANStrings,
    map_promoteSort externalDirectUDPShouldPromoteCandidate Prod.fst, List.zipIdx_map_fst]

theorem mem_preferPlaced {candidates : List (List Char)} {i : Nat} :
    (a, i) ∈ preferPlaced candidates ↔ candidates[i]? = some a := by
  rw [preferPlaced, mem_promoteSort, List.mem_zipIdx_iff_getElem?]

/-- What comes before has a smaller place. -/
theorem place_lt {candidates : List (List Char)} {before after : List (List Char × Nat)}
    {x : List Char × Nat} (h : candidates.zipIdx = before ++ x :: after) {z : List Char × Nat}
    (hz : z ∈ before) : z.2 < x.2 := by
  have hplaces : (candidates.zipIdx.map Prod.snd).Pairwise (· < ·) := by
    rw [List.zipIdx_map_snd]
    exact List.pairwise_lt_range'
  rw [List.pairwise_map, h, List.pairwise_append] at hplaces
  exact hplaces.2.2 z hz x List.mem_cons_self

theorem pairwise_kept (candidates : List (List Char)) : (preferPlaced candidates).Pairwise Kept := by
  refine pairwise_promoteSort fun before x after h => ⟨?_, ?_⟩
  · intro z hz hpass
    obtain hlt | ⟨heq, hkey, -⟩ := shouldPromoteCandidate_iff.mp hpass
    · exact ⟨Nat.le_of_lt hlt, fun heq => absurd heq (Nat.ne_of_lt hlt)⟩
    · exact ⟨Nat.le_of_eq heq, fun _ hne => absurd hkey hne⟩
  · intro p hp hstop
    obtain ⟨hrank, -⟩ := shouldPromoteCandidate_eq_false hstop
    refine ⟨⟨hrank, fun _ _ => place_lt h hp⟩, ?_⟩
    intro z hz hzp
    exact ⟨Nat.le_trans hzp.1 hrank, fun _ _ => place_lt h hz⟩

/-- Where the candidates of a key are in order across those of other keys, the loop orders the rest. -/
theorem pairwise_lexicographic {candidates : List (List Char)} (hacross : OrderedAcross candidates) :
    (preferPlaced candidates).Pairwise fun a b => Kept a b ∧ Lexicographic a.1 b.1 := by
  refine pairwise_promoteSort fun before x after h => ⟨?_, ?_⟩
  · intro z hz hpass
    obtain hlt | ⟨heq, hkey, hless⟩ := shouldPromoteCandidate_iff.mp hpass
    · exact ⟨⟨Nat.le_of_lt hlt, fun heq => absurd heq (Nat.ne_of_lt hlt)⟩,
        fun heq => absurd heq (Nat.ne_of_lt hlt)⟩
    · exact ⟨⟨Nat.le_of_eq heq, fun _ hne => absurd hkey hne⟩, fun _ _ => le_of_lt hless⟩
  · intro p hp hstop
    obtain ⟨hrank, hsame⟩ := shouldPromoteCandidate_eq_false hstop
    refine ⟨⟨⟨hrank, fun _ _ => place_lt h hp⟩, hsame⟩, ?_⟩
    rintro z hz ⟨⟨hzp, hplace⟩, hlex⟩
    refine ⟨⟨Nat.le_trans hzp hrank, fun _ _ => place_lt h hz⟩, ?_⟩
    intro heq hkey
    have hzpEq : externalDirectUDPCandidateRank z.1 = externalDirectUDPCandidateRank p.1 := by omega
    have hpxEq : externalDirectUDPCandidateRank p.1 = externalDirectUDPCandidateRank x.1 := by omega
    -- `x` has stopped at `p`, and `z` stands before it
    by_cases hpKey : externalDirectUDPEndpointKey p.1 = externalDirectUDPEndpointKey z.1
    · exact le_trans (hlex hzpEq hpKey.symm) (hsame hpxEq (hpKey.trans hkey))
    · have hmem : ∀ y ∈ before ++ x :: after, candidates[y.2]? = some y.1 := by
        intro y hy
        rw [← h] at hy
        exact List.mem_zipIdx_iff_getElem?.mp hy
      exact hacross z.2 p.2 x.2 z.1 p.1 x.1 (hplace hzpEq (Ne.symm hpKey)) (place_lt h hp)
        (hmem z (List.mem_append_left _ hz)) (hmem p (List.mem_append_left _ hp))
        (hmem x (List.mem_append_right _ List.mem_cons_self)) hzpEq hpxEq hkey hpKey

/-- Two candidates of one rank and different keys stay as they came. -/
theorem place_lt_of_kept {placed : List (List Char × Nat)} (hkept : placed.Pairwise Kept)
    {p q i j : Nat} (ha : placed[p]? = some (a, i)) (hb : placed[q]? = some (b, j)) (hij : i < j)
    (hrank : externalDirectUDPCandidateRank a = externalDirectUDPCandidateRank b)
    (hkey : externalDirectUDPEndpointKey a ≠ externalDirectUDPEndpointKey b) : p < q := by
  obtain ⟨hp, hpa⟩ := List.getElem?_eq_some_iff.mp ha
  obtain ⟨hq, hqb⟩ := List.getElem?_eq_some_iff.mp hb
  by_contra hnot
  obtain heq | hlt := Nat.eq_or_lt_of_le (Nat.not_lt.mp hnot)
  · subst heq
    rw [hpa, Prod.mk.injEq] at hqb
    omega
  · have hba := List.pairwise_iff_getElem.mp hkept q p hq hp hlt
    rw [hqb, hpa] at hba
    have hji := hba.2 hrank.symm (Ne.symm hkey)
    omega

theorem orderedAcross_of_lexicographic {candidates : List (List Char)}
    (hlex : (externalDirectUDPPreferWANStrings candidates).Pairwise Lexicographic) :
    OrderedAcross candidates := by
  intro i j k a b c hij hjk ha hb hc hab hbc hac hkey
  have hkept := pairwise_kept candidates
  rw [← map_fst_preferPlaced, List.pairwise_map] at hlex
  obtain ⟨p, hp⟩ := List.mem_iff_getElem?.mp (mem_preferPlaced.mpr ha)
  obtain ⟨q, hq⟩ := List.mem_iff_getElem?.mp (mem_preferPlaced.mpr hb)
  obtain ⟨r, hr⟩ := List.mem_iff_getElem?.mp (mem_preferPlaced.mpr hc)
  have hpq : p < q := place_lt_of_kept hkept hp hq hij hab (Ne.symm hkey)
  have hqr : q < r := place_lt_of_kept hkept hq hr hjk hbc (hac ▸ hkey)
  obtain ⟨hpl, hpa⟩ := List.getElem?_eq_some_iff.mp hp
  obtain ⟨hrl, hrc⟩ := List.getElem?_eq_some_iff.mp hr
  have hout := List.pairwise_iff_getElem.mp hlex p r hpl hrl (Nat.lt_trans hpq hqr)
  rw [hpa, hrc] at hout
  exact hout (hab.trans hbc) hac

end

/-- The candidates come out as they are, in the order of their ranks.  Those of one rank and one key come out
in lexicographic order just when they came in that order wherever one of their rank and of another key was
between them. -/
theorem prefer_wan_order_iff (candidates : List (List Char)) :
    (externalDirectUDPPreferWANStrings candidates).Perm candidates ∧
      (externalDirectUDPPreferWANStrings candidates).Pairwise (fun a b =>
        externalDirectUDPCandidateRank a ≤ externalDirectUDPCandidateRank b) ∧
      ((externalDirectUDPPreferWANStrings candidates).Pairwise Lexicographic ↔ OrderedAcross candidates) := by
  refine ⟨perm_promoteSort _ _, ?_, orderedAcross_of_lexicographic, ?_⟩
  · rw [← map_fst_preferPlaced, List.pairwise_map]
    exact (pairwise_kept candidates).imp fun hkept => hkept.1
  · intro hacross
    rw [← map_fst_preferPlaced, List.pairwise_map]
    exact (pairwise_lexicographic hacross).imp fun hboth => hboth.2

/-- The first and the last candidate have one port, and stay on the two sides of the second. -/
theorem prefer_wan_not_lexicographic :
    externalDirectUDPPreferWANStrings ["2.2.2.2:1".toList, "3.3.3.3:2".toList, "1.1.1.1:1".toList] =
        ["2.2.2.2:1".toList, "3.3.3.3:2".toList, "1.1.1.1:1".toList] ∧
      externalDirectUDPCandidateRank "2.2.2.2:1".toList = externalDirectUDPCandidateRank "1.1.1.1:1".toList ∧
      externalDirectUDPEndpointKey "2.2.2.2:1".toList = externalDirectUDPEndpointKey "1.1.1.1:1".toList ∧
      "1.1.1.1:1".toList < "2.2.2.2:1".toList := by
  decide +kernel

end Session
