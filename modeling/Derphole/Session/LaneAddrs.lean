import Derphole.Lib.Map
import Derphole.Session.CandidateOrder

/-!
# The addresses of the lanes

How `externalDirectUDPSelectRemoteAddrsByConn` and `externalDirectUDPFillMissingSelectedAddrs` of
`pkg/session/external_direct_udp.go` pick one remote address for each connection.  A connection gets the best
of the addresses that packets came from on it, unless its endpoint key is taken, and connections without one
get fallback addresses of the same rank.  An empty text is a slot without an address.

`candidateStringsInOrder` is that of `pkg/probe/discovery.go`.  A `net.Addr` is what its `String` gives, and
none where it is nil; `fakeTransport` is what `fakeTransportEnabled` says.
-/

namespace Session

open Lib Netip

/-! ## The candidates of a connection -/

def candidateStringsFrom : List (List Char) → List (Option (List Char)) → List (List Char)
  | _, [] => []
  | seen, none :: raw => candidateStringsFrom seen raw
  | seen, some candidate :: raw =>
      if candidate = [] ∨ candidate ∈ seen then candidateStringsFrom seen raw
      else candidate :: candidateStringsFrom (candidate :: seen) raw

def candidateStringsInOrder (raw : List (Option (List Char))) : List (List Char) :=
  candidateStringsFrom [] raw

/-- What the two loops over the ordered candidates keep. -/
structure PickState where
  out : List (List Char)
  seen : List (List Char)
  seenEndpoint : List (List Char)

/-- One of the two loops, and whether it returned because there are enough candidates.  The first one takes
one candidate for each endpoint key. -/
def pickCandidates (parallel : Int) (byEndpoint : Bool) : PickState → List (List Char) → PickState × Bool
  | s, [] => (s, false)
  | s, candidate :: ordered =>
      let endpoint := externalDirectUDPEndpointKey candidate
      if candidate = [] ∨ candidate ∈ s.seen ∨ (byEndpoint = true ∧ endpoint ∈ s.seenEndpoint) then
        pickCandidates parallel byEndpoint s ordered
      else
        let next : PickState := ⟨s.out ++ [candidate], candidate :: s.seen,
          if byEndpoint then endpoint :: s.seenEndpoint else s.seenEndpoint⟩
        if next.out.length = parallel then (next, true)
        else pickCandidates parallel byEndpoint next ordered

def externalDirectUDPParallelCandidateStringsForPeer (fakeTransport : Bool)
    (candidates : List (Option (List Char))) (parallel : Int) (peer : Option (List Char)) :
    List (List Char) :=
  let parallel := if parallel ≤ 0 then 1 else parallel
  let ordered := candidateStringsInOrder candidates
  let ordered :=
    match externalDirectUDPAddrPort peer with
    | none => ordered
    | some peerAddr => if peerAddr.string ∈ ordered then ordered else ordered ++ [peerAddr.string]
  let ordered :=
    if fakeTransport then externalDirectUDPPreferLoopbackStrings ordered
    else externalDirectUDPPreferPeerAddrStrings ordered peer
  match pickCandidates parallel true ⟨[], [], []⟩ ordered with
  | (s, true) => s.out
  | (s, false) => (pickCandidates parallel false s ordered).1.out

/-! ## One address for each connection -/

/-- The loop over the connections, with the number of slots that are left. -/
def selectByConn (fakeTransport : Bool) (peer : Option (List Char)) :
    Nat → List (List (Option (List Char))) → List (List Char) → List (List Char) → List (List Char)
  | 0, _, _, _ => []
  | slots + 1, [], _, _ => List.replicate (slots + 1) []
  | slots + 1, observed :: observedByConn, seen, seenEndpoint =>
      let candidates :=
        externalDirectUDPParallelCandidateStringsForPeer fakeTransport observed observed.length peer
      match candidates.find? fun candidate => decide (¬(candidate = [] ∨ candidate ∈ seen ∨
          externalDirectUDPEndpointKey candidate ∈ seenEndpoint)) with
      | none => [] :: selectByConn fakeTransport peer slots observedByConn seen seenEndpoint
      | some candidate =>
          candidate :: selectByConn fakeTransport peer slots observedByConn (candidate :: seen)
            (externalDirectUDPEndpointKey candidate :: seenEndpoint)

def externalDirectUDPSelectRemoteAddrsByConn (fakeTransport : Bool)
    (observedByConn : List (List (Option (List Char)))) (parallel : Int) (peer : Option (List Char)) :
    List (List Char) :=
  let parallel := if parallel ≤ 0 then observedByConn.length else parallel.toNat
  selectByConn fakeTransport peer parallel observedByConn [] []

def externalDirectUDPSelectedAddrCount (addrs : List (List Char)) : Nat :=
  (addrs.filter fun addr => addr ≠ []).length

/-- The best rank of the candidates that are not empty. -/
def externalDirectUDPBestCandidateRank (candidates : List (List Char)) : Int :=
  candidates.foldl
    (fun bestRank candidate =>
      if candidate = [] then bestRank
      else
        let rank : Int := externalDirectUDPCandidateRank candidate
        if bestRank = -1 ∨ rank < bestRank then rank else bestRank)
    (-1)

def externalDirectUDPFilterFallbackAddrsForSelectedScope (selected fallback : List (List Char)) :
    List (List Char) :=
  let selectedRank := externalDirectUDPBestCandidateRank selected
  let selectedRank :=
    if selectedRank = -1 then externalDirectUDPBestCandidateRank fallback else selectedRank
  if selectedRank = -1 then fallback
  else
    fallback.filter fun candidate =>
      decide (¬(candidate = [] ∨ (externalDirectUDPCandidateRank candidate : Int) ≠ selectedRank))

/-- The loop of `externalDirectUDPDedupeAndFill` over the slots from `i` on: of two candidates with the same
endpoint key, the better one stays. -/
def dedupeSlots : Nat → List (List Char) → List (List Char) → Map (List Char) Nat →
    List (List Char) × Map (List Char) Nat
  | _, [], out, seenEndpoint => (out, seenEndpoint)
  | i, candidate :: slots, out, seenEndpoint =>
      let endpoint := externalDirectUDPEndpointKey candidate
      if candidate = [] then dedupeSlots (i + 1) slots out seenEndpoint
      else
        match seenEndpoint.lookup endpoint with
        | none => dedupeSlots (i + 1) slots out (seenEndpoint.insert endpoint i)
        | some existingIndex =>
            if externalDirectUDPBetterCandidate candidate (out.getD existingIndex []) then
              dedupeSlots (i + 1) slots (out.set existingIndex []) (seenEndpoint.insert endpoint i)
            else dedupeSlots (i + 1) slots (out.set i []) seenEndpoint

/-- The loop over the slots from `i` on that are empty. -/
def fillSlots (fallback : List (List Char)) : Nat → List (List Char) → Map (List Char) Nat →
    List (List Char)
  | _, [], _ => []
  | i, candidate :: slots, seenEndpoint =>
      if candidate ≠ [] then candidate :: fillSlots fallback (i + 1) slots seenEndpoint
      else
        match (externalDirectUDPPreferWANStrings fallback).find? fun replacement =>
            decide (replacement ≠ [] ∧
              seenEndpoint.lookup (externalDirectUDPEndpointKey replacement) = none) with
        | none => candidate :: fillSlots fallback (i + 1) slots seenEndpoint
        | some replacement =>
            replacement :: fillSlots fallback (i + 1) slots
              (seenEndpoint.insert (externalDirectUDPEndpointKey replacement) i)

def externalDirectUDPDedupeAndFill (selected fallback : List (List Char)) : List (List Char) :=
  let deduped := dedupeSlots 0 selected selected ∅
  fillSlots fallback 0 deduped.1 deduped.2

def externalDirectUDPFillMissingSelectedAddrs (selected fallback : List (List Char)) : List (List Char) :=
  if externalDirectUDPSelectedAddrCount selected = selected.length then selected
  else
    let fallback := externalDirectUDPFilterFallbackAddrsForSelectedScope selected fallback
    if externalDirectUDPSelectedAddrCount selected = 0 then
      externalDirectUDPDedupeAndFill (List.replicate selected.length []) fallback
    else externalDirectUDPDedupeAndFill selected fallback

/-! ## What is observed -/

theorem mem_candidateStringsFrom {c : List Char} {seen : List (List Char)} {raw : List (Option (List Char))}
    (h : c ∈ candidateStringsFrom seen raw) : some c ∈ raw := by
  induction raw generalizing seen with
  | nil => cases h
  | cons addr raw ih =>
      cases addr with
      | none => exact List.mem_cons_of_mem _ (ih h)
      | some candidate =>
          rw [candidateStringsFrom] at h
          split at h
          · exact List.mem_cons_of_mem _ (ih h)
          · obtain rfl | h := List.mem_cons.mp h
            · exact List.mem_cons_self
            · exact List.mem_cons_of_mem _ (ih h)

theorem mem_pickCandidates {parallel : Int} {byEndpoint : Bool} {s : PickState} {ordered : List (List Char)}
    {c : List Char} (h : c ∈ (pickCandidates parallel byEndpoint s ordered).1.out) :
    c ∈ s.out ∨ c ∈ ordered := by
  induction ordered generalizing s with
  | nil => exact .inl h
  | cons candidate ordered ih =>
      have htail : ∀ {s : PickState}, c ∈ (pickCandidates parallel byEndpoint s ordered).1.out →
          c ∈ s.out ∨ c ∈ candidate :: ordered :=
        fun h => (ih h).imp_right (List.mem_cons_of_mem candidate)
      have hnext : c ∈ s.out ++ [candidate] → c ∈ s.out ∨ c ∈ candidate :: ordered := by
        intro h
        obtain h | h := List.mem_append.mp h
        · exact .inl h
        · rw [List.mem_singleton.mp h]
          exact .inr List.mem_cons_self
      rw [pickCandidates] at h
      dsimp only at h
      split at h
      · exact htail h
      split at h
      · exact hnext h
      · exact (htail h).elim hnext .inr

/-- Without a peer, candidates are addresses that were observed. -/
theorem mem_parallelCandidateStrings {fakeTransport : Bool} {candidates : List (Option (List Char))}
    {parallel : Int} {c : List Char}
    (h : c ∈ externalDirectUDPParallelCandidateStringsForPeer fakeTransport candidates parallel none) :
    some c ∈ candidates := by
  have hordered : ∀ {c}, c ∈ (if fakeTransport then
        externalDirectUDPPreferLoopbackStrings (candidateStringsInOrder candidates)
      else externalDirectUDPPreferPeerAddrStrings (candidateStringsInOrder candidates) none) →
      some c ∈ candidates := by
    intro c hc
    refine mem_candidateStringsFrom (?_ : c ∈ candidateStringsInOrder candidates)
    split at hc
    · exact mem_promoteSort.mp hc
    · exact mem_promoteSort.mp hc
  rw [externalDirectUDPParallelCandidateStringsForPeer] at h
  dsimp only [externalDirectUDPAddrPort] at h
  split at h
  next s hs =>
    have hmem := mem_pickCandidates (c := c) (by rw [hs]; exact h)
    exact hordered (hmem.resolve_left List.not_mem_nil)
  next s hs =>
    obtain hmem | hmem := mem_pickCandidates h
    · have hfirst := mem_pickCandidates (c := c) (by rw [hs]; exact hmem)
      exact hordered (hfirst.resolve_left List.not_mem_nil)
    · exact hordered hmem

/-! ## Distinct endpoints -/

/-- No two addresses have the same endpoint key. -/
def DistinctEndpoints (slots : List (List Char)) : Prop :=
  slots.Pairwise fun a b =>
    a ≠ [] → b ≠ [] → externalDirectUDPEndpointKey a ≠ externalDirectUDPEndpointKey b

theorem distinctEndpoints_cons_empty {slots : List (List Char)} (h : DistinctEndpoints slots) :
    DistinctEndpoints ([] :: slots) :=
  List.pairwise_cons.mpr ⟨fun _ _ hne => absurd rfl hne, h⟩

/-- What the loop over the connections selects. -/
theorem selectByConn_spec (fakeTransport : Bool) (slots : Nat)
    (observedByConn : List (List (Option (List Char)))) (seen seenEndpoint : List (List Char)) :
    let selected := selectByConn fakeTransport none slots observedByConn seen seenEndpoint
    selected.length = slots ∧ DistinctEndpoints selected ∧
      (∀ slot ∈ selected, slot ≠ [] → externalDirectUDPEndpointKey slot ∉ seenEndpoint) ∧
      ∀ (i : Nat) slot, selected[i]? = some slot → slot ≠ [] →
        ∃ observed, observedByConn[i]? = some observed ∧ some slot ∈ observed := by
  induction slots generalizing observedByConn seen seenEndpoint with
  | zero => exact ⟨rfl, .nil, by simp [selectByConn], by simp [selectByConn]⟩
  | succ slots ih =>
      cases observedByConn with
      | nil =>
          have hempty : ∀ slot ∈ List.replicate (slots + 1) ([] : List Char), slot = [] :=
            fun _ => List.eq_of_mem_replicate
          refine ⟨List.length_replicate, ?_, ?_, ?_⟩
          · exact List.pairwise_of_forall_mem_list fun a ha _ _ hne => absurd (hempty a ha) hne
          · exact fun slot hslot hne => absurd (hempty slot hslot) hne
          · exact fun i slot hslot hne => absurd (hempty slot (List.mem_of_getElem? hslot)) hne
      | cons observed observedByConn =>
          rw [selectByConn]
          dsimp only
          split
          next =>
            obtain ⟨hlength, hdistinct, hfree, hobserved⟩ := ih observedByConn seen seenEndpoint
            refine ⟨congrArg (· + 1) hlength, distinctEndpoints_cons_empty hdistinct, ?_, ?_⟩
            · exact List.forall_mem_cons.mpr ⟨fun hne => absurd rfl hne, hfree⟩
            · intro i slot hslot hne
              cases i with
              | zero => exact absurd (Option.some.inj hslot).symm hne
              | succ i => exact hobserved i slot hslot hne
          next candidate hfound =>
            obtain ⟨hlength, hdistinct, hfree, hobserved⟩ := ih observedByConn (candidate :: seen)
              (externalDirectUDPEndpointKey candidate :: seenEndpoint)
            have hnew := List.find?_some hfound
            rw [decide_eq_true_eq, not_or, not_or] at hnew
            have hmem := mem_parallelCandidateStrings (List.mem_of_find?_eq_some hfound)
            refine ⟨congrArg (· + 1) hlength, List.pairwise_cons.mpr ⟨?_, hdistinct⟩, ?_, ?_⟩
            · intro slot hslot _ hne heq
              exact hfree slot hslot hne (heq ▸ List.mem_cons_self)
            · refine List.forall_mem_cons.mpr ⟨fun _ => hnew.2.2, ?_⟩
              exact fun slot hslot hne hin => hfree slot hslot hne (List.mem_cons_of_mem _ hin)
            · intro i slot hslot hne
              cases i with
              | zero =>
                  cases hslot
                  exact ⟨observed, rfl, hmem⟩
              | succ i => exact hobserved i slot hslot hne

/-- Slots with distinct keys are all kept, and their keys are the ones seen. -/
theorem dedupeSlots_distinct {slots : List (List Char)} (hdistinct : DistinctEndpoints slots) (i : Nat)
    (out : List (List Char)) {seenEndpoint : Map (List Char) Nat}
    (hfree : ∀ c ∈ slots, c ≠ [] → seenEndpoint.lookup (externalDirectUDPEndpointKey c) = none) :
    (dedupeSlots i slots out seenEndpoint).1 = out ∧
      ∀ key, (dedupeSlots i slots out seenEndpoint).2.lookup key = none ↔
        seenEndpoint.lookup key = none ∧ ∀ c ∈ slots, c ≠ [] → externalDirectUDPEndpointKey c ≠ key := by
  induction slots generalizing i seenEndpoint with
  | nil => exact ⟨rfl, fun key => by simp [dedupeSlots]⟩
  | cons candidate slots ih =>
      obtain ⟨hhead, htail⟩ := List.pairwise_cons.mp hdistinct
      obtain ⟨hcandidate, hslots⟩ := List.forall_mem_cons.mp hfree
      rw [dedupeSlots]
      split
      next hempty =>
        obtain ⟨hout, hseen⟩ := ih htail (i + 1) hslots
        refine ⟨hout, fun key => ?_⟩
        rw [hseen key, List.forall_mem_cons]
        simp [hempty]
      next hne =>
        rw [hcandidate hne]
        dsimp only
        have hnext : ∀ c ∈ slots, c ≠ [] → (seenEndpoint.insert (externalDirectUDPEndpointKey candidate)
            i).lookup (externalDirectUDPEndpointKey c) = none := by
          intro c hc hcne
          rw [AList.lookup_insert_ne (hhead c hc hne hcne).symm]
          exact hslots c hc hcne
        obtain ⟨hout, hseen⟩ := ih htail (i + 1) hnext
        refine ⟨hout, fun key => ?_⟩
        rw [hseen key, List.forall_mem_cons]
        by_cases hkey : key = externalDirectUDPEndpointKey candidate
        · simp [hkey, hne]
        · rw [AList.lookup_insert_ne hkey]
          simp [hne, Ne.symm hkey]

/-! ## Filling -/

theorem lookup_insert_eq_none {seenEndpoint : Map (List Char) Nat} {key endpoint : List Char} {i : Nat} :
    (seenEndpoint.insert endpoint i).lookup key = none ↔
      key ≠ endpoint ∧ seenEndpoint.lookup key = none := by
  by_cases hkey : key = endpoint
  · simp [hkey]
  · rw [AList.lookup_insert_ne hkey, and_iff_right hkey]

/-- What becomes of one slot: it has an address, or no fallback address has a free key, or it takes one that
has. -/
theorem fillSlots_cons (fallback : List (List Char)) (i : Nat) (candidate : List Char)
    (slots : List (List Char)) (seenEndpoint : Map (List Char) Nat) :
    (candidate ≠ [] ∧ fillSlots fallback i (candidate :: slots) seenEndpoint =
        candidate :: fillSlots fallback (i + 1) slots seenEndpoint) ∨
      (candidate = [] ∧
        (∀ c ∈ fallback, c ≠ [] → seenEndpoint.lookup (externalDirectUDPEndpointKey c) ≠ none) ∧
        fillSlots fallback i (candidate :: slots) seenEndpoint =
          [] :: fillSlots fallback (i + 1) slots seenEndpoint) ∨
      ∃ replacement ∈ fallback, candidate = [] ∧ replacement ≠ [] ∧
        seenEndpoint.lookup (externalDirectUDPEndpointKey replacement) = none ∧
        fillSlots fallback i (candidate :: slots) seenEndpoint =
          replacement :: fillSlots fallback (i + 1) slots
            (seenEndpoint.insert (externalDirectUDPEndpointKey replacement) i) := by
  rw [fillSlots]
  split
  next hne => exact .inl ⟨hne, rfl⟩
  next hempty =>
    rw [not_not] at hempty
    subst hempty
    right
    split
    next hnone =>
      refine .inl ⟨rfl, fun c hc hne hfree => ?_, rfl⟩
      have hrefused := List.find?_eq_none.mp hnone c (mem_promoteSort.mpr hc)
      rw [decide_eq_true_eq] at hrefused
      exact hrefused ⟨hne, hfree⟩
    next replacement hfound =>
      have hfree := List.find?_some hfound
      rw [decide_eq_true_eq] at hfree
      have hmem := mem_promoteSort.mp (List.mem_of_find?_eq_some hfound)
      exact .inr ⟨replacement, hmem, rfl, hfree.1, hfree.2, rfl⟩

/-- The address at a slot is the one that was there, or a fallback address whose key was free. -/
theorem fillSlots_origin (fallback : List (List Char)) (i : Nat) (slots : List (List Char))
    (seenEndpoint : Map (List Char) Nat) :
    let filled := fillSlots fallback i slots seenEndpoint
    filled.length = slots.length ∧
      ∀ (j : Nat) slot, filled[j]? = some slot → slot ≠ [] → slots[j]? = some slot ∨
        slots[j]? = some [] ∧ slot ∈ fallback ∧
          seenEndpoint.lookup (externalDirectUDPEndpointKey slot) = none := by
  induction slots generalizing i seenEndpoint with
  | nil => exact ⟨rfl, by simp [fillSlots]⟩
  | cons candidate slots ih =>
      dsimp only
      obtain ⟨-, heq⟩ | ⟨rfl, -, heq⟩ | ⟨replacement, hmem, rfl, -, hfree, heq⟩ :=
        fillSlots_cons fallback i candidate slots seenEndpoint
      all_goals rw [heq]
      · obtain ⟨hlength, horigin⟩ := ih (i + 1) seenEndpoint
        refine ⟨congrArg (· + 1) hlength, ?_⟩
        rintro (_ | j) slot hslot hne
        · exact .inl hslot
        · exact horigin j slot hslot hne
      · obtain ⟨hlength, horigin⟩ := ih (i + 1) seenEndpoint
        refine ⟨congrArg (· + 1) hlength, ?_⟩
        rintro (_ | j) slot hslot hne
        · exact .inl hslot
        · exact horigin j slot hslot hne
      · obtain ⟨hlength, horigin⟩ := ih (i + 1) _
        refine ⟨congrArg (· + 1) hlength, ?_⟩
        rintro (_ | j) slot hslot hne
        · cases hslot
          exact .inr ⟨rfl, hmem, hfree⟩
        · obtain hkept | ⟨hnone, hmem, hlookup⟩ := horigin j slot hslot hne
          · exact .inl hkept
          · exact .inr ⟨hnone, hmem, (lookup_insert_eq_none.mp hlookup).2⟩

/-- Addresses stay where they are. -/
theorem mem_fillSlots {fallback : List (List Char)} {c : List Char} (hne : c ≠ []) (i : Nat)
    {slots : List (List Char)} (seenEndpoint : Map (List Char) Nat) (h : c ∈ slots) :
    c ∈ fillSlots fallback i slots seenEndpoint := by
  induction slots generalizing i seenEndpoint with
  | nil => cases h
  | cons candidate slots ih =>
      obtain ⟨-, heq⟩ | ⟨rfl, -, heq⟩ | ⟨replacement, -, rfl, -, -, heq⟩ :=
        fillSlots_cons fallback i candidate slots seenEndpoint
      all_goals rw [heq]
      · exact List.mem_cons.mpr ((List.mem_cons.mp h).imp_right (ih (i + 1) seenEndpoint))
      · exact List.mem_cons_of_mem _ (ih (i + 1) _ ((List.mem_cons.mp h).resolve_left hne))
      · exact List.mem_cons_of_mem _ (ih (i + 1) _ ((List.mem_cons.mp h).resolve_left hne))

theorem fillSlots_distinct {fallback slots : List (List Char)} (hdistinct : DistinctEndpoints slots)
    (i : Nat) {seenEndpoint : Map (List Char) Nat}
    (hseen : ∀ c ∈ slots, c ≠ [] → seenEndpoint.lookup (externalDirectUDPEndpointKey c) ≠ none) :
    DistinctEndpoints (fillSlots fallback i slots seenEndpoint) := by
  induction slots generalizing i seenEndpoint with
  | nil => exact .nil
  | cons candidate slots ih =>
      obtain ⟨hhead, htail⟩ := List.pairwise_cons.mp hdistinct
      obtain ⟨hcandidate, hslots⟩ := List.forall_mem_cons.mp hseen
      -- an address behind the head was there before, with its key seen, or came with a free key
      have horigin : ∀ {i seenEndpoint slot}, slot ∈ fillSlots fallback i slots seenEndpoint → slot ≠ [] →
          slot ∈ slots ∨ seenEndpoint.lookup (externalDirectUDPEndpointKey slot) = none := by
        intro i seenEndpoint slot hslot hne
        obtain ⟨j, hj⟩ := List.mem_iff_getElem?.mp hslot
        obtain hkept | ⟨-, -, hfree⟩ := (fillSlots_origin fallback i slots seenEndpoint).2 j slot hj hne
        · exact .inl (List.mem_of_getElem? hkept)
        · exact .inr hfree
      obtain ⟨hne, heq⟩ | ⟨-, -, heq⟩ | ⟨replacement, -, -, -, hfree, heq⟩ :=
        fillSlots_cons fallback i candidate slots seenEndpoint
      all_goals rw [heq]
      · refine List.pairwise_cons.mpr ⟨?_, ih htail (i + 1) hslots⟩
        intro slot hslot _ hslotNe hkey
        obtain hkept | hslotFree := horigin hslot hslotNe
        · exact hhead slot hkept hne hslotNe hkey
        · exact hcandidate hne (hkey ▸ hslotFree)
      · exact distinctEndpoints_cons_empty (ih htail (i + 1) hslots)
      · have hnext : ∀ c ∈ slots, c ≠ [] → (seenEndpoint.insert (externalDirectUDPEndpointKey replacement)
            i).lookup (externalDirectUDPEndpointKey c) ≠ none :=
          fun c hc hcne hnone => hslots c hc hcne (lookup_insert_eq_none.mp hnone).2
        refine List.pairwise_cons.mpr ⟨?_, ih htail (i + 1) hnext⟩
        intro slot hslot _ hslotNe hkey
        obtain hkept | hslotFree := horigin hslot hslotNe
        · exact hslots slot hkept hslotNe (hkey ▸ hfree)
        · exact (lookup_insert_eq_none.mp hslotFree).1 hkey.symm

/-- A slot is left empty only when the keys of all fallback addresses are taken. -/
theorem fillSlots_maximal {fallback : List (List Char)} {c : List Char} (hc : c ∈ fallback) (hne : c ≠ [])
    (i : Nat) (slots : List (List Char)) (seenEndpoint : Map (List Char) Nat)
    (h : [] ∈ fillSlots fallback i slots seenEndpoint) :
    seenEndpoint.lookup (externalDirectUDPEndpointKey c) ≠ none ∨
      ∃ slot ∈ fillSlots fallback i slots seenEndpoint,
        slot ≠ [] ∧ externalDirectUDPEndpointKey slot = externalDirectUDPEndpointKey c := by
  have hlater : ∀ {P : List Char → Prop} {first : List Char} {rest : List (List Char)},
      (∃ slot ∈ rest, P slot) → ∃ slot ∈ first :: rest, P slot :=
    fun ⟨slot, hslot, hp⟩ => ⟨slot, List.mem_cons_of_mem _ hslot, hp⟩
  induction slots generalizing i seenEndpoint with
  | nil => cases h
  | cons candidate slots ih =>
      obtain ⟨hfilled, heq⟩ | ⟨-, htaken, -⟩ | ⟨replacement, -, -, hreplacement, -, heq⟩ :=
        fillSlots_cons fallback i candidate slots seenEndpoint
      · rw [heq] at h ⊢
        have hrest := (List.mem_cons.mp h).resolve_left hfilled.symm
        exact (ih (i + 1) seenEndpoint hrest).imp_right hlater
      · exact .inl (htaken c hc hne)
      · rw [heq] at h ⊢
        have hrest := (List.mem_cons.mp h).resolve_left hreplacement.symm
        obtain htaken | hslot := ih (i + 1) _ hrest
        · by_cases hkey : externalDirectUDPEndpointKey c = externalDirectUDPEndpointKey replacement
          · exact .inr ⟨replacement, List.mem_cons_self, hreplacement, hkey.symm⟩
          · exact .inl fun hnone => htaken (lookup_insert_eq_none.mpr ⟨hkey, hnone⟩)
        · exact .inr (hlater hslot)

theorem dedupeAndFill_spec {selected fallback : List (List Char)} (hdistinct : DistinctEndpoints selected) :
    let filled := externalDirectUDPDedupeAndFill selected fallback
    filled.length = selected.length ∧ DistinctEndpoints filled ∧
      (∀ (i : Nat) slot, filled[i]? = some slot → slot ≠ [] →
        selected[i]? = some slot ∨ slot ∈ fallback) ∧
      ([] ∈ filled → ∀ c ∈ fallback, c ≠ [] → ∃ slot ∈ filled,
        slot ≠ [] ∧ externalDirectUDPEndpointKey slot = externalDirectUDPEndpointKey c) := by
  obtain ⟨hout, hseen⟩ := dedupeSlots_distinct hdistinct 0 selected
    (fun _ _ _ => AList.lookup_empty _)
  have hkeys : ∀ c ∈ selected, c ≠ [] →
      (dedupeSlots 0 selected selected ∅).2.lookup (externalDirectUDPEndpointKey c) ≠ none := by
    intro c hc hne hnone
    exact ((hseen _).mp hnone).2 c hc hne rfl
  rw [externalDirectUDPDedupeAndFill]
  dsimp only
  rw [hout]
  obtain ⟨hlength, horigin⟩ := fillSlots_origin fallback 0 selected
    (dedupeSlots 0 selected selected ∅).2
  refine ⟨hlength, fillSlots_distinct hdistinct 0 hkeys, ?_, ?_⟩
  · intro i slot hslot hne
    exact (horigin i slot hslot hne).imp_right fun h => h.2.1
  · intro hempty c hc hne
    obtain htaken | hslot := fillSlots_maximal hc hne 0 selected _ hempty
    · rw [ne_eq, hseen, not_and] at htaken
      have hselected := htaken (AList.lookup_empty _)
      push Not at hselected
      obtain ⟨slot, hslot, hslotNe, hkey⟩ := hselected
      exact ⟨slot, mem_fillSlots hslotNe 0 _ hslot, hslotNe, hkey⟩
    · exact hslot

/-! ## The scope -/

/-- The best rank of the selected addresses, or of the fallback addresses where none is selected. -/
def selectedRank (selected fallback : List (List Char)) : Int :=
  if externalDirectUDPBestCandidateRank selected = -1 then externalDirectUDPBestCandidateRank fallback
  else externalDirectUDPBestCandidateRank selected

/-- A fallback address of the scope that is selected. -/
def Usable (selected fallback : List (List Char)) (c : List Char) : Prop :=
  c ∈ fallback ∧ c ≠ [] ∧ (externalDirectUDPCandidateRank c : Int) = selectedRank selected fallback

theorem bestCandidateRank_none {candidates : List (List Char)}
    (h : externalDirectUDPBestCandidateRank candidates = -1) : ∀ c ∈ candidates, c = [] := by
  have hloop : ∀ (bestRank : Int) (candidates : List (List Char)),
      candidates.foldl
        (fun bestRank candidate =>
          if candidate = [] then bestRank
          else
            let rank : Int := externalDirectUDPCandidateRank candidate
            if bestRank = -1 ∨ rank < bestRank then rank else bestRank) bestRank = -1 →
      bestRank = -1 ∧ ∀ c ∈ candidates, c = [] := by
    intro bestRank candidates
    induction candidates generalizing bestRank with
    | nil => exact fun h => ⟨h, fun c hc => absurd hc List.not_mem_nil⟩
    | cons candidate candidates ih =>
        intro h
        obtain ⟨hbest, hrest⟩ := ih _ h
        dsimp only at hbest
        rw [List.forall_mem_cons]
        split at hbest
        next hempty => exact ⟨hbest, hempty, hrest⟩
        next => split at hbest <;> omega
  exact (hloop (-1) candidates h).2

theorem mem_filterFallback {selected fallback : List (List Char)} {c : List Char} (hne : c ≠ []) :
    c ∈ externalDirectUDPFilterFallbackAddrsForSelectedScope selected fallback ↔
      Usable selected fallback c := by
  have hfilter : externalDirectUDPFilterFallbackAddrsForSelectedScope selected fallback =
      if selectedRank selected fallback = -1 then fallback
      else fallback.filter fun candidate => decide
        (¬(candidate = [] ∨ (externalDirectUDPCandidateRank candidate : Int) ≠ selectedRank selected fallback)) :=
    rfl
  rw [hfilter, Usable]
  split
  next hnone =>
    have hempty : ∀ c ∈ fallback, c = [] := by
      rw [selectedRank] at hnone
      split at hnone
      · exact bestCandidateRank_none hnone
      next hselected => exact absurd hnone hselected
    exact ⟨fun hc => absurd (hempty c hc) hne, fun hc => hc.1⟩
  next => rw [List.mem_filter, decide_eq_true_eq, not_or, not_not]

theorem fillMissing_eq (selected fallback : List (List Char)) :
    externalDirectUDPFillMissingSelectedAddrs selected fallback =
      if externalDirectUDPSelectedAddrCount selected = selected.length then selected
      else
        externalDirectUDPDedupeAndFill selected
          (externalDirectUDPFilterFallbackAddrsForSelectedScope selected fallback) := by
  rw [externalDirectUDPFillMissingSelectedAddrs]
  split
  · rfl
  · dsimp only
    split
    next hnone =>
      have hempty : selected = List.replicate selected.length [] := by
        refine List.eq_replicate_of_mem fun c hc => ?_
        rw [externalDirectUDPSelectedAddrCount, List.length_eq_zero_iff, List.filter_eq_nil_iff] at hnone
        simpa using hnone c hc
      rw [← hempty]
    · rfl

/-- The addresses that are selected, with the missing ones filled in. -/
def filledAddrs (fakeTransport : Bool) (observedByConn : List (List (Option (List Char)))) (parallel : Int)
    (fallback : List (List Char)) : List (List Char) :=
  externalDirectUDPFillMissingSelectedAddrs
    (externalDirectUDPSelectRemoteAddrsByConn fakeTransport observedByConn parallel none) fallback

/-- Every connection gets a slot; the addresses have different endpoint keys; each was observed on its
connection or is a fallback address of the selected scope; and a slot is empty only if the keys of all
fallback addresses of that scope are taken by other slots. -/
theorem lane_addrs_selected (fakeTransport : Bool) (observedByConn : List (List (Option (List Char))))
    (parallel : Int) (fallback : List (List Char)) :
    (filledAddrs fakeTransport observedByConn parallel fallback).length =
        (if parallel ≤ 0 then observedByConn.length else parallel.toNat) ∧
      DistinctEndpoints (filledAddrs fakeTransport observedByConn parallel fallback) ∧
      (∀ (i : Nat) slot, (filledAddrs fakeTransport observedByConn parallel fallback)[i]? = some slot →
        slot ≠ [] →
        (∃ observed, observedByConn[i]? = some observed ∧ some slot ∈ observed) ∨
          Usable (externalDirectUDPSelectRemoteAddrsByConn fakeTransport observedByConn parallel none)
            fallback slot) ∧
      (∀ i : Nat, (filledAddrs fakeTransport observedByConn parallel fallback)[i]? = some [] →
        ∀ c, Usable (externalDirectUDPSelectRemoteAddrsByConn fakeTransport observedByConn parallel none)
          fallback c →
        ∃ (j : Nat) (slot : List Char), j ≠ i ∧
          (filledAddrs fakeTransport observedByConn parallel fallback)[j]? = some slot ∧ slot ≠ [] ∧
          externalDirectUDPEndpointKey slot = externalDirectUDPEndpointKey c) := by
  obtain ⟨hlength, hdistinct, -, hobserved⟩ := selectByConn_spec fakeTransport
    (if parallel ≤ 0 then observedByConn.length else parallel.toNat) observedByConn [] []
  have hfinal : filledAddrs fakeTransport observedByConn parallel fallback = _ := fillMissing_eq _ _
  split at hfinal
  next hfull =>
    rw [hfinal]
    refine ⟨hlength, hdistinct, ?_, ?_⟩
    · intro i slot hslot hne
      exact .inl (hobserved i slot hslot hne)
    · intro i hempty
      have hall := List.length_filter_eq_length_iff.mp hfull [] (List.mem_of_getElem? hempty)
      exact absurd hall (by decide)
  next =>
    obtain ⟨hfilled, hfilledDistinct, horigin, hmaximal⟩ := dedupeAndFill_spec hdistinct
    rw [hfinal]
    refine ⟨hfilled.trans hlength, hfilledDistinct, ?_, ?_⟩
    · intro i slot hslot hne
      obtain hkept | hfallback := horigin i slot hslot hne
      · exact .inl (hobserved i slot hkept hne)
      · exact .inr ((mem_filterFallback hne).mp hfallback)
    · intro i hempty c hc
      obtain ⟨slot, hslot, hne, hkey⟩ := hmaximal (List.mem_of_getElem? hempty) c
        ((mem_filterFallback hc.2.1).mpr hc) hc.2.1
      obtain ⟨j, hj⟩ := List.mem_iff_getElem?.mp hslot
      refine ⟨j, slot, ?_, hj, hne, hkey⟩
      rintro rfl
      exact hne (Option.some.inj (hempty.symm.trans hj)).symm

/-- The second connection has only seen a port that is taken, and the third has seen nothing. -/
example :
    filledAddrs false [[some "8.8.8.8:1".toList], [some "8.8.4.4:1".toList, none], []] 3
        ["192.168.0.1:2".toList, "9.9.9.9:3".toList, "9.9.9.9:1".toList] =
      ["8.8.8.8:1".toList, "9.9.9.9:3".toList, []] := by
  decide +kernel

end Session
