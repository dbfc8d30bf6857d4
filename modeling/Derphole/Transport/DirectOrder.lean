import Derphole.Lib.Weighing
import Derphole.Transport.PathState

/-!
# Which direct endpoint is better

`betterDirectAddr` of `pkg/transport/state.go` weighs the preference points of two addresses against the
share of the latency that the faster one saves (`betterDirectAddr_iff`).  Latencies are those of probes that
were acknowledged within a discovery interval (`Manager.latency_le`), so a hundred times a latency is an exact
number; a latency of zero or less counts as one of zero.

The comparison is asymmetric.  It is transitive unless three addresses have different preference points and
each of them is better than one with more points, in turn, and there it is not: endpoints of three kinds can
be driven round in a circle (`direct_preference_cycles`).
-/

namespace Transport

open Lib

/-! ## The comparison -/

theorem preferencePoints_cases (ip : IP) :
    directAddrPreferencePoints ip = 0 ∨ directAddrPreferencePoints ip = 20 ∨
      directAddrPreferencePoints ip = 30 ∨ directAddrPreferencePoints ip = 50 := by
  unfold directAddrPreferencePoints
  split_ifs <;> simp

/-- An address with its latency, as it is weighed. -/
def weighed (ip : IP) (latency : Int) : Weighed := ⟨(directAddrPreferencePoints ip).toNat, latency.toNat⟩

/-- The points of a latency are what it saves of the larger one, and more where it is below zero. -/
theorem latencyPoints_cases {smaller larger : Int} (hle : smaller ≤ larger) (hpos : 0 < larger) :
    latencyPoints smaller larger = saving 100 smaller.toNat larger.toNat ∨
      100 ≤ latencyPoints smaller larger ∧ saving 100 smaller.toNat larger.toNat = 100 := by
  rw [latencyPoints, saving, if_neg (by omega)]
  obtain hneg | hnonneg := Int.lt_or_le smaller 0
  · right
    have hquot : 0 ≤ (-(smaller * 100)).tdiv larger := Int.tdiv_nonneg (by omega) (by omega)
    rw [Int.neg_tdiv] at hquot
    rw [show smaller.toNat = 0 by omega, Nat.mul_zero, Nat.zero_div]
    omega
  · left
    obtain ⟨a, rfl⟩ := Int.eq_ofNat_of_zero_le hnonneg
    obtain ⟨b, rfl⟩ := Int.eq_ofNat_of_zero_le (Int.le_of_lt hpos)
    have hb : 0 < b := by omega
    have hquot : ((a : Int) * 100).tdiv b = ((100 * a / b : Nat) : Int) := by
      rw [Int.tdiv_eq_ediv_of_nonneg (by omega), Int.natCast_ediv, Nat.mul_comm]
      rfl
    have hshare : 100 * a / b ≤ 100 := by
      rw [Nat.div_le_iff_le_mul_add_pred hb]
      omega
    rw [hquot, Int.toNat_natCast, Int.toNat_natCast]
    omega

/-- The decision, where one side has points for its latency: `n` is what they are worth, no more than a
hundred. -/
theorem points_gt_iff {p q c d n : Int} (hp : p = 0 ∨ p = 20 ∨ p = 30 ∨ p = 50)
    (hq : q = 0 ∨ q = 20 ∨ q = 30 ∨ q = 50)
    (h : d = 0 ∧ 0 ≤ c ∧ (n = c ∨ 100 ≤ c ∧ n = 100) ∨ c = 0 ∧ 0 ≤ d ∧ (n = -d ∨ 100 ≤ d ∧ n = -100)) :
    (if c + p ≤ 1 ∧ d + q = 0 then false else decide (c + p > d + q)) = true ↔
      leadNeeded p.toNat q.toNat ≤ n := by
  rw [leadNeeded]
  split
  next hnone =>
    split
    next => simp only [Bool.false_eq_true, false_iff]; omega
    next => omega
  next =>
    rw [decide_eq_true_iff]
    split
    next => omega
    next => omega

/-- Of two addresses with an IP address, the candidate is better when it outweighs the current one. -/
theorem betterDirectAddr_iff {candidate current : UDPAddr} {candidateIP currentIP : IP}
    (hcandidate : addrIP candidate = some candidateIP) (hcurrent : addrIP current = some currentIP)
    (candidateLatency currentLatency : Int) :
    betterDirectAddr candidate candidateLatency current currentLatency = true ↔
      Outweighs 100 (weighed candidateIP candidateLatency) (weighed currentIP currentLatency) := by
  simp only [betterDirectAddr, hcandidate, hcurrent]
  refine points_gt_iff (preferencePoints_cases candidateIP) (preferencePoints_cases currentIP) ?_
  dsimp only [lead, weighed]
  by_cases hslower : candidateLatency > currentLatency ∧ candidateLatency > 0
  · have hpoints := latencyPoints_cases (Int.le_of_lt hslower.1) hslower.2
    rw [if_pos hslower, if_pos hslower,
      @saving_of_le 100 candidateLatency.toNat currentLatency.toNat (by omega)]
    right
    omega
  · rw [if_neg hslower, if_neg hslower]
    left
    by_cases hpos : currentLatency > 0
    · have hpoints := latencyPoints_cases (by omega : candidateLatency ≤ currentLatency) hpos
      rw [if_pos hpos, @saving_of_le 100 currentLatency.toNat candidateLatency.toNat (by omega)]
      omega
    · rw [if_neg hpos, show candidateLatency.toNat = 0 by omega, show currentLatency.toNat = 0 by omega]
      omega

/-! ## An order, almost -/

/-- The preference points of an address that has an IP address. -/
def preference (addr : UDPAddr) : Option Nat :=
  (addrIP addr).map fun ip => (directAddrPreferencePoints ip).toNat

/-- The addresses have three different preferences, and each has less than the next one, in turn. -/
def RotatingPreferences (a b c : UDPAddr) : Prop :=
  ∃ p q r, preference a = some p ∧ preference b = some q ∧ preference c = some r ∧ Rotating p q r

theorem betterDirectAddr_none_left {a b : UDPAddr} (la lb : Int) (ha : addrIP a = none) :
    betterDirectAddr a la b lb = false := by
  rw [betterDirectAddr, ha]

theorem betterDirectAddr_none_right {a b : UDPAddr} {ip : IP} (la lb : Int) (ha : addrIP a = some ip)
    (hb : addrIP b = none) : betterDirectAddr a la b lb = true := by
  rw [betterDirectAddr, ha, hb]

theorem betterDirectAddr_irrefl (a : UDPAddr) (la : Int) : ¬ betterDirectAddr a la a la = true := by
  cases ha : addrIP a with
  | none => simp [betterDirectAddr_none_left la la ha]
  | some ip =>
      rw [betterDirectAddr_iff ha ha]
      exact Outweighs.irrefl

theorem betterDirectAddr_asymm {a b : UDPAddr} {la lb : Int} (h : betterDirectAddr a la b lb = true) :
    ¬ betterDirectAddr b lb a la = true := by
  cases ha : addrIP a with
  | none => simp [betterDirectAddr_none_left la lb ha] at h
  | some ipa =>
      cases hb : addrIP b with
      | none => simp [betterDirectAddr_none_left lb la hb]
      | some ipb =>
          rw [betterDirectAddr_iff ha hb] at h
          rw [betterDirectAddr_iff hb ha]
          exact h.asymm

theorem betterDirectAddr_trans {a b c : UDPAddr} {la lb lc : Int} (hab : betterDirectAddr a la b lb = true)
    (hbc : betterDirectAddr b lb c lc = true) (hnot : ¬ RotatingPreferences a b c) :
    betterDirectAddr a la c lc = true := by
  cases ha : addrIP a with
  | none => simp [betterDirectAddr_none_left la lb ha] at hab
  | some ipa =>
      cases hb : addrIP b with
      | none => simp [betterDirectAddr_none_left lb lc hb] at hbc
      | some ipb =>
          cases hc : addrIP c with
          | none => exact betterDirectAddr_none_right la lc ha hc
          | some ipc =>
              rw [betterDirectAddr_iff ha hb] at hab
              rw [betterDirectAddr_iff hb hc] at hbc
              rw [betterDirectAddr_iff ha hc]
              refine hab.trans_of_not_rotating hbc fun hrot => hnot ⟨_, _, _, ?_, ?_, ?_, hrot⟩
              · rw [preference, ha]
                rfl
              · rw [preference, hb]
                rfl
              · rw [preference, hc]
                rfl

/-- The first address is better than the second one with these latencies. -/
def Better (latency : UDPAddr → Int) (a b : UDPAddr) : Prop :=
  betterDirectAddr a (latency a) b (latency b) = true

instance (latency : UDPAddr → Int) (a b : UDPAddr) : Decidable (Better latency a b) :=
  inferInstanceAs (Decidable (_ = true))

/-- Three preferences of the source are enough for a circle. -/
theorem circle_of_lt {p q r : Nat} (hp : p = 0 ∨ p = 20 ∨ p = 30 ∨ p = 50)
    (hq : q = 0 ∨ q = 20 ∨ q = 30 ∨ q = 50) (hr : r = 0 ∨ r = 20 ∨ r = 30 ∨ r = 50) (hpq : p < q)
    (hqr : q < r) :
    ∃ l m n : Nat, Outweighs 100 ⟨p, l⟩ ⟨q, m⟩ ∧ Outweighs 100 ⟨q, m⟩ ⟨r, n⟩ ∧
      Outweighs 100 ⟨r, n⟩ ⟨p, l⟩ := by
  obtain rfl | rfl : q = 20 ∨ q = 30 := by omega
  · obtain rfl : p = 0 := by omega
    obtain rfl | rfl : r = 30 ∨ r = 50 := by omega
    · exact ⟨7183, 8990, 10000, by decide +kernel⟩
    · exact ⟨5500, 6990, 10000, by decide +kernel⟩
  · obtain rfl : r = 50 := by omega
    obtain rfl | rfl : p = 0 ∨ p = 20 := by omega
    · exact ⟨5500, 7990, 10000, by decide +kernel⟩
    · exact ⟨7150, 7990, 10000, by decide +kernel⟩

theorem circle_of_rotating {p q r : Nat} (hp : p = 0 ∨ p = 20 ∨ p = 30 ∨ p = 50)
    (hq : q = 0 ∨ q = 20 ∨ q = 30 ∨ q = 50) (hr : r = 0 ∨ r = 20 ∨ r = 30 ∨ r = 50)
    (h : Rotating p q r) :
    ∃ l m n : Nat, Outweighs 100 ⟨p, l⟩ ⟨q, m⟩ ∧ Outweighs 100 ⟨q, m⟩ ⟨r, n⟩ ∧
      Outweighs 100 ⟨r, n⟩ ⟨p, l⟩ := by
  obtain ⟨hpq, hqr⟩ | ⟨hqr, hrp⟩ | ⟨hrp, hpq⟩ := h
  · exact circle_of_lt hp hq hr hpq hqr
  · obtain ⟨m, n, l, hqr, hrp, hpq⟩ := circle_of_lt hq hr hp hqr hrp
    exact ⟨l, m, n, hpq, hqr, hrp⟩
  · obtain ⟨n, l, m, hrp, hpq, hqr⟩ := circle_of_lt hr hp hq hrp hpq
    exact ⟨l, m, n, hpq, hqr, hrp⟩

theorem preference_eq_some {a : UDPAddr} {n : Nat} (h : preference a = some n) :
    ∃ ip, addrIP a = some ip ∧ n = (directAddrPreferencePoints ip).toNat ∧
      (n = 0 ∨ n = 20 ∨ n = 30 ∨ n = 50) := by
  rw [preference, Option.map_eq_some_iff] at h
  obtain ⟨ip, hip, rfl⟩ := h
  have hcases := preferencePoints_cases ip
  exact ⟨ip, hip, rfl, by omega⟩

/-- Addresses with rotating preferences are in a circle with some latencies. -/
theorem RotatingPreferences.circle {a b c : UDPAddr} (h : RotatingPreferences a b c) :
    ∃ latency, Better latency a b ∧ Better latency b c ∧ Better latency c a := by
  obtain ⟨p, q, r, ha, hb, hc, hrot⟩ := h
  obtain ⟨ipa, hipa, rfl, hp⟩ := preference_eq_some ha
  obtain ⟨ipb, hipb, rfl, hq⟩ := preference_eq_some hb
  obtain ⟨ipc, hipc, rfl, hr⟩ := preference_eq_some hc
  obtain ⟨l, m, n, hab, hbc, hca⟩ := circle_of_rotating hp hq hr hrot
  -- the preferences differ, so the addresses do
  have hba : b ≠ a := by
    rintro rfl
    cases hipa.symm.trans hipb
    rw [Rotating] at hrot
    omega
  have hne : c ≠ a := by
    rintro rfl
    cases hipa.symm.trans hipc
    rw [Rotating] at hrot
    omega
  have hcb : c ≠ b := by
    rintro rfl
    cases hipb.symm.trans hipc
    rw [Rotating] at hrot
    omega
  refine ⟨fun addr => if addr = a then l else if addr = b then m else n, ?_, ?_, ?_⟩
  · rw [Better, if_pos rfl, if_neg hba, if_pos rfl, betterDirectAddr_iff hipa hipb]
    exact hab
  · rw [Better, if_neg hba, if_pos rfl, if_neg hne, if_neg hcb, betterDirectAddr_iff hipb hipc]
    exact hbc
  · rw [Better, if_neg hne, if_neg hcb, if_pos rfl, betterDirectAddr_iff hipc hipa]
    exact hca

/-! ## Acknowledgements with unchanged latencies -/

namespace PathState

variable {s t : PathState}

/-- The latency that `noteDirect` reads: zero where none was measured. -/
def latency (s : PathState) (key : String) : Int := (s.endpointLatency.lookup key).getD 0

/-- The first endpoint is better than the second. -/
def Prefers (s : PathState) (key key' : String) : Prop :=
  ∃ a b, s.endpoints.lookup key = some a ∧ s.endpoints.lookup key' = some b ∧
    betterDirectAddr a (s.latency key) b (s.latency key') = true

/-- The endpoints have no more than two different preferences. -/
def TwoPreferences (s : PathState) : Prop :=
  ∃ p q, Map.All (fun _ addr => ∀ n, preference addr = some n → n = p ∨ n = q) s.endpoints

theorem Prefers.irrefl {key : String} : ¬ s.Prefers key key := by
  rintro ⟨a, b, ha, hb, hbetter⟩
  cases ha.symm.trans hb
  exact betterDirectAddr_irrefl a _ hbetter

theorem Prefers.trans {key key' key'' : String} (h : s.Prefers key key') (h' : s.Prefers key' key'')
    (htwo : s.TwoPreferences) : s.Prefers key key'' := by
  obtain ⟨a, b, ha, hb, hab⟩ := h
  obtain ⟨b', c, hb', hc, hbc⟩ := h'
  cases hb.symm.trans hb'
  refine ⟨a, c, ha, hc, betterDirectAddr_trans hab hbc ?_⟩
  rintro ⟨p, q, r, hp, hq, hr, hrot⟩
  obtain ⟨m, n, hall⟩ := htwo
  have hpmn := hall key a ha p hp
  have hqmn := hall key' b hb q hq
  have hrmn := hall key'' c hc r hr
  rw [Rotating] at hrot
  omega

/-- Nothing that the comparison reads has changed. -/
structure SameEndpoints (s t : PathState) : Prop where
  endpoints : ∀ key, t.endpoints.lookup key = s.endpoints.lookup key
  endpointLatency : ∀ key, t.endpointLatency.lookup key = s.endpointLatency.lookup key

theorem SameEndpoints.symm (h : SameEndpoints s t) : SameEndpoints t s :=
  ⟨fun key => (h.endpoints key).symm, fun key => (h.endpointLatency key).symm⟩

theorem SameEndpoints.trans {u : PathState} (h : SameEndpoints s t) (h' : SameEndpoints t u) :
    SameEndpoints s u :=
  ⟨fun key => (h'.endpoints key).trans (h.endpoints key),
    fun key => (h'.endpointLatency key).trans (h.endpointLatency key)⟩

theorem SameEndpoints.prefers (h : SameEndpoints s t) {key key' : String} :
    t.Prefers key key' ↔ s.Prefers key key' := by
  rw [Prefers, Prefers, latency, latency, latency, latency, h.endpoints, h.endpoints, h.endpointLatency,
    h.endpointLatency]

theorem SameEndpoints.twoPreferences (h : SameEndpoints s t) (htwo : s.TwoPreferences) :
    t.TwoPreferences := by
  obtain ⟨p, q, hall⟩ := htwo
  refine ⟨p, q, fun key addr hl => hall key addr ?_⟩
  rw [← h.endpoints]
  exact hl

/-- The endpoint in use stays or gives way to a better one. -/
def Settles (s t : PathState) : Prop :=
  t.bestEndpoint = s.bestEndpoint ∨ s.Prefers t.bestEndpoint s.bestEndpoint

theorem sameEndpoints_noteDirect (s : PathState) (now : Int) (addr : Option UDPAddr) :
    SameEndpoints s (s.noteDirect now addr).1 := by
  unfold noteDirect
  split
  · exact ⟨fun _ => rfl, fun _ => rfl⟩
  split
  · exact ⟨fun _ => rfl, fun _ => rfl⟩
  split
  · exact ⟨fun _ => rfl, fun _ => rfl⟩
  split
  · exact ⟨fun _ => rfl, fun _ => rfl⟩
  · exact ⟨fun _ => rfl, fun _ => rfl⟩

theorem settles_noteDirect (hi : Inv s) (hdirect : s.current = .pathDirect) (now : Int)
    (addr : Option UDPAddr) : Settles s (s.noteDirect now addr).1 := by
  unfold noteDirect
  split
  · exact .inl rfl
  next addr =>
    split
    · exact .inl rfl
    split
    · exact .inl rfl
    next candidate hcandidate =>
      split
      · exact .inl rfl
      next hkeeps =>
        by_cases hsame : s.bestEndpoint = addr.string
        · exact .inl hsame.symm
        right
        have hne := (hi.direct hdirect).2
        obtain ⟨best, hbest⟩ := Option.isSome_iff_exists.mp (hi.best.resolve_left hne)
        rw [keepsBest, if_pos ⟨hdirect, hne, hsame⟩, hbest] at hkeeps
        exact ⟨candidate, best, hcandidate, hbest, by simpa [latency] using hkeeps⟩

theorem Settles.trans {u : PathState} (h : Settles s t) (h' : Settles t u) (hsame : SameEndpoints s t)
    (htwo : s.TwoPreferences) : Settles s u := by
  obtain hstay | hbetter := h'
  · rw [Settles, hstay]
    exact h
  · rw [hsame.prefers] at hbetter
    obtain hstay | hbefore := h
    · rw [hstay] at hbetter
      exact .inr hbetter
    · exact .inr (hbetter.trans hbefore htwo)

/-- An endpoint that was left does not come back. -/
theorem Settles.not_again {u : PathState} (h : Settles s t) (h' : Settles t u) (hsame : SameEndpoints s t)
    (htwo : s.TwoPreferences) (hleft : t.bestEndpoint ≠ s.bestEndpoint) :
    u.bestEndpoint ≠ s.bestEndpoint := by
  have hbetter := h.resolve_left hleft
  obtain hstay | hmore := h'
  · rwa [hstay]
  · intro hback
    rw [hback, hsame.prefers] at hmore
    exact Prefers.irrefl (hmore.trans hbetter htwo)

/-- New candidates leave the endpoint in use alone or clear it, and no latency gets in with them. -/
theorem noteCandidates_frame (s : PathState) (candidates : List (Option UDPAddr)) :
    ((s.noteCandidates candidates).1.bestEndpoint = s.bestEndpoint ∨
        (s.noteCandidates candidates).1.bestEndpoint = "") ∧
      ∀ key latency, (s.noteCandidates candidates).1.endpointLatency.lookup key = some latency →
        s.endpointLatency.lookup key = some latency := by
  have hset : ∀ next, (s.setEndpoints next).bestEndpoint = s.bestEndpoint ∨
      (s.setEndpoints next).bestEndpoint = "" := by
    intro next
    unfold setEndpoints
    dsimp only
    split
    · exact .inr rfl
    · exact .inl rfl
  unfold noteCandidates
  dsimp only
  split
  · exact ⟨hset _, fun key latency => Map.lookup_eraseAll⟩
  · exact ⟨hset _, fun key latency => Map.lookup_eraseAll⟩

theorem noteProbeSent_frame (s : PathState) (now : Int) (addr : Option UDPAddr) (token : DirectProbeToken) :
    (s.noteProbeSent now addr token).bestEndpoint = s.bestEndpoint ∧
      (s.noteProbeSent now addr token).endpointLatency = s.endpointLatency := by
  cases addr with
  | none => exact ⟨rfl, rfl⟩
  | some addr => exact ⟨rfl, rfl⟩

theorem forgetProbe_frame (s : PathState) (addr : Option UDPAddr) (token : DirectProbeToken) :
    (s.forgetProbe addr token).bestEndpoint = s.bestEndpoint ∧
      (s.forgetProbe addr token).endpointLatency = s.endpointLatency := by
  unfold forgetProbe
  split
  · exact ⟨rfl, rfl⟩
  split
  · exact ⟨rfl, rfl⟩
  split
  · exact ⟨rfl, rfl⟩
  · exact ⟨rfl, rfl⟩

theorem noteDirectActivity_frame (s : PathState) (now : Int) (addr : Option UDPAddr) :
    (s.noteDirectActivity now addr).bestEndpoint = s.bestEndpoint ∧
      (s.noteDirectActivity now addr).endpointLatency = s.endpointLatency := by
  unfold noteDirectActivity
  split
  · exact ⟨rfl, rfl⟩
  split
  · exact ⟨rfl, rfl⟩
  split
  · exact ⟨rfl, rfl⟩
  split
  · exact ⟨rfl, rfl⟩
  · exact ⟨rfl, rfl⟩

/-- A latency that `consumeProbe` measures is no longer than what it allows. -/
theorem consumeProbe_latency {addr : Option UDPAddr} {maxAge now : Int} {token : DirectProbeToken}
    (h : Map.All (fun _ latency => latency ≤ maxAge) s.endpointLatency) :
    Map.All (fun _ latency => latency ≤ maxAge)
      (s.consumeProbe addr maxAge now token).1.endpointLatency := by
  unfold consumeProbe
  split
  · exact h
  split
  · exact h
  next pending _ =>
    dsimp only
    split
    · exact h
    split
    · exact h
    next hage => exact h.insert (by omega)

end PathState

namespace Manager

open PathState

variable {cfg : ManagerConfig} {m : Manager}

theorem latency_le_handle (h : Map.All (fun _ latency => latency ≤ cfg.discoveryInterval)
      m.state.endpointLatency) (e : Event) :
    Map.All (fun _ latency => latency ≤ cfg.discoveryInterval) (m.handle cfg e).state.endpointLatency := by
  cases e with
  | candidates addrs =>
      intro key latency hl
      exact h key latency ((m.state.noteCandidates_frame addrs).2 key latency hl)
  | probeSent generation now addr token =>
      simp only [handle, ifCurrent]
      split
      · exact h
      · rw [(m.state.noteProbeSent_frame now addr token).2]
        exact h
  | probeFailed generation addr token =>
      simp only [handle, ifCurrent]
      split
      · exact h
      · rw [(m.state.forgetProbe_frame addr token).2]
        exact h
  | ack now addr token =>
      simp only [handle, tryPromoteDirect]
      split
      · intro key latency hl
        rw [update, (sameEndpoints_noteDirect _ now addr).endpointLatency] at hl
        exact consumeProbe_latency h key latency hl
      · exact consumeProbe_latency h
  | activity now addr =>
      rw [handle, (m.state.noteDirectActivity_frame now addr).2]
      exact h
  | demote now =>
      simp only [handle, demoteStaleDirectLocked]
      split
      · exact h
      · exact h
  | relayOnly => exact h

/-- Every latency was measured within a discovery interval. -/
theorem latency_le (cfg : ManagerConfig) (events : List Event) :
    Map.All (fun _ latency => latency ≤ cfg.discoveryInterval) (run cfg events).state.endpointLatency := by
  induction events using List.reverseRecOn with
  | nil => exact .empty
  | append_singleton events e ih =>
      rw [run_append]
      exact latency_le_handle ih e

/-- One event on a direct path that changes no endpoint and no latency. -/
theorem settles_handle (hi : m.state.Inv) (hdirect : m.state.current = .pathDirect) {e : Event}
    (hsame : SameEndpoints m.state (m.handle cfg e).state)
    (hdirect' : (m.handle cfg e).state.current = .pathDirect) :
    Settles m.state (m.handle cfg e).state := by
  cases e with
  | candidates addrs =>
      have hi' := hi.noteCandidates addrs
      exact .inl ((m.state.noteCandidates_frame addrs).1.resolve_right (hi'.direct hdirect').2)
  | probeSent generation now addr token =>
      left
      simp only [handle, ifCurrent]
      split
      · rfl
      · exact (m.state.noteProbeSent_frame now addr token).1
  | probeFailed generation addr token =>
      left
      simp only [handle, ifCurrent]
      split
      · rfl
      · exact (m.state.forgetProbe_frame addr token).1
  | ack now addr token =>
      obtain ⟨latency, pending, heq, -, -⟩ :=
        m.state.consumeProbe_spec addr cfg.discoveryInterval now token
      simp only [handle, tryPromoteDirect] at hsame ⊢
      split at hsame
      next hacked =>
        rw [if_pos hacked]
        -- the comparison reads the latency just measured, which is the one that was there
        have hread := (sameEndpoints_noteDirect
          (m.state.consumeProbe addr cfg.discoveryInterval now token).1 now addr).trans hsame.symm
        have hsettles : Settles (m.state.consumeProbe addr cfg.discoveryInterval now token).1 _ :=
          settles_noteDirect (by rw [heq]; exact ⟨hi.best, hi.direct, hi.count⟩)
            (by rw [heq]; exact hdirect) now addr
        have hbest : (m.state.consumeProbe addr cfg.discoveryInterval now token).1.bestEndpoint =
            m.state.bestEndpoint := by rw [heq]
        rw [Settles, hbest, ← hread.prefers] at hsettles
        exact hsettles
      next hnot =>
        rw [if_neg hnot, Settles, heq]
        exact .inl rfl
  | activity now addr => exact .inl (m.state.noteDirectActivity_frame now addr).1
  | demote now =>
      simp only [handle, demoteStaleDirectLocked] at hdirect' ⊢
      split at hdirect'
      next hfresh =>
        rw [if_pos hfresh]
        exact .inl rfl
      · exact absurd hdirect' m.noteRelayOnly_current_ne
  | relayOnly => exact absurd hdirect' m.noteRelayOnly_current_ne

/-- While the events `more` arrive the path stays direct, over the same endpoints with the same latencies. -/
def Undisturbed (cfg : ManagerConfig) (events more : List Event) : Prop :=
  ∀ k ≤ more.length, SameEndpoints (run cfg events).state (run cfg (events ++ more.take k)).state ∧
    (run cfg (events ++ more.take k)).state.current = .pathDirect

/-- The entries of a map may be listed in another order. -/
theorem Undisturbed.of_perm {events more : List Event}
    (h : ∀ k ≤ more.length,
      (run cfg (events ++ more.take k)).state.endpoints.entries.Perm
          (run cfg events).state.endpoints.entries ∧
        (run cfg (events ++ more.take k)).state.endpointLatency.entries.Perm
            (run cfg events).state.endpointLatency.entries ∧
          (run cfg (events ++ more.take k)).state.current = .pathDirect) : Undisturbed cfg events more := by
  intro k hk
  obtain ⟨hendpoints, hlatency, hdirect⟩ := h k hk
  exact ⟨⟨fun _ => AList.perm_lookup hendpoints, fun _ => AList.perm_lookup hlatency⟩, hdirect⟩

theorem Undisturbed.settles {events more : List Event} (h : Undisturbed cfg events more)
    (htwo : (run cfg events).state.TwoPreferences) {i j : Nat} (hij : i ≤ j) (hj : j ≤ more.length) :
    Settles (run cfg (events ++ more.take i)).state (run cfg (events ++ more.take j)).state := by
  induction j, hij using Nat.le_induction with
  | base => exact .inl rfl
  | succ j hij ih =>
      have hsame := (h i (by omega)).1.symm.trans (h j (by omega)).1
      refine (ih (by omega)).trans ?_ hsame ((h i (by omega)).1.twoPreferences htwo)
      have hnext : run cfg (events ++ more.take (j + 1)) =
          (run cfg (events ++ more.take j)).handle cfg more[j] := by
        rw [← run_append, List.append_assoc, List.take_append_getElem]
      rw [hnext]
      refine settles_handle (run_inv cfg _) (h j (by omega)).2 ?_ ?_
      · rw [← hnext]
        exact (h j (by omega)).1.symm.trans (h (j + 1) hj).1
      · rw [← hnext]
        exact (h (j + 1) hj).2

end Manager

/-- With fixed latencies the comparison is irreflexive and asymmetric, and it is transitive over three
addresses with all latencies just where their preferences do not rotate.  While events arrive that leave the
path direct and the latencies as they are, over endpoints with no more than two different preferences, an
endpoint that was left is not used again. -/
theorem direct_preference_order :
    (∀ latency a, ¬ Better latency a a) ∧
      (∀ latency a b, Better latency a b → ¬ Better latency b a) ∧
      (∀ a b c, (∀ latency, Better latency a b → Better latency b c → Better latency a c) ↔
        ¬ RotatingPreferences a b c) ∧
      ∀ cfg events more, Manager.Undisturbed cfg events more →
        (Manager.run cfg events).state.TwoPreferences →
          ∀ i j k, i ≤ j → j ≤ k → k ≤ more.length →
            (Manager.run cfg (events ++ more.take j)).state.bestEndpoint ≠
              (Manager.run cfg (events ++ more.take i)).state.bestEndpoint →
            (Manager.run cfg (events ++ more.take k)).state.bestEndpoint ≠
              (Manager.run cfg (events ++ more.take i)).state.bestEndpoint := by
  refine ⟨?_, ?_, ?_, ?_⟩
  · intro latency a
    exact betterDirectAddr_irrefl a (latency a)
  · intro latency a b hab
    exact betterDirectAddr_asymm hab
  · intro a b c
    constructor
    · intro htrans hrot
      obtain ⟨latency, hab, hbc, hca⟩ := hrot.circle
      exact betterDirectAddr_asymm (htrans latency hab hbc) hca
    · intro hnot latency hab hbc
      exact betterDirectAddr_trans hab hbc hnot
  · intro cfg events more hquiet htwo i j k hij hjk hk hleft
    have hfirst := hquiet.settles htwo hij (by omega)
    have hsecond := hquiet.settles htwo hjk hk
    have hi := (hquiet i (by omega)).1
    exact hfirst.not_again hsecond (hi.symm.trans (hquiet j (by omega)).1) (hi.twoPreferences htwo) hleft

/-- A private and a public endpoint of which the public one is a quarter faster: once it has taken over, an
acknowledgement from the private one changes nothing. -/
theorem direct_preference_order_quarter :
    ∃ cfg events more, (Manager.run cfg events).state.bestEndpoint = "10.0.0.1:41641" ∧
      (Manager.run cfg (events ++ more.take 2)).state.bestEndpoint = "8.8.8.8:41641" ∧
      (Manager.run cfg (events ++ more)).state.bestEndpoint ≠ "10.0.0.1:41641" := by
  let cfg : ManagerConfig := ⟨true, true, 2000000000, 30000000000⟩
  let token : DirectProbeToken := ⟨true, [1, 2]⟩
  let isPublic : Option UDPAddr := some ⟨[8, 8, 8, 8], 41641, ""⟩
  let isPrivate : Option UDPAddr := some ⟨[10, 0, 0, 1], 41641, ""⟩
  let events : List Event := [.candidates [isPublic, isPrivate],
    .probeSent 0 0 isPublic token, .ack 15000000 isPublic token, .relayOnly,
    .probeSent 1 20000000 isPrivate token, .ack 40000000 isPrivate token]
  let more : List Event := [.probeSent 1 50000000 isPublic token, .ack 65000000 isPublic token,
    .probeSent 1 70000000 isPrivate token, .ack 90000000 isPrivate token]
  have hquiet : Manager.Undisturbed cfg events more := .of_perm (by decide +kernel)
  have hpreferences : ∀ entry ∈ (Manager.run cfg events).state.endpoints.entries,
      preference entry.2 = some 0 ∨ preference entry.2 = some 20 := by
    decide +kernel
  have htwo : (Manager.run cfg events).state.TwoPreferences := by
    refine ⟨0, 20, fun key addr hl n hn => ?_⟩
    have hentry := hpreferences _ (Map.mem_entries_of_lookup hl)
    rw [hn, Option.some.injEq, Option.some.injEq] at hentry
    exact hentry
  have hfirst : (Manager.run cfg events).state.bestEndpoint = "10.0.0.1:41641" := by decide +kernel
  have hnext : (Manager.run cfg (events ++ more.take 2)).state.bestEndpoint = "8.8.8.8:41641" := by
    decide +kernel
  have hleft : (Manager.run cfg (events ++ more.take 2)).state.bestEndpoint ≠
      (Manager.run cfg (events ++ more.take 0)).state.bestEndpoint := by
    decide +kernel
  have hagain := direct_preference_order.2.2.2 cfg events more hquiet htwo 0 2 more.length (by decide)
    (by decide) (Nat.le_refl _) hleft
  rw [List.take_length, List.take_zero, List.append_nil, hfirst] at hagain
  exact ⟨cfg, events, more, hfirst, hnext, hagain⟩

/-- A public, a private and a link-local endpoint, each of the first two enough faster than the next one, and
the public one not enough faster than the link-local one: they replace each other for ever. -/
theorem direct_preference_cycles :
    (∃ latency a b c, Better latency a b ∧ Better latency b c ∧ ¬ Better latency a c) ∧
      ∃ cfg events more, Manager.Undisturbed cfg events more ∧
        (Manager.run cfg events).state.bestEndpoint = "10.0.0.1:41641" ∧
        (Manager.run cfg (events ++ more.take 2)).state.bestEndpoint = "8.8.8.8:41641" ∧
        (Manager.run cfg (events ++ more.take 4)).state.bestEndpoint = "169.254.0.1:41641" ∧
        (Manager.run cfg (events ++ more)).state.bestEndpoint = "10.0.0.1:41641" := by
  let cfg : ManagerConfig := ⟨true, true, 2000000000, 30000000000⟩
  let token : DirectProbeToken := ⟨true, [1, 2]⟩
  let isPublic : UDPAddr := ⟨[8, 8, 8, 8], 41641, ""⟩
  let isPrivate : UDPAddr := ⟨[10, 0, 0, 1], 41641, ""⟩
  let isLinkLocal : UDPAddr := ⟨[169, 254, 0, 1], 41641, ""⟩
  let events : List Event := [.candidates [some isPublic, some isPrivate, some isLinkLocal],
    .probeSent 0 0 (some isPublic) token, .ack 71830000 (some isPublic) token,
    .probeSent 0 100000000 (some isLinkLocal) token, .ack 200000000 (some isLinkLocal) token,
    .probeSent 0 200000000 (some isPrivate) token, .ack 289900000 (some isPrivate) token]
  let more : List Event := [
    .probeSent 0 300000000 (some isPublic) token, .ack 371830000 (some isPublic) token,
    .probeSent 0 400000000 (some isLinkLocal) token, .ack 500000000 (some isLinkLocal) token,
    .probeSent 0 500000000 (some isPrivate) token, .ack 589900000 (some isPrivate) token]
  let latency : UDPAddr → Int := fun addr =>
    if addr = isPublic then 71830000 else if addr = isPrivate then 89900000 else 100000000
  have hpublic : Better latency isPublic isPrivate := by decide +kernel
  have hprivate : Better latency isPrivate isLinkLocal := by decide +kernel
  have hlinkLocal : ¬ Better latency isPublic isLinkLocal := by decide +kernel
  have hquiet : Manager.Undisturbed cfg events more := .of_perm (by decide +kernel)
  have hfirst : (Manager.run cfg events).state.bestEndpoint = "10.0.0.1:41641" := by decide +kernel
  have hsecond : (Manager.run cfg (events ++ more.take 2)).state.bestEndpoint = "8.8.8.8:41641" := by
    decide +kernel
  have hthird : (Manager.run cfg (events ++ more.take 4)).state.bestEndpoint = "169.254.0.1:41641" := by
    decide +kernel
  have hagain : (Manager.run cfg (events ++ more)).state.bestEndpoint = "10.0.0.1:41641" := by
    decide +kernel
  constructor
  · exact ⟨latency, isPublic, isPrivate, isLinkLocal, hpublic, hprivate, hlinkLocal⟩
  · exact ⟨cfg, events, more, hquiet, hfirst, hsecond, hthird, hagain⟩

end Transport
