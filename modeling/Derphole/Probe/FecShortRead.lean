import Derphole.Probe.FecExact
import Mathlib.Data.Nat.Find

/-!
# A short read

Where a read in the middle of the source is not a whole number of chunks, some
packet before the last is short, and there is a loss that recovery gets wrong: let
the first short packet be lost and all the others arrive, then Done, then the parity
of its group.  What is rebuilt runs on to the length of a chunk or to the end of the
stream.
-/

namespace Probe

open Lib

/-! ## Without parity -/

namespace RunState

theorem recoverFECKeys_none {known : Nat} {s : RunState}
    (h : ∀ k, s.fec.parity.lookup k = none) (keys : List Nat) :
    recoverFECKeys known keys s = .ok (s, []) := by
  induction keys with
  | nil => rfl
  | cons key keys ih => rw [recoverFECKeys, h key, ih]

/-- The one parity packet that is there is looked at. -/
theorem recoverFECKeys_only {known : Nat} {s : RunState} {start : Nat} {p : FecParity}
    {r : RecoveredPacket} (hp : s.fec.parity.lookup start = some p)
    (hother : ∀ k ≠ start, s.fec.parity.lookup k = none)
    (hrec : s.recoverParity known p = .ok (⟨s.fec.groups, s.fec.parity.erase start⟩, [r]))
    {keys : List Nat} (hmem : start ∈ keys) :
    ∃ s', recoverFECKeys known keys s = .ok (s', [r]) := by
  induction keys with
  | nil => cases hmem
  | cons key keys ih =>
      rw [recoverFECKeys]
      by_cases hk : key = start
      · have hnone : ∀ k, (s.fec.parity.erase start).lookup k = none := by
          intro k
          by_cases hks : k = start
          · rw [hks, AList.lookup_erase]
          · rw [AList.lookup_erase_ne hks]
            exact hother k hks
        refine ⟨{ s with fec := ⟨s.fec.groups, s.fec.parity.erase start⟩ }, ?_⟩
        rw [hk, hp]
        simp only [hrec, bind, Except.bind]
        rw [recoverFECKeys_none (s := { s with fec := ⟨s.fec.groups, s.fec.parity.erase start⟩ }) hnone]
        rfl
      · rw [hother key hk]
        rcases List.mem_cons.mp hmem with h | h
        · exact absurd h.symm hk
        · exact ih h

end RunState

theorem Fec.parity_storeFECPayload {f : Fec} (h : ∀ k, f.parity.lookup k = none) (seen : SeqSet)
    (groupSize seq : Nat) (payload : List UInt8) (k : Nat) :
    (f.storeFECPayload seen groupSize seq payload).parity.lookup k = none := by
  rw [storeFECPayload]
  split
  · exact h k
  · dsimp only
    rw [cleanupFECGroupIfComplete]
    split
    · exact h k
    split
    · show (f.parity.erase _).lookup k = none
      by_cases hk : k = seq / groupSize * groupSize
      · rw [hk, AList.lookup_erase]
      · rw [AList.lookup_erase_ne hk]
        exact h k
    · exact h k

/-- Without parity there is nothing to recover. -/
theorem recoverFEC_noParity {cfg : RecvConfig} {I : Received → Prop}
    (hI : ∀ v, I v → ∀ k, v.fec.parity.lookup k = none) (order : List Nat → List Nat) :
    Guarded I I (recoverFEC cfg order) := by
  rw [recoverFEC]
  refine Triple.ite (fun _ => (Framed.pure ()).guarded I) fun _ => Triple.read_bind fun c hc => ?_
  refine Triple.read_bind fun c' hc' => ?_
  subst hc'
  rw [RunState.recoverFEC, RunState.recoverFECKeys_none (hI _ hc)]
  dsimp only
  refine Triple.bind (Q := fun _ (c : Coord) => I c.received) (Triple.update fun c' hc' => ?_)
    fun _ => Triple.ite (fun _ => (Framed.pure ()).guarded I) fun h => absurd rfl h
  rw [hc', List.append_nil]
  exact hc

/-! ## The loss -/

/-- The packets of `got` arrived, the packet `lost` did not, nor did parity. -/
structure DataInv (chunk groupSize : Nat) (ps : List (List UInt8)) (lost : Nat) (got : List Nat)
    (v : Received) : Prop where
  fec : FecInv chunk groupSize ps v
  noParity : ∀ k, v.fec.parity.lookup k = none
  lost : v.seen.has lost = false
  got : ∀ i ∈ got, v.seen.has i = true

def arrival (p : Packet) : Arrival := ⟨0, p, id⟩

section Loss

variable {chunk : Nat} {ps : List (List UInt8)} {cfg : RecvConfig} {lost : Nat} {got : List Nat}

theorem receivePacket_data (got : List Nat) (hg : 1 < cfg.fecGroupSize)
    (hpieces : ∀ p ∈ ps, p ≠ [] ∧ p.length ≤ chunk) {i : Nat} (hi : i < ps.length) (hne : i ≠ lost) :
    Guarded (DataInv chunk cfg.fecGroupSize ps lost got)
      (DataInv chunk cfg.fecGroupSize ps lost (i :: got))
      (receivePacket cfg (arrival (dataPacket ps i))) := by
  refine receivePacket_guarded (fun v hv => hv.fec.striped) rfl (by simp [arrival, dataPacket])
    (fun v hv => ?_) (recoverFEC_noParity (fun v hv => hv.noParity) _)
  rw [Received.receive_data rfl]
  split
  · rename_i hseen
    have hseen' : v.seen.has i = true := hseen.resolve_left (getD_piece hpieces hi).1
    refine ⟨hv.fec, hv.noParity, hv.lost, fun k hk => ?_⟩
    rcases List.mem_cons.mp hk with rfl | hk
    · exact hseen'
    · exact hv.got k hk
  · rename_i hnew
    have hunseen : v.seen.has i = false := by
      have : ¬v.seen.has i = true := fun h => hnew (.inr h)
      simpa using this
    refine ⟨hv.fec.accept hg hi (getD_piece hpieces hi) hunseen,
      Fec.parity_storeFECPayload hv.noParity _ _ _ _, ?_, fun k hk => ?_⟩
    · show (v.seen.add i).1.has lost = false
      rw [SeqSet.has_add, hv.lost]
      simpa using hne
    · show (v.seen.add i).1.has k = true
      rw [SeqSet.has_add]
      rcases List.mem_cons.mp hk with rfl | hk
      · simp
      · rw [hv.got k hk]
        rfl

theorem receivePackets_data (hg : 1 < cfg.fecGroupSize)
    (hpieces : ∀ p ∈ ps, p ≠ [] ∧ p.length ≤ chunk) {is : List Nat}
    (his : ∀ i ∈ is, i < ps.length ∧ i ≠ lost) {c : Coord}
    (hc : DataInv chunk cfg.fecGroupSize ps lost got c.received) :
    DataInv chunk cfg.fecGroupSize ps lost is
      (receivePackets cfg c (is.map fun i => arrival (dataPacket ps i))).received := by
  suffices h : DataInv chunk cfg.fecGroupSize ps lost (is.reverse ++ got)
      (receivePackets cfg c (is.map fun i => arrival (dataPacket ps i))).received from
    ⟨h.fec, h.noParity, h.lost, fun i hi => h.got i (by simp [hi])⟩
  induction is generalizing c got with
  | nil => exact hc
  | cons i is ih =>
      obtain ⟨hi, hne⟩ := his i List.mem_cons_self
      have hnext := Triple.state ((receivePacket_data got hg hpieces hi hne).conseq
        (fun _ h => h) (fun _ _ h => h) fun _ _ h => h.2) hc
      have hrest := ih (fun k hk => his k (List.mem_cons_of_mem _ hk)) hnext
      rw [List.reverse_cons, List.append_assoc]
      exact hrest

theorem receivePacket_done :
    Guarded (DataInv chunk cfg.fecGroupSize ps lost got)
      (fun v => DataInv chunk cfg.fecGroupSize ps lost got v ∧ v.done = true)
      (receivePacket cfg (arrival (donePacket ps))) := by
  refine receivePacket_guarded (fun v hv => hv.fec.striped) rfl (by simp [arrival, donePacket])
    (fun v hv => ?_) (recoverFEC_noParity (fun v hv => hv.1.noParity) _)
  exact ⟨⟨hv.fec.markDone, hv.noParity, hv.lost, hv.got⟩, rfl⟩

/-- The lost packet is the one missing from its group. -/
theorem missingIn_lost {seen : SeqSet} {start count : Nat} (hmem : lost ∈ List.range' start count)
    (hlost : seen.has lost = false)
    (hgot : ∀ i ∈ List.range' start count, i ≠ lost → seen.has i = true) :
    missingIn seen start count = [lost] := by
  have hfilter : missingIn seen start count =
      (List.range' start count).filter fun i => decide (i = lost) := by
    refine List.filter_congr fun i hi => ?_
    by_cases hil : i = lost
    · rw [hil, hlost]
      simp
    · rw [hgot i hi hil]
      simp [hil]
  have hcount := List.count_eq_one_of_mem (List.nodup_range' ..) hmem
  rw [hfilter, List.filter_eq, hcount]
  rfl

/-- What comes back for the first short packet is longer than it was. -/
theorem recoverParity_short {s : RunState} {known : Nat}
    (hpieces : ∀ p ∈ ps, p ≠ [] ∧ p.length ≤ chunk) (hg : 1 < cfg.fecGroupSize)
    (hlast : lost + 1 < ps.length) (hshort : (ps.getD lost []).length < chunk)
    (hfirst : ∀ i < lost, (ps.getD i []).length = chunk)
    (h : RunSpec chunk cfg.fecGroupSize ps s) (hlost : s.seen.has lost = false)
    (hgot : ∀ i < ps.length, i ≠ lost → s.seen.has i = true)
    (hknown : known = offsetAt ps ps.length) {start count : Nat}
    (hgroup : GroupAt cfg.fecGroupSize ps.length start count)
    (hmem : lost ∈ List.range' start count) :
    ∃ r, r.seq = lost ∧ (ps.getD lost []).length < r.payload.length ∧
      s.recoverParity known ⟨start, offsetAt ps start, count, parityBytes chunk ps start count⟩ =
        .ok (⟨s.fec.groups, s.fec.parity.erase start⟩, [r]) := by
  obtain ⟨hmod, hlt, hcount⟩ := hgroup
  have hmiss := missingIn_lost hmem hlost fun i hi hne => by
    have := List.mem_range'_1.mp hi
    exact hgot i (by omega) hne
  rw [List.mem_range'_1] at hmem
  have hoff : offsetAt ps (lost + 1) = _ := offsetAt_succ (by omega)
  have hoff' : offsetAt ps (lost + 1 + 1) = _ := offsetAt_succ hlast
  have hmono := offsetAt_mono ps (i := lost + 1 + 1) hlast (Nat.le_refl _)
  have hpos := List.length_pos_iff.mpr (getD_piece hpieces hlast).1
  have hprefix : offsetAt ps start + (lost - start) * chunk = offsetAt ps lost := by
    have hadd : offsetAt ps (start + (lost - start)) = offsetAt ps start + (lost - start) * chunk :=
      offsetAt_add_of_full (by omega) fun i hi => hfirst i (by omega)
    rw [← hadd]
    congr 1
    omega
  -- another packet of the group was seen
  have hstate := h.fec.groups start hmod hlt
  have hother : ∃ k ∈ List.range' start cfg.fecGroupSize, k ≠ lost ∧ k < ps.length := by
    rcases Nat.eq_or_lt_of_le hmem.1 with heq | hlt'
    · exact ⟨lost + 1, List.mem_range'_1.mpr ⟨by omega, by omega⟩, by omega, hlast⟩
    · exact ⟨start, List.mem_range'_1.mpr ⟨by omega, by omega⟩, by omega, hlt⟩
  obtain ⟨k, hk, hkne, hkn⟩ := hother
  cases hx : s.fec.groups.lookup start with
  | none =>
      rw [hx] at hstate
      rcases hstate with hno | hall
      · have := hno k hk
        rw [hgot k hkn hkne] at this
        cases this
      · have := hall lost (List.mem_range'_1.mpr ⟨hmem.1, by omega⟩) (by omega)
        rw [hlost] at this
        cases this
  | some x =>
      rw [hx] at hstate
      obtain ⟨hlen, -⟩ := rebuilt ⟨hmod, hlt, hcount⟩ hstate h.seen_lt hmiss
      rw [RunState.recoverParity, if_neg (by omega)]
      simp only [hmiss, hx]
      cases x with
      | nil => exact absurd rfl hstate.1
      | cons b x =>
          dsimp only
          rw [if_neg (by rw [length_parityBytes]; exact Nat.not_lt.mpr hstate.2.1), length_parityBytes,
            hprefix, if_neg (by omega), if_pos (by omega)]
          refine ⟨_, rfl, ?_, rfl⟩
          rw [List.length_take, hlen]
          omega

/-- What was recovered once stays listed. -/
theorem acceptRecovered_mem {r : RecoveredPacket} (rs : List RecoveredPacket) {k : Recv Unit}
    (hk : Stays (fun c : Coord => r ∈ c.recovered) k) :
    Stays (fun c : Coord => r ∈ c.recovered) (do
      acceptRecovered cfg rs
      let _ ← completeRun cfg
      k) := by
  have hframed : ∀ {α : Type} {m : Recv α}, Guarded (fun v => r ∈ v.recovered)
      (fun v => r ∈ v.recovered) m → Stays (fun c : Coord => r ∈ c.recovered) m :=
    fun hm => hm.conseq (fun _ h => h) (fun _ _ h => h) fun _ _ h => h.2
  exact Stays.bind (hframed (acceptRecovered_guarded rs fun _ _ _ hv _ => hv)) fun _ =>
    Stays.bind (hframed ((Framed.completeRun cfg).guarded _)) fun _ => hk

theorem recoverFECLoop_mem {r : RecoveredPacket} (order : List Nat → List Nat) (fuel : Nat) :
    Stays (fun c : Coord => r ∈ c.recovered) (recoverFECLoop cfg order fuel) := by
  induction fuel with
  | zero => exact Stays.pure ()
  | succ fuel ih =>
      refine Stays.read_bind fun c _ => ?_
      split
      · exact Stays.fail _
      · rename_i rs _
        exact Stays.bind (Stays.update fun c hc => List.mem_append_left _ hc) fun _ =>
          Stays.ite (Stays.pure ()) (acceptRecovered_mem rs ih)

/-- The parity of the group of the lost packet arrives last. -/
theorem receivePacket_parity (hpieces : ∀ p ∈ ps, p ≠ [] ∧ p.length ≤ chunk)
    (hg : 1 < cfg.fecGroupSize) (hlast : lost + 1 < ps.length)
    (hshort : (ps.getD lost []).length < chunk)
    (hfirst : ∀ i < lost, (ps.getD i []).length = chunk)
    (hgot : ∀ i < ps.length, i ≠ lost → i ∈ got) {start count : Nat}
    (hgroup : GroupAt cfg.fecGroupSize ps.length start count)
    (hmem : lost ∈ List.range' start count) {c : Coord}
    (hc : DataInv chunk cfg.fecGroupSize ps lost got c.received) (hdone : c.run.done = true) :
    ∃ r ∈ (exec (receivePacket cfg (arrival (parityPacket chunk ps start count))) c).2.recovered,
      r.seq = lost ∧ (ps.getD lost []).length < r.payload.length := by
  -- the run once the parity is stored
  set run := c.run.storeFECParity start (offsetAt ps start) count (parityBytes chunk ps start count)
    with hrun
  have hmiss := missingIn_lost hmem hc.lost fun i hi hne => hc.got i (hgot i (by
    have := List.mem_range'_1.mp hi
    have := hgroup.2.2
    omega) hne)
  have hstored : run.fec = ⟨c.run.fec.groups, c.run.fec.parity.insert start
      ⟨start, offsetAt ps start, count, parityBytes chunk ps start count⟩⟩ := by
    have hcount : count ≠ 0 := by
      have := List.mem_range'_1.mp hmem
      omega
    have hne : parityBytes chunk ps start count ≠ [] := by
      rw [← List.length_pos_iff, length_parityBytes]
      omega
    have hmiss' : missingIn c.run.seen start count = [lost] := hmiss
    show c.run.fec.storeFECParity c.run.seen _ _ _ _ = _
    rw [Fec.storeFECParity, if_neg (not_or.mpr ⟨hcount, hne⟩), Fec.cleanupFECGroupIfComplete,
      if_neg hcount, if_neg (by rw [hmiss']; simp)]
  have hspec : RunSpec chunk cfg.fecGroupSize ps run :=
    ⟨hc.fec.fec.storeParity hgroup, hc.fec.seen_lt, hc.fec.max_le⟩
  obtain ⟨r, hseq, hlen, hrec⟩ := recoverParity_short hpieces hg hlast hshort hfirst hspec hc.lost
    (fun i hi hne => hc.got i (hgot i hi hne)) (hc.fec.total hdone) hgroup hmem
  have hlookup : run.fec.parity.lookup start =
      some ⟨start, offsetAt ps start, count, parityBytes chunk ps start count⟩ := by
    rw [hstored]
    exact AList.lookup_insert _
  have hother : ∀ k ≠ start, run.fec.parity.lookup k = none := by
    intro k hk
    rw [hstored]
    exact (AList.lookup_insert_ne hk).trans (hc.noParity k)
  have hkey : start ∈ run.fec.parity.keys := by
    rw [← AList.mem_keys, ← AList.lookup_isSome, hlookup]
    rfl
  obtain ⟨run', hkeys⟩ := RunState.recoverFECKeys_only hlookup hother hrec hkey
  have hknown : run.knownTotalBytes cfg.expectedBytes = c.received.totalBytes := if_pos hdone
  have hrecover : run.recoverFEC cfg.expectedBytes id = .ok (run', [r]) := by
    rw [RunState.recoverFEC, hknown]
    exact hkeys
  refine ⟨r, ?_, hseq, hlen⟩
  refine Triple.state (P := (· = c)) (R := fun c => r ∈ c.recovered)
    (receivePacket_global (fun c' hc' => hc' ▸ hc.fec.striped) rfl
      (Arrival.totalStripes_le (by simp [arrival, parityPacket])) ?_)
    rfl
  show Triple (· = c) (if cfg.fecGroupSize ≤ 1 then pure false else _) _ _
  rw [if_neg (by omega)]
  refine Triple.bind (Q := fun _ c' => c' = { c with run := run }) (Triple.update fun c' hc' => by
    rw [hc']
    rfl) fun _ => Triple.bind (Q := fun _ c => r ∈ c.recovered) ?_ fun _ => Triple.pure fun _ h => h
  rw [recoverFEC, if_neg (by omega)]
  refine Triple.read_bind fun c₁ h₁ => Triple.read_bind fun c₂ h₂ => ?_
  subst h₂
  rw [h₁, show (arrival (parityPacket chunk ps start count)).order = id from rfl, hrecover]
  refine Triple.bind (Q := fun _ c => r ∈ c.recovered) (Triple.update fun c' _ => ?_) fun _ => ?_
  · exact List.mem_append_right _ (List.mem_singleton.mpr rfl)
  · exact Triple.ite (fun _ => Triple.pure fun _ h => h) fun _ =>
      acceptRecovered_mem [r] (recoverFECLoop_mem _ _)

end Loss

/-! ## When recovery is exact -/

/-- What was rebuilt, as the packet it stands for. -/
def RecoveredPacket.packet (r : RecoveredPacket) : Packet := ⟨.data, 0, r.seq, r.offset, 0, 0, r.payload⟩

/-- Of two different data packets of a group, at least one arrives. -/
def AtMostOneLost (groupSize : Nat) (sent : List Packet) (as : List Arrival) : Prop :=
  ∀ p ∈ sent, ∀ q ∈ sent, p.type = .data → q.type = .data → p.seq ≠ q.seq →
    p.seq / groupSize = q.seq / groupSize → (∃ a ∈ as, a.packet = p) ∨ ∃ a ∈ as, a.packet = q

/-- Whatever is rebuilt was sent, and no packet makes the receiver index out of range. -/
structure RecoversExactly (recv : RecvConfig) (sent : List Packet) (as : List Arrival) : Prop where
  sent : ∀ r ∈ (receivePackets recv Coord.empty as).recovered, r.packet ∈ sent
  inRange : ∀ pre a post, as = pre ++ a :: post →
    (exec (receivePacket recv a) (receivePackets recv Coord.empty pre)).1 ≠ .error .outOfRange

/-- For every loss of at most one data packet of each group, and every order of arrival. -/
def FecExact (recv : RecvConfig) (sent : List Packet) : Prop :=
  ∀ as : List Arrival, (∀ a ∈ as, a.packet ∈ sent) → AtMostOneLost recv.fecGroupSize sent as →
    RecoversExactly recv sent as

/-- Without parity nothing is rebuilt. -/
theorem fecExact_of_plain {recv : RecvConfig} {sent : List Packet} (hg : recv.fecGroupSize ≤ 1)
    (hsent : ∀ q ∈ sent, q.stripeID = 0 ∧ q.type ≠ .hello) : FecExact recv sent := by
  intro as has _
  have hstep : ∀ a ∈ as, Guarded (fun v => v.striped = false ∧ v.recovered = [])
      (fun v => v.striped = false ∧ v.recovered = []) (receivePacket recv a) := by
    intro a ha
    obtain ⟨hid, hhello⟩ := hsent _ (has a ha)
    refine receivePacket_guarded (fun v hv => hv.1) hid hhello (fun v hv => ?_) ?_
    · rw [Received.receive]
      split
      · split
        · exact hv
        · exact hv
      · rw [if_pos hg]
        exact hv
      · exact hv
      · exact hv
    · rw [recoverFEC, if_pos hg]
      exact (Framed.pure ()).guarded _
  obtain ⟨⟨-, hnone⟩, hrange⟩ := receivePackets_guarded hstep (c := Coord.empty) ⟨rfl, rfl⟩
  refine ⟨fun r hr => ?_, hrange⟩
  have hnone' : (receivePackets recv Coord.empty as).recovered = [] := hnone
  rw [hnone'] at hr
  cases hr

section Transcripts

variable {chunk : Nat} {ps : List (List UInt8)} {recv : RecvConfig} {sent : List Packet}

theorem fecExact_of_full (hg : 1 < recv.fecGroupSize) (hfull : Full chunk ps)
    (ht : Transcript chunk recv.fecGroupSize ps sent)
    (hexp : recv.expectedBytes ≤ 0 ∨ recv.expectedBytes = offsetAt ps ps.length) :
    FecExact recv sent := by
  intro as has _
  obtain ⟨⟨-, hpieces⟩, hrange⟩ := receivePackets_guarded
    (fun a ha => receivePacket_exact hg hfull ht hexp (has a ha)) (c := Coord.empty)
    ⟨FecInv.empty, fun _ hr => (by cases hr)⟩
  refine ⟨fun r hr => ?_, hrange⟩
  obtain ⟨i, hi, rfl⟩ := hpieces r hr
  exact (ht.mem _).mpr (.inl ⟨i, hi, rfl⟩)

/-- Where some packet before the last is short, so is a first one. -/
theorem first_short (hpieces : ∀ p ∈ ps, p ≠ [] ∧ p.length ≤ chunk) (hnot : ¬Full chunk ps) :
    ∃ lost, lost + 1 < ps.length ∧ (ps.getD lost []).length < chunk ∧
      ∀ i < lost, (ps.getD i []).length = chunk := by
  classical
  rw [Full, not_forall] at hnot
  simp only [Classical.not_imp] at hnot
  obtain ⟨hlast, hshort⟩ := Nat.find_spec hnot
  have hle := (getD_piece hpieces (i := Nat.find hnot) (by omega)).2
  refine ⟨Nat.find hnot, hlast, by omega, fun i hi => ?_⟩
  by_contra hne
  exact Nat.find_min hnot hi ⟨by omega, hne⟩

theorem not_fecExact_of_not_full (hg : 1 < recv.fecGroupSize) (hnot : ¬Full chunk ps)
    (ht : Transcript chunk recv.fecGroupSize ps sent) : ¬FecExact recv sent := by
  obtain ⟨lost, hlast, hshort, hfirst⟩ := first_short ht.pieces hnot
  intro hexact
  -- the group of the lost packet
  have hdiv := Nat.div_add_mod lost recv.fecGroupSize
  have hmod := Nat.mod_lt lost (by omega : 0 < recv.fecGroupSize)
  rw [Nat.mul_comm] at hdiv
  have hgroup : GroupAt recv.fecGroupSize ps.length (lost / recv.fecGroupSize * recv.fecGroupSize)
      (min recv.fecGroupSize (ps.length - lost / recv.fecGroupSize * recv.fecGroupSize)) :=
    ⟨Nat.mul_mod_left _ _, by omega, rfl⟩
  set start := lost / recv.fecGroupSize * recv.fecGroupSize
  have hmem : lost ∈ List.range' start (min recv.fecGroupSize (ps.length - start)) :=
    List.mem_range'_1.mpr ⟨by omega, by omega⟩
  -- all but the lost packet arrive, then Done, then the parity of its group
  set got := (List.range ps.length).filter fun i => decide (i ≠ lost) with hgot
  have hmemgot : ∀ i, i ∈ got ↔ i < ps.length ∧ i ≠ lost := by
    intro i
    rw [hgot, List.mem_filter, List.mem_range, decide_eq_true_eq]
  have hempty : DataInv chunk recv.fecGroupSize ps lost [] Coord.empty.received :=
    ⟨FecInv.empty, fun _ => rfl, SeqSet.has_empty lost, fun _ hi => (by cases hi)⟩
  have hdata := receivePackets_data hg ht.pieces (fun i hi => (hmemgot i).mp hi) hempty
  have hdone := Triple.state (receivePacket_done.conseq (fun _ h => h)
    (fun _ _ h => h) fun _ _ h => h.2) hdata
  obtain ⟨r, hr, hseq, hlen⟩ := receivePacket_parity ht.pieces hg hlast hshort hfirst
    (fun i hi hne => (hmemgot i).mpr ⟨hi, hne⟩) hgroup hmem hdone.1 hdone.2
  have hall := hexact (got.map (fun i => arrival (dataPacket ps i)) ++ [arrival (donePacket ps),
    arrival (parityPacket chunk ps start (min recv.fecGroupSize (ps.length - start)))]) ?_ ?_
  · have hrsent := hall.sent r (by
      rw [receivePackets, List.foldl_append]
      exact hr)
    rcases (ht.mem _).mp hrsent with ⟨i, -, heq⟩ | ⟨_, _, -, heq⟩ | heq
    · have hi : r.seq = i := congrArg Packet.seq heq
      have hp : r.payload = ps.getD i [] := congrArg Packet.payload heq
      rw [hp, ← hi, hseq] at hlen
      exact Nat.lt_irrefl _ hlen
    · cases congrArg Packet.type heq
    · cases congrArg Packet.type heq
  · intro a ha
    rcases List.mem_append.mp ha with ha | ha
    · obtain ⟨i, hi, rfl⟩ := List.mem_map.mp ha
      exact (ht.mem _).mpr (.inl ⟨i, ((hmemgot i).mp hi).1, rfl⟩)
    · rcases List.mem_cons.mp ha with rfl | ha
      · exact (ht.mem _).mpr (.inr (.inr rfl))
      · rw [List.mem_singleton.mp ha]
        exact (ht.mem _).mpr (.inr (.inl ⟨_, _, hgroup, rfl⟩))
  · -- only the lost packet does not arrive
    have harrives : ∀ p ∈ sent, p.type = .data → p.seq ≠ lost →
        ∃ a ∈ got.map (fun i => arrival (dataPacket ps i)) ++ [arrival (donePacket ps),
          arrival (parityPacket chunk ps start (min recv.fecGroupSize (ps.length - start)))],
          a.packet = p := by
      intro p hp htype hne
      rcases (ht.mem p).mp hp with ⟨i, hi, rfl⟩ | ⟨_, _, -, rfl⟩ | rfl
      · exact ⟨arrival (dataPacket ps i), List.mem_append_left _
          (List.mem_map.mpr ⟨i, (hmemgot i).mpr ⟨hi, hne⟩, rfl⟩), rfl⟩
      · cases htype
      · cases htype
    intro p hp q hq htp htq hne _
    by_cases hpl : p.seq = lost
    · exact .inr (harrives q hq htq fun h => hne (hpl.trans h.symm))
    · exact .inl (harrives p hp htp hpl)

end Transcripts

/-- Recovery for a blast is exact if parity is off or if every read that more bytes follow is a
whole number of chunks, and otherwise some loss of one packet is rebuilt as another packet. -/
theorem fec_recovery_exact_iff {cfg : SendConfig} {ls : List BlastLabel} {σ : BlastState}
    (hrun : runFrom (BlastState.step cfg) (BlastState.init cfg) ls = some σ)
    (hend : σ.phase ≠ .sending) {recv : RecvConfig} (hgroup : recv.fecGroupSize = cfg.fecGroupSize)
    (hexp : recv.expectedBytes ≤ 0 ∨ recv.expectedBytes = σ.offset) :
    FecExact recv σ.sent ↔ cfg.fecGroupSize ≤ 1 ∨ WholeReads cfg.chunk σ.reads := by
  rcases Nat.lt_or_ge 1 cfg.fecGroupSize with hg | hg
  · obtain ⟨ht, hoffset⟩ := blast_transcript hg hrun hend
    rw [hoffset] at hexp
    rw [← hgroup] at ht hg
    rw [← full_iff_wholeReads cfg.chunk_pos]
    refine ⟨fun hexact => .inr ?_, fun h => ?_⟩
    · by_contra hnot
      exact not_fecExact_of_not_full hg hnot ht hexact
    · exact fecExact_of_full hg (h.resolve_left (by omega)) ht hexp
  · exact ⟨fun _ => .inl hg, fun _ => fecExact_of_plain (hgroup ▸ hg) (blast_plain hg hrun)⟩

/-- Chunks of four bytes, a parity packet for every two. -/
def exampleParityConfig : SendConfig := ⟨4, 0, false, 0, 2, none, 0, 0⟩

def exampleParityReceiver : RecvConfig := ⟨false, 0, 2, false⟩

/-- Three bytes, then four. -/
def shortReadRun : List BlastLabel :=
  [.read [1, 2, 3], .packet, .read [4, 5, 6, 7], .packet, .eof]

/-- The first packet is lost. -/
def shortReadArrivals : List Arrival :=
  [arrival ⟨.data, 0, 1, 3, 0, 0, [4, 5, 6, 7]⟩, arrival ⟨.done, 0, 2, 7, 0, 0, []⟩,
    arrival ⟨.parity, 0, 0, 0, 2, 0, [5, 7, 5, 7]⟩]

/-- What comes back for `[1, 2, 3]` is `[1, 2, 3, 0]`. -/
theorem fec_recovery_padded_short_read :
    ∃ σ, runFrom (BlastState.step exampleParityConfig) (BlastState.init exampleParityConfig)
        shortReadRun = some σ ∧ σ.phase ≠ .sending ∧ ¬FecExact exampleParityReceiver σ.sent := by
  have h : (runFrom (BlastState.step exampleParityConfig) (BlastState.init exampleParityConfig)
      shortReadRun).any (fun σ => decide (σ.phase ≠ .sending ∧
        (∀ a ∈ shortReadArrivals, a.packet ∈ σ.sent) ∧
        (∀ p ∈ σ.sent, ∀ q ∈ σ.sent, p.type = .data → q.type = .data → p.seq ≠ q.seq →
          p.seq / 2 = q.seq / 2 → (∃ a ∈ shortReadArrivals, a.packet = p) ∨
            ∃ a ∈ shortReadArrivals, a.packet = q) ∧
        ∃ r ∈ (receivePackets exampleParityReceiver Coord.empty shortReadArrivals).recovered,
          r.packet ∉ σ.sent)) = true := by decide +kernel
  obtain ⟨σ, hrun, hσ⟩ := (Option.any_eq_true ..).mp h
  obtain ⟨hphase, hsent, hlost, r, hr, hnot⟩ := of_decide_eq_true hσ
  exact ⟨σ, hrun, hphase, fun hexact => hnot ((hexact _ hsent hlost).sent r hr)⟩

/-- Four bytes, then three. -/
def wholeReadRun : List BlastLabel :=
  [.read [1, 2, 3, 4], .packet, .read [5, 6, 7], .packet, .eof]

theorem fec_recovery_exact_iff_whole_reads :
    ∃ σ, runFrom (BlastState.step exampleParityConfig) (BlastState.init exampleParityConfig)
        wholeReadRun = some σ ∧ σ.phase ≠ .sending ∧
      (FecExact exampleParityReceiver σ.sent ↔
        exampleParityConfig.fecGroupSize ≤ 1 ∨ WholeReads exampleParityConfig.chunk σ.reads) ∧
      WholeReads exampleParityConfig.chunk σ.reads := by
  have h : (runFrom (BlastState.step exampleParityConfig) (BlastState.init exampleParityConfig)
      wholeReadRun).any (fun σ => decide (σ.phase ≠ .sending ∧
        WholeReads exampleParityConfig.chunk σ.reads)) = true := by decide +kernel
  obtain ⟨σ, hrun, hσ⟩ := (Option.any_eq_true ..).mp h
  obtain ⟨hphase, hwhole⟩ := of_decide_eq_true hσ
  exact ⟨σ, hrun, hphase, fec_recovery_exact_iff hrun hphase rfl (.inl (by decide)), hwhole⟩

end Probe
