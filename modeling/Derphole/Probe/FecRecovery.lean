import Derphole.Probe.BlastTranscript
import Derphole.Probe.GlobalReceive

/-!
# Recovery from parity

What a receiver rebuilds, against the pieces that were sent.  The exclusive-or that
it keeps for a group is that of the pieces of the group it has seen (`FecSpec`), so
a parity packet gives back the one piece that is missing, padded to a chunk
(`rebuilt`).  Its offset and its length are taken from the size of the parity and of
the stream, which is right if every packet but the last is full
(`recoverParity_exact`).
-/

namespace Probe

open Lib

/-! ## The state of a group -/

/-- What is kept for the group that starts at `start`. -/
def GroupState (chunk groupSize : Nat) (ps : List (List UInt8)) (seen : SeqSet) (start : Nat) :
    Option (List UInt8) → Prop
  | some x => x ≠ [] ∧ x.length ≤ chunk ∧
      ∀ k, x.getD k 0 = xorSum (pieceByte ps k) ((List.range' start groupSize).filter seen.has)
  | none => (∀ i ∈ List.range' start groupSize, seen.has i = false) ∨
      ∀ i ∈ List.range' start groupSize, i < ps.length → seen.has i = true

/-- The parity kept under a number is the one that was sent for its group. -/
def IsParityOf (chunk groupSize : Nat) (ps : List (List UInt8)) (start : Nat) (p : FecParity) : Prop :=
  ∃ count, GroupAt groupSize ps.length start count ∧
    p = ⟨start, offsetAt ps start, count, parityBytes chunk ps start count⟩

structure FecSpec (chunk groupSize : Nat) (ps : List (List UInt8)) (seen : SeqSet) (f : Fec) :
    Prop where
  groups : ∀ start, start % groupSize = 0 → start < ps.length →
    GroupState chunk groupSize ps seen start (f.groups.lookup start)
  parity : ∀ start p, f.parity.lookup start = some p → IsParityOf chunk groupSize ps start p

theorem xorSum_filter_add (f : Nat → UInt8) {seen : SeqSet} {start n i : Nat}
    (hi : i ∈ List.range' start n) (hnew : seen.has i = false) :
    xorSum f ((List.range' start n).filter (seen.add i).1.has) =
      f i ^^^ xorSum f ((List.range' start n).filter seen.has) := by
  have hmem : i ∈ (List.range' start n).filter (seen.add i).1.has :=
    List.mem_filter.mpr ⟨hi, by rw [SeqSet.has_add]; simp⟩
  have hfilter : ((List.range' start n).filter (seen.add i).1.has).filter (fun j => j ≠ i) =
      (List.range' start n).filter seen.has := by
    rw [List.filter_filter]
    refine List.filter_congr fun j _ => ?_
    rw [SeqSet.has_add]
    by_cases hj : j = i
    · rw [hj, hnew]
      simp
    · simp [hj, Ne.symm hj]
  rw [xorSum_filter_ne f ((List.nodup_range' ..).filter _) hmem, hfilter]

namespace FecSpec

variable {chunk groupSize : Nat} {ps : List (List UInt8)} {seen : SeqSet} {f : Fec}

theorem empty : FecSpec chunk groupSize ps SeqSet.empty Fec.empty where
  groups := fun _ _ _ => .inl fun i _ => SeqSet.has_empty i
  parity := fun _ _ h => by cases h

/-- A group that was seen as a whole is forgotten. -/
theorem erase (h : FecSpec chunk groupSize ps seen f) {start : Nat}
    (hall : ∀ i ∈ List.range' start groupSize, i < ps.length → seen.has i = true) :
    FecSpec chunk groupSize ps seen ⟨f.groups.erase start, f.parity.erase start⟩ := by
  refine ⟨fun s hmod hlt => ?_, fun s p hp => ?_⟩
  · by_cases hs : s = start
    · show GroupState _ _ _ _ _ ((f.groups.erase start).lookup s)
      rw [hs, AList.lookup_erase]
      exact .inr hall
    · show GroupState _ _ _ _ _ ((f.groups.erase start).lookup s)
      rw [AList.lookup_erase_ne hs]
      exact h.groups s hmod hlt
  · by_cases hs : s = start
    · rw [hs, AList.lookup_erase] at hp
      cases hp
    · rw [AList.lookup_erase_ne hs] at hp
      exact h.parity s p hp

theorem dropParity (h : FecSpec chunk groupSize ps seen f) (start : Nat) :
    FecSpec chunk groupSize ps seen ⟨f.groups, f.parity.erase start⟩ := by
  refine ⟨h.groups, fun s p hp => ?_⟩
  by_cases hs : s = start
  · rw [hs, AList.lookup_erase] at hp
    cases hp
  · rw [AList.lookup_erase_ne hs] at hp
    exact h.parity s p hp

theorem mem_missingIn {start count i : Nat} :
    i ∈ missingIn seen start count ↔ i ∈ List.range' start count ∧ seen.has i = false := by
  rw [missingIn, List.mem_filter]
  simp

/-- `cleanupFECGroupIfComplete`, for a count that covers the group. -/
theorem cleanup (h : FecSpec chunk groupSize ps seen f) {start count : Nat}
    (hcover : ∀ i ∈ List.range' start groupSize, i < ps.length → i ∈ List.range' start count) :
    FecSpec chunk groupSize ps seen (f.cleanupFECGroupIfComplete seen start count) := by
  rw [Fec.cleanupFECGroupIfComplete]
  split
  · exact h
  split
  · rename_i hnone
    refine h.erase fun i hi hlt => ?_
    by_contra hc
    have hmem : i ∈ missingIn seen start count :=
      mem_missingIn.mpr ⟨hcover i hi hlt, by simpa using hc⟩
    rw [hnone] at hmem
    cases hmem
  · exact h

theorem groupAt_cover {start count : Nat} (hg : GroupAt groupSize ps.length start count) :
    ∀ i ∈ List.range' start groupSize, i < ps.length → i ∈ List.range' start count := by
  intro i hi hlt
  obtain ⟨-, hs, rfl⟩ := hg
  rw [List.mem_range'_1] at hi ⊢
  omega

/-- A parity packet is stored. -/
theorem storeParity (h : FecSpec chunk groupSize ps seen f) {start count : Nat}
    (hg : GroupAt groupSize ps.length start count) :
    FecSpec chunk groupSize ps seen (f.storeFECParity seen start (offsetAt ps start) count
      (parityBytes chunk ps start count)) := by
  rw [Fec.storeFECParity]
  split
  · exact h
  · refine cleanup (f := ⟨f.groups, f.parity.insert start ⟨start, _, count, _⟩⟩)
      ⟨h.groups, fun s p hp => ?_⟩ (groupAt_cover hg)
    by_cases hs : s = start
    · have hp' : (f.parity.insert start _).lookup s = some p := hp
      rw [hs, AList.lookup_insert] at hp'
      cases hp'
      rw [hs]
      exact ⟨count, hg, rfl⟩
    · have hp' : (f.parity.insert start _).lookup s = some p := hp
      rw [AList.lookup_insert_ne hs] at hp'
      exact h.parity s p hp'

/-- A new piece is counted in its group. -/
theorem storePayload (h : FecSpec chunk groupSize ps seen f) (hg : 1 < groupSize) {i : Nat}
    (hi : i < ps.length) (hpiece : ps.getD i [] ≠ [] ∧ (ps.getD i []).length ≤ chunk)
    (hnew : seen.has i = false) :
    FecSpec chunk groupSize ps (seen.add i).1
      (f.storeFECPayload (seen.add i).1 groupSize i (ps.getD i [])) := by
  have hdiv := Nat.div_add_mod i groupSize
  have hlt := Nat.mod_lt i (by omega : 0 < groupSize)
  have hmul := Nat.mul_comm groupSize (i / groupSize)
  have hmem : i ∈ List.range' (i / groupSize * groupSize) groupSize :=
    List.mem_range'_1.mpr ⟨by omega, by omega⟩
  rw [Fec.storeFECPayload, if_neg (by
    rintro (hle | hnil)
    · omega
    · exact hpiece.1 hnil)]
  refine cleanup ⟨fun s hmod hs => ?_, ?_⟩ fun j hj _ => hj
  · by_cases hsi : s = i / groupSize * groupSize
    · -- the group of the piece
      have hold := h.groups s hmod hs
      show GroupState _ _ _ _ _ ((f.groups.insert _ _).lookup s)
      rw [hsi, AList.lookup_insert]
      rw [hsi] at hold
      refine ⟨?_, ?_, fun k => ?_⟩
      · intro hnil
        have hl := congrArg List.length hnil
        rw [length_xorInto, List.length_nil] at hl
        exact hpiece.1 (List.length_eq_zero_iff.mp (by omega))
      · rw [length_xorInto]
        refine Nat.max_le.mpr ⟨?_, hpiece.2⟩
        cases hx : f.groups.lookup (i / groupSize * groupSize) with
        | none => exact Nat.zero_le _
        | some x =>
            rw [hx] at hold
            exact hold.2.1
      · rw [getD_xorInto, xorSum_filter_add _ hmem hnew, UInt8.xor_comm, ← pieceByte]
        congr 1
        cases hx : f.groups.lookup (i / groupSize * groupSize) with
        | none =>
            rw [hx] at hold
            have hnone : (List.range' (i / groupSize * groupSize) groupSize).filter seen.has = [] := by
              rcases hold with hno | hall
              · exact List.filter_eq_nil_iff.mpr fun j hj => by rw [hno j hj]; simp
              · rw [hall i hmem hi] at hnew
                cases hnew
            rw [hnone]
            rfl
        | some x =>
            rw [hx] at hold
            exact hold.2.2 k
    · -- another group, of which the piece is none
      have hnot : i ∉ List.range' s groupSize := by
        intro hmem'
        rw [List.mem_range'_1] at hmem'
        have hs' := Nat.div_add_mod s groupSize
        rw [hmod, Nat.add_zero] at hs'
        have : i / groupSize = s / groupSize := by
          refine Nat.div_eq_of_lt_le ?_ ?_
          · rw [Nat.mul_comm, hs']
            exact hmem'.1
          · rw [Nat.succ_mul, Nat.mul_comm, hs']
            exact hmem'.2
        rw [this, Nat.mul_comm, hs'] at hsi
        exact hsi rfl
      have hsame : ∀ j ∈ List.range' s groupSize, (seen.add i).1.has j = seen.has j := by
        intro j hj
        have hne : i ≠ j := fun he => hnot (he ▸ hj)
        rw [SeqSet.has_add]
        simp [hne]
      have hold := h.groups s hmod hs
      show GroupState _ _ _ _ _ ((f.groups.insert _ _).lookup s)
      rw [AList.lookup_insert_ne hsi]
      cases hx : f.groups.lookup s with
      | none =>
          rw [hx] at hold
          rcases hold with hno | hall
          · exact .inl fun j hj => by rw [hsame j hj]; exact hno j hj
          · exact .inr fun j hj hlt => by rw [hsame j hj]; exact hall j hj hlt
      | some x =>
          rw [hx] at hold
          refine ⟨hold.1, hold.2.1, fun k => ?_⟩
          rw [hold.2.2 k, List.filter_congr hsame]
  · exact h.parity

end FecSpec

/-! ## What a parity packet gives -/

/-- Every packet but the last is full. -/
def Full (chunk : Nat) (ps : List (List UInt8)) : Prop :=
  ∀ i, i + 1 < ps.length → (ps.getD i []).length = chunk

/-- The packet is one that was sent. -/
def IsPiece (ps : List (List UInt8)) (r : RecoveredPacket) : Prop :=
  ∃ i < ps.length, r = ⟨i, offsetAt ps i, ps.getD i []⟩

/-- Over full packets the offset grows by chunks. -/
theorem offsetAt_add_of_full {chunk : Nat} {ps : List (List UInt8)} {start d : Nat}
    (hd : start + d < ps.length) (h : ∀ i < start + d, (ps.getD i []).length = chunk) :
    offsetAt ps (start + d) = offsetAt ps start + d * chunk := by
  induction d with
  | zero => simp
  | succ d ih =>
      rw [← Nat.add_assoc, offsetAt_succ (by omega), ih (by omega) fun i hi => h i (by omega),
        h (start + d) (by omega), Nat.succ_mul, Nat.add_assoc]

/-- The group without the one piece missing, and its parity. -/
theorem rebuilt {chunk groupSize : Nat} {ps : List (List UInt8)} {seen : SeqSet} {start count m : Nat}
    {x : List UInt8} (hg : GroupAt groupSize ps.length start count)
    (hx : GroupState chunk groupSize ps seen start (some x))
    (hseen : ∀ i, seen.has i = true → i < ps.length)
    (hmiss : missingIn seen start count = [m]) :
    (xorInto (parityBytes chunk ps start count) x).length = chunk ∧
      ∀ k < chunk, (xorInto (parityBytes chunk ps start count) x).getD k 0 = pieceByte ps k m := by
  obtain ⟨-, hlen, hbytes⟩ := hx
  obtain ⟨hmod, hlt, hcount⟩ := hg
  have hm : m ∈ List.range' start count ∧ seen.has m = false := by
    rw [← FecSpec.mem_missingIn, hmiss]
    exact List.mem_singleton.mpr rfl
  -- the pieces seen are those of the group but the missing one
  have hfilter : (List.range' start groupSize).filter seen.has =
      (List.range' start count).filter fun i => i ≠ m := by
    have hsplit : List.range' start groupSize =
        List.range' start count ++ List.range' (start + count) (groupSize - count) := by
      rw [List.range'_append_1]
      congr 1
      omega
    have hrest : (List.range' (start + count) (groupSize - count)).filter seen.has = [] := by
      refine List.filter_eq_nil_iff.mpr fun i hi hs => ?_
      have := hseen i hs
      have := List.mem_range'_1.mp hi
      omega
    rw [hsplit, List.filter_append, hrest, List.append_nil]
    refine List.filter_congr fun i hi => ?_
    by_cases him : i = m
    · rw [him, hm.2]
      simp
    · have hsi : seen.has i = true := by
        by_contra hc
        have hmem : i ∈ missingIn seen start count :=
          FecSpec.mem_missingIn.mpr ⟨hi, by simpa using hc⟩
        rw [hmiss] at hmem
        exact him (List.mem_singleton.mp hmem)
      rw [hsi]
      simp [him]
  refine ⟨?_, fun k hk => ?_⟩
  · rw [length_xorInto, length_parityBytes]
    omega
  · rw [getD_xorInto, getD_parityBytes ps start count hk, hbytes k, hfilter,
      xorSum_filter_ne _ (List.nodup_range' ..) hm.1, UInt8.xor_assoc, UInt8.xor_self, UInt8.xor_zero]

/-- What is rebuilt, cut at the end of the stream, is the missing piece. -/
theorem rebuilt_eq {chunk : Nat} {ps : List (List UInt8)} {m known : Nat} {x : List UInt8}
    (hfull : Full chunk ps) (hm : m < ps.length)
    (hpiece : ps.getD m [] ≠ [] ∧ (ps.getD m []).length ≤ chunk)
    (hlen : x.length = chunk) (hbytes : ∀ k < chunk, x.getD k 0 = pieceByte ps k m)
    (hknown : known = 0 ∧ m + 1 < ps.length ∨ known = offsetAt ps ps.length) :
    (if offsetAt ps m < known then x.take (known - offsetAt ps m) else x) = ps.getD m [] := by
  have hwhole : m + 1 < ps.length → x = ps.getD m [] := by
    intro hlast
    refine ext_getD (by rw [hlen, hfull m hlast]) fun k hk => ?_
    rw [hbytes k (by omega), pieceByte]
  have hoff := offsetAt_succ hm
  rcases hknown with ⟨rfl, hlast⟩ | rfl
  · rw [if_neg (by omega)]
    exact hwhole hlast
  · rcases Nat.lt_or_ge (m + 1) ps.length with hlast | hlast
    · have hle := offsetAt_mono ps (Nat.le_of_lt hlast) (Nat.le_refl _)
      have hm' := hfull m hlast
      split
      · rw [List.take_of_length_le (by omega)]
        exact hwhole hlast
      · exact hwhole hlast
    · -- the last piece may be short
      have hend : m + 1 = ps.length := by omega
      rw [hend] at hoff
      have hsub : offsetAt ps ps.length - offsetAt ps m = (ps.getD m []).length := by omega
      split
      · rw [hsub]
        refine ext_getD (by rw [List.length_take]; omega) fun k hk => ?_
        rw [List.length_take] at hk
        rw [List.getD_eq_getElem?_getD, List.getElem?_take_of_lt (by omega),
          ← List.getD_eq_getElem?_getD, hbytes k (by omega), pieceByte]
      · exact absurd (List.length_eq_zero_iff.mp (by omega)) hpiece.1

/-- The parts of a run that recovery reads. -/
structure RunSpec (chunk groupSize : Nat) (ps : List (List UInt8)) (s : RunState) : Prop where
  fec : FecSpec chunk groupSize ps s.seen s.fec
  seen_lt : ∀ i, s.seen.has i = true → i < ps.length
  max_le : s.maxSeqPlusOne ≤ ps.length

section Recovery

variable {chunk groupSize : Nat} {ps : List (List UInt8)} {s : RunState} {known : Nat}

/-- One parity packet gives back nothing, or the piece that is missing. -/
theorem recoverParity_exact (hfull : Full chunk ps)
    (hpieces : ∀ p ∈ ps, p ≠ [] ∧ p.length ≤ chunk) (h : RunSpec chunk groupSize ps s)
    (hknown : known = 0 ∨ known = offsetAt ps ps.length) {start : Nat} {p : FecParity}
    (hp : IsParityOf chunk groupSize ps start p) (hstart : start < ps.length) :
    ∃ f rs, s.recoverParity known p = .ok (f, rs) ∧ FecSpec chunk groupSize ps s.seen f ∧
      ∀ r ∈ rs, IsPiece ps r := by
  obtain ⟨count, hg, rfl⟩ := hp
  have hmod := hg.1
  rw [RunState.recoverParity]
  split
  · exact ⟨s.fec, [], rfl, h.fec, fun _ hr => by cases hr⟩
  rename_i hskip
  split
  · exact ⟨_, [], rfl, h.fec.cleanup (FecSpec.groupAt_cover hg), fun _ hr => by cases hr⟩
  · rename_i m hmiss
    have hm : m ∈ List.range' start count := by
      have : m ∈ missingIn s.seen start count := by rw [hmiss]; exact List.mem_singleton.mpr rfl
      exact (FecSpec.mem_missingIn.mp this).1
    rw [List.mem_range'_1] at hm
    obtain ⟨-, hlt, hcount⟩ := hg
    have hmlt : m < ps.length := by omega
    have hgroup := h.fec.groups start hmod hstart
    split
    · exact ⟨s.fec, [], rfl, h.fec, fun _ hr => by cases hr⟩
    · exact ⟨s.fec, [], rfl, h.fec, fun _ hr => by cases hr⟩
    · rename_i b xor hlookup
      rw [hlookup] at hgroup
      obtain ⟨hlen, hbytes⟩ := rebuilt ⟨hmod, hlt, hcount⟩ hgroup h.seen_lt hmiss
      have hoff : offsetAt ps start + (m - start) * (parityBytes chunk ps start count).length =
          offsetAt ps m := by
        rw [length_parityBytes, ← offsetAt_add_of_full (by omega) fun i hi => hfull i (by omega)]
        congr 1
        omega
      rw [if_neg (by rw [length_parityBytes]; exact Nat.not_lt.mpr hgroup.2.1)]
      dsimp only
      split
      · exact ⟨_, [], rfl, h.fec.dropParity start, fun _ hr => by cases hr⟩
      · refine ⟨_, _, rfl, h.fec.dropParity start, fun r hr => ?_⟩
        rw [List.mem_singleton.mp hr, hoff]
        have hmem : ps.getD m [] ∈ ps := by
          rw [List.getD_eq_getElem _ _ hmlt]
          exact List.getElem_mem hmlt
        refine ⟨m, hmlt, ?_⟩
        rw [rebuilt_eq hfull hmlt (hpieces _ hmem) hlen hbytes]
        -- the size is unknown only while packets after this group were seen
        rcases hknown with rfl | hk
        · refine .inl ⟨rfl, ?_⟩
          have := h.max_le
          have hmax : ¬s.maxSeqPlusOne ≤ start + count := fun hle => hskip ⟨rfl, hle⟩
          omega
        · exact .inr hk
  · exact ⟨s.fec, [], rfl, h.fec, fun _ hr => by cases hr⟩

theorem recoverFECKeys_exact (hfull : Full chunk ps)
    (hpieces : ∀ p ∈ ps, p ≠ [] ∧ p.length ≤ chunk)
    (hknown : known = 0 ∨ known = offsetAt ps ps.length) (keys : List Nat)
    (h : RunSpec chunk groupSize ps s) :
    ∃ f rs, RunState.recoverFECKeys known keys s = .ok ({ s with fec := f }, rs) ∧
      FecSpec chunk groupSize ps s.seen f ∧ ∀ r ∈ rs, IsPiece ps r := by
  induction keys generalizing s with
  | nil => exact ⟨s.fec, [], rfl, h.fec, fun _ hr => by cases hr⟩
  | cons key keys ih =>
      rw [RunState.recoverFECKeys]
      cases hp : s.fec.parity.lookup key with
      | none => exact ih h
      | some p =>
          have hparity := h.fec.parity key p hp
          have hstart : key < ps.length := by
            obtain ⟨count, hg, -⟩ := hparity
            exact hg.2.1
          obtain ⟨f, rs, hr, hspec, hrs⟩ := recoverParity_exact hfull hpieces h hknown hparity hstart
          obtain ⟨f', rs', hr', hspec', hrs'⟩ :=
            ih (s := { s with fec := f }) ⟨hspec, h.seen_lt, h.max_le⟩
          refine ⟨f', rs ++ rs', ?_, hspec', fun r hmem => ?_⟩
          · simp only [hr, bind, Except.bind, hr']
          · rcases List.mem_append.mp hmem with hmem | hmem
            · exact hrs r hmem
            · exact hrs' r hmem

end Recovery

end Probe
