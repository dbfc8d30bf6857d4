import Derphole.Probe.GlobalFrame

/-!
# When recovery has nothing more to give

`blastReceiveRunState.recoverFEC` looks at every parity packet it keeps.  Each is worth
at most one packet, and how much it is worth depends on its own group alone
(`gained`), so one round over the keys of the map gives the sum of what each is worth
(`recoverFECKeys_spec`), whatever the order.
-/

namespace Probe

open Lib

/-- What a parity packet is worth, once the size of the stream is known. -/
def gained (known : Nat) (seen : SeqSet) (group : Option (List UInt8)) (p : FecParity) :
    List RecoveredPacket :=
  match missingIn seen p.startSeq p.count, group with
  | [m], some (b :: xor) =>
      if known ≤ p.offset + (m - p.startSeq) * p.payload.length then []
      else
        [⟨m, p.offset + (m - p.startSeq) * p.payload.length, (xorInto p.payload (b :: xor)).take
          (known - (p.offset + (m - p.startSeq) * p.payload.length))⟩]
  | _, _ => []

/-- What the parity packet under a key is worth. -/
def gainedAt (known : Nat) (s : RunState) (key : Nat) : List RecoveredPacket :=
  match s.fec.parity.lookup key with
  | none => []
  | some p => gained known s.seen (s.fec.groups.lookup key) p

/-- What looking at the parity packet under `key` does to the groups: it is kept and
nothing changes, or it is dropped, with its group or without. -/
inductive Looked (key : Nat) (f : Fec) : Fec → Prop
  | kept : Looked key f f
  | dropped : Looked key f ⟨f.groups, f.parity.erase key⟩
  | cleaned : Looked key f ⟨f.groups.erase key, f.parity.erase key⟩

namespace Looked

variable {key : Nat} {f f' : Fec}

theorem other (h : Looked key f f') {k : Nat} (hk : k ≠ key) :
    f'.groups.lookup k = f.groups.lookup k ∧ f'.parity.lookup k = f.parity.lookup k := by
  cases h with
  | kept => exact ⟨rfl, rfl⟩
  | dropped => exact ⟨rfl, AList.lookup_erase_ne hk⟩
  | cleaned => exact ⟨AList.lookup_erase_ne hk, AList.lookup_erase_ne hk⟩

theorem same (h : Looked key f f') {q : FecParity} (hq : f'.parity.lookup key = some q) : f' = f := by
  cases h with
  | kept => rfl
  | dropped =>
      rw [AList.lookup_erase] at hq
      cases hq
  | cleaned =>
      rw [AList.lookup_erase] at hq
      cases hq

theorem groups (h : Looked key f f') {k : Nat} {x : List UInt8} (hx : f'.groups.lookup k = some x) :
    f.groups.lookup k = some x := by
  cases h with
  | kept => exact hx
  | dropped => exact hx
  | cleaned =>
      by_cases hk : k = key
      · rw [hk, AList.lookup_erase] at hx
        cases hx
      · rwa [AList.lookup_erase_ne hk] at hx

theorem parity (h : Looked key f f') {k : Nat} {p : FecParity} (hp : f'.parity.lookup k = some p) :
    f.parity.lookup k = some p ∧ f'.groups.lookup k = f.groups.lookup k := by
  by_cases hk : k = key
  · rw [hk] at hp ⊢
    have hsame := h.same hp
    rw [hsame] at hp ⊢
    exact ⟨hp, rfl⟩
  · exact ⟨(h.other hk).2 ▸ hp, (h.other hk).1⟩

theorem length (h : Looked key f f') : f'.parity.entries.length ≤ f.parity.entries.length := by
  have herase : (f.parity.erase key).entries.length ≤ f.parity.entries.length := by
    cases hl : f.parity.lookup key with
    | none =>
        have hnot : key ∉ f.parity.keys := by
          rw [← AList.mem_keys]
          exact AList.lookup_eq_none.mp hl
        show (List.kerase key f.parity.entries).length ≤ _
        rw [List.kerase_of_notMem_keys hnot]
    | some p => exact Nat.le_of_lt (Map.length_erase_lt hl)
  cases h with
  | kept => exact Nat.le_refl _
  | dropped => exact herase
  | cleaned => exact herase

end Looked

section

variable {known : Nat} {s s' : RunState} {p : FecParity} {f : Fec} {rs : List RecoveredPacket}

/-- One parity packet. -/
theorem recoverParity_spec (hr : s.recoverParity known p = .ok (f, rs)) :
    Looked p.startSeq s.fec f ∧
      (∀ r ∈ rs, r.seq ∈ missingIn s.seen p.startSeq p.count) ∧
      (rs ≠ [] → f.parity.lookup p.startSeq = none) ∧
      (0 < known → rs = gained known s.seen (s.fec.groups.lookup p.startSeq) p) := by
  unfold RunState.recoverParity at hr
  split at hr
  · rename_i hgate
    cases hr
    exact ⟨.kept, fun _ h => (by cases h), fun h => absurd rfl h, fun hk => by omega⟩
  split at hr
  · rename_i hmiss
    cases hr
    refine ⟨?_, fun _ h => (by cases h), fun h => absurd rfl h, fun _ => by simp [gained, hmiss]⟩
    rw [Fec.cleanupFECGroupIfComplete]
    split
    · exact .kept
    · exact .cleaned
  · rename_i m hmiss
    split at hr
    · rename_i hg
      cases hr
      exact ⟨.kept, fun _ h => (by cases h), fun h => absurd rfl h, fun _ => by simp [gained, hmiss, hg]⟩
    · rename_i hg
      cases hr
      exact ⟨.kept, fun _ h => (by cases h), fun h => absurd rfl h, fun _ => by simp [gained, hmiss, hg]⟩
    · rename_i b xor hg
      split at hr
      · cases hr
      dsimp only at hr
      split at hr
      · rename_i hend
        cases hr
        exact ⟨.dropped, fun _ h => (by cases h), fun h => absurd rfl h, fun _ => by
          simp [gained, hmiss, hg, hend.2]⟩
      · rename_i hend
        cases hr
        refine ⟨.dropped, fun r hr => ?_, fun _ => AList.lookup_erase _ _, fun hk => ?_⟩
        · rw [List.mem_singleton.mp hr, hmiss]
          exact List.mem_singleton.mpr rfl
        · have hlt : ¬known ≤ p.offset + (m - p.startSeq) * p.payload.length := fun h => hend ⟨hk, h⟩
          simp [gained, hmiss, hg, hlt, Nat.lt_of_not_le hlt]
  · rename_i hmiss
    cases hr
    exact ⟨.kept, fun _ h => (by cases h), fun h => absurd rfl h, fun _ => by simp [gained, hmiss]⟩

/-- What a round over some keys does. -/
structure Round (known : Nat) (keys : List Nat) (s s' : RunState) (rs : List RecoveredPacket) : Prop where
  run : s' = { s with fec := s'.fec }
  groups : ∀ k x, s'.fec.groups.lookup k = some x → s.fec.groups.lookup k = some x
  parity : ∀ k p, s'.fec.parity.lookup k = some p →
    s.fec.parity.lookup k = some p ∧ s'.fec.groups.lookup k = s.fec.groups.lookup k
  length : s'.fec.parity.entries.length ≤ s.fec.parity.entries.length
  used : rs ≠ [] → s'.fec.parity.entries.length < s.fec.parity.entries.length
  mem : ∀ r ∈ rs, ∃ k p, s.fec.parity.lookup k = some p ∧ r.seq ∈ missingIn s.seen k p.count
  exact : 0 < known → rs = keys.flatMap (gainedAt known s)
  dropped : 0 < known → ∀ k ∈ keys, gainedAt known s k ≠ [] → s'.fec.parity.lookup k = none

theorem gainedAt_of_lookup {key : Nat} (hp : s.fec.parity.lookup key = some p) :
    gainedAt known s key = gained known s.seen (s.fec.groups.lookup key) p := by
  rw [gainedAt, hp]

/-- A key that was not looked at is worth what it was. -/
theorem Looked.gainedAt_eq {key k : Nat} (h : Looked key s.fec f) (hk : k ≠ key) :
    gainedAt known { s with fec := f } k = gainedAt known s k := by
  rw [gainedAt, gainedAt]
  show (match f.parity.lookup k with | none => [] | some p => gained known s.seen (f.groups.lookup k) p) = _
  rw [(h.other hk).1, (h.other hk).2]

end

/-- The rounds over different keys do not disturb one another. -/
theorem recoverFECKeys_spec {known : Nat} {keys : List Nat} (hnodup : keys.Nodup) {s s' : RunState}
    {rs : List RecoveredPacket}
    (hstart : ∀ k p, s.fec.parity.lookup k = some p → p.startSeq = k)
    (hr : RunState.recoverFECKeys known keys s = .ok (s', rs)) : Round known keys s s' rs := by
  induction keys generalizing s rs with
  | nil =>
      cases hr
      exact ⟨rfl, fun _ _ h => h, fun _ _ h => ⟨h, rfl⟩, Nat.le_refl _, fun h => absurd rfl h,
        fun _ h => (by cases h), fun _ => rfl, fun _ _ h => by cases h⟩
  | cons key keys ih =>
      obtain ⟨hkey, hnodup⟩ := List.nodup_cons.mp hnodup
      rw [RunState.recoverFECKeys] at hr
      split at hr
      · -- nothing is kept under the key
        rename_i hnone
        have hzero : gainedAt known s key = [] := by rw [gainedAt, hnone]
        obtain ⟨hrun, hgroups, hparity, hlength, hused, hmem, hexact, hdropped⟩ := ih hnodup hstart hr
        refine ⟨hrun, hgroups, hparity, hlength, hused, hmem, fun hk => ?_, fun hk k hin hne => ?_⟩
        · rw [hexact hk, List.flatMap_cons, hzero, List.nil_append]
        · rcases List.mem_cons.mp hin with rfl | hin
          · exact absurd hzero hne
          · exact hdropped hk k hin hne
      · rename_i p hp
        have hseq := hstart key p hp
        cases hone : s.recoverParity known p with
        | error e =>
            rw [hone] at hr
            cases hr
        | ok one =>
            obtain ⟨f, here⟩ := one
            obtain ⟨hlooked, hin, hnone, hgained⟩ := recoverParity_spec hone
            rw [hseq] at hlooked hin hnone hgained
            rw [hone] at hr
            simp only [bind, Except.bind] at hr
            cases hrest : RunState.recoverFECKeys known keys { s with fec := f } with
            | error e =>
                rw [hrest] at hr
                cases hr
            | ok rest =>
                obtain ⟨t, more⟩ := rest
                rw [hrest] at hr
                cases hr
                have hround := ih hnodup (s := { s with fec := f })
                  (fun k q hq => hstart k q (hlooked.parity hq).1) hrest
                refine ⟨hround.run, fun k x hx => hlooked.groups (hround.groups k x hx), fun k q hq => ?_,
                  Nat.le_trans hround.length hlooked.length, fun hne => ?_, fun r hr => ?_, fun hk => ?_,
                  fun hk k hin' hne => ?_⟩
                · obtain ⟨hq', hg⟩ := hround.parity k q hq
                  obtain ⟨hq'', hg'⟩ := hlooked.parity hq'
                  exact ⟨hq'', hg.trans hg'⟩
                · cases hhere : here with
                  | nil =>
                      refine Nat.lt_of_lt_of_le (hround.used fun hmore => hne ?_) hlooked.length
                      rw [hhere, hmore]
                      rfl
                  | cons r rs =>
                      refine Nat.lt_of_le_of_lt hround.length ?_
                      have hgone := hnone (by rw [hhere]; simp)
                      cases hlooked with
                      | kept =>
                          rw [hp] at hgone
                          cases hgone
                      | dropped => exact Map.length_erase_lt hp
                      | cleaned => exact Map.length_erase_lt hp
                · rcases List.mem_append.mp hr with hr | hr
                  · exact ⟨key, p, hp, hin r hr⟩
                  · obtain ⟨k, q, hq, hmiss⟩ := hround.mem r hr
                    exact ⟨k, q, (hlooked.parity hq).1, hmiss⟩
                · rw [List.flatMap_cons, gainedAt_of_lookup hp, ← hgained hk, hround.exact hk]
                  congr 1
                  refine List.flatMap_congr fun k hin' => ?_
                  exact hlooked.gainedAt_eq fun heq => hkey (heq ▸ hin')
                · rcases List.mem_cons.mp hin' with rfl | hin'
                  · cases hl : t.fec.parity.lookup k with
                    | none => rfl
                    | some q =>
                        have hkept := (hround.parity k q hl).1
                        rw [gainedAt_of_lookup hp, ← hgained hk] at hne
                        rw [show ({ s with fec := f } : RunState).fec = f from rfl, hnone hne] at hkept
                        cases hkept
                  · have hk' : k ≠ key := fun heq => hkey (heq ▸ hin')
                    exact hround.dropped hk k hin' (by rwa [hlooked.gainedAt_eq hk'])

end Probe
