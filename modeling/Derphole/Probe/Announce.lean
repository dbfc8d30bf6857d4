import Derphole.Lib.Run
import Derphole.Probe.FecExact
import Derphole.Probe.FecSettled

/-!
# Telling the sender that a run is complete

`completeRun` tells the sender to stop.  It is called from `recoverFEC` too, whose result
the callers drop: a Data or a Done call asks again afterwards, and a Parity call does not.
So a call that tells the sender returns `true`, unless it is a parity packet that closes
the last gap of a run after its Done (`LastGap`).

After every call no parity packet that is kept is worth anything (`Settled`), so a parity
packet brings back at most one packet, its own.
-/

namespace Probe

open Lib

namespace RunState

/-- A run without its output. -/
def core (s : RunState) : RunState :=
  { s with writeBuf := [], pending := ∅, nextWriteSeq := 0, spool := none }

/-- A rebuilt packet is taken in if it is new. -/
def takeIn (groupSize : Nat) (s : RunState) (r : RecoveredPacket) : RunState :=
  if (s.acceptData r.seq).2 then
    (s.acceptData r.seq).1.storeFECPayload groupSize r.seq r.payload
  else s

end RunState

/-! ## What each part does to the run -/

section Core

variable {cfg : RecvConfig}

theorem acceptGlobalPayload_core (seq offset : Nat) (payload : List UInt8) (v : Coord) :
    Triple (fun c => c.core = v) (acceptGlobalPayload cfg seq offset payload)
      (fun _ c => c.core = { v with run := v.run.storeFECPayload cfg.fecGroupSize seq payload })
      fun _ _ => True := by
  refine Triple.bind (Q := fun _ (c : Coord) =>
    c.core = { v with run := v.run.storeFECPayload cfg.fecGroupSize seq payload })
    (Triple.update fun c hc => ?_) fun _ => ?_
  · subst hc
    rfl
  · refine Triple.bind ((Silent.writeGlobalPayload cfg seq offset payload _).conseq (fun _ h => h)
      (fun _ _ h => h) fun _ _ _ => trivial) fun _ => ?_
    exact Triple.update fun c hc => hc

theorem takeIn_core {seq offset : Nat} {payload : List UInt8} {v : Coord}
    (hnew : (v.run.acceptData seq).2 = true) {β : Type} {k : Unit → Recv β} {K : β → Coord → Prop}
    (hk : Triple (fun c => c.core = { v with
      run := v.run.takeIn cfg.fecGroupSize ⟨seq, offset, payload⟩ }) (k ()) K fun _ _ => True) :
    Triple (fun c => c.core = v)
      (do
        updateRun fun s => (s.acceptData seq).1
        acceptGlobalPayload cfg seq offset payload
        k ()) K fun _ _ => True := by
  refine Triple.bind (Q := fun _ (c : Coord) => c.core = { v with run := (v.run.acceptData seq).1 })
    (Triple.update fun c hc => ?_) fun _ => ?_
  · subst hc
    have hadd : (c.run.seen.add seq).2 = true := by
      rw [RunState.acceptData_snd] at hnew
      rwa [SeqSet.add_snd]
    show ({ c with run := (c.run.acceptData seq).1 } : Coord).core =
      { c.core with run := (c.core.run.acceptData seq).1 }
    rw [RunState.acceptData_new hadd,
      RunState.acceptData_new (show (c.core.run.seen.add seq).2 = true from hadd)]
    rfl
  · refine Triple.bind (acceptGlobalPayload_core seq offset payload _) fun _ => ?_
    rw [RunState.takeIn, if_pos hnew] at hk
    exact hk

theorem acceptRecovered_core (rs : List RecoveredPacket) (v : Coord) :
    Triple (fun c => c.core = v) (acceptRecovered cfg rs)
      (fun _ c => c.core = { v with run := rs.foldl (RunState.takeIn cfg.fecGroupSize) v.run })
      fun _ _ => True := by
  induction rs generalizing v with
  | nil => exact Triple.pure fun _ h => h
  | cons r rs ih =>
      refine Triple.read_bind fun c hc => ?_
      have hsame : (c.run.acceptData r.seq).2 = (v.run.acceptData r.seq).2 := by
        rw [RunState.acceptData_snd, RunState.acceptData_snd, ← hc]
        rfl
      refine Triple.ite (fun hnew => ?_) fun hold => ?_
      · rw [hsame] at hnew
        exact (takeIn_core (k := fun _ => acceptRecovered cfg rs) hnew (ih _)).conseq
          (fun _ h => h ▸ hc) (fun _ _ h => h) fun _ _ h => h
      · rw [hsame] at hold
        have hskip : v.run.takeIn cfg.fecGroupSize r = v.run := by
          rw [RunState.takeIn, if_neg hold]
        rw [List.foldl_cons, hskip]
        exact (ih v).conseq (fun _ h => h ▸ hc) (fun _ _ h => h) fun _ _ h => h

/-- The sender is told exactly when the run is complete. -/
theorem completeRun_core (v : Coord) :
    Triple (fun c => c.core = v) (completeRun cfg)
      (fun b c => b = v.run.complete ∧ c.core = { v with
        repairCompletes := v.repairCompletes + if v.run.complete then 1 else 0 })
      fun _ _ => True := by
  refine Triple.read_bind fun c hc => ?_
  have hsame : c.run.complete = v.run.complete := by
    rw [← hc]
    rfl
  refine Triple.ite (fun hcomplete => ?_) fun hcomplete => ?_
  · rw [hsame] at hcomplete
    simp only [hcomplete, if_true]
    refine Triple.bind (((Silent.validateFinalTotal cfg "blast" _) v).conseq (fun _ h => h ▸ hc)
      (fun _ _ h => h) fun _ _ _ => trivial) fun _ => ?_
    refine Triple.bind (((Silent.flushGlobalPayload cfg) v).conseq (fun _ h => h)
      (fun _ _ h => h) fun _ _ _ => trivial) fun _ => ?_
    refine Triple.bind (Q := fun _ (c : Coord) =>
      c.core = { v with repairCompletes := v.repairCompletes + 1 })
      (Triple.update fun c hc => ?_) fun _ => Triple.pure fun _ h => ⟨rfl, h⟩
    subst hc
    rfl
  · rw [hsame] at hcomplete
    refine Triple.pure fun c' hc' => ?_
    simp [hc', hc, hcomplete]

end Core

/-! ## What is kept -/

/-- No parity packet that is kept is worth anything. -/
def Settled (s : RunState) : Prop := ∀ key, gainedAt s.totalBytes s key = []

/-- What is kept belongs to the run. -/
structure OfRun (groupSize : Nat) (ps : List (List UInt8)) (s : RunState) : Prop where
  striped : s.striped = false
  parity : ∀ key p, s.fec.parity.lookup key = some p →
    p.startSeq = key ∧ GroupAt groupSize ps.length key p.count
  total : s.done = true → s.totalBytes = offsetAt ps ps.length

/-- `s'` comes from `s` by taking packets in and by dropping parity. -/
structure Grown (s s' : RunState) : Prop where
  striped : s'.striped = s.striped
  done : s'.done = s.done
  totalPackets : s'.totalPackets = s.totalPackets
  totalBytes : s'.totalBytes = s.totalBytes
  len : s.seen.len ≤ s'.seen.len
  parity : ∀ key p, s'.fec.parity.lookup key = some p → s.fec.parity.lookup key = some p
  length : s'.fec.parity.entries.length ≤ s.fec.parity.entries.length

namespace Grown

variable {groupSize : Nat} {ps : List (List UInt8)} {s t u : RunState}

theorem refl (s : RunState) : Grown s s :=
  ⟨rfl, rfl, rfl, rfl, Nat.le_refl _, fun _ _ h => h, Nat.le_refl _⟩

theorem trans (h : Grown s t) (h' : Grown t u) : Grown s u where
  striped := h'.striped.trans h.striped
  done := h'.done.trans h.done
  totalPackets := h'.totalPackets.trans h.totalPackets
  totalBytes := h'.totalBytes.trans h.totalBytes
  len := Nat.le_trans h.len h'.len
  parity := fun key p hp => h.parity key p (h'.parity key p hp)
  length := Nat.le_trans h'.length h.length

theorem ofRun (h : Grown s t) (hs : OfRun groupSize ps s) : OfRun groupSize ps t where
  striped := h.striped.trans hs.striped
  parity := fun key p hp => hs.parity key p (h.parity key p hp)
  total := fun hd => by
    rw [h.totalBytes]
    exact hs.total (h.done ▸ hd)

theorem complete (h : Grown s t) (hs : s.complete = true) : t.complete = true := by
  rw [RunSeqs.complete, Bool.and_eq_true, decide_eq_true_eq] at hs ⊢
  rw [h.done, h.totalPackets]
  exact ⟨hs.1, Nat.le_trans hs.2 h.len⟩

end Grown

theorem cleanup_looked (f : Fec) (seen : SeqSet) (start count : Nat) :
    Looked start f (f.cleanupFECGroupIfComplete seen start count) := by
  rw [Fec.cleanupFECGroupIfComplete]
  split
  · exact .kept
  split
  · exact .cleaned
  · exact .kept

/-- What counting a payload does: its own group changes, and its parity may go. -/
theorem storeFECPayload_frame (f : Fec) (seen : SeqSet) (groupSize seq : Nat) (payload : List UInt8) :
    (∀ key p, (f.storeFECPayload seen groupSize seq payload).parity.lookup key = some p →
      f.parity.lookup key = some p) ∧
    (f.storeFECPayload seen groupSize seq payload).parity.entries.length ≤ f.parity.entries.length ∧
    ∀ key, key ≠ seq / groupSize * groupSize →
      (f.storeFECPayload seen groupSize seq payload).groups.lookup key = f.groups.lookup key := by
  rw [Fec.storeFECPayload]
  split
  · exact ⟨fun _ _ h => h, Nat.le_refl _, fun _ _ => rfl⟩
  · have hlooked := cleanup_looked ⟨f.groups.insert (seq / groupSize * groupSize)
      (xorInto ((f.groups.lookup (seq / groupSize * groupSize)).getD []) payload), f.parity⟩ seen
      (seq / groupSize * groupSize) groupSize
    refine ⟨fun key p hp => (hlooked.parity hp).1, hlooked.length, fun key hkey => ?_⟩
    rw [(hlooked.other hkey).1]
    exact AList.lookup_insert_ne hkey

section TakeIn

variable {groupSize : Nat} {ps : List (List UInt8)} {s : RunState} {r : RecoveredPacket}

theorem takeIn_of_new (hnew : s.seen.has r.seq = false) :
    s.takeIn groupSize r = { s with
      seen := (s.seen.add r.seq).1
      maxSeqPlusOne := max s.maxSeqPlusOne (r.seq + 1)
      fec := s.fec.storeFECPayload (s.seen.add r.seq).1 groupSize r.seq r.payload } := by
  have hadd : (s.seen.add r.seq).2 = true := by
    rw [SeqSet.add_snd, hnew]
    rfl
  simp [RunState.takeIn, RunState.acceptData_new, hadd, RunState.storeFECPayload]

theorem takeIn_of_seen (hold : s.seen.has r.seq = true) : s.takeIn groupSize r = s := by
  rw [RunState.takeIn, RunState.acceptData_snd, hold]
  rfl

theorem Grown.takeIn (groupSize : Nat) (s : RunState) (r : RecoveredPacket) : Grown s (s.takeIn groupSize r) := by
  cases hr : s.seen.has r.seq with
  | true =>
      rw [takeIn_of_seen hr]
      exact .refl s
  | false =>
      rw [takeIn_of_new hr]
      obtain ⟨hparity, hlength, -⟩ := storeFECPayload_frame s.fec (s.seen.add r.seq).1 groupSize r.seq
        r.payload
      refine ⟨rfl, rfl, rfl, rfl, ?_, hparity, hlength⟩
      show s.seen.len ≤ (s.seen.add r.seq).1.len
      rw [SeqSet.len_add]
      exact Nat.le_add_right _ _

theorem Grown.takeInAll (groupSize : Nat) (rs : List RecoveredPacket) (s : RunState) :
    Grown s (rs.foldl (RunState.takeIn groupSize) s) := by
  induction rs generalizing s with
  | nil => exact .refl s
  | cons r rs ih => exact (Grown.takeIn groupSize s r).trans (ih _)

/-- A number outside of a range is not missing there. -/
theorem missingIn_add {seen : SeqSet} {m start count : Nat} (hm : m ∉ List.range' start count) :
    missingIn (seen.add m).1 start count = missingIn seen start count := by
  refine List.filter_congr fun i hi => ?_
  have hne : m ≠ i := fun h => hm (h ▸ hi)
  rw [SeqSet.has_add]
  simp [hne]

theorem group_of_mem {n start count m : Nat} (hg : GroupAt groupSize n start count)
    (hm : m ∈ List.range' start count) : m / groupSize * groupSize = start := by
  obtain ⟨hmod, -, hcount⟩ := hg
  rw [List.mem_range'_1] at hm
  have hdiv := Nat.div_add_mod start groupSize
  rw [hmod, Nat.add_zero] at hdiv
  have hq : m / groupSize = start / groupSize := by
    refine Nat.div_eq_of_lt_le ?_ ?_
    · rw [Nat.mul_comm]
      omega
    · rw [Nat.add_mul, Nat.one_mul, Nat.mul_comm]
      omega
  rw [hq, Nat.mul_comm, hdiv]

/-- Groups do not overlap, so a packet of a group whose parity is gone makes no other parity
packet worth anything. -/
theorem Settled.takeIn (h : Settled s) (hof : OfRun groupSize ps s) {key count : Nat}
    (hgroup : GroupAt groupSize ps.length key count) (hmem : r.seq ∈ List.range' key count)
    (hgone : s.fec.parity.lookup key = none) : Settled (s.takeIn groupSize r) := by
  cases hr : s.seen.has r.seq with
  | true =>
      rw [takeIn_of_seen hr]
      exact h
  | false =>
      intro k
      rw [takeIn_of_new hr, gainedAt]
      obtain ⟨hparity, -, hgroups⟩ := storeFECPayload_frame s.fec (s.seen.add r.seq).1 groupSize r.seq
        r.payload
      dsimp only
      split
      · rfl
      · rename_i p hp
        have hkept := hparity k p hp
        obtain ⟨hstart, hpgroup⟩ := hof.parity k p hkept
        have hne : k ≠ key := fun heq => by
          rw [heq, hgone] at hkept
          cases hkept
        have hout : r.seq ∉ List.range' k p.count := fun hin =>
          hne ((group_of_mem hpgroup hin).symm.trans (group_of_mem hgroup hmem))
        have hsame : gained s.totalBytes (s.seen.add r.seq).1 (s.fec.groups.lookup k) p =
            gained s.totalBytes s.seen (s.fec.groups.lookup k) p := by
          unfold gained
          rw [hstart, missingIn_add hout]
        rw [hgroups k (by rwa [group_of_mem hgroup hmem]), hsame, ← gainedAt_of_lookup hkept]
        exact h k

end TakeIn

/-! ## The loop of recovery -/

section Loop

variable {groupSize : Nat} {ps : List (List UInt8)} {s s' : RunState} {rs : List RecoveredPacket}
  {keys : List Nat}

theorem Round.grown {known : Nat} (h : Round known keys s s' rs) : Grown s s' := by
  obtain ⟨hrun, -, hparity, hlength, -, -, -, -⟩ := h
  refine ⟨?_, ?_, ?_, ?_, ?_, fun key p hp => (hparity key p hp).1, hlength⟩
  all_goals rw [hrun]

theorem Round.core {known : Nat} (h : Round known keys s s' rs) : Round known keys s.core s'.core rs where
  run := congrArg RunState.core h.run
  groups := h.groups
  parity := h.parity
  length := h.length
  used := h.used
  mem := h.mem
  exact := h.exact
  dropped := h.dropped

/-- After a round no parity packet is worth anything. -/
theorem Round.settled (h : Round s.totalBytes keys s s' rs) (hkeys : ∀ k ∈ s.fec.parity, k ∈ keys)
    (hpos : 0 < s.totalBytes ∨ ∀ k, s.fec.parity.lookup k = none) : Settled s' := by
  intro key
  rw [gainedAt, h.grown.totalBytes]
  split
  · rfl
  · rename_i p hp
    obtain ⟨hkept, hgroups⟩ := h.parity key p hp
    have hseen : s'.seen = s.seen := by rw [h.run]
    rw [hgroups, hseen, ← gainedAt_of_lookup hkept]
    rcases hpos with hpos | hnone
    · by_contra hne
      have hgone := h.dropped hpos key (hkeys key (AList.lookup_isSome.mp (by rw [hkept]; rfl))) hne
      rw [hp] at hgone
      cases hgone
    · rw [hnone] at hkept
      cases hkept

theorem OfRun.pos (h : OfRun groupSize ps s) (hpieces : ∀ p ∈ ps, p ≠ []) (hdone : s.done = true) :
    0 < s.totalBytes ∨ ∀ k, s.fec.parity.lookup k = none := by
  rcases Nat.eq_zero_or_pos ps.length with hzero | hlen
  · refine .inr fun k => ?_
    cases hk : s.fec.parity.lookup k with
    | none => rfl
    | some p =>
        have hlt := (h.parity k p hk).2.2.1
        omega
  · have hlt := offsetAt_lt hpieces hlen (Nat.le_refl _)
    rw [h.total hdone]
    exact .inl hlt

/-- A round of recovery. -/
theorem recoverFEC_round (h : OfRun groupSize ps s) {expectedBytes : Int} {order : List Nat → List Nat}
    (horder : ∀ keys, (order keys).Perm keys) (hr : s.recoverFEC expectedBytes order = .ok (s', rs)) :
    Round (s.knownTotalBytes expectedBytes) (order s.fec.parity.keys) s s' rs :=
  recoverFECKeys_spec ((horder _).nodup_iff.mpr s.fec.parity.nodupKeys)
    (fun k p hp => (h.parity k p hp).1) hr

variable {cfg : RecvConfig} {order : List Nat → List Nat}

/-- One round, and the rounds after it. -/
theorem recoverFECLoop_round (horder : ∀ keys, (order keys).Perm keys) {fuel : Nat} {v : Coord}
    (hof : OfRun groupSize ps v.run) {R : Coord → Prop}
    (hend : ∀ run, Round (v.run.knownTotalBytes cfg.expectedBytes) (order v.run.fec.parity.keys) v.run
      run [] → ∀ c : Coord, c.core = { v with run := run } → R c)
    (hmore : ∀ run rs, rs ≠ [] →
      Round (v.run.knownTotalBytes cfg.expectedBytes) (order v.run.fec.parity.keys) v.run run rs →
      Triple (fun c => c.core = { v with
          run := rs.foldl (RunState.takeIn cfg.fecGroupSize) run
          recovered := v.recovered ++ rs
          repairCompletes := v.repairCompletes +
            if (rs.foldl (RunState.takeIn cfg.fecGroupSize) run).complete then 1 else 0 })
        (recoverFECLoop cfg order fuel) (fun _ => R) fun _ _ => True) :
    Triple (fun c => c.core = v) (recoverFECLoop cfg order (fuel + 1)) (fun _ => R)
      fun _ _ => True := by
  refine Triple.read_bind fun c hc => ?_
  subst hc
  split
  · exact Triple.fail fun _ _ => trivial
  · rename_i run rs hr
    have hround := (recoverFEC_round (s := c.run) ⟨hof.striped, hof.parity, hof.total⟩ horder hr).core
    refine Triple.bind (Q := fun _ (d : Coord) =>
      d.core = { c.core with run := run.core, recovered := c.recovered ++ rs })
      (Triple.update fun d hd => ?_) fun _ => ?_
    · subst hd
      rfl
    · refine Triple.ite (fun hnil => ?_) fun hne => ?_
      · subst hnil
        refine Triple.pure fun d hd => hend run.core hround d ?_
        rw [hd, List.append_nil]
        rfl
      · refine Triple.bind (acceptRecovered_core rs _) fun _ => ?_
        refine Triple.bind (completeRun_core _) fun _ => ?_
        exact (hmore run.core rs hne hround).conseq (fun d hd => hd.2) (fun _ _ h => h)
          fun _ _ _ => trivial

/-- Where nothing is worth anything, recovery does nothing. -/
theorem recoverFECLoop_settled (hpieces : ∀ p ∈ ps, p ≠ []) (horder : ∀ keys, (order keys).Perm keys)
    (fuel : Nat) {v : Coord} (hof : OfRun groupSize ps v.run) (hdone : v.run.done = true)
    (hsettled : Settled v.run) :
    Triple (fun c => c.core = v) (recoverFECLoop cfg order fuel)
      (fun _ c => Grown v.run c.core.run ∧ Settled c.core.run ∧
        c.core.repairCompletes = v.repairCompletes) fun _ _ => True := by
  cases fuel with
  | zero =>
      refine Triple.pure fun c hc => ?_
      rw [hc]
      exact ⟨.refl _, hsettled, rfl⟩
  | succ fuel =>
      have hknown : v.run.knownTotalBytes cfg.expectedBytes = v.run.totalBytes := by
        rw [RunState.knownTotalBytes, if_pos hdone]
      have hpos := hof.pos hpieces hdone
      refine recoverFECLoop_round horder hof (fun run hround c hc => ?_) fun run rs hne hround => ?_
      · rw [hknown] at hround
        rw [hc]
        exact ⟨hround.grown, hround.settled (fun k hk => (horder _).mem_iff.mpr hk) hpos, rfl⟩
      · rw [hknown] at hround
        refine absurd ?_ hne
        rcases hpos with hpos | hnone
        · rw [hround.exact hpos, List.flatMap_eq_nil_iff]
          exact fun k _ => hsettled k
        · rw [List.eq_nil_iff_forall_not_mem]
          intro r hmem
          obtain ⟨k, p, hp, -⟩ := hround.mem r hmem
          rw [hnone k] at hp
          cases hp

/-- Recovery ends where nothing is worth anything.  Every round but the last uses up a parity
packet, so the number of these bounds the rounds. -/
theorem recoverFECLoop_settles (hpieces : ∀ p ∈ ps, p ≠ []) (horder : ∀ keys, (order keys).Perm keys)
    (fuel : Nat) {v : Coord} (hof : OfRun groupSize ps v.run)
    (hfuel : v.run.fec.parity.entries.length < fuel) :
    Triple (fun c => c.core = v) (recoverFECLoop cfg order fuel)
      (fun _ c => Grown v.run c.core.run ∧ (v.run.done = true → Settled c.core.run) ∧
        (c.core.repairCompletes = v.repairCompletes ∨ c.core.run.complete = true)) fun _ _ => True := by
  induction fuel generalizing v with
  | zero => omega
  | succ fuel ih =>
      refine recoverFECLoop_round horder hof (fun run hround c hc => ?_) fun run rs hne hround => ?_
      · rw [hc]
        refine ⟨hround.grown, fun hdone => ?_, .inl rfl⟩
        rw [RunState.knownTotalBytes, if_pos hdone] at hround
        exact hround.settled (fun k hk => (horder _).mem_iff.mpr hk) (hof.pos hpieces hdone)
      · have hgrown := hround.grown.trans (Grown.takeInAll cfg.fecGroupSize rs run)
        have hless : (rs.foldl (RunState.takeIn cfg.fecGroupSize) run).fec.parity.entries.length < fuel :=
          Nat.lt_of_le_of_lt (Grown.takeInAll cfg.fecGroupSize rs run).length
            (Nat.lt_of_lt_of_le (hround.used hne) (Nat.le_of_lt_succ hfuel))
        refine (ih (hgrown.ofRun hof) hless).conseq (fun _ h => h) (fun _ c h => ?_) fun _ _ h => h
        obtain ⟨hafter, hsettled, htold⟩ := h
        refine ⟨hgrown.trans hafter, fun hdone => hsettled (hgrown.done.trans hdone), ?_⟩
        rcases htold with htold | htold
        · cases hcomplete : (rs.foldl (RunState.takeIn cfg.fecGroupSize) run).complete with
          | true => exact .inr (hafter.complete hcomplete)
          | false =>
              rw [hcomplete] at htold
              exact .inl htold
        · exact .inr htold

end Loop

/-! ## A parity packet after the Done -/

theorem flatMap_of_single {α β : Type} {f : α → List β} {a : α} (hf : ∀ b, b ≠ a → f b = [])
    {l : List α} (hl : l.Nodup) : l.flatMap f = [] ∨ l.flatMap f = f a := by
  induction l with
  | nil => exact .inl rfl
  | cons b l ih =>
      obtain ⟨hb, hl⟩ := List.nodup_cons.mp hl
      rw [List.flatMap_cons]
      by_cases hba : b = a
      · have hrest : l.flatMap f = [] := List.flatMap_eq_nil_iff.mpr fun c hc =>
          hf c fun hca => hb (hba.trans hca.symm ▸ hc)
        rw [hrest, List.append_nil, hba]
        exact .inr rfl
      · rw [hf b hba, List.nil_append]
        exact ih hl

theorem eq_singleton_of_mem_gained {known : Nat} {seen : SeqSet} {group : Option (List UInt8)}
    {p : FecParity} {r : RecoveredPacket} (h : r ∈ gained known seen group p) :
    gained known seen group p = [r] ∧ missingIn seen p.startSeq p.count = [r.seq] ∧
      p.offset + (r.seq - p.startSeq) * p.payload.length < known := by
  unfold gained at h ⊢
  split at h
  · rename_i m b xor hmiss
    split at h
    · cases h
    · rename_i hend
      rw [if_neg hend]
      rw [List.mem_singleton] at h
      subst h
      exact ⟨rfl, hmiss, Nat.lt_of_not_le hend⟩
  · cases h

/-- A parity packet that can close the last gap of a run whose Done came before it: it is the
only packet that is missing, and it is one of the group. -/
def LastGap (cfg : RecvConfig) (s : RunState) (p : Packet) : Prop :=
  p.type = .parity ∧ 1 < cfg.fecGroupSize ∧ s.done = true ∧ s.totalPackets ≤ s.seen.len + 1 ∧
    ∃ m ∈ missingIn s.seen p.seq p.ackFloor, missingIn s.seen p.seq p.ackFloor = [m] ∧
      p.offset + (m - p.seq) * p.payload.length < s.totalBytes

instance (cfg : RecvConfig) (s : RunState) (p : Packet) : Decidable (LastGap cfg s p) :=
  inferInstanceAs (Decidable (_ ∧ _ ∧ _ ∧ _ ∧ _))

section Parity

variable {ps : List (List UInt8)} {cfg : RecvConfig} {order : List Nat → List Nat}

/-- Where only the parity packet under one key can be worth something, at most one packet comes
back, and that does not complete the run if two are missing. -/
theorem recoverFECLoop_one (hpieces : ∀ p ∈ ps, p ≠ []) (horder : ∀ keys, (order keys).Perm keys)
    (fuel : Nat) {v : Coord} (hof : OfRun cfg.fecGroupSize ps v.run) (hdone : v.run.done = true)
    (key : Nat) (hkey : ∀ k, k ≠ key → gainedAt v.run.totalBytes v.run k = [])
    (hgap : gainedAt v.run.totalBytes v.run key ≠ [] → v.run.seen.len + 1 < v.run.totalPackets) :
    Triple (fun c => c.core = v) (recoverFECLoop cfg order (fuel + 1))
      (fun _ c => Grown v.run c.core.run ∧ Settled c.core.run ∧
        c.core.repairCompletes = v.repairCompletes) fun _ _ => True := by
  have hknown : v.run.knownTotalBytes cfg.expectedBytes = v.run.totalBytes := by
    rw [RunState.knownTotalBytes, if_pos hdone]
  have hpos := hof.pos hpieces hdone
  refine recoverFECLoop_round horder hof (fun run hround c hc => ?_) fun run rs hne hround => ?_
  · rw [hknown] at hround
    rw [hc]
    exact ⟨hround.grown, hround.settled (fun k hk => (horder _).mem_iff.mpr hk) hpos, rfl⟩
  · rw [hknown] at hround
    have hsettled := hround.settled (fun k hk => (horder _).mem_iff.mpr hk) hpos
    obtain ⟨r, hr⟩ := List.exists_mem_of_ne_nil rs hne
    rcases hpos with hpos | hnone
    swap
    · obtain ⟨k, p, hp, -⟩ := hround.mem r hr
      rw [hnone k] at hp
      cases hp
    -- what came back is what the one parity packet is worth
    have hrs : rs = gainedAt v.run.totalBytes v.run key := by
      have hall := hround.exact hpos
      rcases flatMap_of_single hkey ((horder _).nodup_iff.mpr v.run.fec.parity.nodupKeys) with h | h
      · exact absurd (hall.trans h) hne
      · exact hall.trans h
    cases hp : v.run.fec.parity.lookup key with
    | none =>
        rw [hrs, gainedAt, hp] at hne
        exact absurd rfl hne
    | some p =>
        obtain ⟨hstart, hgroup⟩ := hof.parity key p hp
        rw [gainedAt_of_lookup hp] at hrs
        rw [hrs] at hr
        obtain ⟨hone, hmiss, -⟩ := eq_singleton_of_mem_gained hr
        rw [hstart] at hmiss
        have hmem : r.seq ∈ missingIn v.run.seen key p.count := by
          rw [hmiss]
          exact List.mem_singleton.mpr rfl
        obtain ⟨hin, hunseen⟩ := FecSpec.mem_missingIn.mp hmem
        have hsame : run.seen = v.run.seen := by rw [hround.run]
        have hworth : gainedAt v.run.totalBytes v.run key ≠ [] := by
          rw [gainedAt_of_lookup hp, hone]
          exact List.cons_ne_nil _ _
        have hgone := hround.dropped hpos key
          ((horder _).mem_iff.mpr (AList.lookup_isSome.mp (by rw [hp]; rfl))) hworth
        have hgrown := Grown.takeIn cfg.fecGroupSize run r
        have hof' := hround.grown.ofRun hof
        have hincomplete : (run.takeIn cfg.fecGroupSize r).complete = false := by
          have hlen : (run.takeIn cfg.fecGroupSize r).seen.len = v.run.seen.len + 1 := by
            rw [takeIn_of_new (hsame ▸ hunseen)]
            show (run.seen.add r.seq).1.len = _
            rw [SeqSet.len_add, SeqSet.add_snd, hsame, hunseen]
            rfl
          rw [RunSeqs.complete, hlen, hgrown.totalPackets, hround.grown.totalPackets]
          have hgap := hgap hworth
          simp [hgap]
        rw [hrs, hone, List.foldl_cons, List.foldl_nil, hincomplete]
        refine (recoverFECLoop_settled hpieces horder fuel (v := { v with
          run := run.takeIn cfg.fecGroupSize r
          recovered := v.recovered ++ [r]
          repairCompletes := v.repairCompletes + 0 }) (hgrown.ofRun hof')
          (hgrown.done.trans (hround.grown.done.trans hdone))
          (hsettled.takeIn hof' hgroup hin hgone)).conseq (fun _ h => h) (fun _ c h => ?_) fun _ _ h => h
        exact ⟨hround.grown.trans (hgrown.trans h.1), h.2.1, h.2.2⟩

/-- What storing a parity packet does. -/
theorem storeFECParity_frame (f : Fec) (seen : SeqSet) (start offset count : Nat) (payload : List UInt8) :
    (∀ key, key ≠ start →
      (f.storeFECParity seen start offset count payload).groups.lookup key = f.groups.lookup key ∧
      (f.storeFECParity seen start offset count payload).parity.lookup key = f.parity.lookup key) ∧
    (f.storeFECParity seen start offset count payload = f ∨
      ∀ p, (f.storeFECParity seen start offset count payload).parity.lookup start = some p →
        p = ⟨start, offset, count, payload⟩) := by
  rw [Fec.storeFECParity]
  split
  · exact ⟨fun _ _ => ⟨rfl, rfl⟩, .inl rfl⟩
  · have hlooked := cleanup_looked ⟨f.groups, f.parity.insert start ⟨start, offset, count, payload⟩⟩
      seen start count
    refine ⟨fun key hkey => ?_, .inr fun p hp => ?_⟩
    · rw [(hlooked.other hkey).1, (hlooked.other hkey).2]
      exact ⟨rfl, AList.lookup_insert_ne hkey⟩
    · have hkept := (hlooked.parity hp).1
      rw [AList.lookup_insert] at hkept
      exact (Option.some.inj hkept).symm

/-- Storing a parity packet makes nothing else worth anything. -/
theorem Settled.storeFECParity {s : RunState} (h : Settled s) {p : Packet} (key : Nat)
    (hne : gainedAt s.totalBytes (s.storeFECParity p.seq p.offset p.ackFloor p.payload) key ≠ []) :
    key = p.seq ∧ ∃ m ∈ missingIn s.seen p.seq p.ackFloor, missingIn s.seen p.seq p.ackFloor = [m] ∧
      p.offset + (m - p.seq) * p.payload.length < s.totalBytes := by
  obtain ⟨hother, hown⟩ := storeFECParity_frame s.fec s.seen p.seq p.offset p.ackFloor p.payload
  have hkey : key = p.seq := by
    by_contra hk
    refine hne (Eq.trans ?_ (h key))
    simp only [gainedAt, RunState.storeFECParity, hother key hk]
  refine ⟨hkey, ?_⟩
  subst hkey
  rcases hown with hsame | hown
  · have hs : s.storeFECParity p.seq p.offset p.ackFloor p.payload = s := by
      rw [RunState.storeFECParity, hsame]
    rw [hs] at hne
    exact absurd (h _) hne
  · cases hp : (s.storeFECParity p.seq p.offset p.ackFloor p.payload).fec.parity.lookup p.seq with
    | none =>
        rw [gainedAt, hp] at hne
        exact absurd rfl hne
    | some q =>
        rw [gainedAt_of_lookup hp] at hne
        obtain ⟨r, hr⟩ := List.exists_mem_of_ne_nil _ hne
        obtain ⟨-, hmiss, hend⟩ := eq_singleton_of_mem_gained hr
        rw [hown q hp] at hmiss hend
        refine ⟨r.seq, ?_, hmiss, hend⟩
        rw [show missingIn s.seen p.seq p.ackFloor = [r.seq] from hmiss]
        exact List.mem_singleton.mpr rfl

theorem OfRun.storeFECParity {groupSize start count : Nat} {s : RunState} (h : OfRun groupSize ps s)
    (hgroup : GroupAt groupSize ps.length start count) (offset : Nat) (payload : List UInt8) :
    OfRun groupSize ps (s.storeFECParity start offset count payload) where
  striped := h.striped
  parity := fun key p hp => by
    obtain ⟨hother, hown⟩ := storeFECParity_frame s.fec s.seen start offset count payload
    by_cases hkey : key = start
    · subst hkey
      rcases hown with hsame | hown
      · refine h.parity key p ?_
        rw [← hsame]
        exact hp
      · rw [hown p hp]
        exact ⟨rfl, hgroup⟩
    · refine h.parity key p ?_
      rw [← (hother key hkey).2]
      exact hp
  total := h.total

end Parity

/-! ## Calls and runs -/

/-- Between calls. -/
structure Between (cfg : RecvConfig) (groupSize : Nat) (ps : List (List UInt8)) (s : RunState) : Prop where
  ofRun : OfRun groupSize ps s
  settled : 1 < cfg.fecGroupSize → s.done = true → Settled s

section Calls

variable {groupSize chunk : Nat} {ps : List (List UInt8)} {cfg : RecvConfig} {order : List Nat → List Nat}

theorem recoverFEC_core (hpieces : ∀ p ∈ ps, p ≠ []) (horder : ∀ keys, (order keys).Perm keys) {v : Coord}
    (hof : OfRun groupSize ps v.run) :
    Triple (fun c => c.core = v) (recoverFEC cfg order)
      (fun _ c => Between cfg groupSize ps c.core.run ∧ c.core.run.done = v.run.done ∧
        (c.core.repairCompletes = v.repairCompletes ∨ c.core.run.complete = true))
      fun _ _ => True := by
  refine Triple.ite (fun hoff => ?_) fun hon => ?_
  · refine Triple.pure fun c hc => ?_
    rw [hc]
    exact ⟨⟨hof, fun h => by omega⟩, rfl, .inl rfl⟩
  · refine Triple.read_bind fun c hc => ?_
    have hfuel : v.run.fec.parity.entries.length < c.run.fec.parity.entries.length + 1 := by
      rw [← hc]
      exact Nat.lt_succ_self _
    refine (recoverFECLoop_settles hpieces horder _ hof hfuel).conseq (fun _ h => h ▸ hc) (fun _ c' h => ?_)
      fun _ _ h => h
    exact ⟨⟨h.1.ofRun hof, fun _ hd => h.2.1 (h.1.done ▸ hd)⟩, h.1.done, h.2.2⟩

/-- What is asked after recovery is answered for the whole call. -/
theorem recoverFEC_completeRun (hpieces : ∀ p ∈ ps, p ≠ []) (horder : ∀ keys, (order keys).Perm keys)
    {v : Coord} (hof : OfRun groupSize ps v.run) {k : Bool → Recv Bool}
    (hk : ∀ b w, (b = true ∨ w.repairCompletes = v.repairCompletes) → Between cfg groupSize ps w.run →
      Triple (fun c => c.core = w) (k b)
        (fun b c => Between cfg groupSize ps c.core.run ∧
          (c.core.repairCompletes = v.repairCompletes ∨ b = true)) fun _ _ => True) :
    Triple (fun c => c.core = v)
      (do
        recoverFEC cfg order
        let complete ← completeRun cfg
        k complete)
      (fun b c => Between cfg groupSize ps c.core.run ∧
        (c.core.repairCompletes = v.repairCompletes ∨ b = true)) fun _ _ => True := by
  refine Triple.bind (recoverFEC_core hpieces horder hof) fun _ => ?_
  refine Triple.of_eq fun c hc => ?_
  refine Triple.bind ((completeRun_core c.core).conseq (fun _ h => h ▸ rfl) (fun _ _ h => h)
    fun _ _ h => h) fun b => ?_
  refine Triple.of_eq fun d hd => (hk b d.core ?_ ?_).conseq (fun _ h => h ▸ rfl) (fun _ _ h => h)
    fun _ _ h => h
  · rw [hd.1, hd.2]
    rcases hc.2.2 with htold | htold
    · cases hcomplete : c.core.run.complete with
      | true => exact .inl rfl
      | false =>
          simp only [htold]
          exact .inr rfl
    · exact .inl htold
  · rw [hd.2]
    exact hc.1

/-- A call that tells the sender to stop returns `true` or an error, unless it closes the last
gap with a parity packet. -/
theorem receivePacket_told (hsize : cfg.fecGroupSize ≤ 1 ∨ cfg.fecGroupSize = groupSize)
    {sent : List Packet} (ht : Transcript chunk groupSize ps sent) {a : Arrival} (ha : a.packet ∈ sent)
    (horder : ∀ keys, (a.order keys).Perm keys) {v : Coord} (hv : Between cfg groupSize ps v.run)
    (hgap : ¬LastGap cfg v.run a.packet) :
    Triple (fun c => c.core = v) (receivePacket cfg a)
      (fun b c => Between cfg groupSize ps c.core.run ∧
        (c.core.repairCompletes = v.repairCompletes ∨ b = true)) fun _ _ => True := by
  have hpieces : ∀ p ∈ ps, p ≠ [] := fun p hp => (ht.pieces p hp).1
  have hquiet : Triple (fun c => c.core = v) (pure false : Recv Bool)
      (fun b c => Between cfg groupSize ps c.core.run ∧
        (c.core.repairCompletes = v.repairCompletes ∨ b = true)) fun _ _ => True := by
    refine Triple.pure fun c hc => ?_
    rw [hc]
    exact ⟨hv, .inl rfl⟩
  obtain ⟨hid, hhello⟩ := stripeID_of_transcript ht ha
  refine receivePacket_global (fun c hc => ?_) hid (Arrival.totalStripes_le hhello) ?_
  · have hstriped := hv.ofRun.striped
    rw [← hc] at hstriped
    exact hstriped
  rcases (ht.mem _).mp ha with ⟨i, hi, hp⟩ | ⟨start, count, hgroup, hp⟩ | hp
  · rw [hp]
    refine Triple.ite (fun _ => hquiet) fun _ => ?_
    refine Triple.read_bind fun c hc => ?_
    have hsame : (c.run.acceptData (dataPacket ps i).seq).2 =
        (v.run.acceptData (dataPacket ps i).seq).2 := by
      rw [RunState.acceptData_snd, RunState.acceptData_snd, ← hc]
      rfl
    refine Triple.ite (fun hnew => ?_) fun _ => ?_
    · refine (takeIn_core (k := fun _ => do
          recoverFEC cfg a.order
          let complete ← completeRun cfg
          let c ← read
          pure (complete || (decide (0 < cfg.expectedBytes) &&
            decide (cfg.expectedBytes ≤ c.bytesReceived) && c.run.done))) (hsame ▸ hnew)
        ?_).conseq (fun _ h => h ▸ hc) (fun _ _ h => h) fun _ _ h => h
      refine recoverFEC_completeRun hpieces horder ((Grown.takeIn _ _ _).ofRun hv.ofRun)
        fun b w hb hw => ?_
      refine Triple.read_bind fun d hd => Triple.pure fun d' hd' => ?_
      subst hd'
      rw [hd]
      refine ⟨hw, ?_⟩
      rcases hb with rfl | hb
      · exact .inr rfl
      · exact .inl hb
    · exact hquiet.conseq (fun _ h => h ▸ hc) (fun _ _ h => h) fun _ _ h => h
  · rw [hp]
    refine Triple.ite (fun _ => hquiet) fun hon => ?_
    have hsize := hsize.resolve_left hon
    refine Triple.bind (Q := fun _ (c : Coord) => c.core = { v with
      run := v.run.storeFECParity start (offsetAt ps start) count (parityBytes chunk ps start count) })
      (Triple.update fun c hc => ?_) fun _ => ?_
    · subst hc
      rfl
    have hof := hv.ofRun.storeFECParity hgroup (offsetAt ps start) (parityBytes chunk ps start count)
    cases hdone : v.run.done with
    | false =>
        -- the Done has not come, so the run is not complete
        refine Triple.bind (recoverFEC_core hpieces horder hof) fun _ => Triple.pure fun c hc => ?_
        obtain ⟨hbetween, hd, htold⟩ := hc
        refine ⟨hbetween, .inl (htold.resolve_right fun hcomplete => ?_)⟩
        rw [RunSeqs.complete, hd, show (v.run.storeFECParity _ _ _ _).done = v.run.done from rfl,
          hdone] at hcomplete
        cases hcomplete
    | true =>
        have hsettled := hv.settled (Nat.lt_of_not_le hon) hdone
        rw [hp] at hgap
        refine Triple.bind (Q := fun _ (c : Coord) => Between cfg groupSize ps c.core.run ∧
          c.core.repairCompletes = v.repairCompletes) ?_ fun _ =>
            Triple.pure fun c hc => ⟨hc.1, .inl hc.2⟩
        rw [recoverFEC, if_neg hon]
        refine Triple.read_bind fun c hc => ?_
        have hkeys := fun key hne => hsettled.storeFECParity (p := parityPacket chunk ps start count) key hne
        subst hsize
        refine (recoverFECLoop_one hpieces horder c.run.fec.parity.entries.length (v := { v with
          run := v.run.storeFECParity start (offsetAt ps start) count (parityBytes chunk ps start count) })
          hof hdone start (fun k hk => ?_) fun hworth => ?_).conseq
          (fun _ h => h ▸ hc) (fun _ d h => ?_) fun _ _ h => h
        · by_contra hne
          exact hk (hkeys k hne).1
        · have hclose := (hkeys start hworth).2
          by_contra hle
          exact hgap ⟨rfl, Nat.lt_of_not_le hon, hdone, Nat.le_of_not_lt hle, hclose⟩
        · exact ⟨⟨h.1.ofRun hof, fun _ _ => h.2.1⟩, h.2.2⟩
  · rw [hp]
    refine Triple.bind (Q := fun _ (c : Coord) => c.core = { v with
      run := v.run.markDoneWithTotalBytes ps.length (offsetAt ps ps.length) })
      (Triple.update fun c hc => ?_) fun _ => ?_
    · subst hc
      rfl
    have hof : OfRun groupSize ps (v.run.markDoneWithTotalBytes ps.length (offsetAt ps ps.length)) :=
      ⟨hv.ofRun.striped, hv.ofRun.parity, fun _ => rfl⟩
    rw [← bind_pure (completeRun cfg)]
    refine recoverFEC_completeRun (v := { v with
      run := v.run.markDoneWithTotalBytes ps.length (offsetAt ps ps.length) }) hpieces horder hof
      fun b w hb hw => Triple.pure fun d hd => ?_
    rw [hd]
    exact ⟨hw, hb.symm⟩

end Calls

/-- A call that returns; after an error the receiver stops. -/
def Coord.call (cfg : RecvConfig) (c : Coord) (a : Arrival) : Option Coord :=
  match exec (receivePacket cfg a) c with
  | (.ok _, t) => some t
  | (.error _, _) => none

theorem Coord.call_eq {cfg : RecvConfig} {c t : Coord} {a : Arrival} (h : c.call cfg a = some t) :
    ∃ b, exec (receivePacket cfg a) c = (.ok b, t) := by
  unfold Coord.call at h
  split at h
  · rename_i b u hr
    cases h
    exact ⟨b, hr⟩
  · cases h

/-- In every run whose parity packets never close the last gap after the Done, a call that
tells the sender to stop returns `true` or an error. -/
theorem told_when_complete {cfg : RecvConfig} {chunk groupSize : Nat} {ps : List (List UInt8)}
    {sent : List Packet} (ht : Transcript chunk groupSize ps sent)
    (hsize : cfg.fecGroupSize ≤ 1 ∨ cfg.fecGroupSize = groupSize) {as : List Arrival}
    (has : ∀ b ∈ as, b.packet ∈ sent ∧ ∀ keys, (b.order keys).Perm keys)
    (hmeet : StepsMeet (Coord.call cfg) (fun c b => ¬LastGap cfg c.run b.packet) Coord.empty as)
    {c : Coord} (hrun : runFrom (Coord.call cfg) Coord.empty as = some c) {a : Arrival}
    (ha : a.packet ∈ sent ∧ ∀ keys, (a.order keys).Perm keys) (hgap : ¬LastGap cfg c.run a.packet)
    (htold : c.repairCompletes < (exec (receivePacket cfg a) c).2.repairCompletes) :
    (exec (receivePacket cfg a) c).1 ≠ .ok false := by
  have hstep : ∀ (s : Coord) (b : Arrival) (t : Coord), Between cfg groupSize ps s.core.run →
      (¬LastGap cfg s.run b.packet ∧ b.packet ∈ sent ∧ ∀ keys, (b.order keys).Perm keys) →
      s.call cfg b = some t → Between cfg groupSize ps t.core.run := by
    intro s b t hs hb hcall
    obtain ⟨r, hr⟩ := Coord.call_eq hcall
    exact ((receivePacket_told hsize ht hb.2.1 hb.2.2 hs hb.1).ok rfl hr).1
  have hempty : Between cfg groupSize ps Coord.empty.core.run := by
    refine ⟨⟨rfl, fun key p hp => ?_, fun h => by cases h⟩, fun _ h => by cases h⟩
    rw [show Coord.empty.core.run.fec.parity = ∅ from rfl, AList.lookup_empty] at hp
    cases hp
  have hc := runFrom_invariant_of_meet hstep as hempty (hmeet.and_mem has) hrun
  intro hfalse
  have hcall : exec (receivePacket cfg a) c = (.ok false, (exec (receivePacket cfg a) c).2) :=
    Prod.ext hfalse rfl
  rcases ((receivePacket_told hsize ht ha.1 ha.2 hc hgap).ok rfl hcall).2 with hquiet | hquiet
  · have hsame : (exec (receivePacket cfg a) c).2.repairCompletes = c.repairCompletes := hquiet
    omega
  · cases hquiet

/-- Two packets of one byte and their parity. -/
def gapPackets : List Packet :=
  [dataPacket [[1], [2]] 0, dataPacket [[1], [2]] 1, parityPacket 1 [[1], [2]] 0 2, donePacket [[1], [2]]]

theorem gapPackets_transcript : Transcript 1 2 [[1], [2]] gapPackets where
  pieces := by decide
  mem := fun q => by
    have hgroup : ∀ start count, GroupAt 2 2 start count ↔ start = 0 ∧ count = 2 := by
      intro start count
      rw [GroupAt]
      omega
    have hlt : ∀ i, i < 2 ↔ i = 0 ∨ i = 1 := by omega
    simp only [gapPackets, List.mem_cons, List.not_mem_nil, or_false, List.length_cons,
      List.length_nil, Nat.zero_add, Nat.reduceAdd, hgroup, hlt]
    constructor
    · rintro (rfl | rfl | rfl | rfl)
      · exact .inl ⟨0, .inl rfl, rfl⟩
      · exact .inl ⟨1, .inr rfl, rfl⟩
      · exact .inr (.inl ⟨0, 2, ⟨rfl, rfl⟩, rfl⟩)
      · exact .inr (.inr rfl)
    · rintro (⟨i, rfl | rfl, rfl⟩ | ⟨start, count, ⟨rfl, rfl⟩, rfl⟩ | rfl)
      · exact .inl rfl
      · exact .inr (.inl rfl)
      · exact .inr (.inr (.inl rfl))
      · exact .inr (.inr (.inr rfl))

def gapReceiver : RecvConfig := ⟨false, 0, 2, false⟩

/-- The second packet is lost and the parity comes after the Done: the sender is told to stop, and
the call returns `false`. -/
theorem told_without_completion :
    ∃ (sent : List Packet) (cfg : RecvConfig) (as : List Arrival) (a : Arrival) (c : Coord),
      Transcript 1 cfg.fecGroupSize [[1], [2]] sent ∧
      (∀ b ∈ as ++ [a], b.packet ∈ sent ∧ ∀ keys, (b.order keys).Perm keys) ∧
      runFrom (Coord.call cfg) Coord.empty as = some c ∧
      c.repairCompletes < (exec (receivePacket cfg a) c).2.repairCompletes ∧
      (exec (receivePacket cfg a) c).1 = .ok false := by
  have h : (runFrom (Coord.call gapReceiver) Coord.empty
      [⟨0, dataPacket [[1], [2]] 0, id⟩, ⟨0, donePacket [[1], [2]], id⟩]).any (fun c =>
        decide (c.repairCompletes < (exec (receivePacket gapReceiver
            ⟨0, parityPacket 1 [[1], [2]] 0 2, id⟩) c).2.repairCompletes ∧
          (exec (receivePacket gapReceiver ⟨0, parityPacket 1 [[1], [2]] 0 2, id⟩) c).1 =
            .ok false)) = true := by
    decide +kernel
  obtain ⟨c, hrun, hc⟩ := (Option.any_eq_true ..).mp h
  obtain ⟨htold, hfalse⟩ := of_decide_eq_true hc
  refine ⟨gapPackets, gapReceiver, _, _, c, gapPackets_transcript, ?_, hrun, htold, hfalse⟩
  intro b hb
  simp only [List.cons_append, List.nil_append, List.mem_cons, List.not_mem_nil, or_false] at hb
  rcases hb with rfl | rfl | rfl
  · exact ⟨by simp [gapPackets], fun _ => .refl _⟩
  · exact ⟨by simp [gapPackets], fun _ => .refl _⟩
  · exact ⟨by simp [gapPackets], fun _ => .refl _⟩

/-- The parity comes before the Done. -/
theorem told_when_complete_parity_first :
    ∃ c, runFrom (Coord.call gapReceiver) Coord.empty
        [⟨0, dataPacket [[1], [2]] 0, id⟩, ⟨0, parityPacket 1 [[1], [2]] 0 2, id⟩] = some c ∧
      c.repairCompletes <
        (exec (receivePacket gapReceiver ⟨0, donePacket [[1], [2]], id⟩) c).2.repairCompletes ∧
      (exec (receivePacket gapReceiver ⟨0, donePacket [[1], [2]], id⟩) c).1 ≠ .ok false := by
  have h : (runFrom (Coord.call gapReceiver) Coord.empty
      [⟨0, dataPacket [[1], [2]] 0, id⟩, ⟨0, parityPacket 1 [[1], [2]] 0 2, id⟩]).any (fun c =>
        decide (¬LastGap gapReceiver c.run (donePacket [[1], [2]]) ∧ c.repairCompletes <
          (exec (receivePacket gapReceiver ⟨0, donePacket [[1], [2]], id⟩) c).2.repairCompletes)) =
        true := by
    decide +kernel
  obtain ⟨c, hrun, hc⟩ := (Option.any_eq_true ..).mp h
  obtain ⟨hgap, htold⟩ := of_decide_eq_true hc
  refine ⟨c, hrun, htold, told_when_complete gapPackets_transcript (.inr rfl) (fun b hb => ?_)
    (by decide +kernel) hrun ⟨by simp [gapPackets], fun _ => .refl _⟩ hgap htold⟩
  simp only [List.mem_cons, List.not_mem_nil, or_false] at hb
  rcases hb with rfl | rfl
  · exact ⟨by simp [gapPackets], fun _ => .refl _⟩
  · exact ⟨by simp [gapPackets], fun _ => .refl _⟩

end Probe
