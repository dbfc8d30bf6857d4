import Derphole.Lib.Pieces
import Derphole.Probe.SendBlast
import Mathlib.Data.List.Nodup

/-!
# What a blast sends

`sendBlast` cuts every read by itself, so the packets of a blast are the pieces of
its reads (`cut`).  `Transcript` lists what is sent for some pieces: a data packet
for each, a parity packet for each group of `groupSize` consecutive ones and for
the rest, and the final Done.  Every run of `sendBlast` that reads its source to
the end has the transcript of its reads (`blast_transcript`).
-/

namespace Probe

open Lib

/-- The pieces of one read. -/
def cut (chunk : Nat) (bytes : List UInt8) : List (List UInt8) :=
  if bytes = [] ∨ chunk = 0 then [] else bytes.take chunk :: cut chunk (bytes.drop chunk)
termination_by bytes.length
decreasing_by
  rename_i h
  have hpos : 0 < bytes.length := List.length_pos_iff.mpr fun hb => h (.inl hb)
  rw [List.length_drop]
  omega

theorem cut_nil (chunk : Nat) : cut chunk [] = [] := by
  rw [cut, if_pos (.inl rfl)]

theorem cut_of_ne {chunk : Nat} {bytes : List UInt8} (hc : 0 < chunk) (hb : bytes ≠ []) :
    cut chunk bytes = bytes.take chunk :: cut chunk (bytes.drop chunk) := by
  rw [cut, if_neg]
  rintro (h | h)
  · exact hb h
  · omega

/-! ## The packets for some pieces -/

/-- A byte of a piece, or zero past its end. -/
def pieceByte (ps : List (List UInt8)) (k i : Nat) : UInt8 := (ps.getD i []).getD k 0

def dataPacket (ps : List (List UInt8)) (i : Nat) : Packet :=
  ⟨.data, 0, i, offsetAt ps i, 0, 0, ps.getD i []⟩

/-- The exclusive-or of the pieces of a group, each padded to a chunk. -/
def parityBytes (chunk : Nat) (ps : List (List UInt8)) (start count : Nat) : List UInt8 :=
  (List.range chunk).map fun k => xorSum (pieceByte ps k) (List.range' start count)

def parityPacket (chunk : Nat) (ps : List (List UInt8)) (start count : Nat) : Packet :=
  ⟨.parity, 0, start, offsetAt ps start, count, 0, parityBytes chunk ps start count⟩

def donePacket (ps : List (List UInt8)) : Packet :=
  ⟨.done, 0, ps.length, offsetAt ps ps.length, 0, 0, []⟩

/-- `start` begins a group of `n` packets, which has `count` of them. -/
def GroupAt (groupSize n start count : Nat) : Prop :=
  start % groupSize = 0 ∧ start < n ∧ count = min groupSize (n - start)

structure Transcript (chunk groupSize : Nat) (ps : List (List UInt8)) (sent : List Packet) : Prop where
  pieces : ∀ p ∈ ps, p ≠ [] ∧ p.length ≤ chunk
  mem : ∀ q, q ∈ sent ↔ (∃ i < ps.length, q = dataPacket ps i) ∨
    (∃ start count, GroupAt groupSize ps.length start count ∧
      q = parityPacket chunk ps start count) ∨ q = donePacket ps

theorem dataPacket_append {ps : List (List UInt8)} (qs : List (List UInt8)) {i : Nat}
    (hi : i < ps.length) : dataPacket (ps ++ qs) i = dataPacket ps i := by
  rw [dataPacket, dataPacket, offsetAt_append qs (Nat.le_of_lt hi), getD_append_of_lt qs hi]

theorem parityBytes_append {chunk : Nat} {ps : List (List UInt8)} (qs : List (List UInt8))
    {start count : Nat} (h : start + count ≤ ps.length) :
    parityBytes chunk (ps ++ qs) start count = parityBytes chunk ps start count := by
  refine List.map_congr_left fun k _ => xorSum_congr fun i hi => ?_
  have hlt := List.mem_range'_1.mp hi
  rw [pieceByte, pieceByte, getD_append_of_lt qs (by omega)]

theorem parityPacket_append {chunk : Nat} {ps : List (List UInt8)} (qs : List (List UInt8))
    {start count : Nat} (h : start + count ≤ ps.length) :
    parityPacket chunk (ps ++ qs) start count = parityPacket chunk ps start count := by
  rw [parityPacket, parityPacket, offsetAt_append qs (by omega), parityBytes_append qs h]

theorem length_parityBytes (chunk : Nat) (ps : List (List UInt8)) (start count : Nat) :
    (parityBytes chunk ps start count).length = chunk := by
  rw [parityBytes, List.length_map, List.length_range]

theorem getD_parityBytes {chunk : Nat} (ps : List (List UInt8)) (start count : Nat) {k : Nat}
    (hk : k < chunk) :
    (parityBytes chunk ps start count).getD k 0 =
      xorSum (pieceByte ps k) (List.range' start count) := by
  rw [parityBytes, List.getD_eq_getElem _ _ (by simpa using hk), List.getElem_map,
    List.getElem_range]

/-- The parity of a group takes its next piece. -/
theorem xorInto_parityBytes {chunk : Nat} (ps : List (List UInt8)) {p : List UInt8} {start count : Nat}
    (hp : p.length ≤ chunk) (h : start + count = ps.length) :
    xorInto (parityBytes chunk ps start count) p =
      parityBytes chunk (ps ++ [p]) start (count + 1) := by
  have hlen : (xorInto (parityBytes chunk ps start count) p).length = chunk := by
    rw [length_xorInto, length_parityBytes]
    omega
  refine ext_getD (by rw [hlen, length_parityBytes]) fun k hk => ?_
  rw [hlen] at hk
  have hold : xorSum (pieceByte (ps ++ [p]) k) (List.range' start count) =
      xorSum (pieceByte ps k) (List.range' start count) := by
    refine xorSum_congr fun i hi => ?_
    have hlt := List.mem_range'_1.mp hi
    rw [pieceByte, pieceByte, getD_append_of_lt [p] (by omega)]
  have hnew : pieceByte (ps ++ [p]) k (start + count) = p.getD k 0 := by
    rw [pieceByte, h, List.getD_append_right _ _ _ _ (Nat.le_refl _), Nat.sub_self]
    rfl
  rw [getD_xorInto, getD_parityBytes ps start count hk, getD_parityBytes _ start _ hk,
    List.range'_concat, xorSum_append, hold, Nat.one_mul, xorSum_cons, hnew]
  exact congrArg _ UInt8.xor_zero.symm

/-! ## The group of a sender -/

/-- The group has taken the last `count` of the packets `ps`. -/
structure GroupInv (cfg : SendConfig) (ps : List (List UInt8)) (count : Nat) (g : FecGroup) :
    Prop where
  stripeID : g.stripeID = 0
  groupSize : g.groupSize = cfg.fecGroupSize
  aead : g.aead = cfg.aead
  count_eq : g.count = count
  count_le : count ≤ ps.length
  seen : g.seenPacket = decide (0 < count)
  start : 0 < count → g.startSeq = ps.length - count ∧ g.startOff = offsetAt ps (ps.length - count)
  parity : g.parity = parityBytes cfg.chunk ps (ps.length - count) count

namespace GroupInv

variable {cfg : SendConfig} {ps : List (List UInt8)} {count : Nat} {g : FecGroup} {p : List UInt8}

theorem parityBytes_zero (chunk : Nat) (ps : List (List UInt8)) (start : Nat) :
    parityBytes chunk ps start 0 = List.replicate chunk 0 := by
  refine List.eq_replicate_of_mem ?_ |>.trans (by rw [length_parityBytes])
  intro b hb
  obtain ⟨k, -, rfl⟩ := List.mem_map.mp hb
  rfl

theorem new (hg : 1 < cfg.fecGroupSize) :
    ∃ g, FecGroup.new 0 cfg.chunk cfg.fecGroupSize cfg.aead = some g ∧ GroupInv cfg [] 0 g := by
  have hc := cfg.chunk_pos
  rw [FecGroup.new, if_neg (by omega)]
  refine ⟨_, rfl, rfl, rfl, rfl, rfl, Nat.le_refl _, rfl, fun h => absurd h (Nat.lt_irrefl 0), ?_⟩
  exact (parityBytes_zero _ _ _).symm

/-- The group takes the next packet. -/
theorem add (h : GroupInv cfg ps count g) (hp : p.length ≤ cfg.chunk) :
    GroupInv cfg (ps ++ [p]) (count + 1) (g.add ps.length (offsetAt ps ps.length) p) := by
  have hle := h.count_le
  have hlen : (ps ++ [p]).length - (count + 1) = ps.length - count := by
    rw [List.length_append, List.length_singleton]
    omega
  have hstart : (g.add ps.length (offsetAt ps ps.length) p).startSeq = ps.length - count ∧
      (g.add ps.length (offsetAt ps ps.length) p).startOff = offsetAt ps (ps.length - count) := by
    rw [FecGroup.add, h.seen]
    rcases Nat.eq_zero_or_pos count with rfl | hpos
    · simp
    · simpa [hpos] using h.start hpos
  refine ⟨h.stripeID, h.groupSize, h.aead, congrArg (· + 1) h.count_eq, ?_, ?_, fun _ => ?_, ?_⟩
  · rw [List.length_append, List.length_singleton]
    omega
  · exact (decide_eq_true (Nat.succ_pos count)).symm
  · rw [hlen, offsetAt_append [p] (by omega)]
    exact hstart
  · show xorInto g.parity p = _
    rw [h.parity, hlen]
    exact xorInto_parityBytes ps hp (by omega)

/-- The parity of a group whose packets were sealed can be sealed, and the group
starts over. -/
theorem flush (h : GroupInv cfg ps count g) (hcount : 0 < count)
    (hnonce : cfg.aead.isSome = true → ps.length ≤ packetAEADNonceSeqs) :
    GroupInv cfg ps 0 g.flush.1 ∧
      g.flush.2 = some (parityPacket cfg.chunk ps (ps.length - count) count) := by
  have hle := h.count_le
  obtain ⟨hseq, hoff⟩ := h.start hcount
  have hok : ¬(g.aead.isSome = true ∧ packetAEADNonceSeqs ≤ g.startSeq) := by
    rintro ⟨ha, hs⟩
    rw [h.aead] at ha
    have := hnonce ha
    omega
  refine ⟨⟨h.stripeID, h.groupSize, h.aead, rfl, Nat.zero_le _, rfl,
    fun h0 => absurd h0 (Nat.lt_irrefl 0), ?_⟩, ?_⟩
  · show List.replicate g.parity.length 0 = _
    rw [h.parity, length_parityBytes, parityBytes_zero]
  · show (marshalPayloadPacket .parity g.stripeID g.startSeq g.startOff g.count g.parity
      g.aead).toOption = _
    rw [marshalPayloadPacket, if_neg hok, h.stripeID, hseq, hoff, h.parity, h.count_eq]
    rfl

theorem succ_mod {n m : Nat} (hm : 0 < m) :
    (n + 1) % m = if n % m + 1 = m then 0 else n % m + 1 := by
  have hlt := Nat.mod_lt n hm
  rw [Nat.add_mod]
  split
  · rename_i h
    rcases Nat.lt_or_ge 1 m with h1 | h1
    · rw [Nat.mod_eq_of_lt h1, h, Nat.mod_self]
    · have : m = 1 := by omega
      rw [this, Nat.mod_one]
  · have h1 : 1 < m := by omega
    rw [Nat.mod_eq_of_lt h1, Nat.mod_eq_of_lt (by omega)]

/-- `blastFECGroup.Record` on the next packet: the last one of a group is followed by
its parity. -/
theorem record (hg : 1 < cfg.fecGroupSize)
    (h : GroupInv cfg ps (ps.length % cfg.fecGroupSize) g) (hp : p ≠ [])
    (hlen : p.length ≤ cfg.chunk)
    (hnonce : cfg.aead.isSome = true → ps.length + 1 ≤ packetAEADNonceSeqs) :
    ∃ g', FecGroup.record (some g) ps.length (offsetAt ps ps.length) p =
        (some g', if (ps.length + 1) % cfg.fecGroupSize = 0 then
          some (parityPacket cfg.chunk (ps ++ [p]) (ps.length + 1 - cfg.fecGroupSize)
            cfg.fecGroupSize) else none) ∧
      GroupInv cfg (ps ++ [p]) ((ps ++ [p]).length % cfg.fecGroupSize) g' := by
  have hlt := Nat.mod_lt ps.length (by omega : 0 < cfg.fecGroupSize)
  have hadd := h.add hlen
  have hl : (ps ++ [p]).length = ps.length + 1 := by simp
  have hnext := @succ_mod ps.length cfg.fecGroupSize (by omega)
  rw [FecGroup.record]
  simp only [if_neg hp]
  rw [hl]
  by_cases hfull : ps.length % cfg.fecGroupSize + 1 = cfg.fecGroupSize
  · rw [if_pos hfull] at hnext
    obtain ⟨hinv, hwire⟩ := hadd.flush (Nat.succ_pos _) (by rw [hl]; exact hnonce)
    have hcount : ¬(g.add ps.length (offsetAt ps ps.length) p).count <
        (g.add ps.length (offsetAt ps ps.length) p).groupSize := by
      rw [hadd.count_eq, hadd.groupSize]
      omega
    refine ⟨(g.add ps.length (offsetAt ps ps.length) p).flush.1, ?_, ?_⟩
    · rw [if_neg hcount, if_pos hnext, ← hl]
      rw [hfull] at hwire
      rw [hwire]
    · rw [hnext]
      exact hinv
  · rw [if_neg hfull] at hnext
    have hcount : (g.add ps.length (offsetAt ps ps.length) p).count <
        (g.add ps.length (offsetAt ps ps.length) p).groupSize := by
      rw [hadd.count_eq, hadd.groupSize]
      omega
    refine ⟨g.add ps.length (offsetAt ps ps.length) p, ?_, ?_⟩
    · rw [if_pos hcount, if_neg (by omega)]
    · rw [hnext]
      exact hadd

/-- `blastFECGroup.Flush` at the end. -/
theorem finish (h : GroupInv cfg ps count g)
    (hnonce : cfg.aead.isSome = true → ps.length ≤ packetAEADNonceSeqs) :
    (FecGroup.finish (some g)).2 =
      if count = 0 then none else some (parityPacket cfg.chunk ps (ps.length - count) count) := by
  rw [FecGroup.finish]
  rcases Nat.eq_zero_or_pos count with rfl | hpos
  · rw [if_pos (.inr h.count_eq), if_pos rfl]
  · have hne : ¬(g.seenPacket = false ∨ g.count = 0) := by
      rw [h.seen, h.count_eq]
      simp [hpos, Nat.ne_of_gt hpos]
    rw [if_neg hne, if_neg (Nat.ne_of_gt hpos)]
    exact (h.flush hpos hnonce).2

end GroupInv

/-! ## Data packets -/

/-- A packet in a window was sealed like the others. -/
theorem ReplayWindow.addPacket_nonce {w w' : ReplayWindow} {type : PacketType}
    {stripeID seq offset : Nat} {payload : List UInt8} {wire : Packet}
    (h : w.addPacket type stripeID seq offset payload = .ok (w', wire)) :
    ¬(w.aead.isSome = true ∧ packetAEADNonceSeqs ≤ seq) := by
  intro hn
  rw [addPacket] at h
  split at h
  · cases h
  split at h
  · cases h
  split at h
  · cases h
  split at h
  · cases h
  rw [marshalPayloadPacket, if_pos hn] at h
  cases h

/-- What `sendBlast` sends for a payload, however it records it. -/
theorem RepairHistory.sendBlastDataPacket_ok {cfg : SendConfig} {h h' : RepairHistory}
    {seq offset : Nat} {payload : List UInt8} {wire : Packet}
    (haead : ∀ w, h.streamReplay = some w → w.aead = cfg.aead)
    (hok : h.sendBlastDataPacket cfg seq offset payload = .ok (h', wire)) :
    wire = ⟨.data, 0, seq, offset, 0, 0, payload⟩ ∧
      (cfg.aead.isSome = true → seq < packetAEADNonceSeqs) ∧
      ∀ w, h'.streamReplay = some w → w.aead = cfg.aead := by
  have hreplay : ∀ w, h.streamReplay = some w →
      h.addReplayPacket w 0 seq offset payload = .ok (h', wire) →
      wire = ⟨.data, 0, seq, offset, 0, 0, payload⟩ ∧
        (cfg.aead.isSome = true → seq < packetAEADNonceSeqs) ∧
        ∀ w, h'.streamReplay = some w → w.aead = cfg.aead := by
    intro w hw hadd
    rw [addReplayPacket] at hadd
    split at hadd
    · cases hadd
    · rename_i w' wire' hok'
      cases hadd
      obtain ⟨hwire, -, hw'⟩ := ReplayWindow.addPacket_ok hok'
      have hnonce := ReplayWindow.addPacket_nonce hok'
      rw [haead w hw] at hnonce
      refine ⟨hwire, fun ha => ?_, fun v hv => ?_⟩
      · exact Nat.lt_of_not_le fun hn => hnonce ⟨ha, hn⟩
      · cases hv
        rw [hw']
        exact haead w hw
  rw [sendBlastDataPacket] at hok
  split at hok
  · rename_i ha
    cases hw : h.streamReplay with
    | some w =>
        simp only [hw] at hok
        exact hreplay w hw hok
    | none =>
        simp only [hw, recordSealed, bind, Except.bind] at hok
        split at hok
        · cases hok
        rename_i hr
        rw [marshalPayloadPacket] at hok
        split at hok
        · cases hok
        rename_i hm
        split at hm
        · cases hm
        rename_i hnonce
        cases hm
        cases hok
        refine ⟨rfl, fun ha => Nat.lt_of_not_le fun hn => hnonce ⟨ha, hn⟩, fun w hv => ?_⟩
        rw [streamReplay_record hr, hw] at hv
        cases hv
  rename_i ha
  split at hok
  · cases hw : h.streamReplay with
    | some w =>
        simp only [hw] at hok
        exact hreplay w hw hok
    | none =>
        simp only [hw] at hok
        rw [packetBufferForStripe] at hok
        split at hok
        · cases hok
        split at hok
        · cases hok
        split at hok
        · cases hok
        split at hok
        · cases hok
        cases hok
        refine ⟨rfl, fun ha' => absurd ha' ha, fun w hv => ?_⟩
        rw [hw] at hv
        cases hv
  · simp only [recordPlain, bind, Except.bind] at hok
    split at hok
    · cases hok
    rename_i hr
    cases hok
    refine ⟨rfl, fun ha' => absurd ha' ha, fun w hv => ?_⟩
    rw [streamReplay_record hr] at hv
    exact haead w hv

/-! ## Runs -/

/-- A step that sends nothing and reads nothing. -/
structure Quiet (σ τ : BlastState) : Prop where
  phase : τ.phase = .sending ↔ σ.phase = .sending
  same : (τ.seq, τ.offset, τ.remaining, τ.fec, τ.reads, τ.sent) =
    (σ.seq, σ.offset, σ.remaining, σ.fec, σ.reads, σ.sent)
  aead : ∀ w, τ.history.streamReplay = some w → ∃ v, σ.history.streamReplay = some v ∧
    w.aead = v.aead

/-- Every step reads, sends, ends the source or is quiet. -/
theorem Quiet.of_step {cfg : SendConfig} {σ τ : BlastState} {l : BlastLabel}
    (hs : σ.step cfg l = some τ) :
    (∃ bytes, l = .read bytes) ∨ l = .packet ∨ l = .eof ∨ Quiet σ τ := by
  cases l with
  | read bytes => exact .inl ⟨bytes, rfl⟩
  | packet => exact .inr (.inl rfl)
  | eof => exact .inr (.inr (.inl rfl))
  | arrive event =>
      rw [BlastState.step, BlastState.arrive] at hs
      split at hs
      · cases hs
        exact .inr (.inr (.inr ⟨Iff.rfl, rfl, fun w hw => ⟨w, hw, rfl⟩⟩))
      · cases hs
  | drain =>
      rw [BlastState.step, BlastState.drain] at hs
      split at hs
      · dsimp only at hs
        split at hs
        · rename_i hl
          cases hs
          refine .inr (.inr (.inr ⟨⟨fun hp => (by cases hp), fun hp => ?_⟩, rfl,
            fun w hw => ⟨w, hw, rfl⟩⟩))
          rw [hl.1] at hp
          cases hp
        · cases hs
          refine .inr (.inr (.inr ⟨Iff.rfl, rfl, fun w hw => ?_⟩))
          obtain ⟨v, hv, rfl⟩ := Option.map_eq_some_iff.mp hw
          exact ⟨v, hv, (v.maxBytes_advanceAck _).2⟩
      · cases hs
  | service events =>
      rw [BlastState.step, BlastState.service] at hs
      split at hs
      · cases hs
        exact .inr (.inr (.inr ⟨Iff.rfl, rfl, fun w hw => ⟨w, hw, rfl⟩⟩))
      · cases hs
  | serve =>
      rw [BlastState.step, BlastState.serve] at hs
      split at hs
      · rename_i hl
        cases hs
        refine .inr (.inr (.inr ⟨⟨fun hp => (by cases hp), fun hp => ?_⟩, rfl,
          fun w hw => ⟨w, hw, rfl⟩⟩))
        rw [hl] at hp
        cases hp
      · cases hs
  | serveRead events =>
      rw [BlastState.step, BlastState.serveRead] at hs
      split at hs
      · rename_i hl
        cases hs
        refine .inr (.inr (.inr ⟨⟨fun hp => ?_, fun hp => ?_⟩, rfl, fun w hw => ⟨w, hw, rfl⟩⟩))
        · have hp' : (if ControlEvent.repairComplete ∈ events then BlastPhase.returned
              else BlastPhase.serving) = .sending := hp
          split at hp' <;> cases hp'
        · rw [hl.1] at hp
          cases hp
      · cases hs

/-- The window of a new history seals as the sender does. -/
theorem SendConfig.aead_of_history (cfg : SendConfig) {w : ReplayWindow}
    (hw : cfg.history.streamReplay = some w) : w.aead = cfg.aead := by
  have hw' : (if cfg.streamReplayEnabled then
      some (ReplayWindow.new cfg.chunk cfg.replayBytes cfg.aead) else none) = some w := hw
  split at hw'
  · cases hw'
    rfl
  · cases hw'

/-- The packets `ps` are sent, and the rest of the last read is not. -/
structure BlastSent (cfg : SendConfig) (ps : List (List UInt8)) (σ : BlastState) : Prop where
  pieces : ∀ p ∈ ps, p ≠ [] ∧ p.length ≤ cfg.chunk
  reads : σ.reads.flatMap (cut cfg.chunk) = ps ++ cut cfg.chunk σ.remaining
  seq : σ.seq = ps.length
  offset : σ.offset = offsetAt ps ps.length
  aead : ∀ w, σ.history.streamReplay = some w → w.aead = cfg.aead
  nonce : cfg.aead.isSome = true → ps.length ≤ packetAEADNonceSeqs

/-- While the source lasts, every full group was followed by its parity. -/
structure BlastSending (cfg : SendConfig) (ps : List (List UInt8)) (σ : BlastState) : Prop where
  phase : σ.phase = .sending
  group : ∃ g, σ.fec = some g ∧ GroupInv cfg ps (ps.length % cfg.fecGroupSize) g
  mem : ∀ q, q ∈ σ.sent ↔ (∃ i < ps.length, q = dataPacket ps i) ∨
    ∃ start, start % cfg.fecGroupSize = 0 ∧ start + cfg.fecGroupSize ≤ ps.length ∧
      q = parityPacket cfg.chunk ps start cfg.fecGroupSize

structure BlastEnded (cfg : SendConfig) (ps : List (List UInt8)) (σ : BlastState) : Prop where
  phase : σ.phase ≠ .sending
  remaining : σ.remaining = []
  transcript : Transcript cfg.chunk cfg.fecGroupSize ps σ.sent

def BlastPackets (cfg : SendConfig) (σ : BlastState) : Prop :=
  ∃ ps, BlastSent cfg ps σ ∧ (BlastSending cfg ps σ ∨ BlastEnded cfg ps σ)

namespace BlastPackets

variable {cfg : SendConfig} {σ τ : BlastState}

theorem init (hg : 1 < cfg.fecGroupSize) : BlastPackets cfg (BlastState.init cfg) := by
  obtain ⟨g, hnew, hinv⟩ := GroupInv.new hg
  refine ⟨[], ⟨fun _ hp => (by cases hp), ?_, rfl, rfl, fun w hw => ?_, fun _ => Nat.zero_le _⟩,
    .inl ⟨rfl, ⟨g, hnew, ?_⟩, fun q => ?_⟩⟩
  · show [] = [] ++ cut cfg.chunk []
    rw [cut_nil]
    rfl
  · exact cfg.aead_of_history hw
  · rw [List.length_nil, Nat.zero_mod]
    exact hinv
  · constructor
    · intro hq
      cases hq
    · rintro (⟨i, hi, -⟩ | ⟨start, -, hle, -⟩)
      · cases hi
      · rw [List.length_nil] at hle
        omega

theorem of_quiet (h : BlastPackets cfg σ) (hq : Quiet σ τ) : BlastPackets cfg τ := by
  have hsame := hq.same
  simp only [Prod.mk.injEq] at hsame
  obtain ⟨hseq, hoffset, hremaining, hfec, hreads, hsent⟩ := hsame
  obtain ⟨ps, hps, hphase'⟩ := h
  refine ⟨ps, ⟨hps.pieces, ?_, ?_, ?_, fun w hw => ?_, hps.nonce⟩, ?_⟩
  · rw [hreads, hremaining]
    exact hps.reads
  · rw [hseq]
    exact hps.seq
  · rw [hoffset]
    exact hps.offset
  · obtain ⟨v, hv, hwv⟩ := hq.aead w hw
    rw [hwv]
    exact hps.aead v hv
  · rcases hphase' with hs | he
    · refine .inl ⟨hq.phase.mpr hs.phase, ?_, ?_⟩
      · rw [hfec]
        exact hs.group
      · rw [hsent]
        exact hs.mem
    · refine .inr ⟨fun hp => he.phase (hq.phase.mp hp), ?_, ?_⟩
      · rw [hremaining]
        exact he.remaining
      · rw [hsent]
        exact he.transcript

theorem read (h : BlastPackets cfg σ) {bytes : List UInt8} (hs : σ.read bytes = some τ) :
    BlastPackets cfg τ := by
  rw [BlastState.read] at hs
  split at hs
  · rename_i hg
    cases hs
    obtain ⟨ps, hps, hphase⟩ := h
    rcases hphase with hsend | hend
    · refine ⟨ps, ⟨hps.pieces, ?_, hps.seq, hps.offset, hps.aead, hps.nonce⟩,
        .inl ⟨hsend.phase, hsend.group, hsend.mem⟩⟩
      show (σ.reads ++ [bytes]).flatMap (cut cfg.chunk) = ps ++ cut cfg.chunk bytes
      rw [List.flatMap_append, hps.reads, hg.2, cut_nil, List.append_nil, List.flatMap_singleton]
    · exact absurd hg.1 hend.phase
  · cases hs

/-- What is sent after one more packet. -/
theorem mem_concat {ps : List (List UInt8)} {p : List UInt8} {sent : List Packet}
    (hmem : ∀ q, q ∈ sent ↔ (∃ i < ps.length, q = dataPacket ps i) ∨
      ∃ start, start % cfg.fecGroupSize = 0 ∧ start + cfg.fecGroupSize ≤ ps.length ∧
        q = parityPacket cfg.chunk ps start cfg.fecGroupSize) (q : Packet) :
    q ∈ sent ++ [⟨.data, 0, ps.length, offsetAt ps ps.length, 0, 0, p⟩] ++
        (if (ps.length + 1) % cfg.fecGroupSize = 0 then
          some (parityPacket cfg.chunk (ps ++ [p]) (ps.length + 1 - cfg.fecGroupSize)
            cfg.fecGroupSize) else none).toList ↔
      (∃ i < (ps ++ [p]).length, q = dataPacket (ps ++ [p]) i) ∨
        ∃ start, start % cfg.fecGroupSize = 0 ∧
          start + cfg.fecGroupSize ≤ (ps ++ [p]).length ∧
          q = parityPacket cfg.chunk (ps ++ [p]) start cfg.fecGroupSize := by
  have hlen : (ps ++ [p]).length = ps.length + 1 := by simp
  have hlast : dataPacket (ps ++ [p]) ps.length =
      ⟨.data, 0, ps.length, offsetAt ps ps.length, 0, 0, p⟩ := by
    rw [dataPacket, offsetAt_append [p] (Nat.le_refl _), getD_concat]
  rw [hlen, List.mem_append, List.mem_append, hmem, List.mem_singleton, ← hlast]
  constructor
  · rintro (((⟨i, hi, rfl⟩ | ⟨start, hmod, hle, rfl⟩) | rfl) | hq)
    · exact .inl ⟨i, by omega, (dataPacket_append [p] hi).symm⟩
    · exact .inr ⟨start, hmod, by omega, (parityPacket_append [p] hle).symm⟩
    · exact .inl ⟨ps.length, by omega, rfl⟩
    · split at hq
      · rename_i hfull
        rw [Option.toList_some, List.mem_singleton] at hq
        have hle : cfg.fecGroupSize ≤ ps.length + 1 :=
          Nat.le_of_dvd (Nat.succ_pos _) (Nat.dvd_of_mod_eq_zero hfull)
        refine .inr ⟨_, ?_, by omega, hq⟩
        rw [← Nat.mod_eq_sub_mod hle]
        exact hfull
      · cases hq
  · rintro (⟨i, hi, rfl⟩ | ⟨start, hmod, hle, rfl⟩)
    · rcases Nat.lt_or_ge i ps.length with hlt | hge
      · exact .inl (.inl (.inl ⟨i, hlt, dataPacket_append [p] hlt⟩))
      · have : i = ps.length := by omega
        rw [this]
        exact .inl (.inr rfl)
    · rcases Nat.lt_or_ge (start + cfg.fecGroupSize) (ps.length + 1) with hlt | hge
      · exact .inl (.inl (.inr ⟨start, hmod, by omega, parityPacket_append [p] (by omega)⟩))
      · -- the group that this packet fills
        have hend : start + cfg.fecGroupSize = ps.length + 1 := by omega
        have hfull : (ps.length + 1) % cfg.fecGroupSize = 0 := by
          rw [← hend, Nat.add_mod_right]
          exact hmod
        refine .inr ?_
        rw [if_pos hfull, Option.toList_some, List.mem_singleton]
        congr 1
        omega

theorem packet (hg : 1 < cfg.fecGroupSize) (h : BlastPackets cfg σ)
    (hs : σ.packet cfg = some τ) : BlastPackets cfg τ := by
  unfold BlastState.packet at hs
  split at hs
  · cases hs
  rename_i hne
  dsimp only at hs
  split at hs
  · cases hs
  rename_i h' wire hok
  cases hs
  obtain ⟨ps, hps, hsend | hend⟩ := h
  · obtain ⟨g, hfec, hinv⟩ := hsend.group
    rw [hps.seq, hps.offset] at hok
    obtain ⟨hwire, hnonce, haead⟩ := RepairHistory.sendBlastDataPacket_ok hps.aead hok
    have htake : σ.remaining.take cfg.chunk ≠ [] := by
      have hc := cfg.chunk_pos
      intro ht
      rcases List.take_eq_nil_iff.mp ht with hz | hz
      · omega
      · exact hne hz
    have hlen : (σ.remaining.take cfg.chunk).length ≤ cfg.chunk := List.length_take_le _ _
    have hlen' : (ps ++ [σ.remaining.take cfg.chunk]).length = ps.length + 1 := by simp
    obtain ⟨g', hrec, hinv'⟩ := hinv.record hg htake hlen fun ha => hnonce ha
    refine ⟨ps ++ [σ.remaining.take cfg.chunk], ⟨fun p hp => ?_, ?_, ?_, ?_, haead, fun ha => ?_⟩,
      .inl ⟨hsend.phase, ⟨g', ?_, hinv'⟩, fun q => ?_⟩⟩
    · rcases List.mem_append.mp hp with hp | hp
      · exact hps.pieces p hp
      · rw [List.mem_singleton.mp hp]
        exact ⟨htake, hlen⟩
    · show σ.reads.flatMap (cut cfg.chunk) = _
      rw [hps.reads, cut_of_ne cfg.chunk_pos hne, List.append_assoc]
      rfl
    · show σ.seq + 1 = _
      rw [hps.seq, hlen']
    · show σ.offset + _ = _
      rw [hps.offset, hlen', offsetAt_succ (by omega), offsetAt_append _ (Nat.le_refl _), getD_concat]
    · rw [hlen']
      exact hnonce ha
    · show (FecGroup.record σ.fec σ.seq σ.offset _).1 = _
      rw [hfec, hps.seq, hps.offset, hrec]
    · rw [← mem_concat hsend.mem, ← hwire]
      show q ∈ σ.sent ++ [wire] ++ (FecGroup.record σ.fec σ.seq σ.offset _).2.toList ↔ _
      rw [hfec, hps.seq, hps.offset, hrec]
  · exact absurd hend.remaining hne

/-- What is sent once the source has ended. -/
theorem mem_finish {ps : List (List UInt8)} {sent : List Packet} (hg : 1 < cfg.fecGroupSize)
    (hmem : ∀ q, q ∈ sent ↔ (∃ i < ps.length, q = dataPacket ps i) ∨
      ∃ start, start % cfg.fecGroupSize = 0 ∧ start + cfg.fecGroupSize ≤ ps.length ∧
        q = parityPacket cfg.chunk ps start cfg.fecGroupSize) (q : Packet) :
    q ∈ sent ++ (if ps.length % cfg.fecGroupSize = 0 then none else
        some (parityPacket cfg.chunk ps (ps.length - ps.length % cfg.fecGroupSize)
          (ps.length % cfg.fecGroupSize))).toList ++ [donePacket ps] ↔
      (∃ i < ps.length, q = dataPacket ps i) ∨
        (∃ start count, GroupAt cfg.fecGroupSize ps.length start count ∧
          q = parityPacket cfg.chunk ps start count) ∨ q = donePacket ps := by
  have hdiv := Nat.div_add_mod ps.length cfg.fecGroupSize
  have hlt := Nat.mod_lt ps.length (by omega : 0 < cfg.fecGroupSize)
  have hrest : ps.length - ps.length % cfg.fecGroupSize =
      cfg.fecGroupSize * (ps.length / cfg.fecGroupSize) := by omega
  rw [List.mem_append, List.mem_append, hmem, List.mem_singleton]
  constructor
  · rintro (((⟨i, hi, rfl⟩ | ⟨start, hmod, hle, rfl⟩) | hq) | rfl)
    · exact .inl ⟨i, hi, rfl⟩
    · exact .inr (.inl ⟨start, _, ⟨hmod, by omega, by omega⟩, rfl⟩)
    · split at hq
      · cases hq
      · rw [Option.toList_some, List.mem_singleton] at hq
        refine .inr (.inl ⟨_, _, ⟨?_, by omega, by omega⟩, hq⟩)
        rw [hrest, Nat.mul_mod_right]
    · exact .inr (.inr rfl)
  · rintro (⟨i, hi, rfl⟩ | ⟨start, count, ⟨hmod, hlt', rfl⟩, rfl⟩ | rfl)
    · exact .inl (.inl (.inl ⟨i, hi, rfl⟩))
    · rcases Nat.lt_or_ge ps.length (start + cfg.fecGroupSize) with hlast | hfull
      · -- the last group, which the rest of the packets makes up
        have hstart : start = ps.length - ps.length % cfg.fecGroupSize := by
          have hs := Nat.div_add_mod start cfg.fecGroupSize
          rw [hmod, Nat.add_zero] at hs
          have hq : start / cfg.fecGroupSize = ps.length / cfg.fecGroupSize := by
            refine (Nat.div_eq_of_lt_le ?_ ?_).symm
            · rw [Nat.mul_comm, hs]
              omega
            · rw [Nat.succ_mul, Nat.mul_comm, hs]
              exact hlast
          rw [hrest, ← hq, hs]
        have hne : ps.length % cfg.fecGroupSize ≠ 0 := by omega
        refine .inl (.inr ?_)
        rw [if_neg hne, Option.toList_some, List.mem_singleton, hstart]
        congr 1
        omega
      · refine .inl (.inl (.inr ⟨start, hmod, hfull, ?_⟩))
        congr 1
        omega
    · exact .inr rfl

theorem eof (hg : 1 < cfg.fecGroupSize) (h : BlastPackets cfg σ) (hs : σ.eof = some τ) :
    BlastPackets cfg τ := by
  rw [BlastState.eof] at hs
  split at hs
  · rename_i hguard
    cases hs
    obtain ⟨ps, hps, hsend | hend⟩ := h
    · obtain ⟨g, hfec, hinv⟩ := hsend.group
      refine ⟨ps, ⟨hps.pieces, hps.reads, hps.seq, hps.offset, hps.aead, hps.nonce⟩,
        .inr ⟨by simp, hguard.2, hps.pieces, fun q => ?_⟩⟩
      rw [← mem_finish hg hsend.mem]
      show q ∈ σ.sent ++ (FecGroup.finish σ.fec).2.toList ++ [σ.donePacket] ↔ _
      rw [hfec, hinv.finish hps.nonce, BlastState.donePacket, hps.seq, hps.offset]
      rfl
    · exact absurd hguard.1 hend.phase
  · cases hs

theorem step (hg : 1 < cfg.fecGroupSize) (h : BlastPackets cfg σ) {l : BlastLabel}
    (hs : σ.step cfg l = some τ) : BlastPackets cfg τ := by
  rcases Quiet.of_step hs with ⟨bytes, rfl⟩ | rfl | rfl | hq
  · exact h.read hs
  · exact h.packet hg hs
  · exact h.eof hg hs
  · exact h.of_quiet hq

end BlastPackets

/-- A run that read its source to the end sent the transcript of its reads. -/
theorem blast_transcript {cfg : SendConfig} (hg : 1 < cfg.fecGroupSize) {ls : List BlastLabel}
    {σ : BlastState} (hrun : runFrom (BlastState.step cfg) (BlastState.init cfg) ls = some σ)
    (hend : σ.phase ≠ .sending) :
    Transcript cfg.chunk cfg.fecGroupSize (σ.reads.flatMap (cut cfg.chunk)) σ.sent ∧
      σ.offset = offsetAt (σ.reads.flatMap (cut cfg.chunk))
        (σ.reads.flatMap (cut cfg.chunk)).length := by
  obtain ⟨ps, hps, hphase⟩ := runFrom_invariant (I := BlastPackets cfg)
    (fun _ _ _ h hs => h.step hg hs) ls (BlastPackets.init hg) hrun
  rcases hphase with hsend | he
  · exact absurd hsend.phase hend
  · have hreads : σ.reads.flatMap (cut cfg.chunk) = ps := by
      rw [hps.reads, he.remaining, cut_nil, List.append_nil]
    rw [hreads]
    exact ⟨he.transcript, hps.offset⟩

/-- Without parity, a blast sends data packets and Done on stripe 0. -/
structure BlastPlain (cfg : SendConfig) (σ : BlastState) : Prop where
  fec : σ.fec = none
  aead : ∀ w, σ.history.streamReplay = some w → w.aead = cfg.aead
  sent : ∀ q ∈ σ.sent, q.stripeID = 0 ∧ q.type ≠ .hello

namespace BlastPlain

variable {cfg : SendConfig} {σ τ : BlastState}

theorem init (hg : cfg.fecGroupSize ≤ 1) : BlastPlain cfg (BlastState.init cfg) where
  fec := if_pos (.inr hg)
  aead := fun w hw => cfg.aead_of_history hw
  sent := fun _ hq => by cases hq

theorem step (h : BlastPlain cfg σ) {l : BlastLabel} (hs : σ.step cfg l = some τ) :
    BlastPlain cfg τ := by
  rcases Quiet.of_step hs with ⟨bytes, rfl⟩ | rfl | rfl | hq
  · rw [BlastState.step, BlastState.read] at hs
    split at hs
    · cases hs
      exact ⟨h.fec, h.aead, h.sent⟩
    · cases hs
  · rw [BlastState.step] at hs
    unfold BlastState.packet at hs
    split at hs
    · cases hs
    dsimp only at hs
    split at hs
    · cases hs
    rename_i h' wire hok
    obtain ⟨hwire, -, haead⟩ := RepairHistory.sendBlastDataPacket_ok h.aead hok
    rw [h.fec] at hs
    cases hs
    refine ⟨rfl, haead, fun q hq => ?_⟩
    rcases List.mem_append.mp hq with hq | hq
    · rcases List.mem_append.mp hq with hq | hq
      · exact h.sent q hq
      · rw [List.mem_singleton.mp hq, hwire]
        exact ⟨rfl, by simp⟩
    · cases hq
  · rw [BlastState.step, BlastState.eof, h.fec] at hs
    split at hs
    · cases hs
      refine ⟨rfl, h.aead, fun q hq => ?_⟩
      rcases List.mem_append.mp hq with hq | hq
      · rcases List.mem_append.mp hq with hq | hq
        · exact h.sent q hq
        · cases hq
      · rw [List.mem_singleton.mp hq]
        exact ⟨rfl, by simp [BlastState.donePacket]⟩
    · cases hs
  · have hsame := hq.same
    simp only [Prod.mk.injEq] at hsame
    refine ⟨?_, fun w hw => ?_, ?_⟩
    · rw [hsame.2.2.2.1]
      exact h.fec
    · obtain ⟨v, hv, hwv⟩ := hq.aead w hw
      rw [hwv]
      exact h.aead v hv
    · rw [hsame.2.2.2.2.2]
      exact h.sent

end BlastPlain

theorem blast_plain {cfg : SendConfig} (hg : cfg.fecGroupSize ≤ 1) {ls : List BlastLabel}
    {σ : BlastState} (hrun : runFrom (BlastState.step cfg) (BlastState.init cfg) ls = some σ) :
    ∀ q ∈ σ.sent, q.stripeID = 0 ∧ q.type ≠ .hello :=
  (runFrom_invariant (I := BlastPlain cfg) (fun _ _ _ h hs => h.step hs) ls
    (BlastPlain.init hg) hrun).sent

end Probe
