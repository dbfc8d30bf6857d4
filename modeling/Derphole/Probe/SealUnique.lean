import Derphole.Probe.Seal

/-!
# When no nonce is used twice

Within a lane the nonces are distinct: data packets are numbered as they are sent, the
parity of a group has the number of its first packet, and the Done packet of a lane is
always the same.  Two lanes are told apart by the stripe and by the first four bytes of the
run id, so they must differ in one of them if both send (`Session.Separate`).  The run ids of
discard lanes agree there.
-/

namespace Probe

open Lib

/-! ## Parity -/

/-- The parity packets of a lane that has taken the numbers below `next`. -/
structure FecSealed (aead : Option Nat) (stripeID next : Nat) (fec : Option FecGroup)
    (parities : List Packet) : Prop where
  group : ∀ g, fec = some g → g.stripeID = stripeID ∧ g.aead = aead ∧
    (g.seenPacket = true → g.startSeq < next ∧ ∀ p ∈ parities, p.seq < g.startSeq)
  sealed : ∀ p ∈ parities, p.type = .parity ∧ p.stripeID = stripeID ∧ p.seq < packetAEADNonceSeqs ∧
    p.seq < next
  distinct : (parities.map (·.seq)).Nodup

/-- What a packet is sealed from. -/
theorem marshalPayloadPacket_ok {type : PacketType} {stripeID seq offset ackFloor : Nat}
    {payload : List UInt8} {aead : Option Nat} {wire : Packet} (haead : aead.isSome = true)
    (h : marshalPayloadPacket type stripeID seq offset ackFloor payload aead = .ok wire) :
    wire = ⟨type, stripeID, seq, offset, ackFloor, 0, payload⟩ ∧ seq < packetAEADNonceSeqs := by
  rw [marshalPayloadPacket] at h
  split at h
  · cases h
  · rename_i hfit
    cases h
    exact ⟨rfl, Nat.lt_of_not_le fun hle => hfit ⟨haead, hle⟩⟩

namespace FecSealed

variable {aead : Option Nat} {stripeID next offset : Nat} {fec fec' : Option FecGroup} {g : FecGroup}
  {parities : List Packet} {parity : Option Packet} {payload : List UInt8}

theorem new (chunk groupSize : Nat) : FecSealed aead stripeID 0 (FecGroup.new stripeID chunk groupSize aead) [] where
  group := fun g hg => by
    rw [FecGroup.new] at hg
    split at hg
    · cases hg
    · cases hg
      exact ⟨rfl, rfl, fun h => by cases h⟩
  sealed := fun p hp => by cases hp
  distinct := List.nodup_nil

theorem mono (h : FecSealed aead stripeID next fec parities) {next' : Nat} (hle : next ≤ next') :
    FecSealed aead stripeID next' fec parities where
  group := fun g hg => by
    obtain ⟨hstripe, haead, hstart⟩ := h.group g hg
    refine ⟨hstripe, haead, fun hseen => ?_⟩
    obtain ⟨hnext, hlt⟩ := hstart hseen
    exact ⟨Nat.lt_of_lt_of_le hnext hle, hlt⟩
  sealed := fun p hp => by
    obtain ⟨htype, hs, hseq, hlt⟩ := h.sealed p hp
    exact ⟨htype, hs, hseq, Nat.lt_of_lt_of_le hlt hle⟩
  distinct := h.distinct

/-- The parity of a group that was begun. -/
theorem flush (haead : aead.isSome = true) (h : FecSealed aead stripeID next (some g) parities)
    (hseen : g.seenPacket = true) :
    FecSealed aead stripeID next (some g.flush.1) (g.flush.2.toList ++ parities) := by
  obtain ⟨hstripe, hg, hbegun⟩ := h.group g rfl
  obtain ⟨hstart, hlt⟩ := hbegun hseen
  cases hw : marshalPayloadPacket .parity g.stripeID g.startSeq g.startOff g.count g.parity g.aead with
  | error e =>
      have hnone : g.flush.2 = none := by
        rw [FecGroup.flush, hw]
        rfl
      rw [hnone]
      refine ⟨fun g' hg' => ?_, h.sealed, h.distinct⟩
      cases hg'
      exact ⟨hstripe, hg, fun h => by cases h⟩
  | ok wire =>
      have hsome : g.flush.2 = some wire := by
        rw [FecGroup.flush, hw]
        rfl
      rw [hg] at hw
      obtain ⟨rfl, hseq⟩ := marshalPayloadPacket_ok haead hw
      rw [hsome, Option.toList_some, List.singleton_append]
      refine ⟨fun g' hg' => ?_, fun p hp => ?_, ?_⟩
      · cases hg'
        exact ⟨hstripe, hg, fun h => by cases h⟩
      · rcases List.mem_cons.mp hp with rfl | hp
        · exact ⟨rfl, hstripe, hseq, hstart⟩
        · exact h.sealed p hp
      · rw [List.map_cons, List.nodup_cons]
        refine ⟨fun hmem => ?_, h.distinct⟩
        obtain ⟨p, hp, heq⟩ := List.mem_map.mp hmem
        have := hlt p hp
        have heq : p.seq = g.startSeq := heq
        omega

theorem record (haead : aead.isSome = true) (h : FecSealed aead stripeID next fec parities) :
    FecSealed aead stripeID (next + 1) (FecGroup.record fec next offset payload).1
      ((FecGroup.record fec next offset payload).2.toList ++ parities) := by
  cases fec with
  | none => exact h.mono (Nat.le_succ next)
  | some g =>
      obtain ⟨hstripe, hg, hbegun⟩ := h.group g rfl
      have hbound : (g.add next offset payload).startSeq ≤ next ∧
          ∀ p ∈ parities, p.seq < (g.add next offset payload).startSeq := by
        show (if g.seenPacket then g.startSeq else next) ≤ next ∧
          ∀ p ∈ parities, p.seq < if g.seenPacket then g.startSeq else next
        split
        · rename_i hseen
          exact ⟨Nat.le_of_lt (hbegun hseen).1, (hbegun hseen).2⟩
        · exact ⟨Nat.le_refl next, fun p hp => (h.sealed p hp).2.2.2⟩
      have hadd : FecSealed aead stripeID (next + 1) (some (g.add next offset payload)) parities := by
        refine ⟨fun g' hg' => ?_, (h.mono (Nat.le_succ next)).sealed, h.distinct⟩
        cases hg'
        exact ⟨hstripe, hg, fun _ => ⟨Nat.lt_succ_of_le hbound.1, hbound.2⟩⟩
      rw [FecGroup.record]
      split
      · exact h.mono (Nat.le_succ next)
      dsimp only
      split
      · exact hadd
      · exact hadd.flush haead rfl

theorem finish (haead : aead.isSome = true) (h : FecSealed aead stripeID next fec parities) :
    FecSealed aead stripeID next (FecGroup.finish fec).1 ((FecGroup.finish fec).2.toList ++ parities) := by
  cases fec with
  | none => exact h
  | some g =>
      rw [FecGroup.finish]
      split
      · exact h
      · rename_i hbegun
        have hseen : g.seenPacket = true := by
          cases hg : g.seenPacket with
          | false => exact absurd (.inl hg) hbegun
          | true => rfl
        exact h.flush haead hseen

end FecSealed

/-! ## Lanes -/

/-- The history of a lane that sealed the data packets `sent`. -/
structure HistorySealed (cfg : SendConfig) (sender : Sender) (h : RepairHistory) (sent : List Packet) :
    Prop where
  chunk : h.chunkSize = cfg.chunk
  aead : h.aead = cfg.aead
  buffers : h.packetBuffers = ∅
  window : ∀ w, h.streamReplay = some w → w.aead = cfg.aead
  packets : h.packets ≤ sent.length
  /-- A striped send announces no size to its histories. -/
  bytes : sender ≠ .single → sender ≠ .parallel → h.totalBytes = 0
  payloads : h.streamReplay = none → h.retainPayloads = true → ∀ p ∈ sent, ∀ i < p.payload.length,
    h.payloads[p.seq * cfg.chunk + i]? = p.payload[i]?

/-- A lane and what it sealed. -/
structure SealedLane (cfg : SendConfig) (sender : Sender) (offset : Nat) (ended : Bool)
    (lane : HistoryLane) (seals : LaneSeals) : Prop where
  nextSeq : lane.nextSeq = lane.sent.length + lane.queue.length
  queued : lane.queue.map (·.1) = List.range' lane.sent.length lane.queue.length
  short : ∀ e ∈ lane.queue, e.2.2.length ≤ cfg.chunk
  numbers : lane.sent.map (·.seq) = (List.range lane.sent.length).reverse
  data : ∀ p ∈ lane.sent, p = ⟨.data, lane.stripeID, p.seq, p.offset, 0, 0, p.payload⟩ ∧
    p.payload.length ≤ cfg.chunk ∧ p.seq < packetAEADNonceSeqs
  stripe : sender = .single ∨ sender = .parallel → lane.stripeID = 0 ∧ lane.queue = []
  history : HistorySealed cfg sender lane.history lane.sent
  parity : FecSealed cfg.aead lane.stripeID lane.nextSeq seals.fec seals.parities
  done : ∀ p ∈ seals.dones, ended = true ∧ sender ≠ .single ∧
    p = ⟨.done, lane.stripeID, lane.nextSeq, offset, 0, 0, []⟩ ∧ p.seq < packetAEADNonceSeqs
  repair : ∀ p ∈ seals.repairs, p ∈ lane.sent

namespace SealedLane

variable {cfg : SendConfig} {sender : Sender} {offset : Nat} {ended : Bool} {lane lane' : HistoryLane}
  {seals : LaneSeals} {payload : List UInt8}

theorem eq_of_seq_eq (h : SealedLane cfg sender offset ended lane seals) {p q : Packet} (hp : p ∈ lane.sent)
    (hq : q ∈ lane.sent) (hseq : p.seq = q.seq) : p = q := by
  have hnodup : (lane.sent.map (·.seq)).Nodup := by
    rw [h.numbers, List.nodup_reverse]
    exact List.nodup_range
  exact List.inj_on_of_nodup_map hnodup hp hq hseq

theorem seq_lt (h : SealedLane cfg sender offset ended lane seals) {p : Packet} (hp : p ∈ lane.sent) :
    p.seq < lane.sent.length := by
  have hmem : p.seq ∈ lane.sent.map (·.seq) := List.mem_map_of_mem hp
  rw [h.numbers, List.mem_reverse, List.mem_range] at hmem
  exact hmem

theorem exists_seq (h : SealedLane cfg sender offset ended lane seals) {seq : Nat}
    (hseq : seq < lane.sent.length) : ∃ p ∈ lane.sent, p.seq = seq := by
  have hmem : seq ∈ lane.sent.map (·.seq) := by
    rw [h.numbers, List.mem_reverse, List.mem_range]
    exact hseq
  exact List.mem_map.mp hmem

/-- The packets that the lane sealed. -/
def Holds (lane : HistoryLane) (seals : LaneSeals) (p : Packet) : Prop :=
  p ∈ lane.sent ∨ p ∈ seals.parities ∨ p ∈ seals.dones ∨ p ∈ seals.repairs

/-- What is known of a sealed packet from its type. -/
theorem holds_cases (h : SealedLane cfg sender offset ended lane seals) {p : Packet}
    (hp : Holds lane seals p) :
    (p.type = .data ∧ p ∈ lane.sent) ∨ (p.type = .parity ∧ p ∈ seals.parities) ∨
      (p.type = .done ∧ p ∈ seals.dones) := by
  have hdata : p ∈ lane.sent → (p.type = .data ∧ p ∈ lane.sent) := by
    intro hmem
    refine ⟨?_, hmem⟩
    rw [(h.data p hmem).1]
  rcases hp with hp | hp | hp | hp
  · exact .inl (hdata hp)
  · exact .inr (.inl ⟨(h.parity.sealed p hp).1, hp⟩)
  · refine .inr (.inr ⟨?_, hp⟩)
    rw [(h.done p hp).2.2.1]
  · exact .inl (hdata (h.repair p hp))

theorem stripeID_eq (h : SealedLane cfg sender offset ended lane seals) {p : Packet}
    (hp : Holds lane seals p) : p.stripeID = lane.stripeID ∧ p.seq < packetAEADNonceSeqs := by
  rcases h.holds_cases hp with ⟨-, hp⟩ | ⟨-, hp⟩ | ⟨-, hp⟩
  · obtain ⟨heq, -, hseq⟩ := h.data p hp
    exact ⟨by rw [heq], hseq⟩
  · obtain ⟨-, hstripe, hseq, -⟩ := h.parity.sealed p hp
    exact ⟨hstripe, hseq⟩
  · obtain ⟨-, -, heq, hseq⟩ := h.done p hp
    exact ⟨by rw [heq], hseq⟩

/-- In a lane the type and the number tell a packet. -/
theorem eq_of_holds (h : SealedLane cfg sender offset ended lane seals) {p q : Packet}
    (hp : Holds lane seals p) (hq : Holds lane seals q) (htype : p.type = q.type) (hseq : p.seq = q.seq) :
    p = q := by
  rcases h.holds_cases hp with ⟨hpt, hp⟩ | ⟨hpt, hp⟩ | ⟨hpt, hp⟩ <;>
    rcases h.holds_cases hq with ⟨hqt, hq⟩ | ⟨hqt, hq⟩ | ⟨hqt, hq⟩ <;>
      rw [hpt, hqt] at htype
  case inl.inl => exact h.eq_of_seq_eq hp hq hseq
  case inr.inl.inr.inl => exact List.inj_on_of_nodup_map h.parity.distinct hp hq hseq
  case inr.inr.inr.inr => rw [(h.done p hp).2.2.1, (h.done q hq).2.2.1]
  all_goals cases htype

end SealedLane

/-! ## Steps of a lane -/

section Lanes

variable {cfg : SendConfig} {sender : Sender} {seq offset offset' stripeID : Nat} {ended : Bool}
  {lane lane' : HistoryLane} {seals : LaneSeals} {payload : List UInt8} {h h' : RepairHistory}
  {sent : List Packet} {wire : Packet}

/-- With an AEAD a data packet goes through the replay window, or it is recorded and sealed. -/
theorem send_sealed (haead : cfg.aead.isSome = true)
    (hs : RepairState.send sender cfg lane seq offset payload = some lane')
    (hstripe : sender = .single → lane.stripeID = 0) :
    ∃ h wire, lane' = { lane with history := h, sent := wire :: lane.sent } ∧
      ((∃ w, lane.history.streamReplay = some w ∧
        lane.history.addReplayPacket w lane.stripeID seq offset payload = .ok (h, wire)) ∨
      (lane.history.streamReplay = none ∧
        lane.history.recordSealed cfg lane.stripeID seq offset payload = .ok (h, wire))) := by
  unfold RepairState.send at hs
  dsimp only at hs
  split at hs
  · cases hs
  rename_i h wire hadd
  cases hs
  refine ⟨h, wire, rfl, ?_⟩
  cases sender with
  | single =>
      simp only [RepairHistory.sendBlastDataPacket, haead, if_true] at hadd
      rw [hstripe rfl]
      split at hadd
      · exact .inl ⟨_, ‹_›, hadd⟩
      · exact .inr ⟨‹_›, hadd⟩
  | parallel =>
      simp only [RepairHistory.blastParallelDataPacket, haead, if_true] at hadd
      split at hadd
      · cases hadd
      split at hadd
      · exact .inl ⟨_, ‹_›, hadd⟩
      · exact .inr ⟨‹_›, hadd⟩
  | striped n hn =>
      simp only [RepairHistory.blastParallelDataPacket, haead, if_true] at hadd
      split at hadd
      · cases hadd
      split at hadd
      · exact .inl ⟨_, ‹_›, hadd⟩
      · exact .inr ⟨‹_›, hadd⟩

theorem addPacket_sealed {w w' : ReplayWindow} {type : PacketType} (haead : w.aead.isSome = true)
    (hadd : w.addPacket type stripeID seq offset payload = .ok (w', wire)) :
    wire = ⟨type, stripeID, seq, offset, 0, 0, payload⟩ ∧ seq < packetAEADNonceSeqs ∧
      w'.aead = w.aead := by
  obtain ⟨hwire, -, hw'⟩ := ReplayWindow.addPacket_ok hadd
  refine ⟨hwire, ?_, by rw [hw']; rfl⟩
  rw [ReplayWindow.addPacket] at hadd
  split at hadd
  · cases hadd
  split at hadd
  · cases hadd
  split at hadd
  · cases hadd
  split at hadd
  · cases hadd
  split at hadd
  · cases hadd
  · rename_i hm
    exact (marshalPayloadPacket_ok haead hm).2

/-- What was recorded before stays where it is. -/
theorem HistorySealed.record (hh : HistorySealed cfg sender h sent)
    (hr : h.record sent.length payload = .ok h')
    (hsent : ∀ p ∈ sent, p.seq < sent.length ∧ p.payload.length ≤ cfg.chunk) (hwire : wire.seq = sent.length)
    (hpayload : wire.payload = payload) : HistorySealed cfg sender h' (wire :: sent) := by
  have hreplay := RepairHistory.streamReplay_record hr
  rw [RepairHistory.record] at hr
  split at hr
  · rename_i hskip
    cases hr
    refine ⟨hh.chunk, hh.aead, hh.buffers, hh.window, Nat.le_succ_of_le hh.packets, hh.bytes,
      fun hnone hretain p hp i hi => ?_⟩
    rcases List.mem_cons.mp hp with rfl | hp
    · rcases hskip with hskip | hskip
      · rw [hretain] at hskip
        cases hskip
      · rw [hpayload, hskip] at hi
        cases hi
    · exact hh.payloads hnone hretain p hp i hi
  · rename_i hkeep
    dsimp only at hr
    split at hr
    · cases hr
    cases hr
    have hretain : h.retainPayloads = true := by
      cases hb : h.retainPayloads with
      | true => rfl
      | false => exact absurd (.inl hb) hkeep
    refine ⟨hh.chunk, hh.aead, hh.buffers, hh.window, Nat.le_succ_of_le hh.packets, hh.bytes,
      fun hnone _ p hp i hi => ?_⟩
    show (h.payloads.writeAt (sent.length * h.chunkSize) payload)[_]? = _
    rw [hh.chunk]
    rcases List.mem_cons.mp hp with rfl | hp
    · rw [hwire, File.getElem?_writeAt_mem _ _ (Nat.le_add_right _ _) (by rw [hpayload] at hi; omega),
        Nat.add_sub_cancel_left, hpayload]
    · have hheld := hh.payloads hnone hretain p hp i hi
      obtain ⟨hseq, hfit⟩ := hsent p hp
      have hin : p.seq * cfg.chunk + i < h.payloads.length := by
        by_contra hout
        rw [List.getElem?_eq_none (Nat.le_of_not_lt hout), List.getElem?_eq_getElem hi] at hheld
        cases hheld
      have hbelow : (p.seq + 1) * cfg.chunk ≤ sent.length * cfg.chunk := Nat.mul_le_mul_right _ hseq
      rw [Nat.add_mul, Nat.one_mul] at hbelow
      rw [File.getElem?_writeAt_of_lt _ _ hin (.inl (by omega))]
      exact hheld

/-- The packet with the next number is sent. -/
theorem SealedLane.sendAt (haead : cfg.aead.isSome = true)
    (hl : SealedLane cfg sender offset' ended lane seals) (queue : List (Nat × Nat × List UInt8))
    (hs : RepairState.send sender cfg { lane with queue := queue } lane.sent.length offset payload =
      some lane') :
    ∃ wire, wire = ⟨.data, lane.stripeID, lane.sent.length, offset, 0, 0, payload⟩ ∧
      lane.sent.length < packetAEADNonceSeqs ∧
      lane' = { lane with queue := queue, history := lane'.history, sent := wire :: lane.sent } ∧
      HistorySealed cfg sender lane'.history (wire :: lane.sent) := by
  have hsent : ∀ p ∈ lane.sent, p.seq < lane.sent.length ∧ p.payload.length ≤ cfg.chunk :=
    fun p hp => ⟨hl.seq_lt hp, (hl.data p hp).2.1⟩
  have hh := hl.history
  obtain ⟨h, wire, rfl, hcase⟩ := send_sealed haead hs fun hs => (hl.stripe (.inl hs)).1
  rcases hcase with ⟨w, hw, hadd⟩ | ⟨hnone, hrec⟩
  · rw [RepairHistory.addReplayPacket] at hadd
    split at hadd
    · cases hadd
    rename_i w' wire' hok
    cases hadd
    have hwaead := hh.window w hw
    obtain ⟨hwire, hseq, hwa⟩ := addPacket_sealed (hwaead ▸ haead) hok
    refine ⟨wire, hwire, hseq, rfl, hh.chunk, hh.aead, hh.buffers, fun v hv => ?_,
      Nat.le_succ_of_le hh.packets, hh.bytes, fun hnone => by cases hnone⟩
    cases hv
    exact hwa.trans hwaead
  · simp only [RepairHistory.recordSealed, bind, Except.bind] at hrec
    split at hrec
    · cases hrec
    rename_i h₁ hr
    split at hrec
    · cases hrec
    rename_i wire' hm
    cases hrec
    obtain ⟨hwire, hseq⟩ := marshalPayloadPacket_ok haead hm
    exact ⟨wire, hwire, hseq, rfl, hh.record hr hsent (by rw [hwire]) (by rw [hwire])⟩

/-- The list of what was sent, with the next packet. -/
theorem SealedLane.cons (hl : SealedLane cfg sender offset' ended lane seals)
    (hlen : payload.length ≤ cfg.chunk) (hseq : lane.sent.length < packetAEADNonceSeqs)
    (hwire : wire = ⟨.data, lane.stripeID, lane.sent.length, offset, 0, 0, payload⟩) :
    (wire :: lane.sent).map (·.seq) = (List.range (wire :: lane.sent).length).reverse ∧
      ∀ p ∈ wire :: lane.sent, p = ⟨.data, lane.stripeID, p.seq, p.offset, 0, 0, p.payload⟩ ∧
        p.payload.length ≤ cfg.chunk ∧ p.seq < packetAEADNonceSeqs := by
  refine ⟨?_, fun p hp => ?_⟩
  · rw [List.map_cons, hl.numbers, List.length_cons, List.range_succ, List.reverse_append, hwire]
    rfl
  · rcases List.mem_cons.mp hp with rfl | hp
    · rw [hwire]
      exact ⟨rfl, hlen, hseq⟩
    · exact hl.data p hp

/-- The next packet of a sender that does not queue, and the parity of its group. -/
theorem SealedLane.sendNext (haead : cfg.aead.isSome = true)
    (hl : SealedLane cfg sender offset' false lane seals)
    (hsender : sender = .single ∨ sender = .parallel) (hlen : payload.length ≤ cfg.chunk)
    (hs : RepairState.send sender cfg lane lane.nextSeq offset payload = some lane') :
    SealedLane cfg sender (offset' + payload.length) false { lane' with nextSeq := lane'.nextSeq + 1 }
      { seals with
        fec := (FecGroup.record seals.fec lane.nextSeq offset payload).1
        parities := (FecGroup.record seals.fec lane.nextSeq offset payload).2.toList ++ seals.parities } ∧
      lane'.stripeID = lane.stripeID := by
  have hq := (hl.stripe hsender).2
  have hnext : lane.nextSeq = lane.sent.length := by
    rw [hl.nextSeq, hq]
    rfl
  have hs' := hs
  rw [hnext] at hs'
  obtain ⟨wire, hwire, hseq, hlane', hhist⟩ := hl.sendAt haead lane.queue hs'
  obtain ⟨hnumbers, hdata⟩ := hl.cons hlen hseq hwire
  rw [hlane']
  refine ⟨⟨?_, ?_, ?_, hnumbers, hdata, fun _ => ⟨(hl.stripe hsender).1, hq⟩, hhist, ?_, fun p hp => ?_,
    fun p hp => ?_⟩, rfl⟩
  · show lane.nextSeq + 1 = (wire :: lane.sent).length + lane.queue.length
    rw [hnext, hq]
    rfl
  · show lane.queue.map (·.1) = List.range' (wire :: lane.sent).length lane.queue.length
    rw [hq]
    rfl
  · exact hl.short
  · exact hl.parity.record haead
  · cases (hl.done p hp).1
  · exact List.mem_cons_of_mem _ (hl.repair p hp)

/-- A packet waits for its lane, and the parity of its group is sealed. -/
theorem SealedLane.enqueue (haead : cfg.aead.isSome = true)
    (hl : SealedLane cfg sender offset' false lane seals) (offset : Nat)
    (hsender : ¬(sender = .single ∨ sender = .parallel)) (hlen : payload.length ≤ cfg.chunk) :
    SealedLane cfg sender (offset' + payload.length) false
      { lane with
        nextSeq := lane.nextSeq + 1
        queue := lane.queue ++ [(lane.nextSeq, offset, payload)] }
      { seals with
        fec := (FecGroup.record seals.fec lane.nextSeq offset payload).1
        parities := (FecGroup.record seals.fec lane.nextSeq offset payload).2.toList ++ seals.parities }
    where
  nextSeq := by
    simp only [List.length_append, List.length_singleton, hl.nextSeq]
    omega
  queued := by
    simp only [List.map_append, List.map_cons, List.map_nil, List.length_append, List.length_singleton,
      hl.queued, hl.nextSeq, List.range'_concat, Nat.one_mul]
  short := fun e he => by
    rcases List.mem_append.mp he with he | he
    · exact hl.short e he
    · rw [List.mem_singleton.mp he]
      exact hlen
  numbers := hl.numbers
  data := hl.data
  stripe := fun h => absurd h hsender
  history := hl.history
  parity := hl.parity.record haead
  done := fun p hp => by cases (hl.done p hp).1
  repair := hl.repair

/-- The next waiting packet is sent. -/
theorem SealedLane.dequeue (haead : cfg.aead.isSome = true)
    (hl : SealedLane cfg sender offset' ended lane seals) {queue : List (Nat × Nat × List UInt8)}
    (hq : lane.queue = (seq, offset, payload) :: queue)
    (hs : RepairState.send sender cfg { lane with queue := queue } seq offset payload = some lane') :
    SealedLane cfg sender offset' ended lane' seals ∧ lane'.stripeID = lane.stripeID ∧
      lane'.nextSeq = lane.nextSeq := by
  have hqueued := hl.queued
  rw [hq, List.length_cons, List.map_cons, List.range'_succ, List.cons.injEq] at hqueued
  obtain ⟨hfirst, hrest⟩ := hqueued
  have hseq : seq = lane.sent.length := hfirst
  rw [hseq] at hs
  have hstriped : sender = .single ∨ sender = .parallel → queue = [] := by
    intro hsender
    have hempty := (hl.stripe hsender).2
    rw [hq] at hempty
    cases hempty
  have hlen : payload.length ≤ cfg.chunk :=
    hl.short (seq, offset, payload) (by rw [hq]; exact List.mem_cons_self)
  obtain ⟨wire, hwire, hlt, hlane', hhist⟩ := hl.sendAt haead queue hs
  obtain ⟨hnumbers, hdata⟩ := hl.cons hlen hlt hwire
  rw [hlane']
  refine ⟨⟨?_, hrest, fun e he => ?_, hnumbers, hdata, fun h => ⟨(hl.stripe h).1, hstriped h⟩, hhist,
    hl.parity, hl.done, fun p hp => List.mem_cons_of_mem _ (hl.repair p hp)⟩, rfl, rfl⟩
  · show lane.nextSeq = (wire :: lane.sent).length + queue.length
    rw [hl.nextSeq, hq, List.length_cons, List.length_cons]
    omega
  · exact hl.short e (by rw [hq]; exact List.mem_cons_of_mem _ he)

theorem SealedLane.ack (hl : SealedLane cfg sender offset' ended lane seals) (floor : Nat) :
    SealedLane cfg sender offset' ended { lane with history := lane.history.ackFloor floor } seals where
  nextSeq := hl.nextSeq
  queued := hl.queued
  short := hl.short
  numbers := hl.numbers
  data := hl.data
  stripe := hl.stripe
  history := {
    hl.history with
    window := fun w hw => by
      obtain ⟨w₀, hw₀, rfl⟩ := Option.map_eq_some_iff.mp hw
      rw [(w₀.maxBytes_advanceAck floor).2]
      exact hl.history.window w₀ hw₀
    payloads := fun hnone => hl.history.payloads (Option.map_eq_none_iff.mp hnone) }
  parity := hl.parity
  done := hl.done
  repair := hl.repair

/-- The end of the source. -/
theorem SealedLane.finish (haead : cfg.aead.isSome = true)
    (hl : SealedLane cfg sender offset' false lane seals) (hq : lane.queue = []) {total : Nat}
    (htotal : sender ≠ .single → sender ≠ .parallel → total = 0) :
    SealedLane cfg sender offset' true
      { lane with history := lane.history.markComplete total lane.nextSeq } (SealState.flush seals) where
  nextSeq := hl.nextSeq
  queued := hl.queued
  short := hl.short
  numbers := hl.numbers
  data := hl.data
  stripe := hl.stripe
  history := {
    hl.history with
    packets := by
      show lane.nextSeq ≤ _
      rw [hl.nextSeq, hq]
      exact Nat.le_refl _
    bytes := htotal }
  parity := hl.parity.finish haead
  done := fun p hp => by cases (hl.done p hp).1
  repair := hl.repair

/-- A Done packet is sealed for the window of the lane. -/
theorem SealedLane.done_sealed (haead : cfg.aead.isSome = true)
    (hl : SealedLane cfg sender offset' true lane seals) (hsender : sender ≠ .single) {w w' : ReplayWindow}
    (hw : lane.history.streamReplay = some w)
    (hadd : w.addPacket .done lane.stripeID lane.nextSeq offset' [] = .ok (w', wire)) :
    SealedLane cfg sender offset' true
      { lane with history := { lane.history with streamReplay := some w' } }
      { seals with dones := wire :: seals.dones } := by
  have hwaead := hl.history.window w hw
  obtain ⟨hwire, hseq, hwa⟩ := addPacket_sealed (hwaead ▸ haead) hadd
  refine ⟨hl.nextSeq, hl.queued, hl.short, hl.numbers, hl.data, hl.stripe, { hl.history with
    window := fun v hv => ?_, payloads := fun hnone => ?_ }, hl.parity, fun p hp => ?_, hl.repair⟩
  · cases hv
    exact hwa.trans hwaead
  · cases hnone
  · rcases List.mem_cons.mp hp with rfl | hp
    · exact ⟨rfl, hsender, hwire, by rw [hwire]; exact hseq⟩
    · exact hl.done p hp

/-- What is put together again is what was sent, if it was cut as in a stream of full packets. -/
theorem SealedLane.resealed (haead : cfg.aead.isSome = true)
    (hl : SealedLane cfg sender offset' ended lane seals) (hnone : lane.history.streamReplay = none)
    (hcut : Session.cutFull lane seq = true) (hwire : lane.history.packet seq = some wire) :
    wire ∈ lane.sent := by
  have hh := hl.history
  simp only [RepairHistory.packet, hnone, hh.buffers, AList.lookup_empty] at hwire
  split at hwire
  · cases hwire
  rw [RepairHistory.assemblePacket] at hwire
  split at hwire
  · cases hwire
  rename_i hpackets
  dsimp only at hwire
  split at hwire
  · cases hwire
  rename_i hbytes
  split at hwire
  · cases hwire
  rename_i hretain
  split at hwire
  swap
  · cases hwire
  have hlt : seq < lane.sent.length := by
    have := hh.packets
    omega
  obtain ⟨p, hp, hpseq⟩ := hl.exists_seq hlt
  have hcutp := List.all_eq_true.mp hcut p hp
  simp only [hpseq, ne_eq, not_true_eq_false, decide_false, Bool.false_or, hbytes, Bool.and_eq_true,
    decide_eq_true_eq] at hcutp
  obtain ⟨hoffset, hlength⟩ := hcutp
  have hchunk : 0 < cfg.chunk := cfg.chunk_pos
  have hkeep : lane.history.retainPayloads = true := by
    cases hb : lane.history.retainPayloads with
    | true => rfl
    | false =>
        refine absurd ⟨hb, ?_⟩ hretain
        rw [hh.chunk] at hbytes ⊢
        omega
  have hread : lane.history.readPayloadAt (seq * lane.history.chunkSize) (min lane.history.chunkSize
      (lane.history.totalBytes - seq * lane.history.chunkSize)) = p.payload := by
    rw [← hlength, RepairHistory.readPayloadAt]
    refine List.ext_getElem? fun i => ?_
    rcases Nat.lt_or_ge i p.payload.length with hi | hi
    · have hheld := hh.payloads hnone hkeep p hp i hi
      rw [hpseq, ← hh.chunk] at hheld
      simp only [List.getElem?_map, List.getElem?_range' hi, Option.map_some, Nat.one_mul, List.getD,
        hheld, List.getElem?_eq_getElem hi, Option.getD_some]
    · rw [List.getElem?_eq_none hi, List.getElem?_eq_none (by simpa using hi)]
  have hstripe : lane.stripeID = 0 := by
    by_cases hs : sender = .single ∨ sender = .parallel
    · exact (hl.stripe hs).1
    · rw [hh.bytes (fun h => hs (.inl h)) fun h => hs (.inr h)] at hbytes
      omega
  rw [hread] at hwire
  cases hm : marshalPayloadPacket .data 0 seq (seq * lane.history.chunkSize) 0 p.payload lane.history.aead with
  | error e =>
      rw [hm] at hwire
      cases hwire
  | ok q =>
      rw [hm] at hwire
      cases hwire
      obtain ⟨hq, -⟩ := marshalPayloadPacket_ok (hh.aead ▸ haead) hm
      have hsame : p = wire := by
        rw [(hl.data p hp).1, hq, hstripe, hpseq, hoffset]
      exact hsame ▸ hp

end Lanes

/-! ## Blasts -/

/-- Every lane of a blast is as it should be. -/
structure SendSealed (cfg : SendConfig) (s : SealState) : Prop where
  length : s.seals.length = s.send.lanes.length
  lanes : ∀ (i : Nat) (lane : HistoryLane) (seals : LaneSeals), s.send.lanes[i]? = some lane →
    s.seals[i]? = some seals →
    SealedLane cfg s.sender s.send.offset s.ended lane seals

/-- A packet of a blast was sealed for one of its lanes. -/
theorem SendSealed.of_mem {cfg : SendConfig} {s : SealState} (h : SendSealed cfg s) {p : Packet}
    (hp : p ∈ s.packets) : ∃ (i : Nat) (lane : HistoryLane) (seals : LaneSeals),
      s.send.lanes[i]? = some lane ∧ s.seals[i]? = some seals ∧ SealedLane.Holds lane seals p := by
  rcases List.mem_append.mp hp with hp | hp
  · obtain ⟨lane, hlane, hp⟩ := List.mem_flatMap.mp hp
    obtain ⟨i, hi⟩ := List.mem_iff_getElem?.mp hlane
    have hlt : i < s.seals.length := by
      rw [h.length]
      exact (List.getElem?_eq_some_iff.mp hi).1
    exact ⟨i, lane, s.seals[i], hi, List.getElem?_eq_getElem hlt, .inl hp⟩
  · obtain ⟨seals, hseals, hp⟩ := List.mem_flatMap.mp hp
    obtain ⟨i, hi⟩ := List.mem_iff_getElem?.mp hseals
    have hlt : i < s.send.lanes.length := by
      rw [← h.length]
      exact (List.getElem?_eq_some_iff.mp hi).1
    refine ⟨i, s.send.lanes[i], seals, List.getElem?_eq_getElem hlt, hi, .inr ?_⟩
    rcases List.mem_append.mp hp with hp | hp
    · exact .inl hp
    · exact .inr (List.mem_append.mp hp)

/-! ## Sessions -/

structure SessionSealed (cfg : SendConfig) (σ : Session) : Prop where
  sends : ∀ s ∈ σ, SendSealed cfg s
  /-- Only a run that is one blast seals Done packets. -/
  one : (∃ s, σ = [s]) ∨ ∀ s ∈ σ, s.sender = .single
  apart : ∀ (k k' : Nat) (s s' : SealState) (i i' : Nat) (lane lane' : HistoryLane), σ[k]? = some s →
    σ[k']? = some s' → s.send.lanes[i]? = some lane → s'.send.lanes[i']? = some lane' →
    (k, i) ≠ (k', i') → Session.shared s lane = Session.shared s' lane' → lane.nextSeq = 0 ∨ lane'.nextSeq = 0

/-- A lane that has taken no packet sealed nothing but its Done. -/
theorem SealedLane.done_of_zero {cfg : SendConfig} {sender : Sender} {offset : Nat} {ended : Bool}
    {lane : HistoryLane} {seals : LaneSeals} (h : SealedLane cfg sender offset ended lane seals)
    (hzero : lane.nextSeq = 0) {p : Packet} (hp : Holds lane seals p) :
    p.type = .done := by
  rcases h.holds_cases hp with ⟨-, hp⟩ | ⟨-, hp⟩ | ⟨ht, -⟩
  · have hlt := h.seq_lt hp
    have hnext := h.nextSeq
    omega
  · have hlt := (h.parity.sealed p hp).2.2.2
    omega
  · exact ht

theorem SealedLane.eq_done {cfg : SendConfig} {sender : Sender} {offset : Nat} {ended : Bool}
    {lane : HistoryLane} {seals : LaneSeals} (h : SealedLane cfg sender offset ended lane seals)
    {p : Packet} (hp : Holds lane seals p) (ht : p.type = .done) :
    sender ≠ .single ∧ p = ⟨.done, lane.stripeID, lane.nextSeq, offset, 0, 0, []⟩ := by
  rcases h.holds_cases hp with ⟨ht', -⟩ | ⟨ht', -⟩ | ⟨-, hp⟩
  · rw [ht] at ht'
    cases ht'
  · rw [ht] at ht'
    cases ht'
  · exact ⟨(h.done p hp).2.1, (h.done p hp).2.2.1⟩

theorem SessionSealed.noncesUnique {cfg : SendConfig} {σ : Session} (h : SessionSealed cfg σ) :
    σ.NoncesUnique cfg := by
  intro x hx y hy hnonce
  rw [Session.sealed] at hx hy
  split at hx
  swap
  · cases hx
  rename_i haead
  rw [if_pos haead] at hy
  obtain ⟨s, hs, hx⟩ := List.mem_flatMap.mp hx
  obtain ⟨p, hp, rfl⟩ := List.mem_map.mp hx
  obtain ⟨s', hs', hy⟩ := List.mem_flatMap.mp hy
  obtain ⟨q, hq, rfl⟩ := List.mem_map.mp hy
  obtain ⟨k, hk⟩ := List.mem_iff_getElem?.mp hs
  obtain ⟨k', hk'⟩ := List.mem_iff_getElem?.mp hs'
  obtain ⟨i, lane, seals, hi, hsi, hp⟩ := (h.sends s hs).of_mem hp
  obtain ⟨i', lane', seals', hi', hsi', hq⟩ := (h.sends s' hs').of_mem hq
  have hl := (h.sends s hs).lanes i lane seals hi hsi
  have hl' := (h.sends s' hs').lanes i' lane' seals' hi' hsi'
  obtain ⟨hpstripe, hpseq⟩ := hl.stripeID_eq hp
  obtain ⟨hqstripe, hqseq⟩ := hl'.stripeID_eq hq
  obtain ⟨htype, hstripe, hrun, hseq⟩ := eq_of_packetAEADNonce_eq hpseq hqseq hnonce
  by_cases hsame : (k, i) = (k', i')
  · -- one lane
    cases hsame
    rw [hk] at hk'
    cases hk'
    rw [hi] at hi'
    cases hi'
    rw [hsi] at hsi'
    cases hsi'
    rw [hl.eq_of_holds hp hq htype hseq]
  · -- two lanes: one of them has taken no packet, so these are Done packets
    have hshared : Session.shared s lane = Session.shared s' lane' := by
      rw [Session.shared, Session.shared, hrun, ← hpstripe, ← hqstripe, hstripe]
    have hdone : p.type = .done := by
      rcases h.apart k k' s s' i i' lane lane' hk hk' hi hi' hsame hshared with hzero | hzero
      · exact hl.done_of_zero hzero hp
      · rw [htype]
        exact hl'.done_of_zero hzero hq
    obtain ⟨hsender, hpeq⟩ := hl.eq_done hp hdone
    obtain ⟨-, hqeq⟩ := hl'.eq_done hq (htype ▸ hdone)
    rcases h.one with ⟨t, hone⟩ | hsingle
    · rw [hone] at hs hs'
      have hsends : s = s' := (List.mem_singleton.mp hs).trans (List.mem_singleton.mp hs').symm
      subst hsends
      have hbytes : bigEndian 2 lane.stripeID = bigEndian 2 lane'.stripeID := by
        rw [← bigEndian_mod 2 lane.stripeID, ← bigEndian_mod 2 lane'.stripeID, ← hpstripe, ← hqstripe]
        exact congrArg (bigEndian 2) hstripe
      have hnext : lane.nextSeq = lane'.nextSeq := by
        rw [hpeq, hqeq] at hseq
        exact hseq
      rw [hpeq, hqeq]
      simp only [encodePacketHeader, hbytes, hnext]
    · exact absurd (hsingle s hs) hsender

/-! ## Steps -/

/-- The lane that the step takes a packet for. -/
def SealLabel.taken (cfg : SendConfig) (s : SealState) : SealLabel → Option Nat
  | .packet => some (s.laneIndex cfg)
  | _ => none

/-- What a step of a blast leaves alone: it takes a packet for one lane or none. -/
structure Continues (s t : SealState) (taken : Option Nat) : Prop where
  runID : t.runID = s.runID
  sender : t.sender = s.sender
  lanes : ∀ (i : Nat) (lane' : HistoryLane), t.send.lanes[i]? = some lane' →
    ∃ lane, s.send.lanes[i]? = some lane ∧ lane'.stripeID = lane.stripeID ∧
      (lane'.nextSeq = lane.nextSeq ∨ taken = some i)

namespace SendSealed

variable {cfg : SendConfig} {s t : SealState} {l : SealLabel}

theorem start (cfg : SendConfig) (runID : RunID) (sender : Sender) :
    SendSealed cfg (SealState.start cfg runID sender) := by
  have hlane : ∀ (retain : Bool) (bytes i : Nat) (replay : Bool), (sender = .single ∨ sender = .parallel → i = 0) →
      SealedLane cfg sender 0 false (.start i (RepairHistory.new cfg.chunk retain cfg.aead
        (if replay then some (ReplayWindow.new cfg.chunk bytes cfg.aead) else none)))
        ⟨FecGroup.new i cfg.chunk cfg.fecGroupSize cfg.aead, [], [], []⟩ := by
    intro retain bytes i replay hi
    refine ⟨rfl, rfl, fun e he => (by cases he), rfl, fun p hp => (by cases hp), fun h => ⟨hi h, rfl⟩,
      ⟨rfl, rfl, rfl, fun w hw => ?_, Nat.le_refl _, fun _ _ => rfl, fun _ _ p hp => (by cases hp)⟩,
      FecSealed.new .., fun p hp => (by cases hp), fun p hp => (by cases hp)⟩
    have hw : (if replay then some (ReplayWindow.new cfg.chunk bytes cfg.aead) else none) = some w := hw
    split at hw
    · cases hw
      rfl
    · cases hw
  refine ⟨by simp [SealState.start], fun i lane seals hi hsi => ?_⟩
  have hseals : seals = ⟨FecGroup.new lane.stripeID cfg.chunk cfg.fecGroupSize cfg.aead, [], [], []⟩ := by
    simp only [SealState.start, List.getElem?_map] at hsi hi
    rw [hi] at hsi
    cases hsi
    rfl
  rw [hseals]
  have hmem := List.mem_of_getElem? hi
  cases sender with
  | single =>
      rw [List.mem_singleton.mp hmem]
      exact hlane _ _ 0 _ fun _ => rfl
  | parallel =>
      rw [List.mem_singleton.mp hmem]
      exact hlane _ _ 0 _ fun _ => rfl
  | striped n hn =>
      obtain ⟨j, -, rfl⟩ := List.mem_map.mp hmem
      refine hlane _ _ j _ fun h => ?_
      rcases h with h | h
      · cases h
      · cases h

/-- One lane changes, with what it sealed. -/
theorem setLane (h : SendSealed cfg s) {i : Nat} {lane : HistoryLane} {seals : LaneSeals}
    (lane' : HistoryLane) (seals' : LaneSeals) (hi : s.send.lanes[i]? = some lane) (hsi : s.seals[i]? = some seals)
    (hlanes : t.send.lanes = s.send.lanes.set i lane') (hseals : t.seals = s.seals.set i seals')
    (hrun : t.runID = s.runID) (hsender : t.sender = s.sender) (hended : t.ended = s.ended)
    (hoffset : t.send.offset = s.send.offset ∨ s.ended = false)
    (hlane : SealedLane cfg t.sender t.send.offset t.ended lane' seals')
    (hstripe : lane'.stripeID = lane.stripeID) {taken : Option Nat}
    (hnext : lane'.nextSeq = lane.nextSeq ∨ taken = some i) :
    SendSealed cfg t ∧ Continues s t taken := by
  refine ⟨⟨?_, fun j l sl hl hsl => ?_⟩, hrun, hsender, fun j l hl => ?_⟩
  · rw [hlanes, hseals, List.length_set, List.length_set]
    exact h.length
  · rw [hlanes] at hl
    rw [hseals] at hsl
    rcases getElem?_set_cases hi hl with ⟨rfl, rfl⟩ | ⟨hj, hl⟩
    · rcases getElem?_set_cases hsi hsl with ⟨-, rfl⟩ | ⟨hj, -⟩
      · exact hlane
      · exact absurd rfl hj
    · rcases getElem?_set_cases hsi hsl with ⟨rfl, -⟩ | ⟨-, hsl⟩
      · exact absurd rfl hj
      · have hold := h.lanes j l sl hl hsl
        rw [hsender, hended]
        rcases hoffset with hoffset | hoffset
        · rw [hoffset]
          exact hold
        · exact { hold with
            done := fun p hp => by
              have hend := (hold.done p hp).1
              rw [hoffset] at hend
              cases hend }
  · rw [hlanes] at hl
    rcases getElem?_set_cases hi hl with ⟨rfl, rfl⟩ | ⟨-, hl⟩
    · exact ⟨lane, hi, hstripe, hnext⟩
    · exact ⟨l, hl, rfl, .inl rfl⟩

/-- A step that changes no lane. -/
theorem same (h : SendSealed cfg s) (hlanes : t.send.lanes = s.send.lanes) (hseals : t.seals = s.seals)
    (hrun : t.runID = s.runID) (hsender : t.sender = s.sender) (hended : t.ended = s.ended)
    (hoffset : t.send.offset = s.send.offset) : SendSealed cfg t ∧ Continues s t none := by
  refine ⟨⟨by rw [hlanes, hseals]; exact h.length, fun i lane seals hi hsi => ?_⟩, hrun, hsender,
    fun i lane hi => ⟨lane, hlanes ▸ hi, rfl, .inl rfl⟩⟩
  rw [hsender, hended, hoffset]
  exact h.lanes i lane seals (hlanes ▸ hi) (hseals ▸ hsi)

theorem packet (haead : cfg.aead.isSome = true) (h : SendSealed cfg s) (hs : s.packet cfg = some t) :
    SendSealed cfg t ∧ Continues s t (some (s.laneIndex cfg)) := by
  unfold SealState.packet at hs
  dsimp only at hs
  split at hs
  · cases hs
  rename_i hended
  have hended : s.ended = false := by simpa using hended
  split at hs
  swap
  · cases hs
  rename_i r lane seals hpacket hi hsi
  have ht := (Option.some.inj hs).symm
  have hr : t.send = r := by rw [ht]; rfl
  have hseals : t.seals = s.seals.set (s.laneIndex cfg) { seals with
      fec := (FecGroup.record seals.fec lane.nextSeq s.send.offset (s.send.remaining.take cfg.chunk)).1
      parities := (FecGroup.record seals.fec lane.nextSeq s.send.offset
        (s.send.remaining.take cfg.chunk)).2.toList ++ seals.parities } := by
    rw [ht]
    rfl
  have hsame : t.runID = s.runID ∧ t.sender = s.sender ∧ t.ended = s.ended := by
    rw [ht]
    exact ⟨rfl, rfl, rfl⟩
  have hl := h.lanes _ lane seals hi hsi
  rw [hended] at hl
  have hlen : (s.send.remaining.take cfg.chunk).length ≤ cfg.chunk := List.length_take_le _ _
  -- a sender that does not queue
  have hdirect : s.sender = .single ∨ s.sender = .parallel → s.laneIndex cfg = 0 →
      ∀ lane', RepairState.send s.sender cfg lane lane.nextSeq s.send.offset
          (s.send.remaining.take cfg.chunk) = some lane' →
        r.lanes = s.send.lanes.set 0 { lane' with nextSeq := lane'.nextSeq + 1 } →
        r.offset = s.send.offset + (s.send.remaining.take cfg.chunk).length →
        SendSealed cfg t ∧ Continues s t (some (s.laneIndex cfg)) := by
    intro hsender hindex lane' hsend hlanes hoffset
    obtain ⟨hnew, hstripe⟩ := hl.sendNext haead hsender hlen hsend
    rw [hindex] at hi hsi hseals ⊢
    refine h.setLane { lane' with nextSeq := lane'.nextSeq + 1 } _ hi hsi (hr ▸ hlanes) hseals hsame.1
      hsame.2.1 hsame.2.2 (.inr hended) ?_ hstripe (.inr rfl)
    rw [hsame.2.1, hsame.2.2, hr, hoffset, hended]
    exact hnew
  unfold RepairState.packet at hpacket
  split at hpacket
  · cases hpacket
  dsimp only at hpacket
  cases hsender : s.sender with
  | single =>
      have hindex : s.laneIndex cfg = 0 := by rw [SealState.laneIndex, hsender]
      simp only [hsender] at hpacket
      rw [hindex] at hi
      rw [hi] at hpacket
      dsimp only at hpacket
      split at hpacket
      · cases hpacket
      rename_i lane' hsend
      cases hpacket
      exact hdirect (.inl hsender) hindex lane' (by rw [hsender]; exact hsend) rfl rfl
  | parallel =>
      have hindex : s.laneIndex cfg = 0 := by rw [SealState.laneIndex, hsender]
      simp only [hsender] at hpacket
      rw [hindex] at hi
      rw [hi] at hpacket
      dsimp only at hpacket
      split at hpacket
      · cases hpacket
      rename_i lane' hsend
      cases hpacket
      exact hdirect (.inr hsender) hindex lane' (by rw [hsender]; exact hsend) rfl rfl
  | striped n hn =>
      have hindex : s.laneIndex cfg = cfg.laneIndexForOffset s.send.offset s.send.lanes.length := by
        rw [SealState.laneIndex, hsender]
      simp only [hsender] at hpacket
      rw [← hindex, hi] at hpacket
      have hrest := (Option.some.inj hpacket).symm
      have hqueues : ¬(s.sender = .single ∨ s.sender = .parallel) := by
        rw [hsender]
        simp
      have hnew := hl.enqueue haead s.send.offset hqueues hlen
      refine h.setLane { lane with
          nextSeq := lane.nextSeq + 1
          queue := lane.queue ++ [(lane.nextSeq, s.send.offset, s.send.remaining.take cfg.chunk)] } _ hi hsi
        (by rw [hr, hrest]; rfl) hseals hsame.1 hsame.2.1 hsame.2.2 (.inr hended) ?_ rfl (.inr rfl)
      rw [hsame.2.1, hsame.2.2, hr, hended, hrest]
      exact hnew

theorem finish (haead : cfg.aead.isSome = true) (h : SendSealed cfg s) (hs : s.finish = some t) :
    SendSealed cfg t ∧ Continues s t none := by
  unfold SealState.finish at hs
  split at hs
  · cases hs
  rename_i hended
  have hended : s.ended = false := by simpa using hended
  obtain ⟨r, hfinish, rfl⟩ := Option.map_eq_some_iff.mp hs
  unfold RepairState.finish at hfinish
  split at hfinish
  swap
  · cases hfinish
  rename_i hend
  cases hfinish
  have hget : ∀ (total i : Nat) (l : HistoryLane), (s.send.lanes.map fun lane => { lane with
      history := lane.history.markComplete total lane.nextSeq })[i]? = some l →
      ∃ lane, s.send.lanes[i]? = some lane ∧
        l = { lane with history := lane.history.markComplete total lane.nextSeq } := by
    intro total i l hl
    rw [List.getElem?_map] at hl
    obtain ⟨lane, hlane, rfl⟩ := Option.map_eq_some_iff.mp hl
    exact ⟨lane, hlane, rfl⟩
  refine ⟨⟨by simp [h.length], fun i l seals hl hsl => ?_⟩, rfl, rfl, fun i l hl => ?_⟩
  · obtain ⟨lane, hi, rfl⟩ := hget _ i l hl
    rw [List.getElem?_map] at hsl
    obtain ⟨old, hsi, rfl⟩ := Option.map_eq_some_iff.mp hsl
    have hlane := h.lanes i lane old hi hsi
    rw [hended] at hlane
    refine hlane.finish haead (List.isEmpty_iff.mp (List.all_eq_true.mp hend.2 lane
      (List.mem_of_getElem? hi))) fun hsingle hparallel => ?_
    split
    · rfl
    · rename_i hstriped
      cases hsender : s.sender with
      | single => exact absurd hsender hsingle
      | parallel => exact absurd hsender hparallel
      | striped n hn => exact absurd hsender (hstriped n hn)
  · obtain ⟨lane, hi, rfl⟩ := hget _ i l hl
    exact ⟨lane, hi, rfl, .inl rfl⟩

theorem step (haead : cfg.aead.isSome = true) (h : SendSealed cfg s)
    (hcut : ∀ i seq, l = .repair i seq → ∀ lane, s.send.lanes[i]? = some lane →
      lane.history.streamReplay = none → Session.cutFull lane seq = true)
    (hs : s.step cfg l = some t) :
    SendSealed cfg t ∧ Continues s t (l.taken cfg s) := by
  cases l with
  | read bytes =>
      simp only [SealState.step] at hs
      split at hs
      · cases hs
      obtain ⟨r, hread, rfl⟩ := Option.map_eq_some_iff.mp hs
      unfold RepairState.read at hread
      split at hread
      · cases hread
        exact h.same rfl rfl rfl rfl rfl rfl
      · cases hread
  | packet => exact h.packet haead hs
  | encode i =>
      obtain ⟨r, hencode, rfl⟩ := Option.map_eq_some_iff.mp hs
      unfold RepairState.encode at hencode
      split at hencode
      · cases hencode
      rename_i lane hi
      split at hencode
      · cases hencode
      rename_i seq offset payload queue hq
      split at hencode
      · cases hencode
      rename_i lane' hsend
      cases hencode
      have hlt : i < s.seals.length := by
        rw [h.length]
        exact (List.getElem?_eq_some_iff.mp hi).1
      have hsi : s.seals[i]? = some s.seals[i] := List.getElem?_eq_getElem hlt
      obtain ⟨hnew, hstripe, hnext⟩ := (h.lanes i lane _ hi hsi).dequeue haead hq hsend
      exact h.setLane (t := { s with send := s.send.setLane i lane' }) lane' s.seals[i] hi hsi rfl
        (by rw [List.set_getElem_self]) rfl rfl rfl (.inl rfl) hnew hstripe (.inl hnext)
  | ack i floor =>
      obtain ⟨r, hack, rfl⟩ := Option.map_eq_some_iff.mp hs
      unfold RepairState.ack at hack
      split at hack
      · cases hack
      rename_i lane hi
      cases hack
      have hlt : i < s.seals.length := by
        rw [h.length]
        exact (List.getElem?_eq_some_iff.mp hi).1
      have hsi : s.seals[i]? = some s.seals[i] := List.getElem?_eq_getElem hlt
      exact h.setLane (t := { s with
          send := s.send.setLane i { lane with history := lane.history.ackFloor floor } })
        { lane with history := lane.history.ackFloor floor } s.seals[i] hi hsi rfl
        (by rw [List.set_getElem_self]) rfl rfl rfl (.inl rfl) ((h.lanes i lane _ hi hsi).ack floor) rfl
        (.inl rfl)
  | finish => exact h.finish haead hs
  | done i =>
      simp only [SealState.step] at hs
      unfold SealState.done at hs
      split at hs
      swap
      · cases hs
      rename_i n hn lane seals hsender hi hsi
      split at hs
      swap
      · cases hs
      rename_i hended
      split at hs
      · cases hs
        exact h.same rfl rfl rfl rfl rfl rfl
      rename_i w hw
      split at hs
      · cases hs
        exact h.same rfl rfl rfl rfl rfl rfl
      rename_i w' wire hadd
      cases hs
      have hl := h.lanes i lane seals hi hsi
      rw [hended] at hl
      refine h.setLane (t := { s with
          send := s.send.setLane i { lane with history := { lane.history with streamReplay := some w' } }
          seals := s.seals.set i { seals with dones := wire :: seals.dones } })
        { lane with history := { lane.history with streamReplay := some w' } }
        { seals with dones := wire :: seals.dones } hi hsi rfl rfl rfl rfl rfl (.inl rfl) ?_ rfl (.inl rfl)
      show SealedLane cfg s.sender s.send.offset s.ended _ _
      rw [hended]
      refine hl.done_sealed haead ?_ hw hadd
      rw [hsender]
      simp
  | repair i seq =>
      simp only [SealState.step] at hs
      unfold SealState.repair at hs
      split at hs
      swap
      · cases hs
      rename_i lane seals hi hsi
      split at hs
      · rename_i wire hnone hwire
        cases hs
        have hl := h.lanes i lane seals hi hsi
        have hmem := hl.resealed haead hnone (hcut i seq rfl lane hi hnone) hwire
        have hseti : s.send.lanes = s.send.lanes.set i lane := by
          obtain ⟨hlt, hget⟩ := List.getElem?_eq_some_iff.mp hi
          rw [← hget, List.set_getElem_self]
        refine h.setLane (t := s.setSeals i { seals with repairs := wire :: seals.repairs }) lane
          { seals with repairs := wire :: seals.repairs } hi hsi hseti rfl rfl rfl rfl
          (.inl rfl) { hl with repair := fun p hp => ?_ } rfl (.inl rfl)
        rcases List.mem_cons.mp hp with rfl | hp
        · exact hmem
        · exact hl.repair p hp
      · cases hs
        exact h.same rfl rfl rfl rfl rfl rfl

end SendSealed

namespace SessionSealed

variable {cfg : SendConfig} {σ τ : Session}

theorem start (cfg : SendConfig) (base : RunID) (run : SessionRun) :
    SessionSealed cfg (Session.start cfg base run) := by
  have hzero : ∀ (runID : RunID) (sender : Sender) (i : Nat) (lane : HistoryLane),
      (SealState.start cfg runID sender).send.lanes[i]? = some lane → lane.nextSeq = 0 := by
    intro runID sender i lane hi
    have hmem := List.mem_of_getElem? hi
    cases sender with
    | single =>
        rw [List.mem_singleton.mp hmem]
        rfl
    | parallel =>
        rw [List.mem_singleton.mp hmem]
        rfl
    | striped n hn =>
        obtain ⟨j, -, rfl⟩ := List.mem_map.mp hmem
        rfl
  cases run with
  | blast sender =>
      refine ⟨fun s hs => ?_, .inl ⟨_, rfl⟩, fun k k' s s' i i' lane lane' hk _ hi _ _ _ => .inl ?_⟩
      · rw [List.mem_singleton.mp hs]
        exact SendSealed.start cfg base sender
      · rw [List.mem_singleton.mp (List.mem_of_getElem? hk)] at hi
        exact hzero base sender i lane hi
  | discard lanes =>
      refine ⟨fun s hs => ?_, .inr fun s hs => ?_, fun k k' s s' i i' lane lane' hk _ hi _ _ _ => .inl ?_⟩
      · obtain ⟨j, -, rfl⟩ := List.mem_map.mp hs
        exact SendSealed.start cfg _ .single
      · obtain ⟨j, -, rfl⟩ := List.mem_map.mp hs
        rfl
      · obtain ⟨j, -, rfl⟩ := List.mem_map.mp (List.mem_of_getElem? hk)
        exact hzero _ .single i lane hi

/-- Every other lane with the same beginning of its nonces has taken no packet. -/
theorem of_alone {k i : Nat} {s : SealState} {lane : HistoryLane} (h : σ.alone k i s lane = true)
    {k' i' : Nat} {s' : SealState} {lane' : HistoryLane} (hk : σ[k']? = some s')
    (hi : s'.send.lanes[i']? = some lane') (hne : (k, i) ≠ (k', i'))
    (hshared : Session.shared s' lane' = Session.shared s lane) : lane'.nextSeq = 0 := by
  have hs := List.all_eq_true.mp h (s', k') (List.mem_zipIdx_iff_getElem?.mpr hk)
  have hl := List.all_eq_true.mp hs (lane', i') (List.mem_zipIdx_iff_getElem?.mpr hi)
  have hother : ¬(k' = k ∧ i' = i) := fun heq => hne (by rw [heq.1, heq.2])
  simpa [hother, hshared] using hl

theorem step (haead : cfg.aead.isSome = true) (h : SessionSealed cfg σ) {l : Nat × SealLabel}
    (hsep : σ.Separate cfg l = true) (hs : σ.step cfg l = some τ) : SessionSealed cfg τ := by
  obtain ⟨k₀, l⟩ := l
  unfold Session.step at hs
  dsimp only at hs
  split at hs
  · cases hs
  rename_i s hk
  obtain ⟨t, hstep, rfl⟩ := Option.map_eq_some_iff.mp hs
  simp only [Session.Separate, hk] at hsep
  have hmem : s ∈ σ := List.mem_of_getElem? hk
  obtain ⟨ht, hcont⟩ := (h.sends s hmem).step haead (fun i seq hl lane hi hnone => by
    subst hl
    simpa [hi, hnone] using hsep) hstep
  refine ⟨fun u hu => ?_, ?_, ?_⟩
  · rcases List.mem_or_eq_of_mem_set hu with hu | rfl
    · exact h.sends u hu
    · exact ht
  · rcases h.one with ⟨u, rfl⟩ | hsingle
    · left
      cases k₀ with
      | zero => exact ⟨t, rfl⟩
      | succ k => exact ⟨u, rfl⟩
    · right
      intro u hu
      rcases List.mem_or_eq_of_mem_set hu with hu | rfl
      · exact hsingle u hu
      · exact hcont.sender.trans (hsingle s hmem)
  · -- every lane of the new state is one of the old; only one has taken a packet since
    have hold : ∀ (k : Nat) (u : SealState) (i : Nat) (lane : HistoryLane), (σ.set k₀ t)[k]? = some u →
        u.send.lanes[i]? = some lane → ∃ u' lane₀, σ[k]? = some u' ∧ u'.send.lanes[i]? = some lane₀ ∧
          Session.shared u' lane₀ = Session.shared u lane ∧
          (lane.nextSeq = lane₀.nextSeq ∨ (k = k₀ ∧ l.taken cfg s = some i)) := by
      intro k u i lane hku hi
      rcases getElem?_set_cases hk hku with ⟨rfl, rfl⟩ | ⟨-, hku⟩
      · obtain ⟨lane₀, hi₀, hstripe, hnext⟩ := hcont.lanes i lane hi
        refine ⟨s, lane₀, hk, hi₀, ?_, hnext.imp id fun htaken => ⟨rfl, htaken⟩⟩
        rw [Session.shared, Session.shared, hcont.runID, hstripe]
      · exact ⟨u, lane, hku, hi, rfl, .inl rfl⟩
    have htaken : ∀ i, l.taken cfg s = some i → ∀ lane, s.send.lanes[i]? = some lane →
        σ.alone k₀ i s lane = true := by
      intro i hl lane hi
      cases l with
      | packet =>
          cases hl
          simpa [hi] using hsep
      | _ => cases hl
    intro k k' u u' i i' lane lane' hku hku' hi hi' hne hshared
    obtain ⟨v, lane₀, hkv, hiv, hsv, hnext⟩ := hold k u i lane hku hi
    obtain ⟨v', lane₀', hkv', hiv', hsv', hnext'⟩ := hold k' u' i' lane' hku' hi'
    have hbefore : Session.shared v lane₀ = Session.shared v' lane₀' :=
      hsv.trans (hshared.trans hsv'.symm)
    rcases hnext with hnext | ⟨rfl, hl⟩
    · rcases hnext' with hnext' | ⟨rfl, hl⟩
      · rw [hnext, hnext']
        exact h.apart k k' v v' i i' lane₀ lane₀' hkv hkv' hiv hiv' hne hbefore
      · -- the second lane takes the packet
        rw [hk] at hkv'
        cases hkv'
        left
        rw [hnext]
        exact of_alone (htaken i' hl lane₀' hiv') hkv hiv (fun heq => hne heq.symm) hbefore
    · rw [hk] at hkv
      cases hkv
      right
      have hfirst : lane₀'.nextSeq = 0 := of_alone (htaken i hl lane₀ hiv) hkv' hiv' hne hbefore.symm
      rcases hnext' with hnext' | ⟨rfl, hl'⟩
      · rw [hnext', hfirst]
      · rw [hl] at hl'
        cases hl'
        exact absurd rfl hne

end SessionSealed

/-- In every run of a session that starts no two lanes under the same four bytes of the run id and
the same stripe, and that seals no packet again other than it was, no nonce is used for two
different headers and plaintexts. -/
theorem nonces_unique (cfg : SendConfig) (base : RunID) (run : SessionRun) {ls : List (Nat × SealLabel)}
    {σ : Session}
    (hok : StepsMeet (Session.step cfg) (fun τ l => τ.Separate cfg l = true) (Session.start cfg base run) ls)
    (hrun : runFrom (Session.step cfg) (Session.start cfg base run) ls = some σ) : σ.NoncesUnique cfg := by
  cases haead : cfg.aead.isSome with
  | false =>
      intro x hx
      rw [Session.sealed, haead] at hx
      cases hx
  | true =>
      exact (runFrom_invariant_of_meet (I := SessionSealed cfg)
        (fun _ _ _ h hsep hs => h.step haead hsep hs) ls (SessionSealed.start cfg base run) hok hrun).noncesUnique

def sealingConfig : SendConfig := ⟨4, 0, true, 0, 0, some 16, 0, 0⟩

/-- Each of two lanes sends one packet. -/
def twoLanes : List (Nat × SealLabel) := [(0, .read [1]), (0, .packet), (1, .read [2]), (1, .packet)]

/-- The first packets of the lanes are sealed under one nonce. -/
theorem nonce_shared_by_lanes :
    ∃ σ, runFrom (Session.step sealingConfig)
        (Session.start sealingConfig (Vector.replicate 16 0) (.discard 2)) twoLanes = some σ ∧
      ¬σ.NoncesUnique sealingConfig := by
  have h : (runFrom (Session.step sealingConfig)
      (Session.start sealingConfig (Vector.replicate 16 0) (.discard 2)) twoLanes).any (fun σ =>
        decide (∃ x ∈ σ.sealed sealingConfig, ∃ y ∈ σ.sealed sealingConfig,
          packetAEADNonce x.1 = packetAEADNonce y.1 ∧ x ≠ y)) = true := by
    decide +kernel
  obtain ⟨σ, hrun, hσ⟩ := (Option.any_eq_true ..).mp h
  obtain ⟨x, hx, y, hy, hnonce, hne⟩ := of_decide_eq_true hσ
  exact ⟨σ, hrun, fun hunique => hne (hunique x hx y hy hnonce)⟩

/-- One of the lanes sends two packets, the first of which is sealed again. -/
theorem nonces_unique_one_lane :
    ∃ σ, runFrom (Session.step sealingConfig)
        (Session.start sealingConfig (Vector.replicate 16 0) (.discard 2))
        [(0, .read [1, 2, 3, 4, 5]), (0, .packet), (0, .packet), (0, .finish), (0, .repair 0 0)] = some σ ∧
      σ.NoncesUnique sealingConfig := by
  have h : (runFrom (Session.step sealingConfig)
      (Session.start sealingConfig (Vector.replicate 16 0) (.discard 2))
      [(0, .read [1, 2, 3, 4, 5]), (0, .packet), (0, .packet), (0, .finish), (0, .repair 0 0)]).isSome =
        true := by
    decide +kernel
  obtain ⟨σ, hrun⟩ := Option.isSome_iff_exists.mp h
  exact ⟨σ, hrun, nonces_unique sealingConfig _ (.discard 2) (by decide +kernel) hrun⟩

end Probe
