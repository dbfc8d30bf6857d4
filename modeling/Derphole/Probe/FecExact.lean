import Derphole.Probe.FecRecovery
import Derphole.Probe.GlobalFrame
import Derphole.Probe.StripedReceive

/-!
# When recovery is exact

The receiver of a blast against its transcript.  A lost packet is rebuilt as if
every packet but the last were full, so recovery is exact if they are
(`receivePacket_exact`).  They are if every read that more bytes follow is a whole
number of chunks, and not otherwise (`full_iff_wholeReads`).
-/

namespace Probe

open Lib

/-! ## The receiver -/

/-- A packet is new if its number was not seen. -/
theorem RunState.acceptData_snd (s : RunState) (seq : Nat) :
    (s.acceptData seq).2 = !s.seen.has seq := by
  rw [← SeqSet.add_snd]
  cases hadd : (s.seen.add seq).2 with
  | true => rw [RunState.acceptData_new hadd]
  | false => rw [RunState.acceptData_old hadd]

namespace Received

def recordPayload (v : Received) (groupSize seq : Nat) (payload : List UInt8) : Received :=
  { v with fec := v.fec.storeFECPayload v.seen groupSize seq payload }

/-- A payload that is new is counted. -/
def accept (v : Received) (groupSize seq : Nat) (payload : List UInt8) : Received :=
  recordPayload { v with
    seen := (v.seen.add seq).1
    maxSeqPlusOne := max v.maxSeqPlusOne (seq + 1) } groupSize seq payload

def markDone (v : Received) (totalBytes : Nat) : Received :=
  { v with done := true, totalBytes := totalBytes }

def storeParity (v : Received) (start offset count : Nat) (payload : List UInt8) : Received :=
  { v with fec := v.fec.storeFECParity v.seen start offset count payload }

/-- What a packet changes before recovery. -/
def receive (v : Received) (groupSize : Nat) (p : Packet) : Received :=
  match p.type with
  | .data => if p.payload = [] ∨ v.seen.has p.seq = true then v
      else v.accept groupSize p.seq p.payload
  | .parity => if groupSize ≤ 1 then v
      else v.storeParity p.seq p.offset p.ackFloor p.payload
  | .done => v.markDone p.offset
  | _ => v

variable {v : Received} {groupSize : Nat} {p : Packet}

theorem receive_data (ht : p.type = .data) :
    v.receive groupSize p = if p.payload = [] ∨ v.seen.has p.seq = true then v
      else v.accept groupSize p.seq p.payload := by
  rw [receive, ht]

theorem receive_parity (ht : p.type = .parity) :
    v.receive groupSize p = if groupSize ≤ 1 then v
      else v.storeParity p.seq p.offset p.ackFloor p.payload := by
  rw [receive, ht]

theorem receive_done (ht : p.type = .done) : v.receive groupSize p = v.markDone p.offset := by
  rw [receive, ht]

end Received

/-- Run where `I` holds, `m` ends with `J`, whatever its outcome, and does not index out of
range. -/
def Guarded {α : Type} (I J : Received → Prop) (m : Recv α) : Prop :=
  Triple (fun c => I c.received) m (fun _ c => J c.received)
    fun e c => e ≠ .outOfRange ∧ J c.received

theorem Framed.guarded {α : Type} {m : Recv α} (hm : Framed m) (I : Received → Prop) :
    Guarded I I m :=
  fun c hc => (hm c.received).conseq (fun _ h => h) (fun _ _ h => h ▸ hc)
    (fun _ _ h => ⟨h.1, h.2 ▸ hc⟩) c rfl

section Handling

variable {I J : Received → Prop} {cfg : RecvConfig}

/-- Counting and writing a payload that was marked as seen. -/
theorem acceptGlobalPayload_guarded {seq offset : Nat} {payload : List UInt8} {v : Received}
    (hJ : J (v.accept cfg.fecGroupSize seq payload)) :
    Triple (fun c => c.received = { v with
        seen := (v.seen.add seq).1, maxSeqPlusOne := max v.maxSeqPlusOne (seq + 1) })
      (acceptGlobalPayload cfg seq offset payload) (fun _ c => J c.received)
      fun e c => e ≠ .outOfRange ∧ J c.received := by
  refine Triple.bind (Q := fun _ c => J c.received) (Triple.update fun c hc => ?_) fun _ => ?_
  · have hstore : ({ c with run := c.run.storeFECPayload cfg.fecGroupSize seq payload } : Coord
        ).received = c.received.recordPayload cfg.fecGroupSize seq payload := rfl
    rw [hstore, hc]
    exact hJ
  · exact Triple.bind ((Framed.writeGlobalPayload cfg seq offset payload).guarded J) fun _ =>
      (Framed.update fun _ => rfl).guarded J

/-- A payload seen for the first time. -/
theorem accept_guarded {seq offset : Nat} {payload : List UInt8} {β : Type} {k : Unit → Recv β}
    {K : β → Coord → Prop} {E : RecvErr → Coord → Prop}
    (hJ : ∀ v, I v → v.seen.has seq = false → J (v.accept cfg.fecGroupSize seq payload))
    (hk : Triple (fun c => J c.received) (k ()) K E) (hE : ∀ e c, e ≠ .outOfRange ∧ J c.received → E e c) :
    Triple (fun c => I c.received ∧ c.run.seen.has seq = false)
      (do
        updateRun fun s => (s.acceptData seq).1
        acceptGlobalPayload cfg seq offset payload
        k ()) K E := by
  refine Triple.of_eq fun c₀ h₀ => ?_
  have hnew : (c₀.run.seen.add seq).2 = true := by
    rw [SeqSet.add_snd, h₀.2]
    rfl
  refine Triple.bind (Q := fun _ c => c.received = { c₀.received with
    seen := (c₀.received.seen.add seq).1
    maxSeqPlusOne := max c₀.received.maxSeqPlusOne (seq + 1) }) (Triple.update fun c hc => ?_)
    fun _ => ?_
  · rw [hc]
    show ({ c₀ with run := (c₀.run.acceptData seq).1 } : Coord).received = _
    rw [RunState.acceptData_new hnew]
    rfl
  · refine Triple.bind ?_ fun _ => hk
    exact (acceptGlobalPayload_guarded (hJ _ h₀.1 h₀.2)).conseq (fun _ h => h) (fun _ _ h => h) hE

/-- What is rebuilt is taken in like a packet. -/
theorem acceptRecovered_guarded (rs : List RecoveredPacket)
    (hrs : ∀ r ∈ rs, ∀ v, I v → v.seen.has r.seq = false →
      I (v.accept cfg.fecGroupSize r.seq r.payload)) : Guarded I I (acceptRecovered cfg rs) := by
  induction rs with
  | nil => exact (Framed.pure ()).guarded I
  | cons r rs ih =>
      have hrest := ih fun r' hr' => hrs r' (List.mem_cons_of_mem _ hr')
      refine Triple.read_bind fun c hc => ?_
      split
      · rename_i hnew
        have hunseen : c.run.seen.has r.seq = false := by
          rw [RunState.acceptData_snd] at hnew
          simpa using hnew
        exact (accept_guarded (k := fun _ => acceptRecovered cfg rs) (hrs r List.mem_cons_self) hrest
          fun _ _ h => h).conseq (fun _ h => h ▸ ⟨hc, hunseen⟩) (fun _ _ h => h) fun _ _ h => h
      · exact Triple.conseq hrest (fun _ h => h ▸ hc) (fun _ _ h => h) fun _ _ h => h

/-- The packets of a blast over one socket take the global path. -/
theorem receivePacket_global {a : Arrival} {P : Coord → Prop} {Q : Bool → Coord → Prop}
    {E : RecvErr → Coord → Prop} (hstriped : ∀ c, P c → c.run.striped = false)
    (hid : a.packet.stripeID = 0) (htotal : a.totalStripes ≤ 1)
    (h : Triple P (handleGlobalPacket cfg a.order a.packet.type a.packet.seq a.packet.offset
      (if a.packet.type = .parity then a.packet.ackFloor else 0) a.packet.payload) Q E) :
    Triple P (receivePacket cfg a) Q E := by
  refine Triple.read_bind fun c hc => ?_
  rw [if_neg (by simp [hid, htotal, hstriped c hc])]
  exact h.conseq (fun _ h => h ▸ hc) (fun _ _ h => h) fun _ _ h => h

/-- Only a Hello announces stripes. -/
theorem Arrival.totalStripes_le {a : Arrival} (hhello : a.packet.type ≠ .hello) : a.totalStripes ≤ 1 := by
  rw [Arrival.totalStripes, if_neg fun h => hhello h.1]

/-- A packet is taken in, and then recovery runs. -/
theorem receivePacket_guarded {a : Arrival} (hstriped : ∀ v, I v → v.striped = false)
    (hid : a.packet.stripeID = 0) (hhello : a.packet.type ≠ .hello)
    (hnext : ∀ v, I v → J (v.receive cfg.fecGroupSize a.packet))
    (hrec : Guarded J J (recoverFEC cfg a.order)) : Guarded I J (receivePacket cfg a) := by
  have hcomplete := (Framed.completeRun cfg).guarded J
  -- a packet that changes nothing
  have hdrop : ∀ {P : Coord → Prop}, (∀ c, P c → I c.received) →
      (∀ c, P c → c.received.receive cfg.fecGroupSize a.packet = c.received) →
      Triple P (pure false : Recv Bool) (fun _ c => J c.received)
        fun e c => e ≠ .outOfRange ∧ J c.received := by
    intro P hI hr
    refine Triple.pure fun c hc => ?_
    rw [← hr c hc]
    exact hnext _ (hI c hc)
  refine receivePacket_global (fun c hc => hstriped _ hc) hid (Arrival.totalStripes_le hhello) ?_
  unfold handleGlobalPacket
  split
  · rename_i ht
    refine Triple.ite (fun hnil => hdrop (fun _ h => h) fun _ _ => ?_) fun hne => ?_
    · rw [Received.receive_data ht, if_pos (.inl hnil)]
    refine Triple.read_bind fun c hc => ?_
    refine Triple.ite (fun hnew => ?_) fun hold => ?_
    · have hunseen : c.run.seen.has a.packet.seq = false := by
        rw [RunState.acceptData_snd] at hnew
        simpa using hnew
      refine Triple.conseq (accept_guarded (I := I) (J := J)
        (k := fun _ => do
          recoverFEC cfg a.order
          let complete ← completeRun cfg
          let c ← read
          pure (complete || (decide (0 < cfg.expectedBytes) &&
            decide (cfg.expectedBytes ≤ c.bytesReceived) && c.run.done)))
        (fun v hv hnew => ?_)
        (Triple.bind hrec fun _ => Triple.bind hcomplete fun _ =>
          (Framed.read_bind fun _ => Framed.pure _).guarded J) fun _ _ h => h)
        (fun _ h => h ▸ ⟨hc, hunseen⟩) (fun _ _ h => h) fun _ _ h => h
      have hv' := hnext v hv
      rwa [Received.receive_data ht, if_neg (by simp [hne, hnew])] at hv'
    · have hseen : c.run.seen.has a.packet.seq = true := by
        rw [RunState.acceptData_snd] at hold
        simpa using hold
      refine hdrop (fun _ h => h ▸ hc) fun _ h => ?_
      rw [h, Received.receive_data ht, if_pos (.inr hseen)]
  · rename_i ht
    rw [if_pos ht]
    refine Triple.ite (fun hg => hdrop (fun _ h => h) fun _ _ => ?_) fun hg => ?_
    · rw [Received.receive_parity ht, if_pos hg]
    refine Triple.bind (Q := fun _ (c : Coord) => J c.received) (Triple.update fun c hc => ?_) fun _ =>
      Triple.bind hrec fun _ => (Framed.pure false).guarded J
    have hv' := hnext _ hc
    rwa [Received.receive_parity ht, if_neg hg] at hv'
  · rename_i ht
    refine Triple.bind (Q := fun _ (c : Coord) => J c.received) (Triple.update fun c hc => ?_) fun _ =>
      Triple.bind hrec fun _ => hcomplete
    have hv' := hnext _ hc
    rwa [Received.receive_done ht] at hv'
  · rename_i hdata hparity hdone
    refine hdrop (fun _ h => h) fun c _ => ?_
    rw [Received.receive]
    split
    · exact absurd ‹_› hdata
    · exact absurd ‹_› hparity
    · exact absurd ‹_› hdone
    · rfl

/-- What holds after every packet holds after all of them, and none indexes out of range. -/
theorem receivePackets_guarded {as : List Arrival} {c : Coord}
    (h : ∀ a ∈ as, Guarded I I (receivePacket cfg a)) (hc : I c.received) :
    I (receivePackets cfg c as).received ∧ ∀ pre a post, as = pre ++ a :: post →
      (exec (receivePacket cfg a) (receivePackets cfg c pre)).1 ≠ .error .outOfRange := by
  induction as generalizing c with
  | nil =>
      refine ⟨hc, fun pre a post heq => ?_⟩
      cases pre with
      | nil => cases heq
      | cons _ _ => cases heq
  | cons b as ih =>
      have hb := h b List.mem_cons_self c hc
      have hnext : I (exec (receivePacket cfg b) c).2.received ∧
          (exec (receivePacket cfg b) c).1 ≠ .error .outOfRange := by
        cases hr : exec (receivePacket cfg b) c with
        | mk r t =>
            rw [hr] at hb
            cases r with
            | ok _ => exact ⟨hb, by simp⟩
            | error e => exact ⟨hb.2, by simpa using hb.1⟩
      obtain ⟨hend, hrange⟩ := ih (fun a ha => h a (List.mem_cons_of_mem _ ha)) hnext.1
      refine ⟨hend, fun pre a post heq => ?_⟩
      cases pre with
      | nil =>
          cases heq
          exact hnext.2
      | cons a' pre =>
          cases heq
          exact hrange pre a post rfl

end Handling

/-! ## The packets of a transcript -/

/-- What was received are pieces, and what is kept for recovery is right. -/
structure FecInv (chunk groupSize : Nat) (ps : List (List UInt8)) (v : Received) : Prop where
  striped : v.striped = false
  seen_lt : ∀ i, v.seen.has i = true → i < ps.length
  max_le : v.maxSeqPlusOne ≤ ps.length
  total : v.done = true → v.totalBytes = offsetAt ps ps.length
  fec : FecSpec chunk groupSize ps v.seen v.fec

namespace FecInv

variable {chunk groupSize : Nat} {ps : List (List UInt8)} {v : Received}

theorem empty : FecInv chunk groupSize ps Coord.empty.received where
  striped := rfl
  seen_lt := fun i h => by
    rw [show Coord.empty.received.seen = SeqSet.empty from rfl, SeqSet.has_empty] at h
    cases h
  max_le := Nat.zero_le _
  total := fun h => by cases h
  fec := FecSpec.empty

theorem accept (h : FecInv chunk groupSize ps v) (hg : 1 < groupSize) {i : Nat} (hi : i < ps.length)
    (hpiece : ps.getD i [] ≠ [] ∧ (ps.getD i []).length ≤ chunk) (hnew : v.seen.has i = false) :
    FecInv chunk groupSize ps (v.accept groupSize i (ps.getD i [])) where
  striped := h.striped
  seen_lt := fun j hj => by
    have hj' : (v.seen.add i).1.has j = true := hj
    rw [SeqSet.has_add, Bool.or_eq_true, decide_eq_true_eq] at hj'
    rcases hj' with hj' | rfl
    · exact h.seen_lt j hj'
    · exact hi
  max_le := Nat.max_le.mpr ⟨h.max_le, hi⟩
  total := h.total
  fec := h.fec.storePayload hg hi hpiece hnew

theorem markDone (h : FecInv chunk groupSize ps v) :
    FecInv chunk groupSize ps (v.markDone (offsetAt ps ps.length)) :=
  ⟨h.striped, h.seen_lt, h.max_le, fun _ => rfl, h.fec⟩

theorem storeParity (h : FecInv chunk groupSize ps v) {start count : Nat}
    (hg : GroupAt groupSize ps.length start count) :
    FecInv chunk groupSize ps (v.storeParity start (offsetAt ps start) count
      (parityBytes chunk ps start count)) :=
  ⟨h.striped, h.seen_lt, h.max_le, h.total, h.fec.storeParity hg⟩

/-- The size of the stream, where it is known. -/
theorem known {c : Coord} (h : FecInv chunk groupSize ps c.received) {expectedBytes : Int}
    (hexp : expectedBytes ≤ 0 ∨ expectedBytes = offsetAt ps ps.length) :
    c.run.knownTotalBytes expectedBytes = 0 ∨
      c.run.knownTotalBytes expectedBytes = offsetAt ps ps.length := by
  rw [RunState.knownTotalBytes]
  split
  · exact .inr (h.total ‹_›)
  · rcases hexp with hle | heq
    · exact .inl (Int.toNat_of_nonpos hle)
    · rw [heq]
      exact .inr (Int.toNat_natCast _)

end FecInv

theorem getD_piece {chunk : Nat} {ps : List (List UInt8)}
    (hpieces : ∀ p ∈ ps, p ≠ [] ∧ p.length ≤ chunk) {i : Nat} (hi : i < ps.length) :
    ps.getD i [] ≠ [] ∧ (ps.getD i []).length ≤ chunk := by
  rw [List.getD_eq_getElem _ _ hi]
  exact hpieces _ (List.getElem_mem hi)

section Exact

variable {chunk : Nat} {ps : List (List UInt8)} {cfg : RecvConfig}

/-- Recovery gives back pieces, and these are taken in. -/
def ExactInv (chunk groupSize : Nat) (ps : List (List UInt8)) (v : Received) : Prop :=
  FecInv chunk groupSize ps v ∧ ∀ r ∈ v.recovered, IsPiece ps r

theorem recoverFECLoop_exact (hg : 1 < cfg.fecGroupSize) (hfull : Full chunk ps)
    (hpieces : ∀ p ∈ ps, p ≠ [] ∧ p.length ≤ chunk)
    (hexp : cfg.expectedBytes ≤ 0 ∨ cfg.expectedBytes = offsetAt ps ps.length)
    (order : List Nat → List Nat) (fuel : Nat) :
    Guarded (ExactInv chunk cfg.fecGroupSize ps) (ExactInv chunk cfg.fecGroupSize ps)
      (recoverFECLoop cfg order fuel) := by
  induction fuel with
  | zero => exact (Framed.pure ()).guarded _
  | succ fuel ih =>
      refine Triple.read_bind fun c hc => ?_
      obtain ⟨f, rs, hr, hspec, hrs⟩ := recoverFECKeys_exact hfull hpieces (hc.1.known hexp)
        (order c.run.fec.parity.keys) (s := c.run) ⟨hc.1.fec, hc.1.seen_lt, hc.1.max_le⟩
      rw [RunState.recoverFEC, hr]
      dsimp only
      refine Triple.bind (Q := fun _ c => ExactInv chunk cfg.fecGroupSize ps c.received)
        (Triple.update fun c' hc' => ?_) fun _ => ?_
      · rw [hc']
        refine ⟨⟨hc.1.striped, hc.1.seen_lt, hc.1.max_le, hc.1.total, hspec⟩, fun r hmem => ?_⟩
        rcases List.mem_append.mp hmem with hmem | hmem
        · exact hc.2 r hmem
        · exact hrs r hmem
      · refine Triple.ite (fun _ => (Framed.pure ()).guarded _) fun _ => ?_
        refine Triple.bind (acceptRecovered_guarded rs fun r hmem v hv hnew => ?_) fun _ =>
          Triple.bind ((Framed.completeRun cfg).guarded _) fun _ => ih
        obtain ⟨i, hi, rfl⟩ := hrs r hmem
        exact ⟨hv.1.accept hg hi (getD_piece hpieces hi) hnew, hv.2⟩

/-- The packets of a transcript are taken in. -/
theorem receive_of_transcript {groupSize : Nat} {sent : List Packet} {I : Received → Prop}
    (ht : Transcript chunk groupSize ps sent)
    (hacc : ∀ v i, I v → i < ps.length → v.seen.has i = false →
      I (v.accept groupSize i (ps.getD i [])))
    (hpar : ∀ v start count, I v → GroupAt groupSize ps.length start count →
      I (v.storeParity start (offsetAt ps start) count (parityBytes chunk ps start count)))
    (hdone : ∀ v, I v → I (v.markDone (offsetAt ps ps.length))) {p : Packet} (hp : p ∈ sent)
    {v : Received} (hv : I v) : I (v.receive groupSize p) := by
  rcases (ht.mem p).mp hp with ⟨i, hi, rfl⟩ | ⟨start, count, hgroup, rfl⟩ | rfl
  · rw [Received.receive_data rfl]
    split
    · exact hv
    · rename_i hnew
      have hunseen : ¬v.seen.has i = true := fun h => hnew (.inr h)
      exact hacc v i hv hi (by simpa using hunseen)
  · rw [Received.receive_parity rfl]
    split
    · exact hv
    · exact hpar v start count hv hgroup
  · exact hdone v hv

theorem stripeID_of_transcript {groupSize : Nat} {sent : List Packet}
    (ht : Transcript chunk groupSize ps sent) {p : Packet} (hp : p ∈ sent) :
    p.stripeID = 0 ∧ p.type ≠ .hello := by
  rcases (ht.mem p).mp hp with ⟨i, hi, rfl⟩ | ⟨start, count, hgroup, rfl⟩ | rfl
  · exact ⟨rfl, by simp [dataPacket]⟩
  · exact ⟨rfl, by simp [parityPacket]⟩
  · exact ⟨rfl, by simp [donePacket]⟩

theorem receivePacket_exact {sent : List Packet} (hg : 1 < cfg.fecGroupSize) (hfull : Full chunk ps)
    (ht : Transcript chunk cfg.fecGroupSize ps sent)
    (hexp : cfg.expectedBytes ≤ 0 ∨ cfg.expectedBytes = offsetAt ps ps.length) {a : Arrival}
    (ha : a.packet ∈ sent) :
    Guarded (ExactInv chunk cfg.fecGroupSize ps) (ExactInv chunk cfg.fecGroupSize ps)
      (receivePacket cfg a) := by
  obtain ⟨hid, hhello⟩ := stripeID_of_transcript ht ha
  have hrec : Guarded (ExactInv chunk cfg.fecGroupSize ps) (ExactInv chunk cfg.fecGroupSize ps)
      (recoverFEC cfg a.order) := by
    rw [recoverFEC, if_neg (by omega)]
    exact Triple.read_bind fun c hc =>
      Triple.conseq (recoverFECLoop_exact hg hfull ht.pieces hexp a.order _) (fun _ h => h ▸ hc)
        (fun _ _ h => h) fun _ _ h => h
  exact receivePacket_guarded (fun v hv => hv.1.striped) hid hhello (fun _ hv =>
    receive_of_transcript ht
      (fun v i hv hi hnew => ⟨hv.1.accept hg hi (getD_piece ht.pieces hi) hnew, hv.2⟩)
      (fun v start count hv hgroup => ⟨hv.1.storeParity hgroup, hv.2⟩)
      (fun v hv => ⟨hv.1.markDone, hv.2⟩) ha hv) hrec

end Exact

/-! ## Reads -/

/-- Every read that more bytes follow is a whole number of chunks. -/
def WholeReads (chunk : Nat) : List (List UInt8) → Prop
  | [] => True
  | bytes :: rest => ((∃ later ∈ rest, later ≠ []) → chunk ∣ bytes.length) ∧ WholeReads chunk rest

instance decidableWholeReads (chunk : Nat) : (reads : List (List UInt8)) →
    Decidable (WholeReads chunk reads)
  | [] => inferInstanceAs (Decidable True)
  | bytes :: rest =>
      have := decidableWholeReads chunk rest
      inferInstanceAs (Decidable (((∃ later ∈ rest, later ≠ []) → chunk ∣ bytes.length) ∧
        WholeReads chunk rest))

theorem full_cons {chunk : Nat} (p : List UInt8) (ps : List (List UInt8)) :
    Full chunk (p :: ps) ↔ (ps ≠ [] → p.length = chunk) ∧ Full chunk ps := by
  constructor
  · intro h
    refine ⟨fun hne => ?_, fun i hi => ?_⟩
    · exact h 0 (Nat.succ_lt_succ (List.length_pos_iff.mpr hne))
    · exact h (i + 1) (Nat.succ_lt_succ hi)
  · rintro ⟨hp, hps⟩ i hi
    cases i with
    | zero =>
        refine hp fun hnil => ?_
        rw [hnil] at hi
        exact absurd hi (Nat.lt_irrefl 1)
    | succ i => exact hps i (Nat.lt_of_succ_lt_succ hi)

theorem full_append {chunk : Nat} (xs ys : List (List UInt8)) :
    Full chunk (xs ++ ys) ↔
      Full chunk xs ∧ Full chunk ys ∧ (ys ≠ [] → ∀ p ∈ xs, p.length = chunk) := by
  induction xs with
  | nil =>
      refine ⟨fun h => ⟨fun i hi => (by cases hi), h, fun _ p hp => (by cases hp)⟩, fun h => h.2.1⟩
  | cons x xs ih =>
      rw [List.cons_append, full_cons, full_cons, ih]
      simp only [List.mem_cons, forall_eq_or_imp, ne_eq, List.append_eq_nil_iff, not_and]
      constructor
      · rintro ⟨hx, hxs, hys, hall⟩
        exact ⟨⟨fun hne => hx fun h => absurd h hne, hxs⟩, hys,
          fun hne => ⟨hx fun _ => hne, hall hne⟩⟩
      · rintro ⟨⟨hx, hxs⟩, hys, hall⟩
        refine ⟨fun h => ?_, hxs, hys, fun hne => (hall hne).2⟩
        by_cases hnil : xs = []
        · exact (hall (h hnil)).1
        · exact hx hnil

section Cut

variable {chunk : Nat} (hc : 0 < chunk)

include hc

theorem cut_eq_nil {bytes : List UInt8} : cut chunk bytes = [] ↔ bytes = [] := by
  constructor
  · intro h
    by_contra hne
    rw [cut_of_ne hc hne] at h
    cases h
  · rintro rfl
    exact cut_nil chunk

/-- A read is cut into full pieces and the rest. -/
theorem full_cut (bytes : List UInt8) : Full chunk (cut chunk bytes) := by
  induction h : bytes.length using Nat.strong_induction_on generalizing bytes with
  | h n ih =>
      by_cases hb : bytes = []
      · rw [hb, cut_nil]
        exact fun i hi => by cases hi
      · have hpos := List.length_pos_iff.mpr hb
        rw [cut_of_ne hc hb, full_cons]
        refine ⟨fun hne => ?_, ih _ (by rw [List.length_drop]; omega) _ rfl⟩
        have hdrop : bytes.drop chunk ≠ [] := fun hd => hne ((cut_eq_nil hc).mpr hd)
        have := List.length_pos_iff.mpr hdrop
        rw [List.length_drop] at this
        rw [List.length_take]
        omega

theorem cut_all_full (bytes : List UInt8) :
    (∀ p ∈ cut chunk bytes, p.length = chunk) ↔ chunk ∣ bytes.length := by
  induction h : bytes.length using Nat.strong_induction_on generalizing bytes with
  | h n ih =>
      by_cases hb : bytes = []
      · rw [hb, List.length_nil] at h
        rw [hb, cut_nil, ← h]
        exact ⟨fun _ => Nat.dvd_zero _, fun _ p hp => (by cases hp)⟩
      · have hpos := List.length_pos_iff.mpr hb
        have hrest := ih _ (by rw [List.length_drop]; omega) (bytes.drop chunk) rfl
        rw [List.length_drop, h] at hrest
        rw [cut_of_ne hc hb]
        simp only [List.mem_cons, forall_eq_or_imp]
        rw [hrest, List.length_take, h]
        constructor
        · rintro ⟨hlen, hdvd⟩
          have : chunk ≤ n := by omega
          exact (Nat.dvd_sub_iff_left this (Nat.dvd_refl chunk)).mp hdvd
        · intro hdvd
          have hle := Nat.le_of_dvd (by omega) hdvd
          exact ⟨by omega, Nat.dvd_sub hdvd (Nat.dvd_refl chunk)⟩

theorem flatMap_cut_ne_nil (reads : List (List UInt8)) :
    reads.flatMap (cut chunk) ≠ [] ↔ ∃ bytes ∈ reads, bytes ≠ [] := by
  rw [ne_eq, List.flatMap_eq_nil_iff]
  simp only [cut_eq_nil hc, not_forall, exists_prop, ne_eq]

theorem full_iff_wholeReads (reads : List (List UInt8)) :
    Full chunk (reads.flatMap (cut chunk)) ↔ WholeReads chunk reads := by
  induction reads with
  | nil => exact ⟨fun _ => trivial, fun _ i hi => (by cases hi)⟩
  | cons bytes rest ih =>
      rw [List.flatMap_cons, full_append, ih, flatMap_cut_ne_nil hc, cut_all_full hc, WholeReads]
      exact ⟨fun h => ⟨h.2.2, h.2.1⟩, fun h => ⟨full_cut hc bytes, h.2, h.1⟩⟩

end Cut

end Probe
