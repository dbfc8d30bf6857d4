import Derphole.Session.HandoffAgree

/-!
# Completion on the relay

The sender may end its relay phase as finished without the receiver being told.  It returns nil when it
sees the stop signal, or the end of the goroutine for acknowledgements, with a spool that is done, and it
has sent no EOF frame then; and a handoff counts as finished when the spool turns out to be done behind
it, though the receiver goes on to the direct path.

All of these need a spool that is exhausted: the source has ended, and everything is sent.  If the loop
acts on the signal only before that, and takes the result of the goroutine only when it waits for the last
acknowledgement, and the source does not end behind a handoff, then finished means that the EOF frame
was sent and that the receiver returns nil when it has the frames on the relay (`prefix_completion`).
-/

namespace Session

open Lib

namespace RelayPrefix

/-- The source has ended and all of it is sent. -/
def exhausted (s : RelayPrefix) : Bool := s.spool.eof && decide (s.sentTo = s.spool.sourceOffset)

/-- The caller has not yet seen whether the spool is done. -/
def asking : PrefixCaller → Bool
  | .stopping | .returned | .marked _ => true
  | _ => false

/-- From the decision for a handoff until the caller has seen that the spool is not done. -/
def handingOff (s : RelayPrefix) : Bool :=
  match s.pc with
  | .handoff _ | .handoffSent _ => true
  | .returned true => s.sentHandoff && asking s.caller
  | _ => false

/-- What `pumpSource` is about to store. -/
def stores (p : Spool) : Option (List UInt8 × SourceResult) :=
  match p.pump with
  | .got payload result => some (payload, result)
  | _ => none

/-- The loop acts on the signal, and on the result of the goroutine for acknowledgements, before the
spool is done; it hands off before the spool is exhausted, and the source does not end behind a
handoff with all of it sent. -/
def InTime (s : RelayPrefix) : PrefixLabel → Prop
  | .stopSeen => s.spool.done = false
  | .boundary => s.spool.readOffset > 0 → s.exhausted = false
  | .ackResult => s.pc = .pending → s.spool.done = false
  | .store =>
      s.handingOff = true → stores s.spool = some ([], .eof) → s.sentTo < s.spool.sourceOffset
  | .storeFails _ =>
      s.handingOff = true → (stores s.spool).map Prod.snd = some .eof → s.sentTo < s.spool.sourceOffset
  | _ => True

instance (s : RelayPrefix) : ∀ l, Decidable (InTime s l)
  | .stopSeen => inferInstanceAs (Decidable (_ = _))
  | .boundary => inferInstanceAs (Decidable (_ → _))
  | .ackResult => inferInstanceAs (Decidable (_ → _))
  | .store => inferInstanceAs (Decidable (_ → _ → _))
  | .storeFails _ => inferInstanceAs (Decidable (_ → _ → _))
  | .turn | .pull _ _ | .pass | .enter | .take | .takeFails | .giveUp | .sendData | .sendEOF
  | .sendHandoff | .pendingAck | .pendingTimer | .completeAck | .complete | .handoffAck | .anyAck
  | .boundaryReached | .fail | .ackRecv | .ackEvent | .ackCheck | .ackFails | .watch | .interrupt
  | .closeStop | .result | .mark | .checkDone | .rewind | .newReader | .readerEnter | .readerTake _
  | .readerTakeFails _ | .readerGiveUp _ | .readerCopy _ | .loseFrame _ | .loseAck _ | .deliver _
  | .receiverFails => isTrue trivial

end RelayPrefix

/-- The relay loses nothing, and the receiver has no error of its own. -/
def PrefixLabel.delivers : PrefixLabel → Bool
  | .loseFrame _ | .loseAck _ | .receiverFails => false
  | _ => true

namespace PrefixReceiver

variable {S : List UInt8} {hi : Nat} {r : PrefixReceiver}

theorem finishIfBoundaryReached_eofOffset : r.finishIfBoundaryReached.1.eofOffset = r.eofOffset := by
  rw [finishIfBoundaryReached]
  split
  · rfl
  · split <;> rfl

theorem finishIfBoundaryReached_status :
    r.finishIfBoundaryReached.1.status = r.status ∧
        (∀ offset, r.eofOffset = some offset → r.rx.watermark < offset) ∨
      r.finishIfBoundaryReached.1.status = .finished := by
  rw [finishIfBoundaryReached]
  split
  next hnone =>
    refine .inl ⟨rfl, ?_⟩
    intro offset ho
    rw [hnone] at ho
    cases ho
  next eofOffset hsome =>
    split
    · exact .inr rfl
    next hbelow =>
      refine .inl ⟨rfl, ?_⟩
      intro offset ho
      rw [hsome] at ho
      cases ho
      exact Nat.lt_of_not_le hbelow

/-- A data frame fails, or the receiver goes on or finishes at the offset of the EOF frame. -/
theorem handle_data (h : Holds S hi r) (hrun : r.status = .running) {chunk : HandoffChunk}
    (hframe : FrameOk S hi (.data chunk)) (fault : Option HandoffReceiver.WriteFault) :
    (r.handle fault (.data chunk)).1.eofOffset = r.eofOffset ∧
      ((r.handle fault (.data chunk)).1.status = .running ∧
          (∀ offset, r.eofOffset = some offset →
            (r.handle fault (.data chunk)).1.rx.watermark < offset) ∨
        (r.handle fault (.data chunk)).1.status = .finished ∨
        (r.handle fault (.data chunk)).1.status = .failed ∧
          (r.handle fault (.data chunk)).1.rx.watermark < hi) := by
  rw [PrefixReceiver.handle]
  split
  next rx heq => exact ⟨rfl, .inr (.inr ⟨rfl, h.below_of_refused hrun hframe heq⟩)⟩
  next rx heq =>
    refine ⟨finishIfBoundaryReached_eofOffset, ?_⟩
    rcases finishIfBoundaryReached_status (r := { r with rx := rx }) with ⟨hstatus, hbelow⟩ | hfinished
    · refine .inl ⟨hstatus.trans hrun, ?_⟩
      rw [finishIfBoundaryReached_rx]
      exact hbelow
    · exact .inr (.inl hfinished)

end PrefixReceiver

namespace RelayPrefix

/-! ## The invariant -/

/-- What was sent when the loop is here. -/
def PcFine (p : Spool) (sentTo : Nat) (sentEOF sentHandoff : Bool) (caller : PrefixCaller) :
    PrefixPc → Prop
  | .eof => sentEOF = false ∧ sentHandoff = false ∧ p.eof = true
  | .bound _ => sentEOF = false ∧ sentHandoff = false ∧ caller ≠ .relaying
  | .handoff _ =>
      sentEOF = false ∧ sentHandoff = false ∧ caller ≠ .relaying ∧
        (p.eof = true → sentTo ≠ p.sourceOffset)
  | .handoffSent _ =>
      sentEOF = false ∧ sentHandoff = true ∧ caller ≠ .relaying ∧
        (p.eof = true → sentTo ≠ p.sourceOffset)
  | .complete => sentEOF = true ∧ sentHandoff = false ∧ p.eof = true
  | .returned true =>
      sentEOF = true ∧ sentHandoff = false ∧ p.done = true ∨
        sentEOF = false ∧ sentHandoff = true ∧ caller ≠ .relaying ∧
          (asking caller = true → p.eof = true → sentTo ≠ p.sourceOffset)
  | .returned false => sentEOF = true → sentHandoff = false
  | _ => sentEOF = false ∧ sentHandoff = false

structure Timely (s : RelayPrefix) : Prop where
  pcFine : PcFine s.spool s.sentTo s.sentEOF s.sentHandoff s.caller s.pc
  finished : s.caller = .finished → s.sentEOF = true ∧ s.sentHandoff = false ∧ s.spool.done = true
  noHandoff : s.sentHandoff = false →
    (∀ boundary, .handoff boundary ∉ s.frames) ∧ s.receiver.status ≠ .handedOff
  eofs : ∀ offset, .eof offset ∈ s.frames → offset ≤ s.spool.sourceOffset
  /-- The receiver still waits for the EOF frame, or for data before it. -/
  eof : s.sentEOF = true → s.receiver.status = .running →
    (∃ offset, .eof offset ∈ s.frames) ∨
      ∃ offset, s.receiver.eofOffset = some offset ∧ offset ≤ s.spool.sourceOffset ∧
        s.receiver.rx.watermark < offset
  failed : s.receiver.status = .failed → s.receiver.rx.watermark < s.sentTo

theorem PcFine.spool {p q : Spool} {n : Nat} {e k : Bool} {c : PrefixCaller} {pc : PrefixPc}
    (h : PcFine p n e k c pc) (heof : q.eof = p.eof) (hsource : q.sourceOffset = p.sourceOffset)
    (hacked : p.ackedWatermark ≤ q.ackedWatermark) : PcFine q n e k c pc := by
  cases pc with
  | returned ok =>
      cases ok with
      | false => exact h
      | true =>
          rcases h with ⟨he, hk, hdone⟩ | ⟨he, hk, hc, hopen⟩
          · exact .inl ⟨he, hk, done_mono hdone heof hsource hacked⟩
          · rw [PcFine, heof, hsource]
            exact .inr ⟨he, hk, hc, hopen⟩
  | eof =>
      rw [PcFine, heof]
      exact h
  | complete =>
      rw [PcFine, heof]
      exact h
  | handoff boundary =>
      rw [PcFine, heof, hsource]
      exact h
  | handoffSent boundary =>
      rw [PcFine, heof, hsource]
      exact h
  | top => exact h
  | next => exact h
  | waiting chunkLen => exact h
  | data chunk => exact h
  | pending => exact h
  | bound top => exact h

/-- Nothing was sent but data. -/
def Early : PrefixPc → Prop
  | .complete | .handoffSent _ | .returned _ => False
  | _ => True

theorem PcFine.flags {p : Spool} {n : Nat} {e k : Bool} {c : PrefixCaller} {pc : PrefixPc}
    (h : PcFine p n e k c pc) (hearly : Early pc) : e = false ∧ k = false := by
  cases pc with
  | complete => exact hearly.elim
  | handoffSent boundary => exact hearly.elim
  | returned ok => exact hearly.elim
  | eof => exact ⟨h.1, h.2.1⟩
  | bound top => exact ⟨h.1, h.2.1⟩
  | handoff boundary => exact ⟨h.1, h.2.1⟩
  | top => exact h
  | next => exact h
  | waiting chunkLen => exact h
  | data chunk => exact h
  | pending => exact h

section

variable {S : List UInt8} {s t : RelayPrefix}

theorem timely_init : Timely init where
  pcFine := ⟨rfl, rfl⟩
  finished := fun h => by cases h
  noHandoff := fun _ => ⟨fun _ h => (by cases h), fun h => by cases h⟩
  eofs := fun _ h => by cases h
  eof := fun h => by cases h
  failed := fun h => by cases h

/-- A spool that is done is exhausted. -/
theorem Inv.sentTo_of_done (hi : Inv S s) (hrelay : OnRelay s.caller) (hdone : s.spool.done = true) :
    s.spool.eof = true ∧ s.sentTo = s.spool.sourceOffset ∧
      s.receiver.rx.watermark = s.spool.sourceOffset := by
  simp only [Spool.done, Bool.and_eq_true, decide_eq_true_eq] at hdone
  have hacked := hi.acked hrelay
  have hle := hi.receiver.le
  have hsent := hi.sent
  exact ⟨hdone.1, by omega, by omega⟩

/-- A step of `pumpSource`, which leaves the spool open behind a handoff. -/
theorem Timely.pump (ht : Timely s) {p : Spool}
    (hp : Spool.Pumped s.spool p)
    (hopen : s.handingOff = true → p.eof = true → s.sentTo ≠ p.sourceOffset) :
    Timely { s with spool := p } := by
  have hnot : ¬ s.spool.eof = true := by
    rw [hp.eof]
    exact Bool.false_ne_true
  refine
    { ht with
      pcFine := ?_
      finished := fun hc => absurd (ht.finished hc).2.2 (done_of_eof hp.eof)
      eofs := fun offset ho => Nat.le_trans (ht.eofs offset ho) hp.sourceOffset
      eof := ?_ }
  · have hpc := ht.pcFine
    rw [handingOff] at hopen
    cases heq : s.pc with
    | returned ok =>
        rw [heq] at hpc hopen
        cases ok with
        | false => exact hpc
        | true =>
            rcases hpc with ⟨-, -, hdone⟩ | ⟨he, hk, hc, -⟩
            · exact absurd hdone (done_of_eof hp.eof)
            · exact .inr ⟨he, hk, hc, fun hask => hopen (by rw [hk, hask]; rfl)⟩
    | eof =>
        rw [heq] at hpc
        exact absurd hpc.2.2 hnot
    | complete =>
        rw [heq] at hpc
        exact absurd hpc.2.2 hnot
    | handoff boundary =>
        rw [heq] at hpc hopen
        exact ⟨hpc.1, hpc.2.1, hpc.2.2.1, hopen rfl⟩
    | handoffSent boundary =>
        rw [heq] at hpc hopen
        exact ⟨hpc.1, hpc.2.1, hpc.2.2.1, hopen rfl⟩
    | _ =>
        rw [heq] at hpc
        exact hpc
  · intro he hrun
    refine (ht.eof he hrun).imp_right ?_
    rintro ⟨offset, ho, hle, hbelow⟩
    exact ⟨offset, ho, Nat.le_trans hle hp.sourceOffset, hbelow⟩

/-- The spool moves on, its source does not. -/
theorem Timely.keep (ht : Timely s) {p : Spool}
    (heof : p.eof = s.spool.eof) (hsource : p.sourceOffset = s.spool.sourceOffset)
    (hacked : s.spool.ackedWatermark ≤ p.ackedWatermark) : Timely { s with spool := p } := by
  refine
    { ht with
      pcFine := ht.pcFine.spool heof hsource hacked
      finished := ?_
      eofs := fun offset ho => hsource.symm ▸ ht.eofs offset ho
      eof := ?_ }
  · intro hc
    obtain ⟨he, hk, hdone⟩ := ht.finished hc
    exact ⟨he, hk, done_mono hdone heof hsource hacked⟩
  · intro he hrun
    show _ ∨ ∃ offset, _ ∧ offset ≤ p.sourceOffset ∧ _
    rw [hsource]
    exact ht.eof he hrun

/-- The loop moves on before it has sent anything but data. -/
theorem Timely.goTo (ht : Timely s) (hearly : Early s.pc) {p : Spool} {pc : PrefixPc}
    (hsource : p.sourceOffset = s.spool.sourceOffset)
    (hpc : s.sentEOF = false → s.sentHandoff = false →
      PcFine p s.sentTo s.sentEOF s.sentHandoff s.caller pc) :
    Timely { s with spool := p, pc := pc } := by
  obtain ⟨he, hk⟩ := ht.pcFine.flags hearly
  refine
    { ht with
      pcFine := hpc he hk
      finished := ?_
      eofs := fun offset ho => hsource.symm ▸ ht.eofs offset ho
      eof := ?_ }
  · intro hc
    exact absurd (he.symm.trans (ht.finished hc).1) Bool.false_ne_true
  · intro he'
    exact absurd (he.symm.trans he') Bool.false_ne_true

/-! ## Steps of the loop -/

theorem Timely.stopSeen (ht : Timely s) (hok : s.spool.done = false)
    (h : s.stopSeen = some t) : Timely t := by
  rw [RelayPrefix.stopSeen] at h
  split at h
  next hstop =>
    have hcaller : s.caller ≠ .relaying := by simpa [stopped] using hstop
    split at h
    next heq =>
      rw [hok] at h
      cases h
      exact ht.goTo (by rw [heq]; trivial) rfl fun he hk => ⟨he, hk, hcaller⟩
    next heq =>
      rw [hok] at h
      cases h
      exact ht.goTo (by rw [heq]; trivial) rfl fun he hk => ⟨he, hk, hcaller⟩
    next => cases h
  next => cases h

theorem Timely.boundary (ht : Timely s) (hok : s.spool.readOffset > 0 → s.exhausted = false)
    (h : s.boundary = some t) : Timely t := by
  rw [RelayPrefix.boundary] at h
  split at h
  next top heq =>
    have hpc := ht.pcFine
    rw [heq] at hpc
    cases h
    refine ht.goTo (by rw [heq]; trivial) rfl fun he hk => ?_
    split
    next hread =>
      refine ⟨he, hk, hpc.2.2, fun heof hall => ?_⟩
      have hopen := hok hread
      rw [exhausted, heof, hall] at hopen
      simp at hopen
    · split
      · exact ⟨he, hk⟩
      · exact ⟨he, hk⟩
  next => cases h

theorem Timely.pass (ht : Timely s) (h : s.pass = some t) : Timely t := by
  rw [RelayPrefix.pass] at h
  split at h
  next hguard =>
    cases h
    exact ht.goTo (by rw [hguard.1]; trivial) rfl fun he hk => ⟨he, hk⟩
  next => cases h

theorem Timely.enter (ht : Timely s) (h : s.enter = some t) : Timely t := by
  rw [RelayPrefix.enter] at h
  split at h
  next heq =>
    dsimp only at h
    generalize hq : (if s.spool.readOffset ≥ externalRelayPrefixDERPStartupBytes then
      s.spool.setMaxUnacked externalRelayPrefixDERPSustainedMax else s.spool) = q at h
    obtain ⟨p, hp, rfl⟩ := Option.map_eq_some_iff.mp h
    have hsource : p.sourceOffset = s.spool.sourceOffset := by
      rw [Spool.enter_sourceOffset hp, ← hq]
      split
      · exact Spool.setMaxUnacked_sourceOffset _
      · rfl
    refine ht.goTo (by rw [heq]; trivial) hsource fun he hk => ?_
    split
    · exact ⟨he, hk⟩
    · exact ⟨he, hk⟩
  next => cases h

theorem Timely.take (ht : Timely s) (h : s.take = some t) : Timely t := by
  rw [RelayPrefix.take] at h
  split at h
  next chunkLen heq =>
    split at h
    · cases h
    next p hp =>
      split at h
      · cases h
      next chunk hchunk =>
        cases h
        obtain ⟨payload, -, -, -, hsource, -⟩ := Spool.take_carrier hp
        exact ht.goTo (by rw [heq]; trivial) hsource fun he hk => ⟨he, hk⟩
  next => cases h

theorem Timely.takeFails (ht : Timely s) (h : s.takeFails = some t) :
    Timely t := by
  rw [RelayPrefix.takeFails] at h
  split at h
  next chunkLen heq =>
    obtain ⟨p, hp, rfl⟩ := Option.map_eq_some_iff.mp h
    have hp' := Spool.takeFails_carrier hp
    subst hp'
    exact ht.goTo (by rw [heq]; trivial) rfl fun _ hk _ => hk
  next => cases h

theorem Timely.giveUp (ht : Timely s) (h : s.giveUp = some t) : Timely t := by
  rw [RelayPrefix.giveUp] at h
  split at h
  next chunkLen heq =>
    obtain ⟨p, hp, rfl⟩ := Option.map_eq_some_iff.mp h
    obtain ⟨-, -, hsource, -, heof, -⟩ := Spool.giveUp_carrier hp
    refine ht.goTo (by rw [heq]; trivial) hsource fun he hk => ?_
    split
    · exact ⟨he, hk⟩
    split
    · exact fun _ => hk
    split
    next hend => exact ⟨he, hk, heof.trans hend⟩
    next => exact fun _ => hk
  next => cases h

theorem Timely.sendData (ht : Timely s) (hi : Inv S s) (h : s.sendData = some t) :
    Timely t := by
  rw [RelayPrefix.sendData] at h
  split at h
  next chunk heq =>
    obtain ⟨he, hk⟩ := ht.pcFine.flags (by rw [heq]; trivial)
    have hpc := hi.pcOk
    rw [heq] at hpc
    cases h
    refine
      { ht with
        pcFine := ⟨he, hk⟩
        noHandoff := ?_
        eofs := ?_
        eof := fun he' => absurd (he.symm.trans he') Bool.false_ne_true
        failed := ?_ }
    · intro hnone
      obtain ⟨hframes, hstatus⟩ := ht.noHandoff hnone
      refine ⟨fun boundary hb => ?_, hstatus⟩
      rcases List.mem_append.mp hb with hold | hnew
      · exact hframes boundary hold
      · cases List.mem_singleton.mp hnew
    · intro offset ho
      rcases List.mem_append.mp ho with hold | hnew
      · exact ht.eofs offset hold
      · cases List.mem_singleton.mp hnew
    · intro hf
      have hbelow := ht.failed hf
      have hsent : s.sentTo = chunk.offset := hpc.2.2.1
      show s.receiver.rx.watermark < chunk.offset + chunk.payload.length
      omega
  next => cases h

theorem Timely.sendEOF (ht : Timely s) (h : s.sendEOF = some t) : Timely t := by
  rw [RelayPrefix.sendEOF] at h
  split at h
  next heq =>
    have hpc := ht.pcFine
    rw [heq] at hpc
    obtain ⟨he, hk, hend⟩ := hpc
    cases h
    refine
      { ht with
        pcFine := ⟨rfl, hk, hend⟩
        finished := ?_
        noHandoff := ?_
        eofs := ?_
        eof := fun _ _ => .inl ⟨_, List.mem_append_right _ List.mem_cons_self⟩ }
    · intro hc
      exact absurd (he.symm.trans (ht.finished hc).1) Bool.false_ne_true
    · intro hnone
      obtain ⟨hframes, hstatus⟩ := ht.noHandoff hnone
      refine ⟨fun boundary hb => ?_, hstatus⟩
      rcases List.mem_append.mp hb with hold | hnew
      · exact hframes boundary hold
      · cases List.mem_singleton.mp hnew
    · intro offset ho
      rcases List.mem_append.mp ho with hold | hnew
      · exact ht.eofs offset hold
      · cases List.mem_singleton.mp hnew
        exact Nat.le_refl _
  next => cases h

theorem Timely.sendHandoff (ht : Timely s) (h : s.sendHandoff = some t) :
    Timely t := by
  rw [RelayPrefix.sendHandoff] at h
  split at h
  next boundary heq =>
    have hpc := ht.pcFine
    rw [heq] at hpc
    obtain ⟨he, hk, hcaller, hopen⟩ := hpc
    cases h
    refine
      { ht with
        pcFine := ⟨he, rfl, hcaller, hopen⟩
        finished := ?_
        noHandoff := fun hnone => (by cases hnone)
        eofs := ?_
        eof := fun he' => absurd (he.symm.trans he') Bool.false_ne_true }
    · intro hc
      exact absurd (he.symm.trans (ht.finished hc).1) Bool.false_ne_true
    · intro offset ho
      rcases List.mem_append.mp ho with hold | hnew
      · exact ht.eofs offset hold
      · cases List.mem_singleton.mp hnew
  next => cases h

theorem PcFine.one {p : Spool} {n : Nat} {e k : Bool} {c : PrefixCaller} {pc : PrefixPc}
    (h : PcFine p n e k c pc) (he : e = true) : k = false := by
  cases pc with
  | complete => exact h.2.1
  | handoffSent boundary => exact absurd (h.1.symm.trans he) Bool.false_ne_true
  | returned ok =>
      cases ok with
      | false => exact h he
      | true =>
          rcases h with ⟨-, hk, -⟩ | ⟨hnone, -⟩
          · exact hk
          · exact absurd (hnone.symm.trans he) Bool.false_ne_true
  | eof => exact h.2.1
  | bound top => exact h.2.1
  | handoff boundary => exact h.2.1
  | top => exact h.2
  | next => exact h.2
  | waiting chunkLen => exact h.2
  | data chunk => exact h.2
  | pending => exact h.2

/-- The loop returns an error. -/
theorem Timely.returnsError (ht : Timely s) : Timely { s with pc := .returned false } :=
  { ht with pcFine := fun he => ht.pcFine.one he }

theorem Timely.pendingAck (ht : Timely s) (h : s.pendingAck = some t) : Timely t := by
  rw [RelayPrefix.pendingAck] at h
  split at h
  next hguard =>
    cases h
    exact { ht with pcFine := ht.pcFine.flags (by rw [hguard.1]; trivial) }
  next => cases h

theorem Timely.pendingTimer (ht : Timely s) (h : s.pendingTimer = some t) : Timely t := by
  rw [RelayPrefix.pendingTimer] at h
  split at h
  next heq =>
    cases h
    exact { ht with pcFine := ht.pcFine.flags (by rw [heq]; trivial) }
  next => cases h

/-- The goroutine ends without an error when the spool is done. -/
theorem Timely.ackResult (ht : Timely s) (hi : Inv S s) (hok : s.pc = .pending → s.spool.done = false)
    (h : s.ackResult = some t) : Timely t := by
  rw [RelayPrefix.ackResult] at h
  split at h
  · cases h
  next ok hresult =>
    have hpc := ht.pcFine
    split at h
    next heq =>
      cases h
      cases ok with
      | false => exact { ht.returnsError with }
      | true => exact absurd ((hok heq).symm.trans (hi.ackErr hresult)) Bool.false_ne_true
    next boundary heq =>
      rw [heq] at hpc
      cases h
      cases ok with
      | false => exact { ht.returnsError with }
      | true =>
          have hrelay := hi.callerOk.onRelay (by rw [heq]; simp)
          obtain ⟨heof, hall, -⟩ := hi.sentTo_of_done hrelay (hi.ackErr hresult)
          exact absurd hall (hpc.2.2.2 heof)
    next heq =>
      rw [heq] at hpc
      cases h
      cases ok with
      | false => exact { ht.returnsError with }
      | true => exact { ht with pcFine := hpc }
    next => cases h

theorem Timely.completeAck (ht : Timely s) (h : s.completeAck = some t) : Timely t := by
  rw [RelayPrefix.completeAck] at h
  split at h
  · cases h
    exact { ht with }
  · cases h

theorem Timely.complete (ht : Timely s) (h : s.complete = some t) : Timely t := by
  rw [RelayPrefix.complete] at h
  split at h
  next hguard =>
    have hpc := ht.pcFine
    rw [hguard.1] at hpc
    cases h
    exact { ht with pcFine := .inl ⟨hpc.1, hpc.2.1, hguard.2⟩ }
  next => cases h

theorem Timely.handoffAck (ht : Timely s) (h : s.handoffAck = some t) : Timely t := by
  rw [RelayPrefix.handoffAck] at h
  split at h
  next boundary heq =>
    have hpc := ht.pcFine
    rw [heq] at hpc
    obtain ⟨he, hk, hcaller, hopen⟩ := hpc
    split at h
    · cases h
      exact { ht with pcFine := .inr ⟨he, hk, hcaller, fun _ => hopen⟩ }
    · cases h
  next => cases h

theorem Timely.anyAck (ht : Timely s) (h : s.anyAck = some t) : Timely t := by
  rw [RelayPrefix.anyAck] at h
  split at h
  · split at h
    · cases h
      exact { ht with }
    · cases h
  · cases h

theorem Timely.boundaryReached (ht : Timely s) (h : s.boundaryReached = some t) : Timely t := by
  rw [RelayPrefix.boundaryReached] at h
  split at h
  next boundary heq =>
    have hpc := ht.pcFine
    rw [heq] at hpc
    obtain ⟨he, hk, hcaller, hopen⟩ := hpc
    split at h
    · cases h
      exact { ht with pcFine := .inr ⟨he, hk, hcaller, fun _ => hopen⟩ }
    · cases h
  next => cases h

theorem Timely.fail (ht : Timely s) (h : s.fail = some t) : Timely t := by
  rw [RelayPrefix.fail] at h
  split at h
  · cases h
  · cases h
  · cases h
  · cases h
  · cases h
    exact ht.returnsError

/-! ## Steps of the others -/

theorem Timely.ackRecv (ht : Timely s) (h : s.ackRecv = some t) : Timely t := by
  rw [RelayPrefix.ackRecv] at h
  split at h
  next ack acks hpc hacks =>
    split at h
    · cases h
      exact { ht with }
    next hguard =>
      cases h
      obtain ⟨early, heq⟩ := Spool.ackTo_max hguard
      have hkept : Timely { s with spool := s.spool.ackTo ack.watermark } := by
        rw [heq]
        exact ht.keep rfl rfl (Nat.le_max_left _ _)
      exact { hkept with }
  next => cases h

theorem Timely.ackEvent (ht : Timely s) (h : s.ackEvent = some t) : Timely t := by
  rw [RelayPrefix.ackEvent] at h
  split at h
  · cases h
    exact { ht with }
  · cases h
    exact { ht with }
  · cases h

theorem Timely.ackCheck (ht : Timely s) (h : s.ackCheck = some t) : Timely t := by
  rw [RelayPrefix.ackCheck] at h
  split at h
  · cases h
    split
    · exact { ht with }
    · exact { ht with }
  · cases h

theorem Timely.ackFails (ht : Timely s) (h : s.ackFails = some t) : Timely t := by
  rw [RelayPrefix.ackFails] at h
  split at h
  · cases h
    exact { ht with }
  · cases h

theorem Timely.watch (ht : Timely s) (h : s.watch = some t) : Timely t := by
  rw [RelayPrefix.watch] at h
  split at h
  · cases h
  split at h
  · cases h
    exact { ht with }
  · cases h

theorem Timely.interrupt (ht : Timely s) (h : s.interrupt = some t) : Timely t := by
  rw [RelayPrefix.interrupt] at h
  split at h
  · cases h
    exact { ht.keep (p := { s.spool with readInterrupted := true }) rfl rfl (Nat.le_refl _) with }
  · cases h

theorem PcFine.call {p : Spool} {n : Nat} {e k : Bool} {c c' : PrefixCaller} {pc : PrefixPc}
    (h : PcFine p n e k c pc) (hne : c' ≠ .relaying)
    (hask : c ≠ .relaying → asking c' = true → asking c = true) : PcFine p n e k c' pc := by
  cases pc with
  | bound top => exact ⟨h.1, h.2.1, hne⟩
  | handoff boundary => exact ⟨h.1, h.2.1, hne, h.2.2.2⟩
  | handoffSent boundary => exact ⟨h.1, h.2.1, hne, h.2.2.2⟩
  | returned ok =>
      cases ok with
      | false => exact h
      | true =>
          refine h.imp_right ?_
          rintro ⟨he, hk, hc, hopen⟩
          exact ⟨he, hk, hne, fun ha => hopen (hask hc ha)⟩
  | complete => exact h
  | eof => exact h
  | top => exact h
  | next => exact h
  | waiting chunkLen => exact h
  | data chunk => exact h
  | pending => exact h

/-- The caller moves on, and is not finished. -/
theorem Timely.call (ht : Timely s) {c : PrefixCaller} (hne : c ≠ .relaying) (hfin : c ≠ .finished)
    (hask : s.caller ≠ .relaying → asking c = true → asking s.caller = true) :
    Timely { s with caller := c } :=
  { ht with
    pcFine := ht.pcFine.call hne hask
    finished := fun hc => absurd hc hfin }

theorem Timely.closeStop (ht : Timely s) (h : s.closeStop = some t) : Timely t := by
  rw [RelayPrefix.closeStop] at h
  split at h
  next heq =>
    cases h
    exact ht.call (by simp) (by simp) fun hc => absurd heq hc
  next => cases h

theorem Timely.result (ht : Timely s) (h : s.result = some t) : Timely t := by
  rw [RelayPrefix.result] at h
  split at h
  next ok hpc heq =>
    cases h
    cases ok with
    | false => exact ht.call (by simp) (by simp) fun _ ha => by cases ha
    | true =>
        have hfine := ht.pcFine
        rw [hpc] at hfine
        have hdone := hfine.resolve_right fun hk => hk.2.2.1 heq
        refine { ht with pcFine := ?_, finished := fun _ => hdone }
        show PcFine _ _ _ _ _ s.pc
        rw [hpc]
        exact .inl hdone
  next ok hpc heq =>
    cases h
    cases ok with
    | false => exact ht.call (by simp) (by simp) fun _ ha => by cases ha
    | true => exact ht.call (by simp) (by simp) fun _ _ => by rw [heq]; rfl
  next => cases h

theorem Timely.mark (ht : Timely s) (h : s.mark = some t) : Timely t := by
  rw [RelayPrefix.mark] at h
  split at h
  next heq =>
    cases h
    exact ht.call (by simp) (by simp) fun _ _ => by rw [heq]; rfl
  next => cases h

/-- Behind a handoff the spool is not done. -/
theorem Timely.checkDone (ht : Timely s) (hi : Inv S s) (h : s.checkDone = some t) : Timely t := by
  rw [RelayPrefix.checkDone] at h
  split at h
  next w heq =>
    cases h
    split
    next hdone =>
      have hcaller := hi.callerOk
      rw [heq] at hcaller
      have hfine := ht.pcFine
      rw [hcaller.1] at hfine
      have hrelay : OnRelay s.caller := by
        rw [heq]
        intro w h
        cases h
      obtain ⟨heof, hall, -⟩ := hi.sentTo_of_done hrelay hdone
      have hdone' := hfine.resolve_right fun hk => hk.2.2.2 (by rw [heq]; rfl) heof hall
      refine { ht with pcFine := ?_, finished := fun _ => hdone' }
      show PcFine _ _ _ _ _ s.pc
      rw [hcaller.1]
      exact .inl hdone'
    next => exact ht.call (by simp) (by simp) fun _ ha => by cases ha
  next => cases h

theorem Timely.rewind (ht : Timely s) (h : s.rewind = some t) : Timely t := by
  rw [RelayPrefix.rewind] at h
  split at h
  next w heq =>
    split at h
    · cases h
      exact ht.call (by simp) (by simp) fun _ ha => by cases ha
    next hin =>
      cases h
      have hkept : Timely { s with spool := s.spool.rewindTo w } := by
        rw [Spool.rewindTo]
        split
        · exact ht.keep rfl rfl (Nat.le_refl _)
        · exact ht.keep rfl rfl (Nat.le_refl _)
      exact hkept.call (by simp) (by simp) fun _ ha => by cases ha
  next => cases h

theorem Timely.newReader (ht : Timely s) (h : s.newReader = some t) : Timely t := by
  rw [RelayPrefix.newReader] at h
  split at h
  next w heq =>
    cases h
    have hkept : Timely { s with spool := s.spool.newReader } := ht.keep rfl rfl (Nat.le_refl _)
    exact hkept.call (by simp) (by simp) fun _ ha => by cases ha
  next => cases h

theorem Timely.reader (ht : Timely s) {l : SpoolLabel} (h : s.reader S l = some t)
    (hmoved : ∀ p, s.spool.step S l = some p → Spool.ReaderMoved s.spool p) : Timely t := by
  rw [RelayPrefix.reader] at h
  split at h
  next w heq =>
    obtain ⟨p, hp, rfl⟩ := Option.map_eq_some_iff.mp h
    have hm := hmoved p hp
    exact ht.keep hm.eof hm.sourceOffset hm.ackedWatermark
  next => cases h

theorem Timely.pumpStep (ht : Timely s) {l : SpoolLabel} (h : s.pump S l = some t)
    (hpumped : ∀ p, s.spool.step S l = some p → Spool.Pumped s.spool p ∧
      (s.handingOff = true → p.eof = true → s.sentTo ≠ p.sourceOffset)) : Timely t := by
  obtain ⟨p, hp, rfl⟩ := Option.map_eq_some_iff.mp h
  obtain ⟨hm, hopen⟩ := hpumped p hp
  exact ht.pump hm hopen

theorem Timely.store (ht : Timely s) (hi : Inv S s) (hok : InTime s .store)
    (h : s.pump S .store = some t) : Timely t := by
  refine ht.pumpStep h ?_
  intro p hp
  have hm := Spool.pumped_store hi.ended hp
  refine ⟨hm, fun hhand heof hall => ?_⟩
  rw [Spool.step, Spool.store] at hp
  split at hp
  next payload result hgot =>
    cases hp
    have hsent := hi.sent
    have hend : s.sentTo = s.spool.sourceOffset + payload.length := hall
    have hresult : result = .eof := by
      have heof' : (s.spool.eof || decide (result = .eof)) = true := heof
      simpa [hm.eof] using heof'
    have hnil : payload = [] := List.eq_nil_of_length_eq_zero (by omega)
    have hbelow := hok hhand (by rw [stores, hgot, hnil, hresult])
    omega
  next => cases hp

theorem Timely.storeFails (ht : Timely s) (hi : Inv S s) {written : Nat}
    (hok : InTime s (.storeFails written)) (h : s.pump S (.storeFails written) = some t) : Timely t := by
  refine ht.pumpStep h ?_
  intro p hp
  have hm := Spool.pumped_storeFails hi.ended hp
  refine ⟨hm, fun hhand heof hall => ?_⟩
  rw [Spool.step, Spool.storeFails] at hp
  split at hp
  next payload result hgot =>
    split at hp
    · cases hp
      have hend : s.sentTo = s.spool.sourceOffset := hall
      have hresult : result = .eof := by
        have heof' : (s.spool.eof || decide (result = .eof)) = true := heof
        simpa [hm.eof] using heof'
      have hbelow := hok hhand (by rw [stores, hgot, hresult]; rfl)
      omega
    · cases hp
  next => cases hp

theorem Timely.deliver (ht : Timely s) (hi : Inv S s) {fault : Option HandoffReceiver.WriteFault}
    (h : s.deliver fault = some t) : Timely t := by
  rw [RelayPrefix.deliver] at h
  split at h
  next frame frames hrun hframes =>
    cases h
    have hsub : ∀ f ∈ frames, f ∈ s.frames := by
      intro f hf
      rw [hframes]
      exact List.mem_cons_of_mem _ hf
    have hmem : frame ∈ s.frames := by
      rw [hframes]
      exact List.mem_cons_self
    have heofs : ∀ offset, .eof offset ∈ frames → offset ≤ s.spool.sourceOffset :=
      fun offset ho => ht.eofs offset (hsub _ ho)
    have hnone : s.sentHandoff = false → ∀ boundary, .handoff boundary ∉ frames :=
      fun hk boundary hb => (ht.noHandoff hk).1 boundary (hsub _ hb)
    cases frame with
    | data chunk =>
        obtain ⟨heofOffset, hstatus⟩ := PrefixReceiver.handle_data hi.receiver hrun (hi.frames _ hmem) fault
        refine { ht with noHandoff := ?_, eofs := heofs, eof := ?_, failed := ?_ }
        · intro hk
          refine ⟨hnone hk, fun hhand => ?_⟩
          change (s.receiver.handle fault (.data chunk)).1.status = _ at hhand
          rw [hhand] at hstatus
          simp at hstatus
        · intro he hrun'
          change (s.receiver.handle fault (.data chunk)).1.status = _ at hrun'
          rw [hrun'] at hstatus
          have hbelow := (hstatus.resolve_right (by simp)).2
          rcases ht.eof he hrun with ⟨offset, ho⟩ | ⟨offset, ho, hle, -⟩
          · rw [hframes] at ho
            exact .inl ⟨offset, (List.mem_cons.mp ho).resolve_left (by simp)⟩
          · exact .inr ⟨offset, heofOffset.trans ho, hle, hbelow offset ho⟩
        · intro hf
          change (s.receiver.handle fault (.data chunk)).1.status = _ at hf
          rw [hf] at hstatus
          exact ((hstatus.resolve_left (by simp)).resolve_left (by simp)).2
    | eof offset =>
        have hstatus := PrefixReceiver.finishIfBoundaryReached_status
          (r := { s.receiver with eofOffset := some offset })
        refine { ht with noHandoff := ?_, eofs := heofs, eof := ?_, failed := ?_ }
        · intro hk
          refine ⟨hnone hk, fun hhand => ?_⟩
          change (PrefixReceiver.finishIfBoundaryReached _).1.status = _ at hhand
          rw [hhand, hrun] at hstatus
          simp at hstatus
        · intro he hrun'
          change (PrefixReceiver.finishIfBoundaryReached _).1.status = _ at hrun'
          rw [hrun'] at hstatus
          have hbelow := (hstatus.resolve_right (by simp)).2 offset rfl
          refine .inr ⟨offset, ?_, ht.eofs offset hmem, ?_⟩
          · exact PrefixReceiver.finishIfBoundaryReached_eofOffset
          · show (PrefixReceiver.finishIfBoundaryReached _).1.rx.watermark < offset
            rw [PrefixReceiver.finishIfBoundaryReached_rx]
            exact hbelow
        · intro hf
          change (PrefixReceiver.finishIfBoundaryReached _).1.status = _ at hf
          rw [hf, hrun] at hstatus
          simp at hstatus
    | handoff boundary =>
        refine { ht with noHandoff := ?_, eofs := heofs, eof := ?_, failed := ?_ }
        · intro hk
          exact absurd hmem ((ht.noHandoff hk).1 boundary)
        · intro _ hrun'
          cases hrun'
        · intro hf
          cases hf
  next => cases h

/-! ## Runs in time -/

theorem Timely.step (ht : Timely s) (hi : Inv S s) {l : PrefixLabel} (hok : InTime s l)
    (hrelay : l.delivers = true) (h : s.step S l = some t) : Timely t := by
  cases l with
  | turn =>
      refine ht.pumpStep h fun p hp => ⟨Spool.pumped_turn hi.ended hp, fun _ heof => ?_⟩
      have hnone := (Spool.pumped_turn hi.ended hp).eof
      rw [← Spool.turn_eof hp, heof] at hnone
      cases hnone
  | pull n result =>
      refine ht.pumpStep h fun p hp => ⟨Spool.pumped_pull hi.ended hp, fun _ heof => ?_⟩
      have hnone := (Spool.pumped_pull hi.ended hp).eof
      rw [← Spool.pull_eof hp, heof] at hnone
      cases hnone
  | store => exact ht.store hi hok h
  | storeFails written => exact ht.storeFails hi hok h
  | stopSeen => exact ht.stopSeen hok h
  | boundary => exact ht.boundary hok h
  | pass => exact ht.pass h
  | enter => exact ht.enter h
  | take => exact ht.take h
  | takeFails => exact ht.takeFails h
  | giveUp => exact ht.giveUp h
  | sendData => exact ht.sendData hi h
  | sendEOF => exact ht.sendEOF h
  | sendHandoff => exact ht.sendHandoff h
  | pendingAck => exact ht.pendingAck h
  | pendingTimer => exact ht.pendingTimer h
  | ackResult => exact ht.ackResult hi hok h
  | completeAck => exact ht.completeAck h
  | complete => exact ht.complete h
  | handoffAck => exact ht.handoffAck h
  | anyAck => exact ht.anyAck h
  | boundaryReached => exact ht.boundaryReached h
  | fail => exact ht.fail h
  | ackRecv => exact ht.ackRecv h
  | ackEvent => exact ht.ackEvent h
  | ackCheck => exact ht.ackCheck h
  | ackFails => exact ht.ackFails h
  | watch => exact ht.watch h
  | interrupt => exact ht.interrupt h
  | closeStop => exact ht.closeStop h
  | result => exact ht.result h
  | mark => exact ht.mark h
  | checkDone => exact ht.checkDone hi h
  | rewind => exact ht.rewind h
  | newReader => exact ht.newReader h
  | readerEnter => exact ht.reader h fun _ hp => Spool.readerMoved_enter hp
  | readerTake chunkLen => exact ht.reader h fun _ hp => Spool.readerMoved_take hp
  | readerTakeFails chunkLen => exact ht.reader h fun _ hp => Spool.readerMoved_takeFails hp
  | readerGiveUp chunkLen => exact ht.reader h fun _ hp => Spool.readerMoved_giveUp hp
  | readerCopy n => exact ht.reader h fun _ hp => Spool.readerMoved_copy hp
  | loseFrame i => cases hrelay
  | loseAck i => cases hrelay
  | receiverFails => cases hrelay
  | deliver fault => exact ht.deliver hi h

/-- The receiver has all data and is told where it ends: it finishes on the frames on the relay. -/
theorem finishes (hrun : s.receiver.status = .running) {offset : Nat} (hmem : .eof offset ∈ s.frames)
    (heofs : ∀ offset, .eof offset ∈ s.frames → offset ≤ s.receiver.rx.watermark)
    (hframes : ∀ frame ∈ s.frames, PrefixReceiver.FrameOk S s.receiver.rx.watermark frame)
    (hnone : ∀ boundary, .handoff boundary ∉ s.frames) :
    ∃ n s', runFrom (RelayPrefix.step S) s (List.replicate n (.deliver none)) = some s' ∧
      s'.receiver.status = .finished := by
  induction hlist : s.frames generalizing s with
  | nil =>
      rw [hlist] at hmem
      cases hmem
  | cons frame frames ih =>
      have hstep : s.step S (.deliver none) =
          some
            { s with
              frames := frames
              receiver := (s.receiver.handle none frame).1
              acks := s.acks ++ (s.receiver.handle none frame).2 } := by
        rw [RelayPrefix.step, RelayPrefix.deliver, hrun, hlist]
      have hframe := hframes frame (by rw [hlist]; exact List.mem_cons_self)
      have hrx := PrefixReceiver.handle_rx_of_le hframe (Nat.le_refl _) none
      by_cases hdone : (s.receiver.handle none frame).1.status = .finished
      · exact ⟨1, _, by rw [List.replicate_one, runFrom, hstep]; rfl, hdone⟩
      · -- only a data frame before the EOF frame leaves the receiver running
        have hgo : (s.receiver.handle none frame).1.status = .running ∧ .eof offset ∈ frames := by
          rw [hlist] at hmem
          cases frame with
          | data chunk =>
              refine ⟨?_, (List.mem_cons.mp hmem).resolve_left (by simp)⟩
              have haccept := HandoffReceiver.acceptChunk_of_le hframe.2 none
              rw [PrefixReceiver.handle, haccept] at hdone ⊢
              rcases PrefixReceiver.finishIfBoundaryReached_status (r := s.receiver) with h | h
              · exact h.1.trans hrun
              · exact absurd h hdone
          | eof offset' =>
              have hle := heofs offset' (by rw [hlist]; exact List.mem_cons_self)
              rcases PrefixReceiver.finishIfBoundaryReached_status
                (r := { s.receiver with eofOffset := some offset' }) with h | h
              · exact absurd hle (Nat.not_le_of_lt (h.2 offset' rfl))
              · exact absurd h hdone
          | handoff boundary => exact absurd (by rw [hlist]; exact List.mem_cons_self) (hnone boundary)
        have hsub : ∀ f ∈ frames, f ∈ s.frames := by
          intro f hf
          rw [hlist]
          exact List.mem_cons_of_mem _ hf
        obtain ⟨n, s', hrest, hstatus⟩ := ih (s := { s with
            frames := frames
            receiver := (s.receiver.handle none frame).1
            acks := s.acks ++ (s.receiver.handle none frame).2 }) hgo.1 hgo.2
          (by rw [hrx]; exact fun o ho => heofs o (hsub _ ho))
          (by rw [hrx]; exact fun f hf => hframes f (hsub f hf))
          (fun b hb => hnone b (hsub _ hb)) rfl
        exact ⟨n + 1, s', by rw [List.replicate_succ, runFrom, hstep]; exact hrest, hstatus⟩

end

/-- On a relay that loses nothing, in every run in which the loop acts before the spool is done: when the
caller ends as finished, an EOF frame was sent and no handoff, and the receiver returns nil, at the latest
when it has the frames that are on the relay. -/
theorem prefix_completion (S : List UInt8) (labels : List PrefixLabel) (s : RelayPrefix)
    (hrun : runFrom (step S) init labels = some s) (hrelay : ∀ l ∈ labels, l.delivers = true)
    (hok : StepsMeet (step S) InTime init labels) (hfinished : s.caller = .finished) :
    s.sentEOF = true ∧ s.sentHandoff = false ∧
      (s.receiver.status = .running ∨ s.receiver.status = .finished) ∧
      (s.frames = [] → s.receiver.status = .finished) ∧
      ∃ n s', runFrom (step S) s (List.replicate n (.deliver none)) = some s' ∧
        s'.receiver.status = .finished := by
  have hi := reachable_inv hrun
  have ht : Inv S s ∧ Timely s := by
    refine runFrom_invariant_of_meet (I := fun s => Inv S s ∧ Timely s) ?_ labels
      ⟨inv_init S, timely_init⟩ (hok.and_mem hrelay) hrun
    intro s l t h hok hs
    exact ⟨h.1.step hs, h.2.step h.1 hok.1 hok.2 hs⟩
  obtain ⟨he, hk, hdone⟩ := ht.2.finished hfinished
  have honly : OnRelay s.caller := by
    rw [hfinished]
    intro w h
    cases h
  obtain ⟨-, hall, hwatermark⟩ := hi.sentTo_of_done honly hdone
  have hstatus : s.receiver.status = .running ∨ s.receiver.status = .finished := by
    cases hs : s.receiver.status with
    | running => exact .inl rfl
    | finished => exact .inr rfl
    | handedOff => exact absurd hs (ht.2.noHandoff hk).2
    | failed =>
        have hbelow := ht.2.failed hs
        omega
  have heof : s.receiver.status = .running → ∃ offset, .eof offset ∈ s.frames := by
    intro hs
    refine (ht.2.eof he hs).resolve_right ?_
    rintro ⟨offset, -, hle, hbelow⟩
    omega
  refine ⟨he, hk, hstatus, ?_, ?_⟩
  · intro hnil
    refine hstatus.resolve_left fun hs => ?_
    obtain ⟨offset, ho⟩ := heof hs
    rw [hnil] at ho
    cases ho
  · rcases hstatus with hs | hs
    · obtain ⟨offset, ho⟩ := heof hs
      refine finishes hs ho ?_ ?_ (ht.2.noHandoff hk).1
      · intro offset ho
        rw [hwatermark]
        exact ht.2.eofs offset ho
      · rw [hwatermark, ← hall]
        exact hi.frames
    · exact ⟨0, s, rfl, hs⟩

/-- The source ends before the signal comes, and the loop sends the EOF frame. -/
def finishedRun : List PrefixLabel :=
  [.turn, .pull 1 .ok, .store, .pass, .enter, .take, .sendData, .deliver none, .ackRecv, .ackEvent,
    .ackCheck, .turn, .pull 0 .eof, .store, .pass, .enter, .giveUp, .sendEOF, .closeStop, .complete,
    .result, .mark, .checkDone]

theorem prefix_completion_finished : ∃ s,
    runFrom (step [7]) init finishedRun = some s ∧ s.caller = .finished ∧ s.sentEOF = true ∧
      ∃ n s', runFrom (step [7]) s (List.replicate n (.deliver none)) = some s' ∧
        s'.receiver.status = .finished := by
  have h : (runFrom (step [7]) init finishedRun).any (fun s => decide (s.caller = .finished)) = true := by
    decide +kernel
  obtain ⟨s, hrun, hs⟩ := (Option.any_eq_true ..).mp h
  have hfinished := of_decide_eq_true hs
  have hall := prefix_completion [7] finishedRun s hrun (by decide) (by decide +kernel) hfinished
  exact ⟨s, hrun, hfinished, hall.1, hall.2.2.2.2⟩

/-- The last byte is acknowledged, the source ends, and the loop sees the signal: it returns nil, and the
receiver waits with nothing on the relay. -/
def unannouncedEnd : List PrefixLabel :=
  [.turn, .pull 1 .ok, .store, .pass, .enter, .take, .sendData, .deliver none, .ackRecv, .ackEvent,
    .ackCheck, .closeStop, .turn, .pull 0 .eof, .store, .stopSeen, .result, .mark, .checkDone]

/-- The source has ended when the handoff is sent, and the last byte is acknowledged behind it. -/
def handoffAtEnd : List PrefixLabel :=
  [.turn, .pull 1 .eof, .store, .pass, .enter, .take, .sendData, .closeStop, .stopSeen, .boundary,
    .sendHandoff, .deliver none, .ackRecv, .boundaryReached, .result, .mark, .checkDone, .deliver none]

theorem finished_without_eof :
    (∀ l ∈ unannouncedEnd ++ handoffAtEnd, l.delivers = true) ∧
    (∃ s, runFrom (step [7]) init unannouncedEnd = some s ∧ s.caller = .finished ∧
      s.sentEOF = false ∧ s.frames = [] ∧ s.receiver.status = .running) ∧
    ∃ s, runFrom (step [7]) init handoffAtEnd = some s ∧ s.caller = .finished ∧
      s.sentHandoff = true ∧ s.receiver.status = .handedOff := by
  have h₁ : (runFrom (step [7]) init unannouncedEnd).any (fun s => decide (s.caller = .finished ∧
      s.sentEOF = false ∧ s.frames = [] ∧ s.receiver.status = .running)) = true := by decide +kernel
  have h₂ : (runFrom (step [7]) init handoffAtEnd).any (fun s => decide (s.caller = .finished ∧
      s.sentHandoff = true ∧ s.receiver.status = .handedOff)) = true := by decide +kernel
  obtain ⟨s₁, hrun₁, hs₁⟩ := (Option.any_eq_true ..).mp h₁
  obtain ⟨s₂, hrun₂, hs₂⟩ := (Option.any_eq_true ..).mp h₂
  exact ⟨by decide, ⟨s₁, hrun₁, of_decide_eq_true hs₁⟩, s₂, hrun₂, of_decide_eq_true hs₂⟩

end RelayPrefix

end Session
