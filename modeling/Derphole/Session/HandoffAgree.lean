import Derphole.Session.HandoffSteps

/-!
# Agreement on the handoff

The data frames on the relay are pieces of the source that end where the sender stands, and the receiver
has delivered the source up to its watermark, which no acknowledgement exceeds.  The loop of the sender
leaves by the handoff in two ways.  Either everything it sent is acknowledged, and then nothing on the
relay is new to the receiver; or the handoff is acknowledged, and then the receiver has stopped where the
acknowledgement says.  In both the acknowledged watermark is what the receiver has delivered, and stays
so until the spool is rewound (`handoff_agreement`).
-/

namespace Session

open Lib

/-! ## The invariant -/

namespace RelayPrefix

def NoCarrier (p : Spool) : Prop := .carrier ∉ p.waiting.map Prod.fst

/-- All that the receiver has delivered is acknowledged, and it will deliver no more. -/
def Settled (p : Spool) (r : PrefixReceiver) (sentTo : Nat) : Prop :=
  r.rx.watermark ≤ p.ackedWatermark ∧ (r.status = .handedOff ∨ sentTo ≤ r.rx.watermark)

/-- The receiver has delivered the source up to `w`, and will deliver no more. -/
def Agreed (S : List UInt8) (w : Nat) (r : PrefixReceiver) (sentTo : Nat) : Prop :=
  r.rx.watermark = w ∧ r.rx.out = S.take w ∧ (r.status = .handedOff ∨ sentTo ≤ r.rx.watermark)

/-- The sender has sent what it has read, but for the chunk in hand. -/
def PcOk (S : List UInt8) (p : Spool) (r : PrefixReceiver) (sentTo : Nat) : PrefixPc → Prop
  | .waiting chunkLen => p.waiting = [(.carrier, chunkLen)] ∧ sentTo = p.readOffset
  | .data chunk =>
      NoCarrier p ∧ SliceAt S chunk.offset chunk.payload ∧ sentTo = chunk.offset ∧
        chunk.offset + chunk.payload.length = p.readOffset
  | .handoff boundary => NoCarrier p ∧ sentTo = boundary
  | .handoffSent boundary => NoCarrier p ∧ sentTo = boundary
  | .returned ok => NoCarrier p ∧ (ok = true → Settled p r sentTo ∨ p.done = true)
  | _ => NoCarrier p ∧ sentTo = p.readOffset

def CallerOk (S : List UInt8) (p : Spool) (r : PrefixReceiver) (sentTo : Nat) (pc : PrefixPc) :
    PrefixCaller → Prop
  | .returned => pc = .returned true
  | .marked w => pc = .returned true ∧ (w = p.ackedWatermark ∨ p.done = true)
  | .rewinding w => pc = .returned true ∧ w = p.ackedWatermark ∧ Settled p r sentTo
  | .rewound w => pc = .returned true ∧ p.readOffset = w ∧ Agreed S w r sentTo
  | .direct w => pc = .returned true ∧ p.reader.start = some w ∧ Agreed S w r sentTo
  | _ => True

/-- The direct path has not begun. -/
def OnRelay (c : PrefixCaller) : Prop := ∀ w, c ≠ .direct w

structure Inv (S : List UInt8) (s : RelayPrefix) : Prop where
  spool : s.spool.Inv S
  ended : s.spool.Ended
  sent : s.sentTo ≤ s.spool.sourceOffset
  frames : ∀ frame ∈ s.frames, PrefixReceiver.FrameOk S s.sentTo frame
  receiver : s.receiver.Holds S s.sentTo
  acks : ∀ a ∈ s.acks, s.receiver.Says a
  acked : OnRelay s.caller → s.spool.ackedWatermark ≤ s.receiver.rx.watermark
  readers : OnRelay s.caller → .reader ∉ s.spool.waiting.map Prod.fst
  handed : s.ackPc = .acked true ∨ 0 < s.handoffAckEvents →
    s.receiver.status = .handedOff ∧ s.receiver.rx.watermark ≤ s.spool.ackedWatermark
  ackErr : s.ackErr = some true → s.spool.done = true
  pcOk : PcOk S s.spool s.receiver s.sentTo s.pc
  callerOk : CallerOk S s.spool s.receiver s.sentTo s.pc s.caller

section

variable {S : List UInt8} {p q : Spool} {r r' : PrefixReceiver} {n : Nat} {pc : PrefixPc}
  {caller : PrefixCaller}

/-- Until the loop has returned nil the caller asks for nothing. -/
theorem CallerOk.of_ne (h : CallerOk S p r n pc caller) (hne : pc ≠ .returned true) (p' : Spool)
    (r' : PrefixReceiver) (n' : Nat) (pc' : PrefixPc) : CallerOk S p' r' n' pc' caller := by
  cases caller with
  | returned => exact absurd h hne
  | marked w => exact absurd h.1 hne
  | rewinding w => exact absurd h.1 hne
  | rewound w => exact absurd h.1 hne
  | direct w => exact absurd h.1 hne
  | relaying => trivial
  | stopping => trivial
  | finished => trivial
  | failed => trivial

theorem CallerOk.onRelay (h : CallerOk S p r n pc caller) (hne : pc ≠ .returned true) :
    OnRelay caller := by
  rintro w rfl
  exact hne h.1

theorem PcOk.noCarrier (h : PcOk S p r n pc) (hne : ∀ chunkLen, pc ≠ .waiting chunkLen) :
    NoCarrier p := by
  cases pc with
  | waiting chunkLen => exact absurd rfl (hne chunkLen)
  | top => exact h.1
  | next => exact h.1
  | data chunk => exact h.1
  | eof => exact h.1
  | complete => exact h.1
  | pending => exact h.1
  | bound top => exact h.1
  | handoff boundary => exact h.1
  | handoffSent boundary => exact h.1
  | returned ok => exact h.1

theorem done_of_eof (h : p.eof = false) : ¬ p.done = true := by
  rw [Spool.done, h]
  exact Bool.false_ne_true

theorem PcOk.pumped (h : PcOk S p r n pc) (hp : Spool.Pumped p q) : PcOk S q r n pc := by
  have hno : NoCarrier p → NoCarrier q := by
    rw [NoCarrier, NoCarrier, hp.waiting]
    exact id
  cases pc with
  | waiting chunkLen =>
      rw [PcOk, hp.waiting, hp.readOffset]
      exact h
  | data chunk =>
      rw [PcOk, hp.readOffset]
      exact ⟨hno h.1, h.2⟩
  | handoff boundary => exact ⟨hno h.1, h.2⟩
  | handoffSent boundary => exact ⟨hno h.1, h.2⟩
  | returned ok =>
      refine ⟨hno h.1, fun hok => .inl ?_⟩
      have hsettled := (h.2 hok).resolve_right (done_of_eof hp.eof)
      rwa [Settled, hp.ackedWatermark]
  | top => exact ⟨hno h.1, h.2.trans hp.readOffset.symm⟩
  | next => exact ⟨hno h.1, h.2.trans hp.readOffset.symm⟩
  | eof => exact ⟨hno h.1, h.2.trans hp.readOffset.symm⟩
  | complete => exact ⟨hno h.1, h.2.trans hp.readOffset.symm⟩
  | pending => exact ⟨hno h.1, h.2.trans hp.readOffset.symm⟩
  | bound top => exact ⟨hno h.1, h.2.trans hp.readOffset.symm⟩

/-- What was done stays done when more is acknowledged. -/
theorem done_mono (h : p.done = true) (heof : q.eof = p.eof) (hsource : q.sourceOffset = p.sourceOffset)
    (hacked : p.ackedWatermark ≤ q.ackedWatermark) : q.done = true := by
  simp only [Spool.done, Bool.and_eq_true, decide_eq_true_eq] at h ⊢
  exact ⟨heof.trans h.1, by omega⟩

theorem PcOk.acked (h : PcOk S p r n pc) {acked : Nat} (hle : p.ackedWatermark ≤ acked) (early : Bool) :
    PcOk S { p with ackedWatermark := acked, early := early } r n pc := by
  cases pc with
  | returned ok =>
      refine ⟨h.1, fun hok => ?_⟩
      rcases h.2 hok with ⟨hsettled, hrest⟩ | hdone
      · exact .inl ⟨Nat.le_trans hsettled hle, hrest⟩
      · exact .inr (done_mono hdone rfl rfl hle)
  | waiting chunkLen => exact h
  | top => exact h
  | next => exact h
  | data chunk => exact h
  | eof => exact h
  | complete => exact h
  | pending => exact h
  | bound top => exact h
  | handoff boundary => exact h
  | handoffSent boundary => exact h

/-- Once all is acknowledged, the watermark stays where it is. -/
theorem CallerOk.acked (h : CallerOk S p r n pc caller) (hpc : PcOk S p r n pc) {acked : Nat}
    (hle : p.ackedWatermark ≤ acked) (hup : OnRelay caller → acked ≤ r.rx.watermark) (early : Bool) :
    CallerOk S { p with ackedWatermark := acked, early := early } r n pc caller := by
  cases caller with
  | marked w =>
      obtain ⟨heq, hw⟩ := h
      refine ⟨heq, ?_⟩
      rw [heq] at hpc
      have hup' := hup (by intro w h; cases h)
      rcases hpc.2 rfl with ⟨hsettled, -⟩ | hdone
      · rcases hw with hw | hdone
        · refine .inl ?_
          show w = acked
          omega
        · exact .inr (done_mono hdone rfl rfl hle)
      · exact .inr (done_mono hdone rfl rfl hle)
  | rewinding w =>
      obtain ⟨heq, hw, hsettled, hrest⟩ := h
      have hup' := hup (by intro w h; cases h)
      refine ⟨heq, ?_, Nat.le_trans hsettled hle, hrest⟩
      show w = acked
      omega
  | returned => exact h
  | rewound w => exact h
  | direct w => exact h
  | relaying => trivial
  | stopping => trivial
  | finished => trivial
  | failed => trivial

theorem CallerOk.pumped (h : CallerOk S p r n pc caller) (hp : Spool.Pumped p q) :
    CallerOk S q r n pc caller := by
  cases caller with
  | marked w =>
      have hw := h.2.resolve_right (done_of_eof hp.eof)
      exact ⟨h.1, .inl (hw.trans hp.ackedWatermark.symm)⟩
  | rewinding w =>
      obtain ⟨hpc, hw, hsettled⟩ := h
      rw [CallerOk, Settled, hp.ackedWatermark]
      exact ⟨hpc, hw, hsettled⟩
  | rewound w => exact ⟨h.1, hp.readOffset.trans h.2.1, h.2.2⟩
  | direct w =>
      rw [CallerOk, hp.reader]
      exact h
  | returned => exact h
  | relaying => trivial
  | stopping => trivial
  | finished => trivial
  | failed => trivial

end

section

variable {S : List UInt8} {s t : RelayPrefix}

theorem inv_init (S : List UInt8) : Inv S init where
  spool := .new S _ _
  ended := fun h => by cases h
  sent := Nat.le_refl _
  frames := fun _ h => by cases h
  receiver := ⟨Nat.le_refl _, fun _ => HandoffReceiver.Safe.new _ _, .inl rfl⟩
  acks := fun _ h => by cases h
  acked := fun _ => Nat.le_refl _
  readers := fun _ h => by cases h
  handed := by
    rintro (h | h)
    · cases h
    · cases h
  ackErr := fun h => by cases h
  pcOk := ⟨fun h => (by cases h), rfl⟩
  callerOk := trivial

theorem Inv.pump (hi : Inv S s) {p : Spool} (hspool : p.Inv S) (hp : Spool.Pumped s.spool p) :
    Inv S { s with spool := p } :=
  { hi with
    spool := hspool
    ended := hp.ended
    sent := Nat.le_trans hi.sent hp.sourceOffset
    acked := by
      intro hrelay
      exact hp.ackedWatermark.symm ▸ hi.acked hrelay
    readers := by
      intro hrelay
      show _ ∉ p.waiting.map Prod.fst
      rw [hp.waiting]
      exact hi.readers hrelay
    handed := by
      intro hh
      show _ ∧ _ ≤ p.ackedWatermark
      rw [hp.ackedWatermark]
      exact hi.handed hh
    ackErr := fun he => absurd (hi.ackErr he) (done_of_eof hp.eof)
    pcOk := hi.pcOk.pumped hp
    callerOk := hi.callerOk.pumped hp }

/-- The loop moves on, with the spool, the relay and the receiver as they are. -/
theorem Inv.goTo (hi : Inv S s) (hne : s.pc ≠ .returned true) {pc : PrefixPc}
    (hpc : PcOk S s.spool s.receiver s.sentTo pc) : Inv S { s with pc := pc } :=
  { hi with
    pcOk := hpc
    callerOk := hi.callerOk.of_ne hne _ _ _ _ }

/-- The spool moves on for the loop: neither end of it, nor the watermark or what is put aside. -/
theorem Inv.advance (hi : Inv S s) (hne : s.pc ≠ .returned true) {p : Spool} (hspool : p.Inv S)
    (hsource : p.sourceOffset = s.spool.sourceOffset) (heof : p.eof = s.spool.eof)
    (hpump : p.pump = s.spool.pump) (hacked : p.ackedWatermark = s.spool.ackedWatermark)
    (hreaders : .reader ∉ p.waiting.map Prod.fst) {pc : PrefixPc}
    (hpc : PcOk S p s.receiver s.sentTo pc) : Inv S { s with spool := p, pc := pc } :=
  { hi with
    spool := hspool
    ended := by
      intro h
      exact hpump.trans (hi.ended (heof.symm.trans h))
    sent := hsource.symm ▸ hi.sent
    acked := fun hrelay => hacked.symm ▸ hi.acked hrelay
    readers := fun _ => hreaders
    handed := fun hh => hacked.symm ▸ hi.handed hh
    ackErr := by
      intro he
      show p.done = true
      rw [Spool.done, heof, hacked, hsource]
      exact hi.ackErr he
    pcOk := hpc
    callerOk := hi.callerOk.of_ne hne _ _ _ _ }

theorem waiting_eq_nil {p : Spool} (hcarrier : NoCarrier p) (hreader : .reader ∉ p.waiting.map Prod.fst) :
    p.waiting = [] := by
  cases hw : p.waiting with
  | nil => rfl
  | cons w ws =>
      rw [NoCarrier, hw] at hcarrier
      rw [hw] at hreader
      obtain ⟨who, chunkLen⟩ := w
      cases who with
      | carrier => exact absurd List.mem_cons_self hcarrier
      | reader => exact absurd List.mem_cons_self hreader

theorem Inv.stopSeen (hi : Inv S s) (h : s.stopSeen = some t) : Inv S t := by
  rw [RelayPrefix.stopSeen] at h
  split at h
  · have hpc := hi.pcOk
    split at h
    next heq =>
      rw [heq] at hpc
      cases h
      refine hi.goTo (by rw [heq]; simp) ?_
      split
      next hdone => exact ⟨hpc.1, fun _ => .inr hdone⟩
      next => exact hpc
    next heq =>
      rw [heq] at hpc
      cases h
      refine hi.goTo (by rw [heq]; simp) ?_
      split
      next hdone => exact ⟨hpc.1, fun _ => .inr hdone⟩
      next => exact hpc
    next => cases h
  · cases h

theorem Inv.boundary (hi : Inv S s) (h : s.boundary = some t) : Inv S t := by
  rw [RelayPrefix.boundary] at h
  split at h
  next top heq =>
    have hpc := hi.pcOk
    rw [heq] at hpc
    cases h
    refine hi.goTo (by rw [heq]; simp) ?_
    split
    · exact hpc
    split
    · exact hpc
    · exact hpc
  next => cases h

theorem Inv.pass (hi : Inv S s) (h : s.pass = some t) : Inv S t := by
  rw [RelayPrefix.pass] at h
  split at h
  next hguard =>
    have hpc := hi.pcOk
    rw [hguard.1] at hpc
    cases h
    exact hi.goTo (by rw [hguard.1]; simp) hpc
  next => cases h

theorem Inv.enter (hi : Inv S s) (h : s.enter = some t) : Inv S t := by
  rw [RelayPrefix.enter] at h
  split at h
  next heq =>
    have hne : s.pc ≠ .returned true := by rw [heq]; simp
    have hpc := hi.pcOk
    rw [heq] at hpc
    have hnil := waiting_eq_nil hpc.1 (hi.readers (hi.callerOk.onRelay hne))
    -- the limit of the window is the only thing that the first step changes
    obtain ⟨p, hp, hlimit⟩ : ∃ p, (if s.spool.readOffset ≥ externalRelayPrefixDERPStartupBytes then
        s.spool.setMaxUnacked externalRelayPrefixDERPSustainedMax else s.spool) = p ∧ p.Inv S ∧
        ∃ maxUnacked maxLimit, p =
          { s.spool with maxUnacked := maxUnacked, maxLimit := maxLimit } := by
      refine ⟨_, rfl, ?_⟩
      split
      · refine ⟨hi.spool.setMaxUnacked _, _, _, rfl⟩
      · exact ⟨hi.spool, _, _, rfl⟩
    obtain ⟨hinv, maxUnacked, maxLimit, rfl⟩ := hlimit
    dsimp only at h
    rw [hp] at h
    obtain ⟨q, hq, rfl⟩ := Option.map_eq_some_iff.mp h
    have hqinv := hinv.enter hq
    rw [Spool.enter] at hq
    split at hq
    · cases hq
    split at hq
    · cases hq
      exact hi.advance hne hqinv rfl rfl rfl rfl (by simp [hnil]) (by rw [if_pos rfl]; exact hpc)
    · cases hq
      refine hi.advance hne hqinv rfl rfl rfl rfl (by simp [hnil]) ?_
      simp only [hnil, List.nil_append, List.cons_ne_nil, if_false]
      exact ⟨rfl, hpc.2⟩
  next => cases h

theorem Inv.take (hi : Inv S s) (h : s.take = some t) : Inv S t := by
  rw [RelayPrefix.take] at h
  split at h
  next chunkLen heq =>
    have hpc := hi.pcOk
    rw [heq] at hpc
    split at h
    · cases h
    next p hp =>
      have hpinv := hi.spool.take hp
      obtain ⟨payload, hreturned, hread, hwaiting, hsource, hacked, heof, hpump⟩ := Spool.take_carrier hp
      have hnil : p.waiting = [] := by rw [hwaiting, hpc.1, List.erase_cons_head]
      rw [hreturned, List.getLast?_concat] at h
      cases h
      refine hi.advance (by rw [heq]; simp) hpinv hsource heof hpump hacked (by simp [hnil]) ?_
      refine ⟨by simp [NoCarrier, hnil], ?_, hpc.2, hread.symm⟩
      exact hpinv.chunks ⟨s.spool.readOffset, payload⟩ (by rw [hreturned]; simp)
  next => cases h

theorem Inv.takeFails (hi : Inv S s) (h : s.takeFails = some t) : Inv S t := by
  rw [RelayPrefix.takeFails] at h
  split at h
  next chunkLen heq =>
    have hpc := hi.pcOk
    rw [heq] at hpc
    obtain ⟨p, hp, rfl⟩ := Option.map_eq_some_iff.mp h
    have hpinv := hi.spool.takeFails hp
    have hp' := Spool.takeFails_carrier hp
    subst hp'
    have hnil : s.spool.waiting.erase (.carrier, chunkLen) = [] := by rw [hpc.1, List.erase_cons_head]
    refine hi.advance (by rw [heq]; simp) hpinv rfl rfl rfl rfl (by simp [hnil]) ?_
    exact ⟨by simp [NoCarrier, hnil], fun he => by cases he⟩
  next => cases h

theorem Inv.giveUp (hi : Inv S s) (h : s.giveUp = some t) : Inv S t := by
  rw [RelayPrefix.giveUp] at h
  split at h
  next chunkLen heq =>
    have hpc := hi.pcOk
    rw [heq] at hpc
    obtain ⟨p, hp, rfl⟩ := Option.map_eq_some_iff.mp h
    have hpinv := hi.spool.giveUp hp
    obtain ⟨hread, hwaiting, hsource, hacked, heof, hpump⟩ := Spool.giveUp_carrier hp
    have hnil : p.waiting = [] := by rw [hwaiting, hpc.1, List.erase_cons_head]
    have hno : NoCarrier p := by simp [NoCarrier, hnil]
    refine hi.advance (by rw [heq]; simp) hpinv hsource heof hpump hacked (by simp [hnil]) ?_
    split
    · exact ⟨hno, hpc.2.trans hread.symm⟩
    split
    · exact ⟨hno, fun he => by cases he⟩
    split
    · exact ⟨hno, hpc.2.trans hread.symm⟩
    · exact ⟨hno, fun he => by cases he⟩
  next => cases h

theorem Inv.sendData (hi : Inv S s) (h : s.sendData = some t) : Inv S t := by
  rw [RelayPrefix.sendData] at h
  split at h
  next chunk heq =>
    have hpc := hi.pcOk
    rw [heq] at hpc
    obtain ⟨hno, hslice, hsent, hend⟩ := hpc
    cases h
    have hle : s.sentTo ≤ chunk.offset + chunk.payload.length := by omega
    have hread := hi.spool.read
    refine
      { hi with
        sent := ?_
        frames := ?_
        receiver := hi.receiver.mono hle
        pcOk := ⟨hno, hend⟩
        callerOk := hi.callerOk.of_ne (by rw [heq]; simp) _ _ _ _ }
    · exact Nat.le_trans (Nat.le_of_eq hend) hread
    · intro frame hframe
      rcases List.mem_append.mp hframe with hold | hnew
      · exact (hi.frames frame hold).mono hle
      · rw [List.mem_singleton.mp hnew]
        exact ⟨hslice, Nat.le_refl _⟩
  next => cases h

/-- A frame without data is sent. -/
theorem frames_append (hi : Inv S s) {frame : PrefixFrame} (hframe : ∀ chunk, frame ≠ .data chunk) :
    ∀ f ∈ s.frames ++ [frame], PrefixReceiver.FrameOk S s.sentTo f := by
  intro f hf
  rcases List.mem_append.mp hf with hold | hnew
  · exact hi.frames f hold
  · rw [List.mem_singleton.mp hnew]
    cases frame with
    | data chunk => exact absurd rfl (hframe chunk)
    | eof offset => trivial
    | handoff offset => trivial

theorem Inv.sendEOF (hi : Inv S s) (h : s.sendEOF = some t) : Inv S t := by
  rw [RelayPrefix.sendEOF] at h
  split at h
  next heq =>
    have hpc := hi.pcOk
    rw [heq] at hpc
    cases h
    exact
      { hi with
        frames := frames_append hi (by simp)
        pcOk := hpc
        callerOk := hi.callerOk.of_ne (by rw [heq]; simp) _ _ _ _ }
  next => cases h

theorem Inv.sendHandoff (hi : Inv S s) (h : s.sendHandoff = some t) : Inv S t := by
  rw [RelayPrefix.sendHandoff] at h
  split at h
  next boundary heq =>
    have hpc := hi.pcOk
    rw [heq] at hpc
    cases h
    exact
      { hi with
        frames := frames_append hi (by simp)
        handed := fun hh => hi.handed (.inl (hh.resolve_right (Nat.lt_irrefl 0)))
        pcOk := hpc
        callerOk := hi.callerOk.of_ne (by rw [heq]; simp) _ _ _ _ }
  next => cases h

theorem Inv.pendingAck (hi : Inv S s) (h : s.pendingAck = some t) : Inv S t := by
  rw [RelayPrefix.pendingAck] at h
  split at h
  next hguard =>
    have hpc := hi.pcOk
    rw [hguard.1] at hpc
    cases h
    have hnext : Inv S { s with pc := .top } := hi.goTo (by rw [hguard.1]; simp) hpc
    exact { hnext with }
  next => cases h

theorem Inv.pendingTimer (hi : Inv S s) (h : s.pendingTimer = some t) : Inv S t := by
  rw [RelayPrefix.pendingTimer] at h
  split at h
  next heq =>
    have hpc := hi.pcOk
    rw [heq] at hpc
    cases h
    exact hi.goTo (by rw [heq]; simp) hpc
  next => cases h

theorem Inv.ackResult (hi : Inv S s) (h : s.ackResult = some t) : Inv S t := by
  rw [RelayPrefix.ackResult] at h
  split at h
  · cases h
  next ok hok =>
    have hpc := hi.pcOk
    have hdone : ok = true → s.spool.done = true := by
      rintro rfl
      exact hi.ackErr hok
    split at h
    next heq =>
      rw [heq] at hpc
      cases h
      have hnext : Inv S { s with pc := .returned ok } :=
        hi.goTo (by rw [heq]; simp) ⟨hpc.1, fun ho => .inr (hdone ho)⟩
      exact { hnext with ackErr := fun he => by cases he }
    next boundary heq =>
      rw [heq] at hpc
      cases h
      have hnext : Inv S { s with pc := .returned ok } :=
        hi.goTo (by rw [heq]; simp) ⟨hpc.1, fun ho => .inr (hdone ho)⟩
      exact { hnext with ackErr := fun he => by cases he }
    next heq =>
      rw [heq] at hpc
      cases h
      have hnext : Inv S { s with pc := if ok then .complete else .returned false } := by
        refine hi.goTo (by rw [heq]; simp) ?_
        split
        · exact hpc
        · exact ⟨hpc.1, fun he => by cases he⟩
      exact { hnext with ackErr := fun he => by cases he }
    next => cases h

theorem Inv.completeAck (hi : Inv S s) (h : s.completeAck = some t) : Inv S t := by
  rw [RelayPrefix.completeAck] at h
  split at h
  · cases h
    exact { hi with }
  · cases h

theorem Inv.complete (hi : Inv S s) (h : s.complete = some t) : Inv S t := by
  rw [RelayPrefix.complete] at h
  split at h
  next hguard =>
    have hpc := hi.pcOk
    rw [hguard.1] at hpc
    cases h
    exact hi.goTo (by rw [hguard.1]; simp) ⟨hpc.1, fun _ => .inr hguard.2⟩
  next => cases h

/-- The handoff is acknowledged: the receiver has stopped, and the watermark is where it stopped. -/
theorem Inv.handoffAck (hi : Inv S s) (h : s.handoffAck = some t) : Inv S t := by
  rw [RelayPrefix.handoffAck] at h
  split at h
  next boundary heq =>
    split at h
    next hevent =>
      have hpc := hi.pcOk
      rw [heq] at hpc
      obtain ⟨hstatus, hacked⟩ := hi.handed (.inr hevent)
      cases h
      have hnext : Inv S { s with pc := .returned true } :=
        hi.goTo (by rw [heq]; simp) ⟨hpc.1, fun _ => .inl ⟨hacked, .inl hstatus⟩⟩
      exact { hnext with handed := fun _ => ⟨hstatus, hacked⟩ }
    next => cases h
  next => cases h

theorem Inv.anyAck (hi : Inv S s) (h : s.anyAck = some t) : Inv S t := by
  rw [RelayPrefix.anyAck] at h
  split at h
  · split at h
    · cases h
      exact { hi with }
    · cases h
  · cases h

/-- All that was sent is acknowledged. -/
theorem Inv.boundaryReached (hi : Inv S s) (h : s.boundaryReached = some t) : Inv S t := by
  rw [RelayPrefix.boundaryReached] at h
  split at h
  next boundary heq =>
    split at h
    next hreached =>
      have hne : s.pc ≠ .returned true := by rw [heq]; simp
      have hpc := hi.pcOk
      rw [heq] at hpc
      have hacked := hi.acked (hi.callerOk.onRelay hne)
      have hle := hi.receiver.le
      have hsent : s.sentTo = boundary := hpc.2
      cases h
      refine hi.goTo hne ⟨hpc.1, fun _ => .inl ⟨?_, .inr ?_⟩⟩
      · omega
      · omega
    next => cases h
  next => cases h

theorem Inv.fail (hi : Inv S s) (h : s.fail = some t) : Inv S t := by
  rw [RelayPrefix.fail] at h
  split at h
  · cases h
  · cases h
  · cases h
  · cases h
  next hwaiting hbound hreturned =>
    cases h
    refine hi.goTo (fun heq => hreturned true heq) ⟨hi.pcOk.noCarrier ?_, fun he => by cases he⟩
    exact fun chunkLen heq => hwaiting chunkLen heq

theorem Inv.ackRecv (hi : Inv S s) (h : s.ackRecv = some t) : Inv S t := by
  rw [RelayPrefix.ackRecv] at h
  split at h
  next ack acks hpc hacks =>
    have hrest : ∀ a ∈ acks, s.receiver.Says a := by
      intro a ha
      exact hi.acks a (by rw [hacks]; exact List.mem_cons_of_mem _ ha)
    obtain ⟨hbelow, hhandoff⟩ := hi.acks ack (by rw [hacks]; exact List.mem_cons_self)
    split at h
    · cases h
      refine { hi with acks := hrest, handed := ?_, ackErr := fun he => (by cases he) }
      intro hh
      exact hi.handed (.inr (hh.resolve_left (by simp)))
    next hguard =>
      cases h
      have hinv := hi.spool.ackTo ack.watermark
      obtain ⟨early, heq⟩ := Spool.ackTo_max hguard
      rw [heq] at hinv ⊢
      have hle : s.spool.ackedWatermark ≤ max s.spool.ackedWatermark ack.watermark := Nat.le_max_left _ _
      have hup : OnRelay s.caller →
          max s.spool.ackedWatermark ack.watermark ≤ s.receiver.rx.watermark :=
        fun hrelay => Nat.max_le.mpr ⟨hi.acked hrelay, hbelow⟩
      refine
        { hi with
          spool := hinv
          acks := hrest
          acked := hup
          handed := ?_
          ackErr := fun he => done_mono (hi.ackErr he) rfl rfl hle
          pcOk := hi.pcOk.acked hle early
          callerOk := hi.callerOk.acked hi.pcOk hle hup early }
      rintro (hh | hh)
      · obtain ⟨hstatus, hwatermark⟩ := hhandoff (AckPc.acked.inj hh)
        exact ⟨hstatus, Nat.le_trans hwatermark (Nat.le_max_right _ _)⟩
      · obtain ⟨hstatus, hwatermark⟩ := hi.handed (.inr hh)
        exact ⟨hstatus, Nat.le_trans hwatermark hle⟩
  next => cases h

theorem Inv.ackEvent (hi : Inv S s) (h : s.ackEvent = some t) : Inv S t := by
  rw [RelayPrefix.ackEvent] at h
  split at h
  next hpc =>
    cases h
    exact { hi with handed := fun _ => hi.handed (.inl hpc) }
  next =>
    cases h
    refine { hi with handed := ?_ }
    intro hh
    exact hi.handed (.inr (hh.resolve_left (by simp)))
  next => cases h

theorem Inv.ackCheck (hi : Inv S s) (h : s.ackCheck = some t) : Inv S t := by
  rw [RelayPrefix.ackCheck] at h
  split at h
  · cases h
    split
    next hdone =>
      refine { hi with handed := ?_, ackErr := fun _ => hdone }
      intro hh
      exact hi.handed (.inr (hh.resolve_left (by simp)))
    next =>
      refine { hi with handed := ?_ }
      intro hh
      exact hi.handed (.inr (hh.resolve_left (by simp)))
  · cases h

theorem Inv.ackFails (hi : Inv S s) (h : s.ackFails = some t) : Inv S t := by
  rw [RelayPrefix.ackFails] at h
  split at h
  · cases h
    refine { hi with handed := ?_, ackErr := fun he => (by cases he) }
    intro hh
    exact hi.handed (.inr (hh.resolve_left (by simp)))
  · cases h

theorem Inv.watch (hi : Inv S s) (h : s.watch = some t) : Inv S t := by
  rw [RelayPrefix.watch] at h
  split at h
  · cases h
  split at h
  · cases h
    exact { hi with }
  · cases h

/-- The interrupt is seen by the next call of `NextChunk` only. -/
theorem Inv.interrupt (hi : Inv S s) (h : s.interrupt = some t) : Inv S t := by
  rw [RelayPrefix.interrupt] at h
  split at h
  · cases h
    have hspool : Spool.Inv S { s.spool with readInterrupted := true } := { hi.spool with }
    exact { hi with spool := hspool }
  · cases h

/-- The caller moves on before the direct path. -/
theorem Inv.call (hi : Inv S s) (hrelay : OnRelay s.caller) {c : PrefixCaller}
    (hc : CallerOk S s.spool s.receiver s.sentTo s.pc c) : Inv S { s with caller := c } :=
  { hi with
    acked := fun _ => hi.acked hrelay
    readers := fun _ => hi.readers hrelay
    callerOk := hc }

theorem Inv.closeStop (hi : Inv S s) (h : s.closeStop = some t) : Inv S t := by
  rw [RelayPrefix.closeStop] at h
  split at h
  next heq =>
    cases h
    exact hi.call (by rw [heq]; intro w h; cases h) trivial
  next => cases h

theorem Inv.result (hi : Inv S s) (h : s.result = some t) : Inv S t := by
  rw [RelayPrefix.result] at h
  split at h
  next ok hpc heq =>
    cases h
    refine hi.call (by rw [heq]; intro w h; cases h) ?_
    cases ok <;> trivial
  next ok hpc heq =>
    cases h
    refine hi.call (by rw [heq]; intro w h; cases h) ?_
    cases ok with
    | false => trivial
    | true => exact hpc
  next => cases h

theorem Inv.mark (hi : Inv S s) (h : s.mark = some t) : Inv S t := by
  rw [RelayPrefix.mark] at h
  split at h
  next heq =>
    have hcaller := hi.callerOk
    rw [heq] at hcaller
    cases h
    exact hi.call (by rw [heq]; intro w h; cases h) ⟨hcaller, .inl rfl⟩
  next => cases h

/-- The spool is not done, so all is acknowledged that the receiver has delivered. -/
theorem Inv.checkDone (hi : Inv S s) (h : s.checkDone = some t) : Inv S t := by
  rw [RelayPrefix.checkDone] at h
  split at h
  next w heq =>
    have hcaller := hi.callerOk
    rw [heq] at hcaller
    obtain ⟨hreturned, hw⟩ := hcaller
    have hpc := hi.pcOk
    rw [hreturned] at hpc
    cases h
    refine hi.call (by rw [heq]; intro w h; cases h) ?_
    split
    next => trivial
    next hdone =>
      exact ⟨hreturned, hw.resolve_right hdone, (hpc.2 rfl).resolve_right hdone⟩
  next => cases h

theorem agreed_of_settled (hi : Inv S s) (hrelay : OnRelay s.caller)
    (h : Settled s.spool s.receiver s.sentTo) :
    Agreed S s.spool.ackedWatermark s.receiver s.sentTo := by
  obtain ⟨hle, hrest⟩ := h
  have heq : s.receiver.rx.watermark = s.spool.ackedWatermark := Nat.le_antisymm hle (hi.acked hrelay)
  refine ⟨heq, ?_, hrest⟩
  rcases hi.receiver.out with hout | ⟨hfailed, hbelow⟩
  · rw [hout, heq]
  · rcases hrest with hstatus | hall
    · rw [hfailed] at hstatus
      cases hstatus
    · omega

theorem Inv.rewind (hi : Inv S s) (h : s.rewind = some t) : Inv S t := by
  rw [RelayPrefix.rewind] at h
  split at h
  next w heq =>
    have hrelay : OnRelay s.caller := by rw [heq]; intro w h; cases h
    have hcaller := hi.callerOk
    rw [heq] at hcaller
    obtain ⟨hreturned, rfl, hsettled⟩ := hcaller
    split at h
    · cases h
      exact hi.call hrelay trivial
    next hin =>
      cases h
      have hspool := hi.spool.rewindTo s.spool.ackedWatermark
      have hagreed := agreed_of_settled hi hrelay hsettled
      have hpc := hi.pcOk
      rw [hreturned] at hpc
      unfold Spool.rewindTo at hspool ⊢
      rw [if_neg (by omega)] at hspool ⊢
      refine
        { hi with
          spool := hspool
          acked := fun _ => hi.acked hrelay
          readers := fun _ => hi.readers hrelay
          pcOk := ?_
          callerOk := ⟨hreturned, rfl, hagreed⟩ }
      rw [hreturned]
      exact ⟨hpc.1, fun _ => .inl hsettled⟩
  next => cases h

theorem Inv.newReader (hi : Inv S s) (h : s.newReader = some t) : Inv S t := by
  rw [RelayPrefix.newReader] at h
  split at h
  next w heq =>
    have hrelay : OnRelay s.caller := by rw [heq]; intro w h; cases h
    have hcaller := hi.callerOk
    rw [heq] at hcaller
    obtain ⟨hreturned, hread, hagreed⟩ := hcaller
    have hpc := hi.pcOk
    rw [hreturned] at hpc
    have hnil := waiting_eq_nil hpc.1 (hi.readers hrelay)
    cases h
    refine
      { hi with
        spool := hi.spool.newReader
        acked := fun honly => absurd rfl (honly w)
        readers := fun honly => absurd rfl (honly w)
        pcOk := ?_
        callerOk := ⟨hreturned, congrArg some hread, hagreed⟩ }
    rw [hreturned]
    refine ⟨?_, hpc.2⟩
    simp [NoCarrier, Spool.newReader, hnil]
  next => cases h

/-- A step of the reader. -/
theorem Inv.readerMoved (hi : Inv S s) {w : Nat} (heq : s.caller = .direct w) {p : Spool}
    (hspool : p.Inv S) (hmoved : Spool.ReaderMoved s.spool p) : Inv S { s with spool := p } := by
  have hcaller := hi.callerOk
  rw [heq] at hcaller
  obtain ⟨hreturned, hstart, hagreed⟩ := hcaller
  have hpc := hi.pcOk
  rw [hreturned] at hpc
  refine
    { hi with
      spool := hspool
      ended := ?_
      sent := hmoved.sourceOffset.symm ▸ hi.sent
      acked := fun honly => absurd heq (honly w)
      readers := fun honly => absurd heq (honly w)
      handed := ?_
      ackErr := ?_
      pcOk := ?_
      callerOk := ?_ }
  · intro he
    exact hmoved.pump.trans (hi.ended (hmoved.eof.symm.trans he))
  · intro hh
    obtain ⟨hstatus, hle⟩ := hi.handed hh
    exact ⟨hstatus, Nat.le_trans hle hmoved.ackedWatermark⟩
  · intro he
    exact done_mono (hi.ackErr he) hmoved.eof hmoved.sourceOffset hmoved.ackedWatermark
  · rw [hreturned]
    refine ⟨fun hc => hpc.1 (hmoved.carriers hc), fun _ => ?_⟩
    rcases hpc.2 rfl with ⟨hsettled, hrest⟩ | hdone
    · exact .inl ⟨Nat.le_trans hsettled hmoved.ackedWatermark, hrest⟩
    · exact .inr (done_mono hdone hmoved.eof hmoved.sourceOffset hmoved.ackedWatermark)
  · rw [heq]
    exact ⟨hreturned, hmoved.start.trans hstart, hagreed⟩

theorem Inv.reader (hi : Inv S s) {l : SpoolLabel} (h : s.reader S l = some t)
    (hmoved : ∀ p, s.spool.step S l = some p → Spool.ReaderMoved s.spool p) : Inv S t := by
  rw [RelayPrefix.reader] at h
  split at h
  next w heq =>
    obtain ⟨p, hp, rfl⟩ := Option.map_eq_some_iff.mp h
    exact hi.readerMoved heq (hi.spool.step hp) (hmoved p hp)
  next => cases h

/-- The receiver moves on, with its output as it is when there is nothing new for it. -/
theorem Inv.received (hi : Inv S s) (hrun : s.receiver.status = .running) {r : PrefixReceiver}
    (hholds : r.Holds S s.sentTo) (hle : s.receiver.rx.watermark ≤ r.rx.watermark)
    (hsame : s.sentTo ≤ s.receiver.rx.watermark → r.rx = s.receiver.rx) {frames : List PrefixFrame}
    (hframes : ∀ frame ∈ frames, PrefixReceiver.FrameOk S s.sentTo frame) {acks : List PrefixAck}
    (hacks : ∀ a ∈ acks, r.Says a) :
    Inv S { s with frames := frames, receiver := r, acks := s.acks ++ acks } := by
  have hnot : s.receiver.status ≠ .handedOff := by rw [hrun]; simp
  have hsettled : Settled s.spool s.receiver s.sentTo → Settled s.spool r s.sentTo := by
    rintro ⟨hbelow, hrest⟩
    have hall := hrest.resolve_left hnot
    rw [Settled, hsame hall]
    exact ⟨hbelow, .inr hall⟩
  have hagreed : ∀ w, Agreed S w s.receiver s.sentTo → Agreed S w r s.sentTo := by
    rintro w ⟨hw, hout, hrest⟩
    have hall := hrest.resolve_left hnot
    rw [Agreed, hsame hall]
    exact ⟨hw, hout, .inr hall⟩
  refine
    { hi with
      frames := hframes
      receiver := hholds
      acks := ?_
      acked := fun hrelay => Nat.le_trans (hi.acked hrelay) hle
      handed := fun hh => absurd (hi.handed hh).1 hnot
      pcOk := ?_
      callerOk := ?_ }
  · intro a ha
    rcases List.mem_append.mp ha with hold | hnew
    · obtain ⟨hbelow, hhandoff⟩ := hi.acks a hold
      exact ⟨Nat.le_trans hbelow hle, fun he => absurd (hhandoff he).1 hnot⟩
    · exact hacks a hnew
  · have hpc := hi.pcOk
    cases heq : s.pc with
    | returned ok =>
        rw [heq] at hpc
        exact ⟨hpc.1, fun hok => (hpc.2 hok).imp_left hsettled⟩
    | _ =>
        rw [heq] at hpc
        exact hpc
  · have hcaller := hi.callerOk
    cases heq : s.caller with
    | rewinding w =>
        rw [heq] at hcaller
        exact ⟨hcaller.1, hcaller.2.1, hsettled hcaller.2.2⟩
    | rewound w =>
        rw [heq] at hcaller
        exact ⟨hcaller.1, hcaller.2.1, hagreed w hcaller.2.2⟩
    | direct w =>
        rw [heq] at hcaller
        exact ⟨hcaller.1, hcaller.2.1, hagreed w hcaller.2.2⟩
    | _ =>
        rw [heq] at hcaller
        exact hcaller

theorem Inv.deliver (hi : Inv S s) {fault : Option HandoffReceiver.WriteFault}
    (h : s.deliver fault = some t) : Inv S t := by
  rw [RelayPrefix.deliver] at h
  split at h
  next frame frames hrun hframes =>
    cases h
    have hframe := hi.frames frame (by rw [hframes]; exact List.mem_cons_self)
    obtain ⟨hholds, hle, hacks⟩ := hi.receiver.handle hrun hframe fault
    refine hi.received hrun hholds hle ?_ ?_ hacks
    · intro hall
      exact PrefixReceiver.handle_rx_of_le hframe hall fault
    · intro f hf
      exact hi.frames f (by rw [hframes]; exact List.mem_cons_of_mem _ hf)
  next => cases h

theorem Inv.receiverFails (hi : Inv S s) (h : s.receiverFails = some t) : Inv S t := by
  rw [RelayPrefix.receiverFails] at h
  split at h
  next hrun =>
    cases h
    have hholds : PrefixReceiver.Holds S s.sentTo { s.receiver with status := .failed } :=
      ⟨hi.receiver.le, fun he => (by cases he), .inl (PrefixReceiver.out_of_safe (hi.receiver.rx hrun))⟩
    have hnone : ∀ a ∈ ([] : List PrefixAck),
        PrefixReceiver.Says { s.receiver with status := .failed } a := by
      intro a ha
      cases ha
    have hnext := hi.received hrun hholds (Nat.le_refl _) (fun _ => rfl) hi.frames hnone
    rwa [List.append_nil] at hnext
  next => cases h

theorem Inv.pumpStep (hi : Inv S s) {l : SpoolLabel} (h : s.pump S l = some t)
    (hpumped : ∀ p, s.spool.step S l = some p → Spool.Pumped s.spool p) : Inv S t := by
  obtain ⟨p, hp, rfl⟩ := Option.map_eq_some_iff.mp h
  exact hi.pump (hi.spool.step hp) (hpumped p hp)

theorem Inv.step (hi : Inv S s) {l : PrefixLabel} (h : s.step S l = some t) : Inv S t := by
  cases l with
  | turn => exact hi.pumpStep h (fun _ hp => Spool.pumped_turn hi.ended hp)
  | pull n result => exact hi.pumpStep h (fun _ hp => Spool.pumped_pull hi.ended hp)
  | store => exact hi.pumpStep h (fun _ hp => Spool.pumped_store hi.ended hp)
  | storeFails written => exact hi.pumpStep h (fun _ hp => Spool.pumped_storeFails hi.ended hp)
  | stopSeen => exact hi.stopSeen h
  | boundary => exact hi.boundary h
  | pass => exact hi.pass h
  | enter => exact hi.enter h
  | take => exact hi.take h
  | takeFails => exact hi.takeFails h
  | giveUp => exact hi.giveUp h
  | sendData => exact hi.sendData h
  | sendEOF => exact hi.sendEOF h
  | sendHandoff => exact hi.sendHandoff h
  | pendingAck => exact hi.pendingAck h
  | pendingTimer => exact hi.pendingTimer h
  | ackResult => exact hi.ackResult h
  | completeAck => exact hi.completeAck h
  | complete => exact hi.complete h
  | handoffAck => exact hi.handoffAck h
  | anyAck => exact hi.anyAck h
  | boundaryReached => exact hi.boundaryReached h
  | fail => exact hi.fail h
  | ackRecv => exact hi.ackRecv h
  | ackEvent => exact hi.ackEvent h
  | ackCheck => exact hi.ackCheck h
  | ackFails => exact hi.ackFails h
  | watch => exact hi.watch h
  | interrupt => exact hi.interrupt h
  | closeStop => exact hi.closeStop h
  | result => exact hi.result h
  | mark => exact hi.mark h
  | checkDone => exact hi.checkDone h
  | rewind => exact hi.rewind h
  | newReader => exact hi.newReader h
  | readerEnter => exact hi.reader h (fun _ hp => Spool.readerMoved_enter hp)
  | readerTake chunkLen => exact hi.reader h (fun _ hp => Spool.readerMoved_take hp)
  | readerTakeFails chunkLen => exact hi.reader h (fun _ hp => Spool.readerMoved_takeFails hp)
  | readerGiveUp chunkLen => exact hi.reader h (fun _ hp => Spool.readerMoved_giveUp hp)
  | readerCopy n => exact hi.reader h (fun _ hp => Spool.readerMoved_copy hp)
  | loseFrame i =>
      rw [RelayPrefix.step] at h
      split at h
      · cases h
        exact { hi with frames := fun f hf => hi.frames f ((List.eraseIdx_sublist _ _).subset hf) }
      · cases h
  | loseAck i =>
      rw [RelayPrefix.step] at h
      split at h
      · cases h
        exact { hi with acks := fun a ha => hi.acks a ((List.eraseIdx_sublist _ _).subset ha) }
      · cases h
  | deliver fault => exact hi.deliver h
  | receiverFails => exact hi.receiverFails h

theorem reachable_inv {labels : List PrefixLabel} (h : runFrom (step S) init labels = some s) :
    Inv S s :=
  runFrom_invariant (fun _ _ _ hi hs => hi.step hs) labels (inv_init S) h

/-- The caller has rewound the spool to `w`, and may have gone on. -/
def Rewound (w : Nat) (c : PrefixCaller) : Prop := c = .rewound w ∨ c = .direct w

/-- The steps of the caller itself. -/
def ofCaller : PrefixLabel → Bool
  | .closeStop => true
  | .result => true
  | .mark => true
  | .checkDone => true
  | .rewind => true
  | .newReader => true
  | _ => false

/-- The caller stays where it is while the others move: the pump, the loop that sends, the goroutine for
acknowledgements, the reader, the relay and the receiver. -/
theorem caller_of_step {l : PrefixLabel} (hl : ofCaller l = false) (h : s.step S l = some t) :
    t.caller = s.caller := by
  have hspool : ∀ {o : Option Spool}, (o.map fun p => { s with spool := p }) = some t →
      t.caller = s.caller := by
    intro o ho
    obtain ⟨p, -, rfl⟩ := Option.map_eq_some_iff.mp ho
    rfl
  have hreader : ∀ {l : SpoolLabel}, s.reader S l = some t → t.caller = s.caller := by
    intro l hr
    rw [RelayPrefix.reader] at hr
    split at hr
    · exact hspool hr
    · cases hr
  cases l with
  | turn => exact hspool h
  | pull n result => exact hspool h
  | store => exact hspool h
  | storeFails written => exact hspool h
  | stopSeen => grind [RelayPrefix.step, RelayPrefix.stopSeen]
  | boundary => grind [RelayPrefix.step, RelayPrefix.boundary]
  | pass => grind [RelayPrefix.step, RelayPrefix.pass]
  | enter => grind [RelayPrefix.step, RelayPrefix.enter, Option.map_eq_some_iff]
  | take => grind [RelayPrefix.step, RelayPrefix.take]
  | takeFails => grind [RelayPrefix.step, RelayPrefix.takeFails, Option.map_eq_some_iff]
  | giveUp => grind [RelayPrefix.step, RelayPrefix.giveUp, Option.map_eq_some_iff]
  | sendData => grind [RelayPrefix.step, RelayPrefix.sendData]
  | sendEOF => grind [RelayPrefix.step, RelayPrefix.sendEOF]
  | sendHandoff => grind [RelayPrefix.step, RelayPrefix.sendHandoff]
  | pendingAck => grind [RelayPrefix.step, RelayPrefix.pendingAck]
  | pendingTimer => grind [RelayPrefix.step, RelayPrefix.pendingTimer]
  | ackResult => grind [RelayPrefix.step, RelayPrefix.ackResult]
  | completeAck => grind [RelayPrefix.step, RelayPrefix.completeAck]
  | complete => grind [RelayPrefix.step, RelayPrefix.complete]
  | handoffAck => grind [RelayPrefix.step, RelayPrefix.handoffAck]
  | anyAck => grind [RelayPrefix.step, RelayPrefix.anyAck]
  | boundaryReached => grind [RelayPrefix.step, RelayPrefix.boundaryReached]
  | fail => grind [RelayPrefix.step, RelayPrefix.fail]
  | ackRecv => grind [RelayPrefix.step, RelayPrefix.ackRecv]
  | ackEvent => grind [RelayPrefix.step, RelayPrefix.ackEvent]
  | ackCheck => grind [RelayPrefix.step, RelayPrefix.ackCheck]
  | ackFails => grind [RelayPrefix.step, RelayPrefix.ackFails]
  | watch => grind [RelayPrefix.step, RelayPrefix.watch]
  | interrupt => grind [RelayPrefix.step, RelayPrefix.interrupt]
  | closeStop => cases hl
  | result => cases hl
  | mark => cases hl
  | checkDone => cases hl
  | rewind => cases hl
  | newReader => cases hl
  | readerEnter => exact hreader h
  | readerTake chunkLen => exact hreader h
  | readerTakeFails chunkLen => exact hreader h
  | readerGiveUp chunkLen => exact hreader h
  | readerCopy n => exact hreader h
  | loseFrame i => grind [RelayPrefix.step]
  | loseAck i => grind [RelayPrefix.step]
  | deliver fault => grind [RelayPrefix.step, RelayPrefix.deliver]
  | receiverFails => grind [RelayPrefix.step, RelayPrefix.receiverFails]

/-- After the rewind the caller can only take the new reader. -/
theorem Rewound.step {w : Nat} {l : PrefixLabel} (hw : Rewound w s.caller) (h : s.step S l = some t) :
    Rewound w t.caller := by
  cases hl : ofCaller l with
  | false =>
      rw [caller_of_step hl h]
      exact hw
  | true =>
      rcases hw with hw | hw
      · cases l with
        | closeStop => simp [RelayPrefix.step, RelayPrefix.closeStop, hw] at h
        | result => simp [RelayPrefix.step, RelayPrefix.result, hw] at h
        | mark => simp [RelayPrefix.step, RelayPrefix.mark, hw] at h
        | checkDone => simp [RelayPrefix.step, RelayPrefix.checkDone, hw] at h
        | rewind => simp [RelayPrefix.step, RelayPrefix.rewind, hw] at h
        | newReader =>
            simp only [RelayPrefix.step, RelayPrefix.newReader, hw, Option.some.injEq] at h
            rw [← h]
            exact .inr rfl
        | _ => cases hl
      · -- on the direct path it takes no step at all
        cases l with
        | closeStop => simp [RelayPrefix.step, RelayPrefix.closeStop, hw] at h
        | result => simp [RelayPrefix.step, RelayPrefix.result, hw] at h
        | mark => simp [RelayPrefix.step, RelayPrefix.mark, hw] at h
        | checkDone => simp [RelayPrefix.step, RelayPrefix.checkDone, hw] at h
        | rewind => simp [RelayPrefix.step, RelayPrefix.rewind, hw] at h
        | newReader => simp [RelayPrefix.step, RelayPrefix.newReader, hw] at h
        | _ => cases hl

/-- In a state after the rewind the receiver has the source up to the watermark, and the reader the
source from there on. -/
theorem Inv.rewound (hi : Inv S s) {w : Nat} (hw : Rewound w s.caller) :
    s.receiver.rx.out = S.take w ∧ w ≤ S.length ∧
      (s.caller = .direct w → s.spool.reader.out <+: S.drop w ∧
        (s.spool.reader.eof = true → s.spool.reader.out = S.drop w)) := by
  have hcaller := hi.callerOk
  have hagreed : Agreed S w s.receiver s.sentTo := by
    rcases hw with heq | heq
    · rw [heq] at hcaller
      exact hcaller.2.2
    · rw [heq] at hcaller
      exact hcaller.2.2
  obtain ⟨hwatermark, hout, -⟩ := hagreed
  refine ⟨hout, ?_, ?_⟩
  · have hle := hi.receiver.le
    have hsent := hi.sent
    have hfile := hi.spool.file.1
    omega
  · intro heq
    rw [heq] at hcaller
    obtain ⟨-, hread, heof⟩ := hi.spool.reader w hcaller.2.1
    have hall : s.spool.reader.out ++ s.spool.reader.pending <+: S.drop w := by
      rw [hread]
      exact List.take_prefix _ _
    exact ⟨(List.prefix_append _ _).trans hall, heof⟩

end

/-- In every run, when the sender has left the relay by the handoff and rewound its spool to the
watermark `w`, the spool stands at `w`, the receiver has delivered the first `w` bytes of the source and
delivers no more in any continuation, and what the direct path reads from there on completes them to the
source. -/
theorem handoff_agreement (S : List UInt8) (labels : List PrefixLabel) (s : RelayPrefix) (w : Nat)
    (hrun : runFrom (step S) init labels = some s) (hw : s.caller = .rewound w) :
    w ≤ S.length ∧ s.spool.ackedWatermark = w ∧ s.spool.readOffset = w ∧
      ∀ more s', runFrom (step S) s more = some s' → s'.receiver.rx.out = S.take w ∧
        (s'.caller = .direct w → s'.spool.reader.out <+: S.drop w ∧
          (s'.spool.reader.eof = true → s'.receiver.rx.out ++ s'.spool.reader.out = S)) := by
  have hi := reachable_inv hrun
  have hcaller := hi.callerOk
  rw [hw] at hcaller
  obtain ⟨hreturned, hread, hagreed⟩ := hcaller
  have hrelay : OnRelay s.caller := by
    rw [hw]
    intro w h
    cases h
  refine ⟨(hi.rewound (.inl hw)).2.1, ?_, hread, ?_⟩
  · have hbelow := hi.acked hrelay
    rw [hagreed.1] at hbelow
    have hpc := hi.pcOk
    rw [hreturned] at hpc
    refine Nat.le_antisymm hbelow ?_
    rcases hpc.2 rfl with ⟨hsettled, -⟩ | hdone
    · rwa [hagreed.1] at hsettled
    · simp only [Spool.done, Bool.and_eq_true, decide_eq_true_eq] at hdone
      have hle := hi.receiver.le
      have hsent := hi.sent
      have hwatermark := hagreed.1
      omega
  · intro more s' hmore
    have hi' : Inv S s' := runFrom_invariant (fun _ _ _ hi hs => hi.step hs) more hi hmore
    have hw' : Rewound w s'.caller :=
      runFrom_invariant (I := fun u => Rewound w u.caller) (fun _ _ _ h hs => h.step hs) more
        (.inl hw) hmore
    obtain ⟨hout, -, hdirect⟩ := hi'.rewound hw'
    refine ⟨hout, ?_⟩
    intro heq
    obtain ⟨hreader, heof⟩ := hdirect heq
    refine ⟨hreader, ?_⟩
    intro he
    rw [hout, heof he, List.take_append_drop]

/-- The second chunk is lost, and the handoff is acknowledged where the first one ends. -/
def lostChunk : List PrefixLabel :=
  [.turn, .pull 2 .ok, .store, .pass, .enter, .take, .sendData, .deliver none, .ackRecv, .ackEvent,
    .ackCheck, .turn, .pull 1 .eof, .store, .pass, .enter, .take, .sendData, .loseFrame 0, .closeStop,
    .stopSeen, .boundary, .sendHandoff, .deliver none, .ackRecv, .ackEvent, .handoffAck, .result, .mark,
    .checkDone, .rewind]

/-- The direct path sends the rest. -/
def directRest : List PrefixLabel :=
  [.newReader, .readerEnter, .readerTake externalRelayPrefixDERPChunkSize, .readerCopy 5, .readerEnter,
    .readerGiveUp externalRelayPrefixDERPChunkSize]

theorem handoff_agreement_lost_chunk : ∃ s s',
    runFrom (step [1, 2, 3]) init lostChunk = some s ∧ s.caller = .rewound 2 ∧
      runFrom (step [1, 2, 3]) s directRest = some s' ∧ s'.caller = .direct 2 ∧
      s'.spool.reader.eof = true ∧ s'.receiver.rx.out ++ s'.spool.reader.out = [1, 2, 3] := by
  have h : (runFrom (step [1, 2, 3]) init lostChunk).any (fun s =>
      decide (s.caller = .rewound 2) && (runFrom (step [1, 2, 3]) s directRest).any (fun s' =>
        decide (s'.caller = .direct 2 ∧ s'.spool.reader.eof = true))) = true := by decide +kernel
  obtain ⟨s, hrun, hs⟩ := (Option.any_eq_true ..).mp h
  obtain ⟨hrewound, hrest⟩ := Bool.and_eq_true_iff.mp hs
  obtain ⟨s', hmore, hs'⟩ := (Option.any_eq_true ..).mp hrest
  obtain ⟨hdirect, heof⟩ := of_decide_eq_true hs'
  have hagree := handoff_agreement [1, 2, 3] lostChunk s 2 hrun (of_decide_eq_true hrewound)
  obtain ⟨-, -, -, hcontinue⟩ := hagree
  exact ⟨s, s', hrun, of_decide_eq_true hrewound, hmore, hdirect, heof,
    ((hcontinue directRest s' hmore).2 hdirect).2 heof⟩

end RelayPrefix

end Session
