import Derphole.Session.DirectPrepare

/-!
# Both sides of the direct path agree

Each type of envelope is made by one side only, so that an envelope that verifies at one side was made by
the other, also when the relay gives a side its own.  By induction over a run, the sender knows where the
bytes will go, the receiver has the very start that the sender made, and the samples that the sender gets
are the receiver's, which count nothing but the sender's own probes.
-/

namespace Session

open Lib

namespace DirectUDP

/-- The bytes that were counted for a tier. -/
def tierBytes (tier : Nat) (counted : List (Nat × List UInt8)) : Nat :=
  ((counted.filter fun e => e.1 == tier).map fun e => e.2.length).sum

/-- The samples that the counted probes give. -/
def tallied (rates : List Int64) (counted : List (Nat × List UInt8)) : List DirectUDPRateProbeSample :=
  rates.mapIdx fun tier rate =>
    ⟨rate, 0, Int64.ofNat (tierBytes tier counted), externalDirectUDPRateProbeDurationForRate rate⟩

/-- The sender has its start acknowledged. -/
def SendPc.StartAcked : SendPc → Prop
  | .probing _ => True
  | .waitRateProbe => True
  | .prepared => True
  | _ => False

namespace PrepareConfig

/-- What an envelope says is so. -/
structure Backed (c : PrepareConfig) (s : Preparation) (env : ControlEnvelope) : Prop where
  readyAck : env.type = .directUDPReadyAck →
    env.directUDPReadyAck = some ⟨c.fastDiscard⟩ ∧ s.receiver.pc ≠ .waitReady
  start : env.type = .directUDPStart →
    ∃ start, env.directUDPStart = some start ∧ s.sender.start = some start
  startAck : env.type = .directUDPStartAck → ∃ start, s.receiver.start = some start
  rateProbe : env.type = .directUDPRateProbe →
    ∃ samples, env.directUDPRateProbe = some samples ∧ s.receiver.reported = some samples

/-- What holds in every state of a run. -/
structure Inv (c : PrepareConfig) (s : Preparation) : Prop where
  signed : ∀ env ∈ s.signed, c.Backed s env
  readyAck : ∀ ack, s.sender.readyAck = some ack → ack = ⟨c.fastDiscard⟩ ∧ s.receiver.pc ≠ .waitReady
  unstarted : s.sender.pc = .ready ∨ s.sender.pc = .waitReadyAck ∨ s.sender.pc = .proceeding → s.sender.start = none
  started : ∀ start, s.sender.start = some start →
    externalDirectUDPRateProbeAuthFromStart c.hmac c.tok start = some s.sender.rateProbeAuth ∧
      start.probeRates.length < 2 ^ 32 ∧ (start.stripedBlast = true → c.fastDiscard = false)
  start : ∀ start, s.receiver.start = some start →
    s.sender.start = some start ∧ s.receiver.rateProbeAuth = s.sender.rateProbeAuth
  startAcked : s.sender.pc.StartAcked → ∃ start, s.receiver.start = some start
  tier : ∀ tier, s.sender.pc = .probing tier →
    ∃ start, s.sender.start = some start ∧ tier < start.probeRates.length
  samples : ∀ samples, s.sender.samples = some samples → s.receiver.reported = some samples
  waiting : s.receiver.pc = .waitReady ∨ s.receiver.pc = .waitStart →
    s.receiver.start = none ∧ s.receiver.counted = []
  unreported : s.receiver.pc = .waitReady ∨ s.receiver.pc = .waitStart ∨ s.receiver.pc = .probing →
    s.receiver.reported = none
  probes : ∀ probe ∈ s.probes, ∃ start tier, s.sender.start = some start ∧ tier < start.probeRates.length ∧
    probe = externalDirectUDPRateProbePayload c.hmac tier externalDirectUDPChunkSize s.sender.rateProbeAuth
  counted : ∀ e ∈ s.receiver.counted, e.2 ∈ s.probes ∧
    e.2 = externalDirectUDPRateProbePayload c.hmac e.1 externalDirectUDPChunkSize s.sender.rateProbeAuth
  tally : s.receiver.pc = .probing ∨ s.receiver.reported.isSome →
    ∃ start, s.receiver.start = some start ∧ s.receiver.samples = tallied start.probeRates s.receiver.counted
  reported : ∀ samples, s.receiver.reported = some samples → samples = s.receiver.samples

variable {c : PrepareConfig} {s t : Preparation}

theorem Inv.init : Inv c .init := by
  constructor <;> simp [Preparation.init, SendPc.StartAcked]

theorem Backed.sign {env : ControlEnvelope} (h : c.Backed s env) (envs : List ControlEnvelope) :
    c.Backed (c.sign s envs) (env.sign c.hmac c.auth) where
  readyAck := by simpa [PrepareConfig.sign] using h.readyAck
  start := by simpa [PrepareConfig.sign] using h.start
  startAck := by simpa [PrepareConfig.sign] using h.startAck
  rateProbe := by simpa [PrepareConfig.sign] using h.rateProbe

/-- A side signs what is so. -/
theorem Inv.sign (h : Inv c s) {envs : List ControlEnvelope} (henvs : ∀ env ∈ envs, c.Backed s env) :
    Inv c (c.sign s envs) :=
  { h with
    signed := by
      intro env hmem
      obtain hnew | hold := List.mem_append.mp hmem
      · obtain ⟨made, hmade, rfl⟩ := List.mem_map.mp hnew
        exact (henvs made hmade).sign envs
      · exact { h.signed env hold with } }

/-- An envelope that verifies was signed, so what it says is so. -/
theorem Inv.backed (h : Inv c s) {pkt : ControlPacket} {type : ControlType} {env : ControlEnvelope}
    (hunforged : ∀ env ∈ pkt.envelope, env.mac = externalEnvelopeMAC c.hmac c.auth env.text → env ∈ s.signed)
    (hcarries : c.Carries pkt type env) : c.Backed s env :=
  h.signed env (hunforged env hcarries.1 hcarries.2.2)

/-! ## The sender -/

/-- A side may give up at any time. -/
theorem Inv.senderFails (h : Inv c s) : Inv c { s with sender := { s.sender with pc := .failed } } :=
  { h with
    signed := fun env henv => { h.signed env henv with }
    unstarted := by simp
    startAcked := fun hacked => hacked.elim
    tier := by simp }

theorem Inv.sendReady (h : Inv c s) (hpc : s.sender.pc = .ready) :
    Inv c (c.sign { s with sender := { s.sender with pc := .waitReadyAck } }
      [ControlEnvelope.ofType .directUDPReady]) := by
  have hnext : Inv c { s with sender := { s.sender with pc := .waitReadyAck } } :=
    { h with
      signed := fun env henv => { h.signed env henv with }
      unstarted := fun _ => h.unstarted (.inl hpc)
      startAcked := fun hacked => hacked.elim
      tier := by simp }
  refine hnext.sign fun env henv => ?_
  obtain rfl := List.mem_singleton.mp henv
  exact ⟨nofun, nofun, nofun, nofun⟩

theorem length_foldl_le {α β : Type} {f : List α → β → List α} (h : ∀ acc b, (f acc b).length ≤ acc.length + 1)
    (l : List β) (acc : List α) : (l.foldl f acc).length ≤ acc.length + l.length := by
  induction l generalizing acc with
  | nil => exact Nat.le_refl _
  | cons b l ih =>
      have hhead := h acc b
      have htail := ih (f acc b)
      rw [List.foldl_cons, List.length_cons]
      omega

/-- There are few tiers. -/
theorem length_externalDirectUDPRateProbeRates (maxRateMbps totalBytes : Int64) :
    (externalDirectUDPRateProbeRates maxRateMbps totalBytes).length ≤ 11 := by
  unfold externalDirectUDPRateProbeRates
  split
  · exact Nat.zero_le _
  split
  · exact Nat.zero_le _
  dsimp only
  generalize (if maxRateMbps > externalDirectUDPRateProbeDefaultMaxMbps then
    externalDirectUDPRateProbeDefaultMaxMbps else maxRateMbps) = probeMaxMbps
  have hbases := length_foldl_le (α := Int64) (f := fun out rate =>
    if rate < externalDirectUDPRateProbeMinMbps ∨ rate > probeMaxMbps ∨ rate ∈ out then out else out ++ [rate])
    (by
      intro acc b
      split
      · omega
      · simp)
    [8, 25, 75, 150, 350, 700, 1200, 1800, 2000, 2250] []
  simp only [List.length_nil, List.length_cons] at hbases
  generalize List.foldl _ _ _ = out at hbases ⊢
  have hmax : (if probeMaxMbps ≥ externalDirectUDPRateProbeMinMbps ∧ probeMaxMbps ∉ out then out ++ [probeMaxMbps]
      else out).length ≤ 11 := by
    split
    · rw [List.length_append, List.length_singleton]
      omega
    · omega
  generalize (if probeMaxMbps ≥ externalDirectUDPRateProbeMinMbps ∧ probeMaxMbps ∉ out then _ else _) = out at hmax ⊢
  split
  · exact Nat.one_le_of_lt (Nat.lt_succ_self 10)
  · exact hmax

/-- The start that the sender makes, and what the receiver reads off it. -/
theorem senderStart_spec (ack : DirectUDPReadyAck) (lanes laneCap : Nat) (watermark : Int64)
    (nonce : Vector UInt8 16) :
    externalDirectUDPRateProbeAuthFromStart c.hmac c.tok (c.senderStart ack lanes laneCap watermark nonce).1 =
        some (c.senderStart ack lanes laneCap watermark nonce).2 ∧
      (c.senderStart ack lanes laneCap watermark nonce).1.probeRates.length < 2 ^ 32 ∧
      ((c.senderStart ack lanes laneCap watermark nonce).1.stripedBlast = true → ack.fastDiscard = false) := by
  have hstriped : ∀ n, externalDirectUDPShouldUseStripedBlast n ack.fastDiscard = true → ack.fastDiscard = false := by
    intro n hn
    unfold externalDirectUDPShouldUseStripedBlast at hn
    split at hn
    · cases hn
    next hfast => exact Bool.eq_false_iff.mpr hfast
  have hrates : (if c.skipDirectUDPRateProbes then [] else (externalDirectUDPStreamStart externalDirectUDPMaxRateMbps
      (externalDirectUDPRemainingExpectedBytes c.stdioExpectedBytes watermark)).probeRates).length ≤ 11 := by
    split
    · exact Nat.zero_le _
    · simp only [externalDirectUDPStreamStart]
      exact length_externalDirectUDPRateProbeRates _ _
  unfold senderStart
  dsimp only
  generalize (if c.skipDirectUDPRateProbes then _ else _) = rates at hrates ⊢
  by_cases hnone : rates = []
  · rw [if_pos hnone]
    exact ⟨by simp [externalDirectUDPRateProbeAuthFromStart], Nat.pos_of_neZero _, hstriped _⟩
  · rw [if_neg hnone]
    refine ⟨?_, Nat.lt_of_le_of_lt hrates (by omega), hstriped _⟩
    have hdecode := Base64.decodeString_encodeToString nonce.toList
    have hnonce : Base64.encodeToString nonce.toList ≠ [] := by
      intro hnil
      rw [hnil] at hdecode
      have hlength := congrArg (fun bytes => bytes.map List.length) hdecode
      simp [Base64.decodeString, Base64.ofSextets] at hlength
    simp only [externalDirectUDPRateProbeAuthFromStart, if_neg hnone, if_neg hnonce, hdecode]
    rw [if_neg (by simp), copyInto_toList]

/-- The sender makes its start.  Nothing that depends on it is there before. -/
theorem Inv.proceed (h : Inv c s) (hpc : s.sender.pc = .proceeding) {ack : DirectUDPReadyAck}
    (hack : s.sender.readyAck = some ack) (lanes laneCap : Nat) (watermark : Int64) (nonce : Vector UInt8 16) :
    Inv c (c.sign
      { s with
        sender :=
          { s.sender with
            pc := .waitStartAck
            start := some (c.senderStart ack lanes laneCap watermark nonce).1
            rateProbeAuth := (c.senderStart ack lanes laneCap watermark nonce).2 } }
      [{ ControlEnvelope.ofType .directUDPStart with
          directUDPStart := some (c.senderStart ack lanes laneCap watermark nonce).1 }]) := by
  have hnone : s.sender.start = none := h.unstarted (.inr (.inr hpc))
  have hstart : ∀ start, s.receiver.start ≠ some start := by
    intro start heq
    have := (h.start start heq).1
    rw [hnone] at this
    cases this
  have hprobes : ∀ probe, probe ∉ s.probes := by
    intro probe hprobe
    obtain ⟨start, -, heq, -⟩ := h.probes probe hprobe
    rw [hnone] at heq
    cases heq
  obtain ⟨hauth, hlength, hstriped⟩ := c.senderStart_spec ack lanes laneCap watermark nonce
  generalize c.senderStart ack lanes laneCap watermark nonce = made at hauth hlength hstriped ⊢
  have hnext : Inv c { s with
      sender := { s.sender with pc := .waitStartAck, start := some made.1, rateProbeAuth := made.2 } } :=
    { h with
      signed := by
        intro env henv
        refine { h.signed env henv with start := ?_ }
        intro htype
        obtain ⟨start, -, heq⟩ := (h.signed env henv).start htype
        rw [hnone] at heq
        cases heq
      unstarted := by simp
      started := by
        intro start heq
        cases heq
        exact ⟨hauth, hlength, fun hs => by simpa [(h.readyAck ack hack).1] using hstriped hs⟩
      start := fun start heq => absurd heq (hstart start)
      startAcked := fun hacked => hacked.elim
      tier := by simp
      probes := fun probe hprobe => absurd hprobe (hprobes probe)
      counted := fun e he => absurd (h.counted e he).1 (hprobes e.2) }
  refine hnext.sign fun env henv => ?_
  obtain rfl := List.mem_singleton.mp henv
  exact ⟨nofun, fun _ => ⟨made.1, rfl, rfl⟩, nofun, nofun⟩

theorem tierPc_cases (rates : List Int64) (tier : Nat) :
    tierPc rates tier = .waitRateProbe ∨ tierPc rates tier = .failed ∨
      tier < rates.length ∧ tierPc rates tier = .probing tier := by
  unfold tierPc
  split
  · exact .inl rfl
  next htier =>
    split
    · exact .inr (.inl rfl)
    · exact .inr (.inr ⟨by omega, rfl⟩)

/-- The sender is with its probes. -/
theorem Inv.tierPc (h : Inv c s) {start : DirectUDPStart} (hsender : s.sender.start = some start)
    (hreceiver : s.receiver.start = some start) (tier : Nat) :
    Inv c { s with sender := { s.sender with pc := PrepareConfig.tierPc start.probeRates tier } } := by
  obtain hpc | hpc | ⟨htier, hpc⟩ := tierPc_cases start.probeRates tier <;> rw [hpc]
  · exact
      { h with
        signed := fun env henv => { h.signed env henv with }
        unstarted := by simp
        startAcked := fun _ => ⟨start, hreceiver⟩
        tier := by simp }
  · exact h.senderFails
  · exact
      { h with
        signed := fun env henv => { h.signed env henv with }
        unstarted := by simp
        startAcked := fun _ => ⟨start, hreceiver⟩
        tier := by
          intro tier' heq
          cases heq
          exact ⟨start, hsender, htier⟩ }

theorem Inv.startProbes (h : Inv c s) {start : DirectUDPStart} (hsender : s.sender.start = some start)
    (hreceiver : s.receiver.start = some start) :
    Inv c { s with sender := PrepareConfig.startProbes s.sender start } := by
  unfold PrepareConfig.startProbes
  split
  · exact
      { h with
        signed := fun env henv => { h.signed env henv with }
        unstarted := by simp
        startAcked := fun _ => ⟨start, hreceiver⟩
        tier := by simp }
  split
  · exact h.senderFails
  · exact h.tierPc hsender hreceiver 0

theorem Inv.deliverToSender (h : Inv c s) (henabled : c.auth.envelopeEnabled = true) {pkt : ControlPacket}
    (hunforged : c.Unforged s (.deliverToSender pkt)) :
    Inv c { s with sender := c.deliverToSender s.sender pkt } := by
  obtain heq | heq | ⟨env, hcarries, hpc, heq⟩ | ⟨env, start, hcarries, -, hstart, heq⟩ |
    ⟨env, samples, hcarries, -, hsamples, heq⟩ := deliverToSender_cases henabled s.sender pkt <;> rw [heq]
  · exact h
  · exact h.senderFails
  · obtain ⟨hack, hreceiver⟩ := (h.backed hunforged hcarries).readyAck hcarries.2.1
    exact
      { h with
        signed := fun env henv => { h.signed env henv with }
        readyAck := by
          intro ack hsome
          rw [hack] at hsome
          cases hsome
          exact ⟨rfl, hreceiver⟩
        unstarted := fun _ => h.unstarted (.inr (.inl hpc))
        startAcked := fun hacked => hacked.elim
        tier := by simp }
  · obtain ⟨start', hreceiver⟩ := (h.backed hunforged hcarries).startAck hcarries.2.1
    have hsender := (h.start start' hreceiver).1
    rw [hstart] at hsender
    cases hsender
    exact h.startProbes hstart hreceiver
  · obtain ⟨samples', hmade, hreported⟩ := (h.backed hunforged hcarries).rateProbe hcarries.2.1
    rw [hsamples] at hmade
    cases hmade
    obtain ⟨start, hreceiver, -⟩ := h.tally (.inr (by rw [hreported]; rfl))
    exact
      { h with
        signed := fun env henv => { h.signed env henv with }
        unstarted := by simp
        startAcked := fun _ => ⟨start, hreceiver⟩
        tier := by simp
        samples := by
          intro samples' hsome
          cases hsome
          exact hreported }

theorem Inv.writeProbe (h : Inv c s) {tier : Nat} (hpc : s.sender.pc = .probing tier) :
    Inv c { s with
      probes := externalDirectUDPRateProbePayload c.hmac tier externalDirectUDPChunkSize s.sender.rateProbeAuth ::
        s.probes } :=
  { h with
    signed := fun env henv => { h.signed env henv with }
    probes := by
      intro probe hprobe
      rcases List.mem_cons.mp hprobe with rfl | hold
      · obtain ⟨start, hstart, htier⟩ := h.tier tier hpc
        exact ⟨start, tier, hstart, htier, rfl⟩
      · exact h.probes probe hold
    counted := fun e he => ⟨List.mem_cons_of_mem _ (h.counted e he).1, (h.counted e he).2⟩ }

theorem Inv.nextTier (h : Inv c s) {tier : Nat} (hpc : s.sender.pc = .probing tier) {start : DirectUDPStart}
    (hstart : s.sender.start = some start) :
    Inv c { s with sender := { s.sender with pc := PrepareConfig.tierPc start.probeRates (tier + 1) } } := by
  obtain ⟨start', hreceiver⟩ := h.startAcked (by rw [hpc]; trivial)
  have hsender := (h.start start' hreceiver).1
  rw [hstart] at hsender
  cases hsender
  exact h.tierPc hstart hreceiver (tier + 1)

/-! ## Probes -/

section

variable {hmac : List UInt8 → List UInt8 → List UInt8} {auth : ExternalDirectUDPRateProbeAuth}

/-- The part of a probe before its tag. -/
def probeHeader (index : Nat) (auth : ExternalDirectUDPRateProbeAuth) : List UInt8 :=
  externalDirectUDPRateProbeMagic ++ (Codec.uint32.write (UInt32.ofNat index) ++ auth.nonce.toList)

theorem length_probeHeader (index : Nat) (auth : ExternalDirectUDPRateProbeAuth) :
    (probeHeader index auth).length = 36 := by
  simp [probeHeader, externalDirectUDPRateProbeMagic, ascii]

theorem externalDirectUDPRateProbePayload_eq (hsize : ∀ key input, (hmac key input).length = 32) (index size : Nat) :
    externalDirectUDPRateProbePayload hmac index size auth =
      probeHeader index auth ++
        (hmac auth.key.toList (probeHeader index auth ++ List.replicate (size - 68) 0) ++
          List.replicate (size - 68) 0) := by
  unfold externalDirectUDPRateProbePayload
  dsimp only
  rw [toList_copyInto (hsize _ _)]
  rfl

theorem rateProbeInput_payload (hsize : ∀ key input, (hmac key input).length = 32) (index size : Nat) :
    rateProbeInput (externalDirectUDPRateProbePayload hmac index size auth) =
      probeHeader index auth ++ List.replicate (size - 68) 0 := by
  have hheader := length_probeHeader index auth
  rw [externalDirectUDPRateProbePayload_eq hsize, rateProbeInput]
  show List.take 36 _ ++ List.drop (36 + 32) _ = _
  rw [List.take_left' hheader, ← List.drop_drop, List.drop_left' hheader, List.drop_left' (hsize _ _)]

/-- The place of the index in the header. -/
theorem index_probeHeader {index : Nat} (hindex : index < 2 ^ 32) (rest : List UInt8) :
    (Codec.uint32.ofBytes (((probeHeader index auth ++ rest).drop 16).take 4)).toNat = index := by
  have hdrop : (probeHeader index auth ++ rest).drop 16 =
      Codec.uint32.write (UInt32.ofNat index) ++ (auth.nonce.toList ++ rest) := by
    rw [probeHeader, List.append_assoc, List.append_assoc]
    exact List.drop_left' rfl
  rw [hdrop, List.take_left' (by simp), Codec.ofBytes_write, UInt32.toNat_ofNat_of_lt' hindex]

theorem rateProbeIndex_mac {packet : List UInt8} {samples index : Nat}
    (hindex : externalDirectUDPRateProbeIndex hmac packet samples auth = some index) :
    (packet.drop externalDirectUDPRateProbeMACOffset).take 32 = externalDirectUDPRateProbeMAC hmac auth packet := by
  unfold externalDirectUDPRateProbeIndex at hindex
  split at hindex
  · cases hindex
  split at hindex
  · cases hindex
  split at hindex
  · cases hindex
  split at hindex
  · cases hindex
  next hmac' => exact not_not.mp hmac'

/-- A packet that is counted for a tier is the probe of that tier, if what its tag covers is that of some
probe. -/
theorem eq_payload_of_rateProbeIndex (hsize : ∀ key input, (hmac key input).length = 32) {packet : List UInt8}
    {samples index tier size : Nat} (hindex : externalDirectUDPRateProbeIndex hmac packet samples auth = some index)
    (htier : tier < 2 ^ 32)
    (hinput : rateProbeInput packet = rateProbeInput (externalDirectUDPRateProbePayload hmac tier size auth)) :
    index = tier ∧ packet = externalDirectUDPRateProbePayload hmac tier size auth := by
  unfold externalDirectUDPRateProbeIndex at hindex
  split at hindex
  · cases hindex
  next hlong =>
    split at hindex
    · cases hindex
    split at hindex
    · cases hindex
    split at hindex
    · cases hindex
    next hmac' =>
      dsimp only at hindex
      split at hindex
      · cases hindex
      have hlength : 68 ≤ packet.length := by
        simp only [not_or, Nat.not_lt] at hlong
        exact hlong.1
      have htag : (packet.drop 36).take 32 = hmac auth.key.toList (rateProbeInput packet) := not_not.mp hmac'
      rw [rateProbeInput_payload hsize] at hinput
      obtain ⟨hheader, hrest⟩ := List.append_inj (by rw [← hinput]; rfl)
        (show (packet.take 36).length = (probeHeader tier auth).length by
          rw [length_probeHeader, List.length_take]
          omega)
      have hpacket : packet = probeHeader tier auth ++
          (hmac auth.key.toList (rateProbeInput packet) ++ List.replicate (size - 68) 0) := by
        rw [← htag, ← hheader, ← hrest]
        conv_lhs => rw [← List.take_append_drop 36 packet, ← List.take_append_drop 32 (packet.drop 36), List.drop_drop]
        rfl
      refine ⟨?_, ?_⟩
      · rw [← Option.some.inj hindex, hpacket]
        exact index_probeHeader htier _
      · rw [externalDirectUDPRateProbePayload_eq hsize, ← hinput]
        exact hpacket

end

theorem tallied_nil (rates : List Int64) : tallied rates [] = emptySamples rates := by
  refine List.ext_getElem (by simp [tallied, emptySamples]) fun i hi hi' => ?_
  simp [tallied, emptySamples, tierBytes]

/-- One more probe of a tier. -/
theorem tallied_cons (rates : List Int64) (index : Nat) (packet : List UInt8) (counted : List (Nat × List UInt8)) :
    tallied rates ((index, packet) :: counted) =
      (tallied rates counted).modify index fun sample =>
        { sample with bytesReceived := sample.bytesReceived + Int64.ofNat packet.length } := by
  refine List.ext_getElem (by simp [tallied]) fun i hi hi' => ?_
  rw [List.getElem_modify]
  by_cases hindex : index = i
  · subst hindex
    simp [tallied, tierBytes, Int64.ofNat_add, Int64.add_comm]
  · simp [tallied, tierBytes, hindex]

/-! ## The receiver -/

theorem Inv.receiverFails (h : Inv c s) : Inv c { s with receiver := { s.receiver with pc := .failed } } :=
  { h with
    signed := fun env henv =>
      { h.signed env henv with readyAck := fun htype => ⟨((h.signed env henv).readyAck htype).1, by simp⟩ }
    readyAck := fun ack hack => ⟨(h.readyAck ack hack).1, by simp⟩
    waiting := by simp
    unreported := by simp
    tally := fun hreported => h.tally (.inr (hreported.resolve_left (by simp))) }

theorem Inv.receiveReady (h : Inv c s) (hpc : s.receiver.pc = .waitReady) :
    Inv c (c.sign { s with receiver := { s.receiver with pc := .waitStart } }
      [{ ControlEnvelope.ofType .directUDPReadyAck with directUDPReadyAck := some ⟨c.fastDiscard⟩ }]) := by
  have hnone := h.unreported (.inl hpc)
  have hnext : Inv c { s with receiver := { s.receiver with pc := .waitStart } } :=
    { h with
      signed := fun env henv =>
        { h.signed env henv with readyAck := fun htype => ⟨((h.signed env henv).readyAck htype).1, by simp⟩ }
      readyAck := fun ack hack => ⟨(h.readyAck ack hack).1, by simp⟩
      waiting := fun _ => h.waiting (.inl hpc)
      unreported := fun _ => hnone
      tally := by simp [hnone] }
  refine hnext.sign fun env henv => ?_
  obtain rfl := List.mem_singleton.mp henv
  exact ⟨fun _ => ⟨rfl, by simp⟩, nofun, nofun, nofun⟩

/-- The receiver has the sender's start. -/
theorem Inv.receiveStart (h : Inv c s) (hpc : s.receiver.pc = .waitStart) {start : DirectUDPStart}
    (hstart : s.sender.start = some start) :
    Inv c (c.sign { s with receiver := c.receiveStart s.receiver start s.sender.rateProbeAuth }
      [ControlEnvelope.ofType .directUDPStartAck]) := by
  have hnone := h.unreported (.inr (.inl hpc))
  obtain ⟨-, hcounted⟩ := h.waiting (.inr hpc)
  -- whatever comes after the start, the receiver keeps it and is past its waits
  have hnext : ∀ pc samples, pc ≠ .waitReady → pc ≠ .waitStart →
      (pc = .probing → samples = emptySamples start.probeRates) →
      Inv c { s with
        receiver :=
          { s.receiver with
            pc := pc
            start := some start
            rateProbeAuth := s.sender.rateProbeAuth
            samples := samples } } := by
    intro pc samples hready hwait hsamples
    exact
      { h with
        signed := fun env henv =>
          { h.signed env henv with
            readyAck := fun htype => ⟨((h.signed env henv).readyAck htype).1, hready⟩
            startAck := fun _ => ⟨start, rfl⟩ }
        readyAck := fun ack hack => ⟨(h.readyAck ack hack).1, hready⟩
        start := by
          intro start' heq
          cases heq
          exact ⟨hstart, rfl⟩
        startAcked := fun _ => ⟨start, rfl⟩
        waiting := fun hpc' => (hpc'.elim hready hwait).elim
        unreported := fun _ => hnone
        tally := by
          intro hprobing
          refine ⟨start, rfl, ?_⟩
          simp only [hnone, Option.isSome_none, Bool.false_eq_true, or_false] at hprobing
          rw [hsamples hprobing, hcounted, tallied_nil]
        reported := by simp [hnone] }
  have hbacked : ∀ rcv : DirectReceiver, rcv.start = some start →
      ∀ env ∈ [ControlEnvelope.ofType .directUDPStartAck], c.Backed { s with receiver := rcv } env := by
    intro rcv hrcv env henv
    obtain rfl := List.mem_singleton.mp henv
    exact ⟨nofun, nofun, fun _ => ⟨start, hrcv⟩, nofun⟩
  unfold PrepareConfig.receiveStart
  dsimp only
  split
  · exact (hnext .prepared s.receiver.samples nofun nofun nofun).sign (hbacked _ rfl)
  split
  · exact (hnext .failed s.receiver.samples nofun nofun nofun).sign (hbacked _ rfl)
  · exact (hnext .probing _ nofun nofun fun _ => rfl).sign (hbacked _ rfl)

theorem Inv.deliverToReceiver (h : Inv c s) (henabled : c.auth.envelopeEnabled = true) {pkt : ControlPacket}
    (hunforged : c.Unforged s (.deliverToReceiver pkt)) :
    Inv c (c.sign { s with receiver := (c.deliverToReceiver s.receiver pkt).1 }
      (c.deliverToReceiver s.receiver pkt).2) := by
  obtain heq | heq | ⟨hpc, heq⟩ | ⟨env, start, hcarries, hpc, rfl, hrest⟩ :=
    deliverToReceiver_cases henabled s.receiver pkt
  · rw [heq]
    exact h.sign fun _ hmem => absurd hmem List.not_mem_nil
  · rw [heq]
    exact h.receiverFails.sign fun _ hmem => absurd hmem List.not_mem_nil
  · rw [heq]
    exact h.receiveReady hpc
  · obtain ⟨start, hmade, hsender⟩ := (h.backed hunforged hcarries).start hcarries.2.1
    have hauth := (h.started start hsender).1
    rw [hmade, Option.getD_some] at hrest
    obtain ⟨hnone, -⟩ | ⟨rateProbeAuth, hsome, heq⟩ := hrest
    · rw [hauth] at hnone
      cases hnone
    · rw [hauth] at hsome
      cases hsome
      rw [heq]
      exact h.receiveStart hpc hsender

/-- A packet on a socket is counted only if it is a probe of the sender. -/
theorem Inv.readProbe (h : Inv c s) (hsize : ∀ key input, (c.hmac key input).length = 32)
    (hpc : s.receiver.pc = .probing) {addr : String} {bytes : List UInt8}
    (hunforged : c.Unforged s (.readProbe addr bytes)) :
    Inv c { s with receiver := c.readProbe s.receiver addr bytes } := by
  unfold PrepareConfig.readProbe
  dsimp only
  split
  · exact h
  split
  · exact h
  next index hindex =>
    obtain ⟨start, hstart, hsamples⟩ := h.tally (.inl hpc)
    obtain ⟨hsender, hauth⟩ := h.start start hstart
    obtain ⟨probe, hprobe, hinput⟩ := hunforged (rateProbeIndex_mac hindex)
    obtain ⟨start', tier, hsender', htier, rfl⟩ := h.probes probe hprobe
    rw [hsender] at hsender'
    cases hsender'
    have hlength := (h.started start hsender).2.1
    rw [hauth] at hindex
    obtain ⟨rfl, hpacket⟩ := eq_payload_of_rateProbeIndex hsize hindex (by omega) hinput
    have hnone := h.unreported (.inr (.inr hpc))
    exact
      { h with
        signed := fun env henv => { h.signed env henv with }
        waiting := by simp [hpc]
        counted := by
          intro e he
          rcases List.mem_cons.mp he with rfl | hold
          · exact ⟨hpacket ▸ hprobe, hpacket⟩
          · exact h.counted e hold
        tally := fun _ => ⟨start, hstart, by rw [hsamples, tallied_cons]⟩
        reported := by simp [hnone] }

theorem Inv.probesOver (h : Inv c s) (hpc : s.receiver.pc = .probing) :
    Inv c (c.sign
      { s with receiver := { s.receiver with pc := .prepared, reported := some s.receiver.samples } }
      [{ ControlEnvelope.ofType .directUDPRateProbe with directUDPRateProbe := some s.receiver.samples }]) := by
  have hnone := h.unreported (.inr (.inr hpc))
  have hnext : Inv c { s with
      receiver := { s.receiver with pc := .prepared, reported := some s.receiver.samples } } :=
    { h with
      signed := by
        intro env henv
        refine
          { h.signed env henv with
            readyAck := fun htype => ⟨((h.signed env henv).readyAck htype).1, by simp⟩
            rateProbe := ?_ }
        intro htype
        obtain ⟨samples, -, hreported⟩ := (h.signed env henv).rateProbe htype
        rw [hnone] at hreported
        cases hreported
      readyAck := fun ack hack => ⟨(h.readyAck ack hack).1, by simp⟩
      samples := by
        intro samples hsamples
        have hreported := h.samples samples hsamples
        rw [hnone] at hreported
        cases hreported
      waiting := by simp
      unreported := by simp
      tally := fun _ => h.tally (.inl hpc)
      reported := by
        intro samples hsamples
        cases hsamples
        rfl }
  refine hnext.sign fun env henv => ?_
  obtain rfl := List.mem_singleton.mp henv
  exact ⟨nofun, nofun, nofun, fun _ => ⟨_, rfl, rfl⟩⟩

/-! ## Runs -/

theorem Inv.step (henabled : c.auth.envelopeEnabled = true) (hsize : ∀ key input, (c.hmac key input).length = 32)
    (h : Inv c s) {e : PrepareEvent} (hunforged : c.Unforged s e) (hstep : c.step s e = some t) : Inv c t := by
  cases e with
  | sendReady =>
      simp only [PrepareConfig.step] at hstep
      split at hstep
      · cases hstep
      next hpc =>
        cases hstep
        exact h.sendReady (not_not.mp hpc)
  | deliverToSender pkt =>
      cases hstep
      exact h.deliverToSender henabled hunforged
  | proceed lanes laneCap watermark nonce =>
      simp only [PrepareConfig.step] at hstep
      split at hstep
      next ack hpc hack =>
        split at hstep
        · cases hstep
          exact h.senderFails
        · cases hstep
          exact h.proceed hpc hack lanes laneCap watermark nonce
      · cases hstep
  | writeProbe =>
      simp only [PrepareConfig.step] at hstep
      split at hstep
      next tier hpc =>
        cases hstep
        exact h.writeProbe hpc
      · cases hstep
  | nextTier =>
      simp only [PrepareConfig.step] at hstep
      split at hstep
      next tier start hpc hstart =>
        cases hstep
        exact h.nextTier hpc hstart
      · cases hstep
  | senderFails =>
      cases hstep
      exact h.senderFails
  | deliverToReceiver pkt =>
      cases hstep
      exact h.deliverToReceiver henabled hunforged
  | readProbe addr bytes =>
      simp only [PrepareConfig.step] at hstep
      split at hstep
      · cases hstep
      next hpc =>
        cases hstep
        exact h.readProbe hsize (not_not.mp hpc) hunforged
  | probesOver =>
      simp only [PrepareConfig.step] at hstep
      split at hstep
      · cases hstep
      next hpc =>
        cases hstep
        exact h.probesOver (not_not.mp hpc)
  | receiverFails =>
      cases hstep
      exact h.receiverFails
  | signOther name before behind =>
      cases hstep
      refine h.sign fun env henv => ?_
      obtain rfl := List.mem_singleton.mp henv
      exact ⟨nofun, nofun, nofun, nofun⟩

theorem Inv.run (henabled : c.auth.envelopeEnabled = true) (hsize : ∀ key input, (c.hmac key input).length = 32)
    {events : List PrepareEvent} (hrun : runFrom c.step .init events = some s)
    (hunforged : StepsMeet c.step c.Unforged .init events) : Inv c s :=
  runFrom_invariant_of_meet (fun _ _ _ h hok hstep => h.step henabled hsize hok hstep) events Inv.init hunforged hrun

/-- Every counted probe has the size of a chunk. -/
theorem Inv.tierBytes_eq (h : Inv c s) (hsize : ∀ key input, (c.hmac key input).length = 32) (tier : Nat) :
    tierBytes tier s.receiver.counted =
      externalDirectUDPChunkSize * s.receiver.counted.countP fun e => e.1 == tier := by
  have hlength : ∀ e ∈ s.receiver.counted, e.2.length = externalDirectUDPChunkSize := by
    intro e he
    rw [(h.counted e he).2, externalDirectUDPRateProbePayload_eq hsize, List.length_append, List.length_append,
      length_probeHeader, hsize, List.length_replicate]
    rfl
  have hmap : (s.receiver.counted.filter fun e => e.1 == tier).map (fun e => e.2.length) =
      List.replicate (s.receiver.counted.filter fun e => e.1 == tier).length externalDirectUDPChunkSize := by
    refine List.eq_replicate_iff.mpr ⟨by simp, ?_⟩
    intro n hn
    obtain ⟨e, he, rfl⟩ := List.mem_map.mp hn
    exact hlength e (List.mem_of_mem_filter he)
  rw [tierBytes, hmap, List.sum_replicate_nat, List.countP_eq_length_filter, Nat.mul_comm]

/-- Whatever the relay and the network do, both sides work with one start, the sender knows where the bytes
go, and the samples it gets count its own probes. -/
theorem direct_prepare_agreement (c : PrepareConfig) (henabled : c.auth.envelopeEnabled = true)
    (hsize : ∀ key input, (c.hmac key input).length = 32) (events : List PrepareEvent) (s : Preparation)
    (hrun : runFrom c.step .init events = some s) (hunforged : StepsMeet c.step c.Unforged .init events) :
    (∀ ack, s.sender.readyAck = some ack → ack.fastDiscard = c.fastDiscard) ∧
    (∀ start, s.sender.start = some start → start.stripedBlast = true → c.fastDiscard = false) ∧
    (∀ start, s.receiver.start = some start →
      s.sender.start = some start ∧ s.receiver.rateProbeAuth = s.sender.rateProbeAuth) ∧
    (s.sender.pc.StartAcked → s.sender.start.isSome ∧ s.receiver.start = s.sender.start) ∧
    (∀ samples, s.sender.samples = some samples →
      s.receiver.reported = some samples ∧ ∃ start, s.sender.start = some start ∧
        samples = start.probeRates.mapIdx fun tier rate =>
          ⟨rate, 0, Int64.ofNat (externalDirectUDPChunkSize * s.receiver.counted.countP fun e => e.1 == tier),
            externalDirectUDPRateProbeDurationForRate rate⟩) ∧
    ∀ e ∈ s.receiver.counted, e.2 ∈ s.probes ∧
      e.2 = externalDirectUDPRateProbePayload c.hmac e.1 externalDirectUDPChunkSize s.sender.rateProbeAuth := by
  have h := Inv.run henabled hsize hrun hunforged
  refine ⟨fun ack hack => by rw [(h.readyAck ack hack).1], fun start hstart => (h.started start hstart).2.2,
    h.start, ?_, ?_, h.counted⟩
  · intro hacked
    obtain ⟨start, hstart⟩ := h.startAcked hacked
    have hsender := (h.start start hstart).1
    exact ⟨by rw [hsender]; rfl, by rw [hsender, hstart]⟩
  · intro samples hsamples
    have hreported := h.samples samples hsamples
    obtain ⟨start, hstart, htally⟩ := h.tally (.inr (by rw [hreported]; rfl))
    refine ⟨hreported, start, (h.start start hstart).1, ?_⟩
    rw [h.reported samples hreported, htally, tallied]
    simp only [h.tierBytes_eq hsize]

/-! ## A preparation -/

def readyEnvelope : ControlEnvelope := ControlEnvelope.ofType .directUDPReady

def readyAckEnvelope : ControlEnvelope :=
  { ControlEnvelope.ofType .directUDPReadyAck with directUDPReadyAck := some ⟨false⟩ }

def startEnvelope : ControlEnvelope :=
  { ControlEnvelope.ofType .directUDPStart with
    directUDPStart := some ⟨0, [], [], [8, 25, 75, 150, 350, 700, 1200, 1800, 2000, 2250],
      ascii "CQkJCQkJCQkJCQkJCQkJCQ", true, true⟩ }

def startAckEnvelope : ControlEnvelope := ControlEnvelope.ofType .directUDPStartAck

/-- One probe of the first tier has arrived. -/
def rateProbeEnvelope : ControlEnvelope :=
  { ControlEnvelope.ofType .directUDPRateProbe with
    directUDPRateProbe := some [⟨8, 0, 1384, 200⟩, ⟨25, 0, 0, 200⟩, ⟨75, 0, 0, 200⟩, ⟨150, 0, 0, 200⟩,
      ⟨350, 0, 0, 200⟩, ⟨700, 0, 0, 200⟩, ⟨1200, 0, 0, 200⟩, ⟨1800, 0, 0, 500⟩, ⟨2000, 0, 0, 500⟩,
      ⟨2250, 0, 0, 500⟩] }

/-- The header of the first probe. -/
def firstProbeHeader : List UInt8 :=
  externalDirectUDPRateProbeMagic ++ ([0, 0, 0, 0] ++ List.replicate 16 9)

/-- The keyed SHA-256 hashes of the label of the third key, of the envelopes above and of the first probe. -/
def preparationHmac : List UInt8 → List UInt8 → List UInt8 :=
  sessionHmac
    [(ascii "derphole-direct-udp-rate-probe-v1" ++ List.replicate 16 1,
      #v[30, 118, 204, 34, 156, 26, 53, 161, 173, 108, 39, 223, 61, 193, 164, 57, 125, 244, 95, 241, 250, 240,
        5, 202, 225, 211, 104, 180, 91, 0, 90, 95]),
      (ascii "envelope" ++ readyEnvelope.marshal,
      #v[154, 119, 207, 131, 116, 43, 212, 0, 200, 158, 247, 195, 92, 45, 157, 200, 222, 89, 109, 172, 189,
        232, 235, 235, 11, 47, 37, 239, 57, 153, 122, 245]),
      (ascii "envelope" ++ readyAckEnvelope.marshal,
      #v[147, 167, 223, 162, 151, 136, 137, 95, 173, 77, 189, 225, 5, 69, 231, 70, 155, 135, 238, 101, 135,
        90, 188, 69, 51, 201, 7, 203, 125, 34, 46, 84]),
      (ascii "envelope" ++ startEnvelope.marshal,
      #v[201, 216, 84, 114, 147, 4, 173, 231, 103, 246, 218, 240, 109, 240, 8, 255, 140, 16, 236, 135, 218,
        108, 77, 142, 118, 12, 131, 201, 244, 145, 46, 27]),
      (ascii "envelope" ++ startAckEnvelope.marshal,
      #v[209, 1, 250, 204, 176, 149, 243, 178, 241, 108, 38, 121, 192, 81, 65, 47, 122, 119, 162, 96, 80, 61,
        211, 102, 52, 10, 103, 111, 17, 216, 218, 151]),
      (ascii "envelope" ++ rateProbeEnvelope.marshal,
      #v[194, 255, 26, 103, 130, 22, 221, 62, 77, 51, 69, 187, 220, 227, 24, 158, 90, 82, 146, 158, 66, 140,
        193, 210, 220, 64, 11, 120, 103, 219, 77, 128]),
      (firstProbeHeader ++ List.replicate 1316 0,
      #v[33, 25, 52, 140, 8, 236, 47, 170, 225, 131, 54, 152, 104, 231, 8, 183, 150, 68, 89, 213, 202, 139,
        58, 219, 11, 52, 189, 131, 46, 94, 105, 201])]

def preparation : PrepareConfig where
  hmac := preparationHmac
  tok := sessionToken
  senderDERP := Vector.replicate 32 4
  receiverDERP := Vector.replicate 32 2
  stdioExpectedBytes := 0
  skipDirectUDPRateProbes := false
  fastDiscard := false
  receiveConns := 2
  allowedSources := ["203.0.113.7:41641"]

instance (s : Preparation) : ∀ e, Decidable (preparation.Unforged s e)
  | .deliverToSender _ => inferInstanceAs (Decidable (∀ _ ∈ _, _ → _))
  | .deliverToReceiver _ => inferInstanceAs (Decidable (∀ _ ∈ _, _ → _))
  | .readProbe _ _ => inferInstanceAs (Decidable (_ → ∃ _ ∈ _, _))
  | .sendReady => isTrue trivial
  | .proceed _ _ _ _ => isTrue trivial
  | .writeProbe => isTrue trivial
  | .nextTier => isTrue trivial
  | .senderFails => isTrue trivial
  | .probesOver => isTrue trivial
  | .receiverFails => isTrue trivial
  | .signOther _ _ _ => isTrue trivial

def fromSender (env : ControlEnvelope) (mac : String) : ControlPacket :=
  ⟨preparation.senderDERP, some { env with mac := ascii mac }⟩

def fromReceiver (env : ControlEnvelope) (mac : String) : ControlPacket :=
  ⟨preparation.receiverDERP, some { env with mac := ascii mac }⟩

/-- The first probe with its tag. -/
def firstProbe : List UInt8 :=
  firstProbeHeader ++ (preparationHmac [] (firstProbeHeader ++ List.replicate 1316 0) ++ List.replicate 1316 0)

/-- A preparation with one probe.  The relay makes up an acknowledgement first. -/
def preparationEvents : List PrepareEvent :=
  [.sendReady, .deliverToReceiver (fromSender readyEnvelope "mnfPg3Qr1ADInvfDXC2dyN5Zbay96OvrCy8l7zmZevU"),
    .deliverToSender (fromReceiver { readyAckEnvelope with directUDPReadyAck := some ⟨true⟩ }
      "k6ffopeIiV-tTb3hBUXnRpuH7mWHWrxFM8kHy30iLlQ"),
    .deliverToSender (fromReceiver readyAckEnvelope "k6ffopeIiV-tTb3hBUXnRpuH7mWHWrxFM8kHy30iLlQ"),
    .proceed 2 0 0 (Vector.replicate 16 9),
    .deliverToReceiver (fromSender startEnvelope "ydhUcpMEredn9trwbfAI_4wQ7IfabE2OdgyDyfSRLhs"),
    .deliverToSender (fromReceiver startAckEnvelope "0QH6zLCV87LxbCZ5wFFBL3p3omBQPdNmNApnbxHY2pc"), .writeProbe,
    .readProbe "203.0.113.7:41641" firstProbe, .nextTier, .nextTier, .nextTier, .nextTier, .nextTier,
    .nextTier, .nextTier, .nextTier, .nextTier, .nextTier, .probesOver,
    .deliverToSender (fromReceiver rateProbeEnvelope "wv8aZ4IW3T5NM0W73OMYnlpSkp5CjMHS3EALeGfbTYA")]

/-- The sender ends with the receiver's samples. -/
theorem direct_prepare_agreement_probed :
    ∃ s, runFrom preparation.step .init preparationEvents = some s ∧ s.sender.pc = .prepared ∧
      s.sender.samples = rateProbeEnvelope.directUDPRateProbe ∧ s.receiver.start = startEnvelope.directUDPStart ∧
      s.receiver.start = s.sender.start ∧ s.receiver.counted.length = 1 := by
  have hrun : (runFrom preparation.step .init preparationEvents).map
      (fun s => (s.sender.pc, s.sender.samples, s.receiver.start, s.receiver.counted.length)) =
        some (.prepared, rateProbeEnvelope.directUDPRateProbe, startEnvelope.directUDPStart, 1) := by
    decide +kernel
  obtain ⟨s, hs, hstate⟩ := Option.map_eq_some_iff.mp hrun
  obtain ⟨hpc, hstate⟩ := Prod.mk.inj hstate
  obtain ⟨hsamples, hstate⟩ := Prod.mk.inj hstate
  obtain ⟨hstart, hcounted⟩ := Prod.mk.inj hstate
  obtain ⟨-, -, -, hacked, -⟩ := direct_prepare_agreement preparation (by decide +kernel) (length_sessionHmac _)
    preparationEvents s hs (by decide +kernel)
  exact ⟨s, hs, hpc, hsamples, hstart, (hacked (by rw [hpc]; trivial)).2, hcounted⟩

end PrepareConfig

end DirectUDP

end Session
