import Mathlib.Algebra.Ring.Int.Defs
import Mathlib.Algebra.Ring.Nat
import Mathlib.Data.Rat.Defs
import Mathlib.Order.Basic

/-!
# The rate controller of a blast

`pkg/probe/blast_rate.go`, without the pacer.  A `blastRateController` moves the rate between one and a
ceiling.  It also remembers a lower ceiling at which packets were lost, and opens that one again after
enough clean reports.

Rates are `int`s.  Times are nanoseconds since the zero time, so that a time is zero where `IsZero` says
so; wherever the code replaces a zero time by `time.Now()`, the clock is given.  Products with the
multipliers are exact, and an `int` is made of them by truncation.  What a conversion gives that is out of
range is up to the implementation: it is the parameter `beyond`.
-/

namespace Probe.Rate

/-! ## Constants -/

def millisecond : Int := 1000 * 1000

def second : Int := 1000 * millisecond

def maxRepairRequestSeqs : Nat := 128

def defaultChunkSize : Int := 1400

def blastRateFeedbackInterval : Int := 100 * millisecond

def blastRateHoldAfterDecrease : Int := 1500 * millisecond

def blastRateHoldAfterPressureDecrease : Int := 5 * second

def blastRateHighCeilingInitialHold : Int := 500 * millisecond

def blastRateHighCeilingPressureHold : Int := 1 * second

def blastRateLossConfirmDelay : Int := 2 * blastRateFeedbackInterval

def blastRateCommitStallWindow : Int := 500 * millisecond

def blastRateRepairPressureEvery : Int := blastRateHoldAfterDecrease

def blastRateIncreaseMultiplier : ℚ := 108 / 100

def blastRateHighIncreaseMultiplier : ℚ := 111 / 100

def blastRateLowStartHighIncreaseMultiplier : ℚ := 118 / 100

def blastRateMediumIncreaseMultiplier : ℚ := 102 / 100

def blastRateDecreaseMultiplier : ℚ := 67 / 100

def blastRatePressureDecreaseMultiplier : ℚ := 80 / 100

def blastRateLossCeilingMultiplier : ℚ := 90 / 100

def blastRatePressureCeilingMultiplier : ℚ := 80 / 100

def blastRateRepairPressureFloor : Int := maxRepairRequestSeqs / 2

def blastRateRepairPressureRatio : ℚ := 1 / 1000

def blastRateHighRepairPressureRatio : ℚ := 5 / 1000

def blastRateConservativeFloorMinMbps : Int := 300

def blastRateConservativeFloorMaxMbps : Int := 400

def blastRateConservativeFloorRepairPkts : Int := maxRepairRequestSeqs * 2

def blastRateLossBudgetMinPackets : UInt64 := 64

def blastRateSevereLossRatioPercent : UInt64 := 5

def blastRateLossCeilingProbeClean : Int := 30

def blastRateMediumLossCeilingProbeClean : Int := 5

def blastRateCleanQueueDelayMax : Int := 200 * millisecond

def blastRateMinMbps : Int := 1

def blastReplayPressureThreshold : ℚ := 75 / 100

/-! ## Numbers -/

/-- An `int` that was computed, in 64 bits. -/
def int (n : Int) : Int := n.bmod (2 ^ 64)

theorem int_eq {n : Int} (hlo : -2 ^ 63 ≤ n) (hhi : n < 2 ^ 63) : int n = n := by
  rw [int, Int.bmod_def]
  omega

def deltaUint64 (current previous : UInt64) : UInt64 :=
  if current < previous then 0 else current - previous

section

variable (beyond : Option ℚ → Int)

/-- `int(x)` of a `float64`, which is `none` when it is no finite number. -/
def toInt (x : Option ℚ) : Int :=
  match x with
  | none => beyond none
  | some q =>
      let n := if 0 ≤ q then q.floor else q.ceil
      if -2 ^ 63 ≤ n ∧ n < 2 ^ 63 then n else beyond (some q)

/-- `int(float64(n)*multiplier + 0.5)`. -/
def scale (n : Int) (multiplier : ℚ) : Int := toInt beyond (some (n * multiplier + 1 / 2))

/-! ## Feedback -/

structure BlastRateFeedback where
  sentPayloadBytes : UInt64
  receivedPayloadBytes : UInt64
  receivedPackets : UInt64
  maxSeqPlusOne : UInt64
  deriving DecidableEq

def BlastRateFeedback.missingPackets (f : BlastRateFeedback) : UInt64 :=
  deltaUint64 f.maxSeqPlusOne f.receivedPackets

def blastRateLossBudgetPackets (receivedDelta : UInt64) : UInt64 :=
  if receivedDelta / 100 < blastRateLossBudgetMinPackets then blastRateLossBudgetMinPackets
  else receivedDelta / 100

def blastRateRatioAtLeast (numerator denominator percent : UInt64) : Bool :=
  if numerator = 0 then false
  else if denominator = 0 then true
  else decide (numerator * 100 ≥ denominator * percent)

def blastRateSevereLoss (missing missingDelta receivedPacketDelta receivedPackets : UInt64) : Bool :=
  blastRateRatioAtLeast missing receivedPackets blastRateSevereLossRatioPercent ||
    blastRateRatioAtLeast missingDelta receivedPacketDelta blastRateSevereLossRatioPercent

/-- The quotient of two `float64`s. -/
def quotient (x y : ℚ) : Option ℚ := if y = 0 then none else some (x / y)

def blastRateFeedbackQueueDelay (feedback : BlastRateFeedback) (rateMbps : Int) : Int :=
  if rateMbps ≤ 0 ∨ feedback.sentPayloadBytes ≤ feedback.receivedPayloadBytes then 0
  else
    let inFlightBytes := feedback.sentPayloadBytes - feedback.receivedPayloadBytes
    toInt beyond ((quotient (inFlightBytes * 8).toNat (int (rateMbps * 1000 * 1000))).map (· * second))

/-! ## The controller -/

/-- `blastRateController`. -/
structure BlastRateController where
  rateMbps : Int
  ceilingMbps : Int
  lossCeilingMbps : Int
  initialLossCeiling : Bool
  cleanAtLossCeiling : Int
  last : BlastRateFeedback
  lastFeedbackAt : Int
  lastProgressBytes : UInt64
  lastProgressAt : Int
  commitStallAt : Int
  holdIncrease : Int
  startupLossHold : Int
  lossCandidateAt : Int
  lossCandidatePk : UInt64
  deriving DecidableEq

namespace BlastRateController

/-- `newBlastRateControllerWithInitialLossCeiling`. -/
def new (rateMbps ceilingMbps initialLossCeilingMbps now : Int) : BlastRateController :=
  let rateMbps := if rateMbps < 0 then 0 else rateMbps
  let ceilingMbps := if ceilingMbps < rateMbps then rateMbps else ceilingMbps
  let initialLossCeiling := 0 < initialLossCeilingMbps ∧ initialLossCeilingMbps < ceilingMbps
  let initialHold :=
    if ceilingMbps > 1500 ∧ rateMbps > 0 then blastRateHighCeilingInitialHold
    else blastRateHoldAfterDecrease
  { rateMbps := rateMbps
    ceilingMbps := ceilingMbps
    lossCeilingMbps :=
      if initialLossCeiling then
        if initialLossCeilingMbps < rateMbps then rateMbps else initialLossCeilingMbps
      else ceilingMbps
    initialLossCeiling := initialLossCeiling
    cleanAtLossCeiling := 0
    last := ⟨0, 0, 0, 0⟩
    lastFeedbackAt := now
    lastProgressBytes := 0
    lastProgressAt := now
    commitStallAt := 0
    holdIncrease := now + initialHold
    startupLossHold := now + blastRateHoldAfterDecrease
    lossCandidateAt := 0
    lossCandidatePk := 0 }

variable (c : BlastRateController)

def effectiveCeilingMbps : Int :=
  if c.ceilingMbps ≤ 0 then 0
  else if c.lossCeilingMbps > 0 ∧ c.lossCeilingMbps < c.ceilingMbps then c.lossCeilingMbps
  else c.ceilingMbps

/-! ### Decrease -/

def mediumRateFloorMbps : Int :=
  if c.ceilingMbps ≤ 0 ∨ c.ceilingMbps > 700 then 0
  else
    let floor := scale beyond c.ceilingMbps (40 / 100)
    if floor < blastRateMinMbps then blastRateMinMbps else floor

def pressureHoldAfterDecrease : Int :=
  if c.ceilingMbps > 0 ∧ c.ceilingMbps ≤ 700 then blastRateHoldAfterDecrease
  else if c.ceilingMbps > 1500 then blastRateHighCeilingPressureHold
  else blastRateHoldAfterPressureDecrease

def rememberLossCeiling (previous next : Int) (force : Bool) : BlastRateController :=
  if c.ceilingMbps ≤ 0 ∨ previous ≤ 0 then c
  else if !force ∧ c.initialLossCeiling ∧ c.lossCeilingMbps > 0 ∧ previous ≤ c.lossCeilingMbps then
    { c with cleanAtLossCeiling := 0 }
  else
    let lossCeilingMbps :=
      if c.lossCeilingMbps ≤ 0 ∨ c.lossCeilingMbps > c.ceilingMbps then c.ceilingMbps
      else c.lossCeilingMbps
    let ceiling :=
      scale beyond previous
        (if force then blastRatePressureCeilingMultiplier else blastRateLossCeilingMultiplier)
    let ceiling := if ceiling < next then next else ceiling
    let ceiling := if ceiling < blastRateMinMbps then blastRateMinMbps else ceiling
    let ceiling := if ceiling > c.ceilingMbps then c.ceilingMbps else ceiling
    { c with
      initialLossCeiling := false
      lossCeilingMbps := if force ∨ ceiling < lossCeilingMbps then ceiling else lossCeilingMbps
      cleanAtLossCeiling := 0 }

/-- The rate that `decreaseWithCeiling` goes down to. -/
def decreasedRate (forceLossCeiling : Bool) : Int :=
  let next :=
    scale beyond c.rateMbps
      (if forceLossCeiling then blastRatePressureDecreaseMultiplier else blastRateDecreaseMultiplier)
  let next := if next < blastRateMinMbps then blastRateMinMbps else next
  let next := if next ≥ c.rateMbps then int (c.rateMbps - 1) else next
  let next := if next < blastRateMinMbps then blastRateMinMbps else next
  let floor := c.mediumRateFloorMbps beyond
  if floor > 0 ∧ c.rateMbps ≥ floor ∧ next < floor then floor else next

def decreaseWithCeiling (now : Int) (forceLossCeiling capLossCeiling : Bool) : BlastRateController :=
  let next := c.decreasedRate beyond forceLossCeiling
  let c' := if capLossCeiling then c.rememberLossCeiling beyond c.rateMbps next forceLossCeiling else c
  { c' with
    rateMbps := next
    holdIncrease :=
      now + if forceLossCeiling then c.pressureHoldAfterDecrease else blastRateHoldAfterDecrease }

def decrease (now : Int) : BlastRateController := c.decreaseWithCeiling beyond now false true

def decreaseFromReplayPressure (now : Int) : BlastRateController :=
  c.decreaseWithCeiling beyond now true true

def decreaseFromRepairPressure (now : Int) : BlastRateController :=
  c.decreaseWithCeiling beyond now true (decide (c.ceilingMbps ≤ 1500) || c.initialLossCeiling)

def decreaseFromCommitStall (now : Int) : BlastRateController :=
  c.decreaseWithCeiling beyond now true true

/-! ### Increase -/

def lossCeilingProbeCleanSamples : Int :=
  if c.initialLossCeiling then blastRateMediumLossCeilingProbeClean
  else if c.ceilingMbps > 0 ∧ c.ceilingMbps ≤ 700 then blastRateMediumLossCeilingProbeClean
  else blastRateLossCeilingProbeClean

/-- What `maybeReopenLossCeiling` did: nothing, or the ceiling was opened, and perhaps the rate set. -/
inductive Reopened where
  | no
  | yes (rateSet : Bool)
  deriving DecidableEq

def maybeReopenLossCeiling : Reopened × BlastRateController :=
  if c.ceilingMbps ≤ 0 ∨ c.lossCeilingMbps ≤ 0 ∨ c.lossCeilingMbps ≥ c.ceilingMbps then (.no, c)
  else
    let clean := int (c.cleanAtLossCeiling + 1)
    if clean < c.lossCeilingProbeCleanSamples then (.no, { c with cleanAtLossCeiling := clean })
    else if c.initialLossCeiling ∧ c.ceilingMbps > 1500 then
      let nextRate := scale beyond c.lossCeilingMbps (125 / 100)
      let nextRate := if nextRate ≤ c.rateMbps then int (c.rateMbps + 1) else nextRate
      let nextRate := if nextRate > c.ceilingMbps then c.ceilingMbps else nextRate
      (.yes true,
        { c with
          lossCeilingMbps := c.ceilingMbps
          initialLossCeiling := false
          cleanAtLossCeiling := 0
          rateMbps := nextRate })
    else
      let next := scale beyond c.lossCeilingMbps blastRateIncreaseMultiplier
      let next := if next ≤ c.lossCeilingMbps then int (c.lossCeilingMbps + 1) else next
      let next := if next > c.ceilingMbps then c.ceilingMbps else next
      (.yes false, { c with lossCeilingMbps := next, cleanAtLossCeiling := 0 })

def increaseMultiplier : ℚ :=
  if c.ceilingMbps > 1500 ∧ c.rateMbps < 700 then blastRateLowStartHighIncreaseMultiplier
  else if c.ceilingMbps > 1500 then blastRateHighIncreaseMultiplier
  else if c.ceilingMbps > 0 ∧ c.ceilingMbps ≤ 700 then blastRateMediumIncreaseMultiplier
  else blastRateIncreaseMultiplier

/-- The growth at the end of `increase`, up to `ceiling`. -/
def grow (ceiling : Int) : BlastRateController :=
  let next := scale beyond c.rateMbps c.increaseMultiplier
  let next := if next ≤ c.rateMbps then int (c.rateMbps + 1) else next
  { c with rateMbps := if next > ceiling then ceiling else next }

def increase : BlastRateController :=
  let ceiling := c.effectiveCeilingMbps
  if ceiling ≤ 0 then c
  else if c.rateMbps ≥ ceiling then
    match c.maybeReopenLossCeiling beyond with
    | (.no, c') => c'
    | (.yes true, c') => c'
    | (.yes false, c') =>
        if c'.rateMbps ≥ c'.effectiveCeilingMbps then c' else c'.grow beyond c'.effectiveCeilingMbps
  else c.grow beyond ceiling

/-! ### Observe -/

def clearLossCandidate : BlastRateController := { c with lossCandidateAt := 0, lossCandidatePk := 0 }

def shouldHoldMediumStartupLoss (now : Int) : Bool :=
  !decide (c.ceilingMbps ≤ 0 ∨ c.ceilingMbps > 700) && !decide (c.rateMbps ≥ c.ceilingMbps) &&
    !decide (c.rateMbps < blastRateConservativeFloorMinMbps) &&
    (decide (c.startupLossHold ≠ 0) && decide (now < c.startupLossHold))

/-- Whether the loss is left to be confirmed, and the candidate. -/
def deferModerateLoss (now : Int) (missing missingDelta receivedPacketDelta receivedPackets : UInt64) :
    Bool × BlastRateController :=
  if blastRateSevereLoss missing missingDelta receivedPacketDelta receivedPackets then (false, c)
  else if c.lossCeilingMbps > 0 ∧ c.ceilingMbps > 0 ∧ c.lossCeilingMbps < c.ceilingMbps then (false, c)
  else if c.lossCandidateAt = 0 ∨ missing < c.lossCandidatePk then
    (true, { c with lossCandidateAt := now, lossCandidatePk := missing })
  else if now - c.lossCandidateAt < blastRateLossConfirmDelay then
    (true, if missing > c.lossCandidatePk then { c with lossCandidatePk := missing } else c)
  else (false, c)

def shouldBackOffForCommitStall (now : Int) (feedback : BlastRateFeedback) (receivedDelta : UInt64) :
    Bool :=
  if c.rateMbps ≤ blastRateMinMbps then false
  else if receivedDelta > 0 ∨ feedback.sentPayloadBytes ≤ feedback.receivedPayloadBytes then false
  else if c.lastProgressAt = 0 ∨ now - c.lastProgressAt < blastRateCommitStallWindow then false
  else if c.commitStallAt ≠ 0 ∧ now - c.commitStallAt < c.pressureHoldAfterDecrease then false
  else true

/-- The feedback is noted, and with it the progress. -/
def note (now : Int) (feedback : BlastRateFeedback) : BlastRateController :=
  let c := { c with last := feedback, lastFeedbackAt := now }
  if feedback.receivedPayloadBytes > c.lastProgressBytes then
    { c with
      lastProgressBytes := feedback.receivedPayloadBytes
      lastProgressAt := now
      commitStallAt := 0 }
  else c

def observe (now clock : Int) (feedback : BlastRateFeedback) : BlastRateController :=
  if c.rateMbps ≤ 0 then c
  else
    let now := if now = 0 then clock else now
    if c.lastFeedbackAt ≠ 0 ∧ now - c.lastFeedbackAt < blastRateFeedbackInterval then c
    else
      let sentDelta := deltaUint64 feedback.sentPayloadBytes c.last.sentPayloadBytes
      let receivedDelta := deltaUint64 feedback.receivedPayloadBytes c.last.receivedPayloadBytes
      let receivedPacketDelta := deltaUint64 feedback.receivedPackets c.last.receivedPackets
      let missing := feedback.missingPackets
      let missingDelta := deltaUint64 missing c.last.missingPackets
      let c := c.note now feedback
      if sentDelta = 0 then c
      else if c.shouldBackOffForCommitStall now feedback receivedDelta then
        { c.decreaseFromCommitStall beyond now with commitStallAt := now }
      else if missing > blastRateLossBudgetPackets feedback.receivedPackets ∧
          missingDelta > blastRateLossBudgetPackets receivedPacketDelta then
        if c.shouldHoldMediumStartupLoss now then c.clearLossCandidate
        else
          match c.deferModerateLoss now missing missingDelta receivedPacketDelta
              feedback.receivedPackets with
          | (true, c) => c
          | (false, c) => c.clearLossCandidate.decrease beyond now
      else
        let c := c.clearLossCandidate
        if ¬(receivedDelta > 0 ∧ missing = 0) ∨ now < c.holdIncrease then c
        else if blastRateFeedbackQueueDelay beyond feedback c.rateMbps > blastRateCleanQueueDelayMax then c
        else c.increase beyond

end BlastRateController

/-! ## The send control -/

def blastRateRepairPressurePacketsFor (rateMbps ceilingMbps : Int) : Int :=
  if rateMbps ≤ 0 then blastRateRepairPressureFloor
  else
    let floor :=
      if rateMbps ≥ blastRateConservativeFloorMinMbps ∧ rateMbps ≤ blastRateConservativeFloorMaxMbps then
        blastRateConservativeFloorRepairPkts
      else blastRateRepairPressureFloor
    let ratio := if ceilingMbps > 1500 then blastRateHighRepairPressureRatio else blastRateRepairPressureRatio
    let payloadBytes : ℚ := rateMbps * 1000 * 1000 / 8 * (blastRateRepairPressureEvery / second) * ratio
    let packets := toInt beyond (some (payloadBytes / defaultChunkSize))
    if packets < floor then floor else packets

/-- `blastSendControl`. -/
structure BlastSendControl where
  adaptive : Bool
  controller : BlastRateController
  sentPayloadBytes : UInt64
  ackFloor : UInt64
  repairPressureAt : Int
  repairPressurePk : Int
  deriving DecidableEq

/-- The fields of `blastReceiverStats` that the control reads. -/
structure BlastReceiverStats where
  receivedPayloadBytes : UInt64
  receivedPackets : UInt64
  maxSeqPlusOne : UInt64
  ackFloor : UInt64

namespace BlastSendControl

/-- `newBlastSendControlWithInitialLossCeiling`. -/
def new (rateMbps ceilingMbps initialLossCeilingMbps now : Int) : BlastSendControl :=
  ⟨decide (ceilingMbps > 0), .new rateMbps ceilingMbps initialLossCeilingMbps now, 0, 0, 0, 0⟩

variable (c : BlastSendControl)

def observeReplayPressure (now clock : Int) (retainedBytes maxBytes : UInt64) : BlastSendControl :=
  if maxBytes = 0 then c
  else
    let now := if now = 0 then clock else now
    if (retainedBytes.toNat : ℚ) / maxBytes.toNat < blastReplayPressureThreshold then c
    else { c with controller := c.controller.decreaseFromReplayPressure beyond now }

def observeRepairPressure (now clock retransmits : Int) : BlastSendControl :=
  if c.controller.rateMbps ≤ blastRateMinMbps then c
  else if retransmits ≤ 0 then c
  else
    let now := if now = 0 then clock else now
    let c :=
      if c.repairPressureAt = 0 ∨ now - c.repairPressureAt ≥ blastRateRepairPressureEvery then
        { c with repairPressureAt := now, repairPressurePk := 0 }
      else c
    let c := { c with repairPressurePk := int (c.repairPressurePk + retransmits) }
    if c.repairPressurePk <
        blastRateRepairPressurePacketsFor beyond c.controller.rateMbps c.controller.ceilingMbps then c
    else if now < c.controller.holdIncrease then { c with repairPressureAt := now, repairPressurePk := 0 }
    else
      let after := c.controller.decreaseFromRepairPressure beyond now
      if after.rateMbps ≠ c.controller.rateMbps then
        { c with controller := after, repairPressureAt := now, repairPressurePk := 0 }
      else { c with controller := after }

def observeReceiverStatsPayload (stats : BlastReceiverStats) (now clock : Int) (updateAckFloor : Bool) :
    BlastSendControl :=
  { c with
    ackFloor := if updateAckFloor ∧ stats.ackFloor > c.ackFloor then stats.ackFloor else c.ackFloor
    controller := c.controller.observe beyond now clock
      ⟨c.sentPayloadBytes, stats.receivedPayloadBytes, stats.receivedPackets, stats.maxSeqPlusOne⟩ }

end BlastSendControl

/-- What happens to a control.  A time comes with what the clock shows. -/
inductive RateEvent where
  | setSentPayloadBytes (bytes : UInt64)
  | observe (now clock : Int) (feedback : BlastRateFeedback)
  | observeReceiverStats (stats : BlastReceiverStats) (now clock : Int) (updateAckFloor : Bool)
  | observeReplayPressure (now clock : Int) (retainedBytes maxBytes : UInt64)
  | observeRepairPressure (now clock retransmits : Int)

def BlastSendControl.handle (c : BlastSendControl) : RateEvent → BlastSendControl
  | .setSentPayloadBytes bytes => { c with sentPayloadBytes := bytes }
  | .observe now clock feedback => { c with controller := c.controller.observe beyond now clock feedback }
  | .observeReceiverStats stats now clock updateAckFloor =>
      c.observeReceiverStatsPayload beyond stats now clock updateAckFloor
  | .observeReplayPressure now clock retainedBytes maxBytes =>
      c.observeReplayPressure beyond now clock retainedBytes maxBytes
  | .observeRepairPressure now clock retransmits => c.observeRepairPressure beyond now clock retransmits

def BlastSendControl.handleAll (c : BlastSendControl) (es : List RateEvent) : BlastSendControl :=
  es.foldl (BlastSendControl.handle beyond) c

end

/-! ## Bounds -/

/-- The rate is at most the remembered ceiling, and that one at most the ceiling of the controller. -/
structure BlastRateController.Bounded (ceiling : Int) (c : BlastRateController) : Prop where
  rate_pos : 1 ≤ c.rateMbps
  rate_le : c.rateMbps ≤ c.lossCeilingMbps
  loss_le : c.lossCeilingMbps ≤ ceiling
  ceiling_eq : c.ceilingMbps = ceiling
  ceiling_lt : ceiling < 2 ^ 63

namespace BlastRateController

variable (beyond : Option ℚ → Int) {ceiling : Int} {c : BlastRateController}

theorem bounded_new {rateMbps ceilingMbps : Int} (initialLossCeilingMbps now : Int) (hrate : 1 ≤ rateMbps)
    (hle : rateMbps ≤ ceilingMbps) (hlt : ceilingMbps < 2 ^ 63) :
    Bounded ceilingMbps (new rateMbps ceilingMbps initialLossCeilingMbps now) := by
  have hpos : ¬ rateMbps < 0 := by omega
  have hceil : ¬ ceilingMbps < rateMbps := by omega
  simp only [new, if_neg hpos, if_neg hceil]
  refine ⟨hrate, ?_, ?_, rfl, hlt⟩
  · dsimp only
    split_ifs <;> omega
  · dsimp only
    split_ifs <;> omega

namespace Bounded

/-- Only the rate and the ceilings count. -/
theorem of_eq {c' : BlastRateController} (h : Bounded ceiling c) (hrate : c'.rateMbps = c.rateMbps)
    (hloss : c'.lossCeilingMbps = c.lossCeilingMbps) (hceil : c'.ceilingMbps = c.ceilingMbps) :
    Bounded ceiling c' := by
  refine ⟨?_, ?_, ?_, ?_, h.ceiling_lt⟩
  · rw [hrate]
    exact h.rate_pos
  · rw [hrate, hloss]
    exact h.rate_le
  · rw [hloss]
    exact h.loss_le
  · rw [hceil]
    exact h.ceiling_eq

/-- The remembered ceiling is the one in effect. -/
theorem effectiveCeilingMbps_eq (h : Bounded ceiling c) : c.effectiveCeilingMbps = c.lossCeilingMbps := by
  obtain ⟨hpos, hle, hloss, hceil, -⟩ := h
  rw [effectiveCeilingMbps, if_neg (by omega)]
  split_ifs <;> omega

/-! ### Decrease -/

/-- A decrease stays between one and the rate, whatever the product with the multiplier is. -/
theorem decreasedRate_bounds (h : Bounded ceiling c) (force : Bool) :
    1 ≤ c.decreasedRate beyond force ∧ c.decreasedRate beyond force ≤ c.rateMbps := by
  obtain ⟨hpos, hle, hloss, hceil, hlt⟩ := h
  have hpred : int (c.rateMbps - 1) = c.rateMbps - 1 := int_eq (by omega) (by omega)
  simp only [decreasedRate, hpred, blastRateMinMbps]
  split_ifs <;> omega

/-- The ceiling that is remembered is not below the rate that follows. -/
theorem rememberLossCeiling (h : Bounded ceiling c) {next : Int} (hpos : 1 ≤ next) (hnext : next ≤ c.rateMbps)
    (force : Bool) :
    next ≤ (c.rememberLossCeiling beyond c.rateMbps next force).lossCeilingMbps ∧
      (c.rememberLossCeiling beyond c.rateMbps next force).lossCeilingMbps ≤ ceiling ∧
      (c.rememberLossCeiling beyond c.rateMbps next force).ceilingMbps = ceiling := by
  obtain ⟨hrate, hle, hloss, hceil, -⟩ := h
  rw [BlastRateController.rememberLossCeiling, if_neg (by omega)]
  split
  · exact ⟨Int.le_trans hnext hle, hloss, hceil⟩
  · refine ⟨?_, ?_, hceil⟩
    · dsimp only [blastRateMinMbps]
      split_ifs <;> omega
    · dsimp only [blastRateMinMbps]
      split_ifs <;> omega

theorem decreaseWithCeiling (h : Bounded ceiling c) (now : Int) (force cap : Bool) :
    Bounded ceiling (c.decreaseWithCeiling beyond now force cap) := by
  obtain ⟨hpos, hle⟩ := h.decreasedRate_bounds beyond force
  cases cap with
  | false => exact ⟨hpos, Int.le_trans hle h.rate_le, h.loss_le, h.ceiling_eq, h.ceiling_lt⟩
  | true =>
      obtain ⟨hnext, hloss, hsame⟩ := h.rememberLossCeiling beyond hpos hle force
      exact ⟨hpos, hnext, hloss, hsame, h.ceiling_lt⟩

/-! ### Increase -/

theorem maybeReopenLossCeiling (h : Bounded ceiling c) : Bounded ceiling (c.maybeReopenLossCeiling beyond).2 := by
  obtain ⟨hpos, hle, hloss, hceil, hlt⟩ := h
  rw [BlastRateController.maybeReopenLossCeiling]
  split
  · exact ⟨hpos, hle, hloss, hceil, hlt⟩
  · rename_i hopen
    have hrate : int (c.rateMbps + 1) = c.rateMbps + 1 := int_eq (by omega) (by omega)
    have hopened : int (c.lossCeilingMbps + 1) = c.lossCeilingMbps + 1 := int_eq (by omega) (by omega)
    simp only [hrate, hopened]
    split
    · exact ⟨hpos, hle, hloss, hceil, hlt⟩
    · split
      · refine ⟨?_, ?_, Int.le_of_eq hceil, hceil, hlt⟩
        · dsimp only
          split_ifs <;> omega
        · dsimp only
          split_ifs <;> omega
      · refine ⟨hpos, ?_, ?_, hceil, hlt⟩
        · dsimp only
          split_ifs <;> omega
        · dsimp only
          split_ifs <;> omega

theorem grow (h : Bounded ceiling c) (hroom : c.rateMbps < c.lossCeilingMbps) :
    Bounded ceiling (c.grow beyond c.lossCeilingMbps) := by
  obtain ⟨hpos, hle, hloss, hceil, hlt⟩ := h
  have hnext : int (c.rateMbps + 1) = c.rateMbps + 1 := int_eq (by omega) (by omega)
  rw [BlastRateController.grow, hnext]
  refine ⟨?_, ?_, hloss, hceil, hlt⟩
  · dsimp only
    split_ifs <;> omega
  · dsimp only
    split_ifs <;> omega

theorem increase (h : Bounded ceiling c) : Bounded ceiling (c.increase beyond) := by
  rw [BlastRateController.increase, h.effectiveCeilingMbps_eq]
  split
  · exact h
  · split
    · have hopened := h.maybeReopenLossCeiling beyond
      split
      next heq => rwa [heq] at hopened
      next heq => rwa [heq] at hopened
      next c' heq =>
        rw [heq] at hopened
        dsimp only at hopened
        split
        · exact hopened
        · rename_i hroom
          rw [hopened.effectiveCeilingMbps_eq] at hroom ⊢
          exact hopened.grow beyond (by omega)
    · exact h.grow beyond (by omega)

/-! ### Observe -/

theorem note (h : Bounded ceiling c) (now : Int) (feedback : BlastRateFeedback) :
    Bounded ceiling (c.note now feedback) := by
  rw [BlastRateController.note]
  split
  · exact h.of_eq rfl rfl rfl
  · exact h.of_eq rfl rfl rfl

theorem clearLossCandidate (h : Bounded ceiling c) : Bounded ceiling c.clearLossCandidate :=
  h.of_eq rfl rfl rfl

theorem deferModerateLoss (h : Bounded ceiling c) (now : Int)
    (missing missingDelta receivedPacketDelta receivedPackets : UInt64) :
    Bounded ceiling
      (c.deferModerateLoss now missing missingDelta receivedPacketDelta receivedPackets).2 := by
  rw [BlastRateController.deferModerateLoss]
  split_ifs
  · exact h
  · exact h
  · exact h.of_eq rfl rfl rfl
  · exact h.of_eq rfl rfl rfl
  · exact h
  · exact h

theorem observe (h : Bounded ceiling c) (now clock : Int) (feedback : BlastRateFeedback) :
    Bounded ceiling (c.observe beyond now clock feedback) := by
  rw [BlastRateController.observe]
  split
  · exact h
  dsimp only
  generalize (if now = 0 then clock else now) = now
  split
  · exact h
  have hnote := h.note now feedback
  split
  · exact hnote
  split
  · exact (hnote.decreaseWithCeiling beyond now true true).of_eq rfl rfl rfl
  split
  · split
    · exact hnote.clearLossCandidate
    · have hdefer := hnote.deferModerateLoss now feedback.missingPackets
        (deltaUint64 feedback.missingPackets c.last.missingPackets)
        (deltaUint64 feedback.receivedPackets c.last.receivedPackets) feedback.receivedPackets
      split
      next heq => rwa [heq] at hdefer
      next heq =>
        rw [heq] at hdefer
        exact hdefer.clearLossCandidate.decreaseWithCeiling beyond now false true
  · split_ifs
    · exact hnote.clearLossCandidate
    · exact hnote.clearLossCandidate
    · exact hnote.clearLossCandidate.increase beyond

end Bounded

end BlastRateController

theorem BlastSendControl.bounded_handle (beyond : Option ℚ → Int) {ceiling : Int} {c : BlastSendControl}
    (h : c.controller.Bounded ceiling) (e : RateEvent) :
    (c.handle beyond e).controller.Bounded ceiling := by
  cases e with
  | setSentPayloadBytes bytes => exact h
  | observe now clock feedback => exact h.observe beyond now clock feedback
  | observeReceiverStats stats now clock updateAckFloor => exact h.observe beyond now clock _
  | observeReplayPressure now clock retainedBytes maxBytes =>
      rw [handle, observeReplayPressure]
      split
      · exact h
      dsimp only
      generalize (if now = 0 then clock else now) = now
      split
      · exact h
      · exact h.decreaseWithCeiling beyond now true true
  | observeRepairPressure now clock retransmits =>
      rw [handle, observeRepairPressure]
      have hdown := fun t => h.decreaseWithCeiling beyond t true
        (decide (c.controller.ceilingMbps ≤ 1500) || c.controller.initialLossCeiling)
      dsimp only
      split_ifs <;> first | exact h | exact hdown _

theorem BlastSendControl.bounded_handleAll (beyond : Option ℚ → Int) {ceiling : Int}
    (es : List RateEvent) {c : BlastSendControl} (h : c.controller.Bounded ceiling) :
    (c.handleAll beyond es).controller.Bounded ceiling := by
  induction es generalizing c with
  | nil => exact h
  | cons e es ih => exact ih (bounded_handle beyond h e)

/-- From a start rate of at least one and a ceiling that is not below it, whatever happens: the rate is at
least one and at most the ceiling in effect, no remembered ceiling is above the ceiling, and a decrease
does not raise the rate. -/
theorem rate_bounds (beyond : Option ℚ → Int) (rateMbps ceilingMbps initialLossCeilingMbps : Int64)
    (hrate : 1 ≤ rateMbps.toInt) (hceiling : rateMbps.toInt ≤ ceilingMbps.toInt) (start : Int)
    (es : List RateEvent) :
    let c := ((BlastSendControl.new rateMbps.toInt ceilingMbps.toInt initialLossCeilingMbps.toInt
      start).handleAll beyond es).controller
    1 ≤ c.rateMbps ∧ c.rateMbps ≤ c.effectiveCeilingMbps ∧
      c.effectiveCeilingMbps ≤ ceilingMbps.toInt ∧ c.ceilingMbps = ceilingMbps.toInt ∧
      (0 < c.lossCeilingMbps → c.lossCeilingMbps ≤ ceilingMbps.toInt) ∧
      ∀ (now : Int) (forceLossCeiling capLossCeiling : Bool),
        (c.decreaseWithCeiling beyond now forceLossCeiling capLossCeiling).rateMbps ≤ c.rateMbps := by
  intro c
  have hlt : ceilingMbps.toInt < 2 ^ 63 := ceilingMbps.toInt_lt
  have h : c.Bounded ceilingMbps.toInt :=
    BlastSendControl.bounded_handleAll beyond es
      (BlastRateController.bounded_new initialLossCeilingMbps.toInt start hrate hceiling hlt)
  have heff := h.effectiveCeilingMbps_eq
  refine ⟨h.rate_pos, ?_, ?_, h.ceiling_eq, fun _ => h.loss_le, fun now force cap => ?_⟩
  · rw [heff]
    exact h.rate_le
  · rw [heff]
    exact h.loss_le
  · exact (h.decreasedRate_bounds beyond force).2

theorem rate_bounds_pressed :
    let c := ((BlastSendControl.new 5 10 0 1).handleAll (fun _ => 0)
      [.observeReplayPressure 7 7 3 4, .observe (3 * second) 0 ⟨9, 9, 9, 9⟩]).controller
    1 ≤ c.rateMbps ∧ c.rateMbps ≤ c.effectiveCeilingMbps ∧ c.effectiveCeilingMbps ≤ 10 := by
  have h := rate_bounds (fun _ => 0) 5 10 0 (by decide) (by decide) 1
    [.observeReplayPressure 7 7 3 4, .observe (3 * second) 0 ⟨9, 9, 9, 9⟩]
  exact ⟨h.1, h.2.1, h.2.2.1⟩

end Probe.Rate
