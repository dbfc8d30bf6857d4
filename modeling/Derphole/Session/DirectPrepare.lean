import Derphole.Lib.Json
import Derphole.Session.Heartbeat

/-!
# Preparing the direct path

`externalPrepareDirectUDPSend` and `externalPrepareDirectUDPReceive` of
`pkg/session/external_direct_udp.go`, with the envelopes of `pkg/session/external_control_security.go`:

    sender                              receiver
    direct_udp_ready              -->
                                  <--   direct_udp_ready_ack   where the bytes will go
    direct_udp_start              -->                          what will be sent, and how
                                  <--   direct_udp_start_ack
    packets on the sockets        -->
                                  <--   direct_udp_rate_probe  how many arrived

Both run beside whatever else the two endpoints say to each other.  The relay between them is not
trusted: it may lose, repeat, reorder and make up envelopes, and the sockets take packets from anyone.
What nobody but the endpoints can do is make a tag that verifies (`Unforged`).

How fast the probes are sent, and the rate that is chosen after them, are not part of the model.
-/

namespace Session

open Lib

namespace DirectUDP

/-! ## Envelopes -/

inductive ControlType where
  | directUDPReady
  | directUDPReadyAck
  | directUDPStart
  | directUDPStartAck
  | directUDPRateProbe
  | other (name : List UInt8)
  deriving DecidableEq

def ControlType.name : ControlType → List UInt8
  | .directUDPReady => ascii "direct_udp_ready"
  | .directUDPReadyAck => ascii "direct_udp_ready_ack"
  | .directUDPStart => ascii "direct_udp_start"
  | .directUDPStartAck => ascii "direct_udp_start_ack"
  | .directUDPRateProbe => ascii "direct_udp_rate_probe"
  | .other name => name

structure DirectUDPReadyAck where
  fastDiscard : Bool
  deriving DecidableEq

structure DirectUDPStart where
  expectedBytes : Int64
  sectionSizes : List Int64
  sectionAddrs : List (List UInt8)
  probeRates : List Int64
  probeNonce : List UInt8
  stream : Bool
  stripedBlast : Bool
  deriving DecidableEq

structure DirectUDPRateProbeSample where
  rateMbps : Int64
  bytesSent : Int64
  bytesReceived : Int64
  durationMillis : Int64
  deriving DecidableEq

/-- An envelope.  The members of other messages are kept as they are written: those that stand before the
ones of the direct path, and those behind. -/
structure ControlEnvelope where
  type : ControlType
  mac : List UInt8
  before : List (String × List UInt8)
  directUDPReadyAck : Option DirectUDPReadyAck
  directUDPStart : Option DirectUDPStart
  directUDPRateProbe : Option (List DirectUDPRateProbeSample)
  behind : List (String × List UInt8)
  deriving DecidableEq

def ControlEnvelope.ofType (type : ControlType) : ControlEnvelope := ⟨type, [], [], none, none, none, []⟩

def DirectUDPReadyAck.marshal (ack : DirectUDPReadyAck) : List UInt8 :=
  Json.object (Json.omitEmpty (!ack.fastDiscard) "fast_discard" (Json.bool ack.fastDiscard))

def DirectUDPStart.marshal (start : DirectUDPStart) : List UInt8 :=
  Json.object (
    Json.omitEmpty (start.expectedBytes == 0) "expected_bytes" (Json.number start.expectedBytes) ++
    Json.omitEmpty start.sectionSizes.isEmpty "section_sizes" (Json.array (start.sectionSizes.map Json.number)) ++
    Json.omitEmpty start.sectionAddrs.isEmpty "section_addrs" (Json.array (start.sectionAddrs.map Json.quote)) ++
    Json.omitEmpty start.probeRates.isEmpty "probe_rates" (Json.array (start.probeRates.map Json.number)) ++
    Json.omitEmpty start.probeNonce.isEmpty "probe_nonce" (Json.quote start.probeNonce) ++
    Json.omitEmpty (!start.stream) "stream" (Json.bool start.stream) ++
    Json.omitEmpty (!start.stripedBlast) "striped_blast" (Json.bool start.stripedBlast))

def DirectUDPRateProbeSample.marshal (sample : DirectUDPRateProbeSample) : List UInt8 :=
  Json.object (
    Json.omitEmpty (sample.rateMbps == 0) "rate_mbps" (Json.number sample.rateMbps) ++
    Json.omitEmpty (sample.bytesSent == 0) "bytes_sent" (Json.number sample.bytesSent) ++
    Json.omitEmpty (sample.bytesReceived == 0) "bytes_received" (Json.number sample.bytesReceived) ++
    Json.omitEmpty (sample.durationMillis == 0) "duration_millis" (Json.number sample.durationMillis))

/-- `json.Marshal` of an envelope. -/
def ControlEnvelope.marshal (env : ControlEnvelope) : List UInt8 :=
  Json.object (
    [("type", Json.quote env.type.name)] ++ Json.omitEmpty env.mac.isEmpty "mac" (Json.quote env.mac) ++
    env.before ++
    (env.directUDPReadyAck.toList.map fun ack => ("direct_udp_ready_ack", ack.marshal)) ++
    (env.directUDPStart.toList.map fun start => ("direct_udp_start", start.marshal)) ++
    (env.directUDPRateProbe.toList.map fun samples => ("direct_udp_rate_probe",
      Json.object (Json.omitEmpty samples.isEmpty "samples" (Json.array (samples.map (·.marshal)))))) ++
    env.behind)

/-- The text that the tag of an envelope covers. -/
def ControlEnvelope.text (env : ControlEnvelope) : List UInt8 := { env with mac := [] }.marshal

inductive EnvelopeError where
  /-- An error of `decodeEnvelope`. -/
  | decode
  | errUnauthenticatedEnvelope
  deriving DecidableEq

/-- A packet with the sender that the relay names, and the envelope that its payload decodes to. -/
structure ControlPacket where
  source : Vector UInt8 32
  envelope : Option ControlEnvelope
  deriving DecidableEq

section

variable (hmac : List UInt8 → List UInt8 → List UInt8)

def ControlEnvelope.sign (env : ControlEnvelope) (auth : ExternalPeerControlAuth) : ControlEnvelope :=
  { env with mac := signEnvelopeMAC hmac env.mac env.text auth }

def decodeAuthenticatedEnvelope (pkt : ControlPacket) (auth : ExternalPeerControlAuth) :
    Except EnvelopeError ControlEnvelope :=
  match pkt.envelope with
  | none => .error .decode
  | some env => if !verifyEnvelopeMAC hmac env.mac env.text auth then .error .errUnauthenticatedEnvelope else .ok env

def ignoreAuthenticatedEnvelopeError (err : EnvelopeError) (auth : ExternalPeerControlAuth) : Bool :=
  auth.envelopeEnabled && err == .errUnauthenticatedEnvelope

/-- What a packet is to a loop that waits for one. -/
inductive Waited (α : Type) where
  | ignored
  | failed
  | got (a : α)

/-- The body of the loops that wait for an envelope of one type. -/
def waitForEnvelope {α : Type} (type : ControlType) (value : ControlEnvelope → Option α)
    (auth : ExternalPeerControlAuth) (pkt : ControlPacket) : Waited α :=
  match decodeAuthenticatedEnvelope hmac pkt auth with
  | .error err => if ignoreAuthenticatedEnvelopeError err auth then .ignored else .failed
  | .ok env =>
      if env.type ≠ type then .failed
      else
        match value env with
        | none => .failed
        | some a => .got a

def waitForDirectUDPReady : ExternalPeerControlAuth → ControlPacket → Waited Unit :=
  waitForEnvelope hmac .directUDPReady fun _ => some ()

def waitForDirectUDPReadyAck : ExternalPeerControlAuth → ControlPacket → Waited DirectUDPReadyAck :=
  waitForEnvelope hmac .directUDPReadyAck fun env => some (env.directUDPReadyAck.getD ⟨false⟩)

def waitForDirectUDPStart : ExternalPeerControlAuth → ControlPacket → Waited DirectUDPStart :=
  waitForEnvelope hmac .directUDPStart fun env =>
    some (env.directUDPStart.getD ⟨0, [], [], [], [], false, false⟩)

def waitForDirectUDPStartAck : ExternalPeerControlAuth → ControlPacket → Waited Unit :=
  waitForEnvelope hmac .directUDPStartAck fun _ => some ()

def waitForDirectUDPRateProbe :
    ExternalPeerControlAuth → ControlPacket → Waited (List DirectUDPRateProbeSample) :=
  waitForEnvelope hmac .directUDPRateProbe fun env => env.directUDPRateProbe

end

/-! ## Probes of the rate -/

def externalDirectUDPChunkSize : Nat := 1384

def externalDirectUDPMaxRateMbps : Int64 := 10000

def externalDirectUDPRateProbeMinBytes : Int64 := 256 * 1024 * 1024

def externalDirectUDPRateProbeMinMbps : Int64 := 1

def externalDirectUDPRateProbeDefaultMaxMbps : Int64 := 2250

def externalDirectUDPRateProbeMagic : List UInt8 := 0 :: ascii "derphole-ratev1"

def externalDirectUDPRateProbeIndexOffset : Nat := 16

def externalDirectUDPRateProbeNonceOffset : Nat := externalDirectUDPRateProbeIndexOffset + 4

def externalDirectUDPRateProbeMACOffset : Nat := externalDirectUDPRateProbeNonceOffset + 16

def externalDirectUDPRateProbeHeaderSize : Nat := externalDirectUDPRateProbeMACOffset + 32

structure ExternalDirectUDPRateProbeAuth where
  key : Vector UInt8 32
  nonce : Vector UInt8 16
  deriving DecidableEq

def ExternalDirectUDPRateProbeAuth.zero : ExternalDirectUDPRateProbeAuth :=
  ⟨Vector.replicate 32 0, Vector.replicate 16 0⟩

def ExternalDirectUDPRateProbeAuth.enabled (auth : ExternalDirectUDPRateProbeAuth) : Bool :=
  auth.key != Vector.replicate 32 0 && auth.nonce != Vector.replicate 16 0

def externalDirectUDPRateProbeRates (maxRateMbps totalBytes : Int64) : List Int64 :=
  if maxRateMbps ≤ 0 then []
  else if totalBytes ≥ 0 ∧ totalBytes < externalDirectUDPRateProbeMinBytes then []
  else
    let probeMaxMbps :=
      if maxRateMbps > externalDirectUDPRateProbeDefaultMaxMbps then externalDirectUDPRateProbeDefaultMaxMbps
      else maxRateMbps
    let bases : List Int64 := [8, 25, 75, 150, 350, 700, 1200, 1800, 2000, 2250]
    let out := bases.foldl (fun out rate =>
      if rate < externalDirectUDPRateProbeMinMbps ∨ rate > probeMaxMbps ∨ rate ∈ out then out
      else out ++ [rate]) []
    let out :=
      if probeMaxMbps ≥ externalDirectUDPRateProbeMinMbps ∧ probeMaxMbps ∉ out then out ++ [probeMaxMbps] else out
    if out = [] then [probeMaxMbps] else out

def externalDirectUDPStreamStart (maxRateMbps totalBytes : Int64) : DirectUDPStart where
  expectedBytes := if totalBytes > 0 then totalBytes else 0
  sectionSizes := []
  sectionAddrs := []
  probeRates := externalDirectUDPRateProbeRates maxRateMbps totalBytes
  probeNonce := []
  stream := true
  stripedBlast := false

def externalDirectUDPRemainingExpectedBytes (totalBytes alreadyDelivered : Int64) : Int64 :=
  if totalBytes ≤ 0 then -1
  else
    let alreadyDelivered := if alreadyDelivered < 0 then 0 else alreadyDelivered
    if alreadyDelivered ≥ totalBytes then 0 else totalBytes - alreadyDelivered

def externalDirectUDPShouldUseStripedBlast (availableLanes : Nat) (fastDiscard : Bool) : Bool :=
  if fastDiscard then false else decide (availableLanes > 1)

/-- In milliseconds. -/
def externalDirectUDPRateProbeDurationForRate (rateMbps : Int64) : Int64 := if rateMbps ≥ 1800 then 500 else 200

section

variable (hmac : List UInt8 → List UInt8 → List UInt8)

def externalDirectUDPRateProbeAuthForToken (tok : SessionToken.Token) (nonce : Vector UInt8 16) :
    ExternalDirectUDPRateProbeAuth :=
  ⟨externalSessionSubkey hmac tok "derphole-direct-udp-rate-probe-v1", nonce⟩

def externalDirectUDPRateProbeAuthFromStart (tok : SessionToken.Token) (start : DirectUDPStart) :
    Option ExternalDirectUDPRateProbeAuth :=
  if start.probeRates = [] then some .zero
  else if start.probeNonce = [] then none
  else
    match Base64.decodeString start.probeNonce with
    | none => none
    | some raw =>
        if raw.length ≠ 16 then none
        else some (externalDirectUDPRateProbeAuthForToken hmac tok (copyInto 16 raw))

/-- What the tag of a probe covers. -/
def rateProbeInput (packet : List UInt8) : List UInt8 :=
  packet.take externalDirectUDPRateProbeMACOffset ++ packet.drop externalDirectUDPRateProbeHeaderSize

def externalDirectUDPRateProbeMAC (auth : ExternalDirectUDPRateProbeAuth) (packet : List UInt8) : List UInt8 :=
  hmac auth.key.toList (rateProbeInput packet)

/-- The probe of a tier.  It is never shorter than its header. -/
def externalDirectUDPRateProbePayload (index size : Nat) (auth : ExternalDirectUDPRateProbeAuth) : List UInt8 :=
  let header := externalDirectUDPRateProbeMagic ++ (Codec.uint32.write (UInt32.ofNat index) ++ auth.nonce.toList)
  let rest := List.replicate (size - externalDirectUDPRateProbeHeaderSize) 0
  header ++ ((copyInto 32 (hmac auth.key.toList (header ++ rest))).toList ++ rest)

def externalDirectUDPRateProbeIndex (packet : List UInt8) (samples : Nat)
    (auth : ExternalDirectUDPRateProbeAuth) : Option Nat :=
  if packet.length < externalDirectUDPRateProbeHeaderSize ∨ samples = 0 ∨ !auth.enabled then none
  else if packet.take externalDirectUDPRateProbeIndexOffset ≠ externalDirectUDPRateProbeMagic then none
  else if (packet.drop externalDirectUDPRateProbeNonceOffset).take 16 ≠ auth.nonce.toList then none
  else if (packet.drop externalDirectUDPRateProbeMACOffset).take 32 ≠ externalDirectUDPRateProbeMAC hmac auth packet then
    none
  else
    let index :=
      (Codec.uint32.ofBytes ((packet.drop externalDirectUDPRateProbeIndexOffset).take 4)).toNat
    if index ≥ samples then none else some index

end

/-! ## The two sides -/

inductive SendPc where
  | ready
  | waitReadyAck
  /-- It has the acknowledgement, and chooses addresses until it may proceed. -/
  | proceeding
  | waitStartAck
  | probing (tier : Nat)
  | waitRateProbe
  | prepared
  | failed
  deriving DecidableEq

structure DirectSender where
  pc : SendPc
  readyAck : Option DirectUDPReadyAck
  start : Option DirectUDPStart
  rateProbeAuth : ExternalDirectUDPRateProbeAuth
  samples : Option (List DirectUDPRateProbeSample)
  deriving DecidableEq

inductive ReceivePc where
  | waitReady
  | waitStart
  | probing
  | prepared
  | failed
  deriving DecidableEq

structure DirectReceiver where
  pc : ReceivePc
  start : Option DirectUDPStart
  rateProbeAuth : ExternalDirectUDPRateProbeAuth
  samples : List DirectUDPRateProbeSample
  /-- The probes that were counted, with their tiers. -/
  counted : List (Nat × List UInt8)
  /-- The samples that were sent back. -/
  reported : Option (List DirectUDPRateProbeSample)
  deriving DecidableEq

/-- Both sides, with the envelopes that an endpoint has signed and the probes that were written. -/
structure Preparation where
  sender : DirectSender
  receiver : DirectReceiver
  signed : List ControlEnvelope
  probes : List (List UInt8)
  deriving DecidableEq

def Preparation.init : Preparation :=
  ⟨⟨.ready, none, none, .zero, none⟩, ⟨.waitReady, none, .zero, [], [], none⟩, [], []⟩

/-- What the two sides were given. -/
structure PrepareConfig where
  hmac : List UInt8 → List UInt8 → List UInt8
  tok : SessionToken.Token
  senderDERP : Vector UInt8 32
  receiverDERP : Vector UInt8 32
  /-- `cfg.StdioExpectedBytes` of the sender. -/
  stdioExpectedBytes : Int64
  skipDirectUDPRateProbes : Bool
  /-- The receiver throws the bytes away. -/
  fastDiscard : Bool
  /-- The sockets that the receiver can use. -/
  receiveConns : Nat
  /-- `externalDirectUDPRateProbeAllowedSources` of the receiver. -/
  allowedSources : List String

inductive PrepareEvent where
  | sendReady
  | deliverToSender (pkt : ControlPacket)
  /-- The sender proceeds with so many lanes, of which its policy allows `laneCap` if that is not zero. -/
  | proceed (lanes laneCap : Nat) (watermark : Int64) (nonce : Vector UInt8 16)
  | writeProbe
  | nextTier
  | senderFails
  | deliverToReceiver (pkt : ControlPacket)
  | readProbe (addr : String) (bytes : List UInt8)
  | probesOver
  | receiverFails
  /-- An endpoint signs something else. -/
  | signOther (name : List UInt8) (before behind : List (String × List UInt8))
  deriving DecidableEq

/-- The filter of a subscription. -/
def subscribed (peerDERP : Vector UInt8 32) (type : ControlType) (pkt : ControlPacket) : Bool :=
  pkt.source == peerDERP && pkt.envelope.any fun env => env.type == type

namespace PrepareConfig

variable (c : PrepareConfig)

def auth : ExternalPeerControlAuth := externalPeerControlAuthForToken c.hmac c.tok

/-- What becomes of a packet for a subscription that is waited on. -/
def await {α : Type} (peerDERP : Vector UInt8 32) (type : ControlType)
    (wait : ExternalPeerControlAuth → ControlPacket → Waited α) (pkt : ControlPacket) : Waited α :=
  if subscribed peerDERP type pkt then wait c.auth pkt else .ignored

/-- The start that the sender makes. -/
def senderStart (ack : DirectUDPReadyAck) (lanes laneCap : Nat) (watermark : Int64) (nonce : Vector UInt8 16) :
    DirectUDPStart × ExternalDirectUDPRateProbeAuth :=
  let stripedDecisionLanes := if laneCap > 0 ∧ laneCap < lanes then laneCap else lanes
  let directExpectedBytes := externalDirectUDPRemainingExpectedBytes c.stdioExpectedBytes watermark
  let start := externalDirectUDPStreamStart externalDirectUDPMaxRateMbps directExpectedBytes
  let probeRates := if c.skipDirectUDPRateProbes then [] else start.probeRates
  let stripedBlast := externalDirectUDPShouldUseStripedBlast stripedDecisionLanes ack.fastDiscard
  if probeRates = [] then ({ start with probeRates := [], stripedBlast := stripedBlast }, .zero)
  else
    ({ start with
        probeRates := probeRates
        probeNonce := Base64.encodeToString nonce.toList
        stripedBlast := stripedBlast },
      externalDirectUDPRateProbeAuthForToken c.hmac c.tok nonce)

/-- Where the sender is with the probes of a tier before it. -/
def tierPc (rates : List Int64) (tier : Nat) : SendPc :=
  if tier ≥ rates.length then .waitRateProbe
  else if rates.getD tier 0 ≤ 0 then .failed
  else .probing tier

/-- `externalDirectUDPSendRateProbesParallel` begins, if there are rates. -/
def startProbes (snd : DirectSender) (start : DirectUDPStart) : DirectSender :=
  if start.probeRates = [] then { snd with pc := .prepared }
  else if !snd.rateProbeAuth.enabled then { snd with pc := .failed }
  else { snd with pc := tierPc start.probeRates 0 }

def deliverToSender (snd : DirectSender) (pkt : ControlPacket) : DirectSender :=
  match snd.pc with
  | .waitReadyAck =>
      match c.await c.receiverDERP .directUDPReadyAck (waitForDirectUDPReadyAck c.hmac) pkt with
      | .ignored => snd
      | .failed => { snd with pc := .failed }
      | .got ack => { snd with pc := .proceeding, readyAck := some ack }
  | .waitStartAck =>
      match c.await c.receiverDERP .directUDPStartAck (waitForDirectUDPStartAck c.hmac) pkt with
      | .ignored => snd
      | .failed => { snd with pc := .failed }
      | .got () =>
          match snd.start with
          | none => snd
          | some start => startProbes snd start
  | .waitRateProbe =>
      match c.await c.receiverDERP .directUDPRateProbe (waitForDirectUDPRateProbe c.hmac) pkt with
      | .ignored => snd
      | .failed => { snd with pc := .failed }
      | .got samples => { snd with pc := .prepared, samples := some samples }
  | _ => snd

/-- The samples before any probe. -/
def emptySamples (rates : List Int64) : List DirectUDPRateProbeSample :=
  rates.map fun rate => ⟨rate, 0, 0, externalDirectUDPRateProbeDurationForRate rate⟩

/-- The receiver has a start that it can use. -/
def receiveStart (rcv : DirectReceiver) (start : DirectUDPStart) (rateProbeAuth : ExternalDirectUDPRateProbeAuth) :
    DirectReceiver :=
  let rcv := { rcv with start := some start, rateProbeAuth := rateProbeAuth }
  if start.probeRates = [] then { rcv with pc := .prepared }
  else if !rateProbeAuth.enabled ∨ c.allowedSources = [] then { rcv with pc := .failed }
  else { rcv with pc := .probing, samples := emptySamples start.probeRates }

/-- The receiver after a packet, and what it signs. -/
def deliverToReceiver (rcv : DirectReceiver) (pkt : ControlPacket) : DirectReceiver × List ControlEnvelope :=
  match rcv.pc with
  | .waitReady =>
      match c.await c.senderDERP .directUDPReady (waitForDirectUDPReady c.hmac) pkt with
      | .ignored => (rcv, [])
      | .failed => ({ rcv with pc := .failed }, [])
      | .got () =>
          if c.receiveConns = 0 then ({ rcv with pc := .failed }, [])
          else
            ({ rcv with pc := .waitStart },
              [{ ControlEnvelope.ofType .directUDPReadyAck with directUDPReadyAck := some ⟨c.fastDiscard⟩ }])
  | .waitStart =>
      match c.await c.senderDERP .directUDPStart (waitForDirectUDPStart c.hmac) pkt with
      | .ignored => (rcv, [])
      | .failed => ({ rcv with pc := .failed }, [])
      | .got start =>
          match externalDirectUDPRateProbeAuthFromStart c.hmac c.tok start with
          | none => ({ rcv with pc := .failed, start := some start }, [])
          | some rateProbeAuth =>
              (c.receiveStart rcv start rateProbeAuth, [ControlEnvelope.ofType .directUDPStartAck])
  | _ => (rcv, [])

/-- A packet on one of the receiver's sockets.  Longer packets are cut. -/
def readProbe (rcv : DirectReceiver) (addr : String) (bytes : List UInt8) : DirectReceiver :=
  let packet := bytes.take externalDirectUDPChunkSize
  if addr ∉ c.allowedSources then rcv
  else
    match externalDirectUDPRateProbeIndex c.hmac packet rcv.samples.length rcv.rateProbeAuth with
    | none => rcv
    | some index =>
        { rcv with
          samples := rcv.samples.modify index fun sample =>
            { sample with bytesReceived := sample.bytesReceived + Int64.ofNat packet.length }
          counted := (index, packet) :: rcv.counted }

/-- The state after an endpoint has signed envelopes. -/
def sign (s : Preparation) (envs : List ControlEnvelope) : Preparation :=
  { s with signed := envs.map (·.sign c.hmac c.auth) ++ s.signed }

def step (s : Preparation) : PrepareEvent → Option Preparation
  | .sendReady =>
      if s.sender.pc ≠ .ready then none
      else
        some (c.sign { s with sender := { s.sender with pc := .waitReadyAck } } [ControlEnvelope.ofType .directUDPReady])
  | .deliverToSender pkt => some { s with sender := c.deliverToSender s.sender pkt }
  | .proceed lanes laneCap watermark nonce =>
      match s.sender.pc, s.sender.readyAck with
      | .proceeding, some ack =>
          if lanes = 0 then some { s with sender := { s.sender with pc := .failed } }
          else
            let (start, rateProbeAuth) := c.senderStart ack lanes laneCap watermark nonce
            some (c.sign
              { s with
                sender :=
                  { s.sender with pc := .waitStartAck, start := some start, rateProbeAuth := rateProbeAuth } }
              [{ ControlEnvelope.ofType .directUDPStart with directUDPStart := some start }])
      | _, _ => none
  | .writeProbe =>
      match s.sender.pc with
      | .probing tier =>
          some { s with
            probes := externalDirectUDPRateProbePayload c.hmac tier externalDirectUDPChunkSize
              s.sender.rateProbeAuth :: s.probes }
      | _ => none
  | .nextTier =>
      match s.sender.pc, s.sender.start with
      | .probing tier, some start =>
          some { s with sender := { s.sender with pc := tierPc start.probeRates (tier + 1) } }
      | _, _ => none
  | .senderFails => some { s with sender := { s.sender with pc := .failed } }
  | .deliverToReceiver pkt =>
      let (receiver, envs) := c.deliverToReceiver s.receiver pkt
      some (c.sign { s with receiver := receiver } envs)
  | .readProbe addr bytes =>
      if s.receiver.pc ≠ .probing then none
      else some { s with receiver := c.readProbe s.receiver addr bytes }
  | .probesOver =>
      if s.receiver.pc ≠ .probing then none
      else
        some (c.sign
          { s with
            receiver := { s.receiver with pc := .prepared, reported := some s.receiver.samples } }
          [{ ControlEnvelope.ofType .directUDPRateProbe with directUDPRateProbe := some s.receiver.samples }])
  | .receiverFails => some { s with receiver := { s.receiver with pc := .failed } }
  | .signOther name before behind =>
      some (c.sign s [{ ControlEnvelope.ofType (.other name) with before := before, behind := behind }])

/-- Envelopes and probes come with a tag that verifies only if an endpoint has made that tag. -/
def Unforged (s : Preparation) : PrepareEvent → Prop
  | .deliverToSender pkt => ∀ env ∈ pkt.envelope, env.mac = externalEnvelopeMAC c.hmac c.auth env.text → env ∈ s.signed
  | .deliverToReceiver pkt => ∀ env ∈ pkt.envelope, env.mac = externalEnvelopeMAC c.hmac c.auth env.text → env ∈ s.signed
  | .readProbe _ bytes =>
      let packet := bytes.take externalDirectUDPChunkSize
      (packet.drop externalDirectUDPRateProbeMACOffset).take 32 =
          externalDirectUDPRateProbeMAC c.hmac s.receiver.rateProbeAuth packet →
        ∃ probe ∈ s.probes, rateProbeInput packet = rateProbeInput probe
  | _ => True

end PrepareConfig

/-! ## What is taken -/

section

variable {hmac : List UInt8 → List UInt8 → List UInt8} {auth : ExternalPeerControlAuth}

@[simp] theorem ControlEnvelope.type_sign (env : ControlEnvelope) : (env.sign hmac auth).type = env.type := rfl

@[simp] theorem ControlEnvelope.directUDPReadyAck_sign (env : ControlEnvelope) :
    (env.sign hmac auth).directUDPReadyAck = env.directUDPReadyAck := rfl

@[simp] theorem ControlEnvelope.directUDPStart_sign (env : ControlEnvelope) :
    (env.sign hmac auth).directUDPStart = env.directUDPStart := rfl

@[simp] theorem ControlEnvelope.directUDPRateProbe_sign (env : ControlEnvelope) :
    (env.sign hmac auth).directUDPRateProbe = env.directUDPRateProbe := rfl

/-- With a key, what a loop takes has a tag that verifies. -/
theorem waitForEnvelope_got {α : Type} (henabled : auth.envelopeEnabled = true) {type : ControlType}
    {value : ControlEnvelope → Option α} {pkt : ControlPacket} {a : α}
    (h : waitForEnvelope hmac type value auth pkt = .got a) :
    ∃ env ∈ pkt.envelope, env.type = type ∧ env.mac = externalEnvelopeMAC hmac auth env.text ∧ value env = some a := by
  unfold waitForEnvelope decodeAuthenticatedEnvelope at h
  cases henv : pkt.envelope with
  | none =>
      simp only [henv] at h
      split at h <;> cases h
  | some env =>
      simp only [henv] at h
      split at h
      · split at h <;> cases h
      next env' hdecode =>
        split at hdecode
        · cases hdecode
        next hverify =>
          cases hdecode
          split at h
          · cases h
          next htype =>
            split at h
            · cases h
            next hvalue =>
              cases h
              have htag := mac_of_verifyEnvelopeMAC henabled (by simpa using hverify)
              exact ⟨env, rfl, not_not.mp htype, htag, hvalue⟩

end

namespace PrepareConfig

variable {c : PrepareConfig}

/-- The packet has an envelope of the type, with a tag that verifies. -/
def Carries (c : PrepareConfig) (pkt : ControlPacket) (type : ControlType) (env : ControlEnvelope) : Prop :=
  env ∈ pkt.envelope ∧ env.type = type ∧ env.mac = externalEnvelopeMAC c.hmac c.auth env.text

theorem await_got {α : Type} (henabled : c.auth.envelopeEnabled = true) {peerDERP : Vector UInt8 32}
    {type : ControlType} {value : ControlEnvelope → Option α} {pkt : ControlPacket} {a : α}
    (h : c.await peerDERP type (waitForEnvelope c.hmac type value) pkt = .got a) :
    ∃ env, c.Carries pkt type env ∧ value env = some a := by
  unfold await at h
  split at h
  · obtain ⟨env, hmem, htype, hmac, hvalue⟩ := waitForEnvelope_got henabled h
    exact ⟨env, ⟨hmem, htype, hmac⟩, hvalue⟩
  · cases h

/-- What a packet does to the sender. -/
theorem deliverToSender_cases (henabled : c.auth.envelopeEnabled = true) (snd : DirectSender) (pkt : ControlPacket) :
    c.deliverToSender snd pkt = snd ∨ c.deliverToSender snd pkt = { snd with pc := .failed } ∨
    (∃ env, c.Carries pkt .directUDPReadyAck env ∧ snd.pc = .waitReadyAck ∧ c.deliverToSender snd pkt =
      { snd with pc := .proceeding, readyAck := some (env.directUDPReadyAck.getD ⟨false⟩) }) ∨
    (∃ env start, c.Carries pkt .directUDPStartAck env ∧ snd.pc = .waitStartAck ∧ snd.start = some start ∧
      c.deliverToSender snd pkt = startProbes snd start) ∨
    (∃ env samples, c.Carries pkt .directUDPRateProbe env ∧ snd.pc = .waitRateProbe ∧
      env.directUDPRateProbe = some samples ∧
      c.deliverToSender snd pkt = { snd with pc := .prepared, samples := some samples }) := by
  unfold deliverToSender
  split
  next hpc =>
    split
    · exact .inl rfl
    · exact .inr (.inl rfl)
    next ack hgot =>
      obtain ⟨env, hcarries, hvalue⟩ := await_got henabled hgot
      exact .inr (.inr (.inl ⟨env, hcarries, hpc, by rw [← hvalue]⟩))
  next hpc =>
    split
    · exact .inl rfl
    · exact .inr (.inl rfl)
    next hgot =>
      obtain ⟨env, hcarries, -⟩ := await_got henabled hgot
      split
      · exact .inl rfl
      next start hstart => exact .inr (.inr (.inr (.inl ⟨env, start, hcarries, hpc, hstart, rfl⟩)))
  next hpc =>
    split
    · exact .inl rfl
    · exact .inr (.inl rfl)
    next samples hgot =>
      obtain ⟨env, hcarries, hvalue⟩ := await_got henabled hgot
      exact .inr (.inr (.inr (.inr ⟨env, samples, hcarries, hpc, hvalue, rfl⟩)))
  · exact .inl rfl

/-- What a packet does to the receiver. -/
theorem deliverToReceiver_cases (henabled : c.auth.envelopeEnabled = true) (rcv : DirectReceiver)
    (pkt : ControlPacket) :
    c.deliverToReceiver rcv pkt = (rcv, []) ∨ c.deliverToReceiver rcv pkt = ({ rcv with pc := .failed }, []) ∨
    (rcv.pc = .waitReady ∧ c.deliverToReceiver rcv pkt =
      ({ rcv with pc := .waitStart },
        [{ ControlEnvelope.ofType .directUDPReadyAck with directUDPReadyAck := some ⟨c.fastDiscard⟩ }])) ∨
    (∃ env start, c.Carries pkt .directUDPStart env ∧ rcv.pc = .waitStart ∧
      start = env.directUDPStart.getD ⟨0, [], [], [], [], false, false⟩ ∧
      (externalDirectUDPRateProbeAuthFromStart c.hmac c.tok start = none ∧
          c.deliverToReceiver rcv pkt = ({ rcv with pc := .failed, start := some start }, []) ∨
        ∃ rateProbeAuth, externalDirectUDPRateProbeAuthFromStart c.hmac c.tok start = some rateProbeAuth ∧
          c.deliverToReceiver rcv pkt =
            (c.receiveStart rcv start rateProbeAuth, [ControlEnvelope.ofType .directUDPStartAck]))) := by
  unfold deliverToReceiver
  split
  next hpc =>
    split
    · exact .inl rfl
    · exact .inr (.inl rfl)
    · split
      · exact .inr (.inl rfl)
      · exact .inr (.inr (.inl ⟨hpc, rfl⟩))
  next hpc =>
    split
    · exact .inl rfl
    · exact .inr (.inl rfl)
    next start hgot =>
      obtain ⟨env, hcarries, hvalue⟩ := await_got henabled hgot
      refine .inr (.inr (.inr ⟨env, start, hcarries, hpc, (Option.some.inj hvalue).symm, ?_⟩))
      split
      next hauth => exact .inl ⟨hauth, rfl⟩
      next rateProbeAuth hauth => exact .inr ⟨rateProbeAuth, hauth, rfl⟩
  · exact .inl rfl

end PrepareConfig

end DirectUDP

end Session
