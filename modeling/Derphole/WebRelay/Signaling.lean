import Derphole.Lib.Run
import Mathlib.Data.List.Flatten
import Mathlib.Data.List.Nodup
import Mathlib.Logic.Function.Basic

/-!
# Signaling for the direct path

`Transport` of `pkg/derphole/webrtcdirect/transport.go`: what it does with the signals of its peer, which
come through the relay in the order they were sent, and with the callbacks of its peer connections and data
channels, which come whenever they like.

A candidate may overtake the description it belongs to: the callback that sends it does not wait for the
offer or the answer.  Until a lane has a remote description its candidates are kept, and the description
lets them through.

The relay may lose a signal.  Peer connections are those of a library: what they return is given with each
event (`Pion`), and of their state only the remote description and the candidates added to it are kept.
-/

namespace WebrtcDirect

open Lib

def dataChannelCount : Nat := 2

/-! ## Signals -/

/-- The kinds that `isDirectSignalFrame` lets through. -/
inductive FrameKind where
  | webRTCOffer
  | webRTCAnswer
  | webRTCIceCandidate
  | webRTCIceComplete
  | directFailed
  deriving DecidableEq

structure WebRTCSignal where
  lane : Int
  kind : String
  type : String
  sdp : String
  candidate : String
  sdpMid : String
  sdpMLineIndex : Int
  usernameFragment : String
  deriving DecidableEq

/-- A frame with the signal that its payload decodes to. -/
structure Frame where
  kind : FrameKind
  payload : Option WebRTCSignal
  deriving DecidableEq

structure ICECandidateInit where
  candidate : String
  sdpMid : Option String
  sdpMLineIndex : Option UInt16
  usernameFragment : Option String
  deriving DecidableEq

def stringValue (v : Option String) : String := v.getD ""

def uint16Value (v : Option UInt16) : Int := (v.getD 0).toNat

/-- The signal of the callback of `OnICECandidate`. -/
def candidateSignal (lane : Nat) (init : ICECandidateInit) : Frame :=
  ⟨.webRTCIceCandidate, some
    { lane := lane
      kind := "candidate"
      type := ""
      sdp := ""
      candidate := init.candidate
      sdpMid := stringValue init.sdpMid
      sdpMLineIndex := uint16Value init.sdpMLineIndex
      usernameFragment := stringValue init.usernameFragment }⟩

def completeSignal (lane : Nat) : Frame := ⟨.webRTCIceComplete, some ⟨lane, "ice-complete", "", "", "", "", 0, ""⟩⟩

def offerSignal (lane : Nat) (sdp : String) : Frame :=
  ⟨.webRTCOffer, some ⟨lane, "offer", "offer", sdp, "", "", 0, ""⟩⟩

def answerSignal (lane : Int) (sdp : String) : Frame :=
  ⟨.webRTCAnswer, some ⟨lane, "answer", "answer", sdp, "", "", 0, ""⟩⟩

/-- The candidate that `applySignal` makes of a signal. -/
def signalCandidate (signal : WebRTCSignal) : ICECandidateInit :=
  ⟨signal.candidate, some signal.sdpMid, some (UInt16.ofNat (signal.sdpMLineIndex % 65536).toNat),
    some signal.usernameFragment⟩

/-- A candidate as it arrives: what was absent is there, and empty. -/
def arrived (init : ICECandidateInit) : ICECandidateInit :=
  ⟨init.candidate, some (stringValue init.sdpMid), some (init.sdpMLineIndex.getD 0),
    some (stringValue init.usernameFragment)⟩

/-! ## A transport -/

structure PeerConnection where
  remoteDescription : Option String
  added : List ICECandidateInit
  deriving DecidableEq

/-- What the library returns in the course of one call. -/
structure Pion where
  err : String
  setRemoteDescription : Bool
  addICECandidate : ICECandidateInit → Bool
  createDescription : Option String
  setLocalDescription : Bool
  createDataChannel : Bool
  sendSignal : Bool

inductive Forwarding where
  | notStarted
  | running
  | returned
  deriving DecidableEq

/-- The peer connections are there from `Start` on, one for each lane. -/
structure Transport where
  pcs : Nat → PeerConnection
  forwarding : Forwarding
  /-- The lanes that `Start` has still to offer. -/
  lanes : List Nat
  pending : Nat → List ICECandidateInit
  dcs : List Nat
  openSet : List Nat
  ready : Bool
  /-- How often `readyCh` was closed. -/
  readyCloses : Nat
  closed : Bool
  failOnce : Bool
  /-- Every error that was put into `failCh`. -/
  failures : List String

def Transport.new : Transport :=
  ⟨fun _ => ⟨none, []⟩, .notStarted, [], fun _ => [], [], [], false, 0, false, false, []⟩

namespace Transport

variable (t : Transport)

/-- `failOnce` leaves the channel, which has room for one error, to the first. -/
def fail (err : String) : Transport :=
  if t.failOnce then t else { t with failOnce := true, failures := t.failures ++ [err] }

def setRemoteDescription (lane : Nat) (sdp : String) : Transport :=
  { t with pcs := Function.update t.pcs lane { t.pcs lane with remoteDescription := some sdp } }

def addICECandidate (lane : Nat) (candidate : ICECandidateInit) : Transport :=
  { t with pcs := Function.update t.pcs lane { t.pcs lane with added := (t.pcs lane).added ++ [candidate] } }

/-- The loop of `flushPendingCandidates`, up to the first that is refused. -/
def addCandidates (pion : Pion) (lane : Nat) : Transport → List ICECandidateInit → Transport × Bool
  | t, [] => (t, true)
  | t, candidate :: candidates =>
      if pion.addICECandidate candidate then addCandidates pion lane (t.addICECandidate lane candidate) candidates
      else (t, false)

def flushPendingCandidates (pion : Pion) (lane : Nat) : Transport × Bool :=
  addCandidates pion lane { t with pending := Function.update t.pending lane [] } (t.pending lane)

/-- The signals it sends, and the error it returns. -/
def applySignal (pion : Pion) (frame : Frame) : Transport × List Frame × Option String :=
  match frame.payload with
  | none => (t, [], some pion.err)
  | some signal =>
      if signal.lane < 0 ∨ signal.lane ≥ dataChannelCount then (t, [], some "invalid webrtc signal lane")
      else if t.forwarding = .notStarted then (t, [], some "webrtc peer connection is not started")
      else
        let lane := signal.lane.toNat
        match frame.kind with
        | .webRTCOffer =>
            if pion.setRemoteDescription = false then (t, [], some pion.err)
            else
              match (t.setRemoteDescription lane signal.sdp).flushPendingCandidates pion lane with
              | (t, false) => (t, [], some pion.err)
              | (t, true) =>
                  match pion.createDescription with
                  | none => (t, [], some pion.err)
                  | some sdp =>
                      if pion.setLocalDescription = false ∨ pion.sendSignal = false then (t, [], some pion.err)
                      else (t, [answerSignal signal.lane sdp], none)
        | .webRTCAnswer =>
            if pion.setRemoteDescription = false then (t, [], some pion.err)
            else
              match (t.setRemoteDescription lane signal.sdp).flushPendingCandidates pion lane with
              | (t, false) => (t, [], some pion.err)
              | (t, true) => (t, [], none)
        | .webRTCIceCandidate =>
            let candidate := signalCandidate signal
            if (t.pcs lane).remoteDescription = none then
              ({ t with pending := Function.update t.pending lane (t.pending lane ++ [candidate]) }, [], none)
            else if pion.addICECandidate candidate then (t.addICECandidate lane candidate, [], none)
            else (t, [], some pion.err)
        | .webRTCIceComplete => (t, [], none)
        | .directFailed => (t, [], none)

/-- One turn of `forwardSignals`. -/
def forwardSignal (pion : Pion) (frame : Frame) : Transport × List Frame :=
  match t.applySignal pion frame with
  | (t, frames, none) => (t, frames)
  | (t, frames, some err) => ({ t.fail err with forwarding := .returned }, frames)

def attachDataChannel (dc : Nat) : Transport := { t with dcs := t.dcs ++ [dc] }

/-- `Start`, up to the loop that the sender has behind it. -/
def start (sender : Bool) : Transport :=
  { t with forwarding := .running, lanes := if sender then List.range dataChannelCount else [] }

/-- The body of that loop. -/
def startLane (pion : Pion) : Option (Transport × List Frame) :=
  match t.lanes with
  | [] => none
  | lane :: lanes =>
      let failed := { t with lanes := [] }
      if pion.createDataChannel = false then some (failed.fail pion.err, [])
      else
        match pion.createDescription with
        | none => some ((failed.attachDataChannel lane).fail pion.err, [])
        | some sdp =>
            if pion.setLocalDescription = false ∨ pion.sendSignal = false then
              some ((failed.attachDataChannel lane).fail pion.err, [])
            else some (({ t with lanes := lanes }).attachDataChannel lane, [offerSignal lane sdp])

/-! The callbacks of a data channel -/

def onOpen (dc : Nat) : Transport :=
  if t.closed then t
  else
    let t := { t with openSet := t.openSet.insert dc }
    if t.ready = false ∧ t.openSet.length ≥ dataChannelCount then
      { t with ready := true, readyCloses := t.readyCloses + 1 }
    else t

def onClose (dc : Nat) : Transport :=
  let t' := { t with openSet := t.openSet.erase dc }
  if t.ready = false then t'.fail "webrtc datachannel closed before open"
  else if t'.openSet.length = 0 then t'.fail "webrtc datachannels closed"
  else t'

end Transport

/-! ## Two transports -/

structure State where
  transport : Bool → Transport
  /-- The signals that a side has sent and the other one has not got. -/
  link : Bool → List Frame
  /-- The relay has lost a signal of this side. -/
  lost : Bool → Bool
  /-- The candidates of each lane that a side has sent. -/
  gathered : Bool → Nat → List ICECandidateInit
  /-- The descriptions of each lane that a side has sent. -/
  described : Bool → Nat → List String

inductive Event where
  | start (side sender : Bool)
  | startLane (side : Bool) (pion : Pion)
  /-- The callback of `OnICECandidate`, with nil at the end; whether the signal is sent is not looked at. -/
  | onICECandidate (side : Bool) (lane : Nat) (candidate : Option ICECandidateInit) (sent : Bool)
  | lose (side : Bool) (i : Nat)
  /-- The side gets the next signal of the other one. -/
  | forwardSignal (side : Bool) (pion : Pion)
  /-- The context of the side ends. -/
  | contextDone (side : Bool)
  /-- `OnConnectionStateChange` for a bad state, or `OnError` of a channel, or a receive queue that is full. -/
  | fails (side : Bool) (err : String)
  | onDataChannel (side : Bool) (dc : Nat)
  | onOpen (side : Bool) (dc : Nat)
  | onClose (side : Bool) (dc : Nat)
  | close (side : Bool)

namespace State

def init : State :=
  ⟨fun _ => .new, fun _ => [], fun _ => false, fun _ _ => [], fun _ _ => []⟩

variable (s : State)

/-- The description in a signal. -/
def sdpOf (lane : Nat) (frame : Frame) : List String :=
  match frame.kind, frame.payload with
  | .webRTCOffer, some signal => if signal.lane = lane then [signal.sdp] else []
  | .webRTCAnswer, some signal => if signal.lane = lane then [signal.sdp] else []
  | _, _ => []

def setTransport (side : Bool) (t : Transport) : State := { s with transport := Function.update s.transport side t }

/-- The side sends signals that are no candidates. -/
def sendSignals (side : Bool) (frames : List Frame) : State :=
  { s with
    link := Function.update s.link side (s.link side ++ frames)
    described := Function.update s.described side fun lane => s.described side lane ++ frames.flatMap (sdpOf lane) }

def step (s : State) : Event → Option State
  | .start side sender =>
      if (s.transport side).forwarding ≠ .notStarted then none
      else some (s.setTransport side ((s.transport side).start sender))
  | .startLane side pion =>
      ((s.transport side).startLane pion).map fun (t, frames) => (s.setTransport side t).sendSignals side frames
  | .onICECandidate side lane candidate sent =>
      if (s.transport side).forwarding = .notStarted ∨ lane ≥ dataChannelCount then none
      else if sent = false then some s
      else
        match candidate with
        | none => some (s.sendSignals side [completeSignal lane])
        | some init =>
            some
              { s with
                link := Function.update s.link side (s.link side ++ [candidateSignal lane init])
                gathered := Function.update s.gathered side
                  (Function.update (s.gathered side) lane (s.gathered side lane ++ [init])) }
  | .lose side i =>
      if i < (s.link side).length then
        some
          { s with
            link := Function.update s.link side ((s.link side).eraseIdx i)
            lost := Function.update s.lost side true }
      else none
  | .forwardSignal side pion =>
      if (s.transport side).forwarding ≠ .running then none
      else
        match s.link (!side) with
        | [] => none
        | frame :: frames =>
            match (s.transport side).forwardSignal pion frame with
            | (t, answers) =>
                some (({ s with link := Function.update s.link (!side) frames }.setTransport side t).sendSignals side
                  answers)
  | .contextDone side =>
      if (s.transport side).forwarding ≠ .running then none
      else some (s.setTransport side { s.transport side with forwarding := .returned })
  | .fails side err => some (s.setTransport side ((s.transport side).fail err))
  | .onDataChannel side dc =>
      if dc ∈ (s.transport side).dcs then none
      else some (s.setTransport side ((s.transport side).attachDataChannel dc))
  | .onOpen side dc =>
      if dc ∉ (s.transport side).dcs then none else some (s.setTransport side ((s.transport side).onOpen dc))
  | .onClose side dc =>
      if dc ∉ (s.transport side).dcs then none else some (s.setTransport side ((s.transport side).onClose dc))
  | .close side => some (s.setTransport side { s.transport side with closed := true })

end State

/-! ## Candidates of a lane -/

/-- The candidate in a signal. -/
def candidateOf (lane : Nat) (frame : Frame) : List ICECandidateInit :=
  match frame.kind, frame.payload with
  | .webRTCIceCandidate, some signal => if signal.lane = lane then [signalCandidate signal] else []
  | _, _ => []

theorem candidateOf_candidateSignal (lane lane' : Nat) (init : ICECandidateInit) :
    candidateOf lane (candidateSignal lane' init) = if lane' = lane then [arrived init] else [] := by
  have hindex : signalCandidate ⟨lane', "candidate", "", "", init.candidate, stringValue init.sdpMid,
      uint16Value init.sdpMLineIndex, stringValue init.usernameFragment⟩ = arrived init := by
    have hlt := (init.sdpMLineIndex.getD 0).toNat_lt
    simp only [signalCandidate, arrived, uint16Value, ICECandidateInit.mk.injEq, Option.some.injEq, true_and,
      and_true]
    rw [show ((init.sdpMLineIndex.getD 0).toNat : Int) % 65536 = ((init.sdpMLineIndex.getD 0).toNat : Int) by omega,
      Int.toNat_natCast, UInt16.ofNat_toNat]
  simp only [candidateOf, candidateSignal, Int.natCast_inj, hindex]

/-- What a transport holds of a lane, added or kept. -/
def held (t : Transport) (lane : Nat) : List ICECandidateInit := (t.pcs lane).added ++ t.pending lane

/-- A signal for a lane there is. -/
def Honest (frame : Frame) : Prop :=
  ∃ signal, frame.payload = some signal ∧ 0 ≤ signal.lane ∧ signal.lane < dataChannelCount

/-- Candidates are added behind the remote description, and none is kept there. -/
structure Ordered (t : Transport) (lane : Nat) : Prop where
  early : (t.pcs lane).remoteDescription = none → (t.pcs lane).added = []
  late : (t.pcs lane).remoteDescription ≠ none → t.pending lane = []

namespace Transport

variable {t : Transport} {pion : Pion} {lane : Nat}

def addAll (t : Transport) (lane : Nat) (candidates : List ICECandidateInit) : Transport :=
  { t with pcs := Function.update t.pcs lane { t.pcs lane with added := (t.pcs lane).added ++ candidates } }

theorem addCandidates_spec (pion : Pion) (lane : Nat) (t : Transport) (candidates : List ICECandidateInit) :
    ∃ taken, taken <+: candidates ∧ (addCandidates pion lane t candidates).1 = t.addAll lane taken ∧
      ((addCandidates pion lane t candidates).2 = true → taken = candidates) := by
  induction candidates generalizing t with
  | nil =>
      refine ⟨[], List.nil_prefix, ?_, fun _ => rfl⟩
      simp [addCandidates, addAll]
  | cons candidate candidates ih =>
      rw [addCandidates]
      split
      · obtain ⟨taken, htaken, hresult, hall⟩ := ih (t.addICECandidate lane candidate)
        refine ⟨candidate :: taken, List.cons_prefix_cons.mpr ⟨rfl, htaken⟩, ?_, fun h => by rw [hall h]⟩
        rw [hresult]
        simp [addAll, addICECandidate]
      · refine ⟨[], List.nil_prefix, ?_, nofun⟩
        simp [addAll]

/-- What the callbacks of the channels, and the failures, read and write. -/
def channels (t : Transport) : List Nat × Bool × Nat × Bool × List String :=
  (t.openSet, t.ready, t.readyCloses, t.failOnce, t.failures)

/-- A remote description lets the candidates of its lane through, up to the first that is refused. -/
theorem flush_spec (hordered : ∀ k, Ordered t k) (sdp : String) {t' : Transport} {ok : Bool}
    (h : (t.setRemoteDescription lane sdp).flushPendingCandidates pion lane = (t', ok)) :
    (∀ k, held t' k <+: held t k) ∧ (ok = true → ∀ k, held t' k = held t k) ∧ (∀ k, Ordered t' k) ∧
      (∀ k sdp', (t'.pcs k).remoteDescription = some sdp' →
        (t.pcs k).remoteDescription = some sdp' ∨ k = lane ∧ sdp' = sdp) ∧
      t'.channels = t.channels ∧ t'.forwarding = t.forwarding ∧ t'.lanes = t.lanes := by
  unfold flushPendingCandidates at h
  obtain ⟨taken, htaken, hresult, hall⟩ := addCandidates_spec pion lane
    { t.setRemoteDescription lane sdp with
      pending := Function.update (t.setRemoteDescription lane sdp).pending lane [] }
    ((t.setRemoteDescription lane sdp).pending lane)
  rw [h] at hresult hall
  have hpending : (t.setRemoteDescription lane sdp).pending lane = t.pending lane := rfl
  rw [hpending] at htaken hall
  dsimp only at hresult hall
  have hlane : (t'.pcs lane).remoteDescription = some sdp ∧ (t'.pcs lane).added = (t.pcs lane).added ++ taken ∧
      t'.pending lane = [] := by
    rw [hresult]
    simp [addAll, setRemoteDescription]
  have hother : ∀ k, k ≠ lane → t'.pcs k = t.pcs k ∧ t'.pending k = t.pending k := by
    intro k hk
    rw [hresult]
    simp [addAll, setRemoteDescription, hk]
  obtain ⟨hremote, hadded, hnone⟩ := hlane
  refine ⟨?_, ?_, ?_, ?_, by rw [hresult]; rfl, by rw [hresult]; rfl, by rw [hresult]; rfl⟩
  · intro k
    by_cases hk : k = lane
    · subst hk
      rw [held, held, hadded, hnone, List.append_nil]
      exact (List.prefix_append_right_inj _).mpr htaken
    · have hsame : held t' k = held t k := by rw [held, held, (hother k hk).1, (hother k hk).2]
      exact hsame ▸ List.prefix_rfl
  · intro hok k
    by_cases hk : k = lane
    · subst hk
      rw [held, held, hadded, hnone, List.append_nil, hall hok]
    · rw [held, held, (hother k hk).1, (hother k hk).2]
  · intro k
    by_cases hk : k = lane
    · subst hk
      refine ⟨fun h => ?_, fun _ => hnone⟩
      rw [hremote] at h
      cases h
    · refine ⟨?_, ?_⟩
      · rw [(hother k hk).1]
        exact (hordered k).early
      · rw [(hother k hk).1, (hother k hk).2]
        exact (hordered k).late
  · intro k sdp' hsdp
    by_cases hk : k = lane
    · subst hk
      rw [hremote] at hsdp
      exact .inr ⟨rfl, (Option.some.inj hsdp).symm⟩
    · rw [(hother k hk).1] at hsdp
      exact .inl hsdp

/-- What `applySignal` makes of the candidates and the descriptions. -/
structure Applied (t : Transport) (frame : Frame) (t' : Transport) (frames : List Frame) (err : Option String) :
    Prop where
  kept : ∀ k, held t' k <+: held t k ++ candidateOf k frame
  kept_of_none : err = none → ∀ k, held t' k = held t k ++ candidateOf k frame
  ordered : ∀ k, Ordered t' k
  remote : ∀ k sdp, (t'.pcs k).remoteDescription = some sdp →
    (t.pcs k).remoteDescription = some sdp ∨ sdp ∈ State.sdpOf k frame
  frames : ∀ frame' ∈ frames, Honest frame' ∧ ∀ k, candidateOf k frame' = []
  channels : t'.channels = t.channels
  forwarding : t'.forwarding = t.forwarding
  lanes : t'.lanes = t.lanes

/-- An error that leaves the transport as it is. -/
theorem Applied.of_error {frame : Frame} {err : String} (hordered : ∀ k, Ordered t k) :
    Applied t frame t [] (some err) where
  kept := fun _ => List.prefix_append _ _
  kept_of_none := nofun
  ordered := hordered
  remote := fun _ _ h => .inl h
  frames := nofun
  channels := rfl
  forwarding := rfl
  lanes := rfl

/-- A signal with a description. -/
theorem Applied.of_flush {frame : Frame} {sdp : String} {t' : Transport} {frames : List Frame} {err : Option String}
    {ok : Bool} (hordered : ∀ k, Ordered t k) (hnone : ∀ k, candidateOf k frame = [])
    (hsdp : sdp ∈ State.sdpOf lane frame)
    (h : (t.setRemoteDescription lane sdp).flushPendingCandidates pion lane = (t', ok)) (herr : err = none → ok = true)
    (hframes : ∀ frame' ∈ frames, Honest frame' ∧ ∀ k, candidateOf k frame' = []) :
    Applied t frame t' frames err := by
  obtain ⟨hheld, hall, hordered', hremote, hchannels, hforwarding, hlanes⟩ := flush_spec hordered sdp h
  refine ⟨?_, ?_, hordered', ?_, hframes, hchannels, hforwarding, hlanes⟩
  · intro k
    rw [hnone k, List.append_nil]
    exact hheld k
  · intro hnil k
    rw [hnone k, List.append_nil]
    exact hall (herr hnil) k
  · intro k sdp' hk
    rcases hremote k sdp' hk with hold | ⟨rfl, rfl⟩
    · exact .inl hold
    · exact .inr hsdp

/-- A candidate goes behind what is held of its lane. -/
theorem Applied.of_candidate {frame : Frame} {signal : WebRTCSignal} {t' : Transport}
    (hkind : frame.kind = .webRTCIceCandidate) (hpayload : frame.payload = some signal) (hlane : signal.lane = lane)
    (hheld : held t' lane = held t lane ++ [signalCandidate signal]) (hordered' : Ordered t' lane)
    (hremote : (t'.pcs lane).remoteDescription = (t.pcs lane).remoteDescription)
    (hother : ∀ k, k ≠ lane → t'.pcs k = t.pcs k ∧ t'.pending k = t.pending k) (hordered : ∀ k, Ordered t k)
    (hchannels : t'.channels = t.channels) (hforwarding : t'.forwarding = t.forwarding)
    (hlanes : t'.lanes = t.lanes) : Applied t frame t' [] none := by
  have hof : ∀ k, candidateOf k frame = if k = lane then [signalCandidate signal] else [] := by
    intro k
    simp only [candidateOf, hkind, hpayload, hlane, Int.natCast_inj, eq_comm (a := lane)]
  have hall : ∀ k, held t' k = held t k ++ candidateOf k frame := by
    intro k
    rw [hof]
    by_cases hk : k = lane
    · rw [if_pos hk, hk, hheld]
    · rw [if_neg hk, held, held, (hother k hk).1, (hother k hk).2, List.append_nil]
  refine ⟨fun k => hall k ▸ List.prefix_rfl, fun _ => hall, ?_, ?_, nofun, hchannels, hforwarding, hlanes⟩
  · intro k
    by_cases hk : k = lane
    · rwa [hk]
    · refine ⟨?_, ?_⟩
      · rw [(hother k hk).1]
        exact (hordered k).early
      · rw [(hother k hk).1, (hother k hk).2]
        exact (hordered k).late
  · intro k sdp hsdp
    by_cases hk : k = lane
    · subst hk
      exact .inl (hremote ▸ hsdp)
    · rw [(hother k hk).1] at hsdp
      exact .inl hsdp

/-- A signal that changes nothing. -/
theorem Applied.of_nothing {frame : Frame} (hordered : ∀ k, Ordered t k) (hnone : ∀ k, candidateOf k frame = []) :
    Applied t frame t [] none := by
  refine ⟨?_, ?_, hordered, fun _ _ h => .inl h, nofun, rfl, rfl, rfl⟩
  · exact fun _ => List.prefix_append _ _
  · intro _ k
    rw [hnone k, List.append_nil]

theorem applySignal_spec (hstarted : t.forwarding ≠ .notStarted) {frame : Frame} (hframe : Honest frame)
    (hordered : ∀ k, Ordered t k) {t' : Transport} {frames : List Frame} {err : Option String}
    (h : t.applySignal pion frame = (t', frames, err)) : Applied t frame t' frames err := by
  obtain ⟨signal, hpayload, hpos, hlt⟩ := hframe
  obtain ⟨lane, hlane⟩ := Int.eq_ofNat_of_zero_le hpos
  have hnat : signal.lane.toNat = lane := by omega
  unfold applySignal at h
  rw [hpayload] at h
  dsimp only at h
  rw [if_neg (by omega), if_neg hstarted, hnat] at h
  split at h
  next hkind =>
    have hnone : ∀ k, candidateOf k frame = [] := fun k => by rw [candidateOf, hkind]
    have hsdp : signal.sdp ∈ State.sdpOf lane frame := by simp [State.sdpOf, hkind, hpayload, hlane]
    split at h
    · cases h
      exact .of_error hordered
    · split at h
      next hflush =>
        cases h
        exact .of_flush hordered hnone hsdp hflush nofun nofun
      next hflush =>
        split at h
        · cases h
          exact .of_flush hordered hnone hsdp hflush nofun nofun
        · split at h
          · cases h
            exact .of_flush hordered hnone hsdp hflush nofun nofun
          · cases h
            refine .of_flush hordered hnone hsdp hflush (fun _ => rfl) ?_
            intro frame' hmem
            cases List.mem_singleton.mp hmem
            exact ⟨⟨_, rfl, hpos, hlt⟩, fun _ => rfl⟩
  next hkind =>
    have hnone : ∀ k, candidateOf k frame = [] := fun k => by rw [candidateOf, hkind]
    have hsdp : signal.sdp ∈ State.sdpOf lane frame := by simp [State.sdpOf, hkind, hpayload, hlane]
    split at h
    · cases h
      exact .of_error hordered
    · split at h
      next hflush =>
        cases h
        exact .of_flush hordered hnone hsdp hflush nofun nofun
      next hflush =>
        cases h
        exact .of_flush hordered hnone hsdp hflush (fun _ => rfl) nofun
  next hkind =>
    split at h
    next hremote =>
      cases h
      have hadded := (hordered lane).early hremote
      refine .of_candidate hkind hpayload hlane ?_ ⟨fun _ => hadded, fun hnot => absurd hremote hnot⟩ rfl ?_ hordered
        rfl rfl rfl
      · simp [held, hadded]
      · intro k hk
        simp [hk]
    next hremote =>
      split at h
      · cases h
        have hpending := (hordered lane).late hremote
        refine .of_candidate hkind hpayload hlane ?_ ?_ ?_ ?_ hordered rfl rfl rfl
        · simp [held, addICECandidate, hpending]
        · refine ⟨fun hnone => ?_, fun _ => hpending⟩
          simp only [addICECandidate, Function.update_self] at hnone
          exact absurd hnone hremote
        · simp [addICECandidate]
        · intro k hk
          simp [addICECandidate, hk]
      · cases h
        exact .of_error hordered
  next hkind =>
    cases h
    exact .of_nothing hordered fun k => by rw [candidateOf, hkind]
  next hkind =>
    cases h
    exact .of_nothing hordered fun k => by rw [candidateOf, hkind]

end Transport

/-! ## One direction -/

/-- What is between the callbacks of one side and the peer connection of the other. -/
structure Flow (t : Transport) (frames : List Frame) (sent : List ICECandidateInit) (lost : Bool)
    (described : List String) (lane : Nat) : Prop where
  ordered : Ordered t lane
  flow : t.forwarding ≠ .returned → (held t lane ++ frames.flatMap (candidateOf lane)).Sublist sent
  whole : t.forwarding ≠ .returned → lost = false → held t lane ++ frames.flatMap (candidateOf lane) = sent
  past : (held t lane).Sublist sent
  front : lost = false → held t lane <+: sent
  remote : ∀ sdp, (t.pcs lane).remoteDescription = some sdp → sdp ∈ described
  wired : ∀ frame ∈ frames, ∀ sdp ∈ State.sdpOf lane frame, sdp ∈ described

namespace Flow

variable {t t' : Transport} {frames : List Frame} {sent : List ICECandidateInit} {lost : Bool}
  {described : List String} {lane : Nat}

theorem of_same (h : Flow t frames sent lost described lane) (hpcs : t'.pcs = t.pcs) (hpending : t'.pending = t.pending)
    (hreturned : t.forwarding = .returned → t'.forwarding = .returned) : Flow t' frames sent lost described lane := by
  have hheld : held t' lane = held t lane := by rw [held, held, hpcs, hpending]
  refine ⟨⟨?_, ?_⟩, ?_, ?_, ?_, ?_, ?_, h.wired⟩
  · rw [hpcs]
    exact h.ordered.early
  · rw [hpcs, hpending]
    exact h.ordered.late
  · rw [hheld]
    exact fun hnot => h.flow fun hold => hnot (hreturned hold)
  · rw [hheld]
    exact fun hnot => h.whole fun hold => hnot (hreturned hold)
  · rw [hheld]
    exact h.past
  · rw [hheld]
    exact h.front
  · rw [hpcs]
    exact h.remote

/-- The other side sends signals that are no candidates. -/
theorem send (h : Flow t frames sent lost described lane) {more : List Frame}
    (hnone : ∀ frame ∈ more, candidateOf lane frame = []) :
    Flow t (frames ++ more) sent lost (described ++ more.flatMap (State.sdpOf lane)) lane := by
  have hwire : (frames ++ more).flatMap (candidateOf lane) = frames.flatMap (candidateOf lane) := by
    rw [List.flatMap_append, List.flatMap_eq_nil_iff.mpr hnone, List.append_nil]
  refine ⟨h.ordered, ?_, ?_, h.past, h.front, fun sdp hsdp => List.mem_append_left _ (h.remote sdp hsdp), ?_⟩
  · rw [hwire]
    exact h.flow
  · rw [hwire]
    exact h.whole
  · intro frame hframe sdp hsdp
    rcases List.mem_append.mp hframe with hold | hnew
    · exact List.mem_append_left _ (h.wired frame hold sdp hsdp)
    · exact List.mem_append_right _ (List.mem_flatMap.mpr ⟨frame, hnew, hsdp⟩)

/-- The other side sends a candidate. -/
theorem gather (h : Flow t frames sent lost described lane) (lane' : Nat) (init : ICECandidateInit) :
    Flow t (frames ++ [candidateSignal lane' init]) (sent ++ if lane' = lane then [arrived init] else []) lost described
      lane := by
  have hwire : (frames ++ [candidateSignal lane' init]).flatMap (candidateOf lane) =
      frames.flatMap (candidateOf lane) ++ if lane' = lane then [arrived init] else [] := by
    rw [List.flatMap_append, List.flatMap_singleton, candidateOf_candidateSignal]
  refine ⟨h.ordered, ?_, ?_, h.past.trans (List.sublist_append_left _ _),
    fun hlost => (h.front hlost).trans (List.prefix_append _ _), h.remote, ?_⟩
  · intro hnot
    rw [hwire, ← List.append_assoc]
    exact (h.flow hnot).append_right _
  · intro hnot hlost
    rw [hwire, ← List.append_assoc, h.whole hnot hlost]
  · intro frame hframe sdp hsdp
    rcases List.mem_append.mp hframe with hold | hnew
    · exact h.wired frame hold sdp hsdp
    · cases List.mem_singleton.mp hnew
      exact absurd hsdp List.not_mem_nil

theorem lose (h : Flow t frames sent lost described lane) (i : Nat) :
    Flow t (frames.eraseIdx i) sent true described lane := by
  refine ⟨h.ordered, ?_, nofun, h.past, nofun, h.remote, ?_⟩
  · intro hnot
    have hfewer : (frames.eraseIdx i).flatMap (candidateOf lane) |>.Sublist (frames.flatMap (candidateOf lane)) :=
      (List.eraseIdx_sublist frames i).flatMap (candidateOf lane)
    exact (hfewer.append_left _).trans (h.flow hnot)
  · exact fun frame hframe => h.wired frame (List.mem_of_mem_eraseIdx hframe)

/-- The side takes the next signal. -/
theorem receive {frame : Frame} {answers : List Frame} {err : Option String}
    (h : Flow t (frame :: frames) sent lost described lane) (hrunning : t.forwarding = .running)
    (happlied : Transport.Applied t frame t' answers err) :
    Flow (if err = none then t' else { t' with forwarding := .returned }) frames sent lost described lane := by
  have hnot : t.forwarding ≠ .returned := by rw [hrunning]; decide
  have hflow := h.flow hnot
  have hwhole := h.whole hnot
  rw [List.flatMap_cons, ← List.append_assoc] at hflow hwhole
  have hpast : (held t' lane).Sublist sent :=
    (happlied.kept lane).sublist.trans ((List.sublist_append_left _ _).trans hflow)
  have hfront : lost = false → held t' lane <+: sent := fun hlost =>
    (happlied.kept lane).trans (hwhole hlost ▸ List.prefix_append _ _)
  have hremote : ∀ sdp, (t'.pcs lane).remoteDescription = some sdp → sdp ∈ described := by
    intro sdp hsdp
    rcases happlied.remote lane sdp hsdp with hold | hnew
    · exact h.remote sdp hold
    · exact h.wired frame List.mem_cons_self sdp hnew
  have hwired : ∀ frame ∈ frames, ∀ sdp ∈ State.sdpOf lane frame, sdp ∈ described :=
    fun frame' hframe => h.wired frame' (List.mem_cons_of_mem _ hframe)
  split
  next herr =>
    have hkept := happlied.kept_of_none herr lane
    exact ⟨happlied.ordered lane, fun _ => by rw [hkept]; exact hflow, fun _ hlost => by rw [hkept]; exact hwhole hlost,
      hpast, hfront, hremote, hwired⟩
  · exact ⟨⟨(happlied.ordered lane).early, (happlied.ordered lane).late⟩, fun hnot => absurd rfl hnot,
      fun hnot => absurd rfl hnot, hpast, hfront, hremote, hwired⟩

end Flow

/-! ## The channels -/

structure Channels (t : Transport) : Prop where
  nodup : t.openSet.Nodup
  two : t.ready = false → t.openSet.length < dataChannelCount
  once : t.readyCloses = if t.ready then 1 else 0
  first : t.failOnce = false → t.failures = []
  one : t.failures.length ≤ 1

namespace Channels

variable {t t' : Transport}

theorem of_same (h : Channels t) (heq : t'.channels = t.channels) : Channels t' := by
  simp only [Transport.channels, Prod.mk.injEq] at heq
  obtain ⟨hopen, hready, hcloses, honce, hfailures⟩ := heq
  exact ⟨hopen ▸ h.nodup, by rw [hready, hopen]; exact h.two, by rw [hcloses, hready]; exact h.once,
    by rw [honce, hfailures]; exact h.first, by rw [hfailures]; exact h.one⟩

theorem fail (h : Channels t) (err : String) : Channels (t.fail err) := by
  unfold Transport.fail
  split
  · exact h
  next honce =>
    refine ⟨h.nodup, h.two, h.once, nofun, ?_⟩
    rw [h.first (by simpa using honce)]
    exact Nat.le_refl 1

theorem onOpen (h : Channels t) (dc : Nat) : Channels (t.onOpen dc) := by
  unfold Transport.onOpen
  split
  · exact h
  · dsimp only
    split
    next hboth => exact ⟨h.nodup.insert, nofun, by rw [h.once, hboth.1]; rfl, h.first, h.one⟩
    next hnot =>
      exact ⟨h.nodup.insert, fun hready => Nat.lt_of_not_le fun hle => hnot ⟨hready, hle⟩, h.once, h.first, h.one⟩

theorem onClose (h : Channels t) (dc : Nat) : Channels (t.onClose dc) := by
  have herase : Channels { t with openSet := t.openSet.erase dc } := by
    refine ⟨h.nodup.erase dc, fun hready => ?_, h.once, h.first, h.one⟩
    exact Nat.lt_of_le_of_lt List.length_erase_le (h.two hready)
  unfold Transport.onClose
  dsimp only
  split
  · exact herase.fail _
  · split
    · exact herase.fail _
    · exact herase

end Channels

section

variable {t : Transport}

@[simp] theorem pcs_fail (err : String) : (t.fail err).pcs = t.pcs := by
  unfold Transport.fail
  split <;> rfl

@[simp] theorem pending_fail (err : String) : (t.fail err).pending = t.pending := by
  unfold Transport.fail
  split <;> rfl

@[simp] theorem forwarding_fail (err : String) : (t.fail err).forwarding = t.forwarding := by
  unfold Transport.fail
  split <;> rfl

@[simp] theorem lanes_fail (err : String) : (t.fail err).lanes = t.lanes := by
  unfold Transport.fail
  split <;> rfl

end

/-! ## Both directions -/

structure Inv (s : State) : Prop where
  flow : ∀ side lane, Flow (s.transport side) (s.link (!side)) ((s.gathered (!side) lane).map arrived) (s.lost (!side))
    (s.described (!side) lane) lane
  honest : ∀ side, ∀ frame ∈ s.link side, Honest frame
  lanes : ∀ side, ∀ lane ∈ (s.transport side).lanes, lane < dataChannelCount
  channels : ∀ side, Channels (s.transport side)

namespace Inv

variable {s : State} {side : Bool}

theorem init : Inv .init where
  flow := fun _ _ => ⟨⟨fun _ => rfl, fun h => absurd rfl h⟩, fun _ => List.Sublist.refl _, fun _ _ => rfl,
    List.Sublist.refl _, fun _ => List.prefix_rfl, nofun, nofun⟩
  honest := nofun
  lanes := nofun
  channels := fun _ => ⟨List.nodup_nil, fun _ => Nat.zero_lt_two, rfl, fun _ => rfl, Nat.zero_le 1⟩

/-- A callback that leaves the candidates of its side alone. -/
theorem setTransport (h : Inv s) {t' : Transport} (hpcs : t'.pcs = (s.transport side).pcs)
    (hpending : t'.pending = (s.transport side).pending)
    (hreturned : (s.transport side).forwarding = .returned → t'.forwarding = .returned)
    (hlanes : ∀ lane ∈ t'.lanes, lane < dataChannelCount) (hchannels : Channels t') :
    Inv (s.setTransport side t') := by
  have hself : (s.setTransport side t').transport side = t' := by simp [State.setTransport]
  have hother : ∀ side', side' ≠ side → (s.setTransport side t').transport side' = s.transport side' := by
    intro side' hne
    simp [State.setTransport, hne]
  refine ⟨fun side' lane => ?_, h.honest, fun side' => ?_, fun side' => ?_⟩
  · by_cases hside : side' = side
    · subst hside
      rw [hself]
      exact (h.flow side' lane).of_same hpcs hpending hreturned
    · rw [hother side' hside]
      exact h.flow side' lane
  · by_cases hside : side' = side
    · subst hside
      rwa [hself]
    · rw [hother side' hside]
      exact h.lanes side'
  · by_cases hside : side' = side
    · subst hside
      rwa [hself]
    · rw [hother side' hside]
      exact h.channels side'

theorem sendSignals (h : Inv s) {frames : List Frame}
    (hframes : ∀ frame ∈ frames, Honest frame ∧ ∀ lane, candidateOf lane frame = []) :
    Inv (s.sendSignals side frames) := by
  refine ⟨fun side' lane => ?_, fun side' frame hframe => ?_, h.lanes, h.channels⟩
  · by_cases hside : (!side') = side
    · subst hside
      have hsend := (h.flow side' lane).send fun frame hframe => (hframes frame hframe).2 lane
      simpa [State.sendSignals] using hsend
    · simpa [State.sendSignals, hside] using h.flow side' lane
  · by_cases hside : side' = side
    · subst hside
      simp only [State.sendSignals, Function.update_self] at hframe
      rcases List.mem_append.mp hframe with hold | hnew
      · exact h.honest side' frame hold
      · exact (hframes frame hnew).1
    · simp only [State.sendSignals, Function.update_of_ne hside] at hframe
      exact h.honest side' frame hframe

theorem gather (h : Inv s) {lane : Nat} (hlane : lane < dataChannelCount) (init : ICECandidateInit) :
    Inv { s with
      link := Function.update s.link side (s.link side ++ [candidateSignal lane init])
      gathered := Function.update s.gathered side
        (Function.update (s.gathered side) lane (s.gathered side lane ++ [init])) } := by
  refine ⟨fun side' k => ?_, fun side' frame hframe => ?_, h.lanes, h.channels⟩
  · by_cases hside : (!side') = side
    · subst hside
      have hgather := (h.flow side' k).gather lane init
      by_cases hk : k = lane
      · subst hk
        simpa using hgather
      · simpa [hk, Ne.symm hk] using hgather
    · simpa [hside] using h.flow side' k
  · dsimp only at hframe
    by_cases hside : side' = side
    · subst hside
      rw [Function.update_self] at hframe
      rcases List.mem_append.mp hframe with hold | hnew
      · exact h.honest side' frame hold
      · cases List.mem_singleton.mp hnew
        exact ⟨_, rfl, by simp, by simpa using hlane⟩
    · rw [Function.update_of_ne hside] at hframe
      exact h.honest side' frame hframe

theorem lose (h : Inv s) (i : Nat) :
    Inv { s with
      link := Function.update s.link side ((s.link side).eraseIdx i)
      lost := Function.update s.lost side true } := by
  refine ⟨fun side' lane => ?_, fun side' frame hframe => ?_, h.lanes, h.channels⟩
  · by_cases hside : (!side') = side
    · subst hside
      simpa using (h.flow side' lane).lose i
    · simpa [hside] using h.flow side' lane
  · dsimp only at hframe
    by_cases hside : side' = side
    · subst hside
      rw [Function.update_self] at hframe
      exact h.honest side' frame (List.mem_of_mem_eraseIdx hframe)
    · rw [Function.update_of_ne hside] at hframe
      exact h.honest side' frame hframe

/-- The side takes a signal. -/
theorem receive (h : Inv s) {frame : Frame} {frames answers : List Frame} {t' : Transport} {err : Option String}
    (hlink : s.link (!side) = frame :: frames) (hrunning : (s.transport side).forwarding = .running)
    (happlied : Transport.Applied (s.transport side) frame t' answers err) {t'' : Transport}
    (hpcs : t''.pcs = t'.pcs) (hpending : t''.pending = t'.pending) (hlanes : t''.lanes = t'.lanes)
    (hreturned : err ≠ none → t''.forwarding = .returned) (hchannels : Channels t'') :
    Inv ({ s with link := Function.update s.link (!side) frames }.setTransport side t'') := by
  refine ⟨fun side' lane => ?_, fun side' frame' hframe => ?_, fun side' => ?_, fun side' => ?_⟩
  · by_cases hside : side' = side
    · subst hside
      have hflow := h.flow side' lane
      rw [hlink] at hflow
      have hreceive := hflow.receive hrunning happlied
      have hsame : Flow t'' frames ((s.gathered (!side') lane).map arrived) (s.lost (!side')) (s.described (!side') lane)
          lane := by
        refine hreceive.of_same ?_ ?_ ?_
        · split
          · exact hpcs
          · exact hpcs
        · split
          · exact hpending
          · exact hpending
        · intro hold
          refine hreturned fun hnone => ?_
          rw [if_pos hnone, happlied.forwarding, hrunning] at hold
          cases hold
      simpa [State.setTransport] using hsame
    · have hnot : (!side') ≠ !side := by simpa using hside
      simpa [State.setTransport, hside, hnot] using h.flow side' lane
  · simp only [State.setTransport] at hframe
    by_cases hside : side' = !side
    · subst hside
      rw [Function.update_self] at hframe
      exact h.honest (!side) frame' (hlink ▸ List.mem_cons_of_mem _ hframe)
    · rw [Function.update_of_ne hside] at hframe
      exact h.honest side' frame' hframe
  · by_cases hside : side' = side
    · subst hside
      simp only [State.setTransport, Function.update_self, hlanes, happlied.lanes]
      exact h.lanes side'
    · simpa [State.setTransport, hside] using h.lanes side'
  · by_cases hside : side' = side
    · subst hside
      simpa [State.setTransport] using hchannels
    · simpa [State.setTransport, hside] using h.channels side'

theorem step (h : Inv s) {t : State} {e : Event} (hstep : s.step e = some t) : Inv t := by
  cases e with
  | start side sender =>
      simp only [State.step] at hstep
      split at hstep
      · cases hstep
      next hnew =>
        cases hstep
        refine h.setTransport rfl rfl (fun hold => ?_) ?_ ((h.channels side).of_same rfl)
        · rw [not_not.mp hnew] at hold
          cases hold
        · intro lane hlane
          simp only [Transport.start] at hlane
          split at hlane
          · exact List.mem_range.mp hlane
          · cases hlane
  | startLane side pion =>
      obtain ⟨⟨t', frames⟩, hstart, rfl⟩ := Option.map_eq_some_iff.mp hstep
      have hchannels := h.channels side
      unfold Transport.startLane at hstart
      split at hstart
      · cases hstart
      next lane lanes hlanes =>
        have hlane : lane < dataChannelCount := h.lanes side lane (by rw [hlanes]; exact List.mem_cons_self)
        have hfailed : ∀ {t' : Transport} {err : String}, t'.pcs = (s.transport side).pcs →
            t'.pending = (s.transport side).pending → t'.forwarding = (s.transport side).forwarding →
            t'.lanes = [] → t'.channels = (s.transport side).channels →
            Inv ((s.setTransport side (t'.fail err)).sendSignals side []) := by
          intro t' err hpcs hpending hforwarding hnil hsame
          refine (h.setTransport ?_ ?_ ?_ ?_ ((hchannels.of_same hsame).fail err)).sendSignals nofun
          · rw [pcs_fail, hpcs]
          · rw [pending_fail, hpending]
          · rw [forwarding_fail, hforwarding]
            exact id
          · rw [lanes_fail, hnil]
            nofun
        dsimp only at hstart
        split at hstart
        · cases hstart
          exact hfailed rfl rfl rfl rfl rfl
        · split at hstart
          · cases hstart
            exact hfailed rfl rfl rfl rfl rfl
          · split at hstart
            · cases hstart
              exact hfailed rfl rfl rfl rfl rfl
            · cases hstart
              refine Inv.sendSignals (h.setTransport ?_ ?_ ?_ ?_ (hchannels.of_same ?_)) ?_
              · rfl
              · rfl
              · exact id
              · exact fun lane' hlane' => h.lanes side lane' (by rw [hlanes]; exact List.mem_cons_of_mem _ hlane')
              · rfl
              · intro frame hframe
                cases List.mem_singleton.mp hframe
                exact ⟨⟨_, rfl, by simp, by simpa using hlane⟩, fun _ => rfl⟩
  | onICECandidate side lane candidate sent =>
      simp only [State.step] at hstep
      split at hstep
      · cases hstep
      next hlane =>
        have hlt : lane < dataChannelCount := by
          simp only [not_or, Nat.not_le] at hlane
          exact hlane.2
        split at hstep
        · cases hstep
          exact h
        · split at hstep
          · cases hstep
            refine h.sendSignals fun frame hframe => ?_
            cases List.mem_singleton.mp hframe
            exact ⟨⟨_, rfl, by simp, by simpa using hlt⟩, fun _ => rfl⟩
          next init =>
            cases hstep
            exact h.gather hlt init
  | lose side i =>
      simp only [State.step] at hstep
      split at hstep
      · cases hstep
        exact h.lose i
      · cases hstep
  | forwardSignal side pion =>
      simp only [State.step] at hstep
      split at hstep
      · cases hstep
      next hrunning =>
        have hrun := not_not.mp hrunning
        split at hstep
        · cases hstep
        next frame frames hlink =>
          cases hstep
          generalize happly : (s.transport side).applySignal pion frame = result
          obtain ⟨t', answers, err⟩ := result
          have happlied := Transport.applySignal_spec (by rw [hrun]; decide)
            (h.honest (!side) frame (hlink ▸ List.mem_cons_self)) (fun lane => (h.flow side lane).ordered) happly
          have hchannels := (h.channels side).of_same happlied.channels
          cases err with
          | none =>
              simp only [Transport.forwardSignal, happly]
              exact (h.receive hlink hrun happlied rfl rfl rfl nofun hchannels).sendSignals happlied.frames
          | some err =>
              simp only [Transport.forwardSignal, happly]
              refine (h.receive hlink hrun happlied ?_ ?_ ?_ (fun _ => rfl) ?_).sendSignals happlied.frames
              · exact pcs_fail err
              · exact pending_fail err
              · exact lanes_fail err
              · exact (hchannels.fail err).of_same rfl
  | contextDone side =>
      simp only [State.step] at hstep
      split at hstep
      · cases hstep
      · cases hstep
        exact h.setTransport rfl rfl (fun _ => rfl) (h.lanes side) ((h.channels side).of_same rfl)
  | fails side err =>
      cases hstep
      refine h.setTransport (pcs_fail err) (pending_fail err) ?_ ?_ ((h.channels side).fail err)
      · rw [forwarding_fail]
        exact id
      · rw [lanes_fail]
        exact h.lanes side
  | onDataChannel side dc =>
      simp only [State.step] at hstep
      split at hstep
      · cases hstep
      · cases hstep
        exact h.setTransport rfl rfl id (h.lanes side) ((h.channels side).of_same rfl)
  | onOpen side dc =>
      simp only [State.step] at hstep
      split at hstep
      · cases hstep
      · cases hstep
        have hsame : ((s.transport side).onOpen dc).pcs = (s.transport side).pcs ∧
            ((s.transport side).onOpen dc).pending = (s.transport side).pending ∧
            ((s.transport side).onOpen dc).forwarding = (s.transport side).forwarding ∧
            ((s.transport side).onOpen dc).lanes = (s.transport side).lanes := by
          unfold Transport.onOpen
          dsimp only
          split
          · exact ⟨rfl, rfl, rfl, rfl⟩
          · split
            · exact ⟨rfl, rfl, rfl, rfl⟩
            · exact ⟨rfl, rfl, rfl, rfl⟩
        obtain ⟨hpcs, hpending, hforwarding, hlanes⟩ := hsame
        exact h.setTransport hpcs hpending (fun hold => hforwarding.trans hold) (hlanes ▸ h.lanes side)
          ((h.channels side).onOpen dc)
  | onClose side dc =>
      simp only [State.step] at hstep
      split at hstep
      · cases hstep
      · cases hstep
        have hsame : ((s.transport side).onClose dc).pcs = (s.transport side).pcs ∧
            ((s.transport side).onClose dc).pending = (s.transport side).pending ∧
            ((s.transport side).onClose dc).forwarding = (s.transport side).forwarding ∧
            ((s.transport side).onClose dc).lanes = (s.transport side).lanes := by
          unfold Transport.onClose
          dsimp only
          split
          · exact ⟨pcs_fail _, pending_fail _, forwarding_fail _, lanes_fail _⟩
          · split
            · exact ⟨pcs_fail _, pending_fail _, forwarding_fail _, lanes_fail _⟩
            · exact ⟨rfl, rfl, rfl, rfl⟩
        obtain ⟨hpcs, hpending, hforwarding, hlanes⟩ := hsame
        exact h.setTransport hpcs hpending (fun hold => hforwarding.trans hold) (hlanes ▸ h.lanes side)
          ((h.channels side).onClose dc)
  | close side =>
      cases hstep
      exact h.setTransport rfl rfl id (h.lanes side) ((h.channels side).of_same rfl)

end Inv

/-- **Signaling.**  In every run of two transports, with the signals and callbacks in any order and whatever
the relay loses: the candidates that were added to the peer connection of a lane are among those that the
other side has sent for that lane, each once and in their order, and without a lost signal they are the first
ones; they were added behind a remote description, which is one the other side has sent for that lane; and
when a lane has its remote description, no signal was lost and none is on its way, all of them are added.
The transport is ready once and stays so, fewer than two channels are open before, and at most one failure
is reported. -/
theorem candidates_in_order {events : List Event} {s : State} (hrun : runFrom State.step .init events = some s)
    (side : Bool) (lane : Nat) :
    let t := s.transport side
    let sent := (s.gathered (!side) lane).map arrived
    (t.pcs lane).added.Sublist sent ∧
    (s.lost (!side) = false → (t.pcs lane).added <+: sent) ∧
    ((t.pcs lane).added ≠ [] → ∃ sdp ∈ s.described (!side) lane, (t.pcs lane).remoteDescription = some sdp) ∧
    (t.forwarding = .running → s.lost (!side) = false → s.link (!side) = [] →
      (t.pcs lane).remoteDescription ≠ none → (t.pcs lane).added = sent) ∧
    t.readyCloses = (if t.ready then 1 else 0) ∧ (t.ready = false → t.openSet.length < dataChannelCount) ∧
    t.failures.length ≤ 1 := by
  have hinv := runFrom_invariant (fun _ _ _ h hstep => Inv.step h hstep) events Inv.init hrun
  have hflow := hinv.flow side lane
  have hchannels := hinv.channels side
  have hadded : ((s.transport side).pcs lane).added <+: held (s.transport side) lane := List.prefix_append _ _
  refine ⟨hadded.sublist.trans hflow.past, fun hlost => hadded.trans (hflow.front hlost), ?_, ?_, hchannels.once,
    hchannels.two, hchannels.one⟩
  · intro hsome
    cases hremote : ((s.transport side).pcs lane).remoteDescription with
    | none => exact absurd (hflow.ordered.early hremote) hsome
    | some sdp => exact ⟨sdp, hflow.remote sdp hremote, rfl⟩
  · intro hforwarding hlost hlink hremote
    have hwhole := hflow.whole (by rw [hforwarding]; decide) hlost
    rw [hlink, held, hflow.ordered.late hremote] at hwhole
    simpa using hwhole

/-- A library that takes everything. -/
def goodPion (sdp : String) : Pion := ⟨"", true, fun _ => true, some sdp, true, true, true⟩

def hostCandidate : ICECandidateInit := ⟨"candidate:1 1 udp 2130706431 192.0.2.1 50000 typ host", some "0", some 0, none⟩

/-- A candidate of the sender goes out before the offer of its lane. -/
def overtaking : List Event :=
  [.start false true, .start true false, .onICECandidate false 0 (some hostCandidate) true,
    .startLane false (goodPion "offer"), .forwardSignal true (goodPion "answer"),
    .forwardSignal true (goodPion "answer"), .forwardSignal false (goodPion "")]

theorem candidates_in_order_overtaking :
    ∃ s, runFrom State.step .init overtaking = some s ∧ s.gathered false 0 = [hostCandidate] ∧
      ((s.transport true).pcs 0).added = [arrived hostCandidate] := by
  have hrun : (runFrom State.step .init overtaking).map (fun s =>
      decide (s.gathered false 0 = [hostCandidate]) && decide ((s.transport true).forwarding = .running) &&
        !s.lost false && decide (s.link false = []) &&
        decide (((s.transport true).pcs 0).remoteDescription = some "offer")) = some true := by
    decide +kernel
  obtain ⟨s, hs, hstate⟩ := Option.map_eq_some_iff.mp hrun
  simp only [Bool.and_eq_true, decide_eq_true_eq, Bool.not_eq_true'] at hstate
  obtain ⟨⟨⟨⟨hgathered, hforwarding⟩, hlost⟩, hlink⟩, hremote⟩ := hstate
  obtain ⟨-, -, -, hall, -⟩ := candidates_in_order hs true 0
  refine ⟨s, hs, hgathered, ?_⟩
  have hadded := hall hforwarding hlost hlink (by rw [hremote]; exact Option.some_ne_none _)
  rw [hadded, Bool.not_true, hgathered]
  rfl

end WebrtcDirect
