import Derphole.WebRelay.Reorder

/-!
# The receive queues of the direct path

`Transport` of `pkg/derphole/webrtcdirect/transport.go` under a transfer.  Frames on the direct path are
in the data channels until they are delivered, in any order, into the receive queue of the other side.
The queue has room for `receiveQueueFrames`, and a frame that finds it full fails the transport.  The
sender takes frames from its queue where it drains or awaits acknowledgements; on the other side the
goroutine of `mergeFrameSources` takes them for `receiveFrames`, through a channel of its own.

Nothing holds a side back from sending while its frames are not taken: the window of the sender has room
for twice as many frames as the queue.  What decides is the number of frames sent and not taken.  If no
step that sends leaves more than `receiveQueueFrames` of them, no queue is ever full; and wherever there
are more, some order of deliveries fills the queue (`direct_queue_bound`).
-/

namespace WebRelay

open Lib

def receiveQueueFrames : Nat := 512

/-- The capacity of the channel that `mergeFrameSources` makes. -/
def mergedFrames : Nat := 32

/-- The data channels in one direction, and `recvCh` at their end. -/
structure DirectQueue where
  /-- Sent and not delivered yet. -/
  flight : List Frame
  recvCh : List Frame
  /-- A frame found the queue full. -/
  full : Bool

namespace DirectQueue

def new : DirectQueue := ⟨[], [], false⟩

variable (q : DirectQueue)

def send (frames : List Frame) : DirectQueue := { q with flight := q.flight ++ frames }

/-- The callback of `OnMessage` for one of the frames in flight. -/
def arrive (i : Nat) : Option DirectQueue :=
  match q.flight[i]? with
  | none => none
  | some frame =>
      if q.recvCh.length < receiveQueueFrames then
        some { q with flight := q.flight.eraseIdx i, recvCh := q.recvCh ++ [frame] }
      else some { q with flight := q.flight.eraseIdx i, full := true }

def take : Option (Frame × DirectQueue) :=
  match q.recvCh with
  | [] => none
  | frame :: rest => some (frame, { q with recvCh := rest })

/-- Frames that were sent and not taken. -/
def untaken : Nat := q.flight.length + q.recvCh.length

end DirectQueue

/-- A transfer with the queues of its direct path. -/
structure DirectTransfer where
  transfer : Transfer
  toReceiver : DirectQueue
  toSender : DirectQueue
  /-- What the goroutine of `mergeFrameSources` has taken and not yet put into its channel. -/
  held : Option Frame
  merged : List Frame

inductive DirectLabel where
  | send (l : SendLabel)
  /-- The receiver reads a frame from the relay, or the next one of the direct path. -/
  | deliver (frame : Frame)
  | deliverDirect
  | sinkFails (frame : Frame) (n : Nat)
  | sinkFailsDirect (n : Nat)
  | stop
  | arriveReceiver (i : Nat)
  | arriveSender (i : Nat)
  /-- `mergeFrameSources` takes a direct frame, and puts it into its channel. -/
  | merge
  | put

namespace DirectTransfer

def init (size : Int) (senderDirect receiverDirect : Bool) : DirectTransfer :=
  ⟨.init size senderDirect receiverDirect, .new, .new, none, []⟩

variable (file : List UInt8) (w : DirectTransfer)

/-- A step of the transfer, whose frames on the direct path go into the data channels. -/
def act (l : Label) : Option DirectTransfer :=
  (w.transfer.step file l).map fun t =>
    { w with
      transfer := t
      toReceiver := w.toReceiver.send (t.sent.direct.drop w.transfer.sent.direct.length)
      toSender := w.toSender.send (t.answered.direct.drop w.transfer.answered.direct.length) }

def step : DirectLabel → Option DirectTransfer
  | .send (.directFrame frame) =>
      match w.toSender.take with
      | none => none
      | some (next, queue) =>
          if next = frame then { w with toSender := queue }.act file (.send (.directFrame frame))
          else none
  | .send l => w.act file (.send l)
  | .deliver frame =>
      if w.transfer.sent.relay.contains frame then w.act file (.deliver frame) else none
  | .deliverDirect =>
      match w.merged with
      | [] => none
      | frame :: rest => { w with merged := rest }.act file (.deliver frame)
  | .sinkFails frame n =>
      if w.transfer.sent.relay.contains frame then w.act file (.sinkFails frame n) else none
  | .sinkFailsDirect n =>
      match w.merged with
      | [] => none
      | frame :: rest => { w with merged := rest }.act file (.sinkFails frame n)
  | .stop => w.act file .stop
  | .arriveReceiver i => (w.toReceiver.arrive i).map fun q => { w with toReceiver := q }
  | .arriveSender i => (w.toSender.arrive i).map fun q => { w with toSender := q }
  | .merge =>
      match w.held, w.toReceiver.take with
      | none, some (frame, queue) => some { w with toReceiver := queue, held := some frame }
      | _, _ => none
  | .put =>
      match w.held with
      | none => none
      | some frame =>
          if w.merged.length < mergedFrames then
            some { w with held := none, merged := w.merged ++ [frame] }
          else none

/-- How many frames a step sends on the direct path, on each side. -/
def sends (l : DirectLabel) : Nat × Nat :=
  match w.step file l with
  | none => (0, 0)
  | some w' =>
      (w'.transfer.sent.direct.length - w.transfer.sent.direct.length,
        w'.transfer.answered.direct.length - w.transfer.answered.direct.length)

/-- With what the step sends, no more frames are untaken than a queue has room for. -/
def HasRoom (l : DirectLabel) : Prop :=
  (0 < (w.sends file l).1 →
    w.toReceiver.untaken + (w.sends file l).1 ≤ receiveQueueFrames) ∧
  (0 < (w.sends file l).2 → w.toSender.untaken + (w.sends file l).2 ≤ receiveQueueFrames)

instance (l : DirectLabel) : Decidable (w.HasRoom file l) := inferInstanceAs (Decidable (_ ∧ _))

end DirectTransfer

/-! ## Steps of the queues -/

namespace DirectTransfer

/-- What a step does to the queues. -/
inductive Moves (file : List UInt8) (w : DirectTransfer) : DirectTransfer → Prop where
  /-- The transfer makes a step; the sender may take a frame for it. -/
  | acted {v w' : DirectTransfer} {l : Label} (ha : v.act file l = some w')
      (htransfer : v.transfer = w.transfer) (hup : v.toReceiver = w.toReceiver)
      (hdown : v.toSender = w.toSender ∨ ∃ frame, w.toSender.take = some (frame, v.toSender)) :
      Moves file w w'
  | arriveReceiver {i : Nat} {q : DirectQueue} (ha : w.toReceiver.arrive i = some q) :
      Moves file w { w with toReceiver := q }
  | arriveSender {i : Nat} {q : DirectQueue} (ha : w.toSender.arrive i = some q) :
      Moves file w { w with toSender := q }
  | merge {frame : Frame} {q : DirectQueue} (ht : w.toReceiver.take = some (frame, q)) :
      Moves file w { w with toReceiver := q, held := some frame }
  | put {held : Option Frame} {merged : List Frame} :
      Moves file w { w with held := held, merged := merged }

theorem moves {file : List UInt8} {w w' : DirectTransfer} {l : DirectLabel}
    (hs : w.step file l = some w') : Moves file w w' := by
  unfold DirectTransfer.step at hs
  split at hs
  next frame =>
    split at hs
    · cases hs
    next next queue htake =>
      split at hs
      · exact .acted hs rfl rfl (.inr ⟨next, htake⟩)
      · cases hs
  next => exact .acted hs rfl rfl (.inl rfl)
  next =>
    split at hs
    · exact .acted hs rfl rfl (.inl rfl)
    · cases hs
  next =>
    split at hs
    · cases hs
    · exact .acted hs rfl rfl (.inl rfl)
  next =>
    split at hs
    · exact .acted hs rfl rfl (.inl rfl)
    · cases hs
  next =>
    split at hs
    · cases hs
    · exact .acted hs rfl rfl (.inl rfl)
  next => exact .acted hs rfl rfl (.inl rfl)
  next =>
    obtain ⟨q, ha, rfl⟩ := Option.map_eq_some_iff.mp hs
    exact .arriveReceiver ha
  next =>
    obtain ⟨q, ha, rfl⟩ := Option.map_eq_some_iff.mp hs
    exact .arriveSender ha
  next =>
    split at hs
    next frame queue hheld htake =>
      cases hs
      exact .merge htake
    next => cases hs
  next =>
    split at hs
    · cases hs
    split at hs
    · cases hs
      exact .put
    · cases hs

end DirectTransfer

namespace DirectQueue

variable {q q' : DirectQueue} {frame : Frame} {i : Nat}

theorem take_eq (h : q.take = some (frame, q')) :
    q'.full = q.full ∧ q'.flight = q.flight ∧ q'.recvCh.length + 1 = q.recvCh.length := by
  rw [DirectQueue.take] at h
  split at h
  · cases h
  next rest hrecv =>
    cases h
    exact ⟨rfl, rfl, by rw [hrecv, List.length_cons]⟩

/-- A frame that arrives is put into the queue, or finds it full. -/
theorem arrive_eq (h : q.arrive i = some q') :
    q'.flight.length + 1 = q.flight.length ∧
      (q.recvCh.length < receiveQueueFrames ∧ q'.full = q.full ∧
          q'.recvCh.length = q.recvCh.length + 1 ∨
        receiveQueueFrames ≤ q.recvCh.length ∧ q'.full = true ∧ q'.recvCh = q.recvCh) := by
  rw [DirectQueue.arrive] at h
  split at h
  · cases h
  next frame hframe =>
    have hlength := List.length_eraseIdx_add_one (List.getElem?_eq_some_iff.mp hframe).1
    split at h
    next hroom =>
      cases h
      exact ⟨hlength, .inl ⟨hroom, rfl, List.length_append⟩⟩
    next hfull =>
      cases h
      exact ⟨hlength, .inr ⟨Nat.le_of_not_lt hfull, rfl, rfl⟩⟩

/-- There was room for every frame so far, and there will be for those in flight. -/
structure Bounded (q : DirectQueue) : Prop where
  full : q.full = false
  untaken : q.flight.length + q.recvCh.length ≤ receiveQueueFrames

theorem bounded_new : Bounded new := ⟨rfl, Nat.zero_le _⟩

theorem Bounded.send (h : Bounded q) {frames : List Frame}
    (hroom : 0 < frames.length → q.untaken + frames.length ≤ receiveQueueFrames) :
    Bounded (q.send frames) := by
  refine ⟨h.full, ?_⟩
  have huntaken := h.untaken
  show (q.flight ++ frames).length + q.recvCh.length ≤ _
  rw [List.length_append]
  rw [DirectQueue.untaken] at hroom
  omega

theorem Bounded.arrive (h : Bounded q) (ha : q.arrive i = some q') : Bounded q' := by
  have huntaken := h.untaken
  obtain ⟨hflight, ⟨-, hfull, hrecv⟩ | ⟨hfull, -⟩⟩ := arrive_eq ha
  · exact ⟨hfull.trans h.full, by omega⟩
  · exact absurd hfull (by omega)

theorem Bounded.take (h : Bounded q) (ht : q.take = some (frame, q')) : Bounded q' := by
  have huntaken := h.untaken
  obtain ⟨hfull, hflight, hrecv⟩ := take_eq ht
  refine ⟨hfull.trans h.full, ?_⟩
  rw [hflight]
  omega

end DirectQueue

namespace DirectTransfer

variable {file : List UInt8} {w w' : DirectTransfer}

structure Bounded (w : DirectTransfer) : Prop where
  toReceiver : w.toReceiver.Bounded
  toSender : w.toSender.Bounded

theorem Bounded.step {l : DirectLabel} (h : Bounded w) (hroom : w.HasRoom file l)
    (hs : w.step file l = some w') : Bounded w' := by
  rw [HasRoom, sends, hs] at hroom
  cases moves hs with
  | @acted v _ l ha htransfer hup hdown =>
      obtain ⟨t, -, rfl⟩ := Option.map_eq_some_iff.mp ha
      have hdown' : v.toSender.Bounded ∧ v.toSender.untaken ≤ w.toSender.untaken := by
        rcases hdown with heq | ⟨frame, ht⟩
        · rw [heq]
          exact ⟨h.toSender, Nat.le_refl _⟩
        · obtain ⟨-, hflight, hrecv⟩ := DirectQueue.take_eq ht
          refine ⟨h.toSender.take ht, ?_⟩
          rw [DirectQueue.untaken, DirectQueue.untaken, hflight]
          omega
      refine ⟨?_, hdown'.1.send ?_⟩
      · show (v.toReceiver.send _).Bounded
        rw [hup]
        refine h.toReceiver.send ?_
        intro hpos
        rw [List.length_drop, htransfer] at hpos ⊢
        exact hroom.1 hpos
      · intro hpos
        rw [List.length_drop, htransfer] at hpos ⊢
        exact Nat.le_trans (Nat.add_le_add_right hdown'.2 _) (hroom.2 hpos)
  | arriveReceiver ha => exact ⟨h.toReceiver.arrive ha, h.toSender⟩
  | arriveSender ha => exact ⟨h.toReceiver, h.toSender.arrive ha⟩
  | merge ht => exact ⟨h.toReceiver.take ht, h.toSender⟩
  | put => exact ⟨h.toReceiver, h.toSender⟩

end DirectTransfer

/-! ## Beyond it -/

namespace DirectQueue

variable {q : DirectQueue}

/-- When the rest of the room is filled with frames in flight, one more fails the transport. -/
theorem arrivals {n : Nat} (hroom : q.recvCh.length + n = receiveQueueFrames)
    (hflight : n < q.flight.length) :
    ∃ q', runFrom DirectQueue.arrive q (List.replicate (n + 1) 0) = some q' ∧ q'.full = true := by
  induction n generalizing q with
  | zero =>
      obtain ⟨q', ha⟩ : ∃ q', q.arrive 0 = some q' := by
        rw [DirectQueue.arrive, List.getElem?_eq_getElem hflight]
        dsimp only
        split <;> exact ⟨_, rfl⟩
      obtain ⟨-, ⟨hlt, -⟩ | ⟨-, hfull, -⟩⟩ := arrive_eq ha
      · omega
      · exact ⟨q', by rw [List.replicate_succ, runFrom, ha]; rfl, hfull⟩
  | succ n ih =>
      obtain ⟨q', ha⟩ : ∃ q', q.arrive 0 = some q' := by
        rw [DirectQueue.arrive, List.getElem?_eq_getElem (Nat.zero_lt_of_lt hflight)]
        dsimp only
        split <;> exact ⟨_, rfl⟩
      obtain ⟨hlength, ⟨-, -, hrecv⟩ | ⟨hge, -⟩⟩ := arrive_eq ha
      · obtain ⟨q'', hrun, hfull⟩ := ih (q := q') (by omega) (by omega)
        exact ⟨q'', by rw [List.replicate_succ, runFrom, ha]; exact hrun, hfull⟩
      · omega

end DirectQueue

namespace DirectTransfer

variable {file : List UInt8} {w w' : DirectTransfer}

/-- No queue holds more than it has room for. -/
structure Holds (w : DirectTransfer) : Prop where
  toReceiver : w.toReceiver.recvCh.length ≤ receiveQueueFrames
  toSender : w.toSender.recvCh.length ≤ receiveQueueFrames

theorem Holds.step {l : DirectLabel} (h : Holds w) (hs : w.step file l = some w') : Holds w' := by
  have harrive : ∀ {q q' : DirectQueue} {i : Nat}, q.recvCh.length ≤ receiveQueueFrames →
      q.arrive i = some q' → q'.recvCh.length ≤ receiveQueueFrames := by
    intro q q' i hq ha
    obtain ⟨-, ⟨hlt, -, hrecv⟩ | ⟨-, -, hrecv⟩⟩ := DirectQueue.arrive_eq ha
    · omega
    · rwa [hrecv]
  cases moves hs with
  | acted ha htransfer hup hdown =>
      obtain ⟨t, -, rfl⟩ := Option.map_eq_some_iff.mp ha
      refine ⟨hup ▸ h.toReceiver, ?_⟩
      rcases hdown with heq | ⟨frame, ht⟩
      · exact heq ▸ h.toSender
      · obtain ⟨-, -, hrecv⟩ := DirectQueue.take_eq ht
        exact Nat.le_trans (Nat.le_of_succ_le (Nat.le_of_eq hrecv)) h.toSender
  | arriveReceiver ha => exact ⟨harrive h.toReceiver ha, h.toSender⟩
  | arriveSender ha => exact ⟨h.toReceiver, harrive h.toSender ha⟩
  | merge ht =>
      obtain ⟨-, -, hrecv⟩ := DirectQueue.take_eq ht
      exact ⟨Nat.le_trans (Nat.le_of_succ_le (Nat.le_of_eq hrecv)) h.toReceiver, h.toSender⟩
  | put => exact ⟨h.toReceiver, h.toSender⟩

theorem runFrom_arriveReceiver {is : List Nat} {q : DirectQueue}
    (h : runFrom DirectQueue.arrive w.toReceiver is = some q) :
    runFrom (step file) w (is.map .arriveReceiver) = some { w with toReceiver := q } := by
  induction is generalizing w with
  | nil =>
      cases h
      rfl
  | cons i is ih =>
      obtain ⟨p, hp, hrest⟩ := runFrom_cons h
      rw [List.map_cons, runFrom, step, hp]
      exact ih hrest

theorem runFrom_arriveSender {is : List Nat} {q : DirectQueue}
    (h : runFrom DirectQueue.arrive w.toSender is = some q) :
    runFrom (step file) w (is.map .arriveSender) = some { w with toSender := q } := by
  induction is generalizing w with
  | nil =>
      cases h
      rfl
  | cons i is ih =>
      obtain ⟨p, hp, hrest⟩ := runFrom_cons h
      rw [List.map_cons, runFrom, step, hp]
      exact ih hrest

end DirectTransfer

/-- In every run in which no step that sends on the direct path leaves more frames untaken than a
receive queue has room for, no frame finds a queue full.  The bound cannot be missed: in every state
with more frames untaken, deliveries alone fill the queue. -/
theorem direct_queue_bound (file : List UInt8) (size : Int) (senderDirect receiverDirect : Bool)
    (ls : List DirectLabel) (w : DirectTransfer)
    (hrun : runFrom (DirectTransfer.step file) (.init size senderDirect receiverDirect) ls = some w) :
    (StepsMeet (DirectTransfer.step file) (DirectTransfer.HasRoom file)
        (.init size senderDirect receiverDirect) ls →
      w.toReceiver.full = false ∧ w.toSender.full = false) ∧
    (receiveQueueFrames < w.toReceiver.untaken → ∃ n w',
      runFrom (DirectTransfer.step file) w (List.replicate n (.arriveReceiver 0)) = some w' ∧
        w'.toReceiver.full = true) ∧
    (receiveQueueFrames < w.toSender.untaken → ∃ n w',
      runFrom (DirectTransfer.step file) w (List.replicate n (.arriveSender 0)) = some w' ∧
        w'.toSender.full = true) := by
  have hholds : w.Holds :=
    runFrom_invariant (fun _ _ _ h hs => h.step hs) ls ⟨Nat.zero_le _, Nat.zero_le _⟩ hrun
  refine ⟨?_, ?_, ?_⟩
  · intro hok
    have h : w.Bounded :=
      runFrom_invariant_of_meet (fun _ _ _ h hok hs => h.step hok hs) ls
        ⟨DirectQueue.bounded_new, DirectQueue.bounded_new⟩ hok hrun
    exact ⟨h.toReceiver.full, h.toSender.full⟩
  · intro hmore
    have hroom := hholds.toReceiver
    rw [DirectQueue.untaken] at hmore
    obtain ⟨q, hq, hfull⟩ := DirectQueue.arrivals (q := w.toReceiver)
      (n := receiveQueueFrames - w.toReceiver.recvCh.length) (by omega) (by omega)
    have hlift : runFrom (DirectTransfer.step file) w _ = some _ :=
      DirectTransfer.runFrom_arriveReceiver hq
    rw [List.map_replicate] at hlift
    exact ⟨_, _, hlift, hfull⟩
  · intro hmore
    have hroom := hholds.toSender
    rw [DirectQueue.untaken] at hmore
    obtain ⟨q, hq, hfull⟩ := DirectQueue.arrivals (q := w.toSender)
      (n := receiveQueueFrames - w.toSender.recvCh.length) (by omega) (by omega)
    have hlift : runFrom (DirectTransfer.step file) w _ = some _ :=
      DirectTransfer.runFrom_arriveSender hq
    rw [List.map_replicate] at hlift
    exact ⟨_, _, hlift, hfull⟩

/-- Frame 3 is lost on the relay and sent again on the direct path, where the merged channel and the
queue of the sender carry it and its acknowledgement. -/
def directRun : List DirectLabel :=
  [.deliver (.metadata 6), .send (.relayFrame (.ack 0)), .send (.poll .quiet), .send (.read 2),
    .send (.read 2), .send (.read 2), .deliver (.data 1 [1, 2]), .deliver (.data 2 [3, 4]),
    .send (.read 0), .send (.poll .ready), .send (.relayFrame (.ack 4)), .send (.poll .quiet),
    .send .next, .deliver (.directReady 4 3), .send (.relayFrame (.pathSwitch 4 3)),
    .arriveReceiver 0, .merge, .put, .deliverDirect, .arriveSender 0]

theorem direct_queue_bound_switched :
    ∃ w, runFrom (DirectTransfer.step [1, 2, 3, 4, 5, 6]) (.init 6 true true) directRun = some w ∧
      w.transfer.sent.direct = [.data 3 [5, 6]] ∧ w.toSender.recvCh = [.ack 6] ∧
      w.toReceiver.full = false ∧ w.toSender.full = false := by
  have h : (runFrom (DirectTransfer.step [1, 2, 3, 4, 5, 6]) (.init 6 true true) directRun).any
      (fun w => decide (w.transfer.sent.direct = [.data 3 [5, 6]] ∧
        w.toSender.recvCh = [.ack 6])) = true := by
    decide +kernel
  obtain ⟨w, hrun, hw⟩ := (Option.any_eq_true ..).mp h
  obtain ⟨hsent, hrecv⟩ := of_decide_eq_true hw
  exact ⟨w, hrun, hsent, hrecv, (direct_queue_bound _ _ _ _ _ w hrun).1 (by decide +kernel)⟩

/-! ## A slow sink

The sender reads one byte at a time and goes on after the switch.  The receiver takes nothing more: the
goroutine of `mergeFrameSources` fills its channel, and then waits with one frame in hand. -/

/-- The labels of `switchRun`, whose frames all come over the relay. -/
def slowSwitchRun (size : Int) : List DirectLabel :=
  let claimed : List DirectLabel :=
    [.deliver (.metadata size), .send (.relayFrame (.ack 0)), .send (.poll .quiet)]
  let switched : List DirectLabel :=
    [.send .next, .send (.poll .ready), .deliver (.data 1 [0]), .send (.relayFrame (.ack 1)),
      .send (.poll .quiet), .send .next, .deliver (.directReady 1 2),
      .send (.relayFrame (.pathSwitch 1 2)), .send .next, .send (.poll .quiet)]
  claimed ++ List.replicate 16 (DirectLabel.send (.read 1)) ++ switched

namespace DirectTransfer

/-- The merged channel holds `m` frames, the queue none, and the others of `q - 2` are in flight. -/
structure Stalled (w : DirectTransfer) (q m : Nat) : Prop where
  reading : Reading w.transfer q
  flight : w.toReceiver.flight.length + m + 2 = q
  recvCh : w.toReceiver.recvCh = []
  held : w.held = none
  merged : w.merged.length = m

section

variable {w : DirectTransfer} {n q m : Nat}

theorem Stalled.read (h : Stalled w q m) (hroom : q < 17 + maxDirectPendingFrames) (hq : q ≤ n) :
    ∃ w', w.step (zeros n) (.send (.read 1)) = some w' ∧ Stalled w' (q + 1) m := by
  obtain ⟨t, ht, hreading, -⟩ := h.reading.read hroom hq
  have hstep : w.step (zeros n) (.send (.read 1)) = w.act (zeros n) (.send (.read 1)) := rfl
  rw [DirectTransfer.act, ht] at hstep
  refine ⟨_, hstep, hreading, ?_, h.recvCh, h.held, h.merged⟩
  have hflight := h.flight
  have hbefore := h.reading.count
  have hafter := hreading.count
  show (w.toReceiver.flight ++ t.sent.direct.drop w.transfer.sent.direct.length).length + m + 2 = q + 1
  rw [List.length_append, List.length_drop]
  omega

theorem Stalled.reads (h : Stalled w q m) (k : Nat) (hroom : q + k ≤ 17 + maxDirectPendingFrames)
    (hn : q + k ≤ n + 1) :
    ∃ w', runFrom (step (zeros n)) w (List.replicate k (.send (.read 1))) = some w' ∧
      Stalled w' (q + k) m := by
  induction k generalizing w q with
  | zero => exact ⟨w, rfl, h⟩
  | succ k ih =>
      obtain ⟨v, hv, hstalled⟩ := h.read (n := n) (by omega) (by omega)
      obtain ⟨w', hrun, hstalled'⟩ := ih hstalled (by omega) (by omega)
      refine ⟨w', ?_, ?_⟩
      · rw [List.replicate_succ, runFrom, hv]
        exact hrun
      · rwa [Nat.add_assoc, Nat.add_comm 1 k] at hstalled'

theorem Stalled.arrive (h : Stalled w q m) (hq : m + 2 < q) :
    ∃ frame rest, w.step (zeros n) (.arriveReceiver 0) =
        some { w with toReceiver := { w.toReceiver with flight := rest, recvCh := [frame] } } ∧
      rest.length + (m + 1) + 2 = q := by
  have hflight := h.flight
  obtain ⟨frame, rest, heq⟩ : ∃ frame rest, w.toReceiver.flight = frame :: rest :=
    List.exists_cons_of_length_pos (by omega)
  refine ⟨frame, rest, ?_, ?_⟩
  · simp [step, DirectQueue.arrive, heq, h.recvCh, receiveQueueFrames]
  · rw [heq, List.length_cons] at hflight
    omega

/-- One more frame goes into the merged channel. -/
theorem Stalled.merge (h : Stalled w q m) (hq : m + 2 < q) (hm : m < mergedFrames) :
    ∃ w', runFrom (step (zeros n)) w [.arriveReceiver 0, .merge, .put] = some w' ∧
      Stalled w' q (m + 1) := by
  obtain ⟨frame, rest, harrive, hlength⟩ := h.arrive (n := n) hq
  have hmerged := h.merged
  refine ⟨{ w with
      toReceiver := { w.toReceiver with flight := rest, recvCh := [] }
      held := none
      merged := w.merged ++ [frame] }, ?_, h.reading, hlength, rfl, rfl, ?_⟩
  · rw [runFrom, harrive]
    simp [runFrom, step, DirectQueue.take, h.held, hmerged, hm]
  · rw [List.length_append, hmerged]
    rfl

theorem Stalled.merges (h : Stalled w q 0) (k : Nat) (hq : k + 2 ≤ q) (hk : k ≤ mergedFrames) :
    ∃ w', runFrom (step (zeros n)) w
        (List.replicate k [.arriveReceiver 0, .merge, .put]).flatten = some w' ∧ Stalled w' q k := by
  induction k with
  | zero => exact ⟨w, rfl, h⟩
  | succ k ih =>
      obtain ⟨v, hv, hstalled⟩ := ih (by omega) (by omega)
      obtain ⟨w', hrun, hstalled'⟩ := hstalled.merge (n := n) (by omega) (by omega)
      refine ⟨w', ?_, hstalled'⟩
      rw [List.replicate_succ', List.flatten_append, runFrom_append hv, List.flatten_singleton, hrun]

/-- Then the goroutine waits, and what arrives stays in the queue. -/
theorem Stalled.hold (h : Stalled w q m) (hq : m + 2 < q) :
    ∃ w', runFrom (step (zeros n)) w [.arriveReceiver 0, .merge] = some w' ∧
      w'.toReceiver.recvCh = [] ∧ w'.toReceiver.flight.length + (m + 1) + 2 = q := by
  obtain ⟨frame, rest, harrive, hlength⟩ := h.arrive (n := n) hq
  refine ⟨{ w with
      toReceiver := { w.toReceiver with flight := rest, recvCh := [] }
      held := some frame }, ?_, rfl, hlength⟩
  rw [runFrom, harrive]
  simp [runFrom, step, DirectQueue.take, h.held]

end

end DirectTransfer

theorem slowSwitchRun_stalled :
    ∃ w, runFrom (DirectTransfer.step (zeros 547)) (.init 547 true true) (slowSwitchRun 547) = some w ∧
      w.Stalled 17 0 := by
  have h : (runFrom (DirectTransfer.step (zeros 547)) (.init 547 true true) (slowSwitchRun 547)).any
      (fun w => decide (switched w.transfer = true ∧ w.toReceiver.flight.length + 0 + 2 = 17 ∧
        w.toReceiver.recvCh = [] ∧ w.held = none ∧ w.merged.length = 0)) = true := by
    decide +kernel
  obtain ⟨w, hrun, hw⟩ := (Option.any_eq_true ..).mp h
  obtain ⟨hswitched, hflight, hrecv, hheld, hmerged⟩ := of_decide_eq_true hw
  exact ⟨w, hrun, (reading_of_switched hswitched).1, hflight, hrecv, hheld, hmerged⟩

/-- Fifteen frames are sent again and 531 are read, of which 33 are taken from the queue. -/
def slowSinkRun : List DirectLabel :=
  let round : List DirectLabel := [.arriveReceiver 0, .merge, .put]
  let last : List DirectLabel := [.arriveReceiver 0, .merge]
  slowSwitchRun 547 ++ (List.replicate 531 (DirectLabel.send (.read 1)) ++
    ((List.replicate 32 round).flatten ++
      (last ++ List.replicate 513 (DirectLabel.arriveReceiver 0))))

theorem slow_sink_fills_queue :
    ∃ w, runFrom (DirectTransfer.step (zeros 547)) (.init 547 true true) slowSinkRun = some w ∧
      w.toReceiver.full = true := by
  obtain ⟨w₁, hrun₁, h₁⟩ := slowSwitchRun_stalled
  obtain ⟨w₂, hrun₂, h₂⟩ := h₁.reads (n := 547) 531 (by decide) (by decide)
  obtain ⟨w₃, hrun₃, h₃⟩ := h₂.merges (n := 547) 32 (by decide) (by decide)
  obtain ⟨w₄, hrun₄, hrecv, hflight⟩ := h₃.hold (n := 547) (by decide)
  obtain ⟨q, hq, hfull⟩ := DirectQueue.arrivals (q := w₄.toReceiver) (n := 512)
    (by rw [hrecv]; rfl) (by omega)
  have hrun₅ : runFrom (DirectTransfer.step (zeros 547)) w₄ _ = some _ :=
    DirectTransfer.runFrom_arriveReceiver hq
  rw [List.map_replicate] at hrun₅
  refine ⟨{ w₄ with toReceiver := q }, ?_, hfull⟩
  rw [slowSinkRun, runFrom_append hrun₁, runFrom_append hrun₂, runFrom_append hrun₃,
    runFrom_append hrun₄, hrun₅]

end WebRelay
