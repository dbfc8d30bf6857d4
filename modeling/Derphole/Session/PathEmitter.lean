import Derphole.Lib.Run
import Derphole.Transport.PathState
import Mathlib.Data.List.Chain

/-!
# The path in the status lines

`transportPathEmitter` of `pkg/session/types.go`, which tells the user on which path a session runs, with
`Updates` of `pkg/transport/manager.go`, from which its watcher learns of it.

A call of the emitter is one section under its lock.  The watcher and `Flush` bring a path that they read
before they had the lock, so the manager may have moved on.  The goroutine of `Updates` reads the path
together with the channel that the next change of the manager closes; a change between two reads wakes it,
and of several changes it passes on the last.  `Complete` stops the watcher and waits for it, but only the
first of several calls does: the others find nothing to stop.

A nil emitter, on which every method does nothing, and the debug lines of `Complete` are left out.  A session
that watches has one manager and calls `Watch` once; none calls `Emit` with the status `complete`.
-/

namespace Session

open Lib Transport

namespace PathStatus

/-! ## The emitter -/

inductive State where
  | waiting
  | claimed
  | probing
  | direct
  | relay
  | complete
  deriving DecidableEq

/-- `transportPathEmitter`.  `out` is what it handed to `Status`. -/
structure PathEmitter where
  last : Path
  closed : Bool
  suppressRelayRegression : Bool
  suppressWatcherDirect : Bool
  out : List State

namespace PathEmitter

def new : PathEmitter := ⟨.pathUnknown, false, false, false, []⟩

variable (e : PathEmitter)

/-- The path is noted, then its status goes out. -/
def note (path : Path) (state : State) : PathEmitter := { e with last := path, out := e.out ++ [state] }

/-- `Handle`. -/
def handle : Path → PathEmitter
  | .pathUnknown => e
  | .pathDirect =>
      if e.closed ∨ e.last = .pathDirect then e
      else if e.suppressWatcherDirect then e
      else e.note .pathDirect .direct
  | .pathRelay =>
      if e.closed ∨ e.last = .pathRelay then e
      else if e.suppressRelayRegression ∧ e.last = .pathDirect then e
      else e.note .pathRelay .relay

/-- `Emit`. -/
def emit (state : State) : PathEmitter :=
  if e.closed then e
  else
    match state with
    | .direct => if e.last = .pathDirect then e else e.note .pathDirect .direct
    | .relay =>
        if e.suppressRelayRegression ∧ e.last = .pathDirect then e
        else if e.last = .pathRelay then e
        else e.note .pathRelay .relay
    | state => { e with out := e.out ++ [state] }

/-- What `Complete` does about the manager's path. -/
def noteFinal (path : Path) : PathEmitter :=
  if path = .pathDirect ∧ e.last ≠ .pathDirect ∧ !e.suppressWatcherDirect then e.note .pathDirect .direct else e

/-- `Complete` under the lock. -/
def finish (path : Path) : PathEmitter :=
  if e.closed then e
  else { e.noteFinal path with closed := true, out := (e.noteFinal path).out ++ [.complete] }

end PathEmitter

/-! ## Updates and the watcher -/

/-- Where the goroutine of `Updates` is.  `notify` is the channel it holds, as the count of those that were
closed before it. -/
inductive UpdatesPc where
  | snapshot
  | offer (path : Path) (notify : Nat)
  | await (notify : Nat)
  | ended
  deriving DecidableEq

/-- `Watch`: the goroutine of `Updates` with its channel of one, and the one that hands on what it takes from
there. -/
structure Watcher where
  updates : UpdatesPc
  /-- `last` of `Updates`. -/
  last : Path
  buffer : Option Path
  /-- Taken, and `Handle` not called yet. -/
  held : Option Path
  /-- `done` is open. -/
  running : Bool

/-- A session with its emitter.  `seen` are the paths the manager was on after each event, `handled` what the
watcher called `Handle` with. -/
structure Status where
  manager : Manager
  emitter : PathEmitter
  watcher : Option Watcher
  /-- `cancel` is not nil. -/
  cancel : Bool
  /-- The context of the watch is done. -/
  cancelled : Bool
  /-- Calls of `Flush` that have read the path. -/
  flushing : List Path
  /-- Calls of `Complete` that wait for `done`, and those behind `stopWatching`. -/
  stopping : Nat
  completing : Nat
  seen : List Path
  handled : List Path

inductive Label where
  | manager (event : Event)
  | emit (state : State)
  | suppressRelayRegression (on : Bool)
  | suppressWatcherDirect (on : Bool)
  | flush
  | flushHandle (i : Nat)
  | watch
  | contextDone
  | snapshot
  | offer
  | wake
  | stop
  | take
  | handle
  | done
  | complete
  | stopped
  | finish

namespace Status

def init (cfg : ManagerConfig) : Status where
  manager := .new cfg
  emitter := .new
  watcher := none
  cancel := false
  cancelled := false
  flushing := []
  stopping := 0
  completing := 0
  seen := [(Manager.new cfg).state.current]
  handled := []

variable (s : Status)

def path : Path := s.manager.state.current

/-- One round of `Updates` up to its `select`. -/
def snapshot (w : Watcher) : Watcher :=
  { w with updates := if s.path ≠ w.last then .offer s.path s.manager.stateNotify
                      else .await s.manager.stateNotify }

/-- A step of the two goroutines of `Watch`. -/
def watcherStep (w : Watcher) : Label → Option Status
  | .snapshot => if w.updates = .snapshot then some { s with watcher := some (s.snapshot w) } else none
  | .offer =>
      match w.updates, w.buffer with
      | .offer path notify, none =>
          some { s with watcher := some { w with updates := .await notify, last := path, buffer := some path } }
      | _, _ => none
  | .wake =>
      match w.updates with
      | .await notify =>
          -- the channel is closed once the manager has replaced it
          if notify ≠ s.manager.stateNotify then
            some { s with watcher := some { w with updates := .snapshot } }
          else none
      | _ => none
  | .stop =>
      if s.cancelled ∧ w.updates ≠ .snapshot ∧ w.updates ≠ .ended then
        some { s with watcher := some { w with updates := .ended } }
      else none
  | .take =>
      match w.held, w.buffer with
      | none, some path => some { s with watcher := some { w with held := some path, buffer := none } }
      | _, _ => none
  | .handle =>
      match w.held with
      | some path =>
          some { s with
            emitter := s.emitter.handle path
            watcher := some { w with held := none }
            handled := s.handled ++ [path] }
      | none => none
  | .done =>
      if w.running ∧ w.updates = .ended ∧ w.buffer = none ∧ w.held = none then
        some { s with watcher := some { w with running := false } }
      else none
  | _ => none

def step (cfg : ManagerConfig) (s : Status) : Label → Option Status
  | .manager event =>
      some { s with
        manager := s.manager.handle cfg event
        seen := s.seen ++ [(s.manager.handle cfg event).state.current] }
  | .emit state => some { s with emitter := s.emitter.emit state }
  | .suppressRelayRegression on =>
      some { s with emitter := { s.emitter with suppressRelayRegression := on } }
  | .suppressWatcherDirect on => some { s with emitter := { s.emitter with suppressWatcherDirect := on } }
  | .flush => some { s with flushing := s.flushing ++ [s.path] }
  | .flushHandle i =>
      match s.flushing[i]? with
      | some path => some { s with emitter := s.emitter.handle path, flushing := s.flushing.eraseIdx i }
      | none => none
  | .watch =>
      match s.watcher with
      | none => some { s with watcher := some ⟨.snapshot, .pathUnknown, none, none, true⟩, cancel := true }
      | some _ => none
  | .contextDone => some { s with cancelled := true }
  | .complete =>
      if s.cancel then some { s with cancel := false, cancelled := true, stopping := s.stopping + 1 }
      else some { s with completing := s.completing + 1 }
  | .stopped =>
      match s.watcher, s.stopping with
      | some w, n + 1 =>
          if w.running then none else some { s with stopping := n, completing := s.completing + 1 }
      | _, _ => none
  | .finish =>
      match s.completing with
      | n + 1 => some { s with emitter := s.emitter.finish s.path, completing := n }
      | 0 => none
  | label =>
      match s.watcher with
      | some w => s.watcherStep w label
      | none => none

end Status

/-! ## What a call of the emitter does -/

/-- The status of a path. -/
def statusOf : Path → Option State
  | .pathUnknown => none
  | .pathRelay => some .relay
  | .pathDirect => some .direct

def State.isPath : State → Bool
  | .direct => true
  | .relay => true
  | _ => false

theorem statusOf_inj {p q : Path} {state : State} (hp : statusOf p = some state) (hq : statusOf q = some state) :
    p = q := by
  cases p <;> cases q <;> cases hp <;> first | rfl | cases hq

theorem isPath_of_statusOf {p : Path} {state : State} (h : statusOf p = some state) : state.isPath = true := by
  cases p <;> cases h <;> rfl

theorem ne_complete_of_statusOf {p : Path} {state : State} (h : statusOf p = some state) : state ≠ .complete := by
  rintro rfl
  cases p <;> cases h

namespace PathEmitter

variable {e : PathEmitter}

/-- A path that goes out is news, and the switches let it through. -/
structure Notes (e : PathEmitter) (path : Path) (state : State) : Prop where
  status : statusOf path = some state
  opened : e.closed = false
  news : path ≠ e.last
  regression : path = .pathRelay → e.suppressRelayRegression = true → e.last ≠ .pathDirect

theorem handle_cases (e : PathEmitter) (path : Path) :
    e.handle path = e ∨ ∃ state, Notes e path state ∧ (path = .pathDirect → e.suppressWatcherDirect = false) ∧
      e.handle path = e.note path state := by
  cases path with
  | pathUnknown => exact .inl rfl
  | pathDirect =>
    simp only [handle]
    split
    · exact .inl rfl
    next hopen =>
      rw [not_or, Bool.not_eq_true] at hopen
      split
      · exact .inl rfl
      next hwatch =>
        exact .inr ⟨.direct, ⟨rfl, hopen.1, Ne.symm hopen.2, nofun⟩, fun _ => Bool.not_eq_true _ ▸ hwatch, rfl⟩
  | pathRelay =>
    simp only [handle]
    split
    · exact .inl rfl
    next hopen =>
      rw [not_or, Bool.not_eq_true] at hopen
      split
      · exact .inl rfl
      next hregression =>
        exact .inr ⟨.relay, ⟨rfl, hopen.1, Ne.symm hopen.2, fun _ hs hl => hregression ⟨hs, hl⟩⟩, nofun, rfl⟩

theorem emit_cases (e : PathEmitter) (state : State) :
    e.emit state = e ∨ (∃ path, Notes e path state ∧ e.emit state = e.note path state) ∨
      e.closed = false ∧ state.isPath = false ∧ e.emit state = { e with out := e.out ++ [state] } := by
  unfold emit
  split
  · exact .inl rfl
  next hopen =>
    rw [Bool.not_eq_true] at hopen
    cases state with
    | direct =>
      dsimp only
      split
      · exact .inl rfl
      next hlast => exact .inr (.inl ⟨.pathDirect, ⟨rfl, hopen, Ne.symm hlast, nofun⟩, rfl⟩)
    | relay =>
      dsimp only
      split
      · exact .inl rfl
      next hregression =>
        split
        · exact .inl rfl
        next hlast =>
          exact .inr (.inl ⟨.pathRelay, ⟨rfl, hopen, Ne.symm hlast, fun _ hs hl => hregression ⟨hs, hl⟩⟩, rfl⟩)
    | waiting => exact .inr (.inr ⟨hopen, rfl, rfl⟩)
    | claimed => exact .inr (.inr ⟨hopen, rfl, rfl⟩)
    | probing => exact .inr (.inr ⟨hopen, rfl, rfl⟩)
    | complete => exact .inr (.inr ⟨hopen, rfl, rfl⟩)

theorem noteFinal_cases (hopen : e.closed = false) (path : Path) :
    e.noteFinal path = e ∨ path = .pathDirect ∧ e.suppressWatcherDirect = false ∧ Notes e .pathDirect .direct ∧
      e.noteFinal path = e.note .pathDirect .direct := by
  unfold noteFinal
  split
  next h =>
    obtain ⟨hpath, hlast, hwatch⟩ := h
    exact .inr ⟨hpath, by simpa using hwatch, ⟨rfl, hopen, Ne.symm hlast, nofun⟩, rfl⟩
  · exact .inl rfl

/-- What every call keeps: path statuses that follow one another differ, `last` is the one that went out last,
and the session is complete once, at the end. -/
structure Ok (e : PathEmitter) : Prop where
  changes : (e.out.filter State.isPath).IsChain (· ≠ ·)
  last : (e.out.filter State.isPath).getLast? = statusOf e.last
  opened : e.closed = false → .complete ∉ e.out
  closed : e.closed = true → ∃ before, e.out = before ++ [.complete] ∧ .complete ∉ before

theorem Ok.new : Ok new := ⟨.nil, rfl, fun _ => List.not_mem_nil, nofun⟩

/-- Nothing follows the end. -/
theorem Ok.complete_last (h : Ok e) {before after : List State} (hout : e.out = before ++ .complete :: after) :
    .complete ∉ before ∧ after = [] := by
  have hmem : State.complete ∈ e.out := by
    rw [hout]
    exact List.mem_append_right _ List.mem_cons_self
  have hclosed : e.closed = true := by
    by_contra hopen
    exact h.opened (Bool.not_eq_true _ ▸ hopen) hmem
  obtain ⟨lines, heq, hlines⟩ := h.closed hclosed
  rw [heq] at hout
  obtain rfl | ⟨rest, last, rfl⟩ := after.eq_nil_or_concat
  · exact ⟨(List.append_inj_left' hout rfl) ▸ hlines, rfl⟩
  · rw [List.concat_eq_append, ← List.cons_append, ← List.append_assoc] at hout
    refine absurd ?_ hlines
    rw [List.append_inj_left' hout rfl]
    exact List.mem_append_right _ List.mem_cons_self

theorem Ok.note (h : Ok e) {path : Path} {state : State} (hn : Notes e path state) : Ok (e.note path state) := by
  have hfilter : (e.out ++ [state]).filter State.isPath = e.out.filter State.isPath ++ [state] := by
    rw [List.filter_append, List.filter_cons_of_pos (isPath_of_statusOf hn.status), List.filter_nil]
  refine ⟨?_, ?_, ?_, ?_⟩
  · show ((e.out ++ [state]).filter State.isPath).IsChain (· ≠ ·)
    rw [hfilter, List.isChain_append]
    refine ⟨h.changes, .singleton _, ?_⟩
    rintro x hx y hy rfl
    rw [h.last] at hx
    obtain rfl : state = x := by simpa using hy
    exact hn.news (statusOf_inj hn.status hx)
  · show ((e.out ++ [state]).filter State.isPath).getLast? = statusOf path
    rw [hfilter, List.getLast?_append, hn.status]
    rfl
  · intro _ hmem
    obtain hmem | hmem := List.mem_append.mp hmem
    · exact h.opened hn.opened hmem
    · exact ne_complete_of_statusOf hn.status (List.mem_singleton.mp hmem).symm
  · intro hclosed
    rw [show (e.note path state).closed = e.closed from rfl, hn.opened] at hclosed
    cases hclosed

theorem Ok.switch (h : Ok e) {e' : PathEmitter} (hout : e'.out = e.out) (hlast : e'.last = e.last)
    (hclosed : e'.closed = e.closed) : Ok e' := by
  refine ⟨?_, ?_, ?_, ?_⟩
  · rw [hout]
    exact h.changes
  · rw [hout, hlast]
    exact h.last
  · rw [hout, hclosed]
    exact h.opened
  · rw [hout, hclosed]
    exact h.closed

theorem Ok.handle (h : Ok e) (path : Path) : Ok (e.handle path) := by
  obtain heq | ⟨state, hn, -, heq⟩ := e.handle_cases path
  · rwa [heq]
  · rw [heq]
    exact h.note hn

theorem filter_other {state : State} (hstate : state.isPath = false) :
    (e.out ++ [state]).filter State.isPath = e.out.filter State.isPath := by
  rw [List.filter_append, List.filter_cons_of_neg (by rw [hstate]; exact Bool.false_ne_true), List.filter_nil,
    List.append_nil]

theorem Ok.emit (h : Ok e) {state : State} (hstate : state ≠ .complete) : Ok (e.emit state) := by
  obtain heq | ⟨path, hn, heq⟩ | ⟨hopen, hother, heq⟩ := e.emit_cases state
  · rwa [heq]
  · rw [heq]
    exact h.note hn
  · rw [heq]
    refine ⟨?_, ?_, ?_, ?_⟩
    · rw [filter_other hother]
      exact h.changes
    · rw [filter_other hother]
      exact h.last
    · intro _ hmem
      obtain hmem | hmem := List.mem_append.mp hmem
      · exact h.opened hopen hmem
      · exact hstate (List.mem_singleton.mp hmem).symm
    · intro hclosed
      rw [show _ = e.closed from rfl, hopen] at hclosed
      cases hclosed

theorem Ok.finish (h : Ok e) (path : Path) : Ok (e.finish path) := by
  unfold PathEmitter.finish
  split
  · exact h
  next hopen =>
    rw [Bool.not_eq_true] at hopen
    have hfinal : Ok (e.noteFinal path) ∧ (e.noteFinal path).closed = false := by
      obtain heq | ⟨-, -, hn, heq⟩ := noteFinal_cases hopen path
      · rw [heq]
        exact ⟨h, hopen⟩
      · rw [heq]
        exact ⟨h.note hn, hopen⟩
    obtain ⟨hok, hclosed⟩ := hfinal
    refine ⟨?_, ?_, nofun, fun _ => ⟨_, rfl, hok.opened hclosed⟩⟩
    · rw [filter_other rfl]
      exact hok.changes
    · rw [filter_other rfl]
      exact hok.last

end PathEmitter

/-! ## The manager's notice -/

/-- A change of the path is announced. -/
theorem update_notice (m : Manager) {r : PathState × Bool} (h : r.2 = false → r.1.current = m.state.current) :
    (m.update r).stateNotify = m.stateNotify ∧ (m.update r).state.current = m.state.current ∨
      m.stateNotify < (m.update r).stateNotify := by
  cases hchanged : r.2 with
  | false => exact .inl ⟨by simp [Manager.update, hchanged], h hchanged⟩
  | true => exact .inr (by simp [Manager.update, hchanged])

theorem noteRelay_notice {p : PathState} (h : p.noteRelay.2 = false) : p.noteRelay.1.current = p.current := by
  simp only [PathState.noteRelay, decide_eq_false_iff_not, not_not] at h
  exact h.symm

theorem noteCandidates_notice {p : PathState} {candidates : List (Option UDPAddr)}
    (h : (p.noteCandidates candidates).2 = false) : (p.noteCandidates candidates).1.current = p.current := by
  unfold PathState.noteCandidates at h ⊢
  dsimp only at h ⊢
  split
  next hlost =>
    rw [if_pos hlost, Bool.or_eq_false_iff] at h
    exact noteRelay_notice h.2
  · rfl

theorem noteDirect_notice {p : PathState} {now : Int} {addr : Option UDPAddr}
    (h : (p.noteDirect now addr).2 = false) : (p.noteDirect now addr).1.current = p.current := by
  cases addr with
  | none => rfl
  | some addr =>
    simp only [PathState.noteDirect] at h ⊢
    split
    · rfl
    next hconfigured =>
      rw [if_neg hconfigured] at h
      split
      · rfl
      next candidate hlookup =>
        rw [hlookup] at h
        dsimp only at h
        split
        · rfl
        next hkeeps =>
          rw [if_neg hkeeps, decide_eq_false_iff_not, not_or, not_not] at h
          exact h.1.symm

theorem ifCurrent_notice (m : Manager) (generation : UInt64) {p : PathState}
    (h : p.current = m.state.current) :
    (m.ifCurrent generation p).stateNotify = m.stateNotify ∧
      (m.ifCurrent generation p).state.current = m.state.current := by
  unfold Manager.ifCurrent
  split
  · exact ⟨rfl, rfl⟩
  · exact ⟨rfl, h⟩

/-- An event that closes no channel leaves the path alone. -/
theorem handle_notice (cfg : ManagerConfig) (m : Manager) (event : Event) :
    (m.handle cfg event).stateNotify = m.stateNotify ∧
        (m.handle cfg event).state.current = m.state.current ∨
      m.stateNotify < (m.handle cfg event).stateNotify := by
  have hrelay : m.noteRelayOnly.stateNotify = m.stateNotify ∧ m.noteRelayOnly.state.current = m.state.current ∨
      m.stateNotify < m.noteRelayOnly.stateNotify :=
    update_notice { m with discoveryGen := m.discoveryGen + 1 } noteRelay_notice
  cases event with
  | candidates addrs => exact update_notice m noteCandidates_notice
  | probeSent generation now addr token =>
    exact .inl (ifCurrent_notice m generation (m.state.noteProbeSent_current now addr token))
  | probeFailed generation addr token =>
    exact .inl (ifCurrent_notice m generation (m.state.forgetProbe_current addr token))
  | ack now addr token =>
    have hcurrent : (m.state.consumeProbe addr cfg.discoveryInterval now token).1.current = m.state.current := by
      obtain ⟨latency, pending, hstate, -⟩ := m.state.consumeProbe_spec addr cfg.discoveryInterval now token
      rw [hstate]
    simp only [Manager.handle, Manager.tryPromoteDirect]
    split
    · exact update_notice m fun h => (noteDirect_notice h).trans hcurrent
    · exact .inl ⟨rfl, hcurrent⟩
  | activity now addr => exact .inl ⟨rfl, (m.state.noteDirectActivity_fields now addr).2⟩
  | demote now =>
    simp only [Manager.handle, Manager.demoteStaleDirectLocked]
    split
    · exact .inl ⟨rfl, rfl⟩
    · exact hrelay
  | relayOnly => exact hrelay

/-- A path that `Updates` has read and not put in its channel yet. -/
def Watcher.offered (w : Watcher) : List Path :=
  match w.updates with
  | .offer path _ => [path]
  | _ => []

namespace Status

variable {cfg : ManagerConfig} {s t : Status} {w : Watcher} {label : Label}

/-! ## What a step does to the emitter -/

/-- The calls of the emitter, with where the path they bring comes from. -/
inductive Call (s : Status) : Label → PathEmitter → Prop where
  | none (label : Label) : Call s label s.emitter
  | flush (i : Nat) {path : Path} (h : path ∈ s.flushing) : Call s (.flushHandle i) (s.emitter.handle path)
  | watch {w : Watcher} {path : Path} (hw : s.watcher = some w) (h : w.held = some path) :
      Call s .handle (s.emitter.handle path)
  | emit (state : State) : Call s (.emit state) (s.emitter.emit state)
  | regression (on : Bool) :
      Call s (.suppressRelayRegression on) { s.emitter with suppressRelayRegression := on }
  | direct (on : Bool) : Call s (.suppressWatcherDirect on) { s.emitter with suppressWatcherDirect := on }
  | finish : Call s .finish (s.emitter.finish s.path)

theorem watcherStep_call (hw : s.watcher = some w) (h : s.watcherStep w label = some t) :
    Call s label t.emitter ∧ t.seen = s.seen := by
  cases label <;> simp only [watcherStep] at h
  case snapshot =>
    split at h
    · cases h
      exact ⟨.none _, rfl⟩
    · cases h
  case offer =>
    split at h
    · cases h
      exact ⟨.none _, rfl⟩
    · cases h
  case wake =>
    split at h
    · split at h
      · cases h
        exact ⟨.none _, rfl⟩
      · cases h
    · cases h
  case stop =>
    split at h
    · cases h
      exact ⟨.none _, rfl⟩
    · cases h
  case take =>
    split at h
    · cases h
      exact ⟨.none _, rfl⟩
    · cases h
  case handle =>
    split at h
    next path hheld =>
      cases h
      exact ⟨.watch hw hheld, rfl⟩
    · cases h
  case done =>
    split at h
    · cases h
      exact ⟨.none _, rfl⟩
    · cases h
  all_goals cases h

theorem step_call (h : step cfg s label = some t) : Call s label t.emitter ∧ s.seen <+: t.seen := by
  have hwatcher : ∀ {label : Label}, (match s.watcher with
      | some w => s.watcherStep w label
      | none => none) = some t → Call s label t.emitter ∧ s.seen <+: t.seen := by
    intro label h
    split at h
    next w hw =>
      obtain ⟨hcall, hseen⟩ := watcherStep_call hw h
      exact ⟨hcall, hseen ▸ List.prefix_rfl⟩
    · cases h
  cases label with
  | manager event =>
    cases h
    exact ⟨.none _, List.prefix_append _ _⟩
  | emit state =>
    cases h
    exact ⟨.emit state, List.prefix_rfl⟩
  | suppressRelayRegression on =>
    cases h
    exact ⟨.regression on, List.prefix_rfl⟩
  | suppressWatcherDirect on =>
    cases h
    exact ⟨.direct on, List.prefix_rfl⟩
  | flush =>
    cases h
    exact ⟨.none _, List.prefix_rfl⟩
  | flushHandle i =>
    simp only [step] at h
    split at h
    next path hpath =>
      cases h
      exact ⟨.flush i (List.mem_of_getElem? hpath), List.prefix_rfl⟩
    · cases h
  | watch =>
    simp only [step] at h
    split at h
    · cases h
      exact ⟨.none _, List.prefix_rfl⟩
    · cases h
  | contextDone =>
    cases h
    exact ⟨.none _, List.prefix_rfl⟩
  | complete =>
    simp only [step] at h
    split at h
    · cases h
      exact ⟨.none _, List.prefix_rfl⟩
    · cases h
      exact ⟨.none _, List.prefix_rfl⟩
  | stopped =>
    simp only [step] at h
    split at h
    · split at h
      · cases h
      · cases h
        exact ⟨.none _, List.prefix_rfl⟩
    · cases h
  | finish =>
    simp only [step] at h
    split at h
    · cases h
      exact ⟨.finish, List.prefix_rfl⟩
    · cases h
  | snapshot => exact hwatcher h
  | offer => exact hwatcher h
  | wake => exact hwatcher h
  | stop => exact hwatcher h
  | take => exact hwatcher h
  | handle => exact hwatcher h
  | done => exact hwatcher h

/-! ## What the watcher is handed -/

/-- A list inside another that ends elsewhere than the other has room for its end. -/
theorem concat_sublist {α : Type} {xs ys : List α} {p : α} (h : xs.Sublist ys) (hy : ys.getLast? = some p)
    (hx : xs.getLast? ≠ some p) : (xs ++ [p]).Sublist ys := by
  obtain ⟨zs, rfl⟩ := List.getLast?_eq_some_iff.mp hy
  obtain ⟨l₁, l₂, rfl, h₁, h₂⟩ := List.sublist_append_iff.mp h
  obtain rfl | rfl := List.sublist_singleton.mp h₂
  · rw [List.append_nil]
    exact h₁.append (.refl _)
  · exact absurd (by simp) hx

/-- What came off the channel or is still in it. -/
def passed (s : Status) (w : Watcher) : List Path := s.handled ++ (w.held.toList ++ w.buffer.toList)

/-- The watcher gets the paths of the manager in their order, none twice in a row.  While no channel was closed
since the last read, the path has not changed since. -/
structure WatcherOk (s : Status) (w : Watcher) : Prop where
  inOrder : (s.passed w ++ w.offered).Sublist s.seen
  changes : (s.passed w ++ w.offered).IsChain (· ≠ ·)
  last : (s.passed w).getLast?.getD .pathUnknown = w.last
  offer : ∀ path notify, w.updates = .offer path notify →
    notify ≤ s.manager.stateNotify ∧ (notify = s.manager.stateNotify → path = s.path)
  await : ∀ notify, w.updates = .await notify →
    notify ≤ s.manager.stateNotify ∧ (notify = s.manager.stateNotify → w.last = s.path)

/-- What every step keeps of the manager and its watcher. -/
structure Watched (s : Status) : Prop where
  seen : s.seen.getLast? = some s.path
  flushing : ∀ path ∈ s.flushing, path ∈ s.seen
  unwatched : s.watcher = none → s.handled = []
  watcher : ∀ w, s.watcher = some w → s.WatcherOk w

theorem Watched.path_mem (h : s.Watched) : s.path ∈ s.seen := List.mem_of_getLast? h.seen

theorem Watched.held_mem (h : s.Watched) (hw : s.watcher = some w) {path : Path} (hheld : w.held = some path) :
    path ∈ s.seen := by
  refine (h.watcher w hw).inOrder.mem (List.mem_append_left _ (List.mem_append_right _ ?_))
  rw [hheld]
  exact List.mem_append_left _ (List.mem_singleton_self path)

theorem Watched.init (cfg : ManagerConfig) : (init cfg).Watched := ⟨rfl, nofun, fun _ => rfl, nofun⟩

/-- A step that leaves the manager and the watcher alone. -/
theorem Watched.frame (h : s.Watched) (hmanager : t.manager = s.manager) (hseen : t.seen = s.seen)
    (hhandled : t.handled = s.handled) (hwatcher : t.watcher = s.watcher)
    (hflushing : ∀ path ∈ t.flushing, path ∈ s.seen) : t.Watched := by
  cases t
  cases hmanager
  cases hseen
  cases hhandled
  cases hwatcher
  exact ⟨h.seen, hflushing, h.unwatched, fun w hw =>
    ⟨(h.watcher w hw).inOrder, (h.watcher w hw).changes, (h.watcher w hw).last, (h.watcher w hw).offer,
      (h.watcher w hw).await⟩⟩

/-- A step of the watcher that hands nothing to the emitter. -/
theorem Watched.move (h : s.Watched) {w' : Watcher} (hw' : s.WatcherOk w') :
    { s with watcher := some w' }.Watched := by
  refine ⟨h.seen, h.flushing, nofun, fun w hw => ?_⟩
  cases hw
  exact ⟨hw'.inOrder, hw'.changes, hw'.last, hw'.offer, hw'.await⟩

theorem WatcherOk.managed (hok : s.WatcherOk w) (cfg : ManagerConfig) (event : Event) :
    WatcherOk { s with
      manager := s.manager.handle cfg event
      seen := s.seen ++ [(s.manager.handle cfg event).state.current] } w := by
  have hkept : ∀ notify path, notify ≤ s.manager.stateNotify ∧ (notify = s.manager.stateNotify → path = s.path) →
      notify ≤ (s.manager.handle cfg event).stateNotify ∧
        (notify = (s.manager.handle cfg event).stateNotify → path = (s.manager.handle cfg event).state.current) := by
    intro notify path ⟨hle, hcurrent⟩
    obtain ⟨hnotify, hpath⟩ | hlt := handle_notice cfg s.manager event
    · rw [hnotify, hpath]
      exact ⟨hle, hcurrent⟩
    · exact ⟨by omega, by omega⟩
  exact ⟨hok.inOrder.trans (List.sublist_append_left _ _), hok.changes, hok.last,
    fun path notify hu => hkept notify path (hok.offer path notify hu),
    fun notify hu => hkept notify w.last (hok.await notify hu)⟩

theorem Watched.managed (h : s.Watched) (cfg : ManagerConfig) (event : Event) :
    Watched { s with
      manager := s.manager.handle cfg event
      seen := s.seen ++ [(s.manager.handle cfg event).state.current] } :=
  ⟨List.getLast?_concat, fun path hp => List.mem_append_left _ (h.flushing path hp), h.unwatched,
    fun w hw => (h.watcher w hw).managed cfg event⟩

/-- The offer is withdrawn, or there was none. -/
theorem WatcherOk.quiet (hok : s.WatcherOk w) {updates : UpdatesPc}
    (hupdates : updates = .snapshot ∨ updates = .ended) : s.WatcherOk { w with updates := updates } := by
  have hoffered : ({ w with updates := updates } : Watcher).offered = [] := by
    obtain rfl | rfl := hupdates
    · rfl
    · rfl
  refine ⟨?_, ?_, hok.last, ?_, ?_⟩
  · rw [hoffered, List.append_nil]
    exact (List.sublist_append_left _ _).trans hok.inOrder
  · rw [hoffered, List.append_nil]
    exact hok.changes.left_of_append
  · rintro path notify rfl
    obtain hu | hu := hupdates
    · cases hu
    · cases hu
  · rintro notify rfl
    obtain hu | hu := hupdates
    · cases hu
    · cases hu

theorem WatcherOk.snapshot (hok : s.WatcherOk w) (hw : w.updates = .snapshot)
    (hseen : s.seen.getLast? = some s.path) : s.WatcherOk (s.snapshot w) := by
  have hoffered : w.offered = [] := by rw [Watcher.offered, hw]
  have hinOrder := hok.inOrder
  have hchanges := hok.changes
  rw [hoffered, List.append_nil] at hinOrder hchanges
  unfold Status.snapshot
  split
  next hnew =>
    have hend : (s.passed w).getLast? ≠ some s.path := by
      intro hlast
      have := hok.last
      rw [hlast] at this
      exact hnew this
    refine ⟨concat_sublist hinOrder hseen hend, ?_, hok.last, ?_, nofun⟩
    · refine List.isChain_append.mpr ⟨hchanges, .singleton _, ?_⟩
      rintro x hx y hy rfl
      obtain rfl : s.path = x := by simpa [Watcher.offered] using hy
      exact hend hx
    · rintro path notify hu
      cases hu
      exact ⟨le_rfl, fun _ => rfl⟩
  next hsame =>
    have hlast : s.path = w.last := not_not.mp hsame
    refine ⟨(List.append_nil _).symm ▸ hinOrder, (List.append_nil _).symm ▸ hchanges, hok.last, nofun, ?_⟩
    rintro notify hu
    cases hu
    exact ⟨le_rfl, fun _ => hlast.symm⟩

theorem WatcherOk.offers (hok : s.WatcherOk w) {path : Path} {notify : Nat} (hu : w.updates = .offer path notify)
    (hbuffer : w.buffer = none) :
    s.WatcherOk { w with updates := .await notify, last := path, buffer := some path } := by
  have hoffered : w.offered = [path] := by rw [Watcher.offered, hu]
  have hpassed : s.passed { w with updates := .await notify, last := path, buffer := some path } =
      s.passed w ++ w.offered := by
    rw [hoffered, passed, passed, hbuffer]
    simp
  refine ⟨?_, ?_, ?_, nofun, ?_⟩
  · show (s.passed _ ++ []).Sublist s.seen
    rw [List.append_nil, hpassed]
    exact hok.inOrder
  · show (s.passed _ ++ []).IsChain (· ≠ ·)
    rw [List.append_nil, hpassed]
    exact hok.changes
  · rw [hpassed, hoffered, List.getLast?_concat]
    rfl
  · rintro notify' hu'
    cases hu'
    exact hok.offer path notify hu

/-- A path moves from the channel to the watcher, or from there to the emitter. -/
theorem WatcherOk.shift (hok : s.WatcherOk w) {w' : Watcher} (hmanager : t.manager = s.manager)
    (hseen : t.seen = s.seen) (hpassed : t.passed w' = s.passed w) (hupdates : w'.updates = w.updates)
    (hlast : w'.last = w.last) : t.WatcherOk w' := by
  have hoffered : w'.offered = w.offered := by rw [Watcher.offered, Watcher.offered, hupdates]
  have hpath : t.path = s.path := by rw [path, path, hmanager]
  refine ⟨?_, ?_, ?_, ?_, ?_⟩
  · rw [hpassed, hoffered, hseen]
    exact hok.inOrder
  · rw [hpassed, hoffered]
    exact hok.changes
  · rw [hpassed, hlast]
    exact hok.last
  · rw [hupdates, hmanager, hpath]
    exact hok.offer
  · rw [hupdates, hmanager, hpath, hlast]
    exact hok.await

theorem Watched.watcherStep (h : s.Watched) (hw : s.watcher = some w) (hstep : s.watcherStep w label = some t) :
    t.Watched := by
  have hok := h.watcher w hw
  cases label <;> simp only [Status.watcherStep] at hstep
  case snapshot =>
    split at hstep
    next hu =>
      cases hstep
      exact h.move (hok.snapshot hu h.seen)
    · cases hstep
  case offer =>
    split at hstep
    next path notify hu hbuffer =>
      cases hstep
      exact h.move (hok.offers hu hbuffer)
    · cases hstep
  case wake =>
    split at hstep
    · split at hstep
      · cases hstep
        exact h.move (hok.quiet (.inl rfl))
      · cases hstep
    · cases hstep
  case stop =>
    split at hstep
    · cases hstep
      exact h.move (hok.quiet (.inr rfl))
    · cases hstep
  case take =>
    split at hstep
    next path hheld hbuffer =>
      cases hstep
      refine h.move (hok.shift rfl rfl ?_ rfl rfl)
      rw [passed, passed, hheld, hbuffer]
      rfl
    · cases hstep
  case handle =>
    split at hstep
    next path hheld =>
      cases hstep
      refine ⟨h.seen, h.flushing, nofun, fun w' hw' => ?_⟩
      cases hw'
      refine hok.shift rfl rfl ?_ rfl rfl
      rw [passed, passed, hheld]
      simp
    · cases hstep
  case done =>
    split at hstep
    · cases hstep
      exact h.move (hok.shift rfl rfl rfl rfl rfl)
    · cases hstep
  all_goals cases hstep

theorem Watched.step (h : s.Watched) (hstep : step cfg s label = some t) : t.Watched := by
  have hwatcher : ∀ {label : Label}, (match s.watcher with
      | some w => s.watcherStep w label
      | none => none) = some t → t.Watched := by
    intro label hstep
    split at hstep
    next w hw => exact h.watcherStep hw hstep
    · cases hstep
  have hframe : t.manager = s.manager → t.seen = s.seen → t.handled = s.handled → t.watcher = s.watcher →
      t.flushing = s.flushing → t.Watched := fun hm hs hh hw hf => h.frame hm hs hh hw (hf ▸ h.flushing)
  cases label with
  | manager event =>
    cases hstep
    exact h.managed cfg event
  | emit state =>
    cases hstep
    exact hframe rfl rfl rfl rfl rfl
  | suppressRelayRegression on =>
    cases hstep
    exact hframe rfl rfl rfl rfl rfl
  | suppressWatcherDirect on =>
    cases hstep
    exact hframe rfl rfl rfl rfl rfl
  | flush =>
    cases hstep
    refine h.frame rfl rfl rfl rfl fun path hp => ?_
    obtain hp | hp := List.mem_append.mp hp
    · exact h.flushing path hp
    · exact List.mem_singleton.mp hp ▸ h.path_mem
  | flushHandle i =>
    simp only [Status.step] at hstep
    split at hstep
    · cases hstep
      exact h.frame rfl rfl rfl rfl fun path hp => h.flushing path (List.mem_of_mem_eraseIdx hp)
    · cases hstep
  | watch =>
    simp only [Status.step] at hstep
    split at hstep
    next hnone =>
      cases hstep
      have hhandled := h.unwatched hnone
      refine ⟨h.seen, h.flushing, nofun, fun w hw => ?_⟩
      cases hw
      have hpassed : passed { s with watcher := some ⟨.snapshot, .pathUnknown, none, none, true⟩, cancel := true }
          ⟨.snapshot, .pathUnknown, none, none, true⟩ = [] := by
        rw [passed, hhandled]
        rfl
      exact ⟨hpassed ▸ List.nil_sublist _, hpassed ▸ .nil, hpassed ▸ rfl, nofun, nofun⟩
    · cases hstep
  | contextDone =>
    cases hstep
    exact hframe rfl rfl rfl rfl rfl
  | complete =>
    simp only [Status.step] at hstep
    split at hstep
    · cases hstep
      exact hframe rfl rfl rfl rfl rfl
    · cases hstep
      exact hframe rfl rfl rfl rfl rfl
  | stopped =>
    simp only [Status.step] at hstep
    split at hstep
    · split at hstep
      · cases hstep
      · cases hstep
        exact hframe rfl rfl rfl rfl rfl
    · cases hstep
  | finish =>
    simp only [Status.step] at hstep
    split at hstep
    · cases hstep
      exact hframe rfl rfl rfl rfl rfl
    · cases hstep
  | snapshot => exact hwatcher hstep
  | offer => exact hwatcher hstep
  | wake => exact hwatcher hstep
  | stop => exact hwatcher hstep
  | take => exact hwatcher hstep
  | handle => exact hwatcher hstep
  | done => exact hwatcher hstep

/-! ## What goes out -/

/-- The lines are in order, and a path they name was asked for or was the manager's. -/
structure Told (labels : List Label) (s : Status) : Prop where
  emitter : s.emitter.Ok
  said : ∀ path state, statusOf path = some state → state ∈ s.emitter.out →
    .emit state ∈ labels ∨ path ∈ s.seen

theorem Told.init (labels : List Label) (cfg : ManagerConfig) : Told labels (init cfg) :=
  ⟨.new, fun _ _ _ hmem => absurd hmem List.not_mem_nil⟩

/-- A status that goes out is the one of the path that the call notes. -/
theorem mem_note {e : PathEmitter} {path path' : Path} {state state' : State}
    (hn : e.Notes path state) (h : state' ∈ (e.note path state).out) (hstatus : statusOf path' = some state') :
    state' ∈ e.out ∨ state' = state ∧ path' = path := by
  obtain h | h := List.mem_append.mp h
  · exact .inl h
  · obtain rfl := List.mem_singleton.mp h
    exact .inr ⟨rfl, statusOf_inj hstatus hn.status⟩

theorem said_handle {e : PathEmitter} {path path' : Path} {state : State} (hstatus : statusOf path' = some state)
    (h : state ∈ (e.handle path).out) : state ∈ e.out ∨ path' = path := by
  obtain heq | ⟨_, hn, -, heq⟩ := e.handle_cases path
  · exact .inl (heq ▸ h)
  · rw [heq] at h
    exact (mem_note hn h hstatus).imp_right And.right

theorem said_emit {e : PathEmitter} {path : Path} {state state' : State} (hstatus : statusOf path = some state)
    (h : state ∈ (e.emit state').out) : state ∈ e.out ∨ state = state' := by
  obtain heq | ⟨_, hn, heq⟩ | ⟨-, -, heq⟩ := e.emit_cases state'
  · exact .inl (heq ▸ h)
  · rw [heq] at h
    exact (mem_note hn h hstatus).imp_right And.left
  · rw [heq] at h
    exact (List.mem_append.mp h).imp_right List.mem_singleton.mp

theorem said_finish {e : PathEmitter} {path path' : Path} {state : State} (hstatus : statusOf path' = some state)
    (h : state ∈ (e.finish path).out) : state ∈ e.out ∨ path' = path := by
  unfold PathEmitter.finish at h
  split at h
  · exact .inl h
  next hopen =>
    obtain h | h := List.mem_append.mp h
    · obtain heq | ⟨hpath, -, hn, heq⟩ := PathEmitter.noteFinal_cases (Bool.not_eq_true _ ▸ hopen) path
      · exact .inl (heq ▸ h)
      · rw [heq] at h
        exact (mem_note hn h hstatus).imp_right fun hsame => hsame.2.trans hpath.symm
    · exact absurd (List.mem_singleton.mp h) (ne_complete_of_statusOf hstatus)

theorem Told.step {labels : List Label} (h : Told labels s) (hwatched : s.Watched) (hlabel : label ∈ labels)
    (hcomplete : label ≠ .emit .complete) (hstep : step cfg s label = some t) : Told labels t := by
  obtain ⟨hcall, hseen⟩ := step_call hstep
  have hkeep : ∀ {path state}, statusOf path = some state → state ∈ s.emitter.out →
      .emit state ∈ labels ∨ path ∈ t.seen :=
    fun hstatus hmem => (h.said _ _ hstatus hmem).imp_right fun hp => hseen.subset hp
  have hfrom : ∀ {path}, path ∈ s.seen → ∀ path' state, statusOf path' = some state →
      state ∈ s.emitter.out ∨ path' = path → .emit state ∈ labels ∨ path' ∈ t.seen := by
    rintro path hpath path' state hstatus (hmem | rfl)
    · exact hkeep hstatus hmem
    · exact .inr (hseen.subset hpath)
  suffices hresult : t.emitter.Ok ∧ ∀ path state, statusOf path = some state → state ∈ t.emitter.out →
      .emit state ∈ labels ∨ path ∈ t.seen from ⟨hresult.1, hresult.2⟩
  generalize t.emitter = e at hcall ⊢
  cases hcall with
  | none => exact ⟨h.emitter, fun _ _ => hkeep⟩
  | flush i hpath =>
    exact ⟨h.emitter.handle _, fun path' state hstatus hmem =>
      hfrom (hwatched.flushing _ hpath) path' state hstatus (said_handle hstatus hmem)⟩
  | watch hw hheld =>
    exact ⟨h.emitter.handle _, fun path' state hstatus hmem =>
      hfrom (hwatched.held_mem hw hheld) path' state hstatus (said_handle hstatus hmem)⟩
  | emit state =>
    refine ⟨h.emitter.emit fun hstate => hcomplete (hstate ▸ rfl), fun path state' hstatus hmem => ?_⟩
    obtain hmem | rfl := said_emit hstatus hmem
    · exact hkeep hstatus hmem
    · exact .inl hlabel
  | regression on => exact ⟨h.emitter.switch rfl rfl rfl, fun _ _ => hkeep⟩
  | direct on => exact ⟨h.emitter.switch rfl rfl rfl, fun _ _ => hkeep⟩
  | finish =>
    exact ⟨h.emitter.finish _, fun path' state hstatus hmem =>
      hfrom hwatched.path_mem path' state hstatus (said_finish hstatus hmem)⟩

/-! ## While a switch is on -/

/-- A status goes out, and it is not the one that is held back. -/
theorem lines_concat {out out' : List State} {held state : State}
    (h : ∃ lines, out' = out ++ lines ∧ held ∉ lines) (hstate : state ≠ held) :
    ∃ lines, out' ++ [state] = out ++ lines ∧ held ∉ lines := by
  obtain ⟨lines, hout, hlines⟩ := h
  refine ⟨lines ++ [state], by rw [hout, List.append_assoc], fun hmem => ?_⟩
  obtain hmem | hmem := List.mem_append.mp hmem
  · exact hlines hmem
  · exact hstate (List.mem_singleton.mp hmem).symm

/-- No relay went out since `e`, and none can. -/
structure RelayHeld (e e' : PathEmitter) : Prop where
  on : e'.suppressRelayRegression = true
  last : e'.last = .pathDirect
  out : ∃ lines, e'.out = e.out ++ lines ∧ .relay ∉ lines

theorem RelayHeld.not_notes {e e' : PathEmitter} (h : RelayHeld e e') {path : Path} {state : State} :
    ¬ e'.Notes path state := by
  intro hn
  cases path with
  | pathUnknown => cases hn.status
  | pathRelay => exact hn.regression rfl h.on h.last
  | pathDirect => exact hn.news h.last.symm

theorem RelayHeld.step {e : PathEmitter} (h : RelayHeld e s.emitter)
    (hlabel : label ≠ .suppressRelayRegression false) (hstep : step cfg s label = some t) :
    RelayHeld e t.emitter := by
  obtain ⟨hcall, -⟩ := step_call hstep
  have hhandle : ∀ path, RelayHeld e (s.emitter.handle path) := by
    intro path
    obtain heq | ⟨_, hn, -⟩ := s.emitter.handle_cases path
    · rwa [heq]
    · exact absurd hn h.not_notes
  generalize t.emitter = e' at hcall ⊢
  cases hcall with
  | none => exact h
  | flush i hpath => exact hhandle _
  | watch hw hheld => exact hhandle _
  | emit state =>
    obtain heq | ⟨_, hn, -⟩ | ⟨-, hother, heq⟩ := s.emitter.emit_cases state
    · rwa [heq]
    · exact absurd hn h.not_notes
    · rw [heq]
      have hstate : state ≠ .relay := by
        rintro rfl
        cases hother
      exact ⟨h.on, h.last, lines_concat h.out hstate⟩
  | regression on =>
    cases on with
    | false => exact absurd rfl hlabel
    | true => exact ⟨rfl, h.last, h.out⟩
  | direct on => exact ⟨h.on, h.last, h.out⟩
  | finish =>
    unfold PathEmitter.finish
    split
    · exact h
    next hopen =>
      obtain heq | ⟨-, -, hn, -⟩ := PathEmitter.noteFinal_cases (Bool.not_eq_true _ ▸ hopen) s.path
      · rw [heq]
        exact ⟨h.on, h.last, lines_concat h.out (by decide)⟩
      · exact absurd hn h.not_notes

/-- No direct path went out since `e`. -/
structure DirectHeld (e e' : PathEmitter) : Prop where
  on : e'.suppressWatcherDirect = true
  out : ∃ lines, e'.out = e.out ++ lines ∧ .direct ∉ lines

theorem DirectHeld.step {e : PathEmitter} (h : DirectHeld e s.emitter)
    (hlabel : label ≠ .suppressWatcherDirect false) (hemit : label ≠ .emit .direct)
    (hstep : step cfg s label = some t) : DirectHeld e t.emitter := by
  obtain ⟨hcall, -⟩ := step_call hstep
  have hoff : ¬ s.emitter.suppressWatcherDirect = false := by
    rw [h.on]
    exact Bool.noConfusion
  have hhandle : ∀ path, DirectHeld e (s.emitter.handle path) := by
    intro path
    obtain heq | ⟨state, hn, hwatch, heq⟩ := s.emitter.handle_cases path
    · rwa [heq]
    · rw [heq]
      have hstate : state ≠ .direct := fun hstate => hoff (hwatch (statusOf_inj (hstate ▸ hn.status) rfl))
      exact ⟨h.on, lines_concat h.out hstate⟩
  generalize t.emitter = e' at hcall ⊢
  cases hcall with
  | none => exact h
  | flush i hpath => exact hhandle _
  | watch hw hheld => exact hhandle _
  | emit state =>
    have hstate : state ≠ .direct := fun hstate => hemit (hstate ▸ rfl)
    obtain heq | ⟨_, -, heq⟩ | ⟨-, -, heq⟩ := s.emitter.emit_cases state
    · rwa [heq]
    · rw [heq]
      exact ⟨h.on, lines_concat h.out hstate⟩
    · rw [heq]
      exact ⟨h.on, lines_concat h.out hstate⟩
  | regression on => exact ⟨h.on, h.out⟩
  | direct on =>
    cases on with
    | false => exact absurd rfl hlabel
    | true => exact ⟨rfl, h.out⟩
  | finish =>
    unfold PathEmitter.finish
    split
    · exact h
    next hopen =>
      obtain heq | ⟨-, hwatch, -⟩ := PathEmitter.noteFinal_cases (Bool.not_eq_true _ ▸ hopen) s.path
      · rw [heq]
        exact ⟨h.on, lines_concat h.out (by decide)⟩
      · exact absurd hwatch hoff

/-! ## Whole runs -/

theorem watched_run (cfg : ManagerConfig) (labels : List Label) (hrun : runFrom (step cfg) (init cfg) labels = some s) :
    s.Watched :=
  runFrom_invariant (fun _ _ _ h ht => h.step ht) labels (.init cfg) hrun

theorem told_run {labels : List Label} (hcomplete : .emit .complete ∉ labels)
    (hrun : runFrom (step cfg) (init cfg) labels = some s) : Told labels s := by
  have hboth : s.Watched ∧ Told labels s := by
    refine runFrom_invariant_of_mem (I := fun s => s.Watched ∧ Told labels s) (P := fun l => l ∈ labels)
      (fun u l v h hl hv => ?_) labels ⟨.init cfg, .init labels cfg⟩ (fun _ => id) hrun
    exact ⟨h.1.step hv, h.2.step h.1 hl (fun heq => hcomplete (heq ▸ hl)) hv⟩
  exact hboth.2

/-- The goroutines of `Watch` wait for the manager to change. -/
def Resting (s : Status) : Prop :=
  ∃ w, s.watcher = some w ∧ w.updates = .await s.manager.stateNotify ∧ w.buffer = none ∧ w.held = none

/-- The watcher rests only when it has told the emitter of the manager's path. -/
theorem Watched.told (h : s.Watched) (hrest : s.Resting) : s.handled.getLast?.getD .pathUnknown = s.path := by
  obtain ⟨w, hw, hupdates, hbuffer, hheld⟩ := hrest
  have hok := h.watcher w hw
  have hlast := hok.last
  rw [passed, hbuffer, hheld, Option.toList_none, List.append_nil, List.append_nil] at hlast
  exact hlast.trans ((hok.await _ hupdates).2 rfl)

/-- A watcher that neither rests nor is done has a step to take. -/
theorem watcher_moves (cfg : ManagerConfig) (hw : s.watcher = some w) (hrunning : w.running = true)
    (hrest : ¬ s.Resting) :
    ∃ label ∈ [Label.snapshot, .offer, .wake, .take, .handle, .done], ∃ t, step cfg s label = some t := by
  cases hheld : w.held with
  | some path => exact ⟨.handle, by simp, _, by simp only [step, hw, watcherStep, hheld]; rfl⟩
  | none =>
    cases hbuffer : w.buffer with
    | some path => exact ⟨.take, by simp, _, by simp only [step, hw, watcherStep, hheld, hbuffer]; rfl⟩
    | none =>
      cases hupdates : w.updates with
      | snapshot => exact ⟨.snapshot, by simp, _, by simp only [step, hw, watcherStep, hupdates]; rfl⟩
      | offer path notify => exact ⟨.offer, by simp, _, by simp only [step, hw, watcherStep, hupdates, hbuffer]; rfl⟩
      | await notify =>
        have hnotify : notify ≠ s.manager.stateNotify := fun heq => hrest ⟨w, hw, heq ▸ hupdates, hbuffer, hheld⟩
        exact ⟨.wake, by simp, _, by simp only [step, hw, watcherStep, hupdates, if_pos hnotify]; rfl⟩
      | ended =>
        have hempty : w.running ∧ w.updates = .ended ∧ w.buffer = none ∧ w.held = none :=
          ⟨hrunning, hupdates, hbuffer, hheld⟩
        exact ⟨.done, by simp, _, by simp only [step, hw, watcherStep, if_pos hempty]; rfl⟩

theorem Watched.handled_sublist (h : s.Watched) : s.handled.Sublist s.seen ∧ s.handled.IsChain (· ≠ ·) := by
  cases hw : s.watcher with
  | none =>
    rw [h.unwatched hw]
    exact ⟨List.nil_sublist _, .nil⟩
  | some w =>
    have hok := h.watcher w hw
    have hinOrder := hok.inOrder
    have hchanges := hok.changes
    rw [passed, List.append_assoc] at hinOrder hchanges
    exact ⟨(List.sublist_append_left _ _).trans hinOrder, hchanges.left_of_append⟩

/-- A session that is complete while the manager is on a direct path ends with that path. -/
theorem finish_direct (hok : s.emitter.Ok) (hopen : s.emitter.closed = false) (hpath : s.path = .pathDirect)
    (hwatch : s.emitter.suppressWatcherDirect = false) (hstep : step cfg s .finish = some t) :
    (t.emitter.out.filter State.isPath).getLast? = some .direct := by
  have hemitter : t.emitter = s.emitter.finish s.path := by
    simp only [step] at hstep
    split at hstep
    · cases hstep
      rfl
    · cases hstep
  have hlast : (s.emitter.finish s.path).last = .pathDirect := by
    rw [PathEmitter.finish, if_neg (by rw [hopen]; exact Bool.false_ne_true), PathEmitter.noteFinal]
    split
    · rfl
    next hnot =>
      rw [hpath, hwatch] at hnot
      simpa using hnot
  rw [hemitter, (hok.finish s.path).last, hlast]
  rfl

/-- The status lines of a session, whatever its calls, the manager and the watcher do, in any order.  Paths that
follow one another differ, and nothing follows the end of the session, which is told once.  A path that is told
was asked for or was the manager's.  The watcher is handed the manager's paths in their order, and it does not
rest before it was handed the last.  While regression to the relay is suppressed a direct path stays the last
word, and while the watcher's direct paths are suppressed only `Emit` tells of one; a session that ends on a
direct path says so. -/
theorem path_status (cfg : ManagerConfig) {labels : List Label} (hcomplete : .emit .complete ∉ labels)
    (hrun : runFrom (step cfg) (init cfg) labels = some s) :
    (s.emitter.out.filter State.isPath).IsChain (· ≠ ·) ∧
      (∀ before after, s.emitter.out = before ++ .complete :: after → .complete ∉ before ∧ after = []) ∧
      (∀ path state, statusOf path = some state → state ∈ s.emitter.out →
        .emit state ∈ labels ∨ path ∈ s.seen) ∧
      (s.handled.Sublist s.seen ∧ s.handled.IsChain (· ≠ ·)) ∧
      (s.Resting → s.handled.getLast?.getD .pathUnknown = s.path) ∧
      (∀ w, s.watcher = some w → w.running = true → ¬ s.Resting →
        ∃ label ∈ [Label.snapshot, .offer, .wake, .take, .handle, .done], ∃ t, step cfg s label = some t) ∧
      ∀ before after u, labels = before ++ after → runFrom (step cfg) (init cfg) before = some u →
        (u.emitter.suppressRelayRegression = true →
          (u.emitter.out.filter State.isPath).getLast? = some .direct →
          .suppressRelayRegression false ∉ after →
          ∃ lines, s.emitter.out = u.emitter.out ++ lines ∧ .relay ∉ lines) ∧
        (u.emitter.suppressWatcherDirect = true → .suppressWatcherDirect false ∉ after →
          .emit .direct ∉ after → ∃ lines, s.emitter.out = u.emitter.out ++ lines ∧ .direct ∉ lines) ∧
        (after = [.finish] → u.emitter.closed = false → u.path = .pathDirect →
          u.emitter.suppressWatcherDirect = false →
          (s.emitter.out.filter State.isPath).getLast? = some .direct) := by
  have hwatched := watched_run cfg labels hrun
  have htold := told_run hcomplete hrun
  refine ⟨htold.emitter.changes, ?_, htold.said, hwatched.handled_sublist, hwatched.told,
    fun w hw hrunning hrest => watcher_moves cfg hw hrunning hrest, ?_⟩
  · exact fun before after hout => htold.emitter.complete_last hout
  · intro before after u hlabels hu
    have htoldBefore : Told before u :=
      told_run (fun hmem => hcomplete (hlabels ▸ List.mem_append_left _ hmem)) hu
    have hrest : runFrom (step cfg) u after = some s := by
      rwa [hlabels, runFrom_append hu] at hrun
    refine ⟨fun hon hlast hoff => ?_, fun hon hoff hemit => ?_, ?_⟩
    · have hdirect : u.emitter.last = .pathDirect := statusOf_inj (htoldBefore.emitter.last.symm.trans hlast) rfl
      have hheld : RelayHeld u.emitter s.emitter := by
        refine runFrom_invariant_of_mem (I := fun s => RelayHeld u.emitter s.emitter) (P := fun l => l ∈ after)
          (fun v l v' h hl hv => h.step (fun heq => hoff (heq ▸ hl)) hv) after ?_ (fun _ => id) hrest
        exact ⟨hon, hdirect, [], (List.append_nil _).symm, List.not_mem_nil⟩
      exact hheld.out
    · have hheld : DirectHeld u.emitter s.emitter := by
        refine runFrom_invariant_of_mem (I := fun s => DirectHeld u.emitter s.emitter) (P := fun l => l ∈ after)
          (fun v l v' h hl hv => h.step (fun heq => hoff (heq ▸ hl)) (fun heq => hemit (heq ▸ hl)) hv)
          after ?_ (fun _ => id) hrest
        exact ⟨hon, [], (List.append_nil _).symm, List.not_mem_nil⟩
      exact hheld.out
    · rintro rfl hopen hpath hwatch
      obtain ⟨t, ht, hend⟩ := runFrom_cons hrest
      cases hend
      exact finish_direct htoldBefore.emitter hopen hpath hwatch ht

/-- A session on the relay that gets a direct path while a call of `Flush` is under way. -/
def upgraded : List Label :=
  let addr : UDPAddr := ⟨[192, 168, 1, 7], 4000, ""⟩
  let token : DirectProbeToken := ⟨false, []⟩
  [.emit .waiting, .emit .claimed, .watch, .snapshot, .offer, .take, .flush, .handle, .flushHandle 0,
    .suppressRelayRegression true, .manager (.candidates [some addr]), .manager (.probeSent 0 1 (some addr) token),
    .manager (.ack 2 (some addr) token), .wake, .snapshot, .offer, .take, .handle, .manager .relayOnly, .wake,
    .snapshot, .offer, .take, .handle, .complete, .stop, .done, .stopped, .finish]

theorem path_status_upgraded :
    ∃ s, runFrom (step ⟨true, true, 2000000000, 30000000000⟩) (init ⟨true, true, 2000000000, 30000000000⟩) upgraded =
        some s ∧
      s.emitter.out = [.waiting, .claimed, .relay, .direct, .complete] ∧ s.path = .pathRelay ∧
      s.handled = [.pathRelay, .pathDirect, .pathRelay] ∧
      (s.emitter.out.filter State.isPath).IsChain (· ≠ ·) ∧ s.handled.Sublist s.seen := by
  have hany : (runFrom (step ⟨true, true, 2000000000, 30000000000⟩)
      (init ⟨true, true, 2000000000, 30000000000⟩) upgraded).any (fun s =>
        s.emitter.out = [.waiting, .claimed, .relay, .direct, .complete] && s.path = .pathRelay &&
          s.handled = [.pathRelay, .pathDirect, .pathRelay]) = true := by decide +kernel
  obtain ⟨s, hs, hall⟩ := (Option.any_eq_true ..).mp hany
  simp only [Bool.and_eq_true, decide_eq_true_eq] at hall
  obtain ⟨⟨hout, hpath⟩, hhandled⟩ := hall
  have hcomplete : Label.emit .complete ∉ upgraded := by simp [upgraded]
  obtain ⟨hchanges, -, -, hsublist, -⟩ := path_status _ hcomplete hs
  exact ⟨s, hs, hout, hpath, hhandled, hchanges, hsublist.1⟩

end Status

end PathStatus
end Session
