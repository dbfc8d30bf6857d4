import Derphole.Lib.Run

/-!
# One discovery worker

`requestDiscovery` of `pkg/transport/disco.go` starts a worker, or leaves word with the one that runs; the
worker ticks until no word is left.  Three flags under `discoveryMu` carry that: a worker runs, it has to tick
again, and its next tick is forced.  A section under the lock is one step here, and so is each read of a
context outside of it.  What happens within a tick is left out but that it starts and returns.

No request gets lost (`discovery_coalesces`), however requests and worker take turns, while the contexts of
the requests last.  Once the manager was started they are all one, its own.  A worker whose context has ended
drops what is pending, whoever asked for it.
-/

namespace Transport

open Lib

/-! ## The manager's part in it -/

/-- A call of `requestDiscovery` on its way to the lock. -/
structure DiscoveryRequest (κ : Type) where
  id : Nat
  ctx : κ
  forceCandidateRefresh : Bool
  /-- `ctx.Err()` was nil. -/
  checked : Bool
  deriving DecidableEq

inductive WorkerPhase where
  /-- About to call `discoveryTick`. -/
  | starting
  | ticking
  /-- About to take the lock. -/
  | ticked
  deriving DecidableEq

/-- A goroutine of `discoveryWorker`. -/
structure DiscoveryWorker (κ : Type) where
  ctx : κ
  forceCandidateRefresh : Bool
  phase : WorkerPhase
  deriving DecidableEq

/-- What is recorded of a run. -/
inductive Happening (κ : Type) where
  /-- A request had the lock. -/
  | request (id : Nat) (ctx : κ) (forceCandidateRefresh : Bool)
  /-- `discoveryTick` was called. -/
  | tick (ctx : κ) (forceCandidateRefresh : Bool)
  deriving DecidableEq

/-- The flags of the manager, its goroutines, and a record of the calls, in order, and of what came of them,
newest first. -/
structure Discovery (κ : Type) where
  directCtx : Option κ
  cancelled : List κ
  discoveryRun : Bool
  discoveryPending : Bool
  forceCandidateRefresh : Bool
  requests : List (DiscoveryRequest κ)
  workers : List (DiscoveryWorker κ)
  calls : List (κ × Bool)
  history : List (Happening κ)

inductive DiscoveryLabel (κ : Type) where
  /-- `Start`, with the context that it makes for the manager. -/
  | start (ctx : κ)
  | cancel (ctx : κ)
  /-- `requestDiscovery` is called. -/
  | call (fallback : κ) (forceCandidateRefresh : Bool)
  /-- The request looks whether its context has ended. -/
  | check (i : Nat)
  /-- The request has the lock. -/
  | lock (i : Nat)
  | worker (i : Nat)

namespace Discovery

variable {κ : Type}

def new : Discovery κ where
  directCtx := none
  cancelled := []
  discoveryRun := false
  discoveryPending := false
  forceCandidateRefresh := false
  requests := []
  workers := []
  calls := []
  history := []

section

variable (s : Discovery κ)

def directContext (fallback : κ) : κ := s.directCtx.getD fallback

def call (fallback : κ) (forceCandidateRefresh : Bool) : Discovery κ :=
  let ctx := s.directContext fallback
  { s with
    requests := s.requests ++ [⟨s.calls.length, ctx, forceCandidateRefresh, false⟩]
    calls := s.calls ++ [(ctx, forceCandidateRefresh)] }

/-- The section of `requestDiscovery` under the lock. -/
def lockRequest (r : DiscoveryRequest κ) : Discovery κ :=
  let forceCandidateRefresh := s.forceCandidateRefresh || r.forceCandidateRefresh
  let history := .request r.id r.ctx r.forceCandidateRefresh :: s.history
  if s.discoveryRun then
    { s with
      forceCandidateRefresh := forceCandidateRefresh
      discoveryPending := true
      history := history }
  else
    { s with
      forceCandidateRefresh := false
      discoveryRun := true
      discoveryPending := false
      workers := s.workers ++ [⟨r.ctx, forceCandidateRefresh, .starting⟩]
      history := history }

end

section

variable [DecidableEq κ] (s : Discovery κ)

def start (ctx : κ) : Discovery κ :=
  if s.directCtx.isSome then s
  else if ctx ∈ s.cancelled then s
  else { s with directCtx := some ctx }

def checkRequest (i : Nat) (r : DiscoveryRequest κ) : Discovery κ :=
  if r.ctx ∈ s.cancelled then { s with requests := s.requests.eraseIdx i }
  else { s with requests := s.requests.set i { r with checked := true } }

/-- The section of `discoveryWorker` under the lock. -/
def lockWorker (i : Nat) (w : DiscoveryWorker κ) : Discovery κ :=
  if w.ctx ∈ s.cancelled then
    { s with
      discoveryRun := false
      discoveryPending := false
      forceCandidateRefresh := false
      workers := s.workers.eraseIdx i }
  else if !s.discoveryPending then
    { s with
      discoveryRun := false
      workers := s.workers.eraseIdx i }
  else
    { s with
      forceCandidateRefresh := false
      discoveryPending := false
      workers := s.workers.set i ⟨w.ctx, s.forceCandidateRefresh, .starting⟩ }

/-- The next step of a `discoveryWorker`. -/
def discoveryWorker (i : Nat) (w : DiscoveryWorker κ) : Discovery κ :=
  match w.phase with
  | .starting =>
      { s with
        workers := s.workers.set i { w with phase := .ticking }
        history := .tick w.ctx w.forceCandidateRefresh :: s.history }
  | .ticking => { s with workers := s.workers.set i { w with phase := .ticked } }
  | .ticked => s.lockWorker i w

def step : DiscoveryLabel κ → Option (Discovery κ)
  | .start ctx => some (s.start ctx)
  | .cancel ctx => some { s with cancelled := ctx :: s.cancelled }
  | .call fallback forceCandidateRefresh => some (s.call fallback forceCandidateRefresh)
  | .check i =>
      match s.requests[i]? with
      | some r => if r.checked then none else some (s.checkRequest i r)
      | none => none
  | .lock i =>
      match s.requests[i]? with
      | some r =>
          if r.checked then some { s.lockRequest r with requests := s.requests.eraseIdx i } else none
      | none => none
  | .worker i =>
      match s.workers[i]? with
      | some w => some (s.discoveryWorker i w)
      | none => none

end

/-! ## What is owed to a request -/

/-- One of the ticks answers a request: it is forced if the request was. -/
def Answered (later : List (Happening κ)) (forceCandidateRefresh : Bool) : Prop :=
  ∃ ctx flag, .tick ctx flag ∈ later ∧ (forceCandidateRefresh = true → flag = true)

/-- A worker still has to answer a request. -/
def StillPending (s : Discovery κ) (forceCandidateRefresh : Bool) : Prop :=
  ∃ w ∈ s.workers,
    w.phase = .starting ∧ (forceCandidateRefresh = true → w.forceCandidateRefresh = true) ∨
      s.discoveryPending = true ∧ (forceCandidateRefresh = true → s.forceCandidateRefresh = true)

/-- The context of no request has ended. -/
def Live (s : Discovery κ) : Prop :=
  ∀ id ctx forceCandidateRefresh, .request id ctx forceCandidateRefresh ∈ s.history → ctx ∉ s.cancelled

/-- The worker is there when the flag says so, under the context of some request, and it owes nothing that is
not written down. -/
structure Inv (s : Discovery κ) : Prop where
  running : s.discoveryRun = true ∧ (∃ w, s.workers = [w]) ∨ s.discoveryRun = false ∧ s.workers = []
  asked : ∀ w ∈ s.workers, ∃ id forceCandidateRefresh, .request id w.ctx forceCandidateRefresh ∈ s.history
  served : s.Live → ∀ later id ctx forceCandidateRefresh earlier,
    s.history = later ++ .request id ctx forceCandidateRefresh :: earlier →
      Answered later forceCandidateRefresh ∨ s.StillPending forceCandidateRefresh

theorem Inv.new : Inv (new : Discovery κ) where
  running := .inr ⟨rfl, rfl⟩
  asked := fun w hw => absurd hw List.not_mem_nil
  served := fun _ later id ctx forceCandidateRefresh earlier h => by
    have hlength := congrArg List.length h
    simp [Discovery.new] at hlength

section

variable {s t : Discovery κ}

/-- What a step has to show: what was pending is answered or stays so, and what is new is pending. -/
theorem Inv.served_step (hi : Inv s) (added : List (Happening κ)) (hhistory : t.history = added ++ s.history)
    (hcancelled : ∀ ctx ∈ s.cancelled, ctx ∈ t.cancelled)
    (hpending : t.Live → ∀ flag, s.StillPending flag → Answered added flag ∨ t.StillPending flag)
    (hnew : ∀ id ctx flag, .request id ctx flag ∈ added → t.StillPending flag) (hlive : t.Live) :
    ∀ later id ctx flag earlier, t.history = later ++ .request id ctx flag :: earlier →
      Answered later flag ∨ t.StillPending flag := by
  intro later id ctx flag earlier h
  rw [hhistory, List.append_eq_append_iff] at h
  have hlive' : s.Live := by
    intro id ctx flag hmem hdead
    refine hlive id ctx flag ?_ (hcancelled ctx hdead)
    rw [hhistory]
    exact List.mem_append_right added hmem
  have hold : ∀ between, s.history = between ++ .request id ctx flag :: earlier →
      Answered (added ++ between) flag ∨ t.StillPending flag := by
    intro between hsplit
    obtain ⟨ctx', flag', hmem, hflag⟩ | hstill := hi.served hlive' between id ctx flag earlier hsplit
    · exact .inl ⟨ctx', flag', List.mem_append_right added hmem, hflag⟩
    · obtain ⟨ctx', flag', hmem, hflag⟩ | hstill := hpending hlive flag hstill
      · exact .inl ⟨ctx', flag', List.mem_append_left between hmem, hflag⟩
      · exact .inr hstill
  obtain ⟨between, rfl, hsplit⟩ | ⟨rest, hadded, hsplit⟩ := h
  · exact hold between hsplit
  · cases rest with
    | nil =>
        rw [List.append_nil] at hadded
        have hanswer := hold [] hsplit.symm
        rwa [List.append_nil, hadded] at hanswer
    | cons e rest =>
        cases hsplit
        refine .inr (hnew id ctx flag ?_)
        rw [hadded]
        exact List.mem_append_right later List.mem_cons_self

/-- A step that touches neither the flags nor the workers. -/
theorem Inv.idle (hi : Inv s) (hrun : t.discoveryRun = s.discoveryRun)
    (hflag : t.discoveryPending = s.discoveryPending)
    (hforce : t.forceCandidateRefresh = s.forceCandidateRefresh) (hworkers : t.workers = s.workers)
    (hhistory : t.history = s.history) (hcancelled : ∀ ctx ∈ s.cancelled, ctx ∈ t.cancelled) : Inv t where
  running := by
    rw [hrun, hworkers]
    exact hi.running
  asked := by
    rw [hworkers, hhistory]
    exact hi.asked
  served := by
    refine hi.served_step [] hhistory hcancelled (fun _ flag hstill => .inr ?_)
      fun id ctx flag hmem => absurd hmem List.not_mem_nil
    rw [StillPending, hworkers, hflag, hforce]
    exact hstill

theorem Inv.lockRequest (hi : Inv s) (r : DiscoveryRequest κ) : Inv (s.lockRequest r) := by
  unfold Discovery.lockRequest
  dsimp only
  split
  next hrun =>
    obtain ⟨-, w, hw⟩ | ⟨hidle, -⟩ := hi.running
    · refine ⟨.inl ⟨hrun, w, hw⟩, ?_, hi.served_step [_] rfl (fun _ h => h) ?_ ?_⟩
      · intro w' hw'
        obtain ⟨id, flag, hasked⟩ := hi.asked w' hw'
        exact ⟨id, flag, List.mem_cons_of_mem _ hasked⟩
      · rintro - flag ⟨w', hw', ⟨hphase, hforce⟩ | ⟨-, hforce⟩⟩
        · exact .inr ⟨w', hw', .inl ⟨hphase, hforce⟩⟩
        · refine .inr ⟨w', hw', .inr ⟨rfl, fun hflag => ?_⟩⟩
          rw [hforce hflag]
          rfl
      · intro id ctx flag hmem
        cases List.mem_singleton.mp hmem
        refine ⟨w, by rw [hw]; exact List.mem_singleton_self w, .inr ⟨rfl, fun hflag => ?_⟩⟩
        rw [hflag, Bool.or_true]
    · rw [hidle] at hrun
      cases hrun
  next hrun =>
    obtain ⟨hbusy, -⟩ | ⟨-, hnone⟩ := hi.running
    · exact absurd hbusy hrun
    · rw [hnone, List.nil_append]
      refine ⟨.inl ⟨rfl, _, rfl⟩, ?_, hi.served_step [_] rfl (fun _ h => h) ?_ ?_⟩
      · intro w hw
        cases List.mem_singleton.mp hw
        exact ⟨r.id, r.forceCandidateRefresh, List.mem_cons_self⟩
      · rintro - flag ⟨w, hw, -⟩
        rw [hnone] at hw
        exact absurd hw List.not_mem_nil
      · intro id ctx flag hmem
        cases List.mem_singleton.mp hmem
        refine ⟨_, List.mem_singleton_self _, .inl ⟨rfl, fun hflag => ?_⟩⟩
        dsimp only
        rw [hflag, Bool.or_true]

/-- There is one worker, if any. -/
theorem Inv.workers_eq (hi : Inv s) {i : Nat} {w : DiscoveryWorker κ} (hw : s.workers[i]? = some w) :
    i = 0 ∧ s.discoveryRun = true ∧ s.workers = [w] := by
  obtain ⟨hrun, w', hw'⟩ | ⟨-, hnone⟩ := hi.running
  · rw [hw', List.getElem?_singleton] at hw
    split at hw
    next hzero =>
      cases hw
      exact ⟨hzero, hrun, hw'⟩
    next => cases hw
  · rw [hnone, List.getElem?_nil] at hw
    cases hw

variable [DecidableEq κ]

theorem Inv.lockWorker (hi : Inv s) {w : DiscoveryWorker κ} (hrun : s.discoveryRun = true)
    (hw : s.workers = [w]) (hphase : w.phase = .ticked) : Inv (s.lockWorker 0 w) := by
  unfold Discovery.lockWorker
  rw [hw, List.eraseIdx_zero, List.tail_cons, List.set_cons_zero]
  split
  next hdead =>
    refine ⟨.inr ⟨rfl, rfl⟩, fun w' hw' => absurd hw' List.not_mem_nil, fun hlive => ?_⟩
    -- the worker's context is that of a request
    obtain ⟨id, flag, hasked⟩ := hi.asked w (by rw [hw]; exact List.mem_singleton_self w)
    exact absurd hdead (hlive id w.ctx flag hasked)
  split
  next hnone =>
    refine ⟨.inr ⟨rfl, rfl⟩, fun w' hw' => absurd hw' List.not_mem_nil,
      hi.served_step [] rfl (fun _ h => h) ?_ fun id ctx flag hmem => absurd hmem List.not_mem_nil⟩
    rintro - flag ⟨w', hw', ⟨hphase', -⟩ | ⟨hpending, -⟩⟩
    · rw [hw, List.mem_singleton] at hw'
      rw [hw', hphase] at hphase'
      cases hphase'
    · rw [hpending] at hnone
      cases hnone
  next =>
    refine ⟨.inl ⟨hrun, _, rfl⟩, ?_, hi.served_step [] rfl (fun _ h => h) ?_
      fun id ctx flag hmem => absurd hmem List.not_mem_nil⟩
    · intro w' hw'
      cases List.mem_singleton.mp hw'
      exact hi.asked w (by rw [hw]; exact List.mem_singleton_self w)
    · rintro - flag ⟨w', hw', ⟨hphase', -⟩ | ⟨-, hforce⟩⟩
      · rw [hw, List.mem_singleton] at hw'
        rw [hw', hphase] at hphase'
        cases hphase'
      · exact .inr ⟨_, List.mem_singleton_self _, .inl ⟨rfl, hforce⟩⟩

theorem Inv.discoveryWorker (hi : Inv s) {w : DiscoveryWorker κ} (hrun : s.discoveryRun = true)
    (hw : s.workers = [w]) : Inv (s.discoveryWorker 0 w) := by
  obtain ⟨id, flag, hasked⟩ := hi.asked w (by rw [hw]; exact List.mem_singleton_self w)
  unfold Discovery.discoveryWorker
  split
  next hphase =>
    rw [hw, List.set_cons_zero]
    refine ⟨.inl ⟨hrun, _, rfl⟩, ?_, hi.served_step [_] rfl (fun _ h => h) ?_ ?_⟩
    · intro w' hw'
      cases List.mem_singleton.mp hw'
      exact ⟨id, flag, List.mem_cons_of_mem _ hasked⟩
    · rintro - flag ⟨w', hw', ⟨-, hforce⟩ | hpending⟩
      · rw [hw, List.mem_singleton] at hw'
        cases hw'
        exact .inl ⟨w.ctx, w.forceCandidateRefresh, List.mem_singleton_self _, hforce⟩
      · exact .inr ⟨_, List.mem_singleton_self _, .inr hpending⟩
    · intro id ctx flag hmem
      cases List.mem_singleton.mp hmem
  next hphase =>
    rw [hw, List.set_cons_zero]
    refine ⟨.inl ⟨hrun, _, rfl⟩, ?_, hi.served_step [] rfl (fun _ h => h) ?_
      fun id ctx flag hmem => absurd hmem List.not_mem_nil⟩
    · intro w' hw'
      cases List.mem_singleton.mp hw'
      exact ⟨id, flag, hasked⟩
    · rintro - flag ⟨w', hw', ⟨hphase', -⟩ | hpending⟩
      · rw [hw, List.mem_singleton] at hw'
        rw [hw', hphase] at hphase'
        cases hphase'
      · exact .inr ⟨_, List.mem_singleton_self _, .inr hpending⟩
  next hphase => exact hi.lockWorker hrun hw hphase

/-! ## The steps -/

theorem step_check {i : Nat} (h : s.step (.check i) = some t) :
    ∃ r, s.requests[i]? = some r ∧ t = s.checkRequest i r := by
  rw [step] at h
  split at h
  next r hr =>
    split at h
    · cases h
    · exact ⟨r, hr, (Option.some.inj h).symm⟩
  next => cases h

theorem step_lock {i : Nat} (h : s.step (.lock i) = some t) :
    ∃ r, s.requests[i]? = some r ∧ t = { s.lockRequest r with requests := s.requests.eraseIdx i } := by
  rw [step] at h
  split at h
  next r hr =>
    split at h
    · exact ⟨r, hr, (Option.some.inj h).symm⟩
    · cases h
  next => cases h

theorem step_worker {i : Nat} (h : s.step (.worker i) = some t) :
    ∃ w, s.workers[i]? = some w ∧ t = s.discoveryWorker i w := by
  rw [step] at h
  split at h
  next w hw => exact ⟨w, hw, (Option.some.inj h).symm⟩
  next => cases h

theorem Inv.step (hi : Inv s) {l : DiscoveryLabel κ} (h : s.step l = some t) : Inv t := by
  cases l with
  | start ctx =>
      cases h
      unfold Discovery.start
      split
      · exact hi
      split
      · exact hi
      · exact hi.idle rfl rfl rfl rfl rfl fun _ h => h
  | cancel ctx =>
      cases h
      exact hi.idle rfl rfl rfl rfl rfl fun ctx' h => List.mem_cons_of_mem ctx h
  | call fallback flag =>
      cases h
      exact hi.idle rfl rfl rfl rfl rfl fun _ h => h
  | check i =>
      obtain ⟨r, -, rfl⟩ := step_check h
      unfold checkRequest
      split
      · exact hi.idle rfl rfl rfl rfl rfl fun _ h => h
      · exact hi.idle rfl rfl rfl rfl rfl fun _ h => h
  | lock i =>
      obtain ⟨r, -, rfl⟩ := step_lock h
      exact (hi.lockRequest r).idle rfl rfl rfl rfl rfl fun _ h => h
  | worker i =>
      obtain ⟨w, hw, rfl⟩ := step_worker h
      obtain ⟨rfl, hrun, hworkers⟩ := hi.workers_eq hw
      exact hi.discoveryWorker hrun hworkers

end

/-! ## Requests on their way -/

section

variable {s t : Discovery κ}

theorem mem_eraseIdx_of_ne {α : Type} {l : List α} {i : Nat} {x y : α} (hx : x ∈ l) (hy : l[i]? = some y)
    (hne : x ≠ y) : x ∈ l.eraseIdx i := by
  obtain ⟨j, hj⟩ := List.mem_iff_getElem?.mp hx
  refine List.mem_eraseIdx_iff_getElem?.mpr ⟨j, ?_, hj⟩
  rintro rfl
  exact hne (Option.some.inj (hj.symm.trans hy))

theorem mem_set_of_ne {α : Type} {l : List α} {i : Nat} {x y z : α} (hx : x ∈ l) (hy : l[i]? = some y)
    (hne : x ≠ y) : x ∈ l.set i z := by
  obtain ⟨j, hj⟩ := List.mem_iff_getElem?.mp hx
  refine List.mem_iff_getElem?.mpr ⟨j, ?_⟩
  rw [List.getElem?_set_ne, hj]
  rintro rfl
  exact hne (Option.some.inj (hj.symm.trans hy))

/-- A call of `requestDiscovery` has not had the lock. -/
def InFlight (s : Discovery κ) (id : Nat) (ctx : κ) (flag : Bool) : Prop :=
  ∃ r ∈ s.requests, r.id = id ∧ r.ctx = ctx ∧ r.forceCandidateRefresh = flag

/-- A call under a context that has not ended is on its way to the lock or has had it. -/
def Kept (s : Discovery κ) : Prop :=
  ∀ id ctx flag, s.calls[id]? = some (ctx, flag) →
    ctx ∈ s.cancelled ∨ s.InFlight id ctx flag ∨ .request id ctx flag ∈ s.history

theorem Kept.new : Kept (new : Discovery κ) := by
  intro id ctx flag hcall
  rw [Discovery.new, List.getElem?_nil] at hcall
  cases hcall

/-- A step that takes no request away. -/
theorem Kept.mono (hk : Kept s) (hcalls : t.calls = s.calls) (hrequests : t.requests = s.requests)
    (hhistory : ∀ e ∈ s.history, e ∈ t.history) (hcancelled : ∀ ctx ∈ s.cancelled, ctx ∈ t.cancelled) :
    Kept t := by
  intro id ctx flag hcall
  rw [hcalls] at hcall
  rw [InFlight, hrequests]
  obtain hdead | hflight | hdone := hk id ctx flag hcall
  · exact .inl (hcancelled ctx hdead)
  · exact .inr (.inl hflight)
  · exact .inr (.inr (hhistory _ hdone))

theorem Kept.call (hk : Kept s) (fallback : κ) (flag : Bool) : Kept (s.call fallback flag) := by
  intro id ctx flag' hcall
  unfold Discovery.call at hcall ⊢
  dsimp only at hcall
  rw [List.getElem?_append] at hcall
  split at hcall
  · obtain hdead | ⟨r, hr, hfields⟩ | hdone := hk id ctx flag' hcall
    · exact .inl hdead
    · exact .inr (.inl ⟨r, List.mem_append_left _ hr, hfields⟩)
    · exact .inr (.inr hdone)
  next hlen =>
    rw [List.getElem?_singleton] at hcall
    split at hcall
    next hzero =>
      cases hcall
      refine .inr (.inl ⟨_, List.mem_append_right _ (List.mem_singleton_self _), ?_, rfl, rfl⟩)
      dsimp only
      omega
    next => cases hcall

/-- What a request leaves alone. -/
theorem lockRequest_frame (s : Discovery κ) (r : DiscoveryRequest κ) :
    (s.lockRequest r).calls = s.calls ∧ (s.lockRequest r).requests = s.requests ∧
      (s.lockRequest r).cancelled = s.cancelled ∧ (s.lockRequest r).directCtx = s.directCtx ∧
      (s.lockRequest r).history = .request r.id r.ctx r.forceCandidateRefresh :: s.history := by
  unfold Discovery.lockRequest
  dsimp only
  split
  · exact ⟨rfl, rfl, rfl, rfl, rfl⟩
  · exact ⟨rfl, rfl, rfl, rfl, rfl⟩

theorem Kept.lockRequest (hk : Kept s) {i : Nat} {r : DiscoveryRequest κ} (hr : s.requests[i]? = some r) :
    Kept { s.lockRequest r with requests := s.requests.eraseIdx i } := by
  obtain ⟨hcalls, -, hcancelled, -, hhistory⟩ := s.lockRequest_frame r
  intro id ctx flag hcall
  dsimp only at hcall ⊢
  rw [hcalls] at hcall
  rw [hcancelled, hhistory]
  obtain hdead | ⟨r', hr', hfields⟩ | hdone := hk id ctx flag hcall
  · exact .inl hdead
  · by_cases hsame : r' = r
    · obtain ⟨rfl, rfl, rfl⟩ := hfields
      rw [hsame]
      exact .inr (.inr List.mem_cons_self)
    · exact .inr (.inl ⟨r', mem_eraseIdx_of_ne hr' hr hsame, hfields⟩)
  · exact .inr (.inr (List.mem_cons_of_mem _ hdone))

variable [DecidableEq κ]

theorem Kept.checkRequest (hk : Kept s) {i : Nat} {r : DiscoveryRequest κ} (hr : s.requests[i]? = some r) :
    Kept (s.checkRequest i r) := by
  intro id ctx flag hcall
  unfold Discovery.checkRequest at hcall ⊢
  split
  next hdead =>
    rw [if_pos hdead] at hcall
    obtain hdead' | ⟨r', hr', hfields⟩ | hdone := hk id ctx flag hcall
    · exact .inl hdead'
    · by_cases hsame : r' = r
      · left
        rw [← hfields.2.1, hsame]
        exact hdead
      · exact .inr (.inl ⟨r', mem_eraseIdx_of_ne hr' hr hsame, hfields⟩)
    · exact .inr (.inr hdone)
  next halive =>
    rw [if_neg halive] at hcall
    obtain hdead' | ⟨r', hr', hfields⟩ | hdone := hk id ctx flag hcall
    · exact .inl hdead'
    · by_cases hsame : r' = r
      · rw [hsame] at hfields
        obtain ⟨hi, -⟩ := List.getElem?_eq_some_iff.mp hr
        exact .inr (.inl ⟨_, List.mem_set hi _, hfields⟩)
      · exact .inr (.inl ⟨r', mem_set_of_ne hr' hr hsame, hfields⟩)
    · exact .inr (.inr hdone)

/-- What a worker leaves alone. -/
theorem discoveryWorker_frame (s : Discovery κ) (i : Nat) (w : DiscoveryWorker κ) :
    (s.discoveryWorker i w).calls = s.calls ∧ (s.discoveryWorker i w).requests = s.requests ∧
      (s.discoveryWorker i w).cancelled = s.cancelled ∧ (s.discoveryWorker i w).directCtx = s.directCtx ∧
      ((s.discoveryWorker i w).history = s.history ∨
        (s.discoveryWorker i w).history = .tick w.ctx w.forceCandidateRefresh :: s.history) := by
  unfold discoveryWorker lockWorker
  split
  · exact ⟨rfl, rfl, rfl, rfl, .inr rfl⟩
  · exact ⟨rfl, rfl, rfl, rfl, .inl rfl⟩
  split
  · exact ⟨rfl, rfl, rfl, rfl, .inl rfl⟩
  split
  · exact ⟨rfl, rfl, rfl, rfl, .inl rfl⟩
  · exact ⟨rfl, rfl, rfl, rfl, .inl rfl⟩

theorem Kept.step (hk : Kept s) {l : DiscoveryLabel κ} (h : s.step l = some t) : Kept t := by
  cases l with
  | start ctx =>
      cases h
      unfold Discovery.start
      split
      · exact hk
      split
      · exact hk
      · exact hk.mono rfl rfl (fun _ h => h) fun _ h => h
  | cancel ctx =>
      cases h
      exact hk.mono rfl rfl (fun _ h => h) fun ctx' h => List.mem_cons_of_mem ctx h
  | call fallback flag =>
      cases h
      exact hk.call fallback flag
  | check i =>
      obtain ⟨r, hr, rfl⟩ := step_check h
      exact hk.checkRequest hr
  | lock i =>
      obtain ⟨r, hr, rfl⟩ := step_lock h
      exact hk.lockRequest hr
  | worker i =>
      obtain ⟨w, -, rfl⟩ := step_worker h
      obtain ⟨hcalls, hrequests, hcancelled, -, hhistory⟩ := s.discoveryWorker_frame i w
      refine hk.mono hcalls hrequests ?_ fun ctx hdead => by rwa [hcancelled]
      intro e he
      obtain hsame | htick := hhistory
      · rwa [hsame]
      · rw [htick]
        exact List.mem_cons_of_mem _ he

end

/-! ## One context -/

section

variable {s t : Discovery κ} {ctx : κ}

/-- The manager has its context, and no request is under another one. -/
structure Started (ctx : κ) (s : Discovery κ) : Prop where
  directCtx : s.directCtx = some ctx
  requests : ∀ r ∈ s.requests, r.ctx = ctx
  history : ∀ id ctx' flag, .request id ctx' flag ∈ s.history → ctx' = ctx

theorem Started.lockRequest (hs : Started ctx s) {r : DiscoveryRequest κ} (hr : r.ctx = ctx) :
    Started ctx (s.lockRequest r) := by
  obtain ⟨-, hrequests, -, hdirectCtx, hhistory⟩ := s.lockRequest_frame r
  refine ⟨hdirectCtx.trans hs.directCtx, by rw [hrequests]; exact hs.requests, ?_⟩
  intro id ctx' flag hmem
  rw [hhistory] at hmem
  obtain heq | hmem := List.mem_cons.mp hmem
  · cases heq
    exact hr
  · exact hs.history id ctx' flag hmem

theorem Started.step [DecidableEq κ] (hs : Started ctx s) {l : DiscoveryLabel κ} (h : s.step l = some t) :
    Started ctx t := by
  cases l with
  | start ctx' =>
      cases h
      rw [Discovery.start, hs.directCtx]
      exact hs
  | cancel ctx' =>
      cases h
      exact ⟨hs.directCtx, hs.requests, hs.history⟩
  | call fallback flag =>
      cases h
      refine ⟨hs.directCtx, ?_, hs.history⟩
      intro r hr
      obtain hr | hr := List.mem_append.mp hr
      · exact hs.requests r hr
      · rw [List.mem_singleton.mp hr, directContext, hs.directCtx]
        rfl
  | check i =>
      obtain ⟨r, hr, rfl⟩ := step_check h
      unfold checkRequest
      split
      · exact ⟨hs.directCtx, fun r' hr' => hs.requests r' (List.mem_of_mem_eraseIdx hr'), hs.history⟩
      · refine ⟨hs.directCtx, fun r' hr' => ?_, hs.history⟩
        obtain hr' | rfl := List.mem_or_eq_of_mem_set hr'
        · exact hs.requests r' hr'
        · exact hs.requests r (List.mem_of_getElem? hr)
  | lock i =>
      obtain ⟨r, hr, rfl⟩ := step_lock h
      have hlocked := hs.lockRequest (hs.requests r (List.mem_of_getElem? hr))
      exact ⟨hlocked.directCtx, fun r' hr' => hs.requests r' (List.mem_of_mem_eraseIdx hr'), hlocked.history⟩
  | worker i =>
      obtain ⟨w, -, rfl⟩ := step_worker h
      obtain ⟨-, hrequests, -, hdirectCtx, hhistory⟩ := s.discoveryWorker_frame i w
      refine ⟨hdirectCtx.trans hs.directCtx, by rw [hrequests]; exact hs.requests, ?_⟩
      intro id ctx' flag hmem
      obtain hsame | htick := hhistory
      · rw [hsame] at hmem
        exact hs.history id ctx' flag hmem
      · rw [htick] at hmem
        obtain heq | hmem := List.mem_cons.mp hmem
        · cases heq
        · exact hs.history id ctx' flag hmem

end

/-! ## The answer comes -/

section

variable {s t : Discovery κ} [DecidableEq κ] {w : DiscoveryWorker κ} {flag : Bool}

/-- The worker's next `k` steps answer a request. -/
def Reaches (s : Discovery κ) (k : Nat) (flag : Bool) : Prop :=
  ∃ u added, runFrom step s (List.replicate k (.worker 0)) = some u ∧ u.history = added ++ s.history ∧
    Answered added flag

theorem step_worker_eq (hw : s.workers = [w]) : s.step (.worker 0) = some (s.discoveryWorker 0 w) := by
  rw [step, hw]
  rfl

theorem Reaches.cons {k : Nat} (hw : s.workers = [w]) (h : Reaches (s.discoveryWorker 0 w) k flag) :
    Reaches s (k + 1) flag := by
  obtain ⟨u, added, hrun, hhistory, ctx, flag', hmem, hflag⟩ := h
  obtain ⟨-, -, -, -, hsame | htick⟩ := s.discoveryWorker_frame 0 w
  · refine ⟨u, added, ?_, by rw [hhistory, hsame], ctx, flag', hmem, hflag⟩
    rw [List.replicate_succ, runFrom, step_worker_eq hw]
    exact hrun
  · refine ⟨u, added ++ [_], ?_, by rw [hhistory, htick, List.append_assoc]; rfl, ctx, flag',
      List.mem_append_left _ hmem, hflag⟩
    rw [List.replicate_succ, runFrom, step_worker_eq hw]
    exact hrun

theorem reaches_starting (hw : s.workers = [w]) (hphase : w.phase = .starting)
    (hflag : flag = true → w.forceCandidateRefresh = true) : Reaches s 1 flag := by
  refine ⟨s.discoveryWorker 0 w, [.tick w.ctx w.forceCandidateRefresh], ?_, ?_, w.ctx,
    w.forceCandidateRefresh, List.mem_singleton_self _, hflag⟩
  · rw [List.replicate_one, runFrom, step_worker_eq hw]
    rfl
  · rw [discoveryWorker, hphase]
    rfl

/-- From the end of a tick on. -/
theorem reaches_ticked (hw : s.workers = [w]) (hphase : w.phase = .ticked) (halive : w.ctx ∉ s.cancelled)
    (hpending : s.discoveryPending = true) (hflag : flag = true → s.forceCandidateRefresh = true) :
    Reaches s 2 flag := by
  refine Reaches.cons hw ?_
  rw [discoveryWorker, hphase]
  dsimp only
  rw [lockWorker, if_neg halive, hpending]
  refine reaches_starting (w := ⟨w.ctx, s.forceCandidateRefresh, .starting⟩) ?_ rfl hflag
  rw [hw]
  rfl

theorem reaches_ticking (hw : s.workers = [w]) (hphase : w.phase = .ticking) (halive : w.ctx ∉ s.cancelled)
    (hpending : s.discoveryPending = true) (hflag : flag = true → s.forceCandidateRefresh = true) :
    Reaches s 3 flag := by
  refine Reaches.cons hw ?_
  rw [discoveryWorker, hphase]
  refine reaches_ticked (w := { w with phase := .ticked }) ?_ rfl halive hpending hflag
  rw [hw]
  rfl

/-- The word was left before the tick that the worker was about to start. -/
theorem reaches_before (hw : s.workers = [w]) (hphase : w.phase = .starting) (halive : w.ctx ∉ s.cancelled)
    (hpending : s.discoveryPending = true) (hflag : flag = true → s.forceCandidateRefresh = true) :
    Reaches s 4 flag := by
  refine Reaches.cons hw ?_
  rw [discoveryWorker, hphase]
  refine reaches_ticking (w := { w with phase := .ticking }) ?_ rfl halive hpending hflag
  rw [hw]
  rfl

/-- What is pending, whatever the worker is doing. -/
theorem StillPending.reaches (hi : Inv s) (hlive : s.Live) (h : s.StillPending flag) :
    ∃ k ≤ 4, Reaches s k flag := by
  obtain ⟨w, hmem, howed⟩ := h
  obtain ⟨i, hget⟩ := List.mem_iff_getElem?.mp hmem
  obtain ⟨-, -, hw⟩ := hi.workers_eq hget
  obtain ⟨hphase, hflag⟩ | ⟨hpending, hflag⟩ := howed
  · exact ⟨1, by omega, reaches_starting hw hphase hflag⟩
  obtain ⟨id, flag', hasked⟩ := hi.asked w hmem
  have halive : w.ctx ∉ s.cancelled := hlive id w.ctx flag' hasked
  cases hphase : w.phase with
  | starting => exact ⟨4, by omega, reaches_before hw hphase halive hpending hflag⟩
  | ticking => exact ⟨3, by omega, reaches_ticking hw hphase halive hpending hflag⟩
  | ticked => exact ⟨2, by omega, reaches_ticked hw hphase halive hpending hflag⟩

end

end Discovery

/-- Of the requests of a run and its worker, whatever the order of their steps: there is never more than one
worker; a call gets to the lock while its context lasts; and while the contexts of the requests last, each of
them is followed by a tick, forced if the request was, or a worker has it pending and comes to it in a few
steps of its own.  After `Start` the contexts are all the manager's. -/
theorem discovery_coalesces {κ : Type} [DecidableEq κ] (labels : List (DiscoveryLabel κ)) {t : Discovery κ}
    (h : runFrom Discovery.step Discovery.new labels = some t) :
    t.workers.length ≤ 1 ∧
      (∀ id ctx flag, t.calls[id]? = some (ctx, flag) → ctx ∉ t.cancelled →
        t.InFlight id ctx flag ∨ .request id ctx flag ∈ t.history) ∧
      (t.Live → ∀ later id ctx flag earlier, t.history = later ++ .request id ctx flag :: earlier →
        Discovery.Answered later flag ∨ t.StillPending flag ∧ ∃ k ≤ 4, t.Reaches k flag) ∧
      ∀ ctx rest, labels = .start ctx :: rest →
        ∀ id ctx' flag, .request id ctx' flag ∈ t.history → ctx' = ctx := by
  have hi : t.Inv := runFrom_invariant (fun s l t hi hl => hi.step hl) labels .new h
  have hk : t.Kept := runFrom_invariant (fun s l t hk hl => hk.step hl) labels .new h
  refine ⟨?_, ?_, ?_, ?_⟩
  · obtain ⟨-, w, hw⟩ | ⟨-, hnone⟩ := hi.running
    · rw [hw]
      exact Nat.le_refl 1
    · rw [hnone]
      exact Nat.zero_le 1
  · intro id ctx flag hcall halive
    exact (hk id ctx flag hcall).resolve_left halive
  · intro hlive later id ctx flag earlier hsplit
    obtain hanswered | hstill := hi.served hlive later id ctx flag earlier hsplit
    · exact .inl hanswered
    · exact .inr ⟨hstill, hstill.reaches hi hlive⟩
  · intro ctx rest hlabels id ctx' flag hmem
    rw [hlabels] at h
    obtain ⟨u, hu, hrest⟩ := runFrom_cons h
    have hs : u.Started ctx := by
      cases hu
      exact ⟨rfl, fun r hr => absurd hr List.not_mem_nil, fun _ _ _ hr => absurd hr List.not_mem_nil⟩
    have hs' : t.Started ctx := runFrom_invariant (fun s l t hs hl => hs.step hl) rest hs hrest
    exact hs'.history id ctx' flag hmem

/-- A forced request during a tick that is not: it is pending, and a forced tick follows. -/
theorem discovery_coalesces_forced :
    ∃ t : Discovery Nat,
      runFrom Discovery.step Discovery.new [.start 0, .call 7 false, .check 0, .lock 0, .worker 0,
          .call 7 true, .check 0, .lock 0] = some t ∧
        t.workers.length ≤ 1 ∧ t.history = [.request 1 0 true, .tick 0 false, .request 0 0 false] ∧
        t.StillPending true ∧ ∃ k ≤ 4, t.Reaches k true := by
  refine ⟨_, rfl, ?_⟩
  obtain ⟨hone, -, hserved, -⟩ := discovery_coalesces (κ := Nat)
    [.start 0, .call 7 false, .check 0, .lock 0, .worker 0, .call 7 true, .check 0, .lock 0] rfl
  have hlive := hserved fun id ctx flag _ => List.not_mem_nil
  obtain ⟨ctx, flag, hmem, -⟩ | hpending := hlive [] 1 0 true [.tick 0 false, .request 0 0 false] rfl
  · cases hmem
  · exact ⟨hone, rfl, hpending⟩

end Transport
