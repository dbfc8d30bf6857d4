import Derphole.Derptun.MuxDelivery

/-!
# Opening a stream once

`sendOpen` writes its frame again on every new carrier until it is acknowledged, and
`getOrCreateRemoteStream` answers a repeated frame from the table of streams.  The table
forgets a stream when it ends, so a frame that comes after that makes a second stream
with the same id, and `Accept` yields a second connection.

This is the only way to a second connection: as long as no such frame is handled, the
ids of all streams a side ever had are distinct.
-/

namespace Derptun

open Lib

/-- The ids of all streams the side ever had, in the order in which they were made. -/
def Mux.ids (m : Mux) : List Nat := m.objs.map MuxStream.id

/-- How many connections `Accept` yielded for the id. -/
def Mux.accepted (m : Mux) (id : Nat) : Nat :=
  m.objs.countP fun s => decide (s.id = id) && s.remote && s.app

/-- An open frame finds its stream in the table, or is the first one for its id. -/
def OpensFresh (t : Muxes) : MuxRole × MuxLabel → Prop
  | (role, .receive (.frameOpen id)) =>
      (t role).streams.lookup id = none → ∀ s ∈ (t role).objs, s.id ≠ id
  | _ => True

instance OpensFresh.decidable (t : Muxes) : ∀ l, Decidable (OpensFresh t l)
  | (role, .receive (.frameOpen id)) =>
      inferInstanceAs (Decidable ((t role).streams.lookup id = none → ∀ s ∈ (t role).objs, s.id ≠ id))
  | (_, .receive (.frameData _ _ _)) => isTrue trivial
  | (_, .receive (.frameClose _)) => isTrue trivial
  | (_, .receive (.frameAck _ _)) => isTrue trivial
  | (_, .replaceCarrier _) => isTrue trivial
  | (_, .markCarrierDead) => isTrue trivial
  | (_, .close) => isTrue trivial
  | (_, .openStream) => isTrue trivial
  | (_, .stream _ _) => isTrue trivial

section Ids

variable {m m' : Mux} {i : Nat} {s : MuxStream}

theorem ids_setObj {s' : MuxStream} (hs : m.objs[i]? = some s)
    (hobjs : m'.objs = m.objs.set i s') (hid : s'.id = s.id) : m'.ids = m.ids := by
  obtain ⟨pre, post, hold, hset⟩ := set_split hs
  rw [Mux.ids, Mux.ids, hobjs, hset s', hold]
  simp [hid]

theorem handleAck_id (s : MuxStream) (ack : Nat) : (s.handleAck ack).id = s.id := by
  rw [MuxStream.handleAck]
  split
  · rfl
  split
  · rfl
  · rfl

theorem removeStream_objs (m : Mux) (id i : Nat) : (m.removeStream id i).objs = m.objs :=
  (removeStream_spec m id i).2.1

theorem deliver_objs (m : Mux) (i : Nat) (s : MuxStream) (seq : Nat) (payload : List UInt8) :
    ∃ s', (m.deliver i s seq payload).objs = m.objs.set i s' ∧ s'.id = s.id := by
  rw [Mux.deliver]
  dsimp only
  split
  · exact ⟨_, rfl, rfl⟩
  split
  · exact ⟨_, removeStream_objs _ _ _, rfl⟩
  · exact ⟨_, rfl, rfl⟩

/-- A step at a stream changes only that object, and not its id. -/
theorem streamStep_objs {action : StreamAction} (hr : m.streamStep i s action = some m') :
    ∃ s', m'.objs = m.objs.set i s' ∧ s'.id = s.id := by
  cases Mux.streamMove hr with
  | @deliver seq payload => exact deliver_objs m i s seq payload
  | removed => exact ⟨{ s with pump := .ended }, removeStream_objs _ _ _, rfl⟩
  | deliverFails => exact ⟨{ s with delivering := none }, removeStream_objs _ _ _, rfl⟩
  | _ => exact ⟨_, rfl, rfl⟩

theorem handleFrame_ids {inbound : List Frame} {f : Frame} (hf : f ∈ inbound) :
    (m.handleFrame f).ids = m.ids ∨
      (MuxLabel.receive f = .openStream ∧ (m.handleFrame f).ids = m.ids ++ [m.nextStreamID]) ∨
      ∃ id, MuxLabel.receive f = .receive (.frameOpen id) ∧ .frameOpen id ∈ inbound ∧
        m.streams.lookup id = none ∧ (m.handleFrame f).ids = m.ids ++ [id] := by
  cases f with
  | frameOpen id =>
      rw [Mux.handleFrame]
      split
      · exact .inl rfl
      · rename_i hnone
        exact .inr (.inr ⟨id, rfl, hf, hnone, by simp [Mux.ids, MuxStream.new]⟩)
  | frameData id seq payload =>
      rw [Mux.handleFrame]
      split
      · exact .inl rfl
      split
      · exact .inl rfl
      · rename_i hs
        exact .inl (ids_setObj hs rfl rfl)
  | frameAck id seq =>
      rw [Mux.handleFrame]
      split
      · exact .inl rfl
      split
      · exact .inl rfl
      · rename_i hs
        exact .inl (ids_setObj hs rfl (handleAck_id _ _))
  | frameClose id =>
      rw [Mux.handleFrame]
      split
      · exact .inl rfl
      split
      · exact .inl rfl
      · rename_i hs
        exact .inl (ids_setObj hs rfl rfl)

/-- Where the ids of a side come from: `OpenStream` takes its next one, and a frame of
the peer opens one that the table does not have. -/
theorem step_ids {inbound : List Frame} {l : MuxLabel} (hs : m.step inbound l = some m') :
    m'.ids = m.ids ∨ (l = .openStream ∧ m'.ids = m.ids ++ [m.nextStreamID]) ∨
      ∃ id, l = .receive (.frameOpen id) ∧ .frameOpen id ∈ inbound ∧ m.streams.lookup id = none ∧
        m'.ids = m.ids ++ [id] := by
  cases l with
  | replaceCarrier carrier =>
      simp only [Mux.step] at hs
      split at hs
      all_goals cases hs
      exact .inl rfl
  | markCarrierDead =>
      simp only [Mux.step] at hs
      split at hs
      all_goals cases hs
      exact .inl rfl
  | close =>
      simp only [Mux.step] at hs
      split at hs
      all_goals cases hs
      exact .inl rfl
  | openStream =>
      simp only [Mux.step] at hs
      split at hs
      all_goals cases hs
      exact .inr (.inl ⟨rfl, by simp [Mux.ids, MuxStream.new]⟩)
  | receive f =>
      simp only [Mux.step] at hs
      split at hs
      · rename_i hf
        cases hs
        exact handleFrame_ids hf
      · cases hs
  | stream i action =>
      simp only [Mux.step] at hs
      split at hs
      · cases hs
      · rename_i s hi
        obtain ⟨s', hobjs, hid⟩ := streamStep_objs hs
        exact .inl (ids_setObj hi hobjs hid)

end Ids

/-- No id is used twice on a side. -/
structure Distinct (t : Muxes) : Prop where
  inv : Inv t
  nodup : ∀ role, (t role).ids.Nodup

theorem mem_ids {m : Mux} {id : Nat} (h : id ∈ m.ids) : ∃ s ∈ m.objs, s.id = id :=
  List.mem_map.mp h

theorem Distinct.step {t t' : Muxes} {l : MuxRole × MuxLabel} (h : Distinct t)
    (hfresh : OpensFresh t l) (hs : t.step l = some t') : Distinct t' := by
  refine ⟨h.inv.step hs, fun r => ?_⟩
  obtain ⟨role, l⟩ := l
  obtain ⟨m, hm, rfl⟩ := Option.map_eq_some_iff.mp hs
  have hold := h.nodup role
  have hnew : m.ids.Nodup := by
    rcases step_ids hm with hids | ⟨-, hids⟩ | ⟨id, hl, -, hnone, hids⟩
    · rw [hids]
      exact hold
    · -- the next id of one's own is above all that were used
      rw [hids]
      refine List.nodup_append.mpr ⟨hold, List.nodup_singleton _, fun a ha b hb hab => ?_⟩
      obtain ⟨s, hs, hid⟩ := mem_ids ha
      have hnext : s.id = (t role).nextStreamID := by rw [hid, hab, List.mem_singleton.mp hb]
      have hlt := (h.inv.side role).fresh s hs (hnext ▸ (h.inv.side role).next)
      omega
    · rw [hids]
      simp only at hl
      rw [hl] at hfresh
      refine List.nodup_append.mpr ⟨hold, List.nodup_singleton _, fun a ha b hb hab => ?_⟩
      obtain ⟨s, hs, hid⟩ := mem_ids ha
      exact hfresh hnone s hs (hid.trans (hab.trans (List.mem_singleton.mp hb)))
  rcases MuxRole.eq_or_peer role r with rfl | rfl
  · rw [Function.update_self]
    exact hnew
  · rw [Function.update_of_ne (MuxRole.peer_ne role)]
    exact h.nodup role.peer

theorem Distinct.init : Distinct Muxes.init :=
  ⟨Inv.init, fun _ => List.nodup_nil⟩

theorem Distinct.run {ls : List (MuxRole × MuxLabel)} {t : Muxes}
    (hfresh : StepsMeet Muxes.step OpensFresh Muxes.init ls)
    (hrun : runFrom Muxes.step Muxes.init ls = some t) : Distinct t :=
  runFrom_invariant_of_meet (fun _ _ _ h hok hs => h.step hok hs) ls Distinct.init hfresh hrun

theorem Distinct.count {t : Muxes} (h : Distinct t) (role : MuxRole) (id : Nat) :
    (t role).objs.countP (fun s => decide (s.id = id)) ≤ 1 := by
  have hcount := List.nodup_iff_count_le_one.mp (h.nodup role) id
  rw [Mux.ids, List.count, List.countP_map] at hcount
  exact hcount

/-- In every run in which no open frame comes after its stream was removed, `Accept`
yields at most one connection for an id. -/
theorem mux_accepts_once (ls : List (MuxRole × MuxLabel)) (t : Muxes)
    (hrun : runFrom Muxes.step Muxes.init ls = some t)
    (hfresh : StepsMeet Muxes.step OpensFresh Muxes.init ls) (role : MuxRole) (id : Nat) :
    (t role).accepted id ≤ 1 := by
  refine Nat.le_trans (List.countP_mono_left fun s _ hs => ?_) ((Distinct.run hfresh hrun).count role id)
  rw [Bool.and_eq_true, Bool.and_eq_true] at hs
  exact hs.1.1

/-- The client opens a stream, and the server accepts it. -/
def openedRun : List (MuxRole × MuxLabel) :=
  [(.client, .replaceCarrier true), (.server, .replaceCarrier true), (.client, .openStream),
    (.client, .stream 0 .snapshot), (.client, .stream 0 .write), (.server, .receive (.frameOpen 1)),
    (.server, .stream 0 .accept)]

/-- The acknowledgement is lost with the carrier, and the frame is sent again. -/
def reopenRun : List (MuxRole × MuxLabel) :=
  [(.client, .markCarrierDead), (.client, .replaceCarrier true), (.server, .replaceCarrier true),
    (.client, .stream 0 .carrierChanged), (.client, .stream 0 .snapshot), (.client, .stream 0 .write),
    (.server, .receive (.frameOpen 1))]

/-- The stream is still there when its open frame comes again. -/
theorem mux_accepts_once_open : ∃ t,
    runFrom Muxes.step Muxes.init (openedRun ++ reopenRun) = some t ∧ (t .server).accepted 1 ≤ 1 := by
  have h : (runFrom Muxes.step Muxes.init (openedRun ++ reopenRun)).isSome = true := by decide +kernel
  obtain ⟨t, hrun⟩ := Option.isSome_iff_exists.mp h
  exact ⟨t, hrun, mux_accepts_once _ t hrun (by decide +kernel) .server 1⟩

/-- The server's application closes the stream before the frame is sent again, and
accepts a second connection for the same call of `OpenStream`. -/
theorem mux_accepts_twice : ∃ t,
    runFrom Muxes.step Muxes.init (openedRun ++ [(.server, .stream 0 .appClose),
      (.server, .stream 0 .readEnds), (.server, .stream 0 (.sendClose true)),
      (.server, .stream 0 .removeStream)] ++ reopenRun ++ [(.server, .stream 1 .accept)]) = some t ∧
      (t .client).ids = [1] ∧ (t .server).accepted 1 = 2 := by
  have h : (runFrom Muxes.step Muxes.init (openedRun ++ [(.server, .stream 0 .appClose),
      (.server, .stream 0 .readEnds), (.server, .stream 0 (.sendClose true)),
      (.server, .stream 0 .removeStream)] ++ reopenRun ++ [(.server, .stream 1 .accept)])).any (fun t =>
        decide ((t .client).ids = [1] ∧ (t .server).accepted 1 = 2)) = true := by decide +kernel
  obtain ⟨t, hrun, ht⟩ := (Option.any_eq_true ..).mp h
  exact ⟨t, hrun, of_decide_eq_true ht⟩

end Derptun
