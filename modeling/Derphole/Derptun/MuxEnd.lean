import Derphole.Derptun.MuxOpen

/-!
# The end of a stream

An application that reads from a stream sees its end when the multiplexer closes its end
of the pipe.  While neither multiplexer is closed this happens only when a close frame of
the peer is handled, and `outboundPump` sends one whenever it ends: when its application
closed the stream, and also when `sendChunk` gave a chunk up at its deadline.  In the
first case every chunk before was acknowledged, so the reader has it.  In the second case
the reader may miss the rest when the frame is written, and sees the same end.
-/

namespace Derptun

open Lib

/-- The stream whose close frame is written at the step. -/
def closeWritten : MuxRole × MuxLabel → Option (MuxRole × Nat)
  | (role, .stream i (.sendClose true)) => some (role, i)
  | _ => none

/-- Where `sendChunk` gave a chunk up, the close frame is written only after the peer's
application was handed the whole chunk, and no stream is made anew for an id that was in use. -/
def EndsKept (t : Muxes) (l : MuxRole × MuxLabel) : Prop :=
  OpensFresh t l ∧ ∀ p ∈ closeWritten l, ∀ s ∈ (t p.1).objs[p.2]?, s.pump = .closing true →
    DeliveredBy (t p.1.peer).objs s.id s.written.length

instance DeliveredBy.decidable (objs : List MuxStream) (id n : Nat) : Decidable (DeliveredBy objs id n) :=
  inferInstanceAs (Decidable (n = 0 ∨ ∃ s ∈ objs, s.id = id ∧ n ≤ s.toApp.length))

instance EndsKept.decidable (t : Muxes) (l : MuxRole × MuxLabel) : Decidable (EndsKept t l) :=
  inferInstanceAs (Decidable (_ ∧ _))

/-- The stream's application has been given up on by `OpenStream`. -/
structure Abandoned (s : MuxStream) : Prop where
  pump : s.pump = .ended
  remote : s.remote = false
  app : s.app = false

/-- What the pump has taken from its application and the peer's has not been handed. -/
def Settled (peers : List MuxStream) (s : MuxStream) : Prop :=
  match s.pump with
  | .opening _ => s.written = [] ∧ s.remote = false ∧ s.app = false
  | .sending _ _ _ => ∃ p, s.pending = some p ∧ p.endSeq = s.written.length
  | .reading | .closing false => DeliveredBy peers s.id s.written.length
  | .closing true | .leaving | .ended => True

/-- The pump has left, and the peer's application was handed all that it took. -/
structure Finished (peers : List MuxStream) (s : MuxStream) : Prop where
  pump : s.pump = .leaving ∨ s.pump = .ended
  delivered : DeliveredBy peers s.id s.written.length

/-- How one step at a stream may bring it to an end. -/
structure Turns (peers : List MuxStream) (s s' : MuxStream) (frames : List Frame) (closes : Prop) :
    Prop where
  id : s'.id = s.id
  toApp : s.toApp.length ≤ s'.toApp.length
  settled : Settled peers s'
  finished : Finished peers s → Finished peers s'
  frames : ∀ id, .frameClose id ∈ frames → id = s.id ∧ Finished peers s'
  abandoned : Abandoned s → Abandoned s'
  closed : s'.connClosed = true → s.connClosed = true ∨ closes ∨ Abandoned s'

section Settled

variable {peers : List MuxStream} {s : MuxStream}

theorem Settled.opening (h : Settled peers s) {phase : WritePhase} (hp : s.pump = .opening phase) :
    s.written = [] ∧ s.remote = false ∧ s.app = false := by
  simpa only [Settled, hp] using h

theorem Settled.sending (h : Settled peers s) {start : Nat} {payload : List UInt8} {phase : WritePhase}
    (hp : s.pump = .sending start payload phase) :
    ∃ p, s.pending = some p ∧ p.endSeq = s.written.length := by
  simpa only [Settled, hp] using h

theorem Settled.reading (h : Settled peers s) (hp : s.pump = .reading) :
    DeliveredBy peers s.id s.written.length := by
  simpa only [Settled, hp] using h

theorem Settled.closing (h : Settled peers s) (hp : s.pump = .closing false) :
    DeliveredBy peers s.id s.written.length := by
  simpa only [Settled, hp] using h

theorem DeliveredBy.nil {id : Nat} {written : List UInt8} (h : written = []) :
    DeliveredBy peers id written.length :=
  .inl (by rw [h, List.length_nil])

/-- What the peer was handed only grows. -/
theorem Settled.mono (h : Settled peers s) {peers' : List MuxStream}
    (hdelivered : ∀ id n, DeliveredBy peers id n → DeliveredBy peers' id n) : Settled peers' s := by
  unfold Settled at h ⊢
  split at h
  · exact h
  · exact h
  · exact hdelivered _ _ h
  · exact hdelivered _ _ h
  all_goals exact trivial

theorem Finished.mono (h : Finished peers s) {peers' : List MuxStream}
    (hdelivered : ∀ id n, DeliveredBy peers id n → DeliveredBy peers' id n) : Finished peers' s :=
  ⟨h.pump, hdelivered _ _ h.delivered⟩

theorem handleAck_settled (h : Settled peers s) (ack : Nat) : Settled peers (s.handleAck ack) := by
  rw [MuxStream.handleAck]
  split
  · exact h
  rename_i p hp
  split
  · exact h
  · unfold Settled at h ⊢
    dsimp only
    split at h
    · exact h
    · obtain ⟨q, hq, hend⟩ := h
      rw [hp] at hq
      cases hq
      exact ⟨_, rfl, hend⟩
    all_goals exact h

end Settled

/-- A step that leaves the pump and the pipe alone. -/
theorem Turns.same {peers : List MuxStream} {s s' : MuxStream} {frames : List Frame} {closes : Prop}
    (hsettled : Settled peers s')
    (hsame : (s'.id, s'.pump, s'.written, s'.remote, s'.app, s'.connClosed) =
      (s.id, s.pump, s.written, s.remote, s.app, s.connClosed))
    (htoApp : s.toApp.length ≤ s'.toApp.length)
    (hframes : ∀ id, .frameClose id ∉ frames) : Turns peers s s' frames closes := by
  simp only [Prod.mk.injEq] at hsame
  obtain ⟨hid, hpump, hwritten, hremote, happ, hclosed⟩ := hsame
  refine ⟨hid, htoApp, hsettled, fun hf => ⟨?_, ?_⟩, fun id hf => absurd hf (hframes id), fun ha => ?_,
    fun hc => .inl (hclosed ▸ hc)⟩
  · rw [hpump]
    exact hf.pump
  · rw [hid, hwritten]
    exact hf.delivered
  · exact ⟨hpump.trans ha.pump, hremote.trans ha.remote, happ.trans ha.app⟩

/-- A step of a pump that has not left. -/
theorem Turns.pump {peers : List MuxStream} {s s' : MuxStream} {frames : List Frame} {closes : Prop}
    (hrunning : ¬ (s.pump = .leaving ∨ s.pump = .ended)) (hsettled : Settled peers s')
    (hsame : (s'.id, s'.toApp) = (s.id, s.toApp))
    (hclosed : s'.connClosed = true → s.connClosed = true ∨ Abandoned s')
    (hframes : ∀ id, .frameClose id ∈ frames → id = s.id ∧ Finished peers s') :
    Turns peers s s' frames closes where
  id := (Prod.mk.inj hsame).1
  toApp := Nat.le_of_eq (congrArg List.length (Prod.mk.inj hsame).2.symm)
  settled := hsettled
  finished := fun hf => absurd hf.pump hrunning
  frames := hframes
  abandoned := fun ha => absurd (.inr ha.pump) hrunning
  closed := fun hc => (hclosed hc).imp_right .inr

section Steps

variable {t : Muxes} {role : MuxRole} {i : Nat} {s : MuxStream} {m : Mux}

/-- What a step does to one stream: the object that takes its place, and the frames. -/
def TurnsTo (t : Muxes) (role : MuxRole) (i : Nat) (s : MuxStream) (m : Mux) (closes : Prop) : Prop :=
  ∃ s' frames, m.objs = (t role).objs.set i s' ∧ m.sent = (t role).sent ++ frames ∧
    m.closed = (t role).closed ∧ Turns (t role.peer).objs s s' frames closes

theorem TurnsTo.silent {s' : MuxStream} {closes : Prop} (hobjs : m.objs = (t role).objs.set i s')
    (hsent : m.sent = (t role).sent) (hclosed : m.closed = (t role).closed)
    (h : Turns (t role.peer).objs s s' [] closes) : TurnsTo t role i s m closes :=
  ⟨s', [], hobjs, hsent.trans (List.append_nil _).symm, hclosed, h⟩

theorem removeStream_closed (m : Mux) (id i : Nat) : (m.removeStream id i).closed = m.closed := by
  rw [Mux.removeStream]
  split
  · rfl
  · rfl

theorem removeStream_sent (m : Mux) (id i : Nat) : (m.removeStream id i).sent = m.sent :=
  (removeStream_spec m id i).2.2.1

/-- `deliver` has the lock. -/
theorem deliver_turns (hset : Settled (t role.peer).objs s) {seq : Nat} {payload : List UInt8}
    {closes : Prop} : TurnsTo t role i s ((t role).deliver i s seq payload) closes := by
  rw [Mux.deliver]
  dsimp only
  split
  · exact ⟨_, [_], rfl, rfl, rfl, Turns.same hset rfl (Nat.le_refl _) (fun _ hf => by simp at hf)⟩
  split
  · exact TurnsTo.silent (removeStream_objs _ _ _) (removeStream_sent _ _ _) (removeStream_closed _ _ _)
      (Turns.same hset rfl (Nat.le_refl _) (fun _ hf => by cases hf))
  · exact TurnsTo.silent rfl rfl rfl (Turns.same hset rfl (Nat.le_refl _) (fun _ hf => by cases hf))

/-- One step at a stream. -/
theorem streamStep_turns (h : Inv t) (hs : (t role).objs[i]? = some s)
    (hset : Settled (t role.peer).objs s) {action : StreamAction}
    (hkept : EndsKept t (role, .stream i action)) (hr : (t role).streamStep i s action = some m) :
    TurnsTo t role i s m (action = .appClose ∨ (t role).closed = true) := by
  have hlinked := h.linked role s (List.mem_of_getElem? hs)
  have hnone : ∀ id, Frame.frameClose id ∉ ([] : List Frame) := fun _ hf => by cases hf
  have hnone' : ∀ {s' : MuxStream}, ∀ id, .frameClose id ∈ ([] : List Frame) →
      id = s.id ∧ Finished (t role.peer).objs s' := fun _ hf => by cases hf
  cases Mux.streamMove hr with
  | snapshotOpen hp =>
      exact TurnsTo.silent rfl rfl rfl (Turns.pump (by simp [hp]) (hset.opening hp) rfl .inl hnone')
  | snapshotChunk hp =>
      exact TurnsTo.silent rfl rfl rfl (Turns.pump (by simp [hp]) (hset.sending hp) rfl .inl hnone')
  | writeOpen _ hp =>
      exact ⟨_, [_], rfl, rfl, rfl,
        Turns.pump (by simp [hp]) (hset.opening hp) rfl .inl (fun _ hf => by simp at hf)⟩
  | writeChunk _ hp =>
      exact ⟨_, [_], rfl, rfl, rfl,
        Turns.pump (by simp [hp]) (hset.sending hp) rfl .inl (fun _ hf => by simp at hf)⟩
  | changedOpen hp _ =>
      exact TurnsTo.silent rfl rfl rfl (Turns.pump (by simp [hp]) (hset.opening hp) rfl .inl hnone')
  | changedChunk hp _ =>
      exact TurnsTo.silent rfl rfl rfl (Turns.pump (by simp [hp]) (hset.sending hp) rfl .inl hnone')
  | opened hp _ =>
      exact TurnsTo.silent rfl rfl rfl (Turns.pump (by simp [hp])
        (DeliveredBy.nil (hset.opening hp).1) rfl .inl hnone')
  | openFails hp =>
      obtain ⟨-, hremote, happ⟩ := hset.opening hp
      exact TurnsTo.silent rfl rfl rfl (Turns.pump (by simp [hp]) trivial rfl
        (fun _ => .inr ⟨rfl, hremote, happ⟩) hnone')
  | accept hg =>
      refine TurnsTo.silent rfl rfl rfl ⟨rfl, Nat.le_refl _, ?_, fun hf => ⟨hf.pump, hf.delivered⟩, hnone',
        fun ha => ?_, .inl⟩
      · unfold Settled at hset ⊢
        dsimp only
        split at hset
        · rw [hset.2.1] at hg
          cases hg.1
        all_goals exact hset
      · rw [ha.remote] at hg
        cases hg.1
  | appWrite hg =>
      have hsend := ((h.side role).streams s (List.mem_of_getElem? hs)).sendSeq
      refine TurnsTo.silent rfl rfl rfl (Turns.pump (by simp [hg.1]) ⟨_, rfl, ?_⟩ rfl .inl hnone')
      show s.sendSeq + _ = (s.written ++ _).length
      rw [List.length_append, hsend]
  | appClose _ =>
      refine TurnsTo.silent rfl rfl rfl ⟨rfl, Nat.le_refl _, hset, fun hf => ⟨hf.pump, hf.delivered⟩,
        hnone', fun ha => ?_, fun _ => .inr (.inl (.inl rfl))⟩
      exact ⟨ha.pump, ha.remote, ha.app⟩
  | muxClose hg =>
      refine TurnsTo.silent rfl rfl rfl ⟨rfl, Nat.le_refl _, hset, fun hf => ⟨hf.pump, hf.delivered⟩,
        hnone', fun ha => ?_, fun _ => .inr (.inl (.inr hg.1))⟩
      exact ⟨ha.pump, ha.remote, ha.app⟩
  | chunkAcked hp hpending hacked =>
      -- the chunk ends where the writes end
      obtain ⟨p, hp', hend⟩ := hset.sending hp
      rw [hpending] at hp'
      cases hp'
      have hdelivered := hlinked.acked _ hpending hacked
      rw [hend] at hdelivered
      exact TurnsTo.silent rfl rfl rfl (Turns.pump (by simp [hp]) hdelivered rfl .inl hnone')
  | chunkFails hp =>
      exact TurnsTo.silent rfl rfl rfl (Turns.pump (by simp [hp]) trivial rfl .inl hnone')
  | readEnds hg =>
      exact TurnsTo.silent rfl rfl rfl (Turns.pump (by simp [hg.1]) (hset.reading hg.1) rfl .inl hnone')
  | @closeSent failed hp _ =>
      have hdelivered : DeliveredBy (t role.peer).objs s.id s.written.length := by
        cases failed with
        | true => exact hkept.2 (role, i) rfl s (Option.mem_def.mpr hs) hp
        | false => exact hset.closing hp
      refine ⟨_, [.frameClose s.id], rfl, rfl, rfl,
        Turns.pump (by simp [hp]) trivial rfl .inl fun id hf => ?_⟩
      simp only [List.mem_singleton, Frame.frameClose.injEq] at hf
      exact ⟨hf, .inl rfl, hdelivered⟩
  | closeLost hp =>
      exact TurnsTo.silent rfl rfl rfl (Turns.pump (by simp [hp]) trivial rfl .inl hnone')
  | removed hp =>
      refine TurnsTo.silent (removeStream_objs _ _ _) (removeStream_sent _ _ _) (removeStream_closed _ _ _)
        ⟨rfl, Nat.le_refl _, trivial, fun hf => ⟨.inr rfl, hf.delivered⟩, hnone', fun ha => ?_, .inl⟩
      rw [Abandoned.pump ha] at hp
      cases hp
  | deliver _ => exact deliver_turns hset
  | handOver _ _ =>
      refine TurnsTo.silent rfl rfl rfl (Turns.same hset rfl ?_ hnone)
      simp
  | deliverDone _ _ =>
      exact ⟨_, [_], rfl, rfl, rfl, Turns.same hset rfl (Nat.le_refl _) (fun _ hf => by simp at hf)⟩
  | deliverFails _ _ =>
      exact TurnsTo.silent (removeStream_objs _ _ _) (removeStream_sent _ _ _)
        (removeStream_closed _ _ _) (Turns.same hset rfl (Nat.le_refl _) hnone)

end Steps

/-! ## Runs -/

/-- Every close frame comes from a pump that has left with all it took delivered, and the
pipe of the stream `k` of the side `r` was closed by nothing but such a frame. -/
structure EndInv (r : MuxRole) (k : Nat) (t : Muxes) : Prop where
  distinct : Distinct t
  settled : ∀ role, ∀ s ∈ (t role).objs, Settled (t role.peer).objs s
  closes : ∀ role id, .frameClose id ∈ (t role).sent →
    ∃ s ∈ (t role).objs, s.id = id ∧ Finished (t role.peer).objs s
  muxOpen : ∀ role, (t role).closed = false
  reader : ∀ s, (t r).objs[k]? = some s → s.connClosed = true →
    Abandoned s ∨ .frameClose s.id ∈ (t r.peer).sent

section Runs

variable {r role : MuxRole} {k i : Nat} {t : Muxes} {m : Mux} {s s' : MuxStream}

/-- One side moves on. -/
theorem EndInv.update (h : EndInv r k t) (hdistinct : Distinct (Function.update t role m))
    (hsettled : ∀ s ∈ m.objs, Settled (t role.peer).objs s)
    (hdelivered : ∀ id n, DeliveredBy (t role).objs id n → DeliveredBy m.objs id n)
    (hcloses : ∀ id, .frameClose id ∈ m.sent → ∃ s ∈ m.objs, s.id = id ∧ Finished (t role.peer).objs s)
    (hclosed : m.closed = (t role).closed) (hsent : ∀ f ∈ (t role).sent, f ∈ m.sent)
    (hreader : role = r → ∀ s, m.objs[k]? = some s → s.connClosed = true →
      Abandoned s ∨ .frameClose s.id ∈ (t role.peer).sent) :
    EndInv r k (Function.update t role m) := by
  have hpeer : Function.update t role m role.peer = t role.peer :=
    Function.update_of_ne (MuxRole.peer_ne role) _ _
  have hself : Function.update t role m role = m := Function.update_self ..
  refine ⟨hdistinct, fun a b hb => ?_, fun a id hf => ?_, fun a => ?_, ?_⟩
  · rcases MuxRole.eq_or_peer role a with rfl | rfl
    · rw [hself] at hb
      rw [hpeer]
      exact hsettled b hb
    · rw [hpeer] at hb
      have := h.settled role.peer b hb
      rw [MuxRole.peer_peer] at this ⊢
      rw [hself]
      exact this.mono hdelivered
  · rcases MuxRole.eq_or_peer role a with rfl | rfl
    · rw [hself] at hf ⊢
      rw [hpeer]
      exact hcloses id hf
    · rw [hpeer] at hf ⊢
      obtain ⟨b, hb, hid, hfinished⟩ := h.closes role.peer id hf
      rw [MuxRole.peer_peer] at hfinished ⊢
      rw [hself]
      exact ⟨b, hb, hid, hfinished.mono hdelivered⟩
  · rcases MuxRole.eq_or_peer role a with rfl | rfl
    · rw [hself, hclosed]
      exact h.muxOpen a
    · rw [hpeer]
      exact h.muxOpen role.peer
  · rcases MuxRole.eq_or_peer role r with rfl | rfl
    · rw [hself, hpeer]
      exact hreader rfl
    · rw [hpeer, MuxRole.peer_peer, hself]
      intro s hs hc
      have := h.reader s hs hc
      rw [MuxRole.peer_peer] at this
      exact this.imp_right (hsent _)

theorem DeliveredBy.set {objs : List MuxStream} (hs : objs[i]? = some s) (hid : s'.id = s.id)
    (htoApp : s.toApp.length ≤ s'.toApp.length) {id n : Nat} (h : DeliveredBy objs id n) :
    DeliveredBy (objs.set i s') id n := by
  rcases h with hz | ⟨a, ha, haid, hn⟩
  · exact .inl hz
  obtain ⟨pre, post, hold, hset⟩ := set_split hs
  rw [hset s']
  rw [hold] at ha
  rcases List.mem_append.mp ha with ha | ha
  · exact .inr ⟨a, List.mem_append_left _ ha, haid, hn⟩
  · rcases List.mem_cons.mp ha with rfl | ha
    · exact .inr ⟨s', by simp, hid.trans haid, Nat.le_trans hn htoApp⟩
    · exact .inr ⟨a, List.mem_append_right _ (List.mem_cons_of_mem _ ha), haid, hn⟩

/-- One stream moves on. -/
theorem EndInv.turns (h : EndInv r k t) (hdistinct : Distinct (Function.update t role m))
    (hs : (t role).objs[i]? = some s) {c : Prop} (hm : TurnsTo t role i s m c)
    (hreader : c → role = r → i = k → .frameClose s.id ∈ (t role.peer).sent) :
    EndInv r k (Function.update t role m) := by
  obtain ⟨s', frames, hobjs, hsent, hclosed, hturn⟩ := hm
  have hi := (List.getElem?_eq_some_iff.mp hs).1
  refine h.update hdistinct (fun a ha => ?_) (fun id n hd => ?_) (fun id hf => ?_) hclosed
    (fun f hf => ?_) fun hr a ha hc => ?_
  · rw [hobjs] at ha
    rcases List.mem_or_eq_of_mem_set ha with ha | rfl
    · exact h.settled role a ha
    · exact hturn.settled
  · rw [hobjs]
    exact hd.set hs hturn.id hturn.toApp
  · rw [hobjs]
    rw [hsent] at hf
    rcases List.mem_append.mp hf with hf | hf
    · -- a pump that has left stays so
      obtain ⟨a, ha, haid, hfinished⟩ := h.closes role id hf
      obtain ⟨pre, post, hold, hset⟩ := set_split hs
      rw [hset s']
      rw [hold] at ha
      rcases List.mem_append.mp ha with ha | ha
      · exact ⟨a, List.mem_append_left _ ha, haid, hfinished⟩
      · rcases List.mem_cons.mp ha with rfl | ha
        · exact ⟨s', by simp, hturn.id.trans haid, hturn.finished hfinished⟩
        · exact ⟨a, List.mem_append_right _ (List.mem_cons_of_mem _ ha), haid, hfinished⟩
    · obtain ⟨hid, hfinished⟩ := hturn.frames id hf
      exact ⟨s', List.mem_set hi _, hturn.id.trans hid.symm, hfinished⟩
  · rw [hsent]
    exact List.mem_append_left _ hf
  · rw [hobjs, List.getElem?_set] at ha
    by_cases hik : i = k
    · rw [if_pos hik, if_pos (hik ▸ hi)] at ha
      cases ha
      rw [hturn.id]
      rcases hturn.closed hc with hold | hnow | habandoned
      · rw [hik] at hs
        subst hr
        rcases h.reader s hs hold with ha | hf
        · exact .inl (hturn.abandoned ha)
        · exact .inr hf
      · exact .inr (hreader hnow hr hik)
      · exact .inl habandoned
    · rw [if_neg hik] at ha
      subst hr
      exact h.reader a ha hc

/-- The streams stay as they are. -/
theorem EndInv.same (h : EndInv r k t) (hdistinct : Distinct (Function.update t role m))
    (hobjs : m.objs = (t role).objs) (hclosed : m.closed = (t role).closed) (frames : List Frame)
    (hsent : m.sent = (t role).sent ++ frames) (hframes : ∀ id, .frameClose id ∉ frames) :
    EndInv r k (Function.update t role m) := by
  refine h.update hdistinct ?_ (fun id n hd => hobjs ▸ hd) (fun id hf => ?_) hclosed (fun f hf => ?_)
    fun hr => ?_
  · rw [hobjs]
    exact h.settled role
  · rw [hsent] at hf
    rw [hobjs]
    rcases List.mem_append.mp hf with hf | hf
    · exact h.closes role id hf
    · exact absurd hf (hframes id)
  · rw [hsent]
    exact List.mem_append_left _ hf
  · subst hr
    rw [hobjs]
    exact h.reader

/-- A stream is added. -/
theorem EndInv.newObj (h : EndInv r k t) (hdistinct : Distinct (Function.update t role m))
    {new : MuxStream} (hobjs : m.objs = (t role).objs ++ [new]) (hclosed : m.closed = (t role).closed)
    (hnew : Settled (t role.peer).objs new) (hopen : new.connClosed = false) (frames : List Frame)
    (hsent : m.sent = (t role).sent ++ frames) (hframes : ∀ id, .frameClose id ∉ frames) :
    EndInv r k (Function.update t role m) := by
  refine h.update hdistinct (fun a ha => ?_) (fun id n hd => ?_) (fun id hf => ?_) hclosed
    (fun f hf => ?_) fun hr a ha hc => ?_
  · rw [hobjs] at ha
    rcases List.mem_append.mp ha with ha | ha
    · exact h.settled role a ha
    · rw [List.mem_singleton.mp ha]
      exact hnew
  · rw [hobjs]
    rcases hd with hz | ⟨a, ha, hd⟩
    · exact .inl hz
    · exact .inr ⟨a, List.mem_append_left _ ha, hd⟩
  · rw [hsent] at hf
    rw [hobjs]
    rcases List.mem_append.mp hf with hf | hf
    · obtain ⟨a, ha, hfinished⟩ := h.closes role id hf
      exact ⟨a, List.mem_append_left _ ha, hfinished⟩
    · exact absurd hf (hframes id)
  · rw [hsent]
    exact List.mem_append_left _ hf
  · subst hr
    rw [hobjs] at ha
    by_cases hlt : k < (t role).objs.length
    · rw [List.getElem?_append_left hlt] at ha
      exact h.reader a ha hc
    · rw [List.getElem?_append_right (Nat.le_of_not_lt hlt)] at ha
      rw [List.mem_singleton.mp (List.mem_of_getElem? ha), hopen] at hc
      cases hc

theorem handleAck_turns {peers : List MuxStream} (hset : Settled peers s) (seq : Nat) (openAck : Bool)
    {closes : Prop} :
    Turns peers s (MuxStream.handleAck { s with openAck := openAck } seq) [] closes := by
  have hset' : Settled peers (MuxStream.handleAck { s with openAck := openAck } seq) :=
    handleAck_settled (s := { s with openAck := openAck }) hset seq
  rw [MuxStream.handleAck] at hset' ⊢
  split at hset'
  · exact Turns.same hset' rfl (Nat.le_refl _) (fun _ hf => by cases hf)
  split at hset'
  · rename_i hlt
    rw [if_pos hlt]
    exact Turns.same hset' rfl (Nat.le_refl _) (fun _ hf => by cases hf)
  · rename_i hlt
    rw [if_neg hlt]
    exact Turns.same hset' rfl (Nat.le_refl _) (fun _ hf => by cases hf)

/-- A frame of the peer is handled. -/
theorem EndInv.handleFrame (h : EndInv r k t) {f : Frame} (hf : f ∈ (t role.peer).sent)
    (hdistinct : Distinct (Function.update t role ((t role).handleFrame f))) :
    EndInv r k (Function.update t role ((t role).handleFrame f)) := by
  have htable := (h.distinct.inv.side role).table
  have hnil : ∀ {sent : List Frame}, sent = sent ++ [] := (List.append_nil _).symm
  have hnone : ∀ id, Frame.frameClose id ∉ ([] : List Frame) := fun _ hf => by cases hf
  cases f with
  | frameOpen id =>
      rw [Mux.handleFrame] at hdistinct ⊢
      split at hdistinct
      · exact h.same hdistinct rfl rfl [.frameAck id 0] rfl (fun _ hf => by simp at hf)
      · exact h.newObj hdistinct rfl rfl (.inl rfl) rfl [.frameAck id 0] rfl (fun _ hf => by simp at hf)
  | frameData id seq payload =>
      rw [Mux.handleFrame] at hdistinct ⊢
      split at hdistinct
      · exact h.same hdistinct rfl rfl [] hnil hnone
      · rename_i i hi
        obtain ⟨s, hs, hid⟩ := htable id i hi
        rw [hs] at hdistinct ⊢
        have hset := h.settled role s (List.mem_of_getElem? hs)
        exact h.turns hdistinct hs (c := False)
          (TurnsTo.silent rfl rfl rfl (Turns.same hset rfl (Nat.le_refl _) hnone)) (fun hc => hc.elim)
  | frameAck id seq =>
      rw [Mux.handleFrame] at hdistinct ⊢
      split at hdistinct
      · exact h.same hdistinct rfl rfl [] hnil hnone
      · rename_i i hi
        obtain ⟨s, hs, hid⟩ := htable id i hi
        rw [hs] at hdistinct ⊢
        have hset := h.settled role s (List.mem_of_getElem? hs)
        exact h.turns hdistinct hs (c := False)
          (TurnsTo.silent rfl rfl rfl (handleAck_turns hset seq _)) (fun hc => hc.elim)
  | frameClose id =>
      rw [Mux.handleFrame] at hdistinct ⊢
      split at hdistinct
      · exact h.same hdistinct rfl rfl [] hnil hnone
      · rename_i i hi
        obtain ⟨s, hs, hid⟩ := htable id i hi
        rw [hs] at hdistinct ⊢
        have hset := h.settled role s (List.mem_of_getElem? hs)
        refine h.turns hdistinct hs (c := True) (TurnsTo.silent rfl rfl rfl
          ⟨rfl, Nat.le_refl _, hset, fun hf => ⟨hf.pump, hf.delivered⟩, fun _ hf => (by cases hf),
            fun ha => ?_, fun _ => .inr (.inl trivial)⟩) (fun _ _ _ => hid.symm ▸ hf)
        exact ⟨ha.pump, ha.remote, ha.app⟩

/-- Neither multiplexer is closed, and the application leaves the stream open. -/
def LeftOpen (r : MuxRole) (k : Nat) (l : MuxRole × MuxLabel) : Prop :=
  l.2 ≠ .close ∧ l ≠ (r, .stream k .appClose)

theorem EndInv.step (h : EndInv r k t) {l : MuxRole × MuxLabel} {t' : Muxes} (hkept : EndsKept t l)
    (hopen : LeftOpen r k l) (hs : t.step l = some t') : EndInv r k t' := by
  have hdistinct := h.distinct.step hkept.1 hs
  obtain ⟨role, l⟩ := l
  obtain ⟨m, hr, rfl⟩ := Option.map_eq_some_iff.mp hs
  have hnil : ∀ {sent : List Frame}, sent = sent ++ [] := (List.append_nil _).symm
  have hnone : ∀ id, Frame.frameClose id ∉ ([] : List Frame) := fun _ hf => by cases hf
  cases l with
  | replaceCarrier carrier =>
      rw [Mux.step] at hr
      split at hr
      · cases hr
      · cases hr
        exact h.same hdistinct rfl rfl [] hnil hnone
  | markCarrierDead =>
      rw [Mux.step] at hr
      split at hr
      · cases hr
      · cases hr
        exact h.same hdistinct rfl rfl [] hnil hnone
  | close => exact absurd rfl hopen.1
  | openStream =>
      rw [Mux.step] at hr
      split at hr
      · cases hr
      · cases hr
        exact h.newObj hdistinct rfl rfl ⟨rfl, rfl, rfl⟩ rfl [] hnil hnone
  | receive f =>
      rw [Mux.step] at hr
      split at hr
      · rename_i hf
        cases hr
        exact h.handleFrame hf hdistinct
      · cases hr
  | stream i action =>
      rw [Mux.step] at hr
      split at hr
      · cases hr
      · rename_i s hs
        have hset := h.settled role s (List.mem_of_getElem? hs)
        refine h.turns hdistinct hs (streamStep_turns h.distinct.inv hs hset hkept hr)
          fun hc hrole hik => ?_
        rcases hc with hc | hc
        · have hrole' : role = r := hrole
          rw [hc, hrole', hik] at hopen
          exact absurd rfl hopen.2
        · rw [h.muxOpen role] at hc
          cases hc

theorem EndInv.init : EndInv r k Muxes.init where
  distinct := Distinct.init
  settled := fun _ _ hs => by cases hs
  closes := fun _ _ hf => by cases hf
  muxOpen := fun _ => rfl
  reader := fun _ hs => by cases hs

/-- Where the pipe is closed, all that the peer's application wrote was handed over. -/
theorem EndInv.complete (h : EndInv r k t) (hs : (t r).objs[k]? = some s) (happ : s.app = true)
    (hend : s.connClosed = true) : s.toApp = writtenBy (t r.peer).objs s.id := by
  have hin := List.mem_of_getElem? hs
  have hlive : ∀ role id, LiveOnce (t role).objs id := fun role id =>
    Nat.le_trans (List.countP_mono_left fun a _ ha => by
      rw [MuxStream.live, Bool.and_eq_true] at ha
      exact ha.1) (h.distinct.count role id)
  have hprefix := ((h.distinct.inv.linked r s hin).feeds (hlive r.peer s.id)).toApp
  have hclose : .frameClose s.id ∈ (t r.peer).sent := by
    rcases h.reader s hs hend with ha | hf
    · rw [ha.app] at happ
      cases happ
    · exact hf
  obtain ⟨p, hp, hid, hfinished⟩ := h.closes r.peer s.id hclose
  have hdelivered := hfinished.delivered
  rw [MuxRole.peer_peer, hid] at hdelivered
  have hle : p.written.length ≤ s.toApp.length :=
    hdelivered.le (h.distinct.inv.side r).streams (hlive r s.id) hin rfl (fun hc => by
      rw [happ] at hc
      cases hc)
  refine hprefix.eq_of_length_le (Nat.le_trans ?_ hle)
  -- the peer has no other object with the id
  cases hpapp : p.app with
  | true =>
      rw [← hid, writtenBy_live hp hpapp (hlive r.peer p.id)]
  | false =>
      rw [writtenBy, List.filter_eq_nil_iff.mpr fun a ha hla => ?_]
      · exact Nat.zero_le _
      · rw [MuxStream.live, Bool.and_eq_true] at hla
        have heq : a = p :=
          countP_le_one_eq (h.distinct.count r.peer s.id) ha hp hla.1 (by simpa using hid)
        rw [heq, hpapp] at hla
        cases hla.2

end Runs

/-- In every run in which no close frame is written while the peer's application still has to
be handed a chunk that `sendChunk` gave up, and no stream is made anew: an application that
sees the end of a stream that it did not close was handed all that the other one wrote. -/
theorem mux_clean_end (ls : List (MuxRole × MuxLabel)) (t : Muxes)
    (hrun : runFrom Muxes.step Muxes.init ls = some t)
    (hkept : StepsMeet Muxes.step EndsKept Muxes.init ls)
    (role : MuxRole) (i : Nat) (s : MuxStream) (hs : (t role).objs[i]? = some s)
    (happ : s.app = true) (hend : s.connClosed = true)
    (hopen : ∀ l ∈ ls, LeftOpen role i l) : s.toApp = writtenBy (t role.peer).objs s.id := by
  have h : EndInv role i t := runFrom_invariant_of_meet
    (fun _ _ _ h hok hs => h.step hok.1 hok.2 hs) ls EndInv.init (hkept.and_mem hopen) hrun
  exact h.complete hs happ hend

/-- The client writes three bytes, and the server's reader has taken one of them. -/
def writtenRun : List (MuxRole × MuxLabel) :=
  openedRun ++ ([(.client, .receive (.frameAck 1 0)), (.client, .stream 0 .opened),
    (.client, .stream 0 (.appWrite [1, 2, 3])), (.client, .stream 0 .snapshot),
    (.client, .stream 0 .write), (.server, .receive (.frameData 1 0 [1, 2, 3])),
    (.server, .stream 0 (.deliver 0 [1, 2, 3])), (.server, .stream 0 (.handOver 1))] :
    List (MuxRole × MuxLabel))

/-- The reader takes the rest, and the client closes after the acknowledgement. -/
def closedRun : List (MuxRole × MuxLabel) :=
  writtenRun ++ ([(.server, .stream 0 (.handOver 2)), (.server, .stream 0 .deliverDone),
    (.client, .receive (.frameAck 1 3)), (.client, .stream 0 .chunkAcked), (.client, .stream 0 .appClose),
    (.client, .stream 0 .readEnds), (.client, .stream 0 (.sendClose true)),
    (.server, .receive (.frameClose 1))] :
    List (MuxRole × MuxLabel))

theorem mux_clean_end_acknowledged : ∃ t, runFrom Muxes.step Muxes.init closedRun = some t ∧
    ∃ s, (t .server).objs[0]? = some s ∧ s.connClosed = true ∧
      s.toApp = writtenBy (t .client).objs s.id ∧ s.toApp = [1, 2, 3] := by
  have h : (runFrom Muxes.step Muxes.init closedRun).any (fun t => (t .server).objs[0]?.any fun s =>
      decide (s.app = true ∧ s.connClosed = true ∧ s.toApp = [1, 2, 3])) = true := by decide +kernel
  obtain ⟨t, hrun, ht⟩ := (Option.any_eq_true ..).mp h
  obtain ⟨s, hs, hany⟩ := (Option.any_eq_true ..).mp ht
  obtain ⟨happ, hend, hall⟩ := of_decide_eq_true hany
  have hopen : ∀ l ∈ closedRun, LeftOpen .server 0 l := by
    simp [closedRun, writtenRun, openedRun, LeftOpen]
  exact ⟨t, hrun, s, hs, hend,
    mux_clean_end _ t hrun (by decide +kernel) .server 0 s hs happ hend hopen, hall⟩

/-- The reader stalls until the deadline of the chunk has passed. -/
def stalledRun : List (MuxRole × MuxLabel) :=
  writtenRun ++ ([(.client, .stream 0 .chunkFails), (.client, .stream 0 (.sendClose true)),
    (.server, .receive (.frameClose 1))] :
    List (MuxRole × MuxLabel))

/-- It sees the end of the stream after one byte, though nobody closed anything. -/
theorem mux_end_truncated : (∀ l ∈ stalledRun, LeftOpen .server 0 l) ∧
    ∃ t, runFrom Muxes.step Muxes.init stalledRun = some t ∧
      ∃ s, (t .server).objs[0]? = some s ∧ s.app = true ∧ s.connClosed = true ∧ s.toApp = [1] ∧
        writtenBy (t .client).objs s.id = [1, 2, 3] := by
  have h : (runFrom Muxes.step Muxes.init stalledRun).any (fun t => (t .server).objs[0]?.any fun s =>
      decide (s.app = true ∧ s.connClosed = true ∧ s.toApp = [1] ∧
        writtenBy (t .client).objs s.id = [1, 2, 3])) = true := by decide +kernel
  obtain ⟨t, hrun, ht⟩ := (Option.any_eq_true ..).mp h
  obtain ⟨s, hs, hany⟩ := (Option.any_eq_true ..).mp ht
  refine ⟨?_, t, hrun, s, hs, of_decide_eq_true hany⟩
  simp [stalledRun, writtenRun, openedRun, LeftOpen]

end Derptun
