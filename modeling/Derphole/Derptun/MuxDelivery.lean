import Derphole.Derptun.Mux

/-!
# Exactly-once delivery in order

A stream object hands over the payload of a data frame only when the frame starts at
the number of bytes it has handed over, and every data frame with its id carries what
the peer's application wrote at that offset.  The second half needs that only one
object of the peer ever had an application for that id: on the side that opened the
stream this is so since ids are not used twice, and on the other side it is the
assumption that the stream was accepted once.

An acknowledgement counts bytes that were handed over, so `sendChunk` returns without
an error only when its whole chunk was.
-/

namespace Derptun

open Lib

/-- The stream has an application, and the id. -/
def MuxStream.live (id : Nat) (s : MuxStream) : Bool := decide (s.id = id) && s.app

/-- At most one object with the id was given to an application. -/
def LiveOnce (objs : List MuxStream) (id : Nat) : Prop := objs.countP (MuxStream.live id) ≤ 1

/-- What applications wrote to the stream. -/
def writtenBy (objs : List MuxStream) (id : Nat) : List UInt8 :=
  (objs.filter (MuxStream.live id)).flatMap MuxStream.written

/-- An object with the id has handed over so many bytes. -/
def DeliveredBy (objs : List MuxStream) (id n : Nat) : Prop :=
  n = 0 ∨ ∃ s ∈ objs, s.id = id ∧ n ≤ s.toApp.length

/-! ## What can become of the streams of a side -/

/-- What applications wrote and what they were handed only grows. -/
structure Grows (objs objs' : List MuxStream) : Prop where
  written : ∀ id, LiveOnce objs' id →
    LiveOnce objs id ∧ writtenBy objs id <+: writtenBy objs' id
  delivered : ∀ id n, DeliveredBy objs id n → DeliveredBy objs' id n

theorem Grows.refl (objs : List MuxStream) : Grows objs objs :=
  ⟨fun _ h => ⟨h, List.prefix_rfl⟩, fun _ _ h => h⟩

/-- A new stream has no application yet. -/
theorem Grows.concat (objs : List MuxStream) {s : MuxStream} (hs : s.app = false) :
    Grows objs (objs ++ [s]) := by
  have hlive : ∀ id, s.live id = false := fun id => by rw [MuxStream.live, hs, Bool.and_false]
  refine ⟨fun id h => ⟨?_, ?_⟩, fun id n h => ?_⟩
  · rw [LiveOnce, List.countP_append] at h
    rw [LiveOnce]
    omega
  · rw [writtenBy, writtenBy, List.filter_append, List.filter_cons_of_neg (by simp [hlive id])]
    simp
  · rcases h with h | ⟨s', hs', hid, hn⟩
    · exact .inl h
    · exact .inr ⟨s', List.mem_append_left _ hs', hid, hn⟩

/-- How one stream may change. -/
structure Moves (s s' : MuxStream) : Prop where
  id : s'.id = s.id
  app : s.app = true → s'.app = true
  written : s.written <+: s'.written
  toApp : s.toApp.length ≤ s'.toApp.length

section Split

variable {objs : List MuxStream} {i : Nat} {s s' : MuxStream}

/-- The list around an object. -/
theorem set_split (hs : objs[i]? = some s) :
    ∃ pre post, objs = pre ++ s :: post ∧ ∀ s', objs.set i s' = pre ++ s' :: post := by
  obtain ⟨hi, rfl⟩ := List.getElem?_eq_some_iff.mp hs
  refine ⟨objs.take i, objs.drop (i + 1), ?_, fun s' => ?_⟩
  · rw [List.getElem_cons_drop, List.take_append_drop]
  · exact List.set_eq_take_append_cons_drop.trans (if_pos hi)

/-- What was written to the stream of the one object that has an application. -/
theorem writtenBy_live (hs : s ∈ objs) (hlive : s.app = true) (honce : LiveOnce objs s.id) :
    writtenBy objs s.id = s.written := by
  have hmem : s ∈ objs.filter (MuxStream.live s.id) :=
    List.mem_filter.mpr ⟨hs, by simp [MuxStream.live, hlive]⟩
  rw [LiveOnce, List.countP_eq_length_filter] at honce
  rw [writtenBy]
  cases hf : objs.filter (MuxStream.live s.id) with
  | nil =>
      rw [hf] at hmem
      cases hmem
  | cons a rest =>
      rw [hf, List.length_cons] at honce
      have hrest : rest = [] := List.length_eq_zero_iff.mp (by omega)
      rw [hf, hrest] at hmem
      rw [hrest, ← List.mem_singleton.mp hmem]
      simp

theorem Grows.set (hs : objs[i]? = some s) (h : Moves s s') : Grows objs (objs.set i s') := by
  obtain ⟨pre, post, hobjs, hset⟩ := set_split hs
  rw [hset s', hobjs]
  refine ⟨fun id honce => ?_, fun id n hdel => ?_⟩
  · have hcount : LiveOnce (pre ++ s :: post) id := by
      rw [LiveOnce, List.countP_append, List.countP_cons] at honce ⊢
      have hle : (if s.live id then 1 else 0) ≤ (if s'.live id then 1 else 0) := by
        by_cases hl : s.live id = true
        · have hl' : s'.live id = true := by
            rw [MuxStream.live, Bool.and_eq_true, decide_eq_true_eq] at hl ⊢
            exact ⟨h.id.trans hl.1, h.app hl.2⟩
          rw [if_pos hl, if_pos hl']
        · rw [if_neg hl]
          exact Nat.zero_le _
      omega
    refine ⟨hcount, ?_⟩
    by_cases hl : s'.live id = true
    · -- the stream itself
      rw [MuxStream.live, Bool.and_eq_true, decide_eq_true_eq] at hl
      obtain ⟨hid, happ⟩ := hl
      have hnew : writtenBy (pre ++ s' :: post) id = s'.written := by
        rw [← hid]
        exact writtenBy_live (by simp) happ (hid ▸ honce)
      rw [hnew]
      cases happ' : s.app with
      | true =>
          have hid' : s.id = id := h.id.symm.trans hid
          rw [← hid', writtenBy_live (by simp) happ' (hid' ▸ hcount)]
          exact h.written
      | false =>
          -- it was alone in getting an application now
          have hzero : (pre ++ s :: post).countP (MuxStream.live id) = 0 := by
            have hls : s.live id = false := by rw [MuxStream.live, happ', Bool.and_false]
            have hls' : s'.live id = true := by
              rw [MuxStream.live, happ, hid]
              simp
            rw [LiveOnce, List.countP_append, List.countP_cons_of_pos hls'] at honce
            rw [List.countP_append, List.countP_cons_of_neg (by simp [hls])]
            omega
          rw [writtenBy, List.countP_eq_zero.mp hzero |> List.filter_eq_nil_iff.mpr]
          exact List.nil_prefix
    · -- another stream
      have hl' : s.live id = false := by
        by_contra hc
        refine hl ?_
        rw [Bool.not_eq_false, MuxStream.live, Bool.and_eq_true, decide_eq_true_eq] at hc
        rw [MuxStream.live, Bool.and_eq_true, decide_eq_true_eq]
        exact ⟨h.id.trans hc.1, h.app hc.2⟩
      rewrite [writtenBy, writtenBy, List.filter_append, List.filter_append,
        List.filter_cons_of_neg (by simp [hl']), List.filter_cons_of_neg hl]
      exact List.prefix_rfl
  · rcases hdel with hz | ⟨a, ha, hid, hn⟩
    · exact .inl hz
    · rcases List.mem_append.mp ha with ha | ha
      · exact .inr ⟨a, List.mem_append_left _ ha, hid, hn⟩
      · rcases List.mem_cons.mp ha with rfl | ha
        · exact .inr ⟨s', by simp, h.id.trans hid, Nat.le_trans hn h.toApp⟩
        · exact .inr ⟨a, List.mem_append_right _ (List.mem_cons_of_mem _ ha), hid, hn⟩

end Split

/-! ## The invariant -/

def MuxRole.parity : MuxRole → Nat
  | .client => 1
  | .server => 0

/-- The part of a stream's state that says where its goroutines are. -/
structure StreamOk (role : MuxRole) (s : MuxStream) : Prop where
  opening : ∀ phase, s.pump = .opening phase → s.id % 2 = role.parity
  sendSeq : s.sendSeq = s.written.length
  chunk : ∀ start payload phase, s.pump = .sending start payload phase →
    s.app = true ∧ SliceAt s.written start payload
  pending : ∀ p, s.pending = some p → 0 < p.endSeq
  /-- Only a write to a closed connection leaves bytes behind that are not counted. -/
  idle : s.delivering = none → s.recvSeq ≤ s.toApp.length ∧
    (s.connClosed = false → s.recvSeq = s.toApp.length)
  busy : ∀ d, s.delivering = some d → ∃ done, d.payload = done ++ d.rest ∧
    s.toApp.length = s.recvSeq + done.length
  inert : s.app = false → s.toApp = []

/-- What the stream gets is what the peer's application wrote. -/
structure Feeds (w : List UInt8) (s : MuxStream) : Prop where
  waiting : ∀ p ∈ s.waiting, SliceAt w p.1 p.2
  delivering : ∀ d, s.delivering = some d → SliceAt w s.recvSeq d.payload
  toApp : s.toApp <+: w

/-- A stream and the streams of the peer. -/
structure Linked (peers : List MuxStream) (s : MuxStream) : Prop where
  feeds : LiveOnce peers s.id → Feeds (writtenBy peers s.id) s
  acked : ∀ p, s.pending = some p → p.acked = true → DeliveredBy peers s.id p.endSeq
  confirmed : DeliveredBy peers s.id s.confirmed

/-- What a side may have sent. -/
def Sent (role : MuxRole) (objs : List MuxStream) : Frame → Prop
  | .frameOpen id => id % 2 = role.parity
  | .frameData id seq payload => LiveOnce objs id → SliceAt (writtenBy objs id) seq payload
  | .frameAck id n => DeliveredBy objs id n
  | .frameClose _ => True

structure SideOk (role : MuxRole) (m : Mux) : Prop where
  table : ∀ id i, m.streams.lookup id = some i → ∃ s, m.objs[i]? = some s ∧ s.id = id
  streams : ∀ s ∈ m.objs, StreamOk role s
  next : m.nextStreamID % 2 = role.parity
  fresh : ∀ s ∈ m.objs, s.id % 2 = role.parity → s.id < m.nextStreamID
  once : ∀ id, id % 2 = role.parity → m.objs.countP (fun s => decide (s.id = id)) ≤ 1
  sent : ∀ f ∈ m.sent, Sent role m.objs f

structure Inv (t : Muxes) : Prop where
  side : ∀ role, SideOk role (t role)
  linked : ∀ role, ∀ s ∈ (t role).objs, Linked (t role.peer).objs s

theorem Feeds.mono {w w' : List UInt8} {s : MuxStream} (h : Feeds w s) (hw : w <+: w') : Feeds w' s where
  waiting := fun p hp => (h.waiting p hp).mono hw
  delivering := fun d hd => (h.delivering d hd).mono hw
  toApp := h.toApp.trans hw

theorem Linked.mono {peers peers' : List MuxStream} {s : MuxStream} (h : Linked peers s)
    (hg : Grows peers peers') : Linked peers' s where
  feeds := fun honce => (h.feeds (hg.written _ honce).1).mono (hg.written _ honce).2
  acked := fun p hp ha => hg.delivered _ _ (h.acked p hp ha)
  confirmed := hg.delivered _ _ h.confirmed

theorem Sent.mono {role : MuxRole} {objs objs' : List MuxStream} (hg : Grows objs objs') {f : Frame}
    (h : Sent role objs f) : Sent role objs' f := by
  cases f with
  | frameOpen id => exact h
  | frameData id seq payload =>
      exact fun honce => (h (hg.written _ honce).1).mono (hg.written _ honce).2
  | frameAck id n => exact hg.delivered _ _ h
  | frameClose id => exact trivial

theorem MuxRole.peer_peer (role : MuxRole) : role.peer.peer = role := by
  cases role with
  | client => rfl
  | server => rfl

theorem MuxRole.peer_ne (role : MuxRole) : role.peer ≠ role := by
  cases role with
  | client => simp [MuxRole.peer]
  | server => simp [MuxRole.peer]

theorem MuxRole.eq_or_peer (role role' : MuxRole) : role' = role ∨ role' = role.peer := by
  cases role with
  | client => cases role' with
    | client => exact .inl rfl
    | server => exact .inr rfl
  | server => cases role' with
    | client => exact .inr rfl
    | server => exact .inl rfl

/-- One side moves on. -/
theorem Inv.update {t : Muxes} (h : Inv t) {role : MuxRole} {m : Mux} (hside : SideOk role m)
    (hgrows : Grows (t role).objs m.objs)
    (hlinked : ∀ s ∈ m.objs, Linked (t role.peer).objs s) : Inv (Function.update t role m) := by
  have hpeer : Function.update t role m role.peer = t role.peer :=
    Function.update_of_ne (MuxRole.peer_ne role) _ _
  refine ⟨fun r => ?_, fun r s hs => ?_⟩
  · rcases MuxRole.eq_or_peer role r with rfl | rfl
    · rw [Function.update_self]
      exact hside
    · rw [hpeer]
      exact h.side role.peer
  · rcases MuxRole.eq_or_peer role r with rfl | rfl
    · rw [Function.update_self] at hs
      rw [hpeer]
      exact hlinked s hs
    · rw [hpeer] at hs
      rw [MuxRole.peer_peer, Function.update_self]
      have := h.linked role.peer s hs
      rw [MuxRole.peer_peer] at this
      exact this.mono hgrows

/-- A step that changes no stream and sends nothing. -/
theorem Inv.same {t : Muxes} (h : Inv t) {role : MuxRole} {m : Mux}
    (hsame : (m.nextStreamID, m.streams, m.objs, m.sent) =
      ((t role).nextStreamID, (t role).streams, (t role).objs, (t role).sent)) :
    Inv (Function.update t role m) := by
  simp only [Prod.mk.injEq] at hsame
  obtain ⟨hnext, hstreams, hobjs, hsent⟩ := hsame
  have hside := h.side role
  refine h.update ⟨?_, ?_, ?_, ?_, ?_, ?_⟩ (hobjs ▸ Grows.refl _) ?_
  · rw [hstreams, hobjs]
    exact hside.table
  · rw [hobjs]
    exact hside.streams
  · rw [hnext]
    exact hside.next
  · rw [hobjs, hnext]
    exact hside.fresh
  · rw [hobjs]
    exact hside.once
  · rw [hobjs, hsent]
    exact hside.sent
  · rw [hobjs]
    exact h.linked role

section Steps

variable {t : Muxes} {role : MuxRole} {i : Nat} {s s' : MuxStream} {m : Mux}

/-- One stream moves on, and frames are sent. -/
theorem Inv.setObj (h : Inv t) (hs : (t role).objs[i]? = some s) (hmoves : Moves s s')
    (hok : StreamOk role s') (hlinked : Linked (t role.peer).objs s') (frames : List Frame)
    (hframes : ∀ f ∈ frames, Sent role ((t role).objs.set i s') f)
    (hnext : m.nextStreamID = (t role).nextStreamID) (hobjs : m.objs = (t role).objs.set i s')
    (hsent : m.sent = (t role).sent ++ frames)
    (htable : ∀ id j, m.streams.lookup id = some j → (t role).streams.lookup id = some j) :
    Inv (Function.update t role m) := by
  have hside := h.side role
  have hgrows : Grows (t role).objs m.objs := hobjs ▸ Grows.set hs hmoves
  have hi := (List.getElem?_eq_some_iff.mp hs).1
  have hmem : ∀ a ∈ m.objs, a = s' ∨ a ∈ (t role).objs := by
    intro a ha
    rw [hobjs] at ha
    exact (List.mem_or_eq_of_mem_set ha).symm
  have hin : s ∈ (t role).objs := List.mem_of_getElem? hs
  refine h.update ⟨fun id j hj => ?_, fun a ha => ?_, ?_, fun a ha hpar => ?_, fun id hpar => ?_,
    fun f hf => ?_⟩ hgrows fun a ha => ?_
  · obtain ⟨a, ha, hid⟩ := hside.table id j (htable id j hj)
    rw [hobjs, List.getElem?_set]
    by_cases hij : i = j
    · rw [if_pos hij, if_pos (hij ▸ hi)]
      refine ⟨s', rfl, ?_⟩
      rw [← hij, hs] at ha
      cases ha
      exact hmoves.id.trans hid
    · rw [if_neg hij]
      exact ⟨a, ha, hid⟩
  · rcases hmem a ha with rfl | ha
    · exact hok
    · exact hside.streams a ha
  · rw [hnext]
    exact hside.next
  · rw [hnext]
    rcases hmem a ha with rfl | ha
    · have := hside.fresh s hin
      rw [hmoves.id] at hpar ⊢
      exact this hpar
    · exact hside.fresh a ha hpar
  · obtain ⟨pre, post, hold, hset⟩ := set_split hs
    have := hside.once id hpar
    rw [hobjs, hset s']
    rw [hold] at this
    rw [List.countP_append, List.countP_cons] at this ⊢
    rw [hmoves.id]
    exact this
  · rw [hsent] at hf
    rcases List.mem_append.mp hf with hf | hf
    · exact (hside.sent f hf).mono hgrows
    · rw [hobjs]
      exact hframes f hf
  · rcases hmem a ha with rfl | ha
    · exact hlinked
    · exact h.linked role a ha

theorem StreamOk.new {id : Nat} {remote : Bool} {pump : Pump}
    (hopening : ∀ phase, pump = .opening phase → id % 2 = role.parity)
    (hchunk : ∀ start payload phase, pump ≠ .sending start payload phase) :
    StreamOk role (MuxStream.new id remote pump) where
  opening := hopening
  sendSeq := rfl
  chunk := fun _ _ _ hp => absurd hp (hchunk _ _ _)
  pending := fun _ hp => by cases hp
  idle := fun _ => ⟨Nat.le_refl _, fun _ => rfl⟩
  busy := fun _ hd => by cases hd
  inert := fun _ => rfl

theorem Linked.new (peers : List MuxStream) (id : Nat) (remote : Bool) (pump : Pump) :
    Linked peers (MuxStream.new id remote pump) where
  feeds := fun _ => ⟨fun _ hp => (by cases hp), fun _ hd => (by cases hd), List.nil_prefix⟩
  acked := fun _ hp => by cases hp
  confirmed := .inl rfl

/-- A stream is added, with no application yet. -/
theorem Inv.newObj (h : Inv t) {id : Nat} (hnew : MuxStream) (hid : hnew.id = id)
    (happ : hnew.app = false) (hok : StreamOk role hnew)
    (hlinked : Linked (t role.peer).objs hnew)
    (hid' : id % 2 = role.parity → id = (t role).nextStreamID) (frames : List Frame)
    (hframes : ∀ f ∈ frames, f = .frameAck id 0)
    (hnext : (m.nextStreamID = (t role).nextStreamID ∧ id % 2 ≠ role.parity) ∨
      m.nextStreamID = (t role).nextStreamID + 2)
    (hobjs : m.objs = (t role).objs ++ [hnew]) (hsent : m.sent = (t role).sent ++ frames)
    (hstreams : m.streams = (t role).streams.insert id (t role).objs.length) :
    Inv (Function.update t role m) := by
  have hside := h.side role
  have hgrows : Grows (t role).objs m.objs := hobjs ▸ Grows.concat _ happ
  have hnext' : (t role).nextStreamID ≤ m.nextStreamID ∧ m.nextStreamID % 2 = role.parity := by
    have := hside.next
    rcases hnext with ⟨hn, -⟩ | hn
    · exact ⟨by omega, by omega⟩
    · exact ⟨by omega, by omega⟩
  refine h.update ⟨fun a j hj => ?_, fun a ha => ?_, hnext'.2, fun a ha hpar => ?_,
    fun a hpar => ?_, fun f hf => ?_⟩ hgrows fun a ha => ?_
  · rw [hstreams] at hj
    by_cases ha : a = id
    · rw [ha, AList.lookup_insert] at hj
      cases hj
      refine ⟨hnew, ?_, hid.trans ha.symm⟩
      rw [hobjs, List.getElem?_append_right (Nat.le_refl _), Nat.sub_self]
      rfl
    · rw [AList.lookup_insert_ne ha] at hj
      obtain ⟨b, hb, hbid⟩ := hside.table a j hj
      refine ⟨b, ?_, hbid⟩
      rw [hobjs, List.getElem?_append_left (List.getElem?_eq_some_iff.mp hb).1]
      exact hb
  · rw [hobjs] at ha
    rcases List.mem_append.mp ha with ha | ha
    · exact hside.streams a ha
    · rw [List.mem_singleton.mp ha]
      exact hok
  · rw [hobjs] at ha
    rcases List.mem_append.mp ha with ha | ha
    · have := hside.fresh a ha hpar
      omega
    · rw [List.mem_singleton.mp ha, hid] at hpar ⊢
      have := hid' hpar
      rcases hnext with ⟨-, hne⟩ | hn
      · exact absurd hpar hne
      · omega
  · rw [hobjs, List.countP_append, List.countP_singleton]
    have hold := hside.once a hpar
    by_cases haid : hnew.id = a
    · rw [if_pos (by simpa using haid)]
      have hnone : (t role).objs.countP (fun s => decide (s.id = a)) = 0 := by
        refine List.countP_eq_zero.mpr fun b hb => ?_
        rw [decide_eq_true_eq]
        intro hba
        have hlt := hside.fresh b hb (hba ▸ hpar)
        have := hid' (hid ▸ haid ▸ hpar)
        omega
      omega
    · rw [if_neg (by simpa using haid)]
      exact hold
  · rw [hsent] at hf
    rcases List.mem_append.mp hf with hf | hf
    · exact (hside.sent f hf).mono hgrows
    · rw [hframes f hf]
      exact .inl rfl
  · rw [hobjs] at ha
    rcases List.mem_append.mp ha with ha | ha
    · exact h.linked role a ha
    · rw [List.mem_singleton.mp ha]
      exact hlinked

theorem Linked.of_same {peers : List MuxStream} (h : Linked peers s)
    (hsame : (s'.id, s'.waiting, s'.delivering, s'.recvSeq, s'.toApp) =
      (s.id, s.waiting, s.delivering, s.recvSeq, s.toApp))
    (hpending : s'.pending = none ∨ s'.pending = s.pending) (hconfirmed : s'.confirmed = s.confirmed) :
    Linked peers s' := by
  simp only [Prod.mk.injEq] at hsame
  obtain ⟨hid, hwaiting, hdelivering, hrecv, htoApp⟩ := hsame
  refine ⟨fun honce => ⟨?_, ?_, ?_⟩, fun p hp ha => ?_, ?_⟩
  · rw [hwaiting, hid]
    exact (h.feeds (hid ▸ honce)).waiting
  · rw [hdelivering, hrecv, hid]
    exact (h.feeds (hid ▸ honce)).delivering
  · rw [htoApp, hid]
    exact (h.feeds (hid ▸ honce)).toApp
  · rcases hpending with hnone | hsame
    · rw [hnone] at hp
      cases hp
    · rw [hid]
      exact h.acked p (hsame ▸ hp) ha
  · rw [hid, hconfirmed]
    exact h.confirmed

theorem StreamOk.of_same (h : StreamOk role s)
    (hopening : ∀ phase, s'.pump = .opening phase → s'.id % 2 = role.parity)
    (hchunk : ∀ start payload phase, s'.pump = .sending start payload phase →
      s'.app = true ∧ SliceAt s'.written start payload)
    (hsame : (s'.sendSeq, s'.written, s'.delivering, s'.recvSeq, s'.toApp) =
      (s.sendSeq, s.written, s.delivering, s.recvSeq, s.toApp))
    (hpending : ∀ p, s'.pending = some p → 0 < p.endSeq)
    (hclosed : s.connClosed = true → s'.connClosed = true)
    (happ : s.app = true → s'.app = true) : StreamOk role s' := by
  simp only [Prod.mk.injEq] at hsame
  obtain ⟨hsend, hwritten, hdelivering, hrecv, htoApp⟩ := hsame
  refine ⟨hopening, ?_, hchunk, hpending, fun hd => ?_, fun d hd => ?_, fun ha => ?_⟩
  · rw [hsend, hwritten]
    exact h.sendSeq
  · rw [hrecv, htoApp]
    have hidle := h.idle (hdelivering ▸ hd)
    refine ⟨hidle.1, fun hopen => hidle.2 ?_⟩
    by_contra hc
    rw [hclosed (by simpa using hc)] at hopen
    cases hopen
  · rw [hrecv, htoApp]
    exact h.busy d (hdelivering ▸ hd)
  · rw [htoApp]
    refine h.inert ?_
    by_contra hc
    rw [happ (by simpa using hc)] at ha
    cases ha

/-- A step of the goroutine that serves the application's writes. -/
theorem Inv.setPump (h : Inv t) (hs : (t role).objs[i]? = some s) {pump : Pump} {app closed : Bool}
    {pending : Option PendingWrite} (frames : List Frame)
    (hopening : ∀ phase, pump = .opening phase → s.id % 2 = role.parity)
    (hchunk : ∀ start payload phase, pump = .sending start payload phase →
      app = true ∧ SliceAt s.written start payload)
    (happ : s.app = true → app = true) (hclosed : s.connClosed = true → closed = true)
    (hpending : pending = none ∨ pending = s.pending)
    (hframes : ∀ f ∈ frames, Sent role ((t role).objs.set i
      { s with pump := pump, app := app, connClosed := closed, pending := pending }) f)
    (hnext : m.nextStreamID = (t role).nextStreamID)
    (hobjs : m.objs = (t role).objs.set i
      { s with pump := pump, app := app, connClosed := closed, pending := pending })
    (hsent : m.sent = (t role).sent ++ frames)
    (htable : ∀ id j, m.streams.lookup id = some j → (t role).streams.lookup id = some j) :
    Inv (Function.update t role m) := by
  have hin := List.mem_of_getElem? hs
  have hok := (h.side role).streams s hin
  have hmoves : Moves s { s with pump := pump, app := app, connClosed := closed, pending := pending } :=
    ⟨rfl, happ, List.prefix_rfl, Nat.le_refl _⟩
  have hend : ∀ p, pending = some p → 0 < p.endSeq := by
    intro p hp
    rcases hpending with hnone | hsame
    · rw [hnone] at hp
      cases hp
    · exact hok.pending p (hsame ▸ hp)
  exact h.setObj hs hmoves (hok.of_same hopening hchunk rfl hend hclosed happ)
    ((h.linked role s hin).of_same rfl hpending rfl) frames hframes hnext hobjs hsent htable

theorem lookup_erase_some {streams : Map Nat Nat} {a id j : Nat}
    (h : (streams.erase a).lookup id = some j) : streams.lookup id = some j := by
  by_cases hid : id = a
  · rw [hid, AList.lookup_erase] at h
    cases h
  · rwa [AList.lookup_erase_ne hid] at h

/-- `removeStream` only takes the object out of the table. -/
theorem removeStream_spec (m : Mux) (a i : Nat) :
    (m.removeStream a i).nextStreamID = m.nextStreamID ∧ (m.removeStream a i).objs = m.objs ∧
      (m.removeStream a i).sent = m.sent ∧
      ∀ id j, (m.removeStream a i).streams.lookup id = some j → m.streams.lookup id = some j := by
  rw [Mux.removeStream]
  split
  · exact ⟨rfl, rfl, rfl, fun _ _ hl => lookup_erase_some hl⟩
  · exact ⟨rfl, rfl, rfl, fun _ _ hl => hl⟩

/-- The application writes a chunk. -/
theorem Inv.appWrite (h : Inv t) (hs : (t role).objs[i]? = some s) {bytes : List UInt8}
    (happ : s.app = true) (hne : bytes ≠ []) :
    Inv (Function.update t role ((t role).setObj i
      { s with
        written := s.written ++ bytes
        sendSeq := s.sendSeq + bytes.length
        pending := some ⟨s.sendSeq + bytes.length, false⟩
        pump := .sending s.sendSeq bytes .snapshot })) := by
  have hin := List.mem_of_getElem? hs
  have hok := (h.side role).streams s hin
  have hlinked := h.linked role s hin
  have hslice : SliceAt (s.written ++ bytes) s.sendSeq bytes := by
    rw [hok.sendSeq]
    refine ⟨by simp, ?_⟩
    rewrite [List.drop_left]
    exact List.prefix_rfl
  have hmoves : Moves s { s with
      written := s.written ++ bytes
      sendSeq := s.sendSeq + bytes.length
      pending := some ⟨s.sendSeq + bytes.length, false⟩
      pump := .sending s.sendSeq bytes .snapshot } :=
    ⟨rfl, fun h => h, List.prefix_append _ _, Nat.le_refl _⟩
  refine h.setObj hs hmoves ⟨fun _ hp => (by cases hp), ?_, fun start payload phase hp => ?_,
    fun p hp => ?_, hok.idle, hok.busy, hok.inert⟩ ⟨fun honce => ?_, fun p hp ha => ?_, hlinked.confirmed⟩
    [] (fun _ hf => (by cases hf)) rfl rfl (List.append_nil _).symm fun _ _ hl => hl
  · show s.sendSeq + bytes.length = (s.written ++ bytes).length
    rw [List.length_append, hok.sendSeq]
  · cases hp
    exact ⟨happ, hslice⟩
  · cases hp
    have := List.length_pos_iff.mpr hne
    show 0 < s.sendSeq + bytes.length
    omega
  · exact ⟨(hlinked.feeds honce).waiting, (hlinked.feeds honce).delivering, (hlinked.feeds honce).toApp⟩
  · cases hp
    cases ha

/-- `sendChunk` returns without an error. -/
theorem Inv.chunkAcked (h : Inv t) (hs : (t role).objs[i]? = some s) {p : PendingWrite}
    (hp : s.pending = some p) (hacked : p.acked = true) :
    Inv (Function.update t role ((t role).setObj i
      { s with pump := .reading, pending := none, confirmed := p.endSeq })) := by
  have hin := List.mem_of_getElem? hs
  have hok := (h.side role).streams s hin
  have hlinked := h.linked role s hin
  have hmoves : Moves s { s with pump := .reading, pending := none, confirmed := p.endSeq } :=
    ⟨rfl, fun h => h, List.prefix_rfl, Nat.le_refl _⟩
  refine h.setObj hs hmoves (hok.of_same (fun _ hp => (by cases hp)) (fun _ _ _ hp => (by cases hp)) rfl
    (fun _ hp => (by cases hp)) (fun h => h) fun h => h) ⟨fun honce => ?_, fun _ hp => (by cases hp),
    hlinked.acked p hp hacked⟩ [] (fun _ hf => (by cases hf)) rfl rfl
    (List.append_nil _).symm fun _ _ hl => hl
  exact ⟨(hlinked.feeds honce).waiting, (hlinked.feeds honce).delivering, (hlinked.feeds honce).toApp⟩

/-- A goroutine in `deliver` gets the lock. -/
theorem Inv.deliver (h : Inv t) (hs : (t role).objs[i]? = some s) {seq : Nat} {payload : List UInt8}
    (hfree : s.delivering = none) (hmem : (seq, payload) ∈ s.waiting) :
    Inv (Function.update t role ((t role).deliver i s seq payload)) := by
  have hin := List.mem_of_getElem? hs
  have hok := (h.side role).streams s hin
  have hlinked := h.linked role s hin
  have hidle := hok.idle hfree
  have hwaiting : ∀ {w : List UInt8}, Feeds w s →
      ∀ p ∈ s.waiting.erase (seq, payload), SliceAt w p.1 p.2 := fun hf p hp =>
    hf.waiting p (List.mem_of_mem_erase hp)
  have hleft : Linked (t role.peer).objs { s with waiting := s.waiting.erase (seq, payload) } :=
    ⟨fun honce => ⟨hwaiting (hlinked.feeds honce), (hlinked.feeds honce).delivering,
      (hlinked.feeds honce).toApp⟩, hlinked.acked, hlinked.confirmed⟩
  have hokleft : StreamOk role { s with waiting := s.waiting.erase (seq, payload) } :=
    hok.of_same hok.opening hok.chunk rfl hok.pending (fun h => h) fun h => h
  have hmoves : Moves s { s with waiting := s.waiting.erase (seq, payload) } :=
    ⟨rfl, fun h => h, List.prefix_rfl, Nat.le_refl _⟩
  rw [Mux.deliver]
  dsimp only
  split
  · -- out of turn
    refine h.setObj hs hmoves hokleft hleft [.frameAck s.id s.recvSeq] (fun f hf => ?_)
      rfl rfl rfl fun _ _ hl => hl
    rw [List.mem_singleton.mp hf]
    refine .inr ⟨{ s with waiting := s.waiting.erase (seq, payload) }, ?_, rfl, hidle.1⟩
    exact List.mem_set (List.getElem?_eq_some_iff.mp hs).1 _
  rename_i hseq
  have hturn : seq = s.recvSeq := by simpa using hseq
  split
  · -- the connection is closed
    obtain ⟨hnext, hobjs, hsent, htable⟩ := removeStream_spec
      ((t role).setObj i { s with waiting := s.waiting.erase (seq, payload) }) s.id i
    exact h.setObj hs hmoves hokleft hleft [] (fun _ hf => (by cases hf)) hnext hobjs
      (hsent.trans (List.append_nil _).symm) htable
  · rename_i hopen
    have hopen' : s.connClosed = false := by simpa using hopen
    have hmoves' : Moves s { s with
        waiting := s.waiting.erase (seq, payload)
        delivering := some ⟨payload, payload⟩ } :=
      ⟨rfl, fun h => h, List.prefix_rfl, Nat.le_refl _⟩
    refine h.setObj hs hmoves' ⟨hok.opening, hok.sendSeq, hok.chunk, hok.pending, fun hd => (by cases hd),
      fun d hd => ?_, hok.inert⟩ ⟨fun honce => ⟨hwaiting (hlinked.feeds honce), fun d hd => ?_,
      (hlinked.feeds honce).toApp⟩, hlinked.acked, hlinked.confirmed⟩ []
      (fun _ hf => (by cases hf)) rfl rfl (List.append_nil _).symm fun _ _ hl => hl
    · cases hd
      refine ⟨[], rfl, ?_⟩
      rw [List.length_nil, Nat.add_zero]
      exact (hidle.2 hopen').symm
    · cases hd
      rw [← hturn]
      exact (hlinked.feeds honce).waiting _ hmem

/-- The reader takes some bytes of the chunk that is being delivered. -/
theorem Inv.handOver (h : Inv t) (hs : (t role).objs[i]? = some s) {d : Delivery}
    (hd : s.delivering = some d) (happ : s.app = true) (n : Nat) :
    Inv (Function.update t role ((t role).setObj i
      { s with
        toApp := s.toApp ++ d.rest.take n
        delivering := some { d with rest := d.rest.drop n } })) := by
  have hin := List.mem_of_getElem? hs
  have hok := (h.side role).streams s hin
  have hlinked := h.linked role s hin
  obtain ⟨done, hpayload, hlen⟩ := hok.busy d hd
  have hmoves : Moves s { s with
      toApp := s.toApp ++ d.rest.take n
      delivering := some { d with rest := d.rest.drop n } } := by
    refine ⟨rfl, fun h => h, List.prefix_rfl, ?_⟩
    show s.toApp.length ≤ (s.toApp ++ d.rest.take n).length
    rw [List.length_append]
    omega
  refine h.setObj hs hmoves ⟨hok.opening, hok.sendSeq, hok.chunk, hok.pending, fun hn => (by cases hn),
    fun d' hd' => ?_, fun ha => absurd happ (ha ▸ Bool.false_ne_true)⟩
    ⟨fun honce => ?_, hlinked.acked, hlinked.confirmed⟩ [] (fun _ hf => (by cases hf)) rfl rfl (List.append_nil _).symm fun _ _ hl => hl
  · cases hd'
    refine ⟨done ++ d.rest.take n, ?_, ?_⟩
    · show d.payload = done ++ d.rest.take n ++ d.rest.drop n
      rw [List.append_assoc, List.take_append_drop, hpayload]
    · show (s.toApp ++ d.rest.take n).length = s.recvSeq + (done ++ d.rest.take n).length
      rw [List.length_append, List.length_append, hlen, Nat.add_assoc]
  · obtain ⟨hwaiting, hdelivering, htoApp⟩ := hlinked.feeds honce
    refine ⟨hwaiting, fun d' hd' => ?_, ?_⟩
    · cases hd'
      exact hdelivering d hd
    · -- what is left of the chunk stands where the reader is
      have hslice := hdelivering d hd
      have hrest : SliceAt (writtenBy (t role.peer).objs s.id) s.toApp.length d.rest := by
        have := hslice.drop (k := done.length) (by rw [hpayload, List.length_append]; omega)
        rw [hpayload, List.drop_left] at this
        rwa [hlen]
      have hprefix := take_append_prefix (hrest.take n)
      rwa [← List.prefix_iff_eq_take.mp htoApp] at hprefix

theorem Inv.deliverDone (h : Inv t) (hs : (t role).objs[i]? = some s) {d : Delivery}
    (hd : s.delivering = some d) (hrest : d.rest = []) :
    Inv (Function.update t role (((t role).setObj i
      { s with delivering := none, recvSeq := s.recvSeq + d.payload.length }).send
        (.frameAck s.id (s.recvSeq + d.payload.length)))) := by
  have hin := List.mem_of_getElem? hs
  have hok := (h.side role).streams s hin
  have hlinked := h.linked role s hin
  obtain ⟨done, hpayload, hlen⟩ := hok.busy d hd
  rw [hrest, List.append_nil] at hpayload
  rw [← hpayload] at hlen
  have hmoves : Moves s { s with delivering := none, recvSeq := s.recvSeq + d.payload.length } :=
    ⟨rfl, fun h => h, List.prefix_rfl, Nat.le_refl _⟩
  refine h.setObj hs hmoves ⟨hok.opening, hok.sendSeq, hok.chunk, hok.pending, fun _ => ?_,
    fun _ hn => (by cases hn), hok.inert⟩ ⟨fun honce => ?_, hlinked.acked, hlinked.confirmed⟩ [_] (fun f hf => ?_)
    rfl rfl rfl fun _ _ hl => hl
  · exact ⟨Nat.le_of_eq hlen.symm, fun _ => hlen.symm⟩
  · exact ⟨(hlinked.feeds honce).waiting, fun _ hn => (by cases hn), (hlinked.feeds honce).toApp⟩
  · rw [List.mem_singleton.mp hf]
    refine .inr ⟨_, List.mem_set (List.getElem?_eq_some_iff.mp hs).1 _, rfl, ?_⟩
    exact Nat.le_of_eq hlen.symm

theorem Inv.deliverFails (h : Inv t) (hs : (t role).objs[i]? = some s) {d : Delivery}
    (hd : s.delivering = some d) (hclosed : s.connClosed = true) :
    Inv (Function.update t role
      (((t role).setObj i { s with delivering := none }).removeStream s.id i)) := by
  have hin := List.mem_of_getElem? hs
  have hok := (h.side role).streams s hin
  have hlinked := h.linked role s hin
  obtain ⟨done, -, hlen⟩ := hok.busy d hd
  have hmoves : Moves s { s with delivering := none } :=
    ⟨rfl, fun h => h, List.prefix_rfl, Nat.le_refl _⟩
  obtain ⟨hnext, hobjs, hsent, htable⟩ :=
    removeStream_spec ((t role).setObj i { s with delivering := none }) s.id i
  refine h.setObj hs hmoves ⟨hok.opening, hok.sendSeq, hok.chunk, hok.pending, fun _ => ⟨?_, fun ho => ?_⟩,
    fun _ hn => (by cases hn), hok.inert⟩ ⟨fun honce => ?_, hlinked.acked, hlinked.confirmed⟩ []
    (fun _ hf => (by cases hf)) hnext hobjs (hsent.trans (List.append_nil _).symm) htable
  · show s.recvSeq ≤ s.toApp.length
    omega
  · have ho' : s.connClosed = false := ho
    rw [hclosed] at ho'
    cases ho'
  · exact ⟨(hlinked.feeds honce).waiting, fun _ hn => (by cases hn), (hlinked.feeds honce).toApp⟩

/-- The frame of a chunk that is being sent. -/
theorem sent_chunk {objs : List MuxStream} (hs : s' ∈ objs) (happ : s'.app = true) {start : Nat}
    {payload : List UInt8} (hslice : SliceAt s'.written start payload) :
    Sent role objs (.frameData s'.id start payload) := by
  intro honce
  rw [writtenBy_live hs happ honce]
  exact hslice

/-- One step at a stream. -/
theorem Inv.streamStep (h : Inv t) (hs : (t role).objs[i]? = some s) {action : StreamAction}
    (hr : (t role).streamStep i s action = some m) : Inv (Function.update t role m) := by
  have hin := List.mem_of_getElem? hs
  have hok := (h.side role).streams s hin
  have hset : ∀ s', s' ∈ (t role).objs.set i s' := fun s' =>
    List.mem_set (List.getElem?_eq_some_iff.mp hs).1 _
  have hnil : ∀ {objs : List MuxStream}, ∀ f ∈ ([] : List Frame), Sent role objs f :=
    fun _ hf => (by cases hf)
  have hlast : ∀ {sent : List Frame}, sent = sent ++ [] := (List.append_nil _).symm
  cases Mux.streamMove hr with
  | snapshotOpen hp =>
      exact h.setPump hs [] (fun _ _ => hok.opening _ hp) (fun _ _ _ hq => (by cases hq)) (fun h => h)
        (fun h => h) (.inr rfl) hnil rfl rfl hlast fun _ _ hl => hl
  | snapshotChunk hp =>
      exact h.setPump hs [] (fun _ hq => (by cases hq)) (fun _ _ _ hq => by cases hq; exact hok.chunk _ _ _ hp)
        (fun h => h) (fun h => h) (.inr rfl) hnil rfl rfl hlast fun _ _ hl => hl
  | writeOpen _ hp =>
      refine h.setPump hs [.frameOpen s.id] (fun _ _ => hok.opening _ hp) (fun _ _ _ hq => (by cases hq))
        (fun h => h) (fun h => h) (.inr rfl) (fun f hf => ?_) rfl rfl rfl fun _ _ hl => hl
      rw [List.mem_singleton.mp hf]
      exact hok.opening _ hp
  | @writeChunk start payload seen _ hp =>
      obtain ⟨happ, hslice⟩ := hok.chunk _ _ _ hp
      refine h.setPump hs [.frameData s.id start payload] (fun _ hq => (by cases hq))
        (fun _ _ _ hq => by cases hq; exact ⟨happ, hslice⟩) (fun h => h) (fun h => h) (.inr rfl)
        (fun f hf => ?_) rfl rfl rfl fun _ _ hl => hl
      rw [List.mem_singleton.mp hf]
      exact sent_chunk (hset { s with pump := .sending start payload (.waiting seen) }) happ hslice
  | changedOpen hp _ =>
      exact h.setPump hs [] (fun _ _ => hok.opening _ hp) (fun _ _ _ hq => (by cases hq)) (fun h => h)
        (fun h => h) (.inr rfl) hnil rfl rfl hlast fun _ _ hl => hl
  | changedChunk hp _ =>
      exact h.setPump hs [] (fun _ hq => (by cases hq)) (fun _ _ _ hq => by cases hq; exact hok.chunk _ _ _ hp)
        (fun h => h) (fun h => h) (.inr rfl) hnil rfl rfl hlast fun _ _ hl => hl
  | opened _ _ =>
      exact h.setPump hs [] (fun _ hq => (by cases hq)) (fun _ _ _ hq => (by cases hq)) (fun _ => rfl)
        (fun h => h) (.inr rfl) hnil rfl rfl hlast fun _ _ hl => hl
  | openFails _ =>
      exact h.setPump hs [] (fun _ hq => (by cases hq)) (fun _ _ _ hq => (by cases hq)) (fun h => h)
        (fun _ => rfl) (.inr rfl) hnil rfl rfl hlast fun _ _ hl => lookup_erase_some hl
  | accept _ =>
      exact h.setPump hs [] hok.opening (fun _ _ _ hq => ⟨rfl, (hok.chunk _ _ _ hq).2⟩) (fun _ => rfl)
        (fun h => h) (.inr rfl) hnil rfl rfl hlast fun _ _ hl => hl
  | appWrite hg => exact h.appWrite hs hg.2.1 hg.2.2.1
  | appClose _ =>
      exact h.setPump hs [] hok.opening hok.chunk (fun h => h) (fun _ => rfl) (.inr rfl) hnil rfl rfl hlast
        fun _ _ hl => hl
  | muxClose _ =>
      exact h.setPump hs [] hok.opening hok.chunk (fun h => h) (fun _ => rfl) (.inr rfl) hnil rfl rfl hlast
        fun _ _ hl => hl
  | chunkAcked _ hpending hacked => exact h.chunkAcked hs hpending hacked
  | chunkFails _ =>
      exact h.setPump hs [] (fun _ hq => (by cases hq)) (fun _ _ _ hq => (by cases hq)) (fun h => h)
        (fun h => h) (.inl rfl) hnil rfl rfl hlast fun _ _ hl => hl
  | readEnds _ =>
      exact h.setPump hs [] (fun _ hq => (by cases hq)) (fun _ _ _ hq => (by cases hq)) (fun h => h)
        (fun h => h) (.inr rfl) hnil rfl rfl hlast fun _ _ hl => hl
  | closeSent _ _ =>
      refine h.setPump hs [.frameClose s.id] (fun _ hq => (by cases hq)) (fun _ _ _ hq => (by cases hq))
        (fun h => h) (fun h => h) (.inr rfl) (fun f hf => ?_) rfl rfl rfl fun _ _ hl => hl
      rw [List.mem_singleton.mp hf]
      exact trivial
  | closeLost _ =>
      exact h.setPump hs [] (fun _ hq => (by cases hq)) (fun _ _ _ hq => (by cases hq)) (fun h => h)
        (fun h => h) (.inr rfl) hnil rfl rfl hlast fun _ _ hl => hl
  | removed _ =>
      obtain ⟨hnext, hobjs, hsent, htable⟩ :=
        removeStream_spec ((t role).setObj i { s with pump := .ended }) s.id i
      exact h.setPump hs [] (fun _ hq => (by cases hq)) (fun _ _ _ hq => (by cases hq))
        (fun h => h) (fun h => h) (.inr rfl) hnil hnext hobjs (hsent.trans hlast) htable
  | deliver hg => exact h.deliver hs (Option.isNone_iff_eq_none.mp hg.1) hg.2
  | handOver hd happ => exact h.handOver hs hd happ _
  | deliverDone hd hrest => exact h.deliverDone hs hd hrest
  | deliverFails hd hg => exact h.deliverFails hs hd hg.1

/-- A data frame is left to a goroutine. -/
theorem Inv.receiveData (h : Inv t) (hs : (t role).objs[i]? = some s) {seq : Nat} {payload : List UInt8}
    (hf : .frameData s.id seq payload ∈ (t role.peer).sent) :
    Inv (Function.update t role
      ((t role).setObj i { s with waiting := s.waiting ++ [(seq, payload)] })) := by
  have hin := List.mem_of_getElem? hs
  have hok := (h.side role).streams s hin
  have hlinked := h.linked role s hin
  have hsent : LiveOnce (t role.peer).objs s.id →
      SliceAt (writtenBy (t role.peer).objs s.id) seq payload := (h.side role.peer).sent _ hf
  have hmoves : Moves s { s with waiting := s.waiting ++ [(seq, payload)] } :=
    ⟨rfl, fun h => h, List.prefix_rfl, Nat.le_refl _⟩
  refine h.setObj hs hmoves (hok.of_same hok.opening hok.chunk rfl hok.pending (fun h => h) fun h => h)
    ⟨fun honce => ⟨fun p hp => ?_, (hlinked.feeds honce).delivering, (hlinked.feeds honce).toApp⟩,
      hlinked.acked, hlinked.confirmed⟩ [] (fun _ hf => (by cases hf)) rfl rfl (List.append_nil _).symm
    fun _ _ hl => hl
  rcases List.mem_append.mp hp with hp | hp
  · exact (hlinked.feeds honce).waiting p hp
  · rw [List.mem_singleton.mp hp]
    exact hsent honce

/-- `handleOpenAck` and `handleAck`. -/
theorem Inv.receiveAck (h : Inv t) (hs : (t role).objs[i]? = some s) {seq : Nat} {openAck : Bool}
    (hf : .frameAck s.id seq ∈ (t role.peer).sent) :
    Inv (Function.update t role
      ((t role).setObj i (MuxStream.handleAck { s with openAck := openAck } seq))) := by
  have hin := List.mem_of_getElem? hs
  have hok := (h.side role).streams s hin
  have hlinked := h.linked role s hin
  have hdelivered : DeliveredBy (t role.peer).objs s.id seq := (h.side role.peer).sent _ hf
  have hopened : Linked (t role.peer).objs { s with openAck := openAck } :=
    hlinked.of_same rfl (.inr rfl) rfl
  have hmoves : Moves s { s with openAck := openAck } :=
    ⟨rfl, fun h => h, List.prefix_rfl, Nat.le_refl _⟩
  have hokopened : StreamOk role { s with openAck := openAck } :=
    hok.of_same hok.opening hok.chunk rfl hok.pending (fun h => h) fun h => h
  have hkeep := h.setObj hs hmoves hokopened hopened [] (fun _ hf => (by cases hf)) (m :=
    (t role).setObj i { s with openAck := openAck }) rfl rfl (List.append_nil _).symm fun _ _ hl => hl
  rw [MuxStream.handleAck]
  split
  · exact hkeep
  · rename_i p hp
    have hp' : s.pending = some p := hp
    split
    · exact hkeep
    · rename_i hle
      have hmoves' : Moves s { s with openAck := openAck, pending := some { p with acked := true } } :=
        ⟨rfl, fun h => h, List.prefix_rfl, Nat.le_refl _⟩
      refine h.setObj hs hmoves' (hok.of_same hok.opening hok.chunk rfl (fun q hq => ?_) (fun h => h)
        fun h => h)
        ⟨fun honce => ⟨(hlinked.feeds honce).waiting, (hlinked.feeds honce).delivering,
          (hlinked.feeds honce).toApp⟩, fun q hq _ => ?_, hlinked.confirmed⟩ [] (fun _ hf => (by cases hf)) rfl rfl
        (List.append_nil _).symm fun _ _ hl => hl
      · cases hq
        exact hok.pending p hp'
      · -- the chunk ends at or before what the peer has counted
        cases hq
        have hpos := hok.pending p hp'
        rcases hdelivered with hz | ⟨a, ha, hid, hn⟩
        · omega
        · refine .inr ⟨a, ha, hid, ?_⟩
          show p.endSeq ≤ _
          omega

/-- The peer opens a stream. -/
theorem Inv.receiveOpen (h : Inv t) {id : Nat} (hf : .frameOpen id ∈ (t role.peer).sent)
    {m : Mux} (hnext : m.nextStreamID = (t role).nextStreamID)
    (hobjs : m.objs = (t role).objs ++ [MuxStream.new id true .reading])
    (hsent : m.sent = (t role).sent ++ [.frameAck id 0])
    (hstreams : m.streams = (t role).streams.insert id (t role).objs.length) :
    Inv (Function.update t role m) := by
  have hparity : id % 2 = role.peer.parity := (h.side role.peer).sent _ hf
  have hne : id % 2 ≠ role.parity := by
    cases role with
    | client =>
        rw [hparity]
        simp [MuxRole.parity, MuxRole.peer]
    | server =>
        rw [hparity]
        simp [MuxRole.parity, MuxRole.peer]
  exact h.newObj _ rfl rfl (StreamOk.new (fun _ hp => (by cases hp)) fun _ _ _ hp => (by cases hp))
    (Linked.new _ _ _ _) (fun hp => absurd hp hne) [_] (fun _ hf => List.mem_singleton.mp hf) (.inl ⟨hnext, hne⟩)
    hobjs hsent hstreams

/-- A frame of the peer is handled. -/
theorem Inv.handleFrame (h : Inv t) {f : Frame} (hf : f ∈ (t role.peer).sent) :
    Inv (Function.update t role ((t role).handleFrame f)) := by
  have htable := (h.side role).table
  cases f with
  | frameOpen id =>
      rw [Mux.handleFrame]
      split
      · -- the stream is there: it is acknowledged again
        have hside := h.side role
        refine h.update ⟨hside.table, hside.streams, hside.next, hside.fresh, hside.once, fun f hf => ?_⟩
          (Grows.refl _) (h.linked role)
        rcases List.mem_append.mp hf with hf | hf
        · exact hside.sent f hf
        · rw [List.mem_singleton.mp hf]
          exact .inl rfl
      · exact h.receiveOpen hf rfl rfl rfl rfl
  | frameData id seq payload =>
      rw [Mux.handleFrame]
      split
      · exact h.same rfl
      · rename_i i hi
        obtain ⟨s, hs, hid⟩ := htable id i hi
        rw [hs]
        exact h.receiveData hs (hid.symm ▸ hf)
  | frameAck id seq =>
      rw [Mux.handleFrame]
      split
      · exact h.same rfl
      · rename_i i hi
        obtain ⟨s, hs, hid⟩ := htable id i hi
        rw [hs]
        exact h.receiveAck hs (hid.symm ▸ hf)
  | frameClose id =>
      rw [Mux.handleFrame]
      split
      · exact h.same rfl
      · rename_i i hi
        obtain ⟨s, hs, hid⟩ := htable id i hi
        rw [hs]
        have hok := (h.side role).streams s (List.mem_of_getElem? hs)
        exact h.setPump hs [] hok.opening hok.chunk (fun h => h) (fun _ => rfl) (.inr rfl)
          (fun _ hf => (by cases hf)) rfl rfl (List.append_nil _).symm fun _ _ hl => lookup_erase_some hl

theorem Inv.openStream (h : Inv t)
    (hnext : m.nextStreamID = (t role).nextStreamID + 2)
    (hobjs : m.objs = (t role).objs ++
      [MuxStream.new (t role).nextStreamID false (.opening .snapshot)])
    (hsent : m.sent = (t role).sent)
    (hstreams : m.streams = (t role).streams.insert (t role).nextStreamID (t role).objs.length) :
    Inv (Function.update t role m) :=
  h.newObj _ rfl rfl (StreamOk.new (fun _ _ => (h.side role).next) fun _ _ _ hp => (by cases hp))
    (Linked.new _ _ _ _) (fun _ => rfl) [] (fun _ hf => (by cases hf)) (.inr hnext) hobjs
    (hsent.trans (List.append_nil _).symm) hstreams

theorem Inv.step (h : Inv t) {l : MuxRole × MuxLabel} {t' : Muxes} (hs : t.step l = some t') :
    Inv t' := by
  obtain ⟨role, l⟩ := l
  obtain ⟨m, hr, rfl⟩ := Option.map_eq_some_iff.mp hs
  cases l with
  | replaceCarrier carrier =>
      rw [Mux.step] at hr
      split at hr
      · cases hr
      · cases hr
        exact h.same rfl
  | markCarrierDead =>
      rw [Mux.step] at hr
      split at hr
      · cases hr
      · cases hr
        exact h.same rfl
  | close =>
      rw [Mux.step] at hr
      split at hr
      · cases hr
      · cases hr
        exact h.same rfl
  | openStream =>
      rw [Mux.step] at hr
      split at hr
      · cases hr
      · cases hr
        exact h.openStream rfl rfl rfl rfl
  | receive f =>
      rw [Mux.step] at hr
      split at hr
      · rename_i hf
        cases hr
        exact h.handleFrame hf
      · cases hr
  | stream i action =>
      rw [Mux.step] at hr
      split at hr
      · cases hr
      · exact h.streamStep ‹_› hr

end Steps

theorem Inv.init : Inv Muxes.init where
  side := fun role => by
    refine ⟨fun _ _ hl => (by cases hl), fun _ hs => (by cases hs), ?_, fun _ hs => (by cases hs),
      fun _ _ => Nat.zero_le _, fun _ hf => (by cases hf)⟩
    cases role with
    | client => rfl
    | server => rfl
  linked := fun role s hs => by cases hs

/-- Ids of one's own streams are not used twice. -/
theorem SideOk.liveOnce {role : MuxRole} {m : Mux} (h : SideOk role m) {id : Nat}
    (hid : id % 2 = role.parity) : LiveOnce m.objs id := by
  refine Nat.le_trans (List.countP_mono_left fun s _ hl => ?_) (h.once id hid)
  rw [MuxStream.live, Bool.and_eq_true] at hl
  exact hl.1

theorem countP_le_one_eq {P : MuxStream → Bool} {objs : List MuxStream} (h : objs.countP P ≤ 1)
    {a b : MuxStream} (ha : a ∈ objs) (hb : b ∈ objs) (hpa : P a = true) (hpb : P b = true) : a = b := by
  have ha' : a ∈ objs.filter P := List.mem_filter.mpr ⟨ha, hpa⟩
  have hb' : b ∈ objs.filter P := List.mem_filter.mpr ⟨hb, hpb⟩
  rw [List.countP_eq_length_filter] at h
  cases hf : objs.filter P with
  | nil =>
      rw [hf] at ha'
      cases ha'
  | cons c rest =>
      rw [hf, List.length_cons] at h
      rw [hf, List.length_eq_zero_iff.mp (by omega : rest.length = 0)] at ha' hb'
      rw [List.mem_singleton.mp ha', List.mem_singleton.mp hb']

/-- What was acknowledged was handed over by that object. -/
theorem DeliveredBy.le {role : MuxRole} {objs : List MuxStream} (hok : ∀ s ∈ objs, StreamOk role s)
    {id n : Nat} (h : DeliveredBy objs id n) (honce : LiveOnce objs id) {s : MuxStream} (hs : s ∈ objs)
    (hid : s.id = id) (hother : s.app = false → ∀ a ∈ objs, a.live id = false) :
    n ≤ s.toApp.length := by
  rcases h with rfl | ⟨a, ha, haid, hn⟩
  · exact Nat.zero_le _
  · cases haapp : a.app with
    | false =>
        rw [(hok a ha).inert haapp] at hn
        exact Nat.le_trans hn (Nat.zero_le _)
    | true =>
        have hla : a.live id = true := by rw [MuxStream.live, haid, haapp]; simp
        cases happ : s.app with
        | false =>
            rw [hother happ a ha] at hla
            cases hla
        | true =>
            have hls : s.live id = true := by rw [MuxStream.live, hid, happ]; simp
            rwa [← countP_le_one_eq honce ha hs hla hls]

/-- The stream delivers in order and exactly once between its two ends, `o` on the side
that opened it and `p` on the other. -/
structure DeliversExactly (o p : MuxStream) : Prop where
  toPeer : p.toApp <+: o.written
  fromPeer : o.toApp <+: p.written
  confirmed : o.confirmed ≤ p.toApp.length ∧ p.confirmed ≤ o.toApp.length

/-- For every run of two multiplexers and every stream that the peer of its opener
accepted once: each application was handed a prefix of what the other wrote, and
`sendChunk` returned without an error only for chunks that were handed over. -/
theorem mux_delivers_exactly_once (ls : List (MuxRole × MuxLabel)) (t : Muxes)
    (hrun : runFrom Muxes.step Muxes.init ls = some t) (role : MuxRole) (o p : MuxStream)
    (ho : o ∈ (t role).objs) (hopener : o.id % 2 = role.parity)
    (hp : p ∈ (t role.peer).objs) (hid : p.id = o.id) (haccepted : p.app = true)
    (honce : LiveOnce (t role.peer).objs o.id) : DeliversExactly o p := by
  have h := runFrom_invariant (I := Inv) (fun _ _ _ h hs => h.step hs) ls Inv.init hrun
  have hside := h.side role
  have hown := hside.liveOnce hopener
  have hlinko := h.linked role o ho
  have hlinkp := h.linked role.peer p hp
  rw [MuxRole.peer_peer] at hlinkp
  have hfeeds := hlinkp.feeds (hid.symm ▸ hown)
  have hconfirmed := hlinkp.confirmed
  rw [hid] at hfeeds hconfirmed
  -- the opener has no other object with the id
  have hother : o.app = false → ∀ a ∈ (t role).objs, a.live o.id = false := by
    intro happ a ha
    by_contra hla
    rw [Bool.not_eq_false, MuxStream.live, Bool.and_eq_true, decide_eq_true_eq] at hla
    have heq : a = o := countP_le_one_eq (hside.once o.id hopener) ha ho (by simpa using hla.1) (by simp)
    rw [heq, happ] at hla
    cases hla.2
  have hwo : writtenBy (t role).objs o.id <+: o.written := by
    cases happ : o.app with
    | true =>
        rewrite [writtenBy_live ho happ hown]
        exact List.prefix_rfl
    | false =>
        rw [writtenBy, List.filter_eq_nil_iff.mpr fun a ha => by rw [hother happ a ha]; simp]
        exact List.nil_prefix
  have hwp : writtenBy (t role.peer).objs o.id = p.written := by
    rw [← hid]
    exact writtenBy_live hp haccepted (hid.symm ▸ honce)
  refine ⟨hfeeds.toApp.trans hwo, hwp ▸ (hlinko.feeds honce).toApp, ?_, ?_⟩
  · exact hlinko.confirmed.le (h.side role.peer).streams honce hp hid fun hc => by
      rw [haccepted] at hc
      cases hc
  · exact hconfirmed.le hside.streams hown ho rfl hother

/-- A chunk is sent again on a second carrier and arrives twice. -/
def exampleRun : List (MuxRole × MuxLabel) :=
  [(.client, .replaceCarrier true), (.server, .replaceCarrier true), (.client, .openStream),
    (.client, .stream 0 .snapshot), (.client, .stream 0 .write), (.server, .receive (.frameOpen 1)),
    (.server, .stream 0 .accept), (.client, .receive (.frameAck 1 0)), (.client, .stream 0 .opened),
    (.client, .stream 0 (.appWrite [1, 2, 3])), (.client, .stream 0 .snapshot),
    (.client, .stream 0 .write), (.client, .markCarrierDead), (.client, .replaceCarrier true),
    (.client, .stream 0 .carrierChanged), (.client, .stream 0 .snapshot), (.client, .stream 0 .write),
    (.server, .receive (.frameData 1 0 [1, 2, 3])), (.server, .receive (.frameData 1 0 [1, 2, 3])),
    (.server, .stream 0 (.deliver 0 [1, 2, 3])), (.server, .stream 0 (.handOver 2)),
    (.server, .stream 0 (.handOver 1)), (.server, .stream 0 .deliverDone),
    (.server, .stream 0 (.deliver 0 [1, 2, 3])), (.client, .receive (.frameAck 1 3)),
    (.client, .stream 0 .chunkAcked)]

theorem mux_delivers_exactly_once_two_carriers :
    ∃ t, runFrom Muxes.step Muxes.init exampleRun = some t ∧ ∃ o ∈ (t .client).objs,
      ∃ p ∈ (t .server).objs, p.toApp = [1, 2, 3] ∧ o.confirmed = 3 ∧ DeliversExactly o p := by
  have h : (runFrom Muxes.step Muxes.init exampleRun).any (fun t => (t .client).objs.any fun o =>
      (t .server).objs.any fun p => decide (o.id % 2 = 1 ∧ p.id = o.id ∧ p.app = true ∧
        (t .server).objs.countP (MuxStream.live o.id) ≤ 1 ∧ p.toApp = [1, 2, 3] ∧
          o.confirmed = 3)) = true := by decide +kernel
  obtain ⟨t, hrun, ht⟩ := (Option.any_eq_true ..).mp h
  obtain ⟨o, ho, hoany⟩ := List.any_eq_true.mp ht
  obtain ⟨p, hp, hpany⟩ := List.any_eq_true.mp hoany
  obtain ⟨hopener, hid, happ, honce, htoApp, hconfirmed⟩ := of_decide_eq_true hpany
  exact ⟨t, hrun, o, ho, p, hp, htoApp, hconfirmed,
    mux_delivers_exactly_once _ t hrun .client o p ho hopener hp hid happ honce⟩

end Derptun
