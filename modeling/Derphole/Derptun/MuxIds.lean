import Derphole.Derptun.MuxOpen

/-!
# Stream ids of a multiplexer against any peer

`OpenStream` counts its ids up by two from a start that depends on the role, and
`getOrCreateRemoteStream` puts the id of the peer's frame into the same table without a look at
whose turn it is.  The peer here may send any frame.

An id of one's own that the peer opens first is the only way, short of running out of ids, in which
`OpenStream` meets an id that is taken.
-/

namespace Derptun

open Lib

/-- A step of a multiplexer whose peer sends what it likes; ids are `uint64`. -/
def Mux.stepAlone (m : Mux) : MuxLabel → Option Mux
  | .receive frame => some (m.handleFrame frame)
  | .openStream =>
      (m.step [] .openStream).map fun m' => { m' with nextStreamID := m'.nextStreamID % 2 ^ 64 }
  | l => m.step [] l

/-- The id is one that `OpenStream` has yet to assign. -/
def Mux.Upcoming (m : Mux) (id : Nat) : Prop :=
  id % 2 = m.nextStreamID % 2 ∧ m.nextStreamID ≤ id

/-- The peer opens no stream under an id that `OpenStream` has yet to assign, and the ids do not run
out. -/
def KeepsIds (m : Mux) : MuxLabel → Prop
  | .receive (.frameOpen id) => ¬ m.Upcoming id
  | .openStream => m.nextStreamID + 2 < 2 ^ 64
  | _ => True

/-- Every id of one's own that is in the table has been assigned. -/
def TableBelow (m : Mux) : Prop := ∀ id, (m.streams.lookup id).isSome = true → ¬ m.Upcoming id

/-- The table names no more ids than before. -/
structure Narrowed (m m' : Mux) : Prop where
  next : m'.nextStreamID = m.nextStreamID
  streams : ∀ id, (m'.streams.lookup id).isSome = true → (m.streams.lookup id).isSome = true

section

variable {m m' : Mux} {i : Nat} {s : MuxStream}

theorem Narrowed.of_streams (hnext : m'.nextStreamID = m.nextStreamID)
    (hstreams : m'.streams = m.streams) : Narrowed m m' :=
  ⟨hnext, fun _ h => hstreams ▸ h⟩

theorem Narrowed.of_erase {id : Nat} (hnext : m'.nextStreamID = m.nextStreamID)
    (hstreams : m'.streams = m.streams.erase id) : Narrowed m m' := by
  refine ⟨hnext, fun a h => ?_⟩
  rw [hstreams] at h
  by_cases ha : a = id
  · rw [ha, AList.lookup_erase] at h
    cases h
  · rwa [AList.lookup_erase_ne ha] at h

theorem Narrowed.trans {m'' : Mux} (h : Narrowed m m') (h' : Narrowed m' m'') : Narrowed m m'' :=
  ⟨h'.next.trans h.next, fun id hid => h.streams id (h'.streams id hid)⟩

theorem Narrowed.removeStream (m : Mux) (id i : Nat) : Narrowed m (m.removeStream id i) := by
  unfold Mux.removeStream
  split
  · exact .of_erase rfl rfl
  · exact .of_streams rfl rfl

theorem Narrowed.setObj (m : Mux) (i : Nat) (s : MuxStream) : Narrowed m (m.setObj i s) :=
  .of_streams rfl rfl

theorem Narrowed.deliver (m : Mux) (i : Nat) (s : MuxStream) (seq : Nat) (payload : List UInt8) :
    Narrowed m (m.deliver i s seq payload) := by
  rw [Mux.deliver]
  dsimp only
  split
  · exact .of_streams rfl rfl
  split
  · exact (Narrowed.setObj m i _).trans (.removeStream _ _ _)
  · exact .of_streams rfl rfl

theorem Narrowed.streamStep {action : StreamAction} (hr : m.streamStep i s action = some m') :
    Narrowed m m' := by
  cases Mux.streamMove hr with
  | @deliver seq payload => exact .deliver m i s seq payload
  | removed => exact (Narrowed.setObj m i { s with pump := .ended }).trans (.removeStream _ s.id i)
  | deliverFails => exact (Narrowed.setObj m i { s with delivering := none }).trans (.removeStream _ s.id i)
  | openFails => exact .of_erase rfl rfl
  | _ => exact .of_streams rfl rfl

/-- A frame that opens nothing. -/
theorem Narrowed.handleFrame {frame : Frame} (hopen : ∀ id, frame ≠ .frameOpen id) :
    Narrowed m (m.handleFrame frame) := by
  cases frame with
  | frameOpen id => exact absurd rfl (hopen id)
  | frameData id seq payload =>
      rw [Mux.handleFrame]
      repeat' split
      all_goals exact .of_streams rfl rfl
  | frameAck id seq =>
      rw [Mux.handleFrame]
      repeat' split
      all_goals exact .of_streams rfl rfl
  | frameClose id =>
      rw [Mux.handleFrame]
      split
      · exact .of_streams rfl rfl
      split
      · exact .of_streams rfl rfl
      · exact .of_erase rfl rfl

theorem TableBelow.narrowed (h : TableBelow m) (hn : Narrowed m m') : TableBelow m' := by
  intro id hid hup
  unfold Mux.Upcoming at hup
  rw [hn.next] at hup
  exact h id (hn.streams id hid) hup

/-- The peer opens a stream. -/
theorem TableBelow.frameOpen {id : Nat} (h : TableBelow m) (hid : ¬ m.Upcoming id) :
    TableBelow (m.handleFrame (.frameOpen id)) := by
  rw [Mux.handleFrame]
  split
  · exact h
  · intro a ha
    by_cases haid : a = id
    · rw [haid]
      exact hid
    · rw [AList.lookup_insert_ne haid] at ha
      exact h a ha

theorem TableBelow.openStream (h : TableBelow m) (hlt : m.nextStreamID + 2 < 2 ^ 64)
    (hs : m.stepAlone .openStream = some m') : TableBelow m' := by
  simp only [Mux.stepAlone, Mux.step] at hs
  split at hs
  · cases hs
  · cases hs
    intro a ha hup
    simp only [Mux.Upcoming, Nat.mod_eq_of_lt hlt] at hup
    by_cases haid : a = m.nextStreamID
    · omega
    · rw [AList.lookup_insert_ne haid] at ha
      exact h a ha ⟨by omega, by omega⟩

theorem TableBelow.step {l : MuxLabel} (h : TableBelow m) (hok : KeepsIds m l)
    (hs : m.stepAlone l = some m') : TableBelow m' := by
  cases l with
  | openStream => exact h.openStream hok hs
  | receive frame =>
      cases hs
      cases frame with
      | frameOpen id => exact h.frameOpen hok
      | frameData id seq payload => exact h.narrowed (.handleFrame fun _ => by simp)
      | frameClose id => exact h.narrowed (.handleFrame fun _ => by simp)
      | frameAck id seq => exact h.narrowed (.handleFrame fun _ => by simp)
  | replaceCarrier carrier =>
      simp only [Mux.stepAlone, Mux.step] at hs
      split at hs
      all_goals cases hs
      exact h
  | markCarrierDead =>
      simp only [Mux.stepAlone, Mux.step] at hs
      split at hs
      all_goals cases hs
      exact h
  | close =>
      simp only [Mux.stepAlone, Mux.step] at hs
      split at hs
      all_goals cases hs
      exact h
  | stream i action =>
      simp only [Mux.stepAlone, Mux.step] at hs
      split at hs
      · cases hs
      · exact h.narrowed (.streamStep hs)

end

theorem TableBelow.new (role : MuxRole) : TableBelow (Mux.new role) := by
  intro id h
  cases h

/-- In every run in which the peer opens no id that `OpenStream` has yet to assign, and the ids do
not run out, the id that `OpenStream` takes next is not in the table. -/
theorem mux_ids_fresh (role : MuxRole) (labels : List MuxLabel) (m : Mux)
    (hrun : runFrom Mux.stepAlone (Mux.new role) labels = some m)
    (hok : StepsMeet Mux.stepAlone KeepsIds (Mux.new role) labels) :
    m.streams.lookup m.nextStreamID = none := by
  have hbelow : TableBelow m :=
    runFrom_invariant_of_meet (fun _ _ _ h hok hs => h.step hok hs) labels (.new role) hok hrun
  cases hl : m.streams.lookup m.nextStreamID with
  | none => rfl
  | some i => exact absurd ⟨rfl, Nat.le_refl _⟩ (hbelow m.nextStreamID (by rw [hl]; rfl))

instance KeepsIds.decidable (m : Mux) : ∀ l, Decidable (KeepsIds m l)
  | .receive (.frameOpen id) =>
      inferInstanceAs (Decidable ¬ (id % 2 = m.nextStreamID % 2 ∧ m.nextStreamID ≤ id))
  | .openStream => inferInstanceAs (Decidable (m.nextStreamID + 2 < 2 ^ 64))
  | .receive (.frameData _ _ _) => isTrue trivial
  | .receive (.frameClose _) => isTrue trivial
  | .receive (.frameAck _ _) => isTrue trivial
  | .replaceCarrier _ => isTrue trivial
  | .markCarrierDead => isTrue trivial
  | .close => isTrue trivial
  | .stream _ _ => isTrue trivial

/-- Both sides open streams, and the peer opens an id of ours again that has been closed. -/
theorem mux_ids_fresh_both : ∃ m,
    runFrom Mux.stepAlone (Mux.new .client) [.openStream, .receive (.frameOpen 2),
      .receive (.frameClose 1), .receive (.frameOpen 1), .openStream, .receive (.frameOpen 1000)] =
        some m ∧
      m.streams.lookup m.nextStreamID = none := by
  have h : (runFrom Mux.stepAlone (Mux.new .client) [.openStream, .receive (.frameOpen 2),
      .receive (.frameClose 1), .receive (.frameOpen 1), .openStream,
      .receive (.frameOpen 1000)]).isSome = true := by decide +kernel
  obtain ⟨m, hrun⟩ := Option.isSome_iff_exists.mp h
  exact ⟨m, hrun, mux_ids_fresh .client _ m hrun (by decide +kernel)⟩

/-- The server opens stream 1 before the client does; then the table names the stream of
`OpenStream`, and the other one, which is not closed, is lost to it. -/
theorem mux_open_replaces : ∃ m m',
    runFrom Mux.stepAlone (Mux.new .client) [.receive (.frameOpen 1)] = some m ∧
      m.streams.lookup m.nextStreamID = some 0 ∧ m.stepAlone .openStream = some m' ∧
      m'.streams.lookup 1 = some 1 ∧ (m'.objs.map fun s => (s.id, s.connClosed)) = [(1, false), (1, false)] := by
  have h : (runFrom Mux.stepAlone (Mux.new .client) [.receive (.frameOpen 1)]).any (fun m =>
      decide (m.streams.lookup m.nextStreamID = some 0) &&
        (m.stepAlone .openStream).any fun m' => decide (m'.streams.lookup 1 = some 1 ∧
          (m'.objs.map fun s => (s.id, s.connClosed)) = [(1, false), (1, false)])) = true := by
    decide +kernel
  obtain ⟨m, hrun, hm⟩ := (Option.any_eq_true ..).mp h
  rw [Bool.and_eq_true] at hm
  obtain ⟨m', hopen, hm'⟩ := (Option.any_eq_true ..).mp hm.2
  exact ⟨m, m', hrun, of_decide_eq_true hm.1, hopen, of_decide_eq_true hm'⟩

end Derptun
