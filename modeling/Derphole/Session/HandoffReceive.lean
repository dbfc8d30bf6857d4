import Derphole.Session.Handoff

/-!
# The receiver of the handoff

`externalHandoffReceiver` of `pkg/session/external_handoff.go` against chunks that are cut from a source in
any way and come in any order.  Offsets and sizes are below `2 ^ 63`, so their sums are exact.

What is written is always the source up to the watermark, since whatever is put aside stands in the source
at its offset.  But a chunk is put aside under its offset alone, and only an entry that starts at the
watermark is written.  An entry that starts before the watermark is neither written nor removed, and a chunk
that starts where an entry does is refused when it is longer or shorter.  A receiver without such entries
has written all that it could (`complete_iff_ahead`).
-/

namespace Session

open Lib

namespace HandoffReceiver

/-! ## What a chunk does -/

/-- Where the new part of a chunk starts. -/
def start (r : HandoffReceiver) (chunk : HandoffChunk) : Nat := max chunk.offset r.watermark

/-- The new part of a chunk. -/
def rest (r : HandoffReceiver) (chunk : HandoffChunk) : List UInt8 :=
  chunk.payload.drop (r.watermark - chunk.offset)

/-- The branches of `AcceptChunk`: there is nothing new in the chunk, it is refused since it does not fit
into the window, there is an entry at its offset already, which is the same or is not, or it is put aside. -/
inductive Verdict where
  | nothingNew
  | windowOverflow
  | duplicate
  | mismatch
  | stored
  deriving DecidableEq

def verdict (r : HandoffReceiver) (chunk : HandoffChunk) : Verdict :=
  if chunk.payload.length = 0 then .nothingNew
  else if chunk.offset + chunk.payload.length ≤ r.watermark then .nothingNew
  else if r.start chunk > r.watermark + r.maxWindow then .windowOverflow
  else
    match r.pending.lookup (r.start chunk) with
    | some old => if old == r.rest chunk then .duplicate else .mismatch
    | none => if r.buffered + (r.rest chunk).length > r.maxWindow then .windowOverflow else .stored

/-- The chunk is put aside. -/
def store (r : HandoffReceiver) (chunk : HandoffChunk) : HandoffReceiver :=
  { r with
    pending := r.pending.insert (r.start chunk) (r.rest chunk)
    buffered := r.buffered + (r.rest chunk).length }

theorem acceptChunk_eq (r : HandoffReceiver) (chunk : HandoffChunk) (fault : Option WriteFault) :
    r.acceptChunk chunk fault =
      match r.verdict chunk with
      | .nothingNew => (true, r)
      | .windowOverflow => (false, r)
      | .duplicate => (true, r)
      | .mismatch => (false, r)
      | .stored => drain (r.pending.entries.length + 1) fault (r.store chunk) := by
  have hstart : max chunk.offset r.watermark = r.start chunk := rfl
  have hrest : chunk.payload.drop (r.watermark - chunk.offset) = r.rest chunk := rfl
  rw [acceptChunk, verdict]
  split
  · rfl
  split
  · rfl
  simp only [hstart, hrest]
  by_cases hfar : r.start chunk > r.watermark + r.maxWindow
  · simp only [if_pos hfar]
  simp only [if_neg hfar]
  cases hold : r.pending.lookup (r.start chunk) with
  | some old =>
      rw [show r.pending.lookup (max chunk.offset r.watermark) = some old from hold]
      cases hsame : old == r.rest chunk with
      | true => simp [hsame]
      | false => simp [hsame]
  | none =>
      rw [show r.pending.lookup (max chunk.offset r.watermark) = none from hold]
      by_cases hfull : r.buffered + (r.rest chunk).length > r.maxWindow
      · simp only [if_pos hfull]
      · simp only [if_neg hfull]
        rfl

/-- What each branch says of the chunk. -/
theorem verdict_spec (r : HandoffReceiver) (chunk : HandoffChunk) :
    match r.verdict chunk with
    | .nothingNew => chunk.payload.length = 0 ∨ chunk.offset + chunk.payload.length ≤ r.watermark
    | .windowOverflow => r.start chunk > r.watermark + r.maxWindow ∨
        r.buffered + (r.rest chunk).length > r.maxWindow
    | .duplicate => r.pending.lookup (r.start chunk) = some (r.rest chunk)
    | .mismatch => r.start chunk ≤ r.watermark + r.maxWindow ∧
        ∃ old, r.pending.lookup (r.start chunk) = some old ∧ old ≠ r.rest chunk
    | .stored => chunk.payload.length ≠ 0 ∧ r.watermark < chunk.offset + chunk.payload.length ∧
        r.pending.lookup (r.start chunk) = none ∧
        r.buffered + (r.rest chunk).length ≤ r.maxWindow := by
  rw [verdict]
  by_cases hsome : chunk.payload.length = 0
  · simp only [if_pos hsome]
    exact .inl hsome
  by_cases hnew : chunk.offset + chunk.payload.length ≤ r.watermark
  · simp only [if_neg hsome, if_pos hnew]
    exact .inr hnew
  by_cases hfar : r.start chunk > r.watermark + r.maxWindow
  · simp only [if_neg hsome, if_neg hnew, if_pos hfar]
    exact .inl hfar
  simp only [if_neg hsome, if_neg hnew, if_neg hfar]
  cases hold : r.pending.lookup (r.start chunk) with
  | some old =>
      by_cases hsame : old = r.rest chunk
      · simp [hsame]
      · simp only [beq_iff_eq, if_neg hsame]
        exact ⟨Nat.le_of_not_lt hfar, old, rfl, hsame⟩
  | none =>
      by_cases hfull : r.buffered + (r.rest chunk).length > r.maxWindow
      · simp only [if_pos hfull]
        exact .inr hfull
      · simp only [if_neg hfull]
        exact ⟨hsome, Nat.lt_of_not_le hnew, trivial, Nat.le_of_not_lt hfull⟩

theorem of_verdict_stored {r : HandoffReceiver} {chunk : HandoffChunk} (h : r.verdict chunk = .stored) :
    chunk.payload.length ≠ 0 ∧ r.watermark < chunk.offset + chunk.payload.length ∧
      r.pending.lookup (r.start chunk) = none ∧ r.buffered + (r.rest chunk).length ≤ r.maxWindow := by
  have hspec := verdict_spec r chunk
  rwa [h] at hspec

/-- There is something new in a chunk that is not passed over. -/
theorem new_of_verdict {r : HandoffReceiver} {chunk : HandoffChunk} (h : r.verdict chunk ≠ .nothingNew) :
    r.watermark < chunk.offset + chunk.payload.length := by
  by_contra hold
  refine h ?_
  rw [verdict]
  split
  · rfl
  · rw [if_pos (Nat.le_of_not_lt hold)]

/-! ## What is written -/

/-- The bytes put aside. -/
def pendingBytes (r : HandoffReceiver) : Nat := (r.pending.entries.map fun e => e.2.length).sum

/-- The output is the source up to the watermark, and what is put aside stands in the source and is counted. -/
structure Safe (S : List UInt8) (r : HandoffReceiver) : Prop where
  out : r.out = S.take r.watermark
  le : r.watermark ≤ S.length
  pending : Map.All (fun offset payload => SliceAt S offset payload ∧ payload ≠ []) r.pending
  buffered : r.buffered = r.pendingBytes
  window : r.buffered ≤ r.maxWindow

variable {S : List UInt8} {r : HandoffReceiver} {chunk : HandoffChunk}

theorem Safe.new (S : List UInt8) (maxWindow : Nat) : Safe S (new maxWindow) where
  out := rfl
  le := Nat.zero_le _
  pending := Map.All.empty
  buffered := rfl
  window := Nat.zero_le _

/-- The new part of a slice is a slice. -/
theorem slice_rest (hslice : SliceAt S chunk.offset chunk.payload) (hsome : chunk.payload.length ≠ 0)
    (hnew : r.watermark < chunk.offset + chunk.payload.length) :
    SliceAt S (r.start chunk) (r.rest chunk) ∧ r.rest chunk ≠ [] ∧
      r.start chunk + (r.rest chunk).length = chunk.offset + chunk.payload.length := by
  have hcut := hslice.drop (show r.watermark - chunk.offset ≤ chunk.payload.length by omega)
  have hstart : chunk.offset + (r.watermark - chunk.offset) = r.start chunk := by
    rw [start]
    omega
  have hlength : (r.rest chunk).length = chunk.payload.length - (r.watermark - chunk.offset) :=
    List.length_drop
  rw [hstart] at hcut
  refine ⟨hcut, ?_, ?_⟩
  · rw [← List.length_pos_iff]
    omega
  · rw [← hstart]
    omega

theorem Safe.store (h : Safe S r) (hslice : SliceAt S chunk.offset chunk.payload)
    (hverdict : r.verdict chunk = .stored) : Safe S (r.store chunk) := by
  obtain ⟨hsome, hnew, hfree, hfits⟩ := of_verdict_stored hverdict
  obtain ⟨hrest, hne, -⟩ := slice_rest hslice hsome hnew
  refine ⟨h.out, h.le, h.pending.insert ⟨hrest, hne⟩, ?_, hfits⟩
  rw [pendingBytes, HandoffReceiver.store, Map.entries_insert_of_lookup hfree, List.map_cons,
    List.sum_cons, h.buffered, pendingBytes, Nat.add_comm]

/-- The receiver after the entry `next` at the watermark was written. -/
def deliver (r : HandoffReceiver) (next : List UInt8) : HandoffReceiver :=
  { r with
    out := r.out ++ next
    pending := r.pending.erase r.watermark
    buffered := r.buffered - next.length
    watermark := r.watermark + next.length }

theorem pendingBytes_deliver {next : List UInt8} (hnext : r.pending.lookup r.watermark = some next) :
    (r.deliver next).pendingBytes + next.length = r.pendingBytes := by
  have hsum := ((Map.perm_entries_erase hnext).map fun e => e.2.length).sum_eq
  rw [List.map_cons, List.sum_cons] at hsum
  rw [pendingBytes, pendingBytes, hsum, Nat.add_comm]
  rfl

theorem Safe.deliver (h : Safe S r) {next : List UInt8}
    (hnext : r.pending.lookup r.watermark = some next) : Safe S (r.deliver next) := by
  obtain ⟨hslice, -⟩ := h.pending _ _ hnext
  have hcount := pendingBytes_deliver hnext
  have hbuffered := h.buffered
  refine ⟨?_, hslice.end_le, h.pending.erase _, ?_, ?_⟩
  · show r.out ++ next = _
    rw [h.out, hslice.take_append]
    rfl
  · show r.buffered - next.length = _
    omega
  · show r.buffered - next.length ≤ r.maxWindow
    exact Nat.le_trans (Nat.sub_le _ _) h.window

/-- What is safe for a source is safe for every longer one. -/
theorem Safe.mono {T : List UInt8} (h : Safe S r) (hST : S <+: T) : Safe T r where
  out := by
    obtain ⟨rest, rfl⟩ := hST
    rw [h.out, List.take_append_of_le_length h.le]
  le := Nat.le_trans h.le hST.length_le
  pending := h.pending.mono fun _ _ hp => ⟨hp.1.mono hST, hp.2⟩
  buffered := h.buffered
  window := h.window

/-- What can come of a chunk, or of the writes for it, when the watermark was at `w`.  A write that fails
leaves a part of the next entry in the output. -/
inductive Accepts (S : List UInt8) (w : Nat) (fault : Option WriteFault) : Bool × HandoffReceiver → Prop where
  | accepted {r : HandoffReceiver} : Safe S r → w ≤ r.watermark → Accepts S w fault (true, r)
  | refused {r : HandoffReceiver} : Safe S r → w ≤ r.watermark → r.watermark < S.length →
      Accepts S w fault (false, r)
  | failed {r : HandoffReceiver} {next : List UInt8} {written : Nat} : Safe S r → w ≤ r.watermark →
      r.pending.lookup r.watermark = some next → (∃ f ∈ fault, f.written = written) →
      Accepts S w fault (false, { r with out := r.out ++ next.take written })

theorem Accepts.weaken {w w' : Nat} {fault fault' : Option WriteFault} {result : Bool × HandoffReceiver}
    (h : Accepts S w fault result) (hle : w' ≤ w)
    (hfault : ∀ f ∈ fault, ∃ g ∈ fault', g.written = f.written) : Accepts S w' fault' result := by
  cases h with
  | accepted hsafe hw => exact .accepted hsafe (Nat.le_trans hle hw)
  | refused hsafe hw hend => exact .refused hsafe (Nat.le_trans hle hw) hend
  | failed hsafe hw hnext hwritten =>
      obtain ⟨f, hf, rfl⟩ := hwritten
      exact .failed hsafe (Nat.le_trans hle hw) hnext (hfault f hf)

theorem Safe.drains (h : Safe S r) (fuel : Nat) (fault : Option WriteFault) :
    Accepts S r.watermark fault (drain fuel fault r) := by
  induction fuel generalizing r fault with
  | zero => exact .accepted h (Nat.le_refl _)
  | succ fuel ih =>
      rw [HandoffReceiver.drain]
      split
      · exact .accepted h (Nat.le_refl _)
      next next hnext =>
        split
        next written => exact .failed h (Nat.le_refl _) hnext ⟨⟨0, written⟩, rfl, rfl⟩
        · refine (ih (h.deliver hnext) _).weaken (Nat.le_add_right _ _) ?_
          intro f hf
          obtain ⟨g, hg, rfl⟩ := Option.mem_map.mp hf
          exact ⟨g, hg, rfl⟩

theorem Safe.accepts (h : Safe S r) (hslice : SliceAt S chunk.offset chunk.payload)
    (fault : Option WriteFault) : Accepts S r.watermark fault (r.acceptChunk chunk fault) := by
  have hend := hslice.end_le
  have hbelow : r.verdict chunk ≠ .nothingNew → r.watermark < S.length := fun hv =>
    Nat.lt_of_lt_of_le (new_of_verdict hv) hend
  rw [acceptChunk_eq]
  cases hverdict : r.verdict chunk with
  | nothingNew => exact .accepted h (Nat.le_refl _)
  | windowOverflow => exact .refused h (Nat.le_refl _) (hbelow (by rw [hverdict]; nofun))
  | duplicate => exact .accepted h (Nat.le_refl _)
  | mismatch => exact .refused h (Nat.le_refl _) (hbelow (by rw [hverdict]; nofun))
  | stored => exact (h.store hslice hverdict).drains _ fault

namespace Accepts

variable {w : Nat} {fault : Option WriteFault} {result : Bool × HandoffReceiver}

theorem safe (h : Accepts S w fault result) (hok : result.1 = true) : Safe S result.2 := by
  cases h with
  | accepted hsafe _ => exact hsafe
  | refused _ _ _ => cases hok
  | failed _ _ _ _ => cases hok

/-- A write that fails without having written anything leaves the receiver safe. -/
theorem safe_of_written (h : Accepts S w fault result) (hfault : ∀ f ∈ fault, f.written = 0) :
    Safe S result.2 := by
  cases h with
  | accepted hsafe _ => exact hsafe
  | refused hsafe _ _ => exact hsafe
  | failed hsafe _ _ hwritten =>
      obtain ⟨f, hf, rfl⟩ := hwritten
      rw [hfault f hf, List.take_zero, List.append_nil]
      exact hsafe

theorem watermark_le (h : Accepts S w fault result) : w ≤ result.2.watermark := by
  cases h with
  | accepted _ hle => exact hle
  | refused _ hle _ => exact hle
  | failed _ hle _ _ => exact hle

/-- After an error the watermark is not at the end. -/
theorem below (h : Accepts S w fault result) (hfail : result.1 = false) : result.2.watermark < S.length := by
  cases h with
  | accepted _ _ => cases hfail
  | refused _ _ hlt => exact hlt
  | failed hsafe _ hnext _ =>
      obtain ⟨hslice, hne⟩ := hsafe.pending _ _ hnext
      have hend := hslice.end_le
      have hpos := List.length_pos_iff.mpr hne
      exact Nat.lt_of_lt_of_le (Nat.lt_add_of_pos_right hpos) hend

/-- Whatever write fails, only bytes of the source are written. -/
theorem out_isPrefix (h : Accepts S w fault result) : result.2.out <+: S := by
  cases h with
  | accepted hsafe _ => exact hsafe.out ▸ List.take_prefix _ _
  | refused hsafe _ _ => exact hsafe.out ▸ List.take_prefix _ _
  | @failed r next written hsafe _ hnext _ =>
      show r.out ++ next.take written <+: S
      rw [hsafe.out, ((hsafe.pending _ _ hnext).1.take written).take_append]
      exact List.take_prefix _ _

/-- What the watermark says is written. -/
theorem watermark_le_out (h : Accepts S w fault result) : result.2.watermark ≤ result.2.out.length := by
  have hsafe : ∀ {r : HandoffReceiver}, Safe S r → r.watermark ≤ r.out.length := fun h => by
    rw [h.out, List.length_take, Nat.min_eq_left h.le]
  cases h with
  | accepted h _ => exact hsafe h
  | refused h _ _ => exact hsafe h
  | failed h _ _ _ =>
      rw [List.length_append]
      exact Nat.le_add_right_of_le (hsafe h)

end Accepts

/-- The receiver after some chunks, each with the write that fails, if one does. -/
def receive (r : HandoffReceiver) (chunks : List (HandoffChunk × Option WriteFault)) : HandoffReceiver :=
  chunks.foldl (fun r c => (r.acceptChunk c.1 c.2).2) r

theorem Safe.receive {chunks : List (HandoffChunk × Option WriteFault)} (h : Safe S r)
    (hslices : ∀ c ∈ chunks, SliceAt S c.1.offset c.1.payload)
    (hfaults : ∀ c ∈ chunks, ∀ f ∈ c.2, f.written = 0) : Safe S (r.receive chunks) := by
  induction chunks generalizing r with
  | nil => exact h
  | cons c cs ih =>
      have hsafe := (h.accepts (hslices c List.mem_cons_self) c.2).safe_of_written
        (hfaults c List.mem_cons_self)
      refine ih hsafe ?_ ?_
      · exact fun d hd => hslices d (List.mem_cons_of_mem c hd)
      · exact fun d hd => hfaults d (List.mem_cons_of_mem c hd)

theorem maxWindow_drain (fuel : Nat) (fault : Option WriteFault) :
    (drain fuel fault r).2.maxWindow = r.maxWindow := by
  induction fuel generalizing r fault with
  | zero => rfl
  | succ fuel ih =>
      rw [drain]
      split
      · rfl
      · split
        · rfl
        · exact ih _

theorem maxWindow_receive (chunks : List (HandoffChunk × Option WriteFault)) :
    (r.receive chunks).maxWindow = r.maxWindow := by
  induction chunks generalizing r with
  | nil => rfl
  | cons c cs ih =>
      refine (ih (r := (r.acceptChunk c.1 c.2).2)).trans ?_
      rw [acceptChunk_eq]
      split <;> first | rfl | exact maxWindow_drain _ _

/-- Chunks that are cut from `S` in any way leave the first bytes of `S` in the output, up to the watermark.
The count of what is put aside is exact and within the window. -/
theorem handoff_receiver_safe (S : List UInt8) (maxWindow : Nat)
    (chunks : List (HandoffChunk × Option WriteFault))
    (hslices : ∀ c ∈ chunks, SliceAt S c.1.offset c.1.payload)
    (hfaults : ∀ c ∈ chunks, ∀ f ∈ c.2, f.written = 0) :
    let r := (new maxWindow).receive chunks
    r.out = S.take r.watermark ∧ r.watermark ≤ S.length ∧ r.buffered = r.pendingBytes ∧
      r.buffered ≤ maxWindow := by
  intro r
  have h : Safe S r := (Safe.new S maxWindow).receive hslices hfaults
  have hwindow : r.maxWindow = maxWindow := maxWindow_receive chunks
  exact ⟨h.out, h.le, h.buffered, hwindow ▸ h.window⟩

theorem handoff_receiver_safe_overlapping :
    let r := (new 8).receive [(⟨2, [12, 13, 14]⟩, none), (⟨0, [10, 11, 12]⟩, none), (⟨9, [19]⟩, none)]
    r.out = [10, 11, 12] ∧ r.buffered = 4 ∧
      r.out = [10, 11, 12, 13, 14, 15, 16, 17, 18, 19].take r.watermark := by
  have h := handoff_receiver_safe [10, 11, 12, 13, 14, 15, 16, 17, 18, 19] 8
    [(⟨2, [12, 13, 14]⟩, none), (⟨0, [10, 11, 12]⟩, none), (⟨9, [19]⟩, none)]
    (by decide) (by decide)
  exact ⟨by decide, by decide, h.1⟩

/-! ## What is missing -/

/-- A receiver with the chunks that it accepted. -/
structure Receipt where
  rx : HandoffReceiver
  accepted : List HandoffChunk

namespace Receipt

def accept (t : Receipt) (chunk : HandoffChunk) : Receipt where
  rx := (t.rx.acceptChunk chunk none).2
  accepted := if (t.rx.acceptChunk chunk none).1 then t.accepted ++ [chunk] else t.accepted

def run (maxWindow : Nat) (chunks : List HandoffChunk) : Receipt :=
  chunks.foldl accept ⟨new maxWindow, []⟩

end Receipt

/-- The byte `i` is in the chunk. -/
def Inside (chunk : HandoffChunk) (i : Nat) : Prop :=
  chunk.offset ≤ i ∧ i < chunk.offset + chunk.payload.length

/-- The byte `i` is in one of the chunks. -/
def Covers (chunks : List HandoffChunk) (i : Nat) : Prop := ∃ c ∈ chunks, Inside c i

/-- The byte `i` was written or is put aside. -/
def Reached (r : HandoffReceiver) (i : Nat) : Prop :=
  i < r.watermark ∨ ∃ o p, r.pending.lookup o = some p ∧ o ≤ i ∧ i < o + p.length

/-- The watermark is the length of the longest prefix that the accepted chunks cover, and no entry lies
below it. -/
structure Receipt.Complete (t : Receipt) : Prop where
  covered : ∀ i < t.rx.watermark, Covers t.accepted i
  longest : ¬ Covers t.accepted t.rx.watermark
  above : Map.All (fun o p => t.rx.watermark < o + p.length) t.rx.pending

/-- Every entry starts behind the watermark. -/
def Ahead (r : HandoffReceiver) : Prop := Map.All (fun o _ => r.watermark < o) r.pending

/-! ### Delivery -/

/-- The entry `q` at `o` is written when the receiver stands at `w`: it starts there, or where another entry
ends that is written. -/
inductive Written (pending : Map Nat (List UInt8)) : Nat → Nat → List UInt8 → Prop where
  | here {w : Nat} {q : List UInt8} : pending.lookup w = some q → Written pending w w q
  | next {w o : Nat} {p q : List UInt8} :
      pending.lookup w = some p → Written pending (w + p.length) o q → Written pending w o q

/-- No entry starts within one that is written. -/
def NoLeap (pending : Map Nat (List UInt8)) (w : Nat) : Prop :=
  ∀ o q, Written pending w o q → Map.All (fun o' _ => ¬(o < o' ∧ o' < o + q.length)) pending

theorem Written.le {pending : Map Nat (List UInt8)} {w o : Nat} {q : List UInt8}
    (h : Written pending w o q) : w ≤ o := by
  induction h with
  | here _ => exact Nat.le_refl _
  | next _ _ ih => exact Nat.le_trans (Nat.le_add_right _ _) ih

/-- Only the entries from `w` on matter. -/
theorem Written.congr {pending pending' : Map Nat (List UInt8)} {w o : Nat} {q : List UInt8}
    (h : Written pending w o q) (heq : ∀ k, w ≤ k → pending.lookup k = pending'.lookup k) :
    Written pending' w o q := by
  induction h with
  | here hq => exact .here (heq _ (Nat.le_refl _) ▸ hq)
  | next hp _ ih =>
      refine .next (heq _ (Nat.le_refl _) ▸ hp) (ih fun k hk => ?_)
      exact heq k (Nat.le_trans (Nat.le_add_right _ _) hk)

/-- An entry behind the receiver stays there. -/
theorem behind_drain (fuel : Nat) {o : Nat} {p : List UInt8} (hp : r.pending.lookup o = some p)
    (ho : o < r.watermark) :
    (drain fuel none r).2.pending.lookup o = some p ∧ o < (drain fuel none r).2.watermark := by
  induction fuel generalizing r with
  | zero => exact ⟨hp, ho⟩
  | succ fuel ih =>
      rw [drain]
      split
      · exact ⟨hp, ho⟩
      next next hnext =>
        refine ih (r := r.deliver next) ?_ (Nat.lt_of_lt_of_le ho (Nat.le_add_right _ _))
        exact (AList.lookup_erase_ne (Nat.ne_of_lt ho)).trans hp

/-- A receiver that has passed no entry passes one just when an entry starts within one that it writes. -/
theorem ahead_drain_iff (fuel : Nat) (hfuel : r.pending.entries.length ≤ fuel)
    (hne : Map.All (fun _ p => p ≠ []) r.pending)
    (hfrom : Map.All (fun o _ => r.watermark ≤ o) r.pending) :
    Ahead (drain fuel none r).2 ↔ NoLeap r.pending r.watermark := by
  induction fuel generalizing r with
  | zero =>
      have hnone : r.pending.entries.isEmpty = true :=
        List.isEmpty_iff_length_eq_zero.mpr (Nat.le_zero.mp hfuel)
      exact ⟨fun _ _ _ _ => Map.All.of_isEmpty hnone, fun _ => Map.All.of_isEmpty hnone⟩
  | succ fuel ih =>
      rw [drain]
      split
      next hnone =>
        refine ⟨fun _ o q hw => ?_, fun _ o p hp => ?_⟩
        · cases hw with
          | here hq => rw [hnone] at hq; cases hq
          | next hq _ => rw [hnone] at hq; cases hq
        · refine Nat.lt_of_le_of_ne (hfrom o p hp) ?_
          rintro rfl
          rw [hnone] at hp
          cases hp
      next next hnext =>
        show Ahead (drain fuel none (r.deliver next)).2 ↔ _
        have hpos := List.length_pos_iff.mpr (hne _ _ hnext)
        by_cases hleap : ∃ o p, r.pending.lookup o = some p ∧ r.watermark < o ∧
            o < r.watermark + next.length
        · obtain ⟨o, p, hp, hlo, hhi⟩ := hleap
          refine iff_of_false (fun hahead => ?_) fun hno => ?_
          · have hkept : (r.deliver next).pending.lookup o = some p :=
              (AList.lookup_erase_ne (Nat.ne_of_gt hlo)).trans hp
            obtain ⟨hstill, hbehind⟩ := behind_drain fuel hkept hhi
            exact Nat.lt_asymm hbehind (hahead o p hstill)
          · exact hno _ _ (.here hnext) o p hp ⟨hlo, hhi⟩
        · have hfrom' : Map.All (fun o _ => (r.deliver next).watermark ≤ o) (r.deliver next).pending := by
            intro o p hp
            have ho : o ≠ r.watermark := by
              rintro rfl
              rw [show (r.deliver next).pending = r.pending.erase r.watermark from rfl,
                AList.lookup_erase] at hp
              cases hp
            have hp' : r.pending.lookup o = some p := (AList.lookup_erase_ne ho).symm.trans hp
            have hle := hfrom o p hp'
            by_contra hlt
            exact hleap ⟨o, p, hp', by omega, Nat.lt_of_not_le hlt⟩
          have hagree : ∀ k, r.watermark + next.length ≤ k →
              r.pending.lookup k = (r.deliver next).pending.lookup k := by
            intro k hk
            exact (AList.lookup_erase_ne (by omega)).symm
          have hlen : (r.deliver next).pending.entries.length ≤ fuel := by
            have := Map.length_erase_lt hnext
            show (r.pending.erase r.watermark).entries.length ≤ fuel
            omega
          rw [ih hlen (hne.erase _) hfrom']
          refine ⟨fun hno o q hw => ?_, fun hno o q hw => ?_⟩
          · cases hw with
            | here hq =>
                rw [hnext] at hq
                cases hq
                exact fun o' p' hp' hin => hleap ⟨o', p', hp', hin⟩
            | next hp hrest =>
                rw [hnext] at hp
                cases hp
                have hle := hrest.le
                intro o' p' hp' hin
                refine hno o q (hrest.congr hagree) o' p' ?_ hin
                exact (AList.lookup_erase_ne (by omega)).trans hp'
          · have hw' := hw.congr fun k hk => (hagree k hk).symm
            intro o' p' hp'
            have hin := hno o q (.next hnext hw') o' p'
            by_cases ho' : o' = r.watermark
            · have hle : r.watermark + next.length ≤ o := hw.le
              omega
            · exact hin ((AList.lookup_erase_ne ho').symm.trans hp')

/-! ### Coverage -/

theorem covers_snoc {chunks : List HandoffChunk} (chunk : HandoffChunk) (i : Nat) :
    Covers (chunks ++ [chunk]) i ↔ Covers chunks i ∨ Inside chunk i := by
  simp [Covers, or_and_right, exists_or]

theorem reached_store (hslice : SliceAt S chunk.offset chunk.payload)
    (hverdict : r.verdict chunk = .stored) (i : Nat) :
    Reached (r.store chunk) i ↔ Reached r i ∨ Inside chunk i := by
  obtain ⟨hsome, hnew, hfree, -⟩ := of_verdict_stored hverdict
  obtain ⟨-, -, hend⟩ := slice_rest hslice hsome hnew
  have hstart : r.start chunk = max chunk.offset r.watermark := rfl
  constructor
  · rintro (hlt | ⟨o, p, hp, hlo, hhi⟩)
    · exact .inl (.inl hlt)
    by_cases ho : o = r.start chunk
    · rw [ho, HandoffReceiver.store, AList.lookup_insert] at hp
      cases hp
      exact .inr ⟨by omega, by omega⟩
    · exact .inl (.inr ⟨o, p, (AList.lookup_insert_ne ho).symm.trans hp, hlo, hhi⟩)
  · rintro ((hlt | ⟨o, p, hp, hlo, hhi⟩) | ⟨hlo, hhi⟩)
    · exact .inl hlt
    · have ho : o ≠ r.start chunk := by
        rintro rfl
        rw [hfree] at hp
        cases hp
      exact .inr ⟨o, p, (AList.lookup_insert_ne ho).trans hp, hlo, hhi⟩
    by_cases hbelow : i < r.watermark
    · exact .inl hbelow
    · exact .inr ⟨r.start chunk, r.rest chunk, AList.lookup_insert _, by omega, by omega⟩

theorem reached_deliver {next : List UInt8} (hnext : r.pending.lookup r.watermark = some next) (i : Nat) :
    Reached (r.deliver next) i ↔ Reached r i := by
  have hmark : (r.deliver next).watermark = r.watermark + next.length := rfl
  constructor
  · rintro (hlt | ⟨o, p, hp, hlo, hhi⟩)
    · by_cases hbelow : i < r.watermark
      · exact .inl hbelow
      · exact .inr ⟨r.watermark, next, hnext, by omega, by omega⟩
    · have ho : o ≠ r.watermark := by
        rintro rfl
        rw [show (r.deliver next).pending = r.pending.erase r.watermark from rfl,
          AList.lookup_erase] at hp
        cases hp
      exact .inr ⟨o, p, (AList.lookup_erase_ne ho).symm.trans hp, hlo, hhi⟩
  · rintro (hlt | ⟨o, p, hp, hlo, hhi⟩)
    · exact .inl (by omega)
    by_cases ho : o = r.watermark
    · rw [ho, hnext] at hp
      cases hp
      exact .inl (by omega)
    · exact .inr ⟨o, p, (AList.lookup_erase_ne ho).trans hp, hlo, hhi⟩

theorem drain_none (fuel : Nat) (i : Nat) :
    (drain fuel none r).1 = true ∧ (Reached (drain fuel none r).2 i ↔ Reached r i) := by
  induction fuel generalizing r with
  | zero => exact ⟨rfl, Iff.rfl⟩
  | succ fuel ih =>
      rw [drain]
      split
      · exact ⟨rfl, Iff.rfl⟩
      next next hnext =>
        obtain ⟨hok, hsame⟩ := ih (r := r.deliver next)
        exact ⟨hok, hsame.trans (reached_deliver hnext i)⟩

/-- What was accepted is written or put aside, and nothing else is. -/
structure Receipt.Tracked (S : List UInt8) (t : Receipt) : Prop where
  safe : Safe S t.rx
  covers : ∀ i, Covers t.accepted i ↔ Reached t.rx i

namespace Receipt

variable {t : Receipt}

theorem Tracked.new (S : List UInt8) (maxWindow : Nat) :
    Tracked S ⟨HandoffReceiver.new maxWindow, []⟩ := by
  refine ⟨Safe.new S maxWindow, fun i => ?_⟩
  simp [Covers, Reached, HandoffReceiver.new]

theorem Tracked.accept (h : t.Tracked S) (hslice : SliceAt S chunk.offset chunk.payload) :
    (t.accept chunk).Tracked S := by
  refine ⟨(h.safe.accepts hslice none).safe_of_written nofun, fun i => ?_⟩
  have hspec := verdict_spec t.rx chunk
  rw [Receipt.accept, acceptChunk_eq]
  cases hverdict : t.rx.verdict chunk with
  | nothingNew =>
      rw [hverdict] at hspec
      dsimp only at hspec ⊢
      rw [if_pos rfl, covers_snoc, h.covers, or_iff_left_iff_imp]
      rintro ⟨hlo, hhi⟩
      exact .inl (by omega)
  | windowOverflow => simpa using h.covers i
  | mismatch => simpa using h.covers i
  | duplicate =>
      rw [hverdict] at hspec
      dsimp only at hspec ⊢
      rw [if_pos rfl, covers_snoc, h.covers, or_iff_left_iff_imp]
      rintro ⟨hlo, hhi⟩
      by_cases hbelow : i < t.rx.watermark
      · exact .inl hbelow
      · have hstart : t.rx.start chunk = max chunk.offset t.rx.watermark := rfl
        have hlength : (t.rx.rest chunk).length =
            chunk.payload.length - (t.rx.watermark - chunk.offset) := List.length_drop
        exact .inr ⟨_, _, hspec, by omega, by omega⟩
  | stored =>
      obtain ⟨hok, hsame⟩ := drain_none (r := t.rx.store chunk) (t.rx.pending.entries.length + 1) i
      dsimp only
      rw [if_pos hok, covers_snoc, h.covers, hsame, reached_store hslice hverdict]

theorem Tracked.run (S : List UInt8) (maxWindow : Nat) {chunks : List HandoffChunk}
    (hslices : ∀ c ∈ chunks, SliceAt S c.offset c.payload) : (run maxWindow chunks).Tracked S := by
  suffices ∀ t : Receipt, t.Tracked S → (chunks.foldl Receipt.accept t).Tracked S from
    this _ (Tracked.new S maxWindow)
  induction chunks with
  | nil => exact fun t h => h
  | cons c cs ih =>
      intro t h
      refine ih (fun d hd => hslices d (List.mem_cons_of_mem c hd)) _ ?_
      exact h.accept (hslices c List.mem_cons_self)

/-- A receiver has written all that it could just when no entry is behind it. -/
theorem Tracked.complete_iff_ahead (h : t.Tracked S) : t.Complete ↔ Ahead t.rx := by
  constructor
  · intro hc o p hp
    by_contra hbehind
    refine hc.longest ((h.covers _).mpr (.inr ⟨o, p, hp, by omega, hc.above o p hp⟩))
  · intro ha
    refine ⟨fun i hi => (h.covers i).mpr (.inl hi), fun hcov => ?_, fun o p hp => ?_⟩
    · rcases (h.covers _).mp hcov with hlt | ⟨o, p, hp, hlo, -⟩
      · exact Nat.lt_irrefl _ hlt
      · exact Nat.not_lt_of_le hlo (ha o p hp)
    · exact Nat.lt_of_lt_of_le (ha o p hp) (Nat.le_add_right _ _)

end Receipt

/-! ### Boundaries that line up -/

/-- The chunk lines up with what is put aside: an entry that starts where the chunk does is as long as the
chunk; and where the chunk is written, no entry starts within the chunk or within an entry that is written
after it. -/
structure Aligned (r : HandoffReceiver) (chunk : HandoffChunk) : Prop where
  same : r.watermark < chunk.offset → chunk.offset ≤ r.watermark + r.maxWindow →
    ∀ old, r.pending.lookup chunk.offset = some old → old.length = chunk.payload.length
  leap : chunk.offset ≤ r.watermark → r.watermark < chunk.offset + chunk.payload.length →
    r.buffered + (chunk.offset + chunk.payload.length - r.watermark) ≤ r.maxWindow →
    NoLeap (r.pending.insert r.watermark (r.rest chunk)) r.watermark

/-- A chunk that does not reach the receiver's place cannot be written yet. -/
theorem Ahead.acceptChunk_of_lt (h : Ahead r) (hlt : r.watermark < chunk.offset) :
    Ahead (r.acceptChunk chunk none).2 := by
  rw [acceptChunk_eq]
  cases hverdict : r.verdict chunk with
  | nothingNew => exact h
  | windowOverflow => exact h
  | duplicate => exact h
  | mismatch => exact h
  | stored =>
      have hstart : r.start chunk = chunk.offset := Nat.max_eq_left (Nat.le_of_lt hlt)
      have hahead : Ahead (r.store chunk) := h.insert (by rw [hstart]; exact hlt)
      have hnone : (r.store chunk).pending.lookup (r.store chunk).watermark = none := by
        cases hl : (r.store chunk).pending.lookup (r.store chunk).watermark with
        | none => rfl
        | some p => exact absurd (hahead _ _ hl) (Nat.lt_irrefl _)
      rw [drain, hnone]
      exact hahead

/-- A chunk ahead of the receiver is refused just when the entry at its offset has another length. -/
theorem Safe.mismatch_iff (h : Safe S r) (hslice : SliceAt S chunk.offset chunk.payload)
    (hsome : chunk.payload ≠ []) (hlt : r.watermark < chunk.offset) :
    r.verdict chunk ≠ .mismatch ↔ (chunk.offset ≤ r.watermark + r.maxWindow →
      ∀ old, r.pending.lookup chunk.offset = some old → old.length = chunk.payload.length) := by
  have hstart : r.start chunk = chunk.offset := Nat.max_eq_left (Nat.le_of_lt hlt)
  have hrest : r.rest chunk = chunk.payload := by
    rw [rest, Nat.sub_eq_zero_of_le (Nat.le_of_lt hlt), List.drop_zero]
  have hspec := verdict_spec r chunk
  rw [hstart, hrest] at hspec
  constructor
  · intro hok hwithin old hold
    by_contra hlength
    refine hok ?_
    have hdiff : old ≠ chunk.payload := fun he => hlength (congrArg List.length he)
    rw [verdict, if_neg (by simpa using hsome), if_neg (by omega), hstart, hrest, if_neg (by omega), hold]
    exact if_neg (by simpa using hdiff)
  · intro hsame hbad
    rw [hbad] at hspec
    obtain ⟨hwithin, old, hold, hdiff⟩ := hspec
    have hlength := hsame hwithin old hold
    obtain ⟨hold', -⟩ := h.pending _ _ hold
    exact hdiff (by rw [hold'.eq_take, hlength, ← hslice.eq_take])

/-- A chunk that reaches the receiver's place leaves no entry behind just when no entry starts within what
is written. -/
theorem Safe.ahead_iff_of_le (h : Safe S r) (ha : Ahead r)
    (hslice : SliceAt S chunk.offset chunk.payload) (hsome : chunk.payload ≠ [])
    (hle : chunk.offset ≤ r.watermark) :
    Ahead (r.acceptChunk chunk none).2 ↔
      (r.watermark < chunk.offset + chunk.payload.length →
        r.buffered + (chunk.offset + chunk.payload.length - r.watermark) ≤ r.maxWindow →
        NoLeap (r.pending.insert r.watermark (r.rest chunk)) r.watermark) := by
  have hlen : chunk.payload.length ≠ 0 := by simpa using hsome
  have hstart : r.start chunk = r.watermark := Nat.max_eq_right hle
  have hfree : r.pending.lookup r.watermark = none := by
    cases hl : r.pending.lookup r.watermark with
    | none => rfl
    | some p => exact absurd (ha _ _ hl) (Nat.lt_irrefl _)
  by_cases hnew : r.watermark < chunk.offset + chunk.payload.length
  · obtain ⟨hrest, hne, hend⟩ := slice_rest (r := r) hslice hlen hnew
    rw [hstart] at hrest hend
    by_cases hfits : r.buffered + (r.rest chunk).length ≤ r.maxWindow
    · have hverdict : r.verdict chunk = .stored := by
        rw [verdict, if_neg hlen, if_neg (by omega), hstart, if_neg (by omega), hfree]
        exact if_neg (by omega)
      have hsafe := h.store hslice hverdict
      have hstore : (r.store chunk).pending = r.pending.insert r.watermark (r.rest chunk) := by
        rw [HandoffReceiver.store, hstart]
      have hfuel : (r.store chunk).pending.entries.length ≤ r.pending.entries.length + 1 := by
        rw [hstore, Map.entries_insert_of_lookup hfree, List.length_cons]
      have hfrom : Map.All (fun o _ => (r.store chunk).watermark ≤ o) (r.store chunk).pending := by
        rw [hstore]
        exact (ha.mono fun _ _ hlt => Nat.le_of_lt hlt).insert (Nat.le_refl _)
      have hdrain := ahead_drain_iff _ hfuel (hsafe.pending.mono fun _ _ hp => hp.2) hfrom
      rw [acceptChunk_eq, hverdict]
      dsimp only
      rw [hdrain, hstore]
      exact ⟨fun hno _ _ => hno, fun hno => hno hnew (by omega)⟩
    · have hverdict : r.verdict chunk = .windowOverflow := by
        rw [verdict, if_neg hlen, if_neg (by omega), hstart, if_neg (by omega), hfree]
        exact if_pos (by omega)
      rw [acceptChunk_eq, hverdict]
      exact iff_of_true ha fun _ hfits' => absurd hfits' (by omega)
  · have hverdict : r.verdict chunk = .nothingNew := by
      rw [verdict, if_neg hlen, if_pos (by omega)]
    rw [acceptChunk_eq, hverdict]
    exact iff_of_true ha fun hnew' => absurd hnew' hnew

/-- One chunk, given to a receiver that has written all that it could. -/
theorem Safe.aligned_iff (h : Safe S r) (ha : Ahead r) (hslice : SliceAt S chunk.offset chunk.payload)
    (hsome : chunk.payload ≠ []) :
    Ahead (r.acceptChunk chunk none).2 ∧ r.verdict chunk ≠ .mismatch ↔ Aligned r chunk := by
  rcases Nat.lt_or_ge r.watermark chunk.offset with hlt | hle
  · rw [h.mismatch_iff hslice hsome hlt]
    constructor
    · rintro ⟨-, hsame⟩
      exact ⟨fun _ => hsame, fun hle => absurd hlt (Nat.not_lt_of_le hle)⟩
    · exact fun hal => ⟨ha.acceptChunk_of_lt hlt, hal.same hlt⟩
  · rw [h.ahead_iff_of_le ha hslice hsome hle]
    constructor
    · rintro ⟨hleap, -⟩
      exact ⟨fun hlt => absurd hlt (Nat.not_lt_of_le hle), fun _ => hleap⟩
    · refine fun hal => ⟨hal.leap hle, fun hbad => ?_⟩
      have hspec := verdict_spec r chunk
      rw [hbad] at hspec
      obtain ⟨-, old, hold, -⟩ := hspec
      rw [start, Nat.max_eq_right hle] at hold
      exact Nat.lt_irrefl _ (ha _ _ hold)

theorem Receipt.run_take_succ {maxWindow : Nat} {chunks : List HandoffChunk} {k : Nat} {c : HandoffChunk}
    (hc : chunks[k]? = some c) :
    Receipt.run maxWindow (chunks.take (k + 1)) = (Receipt.run maxWindow (chunks.take k)).accept c := by
  rw [List.take_add_one, hc]
  simp [Receipt.run]

/-- Chunks cut from `S` find the receiver complete after each of them, and none is refused as a duplicate
that does not match, just when each of them lines up with what is put aside when it comes. -/
theorem handoff_receiver_complete_iff (S : List UInt8) (maxWindow : Nat) (chunks : List HandoffChunk)
    (hslices : ∀ c ∈ chunks, SliceAt S c.offset c.payload) (hsome : ∀ c ∈ chunks, c.payload ≠ []) :
    ((∀ k ≤ chunks.length, (Receipt.run maxWindow (chunks.take k)).Complete) ∧
      ∀ k c, chunks[k]? = some c → (Receipt.run maxWindow (chunks.take k)).rx.verdict c ≠ .mismatch) ↔
    ∀ k c, chunks[k]? = some c → Aligned (Receipt.run maxWindow (chunks.take k)).rx c := by
  have htracked : ∀ k, (Receipt.run maxWindow (chunks.take k)).Tracked S := fun k =>
    Receipt.Tracked.run S maxWindow fun c hc => hslices c (List.mem_of_mem_take hc)
  have hstep : ∀ k c, chunks[k]? = some c → Ahead (Receipt.run maxWindow (chunks.take k)).rx →
      (Ahead (Receipt.run maxWindow (chunks.take (k + 1))).rx ∧
        (Receipt.run maxWindow (chunks.take k)).rx.verdict c ≠ .mismatch ↔
      Aligned (Receipt.run maxWindow (chunks.take k)).rx c) := by
    intro k c hc ha
    have hmem := List.mem_of_getElem? hc
    rw [Receipt.run_take_succ hc]
    exact (htracked k).safe.aligned_iff ha (hslices c hmem) (hsome c hmem)
  constructor
  · rintro ⟨hcomplete, hmatch⟩ k c hc
    have hk : k < chunks.length := (List.getElem?_eq_some_iff.mp hc).1
    have ha := (htracked k).complete_iff_ahead.mp (hcomplete k (Nat.le_of_lt hk))
    have ha' := (htracked (k + 1)).complete_iff_ahead.mp (hcomplete (k + 1) hk)
    exact (hstep k c hc ha).mp ⟨ha', hmatch k c hc⟩
  · intro haligned
    have hahead : ∀ k ≤ chunks.length, Ahead (Receipt.run maxWindow (chunks.take k)).rx := by
      intro k
      induction k with
      | zero => exact fun _ => Map.All.empty
      | succ k ih =>
          intro hk
          have hc : chunks[k]? = some chunks[k] := List.getElem?_eq_getElem hk
          exact ((hstep k _ hc (ih (Nat.le_of_lt hk))).mpr (haligned k _ hc)).1
    refine ⟨fun k hk => (htracked k).complete_iff_ahead.mpr (hahead k hk), fun k c hc => ?_⟩
    have hk : k < chunks.length := (List.getElem?_eq_some_iff.mp hc).1
    exact ((hstep k c hc (hahead k (Nat.le_of_lt hk))).mpr (haligned k c hc)).2

theorem handoff_receiver_complete_iff_three :
    let chunks : List HandoffChunk := [⟨3, [13, 14]⟩, ⟨0, [10, 11]⟩, ⟨1, [11, 12]⟩]
    (∀ k ≤ chunks.length, (Receipt.run 8 (chunks.take k)).Complete) ∧
      (∀ k c, chunks[k]? = some c → (Receipt.run 8 (chunks.take k)).rx.verdict c ≠ .mismatch) ↔
    ∀ k c, chunks[k]? = some c → Aligned (Receipt.run 8 (chunks.take k)).rx c :=
  handoff_receiver_complete_iff [10, 11, 12, 13, 14] 8 [⟨3, [13, 14]⟩, ⟨0, [10, 11]⟩, ⟨1, [11, 12]⟩]
    (by decide) (by decide)

/-- All chunks here are cut from one source.  Of two that overlap, both accepted, the second leaves the
watermark within the first; a third one leaves the first below the watermark; and a piece of the first is
refused. -/
theorem handoff_receiver_incomplete :
    (∀ c ∈ [HandoffChunk.mk 2 [12, 13, 14], ⟨0, [10, 11, 12]⟩, ⟨3, [13, 14, 15]⟩, ⟨2, [12, 13]⟩],
      SliceAt [10, 11, 12, 13, 14, 15] c.offset c.payload) ∧
    (let t := Receipt.run 8 [⟨2, [12, 13, 14]⟩, ⟨0, [10, 11, 12]⟩]
     t.accepted = [⟨2, [12, 13, 14]⟩, ⟨0, [10, 11, 12]⟩] ∧ t.rx.watermark = 3 ∧ Covers t.accepted 3) ∧
    (let t := Receipt.run 8 [⟨2, [12, 13, 14]⟩, ⟨0, [10, 11, 12]⟩, ⟨3, [13, 14, 15]⟩]
     t.accepted.length = 3 ∧ t.rx.watermark = 6 ∧ t.rx.pending.lookup 2 = some [12, 13, 14]) ∧
    (Receipt.run 8 [⟨2, [12, 13, 14]⟩]).rx.verdict ⟨2, [12, 13]⟩ = .mismatch := by
  refine ⟨by decide, ⟨by decide, by decide, ⟨2, [12, 13, 14]⟩, by decide, ?_⟩, by decide, by decide⟩
  exact ⟨by decide, by decide⟩

end HandoffReceiver

end Session
