import Derphole.Session.StripedCopy

/-!
# What a striped copy delivers

A run of the receiver ends when it returns, or when its loop goes round with nothing left to
receive.  Which of these it is depends on the numbers of the frames and on the order in which
they came.  `Going` says where every frame is: not read yet, in the channel, waiting, or
written; from it follows what the connections held when the run has ended.

The loop notices a repeated number only while a chunk with this number waits (`Refused`).  A
number that was written already is kept as if its turn were still to come, and so is
everything behind a gap.  Then the loop never ends, and `striped_copy_meets_iff` says that
this, and a frame that is cut after its header, are the only ways to miss what a copy is for.
-/

namespace Session

open Lib

/-- A list around the place where it is changed. -/
theorem exists_set_split {α : Type*} {l : List α} {i : Nat} {a : α} (h : l[i]? = some a) (b : α) :
    ∃ pre post, l = pre ++ a :: post ∧ l.set i b = pre ++ b :: post := by
  obtain ⟨hlt, hget⟩ := List.getElem?_eq_some_iff.mp h
  obtain ⟨pre, post, hl, -, hset⟩ := @List.exists_of_set α i b l hlt
  rw [hget] at hl
  exact ⟨pre, post, hl, hset⟩

/-! ## Numbers -/

/-- Every connection consists of complete frames, their numbers are `0, 1, 2, ...`, each once,
and `dst` is their data in this order. -/
def Delivers (chunkSize : Nat) (streams : List Stream) (dst : List UInt8) : Prop :=
  ∃ (fs : List (List ExternalStripedChunk)) (cs : List ExternalStripedChunk),
    List.Forall₂ (Framed chunkSize) streams fs ∧ cs.Perm fs.flatten ∧
      cs.map (·.seq) = List.range cs.length ∧ dst = (cs.map (·.data)).flatten

/-- Reading a connection to its end gives an error. -/
def Broken (chunkSize : Nat) (streams : List Stream) : Prop :=
  ∃ src ∈ streams, (frames chunkSize src).2 ≠ .eof

/-- A number comes again while a lower one is missing, or for the third time. -/
def Refused (earlier : List Nat) (seq : Nat) : Prop :=
  (seq ∈ earlier ∧ ∃ t < seq, t ∉ earlier) ∨ 2 ≤ earlier.count seq

/-- Some number is refused when it comes. -/
def Doubled (numbers : List Nat) : Prop :=
  ∃ earlier seq later, numbers = earlier ++ seq :: later ∧ Refused earlier seq

theorem not_doubled_nil : ¬Doubled [] := by
  rintro ⟨earlier, seq, later, h, -⟩
  simp at h

theorem doubled_append_singleton {numbers : List Nat} {seq : Nat} :
    Doubled (numbers ++ [seq]) ↔ Doubled numbers ∨ Refused numbers seq := by
  constructor
  · rintro ⟨earlier, s, later, h, hr⟩
    rcases List.eq_nil_or_concat later with rfl | ⟨later, last, rfl⟩
    · obtain ⟨rfl, hs⟩ := List.append_inj' h rfl
      cases hs
      exact .inr hr
    · rw [List.concat_eq_append, ← List.cons_append, ← List.append_assoc] at h
      obtain ⟨rfl, -⟩ := List.append_inj' h rfl
      exact .inl ⟨earlier, s, later, rfl, hr⟩
  · rintro (⟨earlier, s, later, rfl, hr⟩ | hr)
    · exact ⟨earlier, s, later ++ [seq], by simp, hr⟩
    · exact ⟨numbers, seq, [], rfl, hr⟩

/-- Numbers that come once each are never refused. -/
theorem not_doubled_of_nodup {numbers : List Nat} (h : numbers.Nodup) : ¬Doubled numbers := by
  rintro ⟨earlier, seq, later, rfl, hr⟩
  have hnot : seq ∉ earlier := fun hmem =>
    (List.nodup_append.mp h).2.2 seq hmem seq List.mem_cons_self rfl
  rcases hr with ⟨hmem, -⟩ | hcount
  · exact hnot hmem
  · rw [List.count_eq_zero_of_not_mem hnot] at hcount
    omega

/-- Chunks in the order of their numbers. -/
theorem eq_of_perm_of_range {cs cs' : List ExternalStripedChunk} (hp : cs.Perm cs') {n n' : Nat}
    (h : cs.map (·.seq) = List.range n) (h' : cs'.map (·.seq) = List.range n') : cs = cs' := by
  have hsorted : ∀ {ds : List ExternalStripedChunk} {m : Nat}, ds.map (·.seq) = List.range m →
      ds.Pairwise fun a b => a.seq < b.seq := by
    intro ds m hd
    rw [← List.pairwise_map, hd]
    exact List.pairwise_lt_range
  exact hp.eq_of_pairwise (fun a b _ _ hab hba => absurd hab (Nat.lt_asymm hba)) (hsorted h) (hsorted h')

/-- What the readers find in complete connections. -/
theorem frames_of_framed {chunkSize : Nat} {streams : List Stream}
    {fs : List (List ExternalStripedChunk)} (h : List.Forall₂ (Framed chunkSize) streams fs) :
    (streams.flatMap fun src => (frames chunkSize src).1) = fs.flatten ∧ ¬Broken chunkSize streams := by
  induction h with
  | nil => exact ⟨rfl, by simp [Broken]⟩
  | cons hframed _ ih =>
      obtain ⟨hflat, hsound⟩ := ih
      refine ⟨by rw [List.flatMap_cons, hframed.frames, hflat, List.flatten_cons], ?_⟩
      rintro ⟨src, hmem, hbroken⟩
      rcases List.mem_cons.mp hmem with rfl | hmem
      · rw [hframed.frames] at hbroken
        exact hbroken rfl
      · exact hsound ⟨src, hmem, hbroken⟩

/-! ## The loop -/

/-- An entry of the pending map as a chunk. -/
def pendingChunk (e : Sigma fun _ : Nat => List UInt8) : ExternalStripedChunk := ⟨e.1, e.2⟩

/-- What the loop received was written in order, or waits. -/
structure Merged (arrived : List ExternalStripedChunk) (nextSeq : Nat) (pending : Map Nat (List UInt8))
    (dst : List UInt8) (written : List ExternalStripedChunk) : Prop where
  numbers : written.map (·.seq) = List.range nextSeq
  out : dst = (written.map (·.data)).flatten
  perm : arrived.Perm (written ++ pending.entries.map pendingChunk)

section

variable {arrived written : List ExternalStripedChunk} {nextSeq : Nat} {pending : Map Nat (List UInt8)}
  {dst : List UInt8} {c : ExternalStripedChunk} {data : List UInt8}

theorem mem_pending {seq : Nat} :
    seq ∈ (pending.entries.map pendingChunk).map (·.seq) ↔ (pending.lookup seq).isSome := by
  rw [AList.lookup_isSome, AList.mem_keys, AList.keys, List.keys, List.map_map]
  exact Iff.rfl

/-- How often a number came. -/
theorem Merged.count (h : Merged arrived nextSeq pending dst written) (seq : Nat) :
    (arrived.map (·.seq)).count seq =
      (if seq < nextSeq then 1 else 0) + if (pending.lookup seq).isSome then 1 else 0 := by
  have hkeys : ((pending.entries.map pendingChunk).map (·.seq)).Nodup := by
    rw [List.map_map]
    exact pending.nodupKeys
  rw [(h.perm.map _).count_eq, List.map_append, List.count_append, h.numbers,
    List.Nodup.count List.nodup_range, hkeys.count]
  simp only [List.mem_range, mem_pending]

theorem Merged.refused (h : Merged arrived nextSeq pending dst written)
    (hnext : pending.lookup nextSeq = none) (seq : Nat) :
    Refused (arrived.map (·.seq)) seq ↔ (pending.lookup seq).isSome := by
  have hmem : ∀ s, s ∈ arrived.map (·.seq) ↔ 0 < (arrived.map (·.seq)).count s := fun s =>
    List.count_pos_iff.symm
  rw [Refused, hmem, h.count]
  constructor
  · rintro (⟨hpos, t, hlt, ht⟩ | hcount)
    · rw [hmem, h.count] at ht
      split at hpos
      · rw [if_pos (by omega)] at ht
        omega
      · split at hpos
        · assumption
        · omega
    · split at hcount
      · split at hcount
        · assumption
        · omega
      · split at hcount
        · assumption
        · omega
  · intro hsome
    rw [if_pos hsome]
    rcases Nat.lt_trichotomy seq nextSeq with hlt | rfl | hgt
    · exact .inr (by rw [if_pos hlt])
    · rw [hnext] at hsome
      cases hsome
    · -- the number that the loop waits for has not come
      refine .inl ⟨by omega, nextSeq, hgt, ?_⟩
      rw [hmem, h.count, hnext]
      simp

/-- The chunk whose turn it is. -/
theorem Merged.write (h : Merged arrived nextSeq pending dst written) (hseq : c.seq = nextSeq) :
    Merged (arrived ++ [c]) (nextSeq + 1) pending (dst ++ c.data) (written ++ [c]) where
  numbers := by simp [h.numbers, hseq, List.range_succ]
  out := by simp [h.out]
  perm := by
    refine (h.perm.append_right [c]).trans ?_
    rw [List.append_assoc, List.append_assoc]
    exact List.perm_append_comm.append_left written

theorem Merged.flush (h : Merged arrived nextSeq pending dst written)
    (hl : pending.lookup nextSeq = some data) :
    Merged arrived (nextSeq + 1) (pending.erase nextSeq) (dst ++ data) (written ++ [⟨nextSeq, data⟩]) where
  numbers := by simp [h.numbers, List.range_succ]
  out := by simp [h.out]
  perm := by
    have := (Map.perm_entries_erase hl).map pendingChunk
    simpa [pendingChunk] using h.perm.trans (this.append_left written)

theorem Merged.keep (h : Merged arrived nextSeq pending dst written)
    (hl : pending.lookup c.seq = none) :
    Merged (arrived ++ [c]) nextSeq (pending.insert c.seq c.data) dst written where
  numbers := h.numbers
  out := h.out
  perm := by
    rw [Map.entries_insert_of_lookup hl, List.map_cons]
    refine ((h.perm.append_right [c]).trans ?_)
    rw [List.append_assoc]
    exact List.perm_append_comm.append_left written

end

/-! ## The receiver -/

/-- The chunks that a goroutine will still send. -/
def Reader.left (chunkSize : Nat) (r : Reader) : List ExternalStripedChunk :=
  if r.running then (frames chunkSize r.src).1 else []

def ReadResult.chunks : ReadResult → List ExternalStripedChunk
  | .chunk c => [c]
  | _ => []

/-- A goroutine will end with an error. -/
def Reader.breaks (chunkSize : Nat) (r : Reader) : Bool :=
  r.running && decide ((frames chunkSize r.src).2 ≠ .eof)

def ReadResult.breaks : ReadResult → Bool
  | .failed _ => true
  | _ => false

/-- The last result of a goroutine. -/
def ReadResult.ends : ReadResult → Bool
  | .chunk _ => false
  | _ => true

/-- More than can come of what a goroutine has to read. -/
def Reader.work (r : Reader) : Nat := if r.running then 3 * (r.src.bytes.length + 1) else 0

/-- No goroutine is cut off and no write fails. -/
def RecvLabel.Undisturbed : RecvLabel → Prop
  | .read _ => True
  | .loop fails => fails = false
  | _ => False

namespace StripedReceiver

/-- The receiver has not failed. -/
structure Going (chunkSize : Nat) (streams : List Stream) (σ : StripedReceiver) : Prop where
  left : (σ.arrived ++ (σ.results.flatMap (·.chunks) ++ σ.readers.flatMap (·.left chunkSize))).Perm
    (streams.flatMap fun src => (frames chunkSize src).1)
  live : σ.liveReaders = σ.readers.countP (·.running) + σ.results.countP (·.ends)
  broken : (σ.readers.any (·.breaks chunkSize) || σ.results.any (·.breaks)) = true ↔
    Broken chunkSize streams
  closing : (∀ r ∈ σ.readers, r.running = false) → ∀ r ∈ σ.results.getLast?, r.ends = true
  merged : ∃ written, Merged σ.arrived σ.nextSeq σ.pending σ.dst written
  single : ¬Doubled (σ.arrived.map (·.seq))
  exit : σ.returned = none ∨
    σ.returned = some (.ok ()) ∧ σ.liveReaders = 0 ∧ σ.pending.entries = []

/-- The receiver has failed, for a reason. -/
def Failed (chunkSize : Nat) (streams : List Stream) (σ : StripedReceiver) : Prop :=
  ∃ e, σ.returned = some (.error e) ∧
    (Broken chunkSize streams ∨ Doubled (σ.arrived.map (·.seq)) ∧
      ∃ more, (σ.arrived ++ more).Perm (streams.flatMap fun src => (frames chunkSize src).1))

section

variable {chunkSize : Nat} {streams : List Stream} {σ τ : StripedReceiver}

theorem Going.init (chunkSize : Nat) (streams : List Stream) : Going chunkSize streams (init streams) where
  left := by
    simp only [StripedReceiver.init, List.flatMap_nil, List.nil_append, List.flatMap_map]
    exact .refl _
  live := by simp [StripedReceiver.init, List.countP_map, Function.comp_def]
  broken := by simp [StripedReceiver.init, Broken, Reader.breaks]
  closing := by simp [StripedReceiver.init]
  merged := ⟨[], by simp [StripedReceiver.init], by simp [StripedReceiver.init],
    by simp [StripedReceiver.init]⟩
  single := by simpa [StripedReceiver.init] using not_doubled_nil
  exit := .inl rfl

theorem Going.read (h : Going chunkSize streams σ) {i : Nat} (hs : σ.read chunkSize i = some τ) :
    Going chunkSize streams τ := by
  rw [StripedReceiver.read] at hs
  split at hs
  · rename_i src hi
    split at hs
    · cases hs
    rename_i hroom
    have hnone : σ.returned = none := by simpa using (not_or.mp hroom).1
    split at hs
    · rename_i chunk rest hread
      cases hs
      obtain ⟨pre, post, hreaders, hset⟩ := exists_set_split hi ⟨rest, true⟩
      have hframes := frames_ok hread
      have hleft := h.left
      have hlive := h.live
      have hbroken := h.broken
      rw [hreaders] at hleft hlive hbroken
      refine ⟨?_, ?_, ?_, ?_, h.merged, h.single, .inl hnone⟩
      · refine List.Perm.trans ?_ hleft
        rw [List.perm_iff_count]
        intro a
        simp only [hset, List.flatMap_append, List.flatMap_cons, List.flatMap_nil, List.append_nil,
          List.count_append, Reader.left, ReadResult.chunks, hframes, if_true, List.count_cons,
          List.count_nil]
        omega
      · rw [hlive]
        simp [hset, ReadResult.ends]
      · rw [← hbroken]
        simp [hset, Reader.breaks, ReadResult.breaks, hframes]
      · intro hnot
        have := hnot ⟨rest, true⟩ (by simp [hset])
        cases this
    · rename_i e rest hread
      cases hs
      obtain ⟨pre, post, hreaders, hset⟩ := exists_set_split hi ⟨rest, false⟩
      have hframes := frames_error hread
      have hleft := h.left
      have hlive := h.live
      have hbroken := h.broken
      rw [hreaders] at hleft hlive hbroken
      refine ⟨?_, ?_, ?_, ?_, h.merged, h.single, .inl hnone⟩
      · refine List.Perm.trans ?_ hleft
        rw [List.perm_iff_count]
        intro a
        have hchunks : (if e = .eof then ReadResult.done else .failed e).chunks = [] := by
          split <;> rfl
        simp [hset, Reader.left, hchunks, hframes]
      · have hends : (if e = .eof then ReadResult.done else .failed e).ends = true := by
          split <;> rfl
        rw [hlive]
        simp [hset, hends]
        omega
      · have hbreaks : (if e = .eof then ReadResult.done else .failed e).breaks = decide (e ≠ .eof) := by
          split <;> simp_all [ReadResult.breaks]
        rw [← hbroken]
        simp only [hset, Reader.breaks, hframes, hbreaks, List.any_append, List.any_cons, List.any_nil,
          Bool.or_false, Bool.true_and, Bool.false_and, Bool.false_or]
        simp only [Bool.or_eq_true]
        tauto
      · intro _ r hr
        simp at hr
        rw [← hr]
        split <;> rfl
  · cases hs

theorem getLast?_tail {α : Type} {a : α} {l : List α} {b : α} (h : b ∈ l.getLast?) :
    b ∈ (a :: l).getLast? := by
  cases l with
  | nil => cases h
  | cons c l => simpa using h

/-- A chunk is taken from the channel. -/
theorem Going.accept (h : Going chunkSize streams σ) (hnone : σ.returned = none)
    (hnext : σ.pending.lookup σ.nextSeq = none) {c : ExternalStripedChunk} {results : List ReadResult}
    (hres : σ.results = .chunk c :: results) :
    Going chunkSize streams ({ σ with results := results, arrived := σ.arrived ++ [c] }.accept false c) ∨
      Failed chunkSize streams
        ({ σ with results := results, arrived := σ.arrived ++ [c] }.accept false c) := by
  obtain ⟨written, hmerged⟩ := h.merged
  have hleft := h.left
  have hlive := h.live
  have hbroken := h.broken
  have hclosing := h.closing
  have hsingle := h.single
  rw [hres] at hleft hlive hbroken hclosing
  have hrefused := hmerged.refused hnext c.seq
  have hdoubled : Doubled ((σ.arrived ++ [c]).map (·.seq)) ↔ (σ.pending.lookup c.seq).isSome := by
    rw [List.map_append, List.map_singleton, doubled_append_singleton, ← hrefused]
    exact ⟨fun hd => hd.resolve_left hsingle, .inr⟩
  -- the channel loses a chunk, and the loop has it
  have hleft' : (σ.arrived ++ [c] ++ (results.flatMap (·.chunks) ++
      σ.readers.flatMap (·.left chunkSize))).Perm (streams.flatMap fun src => (frames chunkSize src).1) := by
    simpa [ReadResult.chunks] using hleft
  have hlive' : σ.liveReaders = σ.readers.countP (·.running) + results.countP (·.ends) := by
    simpa [ReadResult.ends] using hlive
  have hbroken' : (σ.readers.any (·.breaks chunkSize) || results.any (·.breaks)) = true ↔
      Broken chunkSize streams := by
    simpa [ReadResult.breaks] using hbroken
  have hclosing' : (∀ r ∈ σ.readers, r.running = false) → ∀ r ∈ results.getLast?, r.ends = true :=
    fun hnot r hr => hclosing hnot r (getLast?_tail hr)
  rw [StripedReceiver.accept]
  dsimp only
  split
  · rename_i hseq
    have hnot : ¬Doubled ((σ.arrived ++ [c]).map (·.seq)) := by
      rw [hdoubled, hseq, hnext]
      simp
    exact .inl ⟨hleft', hlive', hbroken', hclosing', ⟨_, hmerged.write hseq⟩, hnot, .inl hnone⟩
  split
  · rename_i hsome
    exact .inr ⟨_, rfl, .inr ⟨hdoubled.mpr hsome, _, hleft'⟩⟩
  · rename_i hnot
    have hl : σ.pending.lookup c.seq = none := by simpa using hnot
    exact .inl ⟨hleft', hlive', hbroken', hclosing', ⟨_, hmerged.keep hl⟩, by rw [hdoubled]; exact hnot,
      .inl hnone⟩

theorem Going.loop (h : Going chunkSize streams σ) (hs : σ.loop false = some τ) :
    Going chunkSize streams τ ∨ Failed chunkSize streams τ := by
  rw [StripedReceiver.loop] at hs
  split at hs
  · cases hs
  rename_i hreturned
  have hnone : σ.returned = none := by simpa using hreturned
  split at hs
  · rename_i hexit
    cases hs
    exact .inl ⟨h.left, h.live, h.broken, h.closing, h.merged, h.single, .inr ⟨rfl, hexit⟩⟩
  split at hs
  · rename_i data hl
    cases hs
    obtain ⟨written, hmerged⟩ := h.merged
    exact .inl ⟨h.left, h.live, h.broken, h.closing, ⟨_, hmerged.flush hl⟩, h.single, .inl hnone⟩
  rename_i hnext
  have hleft := h.left
  have hlive := h.live
  have hbroken := h.broken
  have hclosing := h.closing
  split at hs
  · rename_i results hres
    cases hs
    rw [hres] at hleft hlive hbroken hclosing
    refine .inl ⟨by simpa [ReadResult.chunks] using hleft, ?_, by simpa [ReadResult.breaks] using hbroken,
      fun hnot r hr => hclosing hnot r (getLast?_tail hr), h.merged, h.single, .inl hnone⟩
    rw [hlive]
    simp [ReadResult.ends]
  · rename_i e results hres
    cases hs
    refine .inr ⟨_, rfl, .inl (hbroken.mp ?_)⟩
    simp [hres, ReadResult.breaks]
  · rename_i c results hres
    cases hs
    exact h.accept hnone hnext hres
  · rename_i hres
    split at hs
    · cases hs
    · rename_i hidle
      have hidle' : σ.readers.countP (·.running) = 0 := by simpa [List.countP_eq_zero] using hidle
      rw [hres, hidle'] at hlive
      split at hs
      · simp at hlive
        omega
      · cases hs
        exact .inl h

/-- Every undisturbed step. -/
theorem Going.step (h : Going chunkSize streams σ ∨ Failed chunkSize streams σ) {l : RecvLabel}
    (hl : l.Undisturbed) (hs : σ.step chunkSize l = some τ) :
    Going chunkSize streams τ ∨ Failed chunkSize streams τ := by
  rcases h with h | ⟨e, hreturned, hreason⟩
  · cases l with
    | read i => exact .inl (h.read hs)
    | loop fails =>
        cases hl
        exact h.loop hs
    | cancel => cases hl
    | stop i => cases hl
    | ctxDone => cases hl
  · -- nothing happens any more
    cases l with
    | read i =>
        simp only [StripedReceiver.step, StripedReceiver.read, hreturned] at hs
        split at hs
        · simp at hs
        · cases hs
    | loop fails =>
        simp [StripedReceiver.step, StripedReceiver.loop, hreturned] at hs
    | cancel => cases hl
    | stop i => cases hl
    | ctxDone => cases hl

/-- Where the loop goes round: everything came, and something is left over. -/
theorem Spins.left_over (h : σ.Spins) : σ.returned = none ∧ σ.pending.lookup σ.nextSeq = none ∧
    σ.liveReaders = 0 ∧ σ.pending.entries ≠ [] := by
  rw [Spins, StripedReceiver.loop] at h
  split at h
  · cases h
  rename_i hreturned
  have hnone : σ.returned = none := by simpa using hreturned
  split at h
  · have := congrArg StripedReceiver.returned (Option.some.inj h)
    rw [hnone] at this
    cases this
  rename_i hgoes
  split at h
  · have := congrArg StripedReceiver.nextSeq (Option.some.inj h)
    simp [StripedReceiver.write] at this
  rename_i hnext
  split at h
  · rename_i results hres
    have := congrArg (·.results.length) (Option.some.inj h)
    simp [hres] at this
  · rename_i e results hres
    have := congrArg (·.results.length) (Option.some.inj h)
    simp [hres, StripedReceiver.fail] at this
  · rename_i c results hres
    have := congrArg (·.results.length) (Option.some.inj h)
    simp only [StripedReceiver.accept, StripedReceiver.write, StripedReceiver.fail] at this
    split at this
    · simp [hres] at this
    · split at this <;> simp [hres] at this
  · split at h
    · cases h
    · split at h
      · have := congrArg StripedReceiver.returned (Option.some.inj h)
        rw [hnone] at this
        cases this
      · rename_i hlive
        have hzero : σ.liveReaders = 0 := by omega
        exact ⟨hnone, hnext, hzero, fun hempty => hgoes ⟨hzero, hempty⟩⟩

theorem spins_of_left_over (hnone : σ.returned = none) (hnext : σ.pending.lookup σ.nextSeq = none)
    (hlive : σ.liveReaders = 0) (hleft : σ.pending.entries ≠ []) (hres : σ.results = [])
    (hidle : σ.readers.any (·.running) = false) : σ.Spins := by
  rw [Spins, StripedReceiver.loop, if_neg (by simp [hnone]), if_neg fun h => hleft h.2, hnext, hres]
  dsimp only
  rw [hidle, if_neg Bool.false_ne_true, if_neg (by omega)]

/-- Once all readers are done, all chunks have come. -/
theorem Going.all_came (h : Going chunkSize streams σ) (hlive : σ.liveReaders = 0) :
    ¬Broken chunkSize streams ∧
      σ.arrived.Perm (streams.flatMap fun src => (frames chunkSize src).1) := by
  have hzero := h.live
  rw [hlive] at hzero
  have hidle : ∀ r ∈ σ.readers, r.running = false := by
    have : σ.readers.countP (·.running) = 0 := by omega
    simpa [List.countP_eq_zero] using this
  have hends : ∀ r ∈ σ.results, r.ends = false := by
    have : σ.results.countP (·.ends) = 0 := by omega
    simpa [List.countP_eq_zero] using this
  have hempty : σ.results = [] := by
    cases hlast : σ.results.getLast? with
    | none => exact List.getLast?_eq_none_iff.mp hlast
    | some r =>
        have htrue := h.closing hidle r hlast
        rw [hends r (List.mem_of_getLast? hlast)] at htrue
        cases htrue
  have hleft : σ.readers.flatMap (·.left chunkSize) = [] := by
    rw [List.flatMap_eq_nil_iff]
    intro r hr
    simp [Reader.left, hidle r hr]
  refine ⟨fun hbroken => ?_, ?_⟩
  · have := h.broken.mpr hbroken
    simp only [hempty, List.any_nil, Bool.or_false, List.any_eq_true, Reader.breaks,
      Bool.and_eq_true] at this
    obtain ⟨r, hr, hrun, -⟩ := this
    rw [hidle r hr] at hrun
    cases hrun
  · simpa [hempty, hleft] using h.left

/-- Complete connections with the right numbers are delivered. -/
theorem Going.delivers (h : Going chunkSize streams σ ∨ Failed chunkSize streams σ) (hended : σ.Ended)
    {dst : List UInt8} (hd : Delivers chunkSize streams dst) :
    σ.returned = some (.ok ()) ∧ σ.dst = dst := by
  obtain ⟨fs, cs, hframed, hperm, hnumbers, rfl⟩ := hd
  obtain ⟨hflat, hsound⟩ := frames_of_framed hframed
  rw [← hflat] at hperm
  rcases h with h | ⟨e, -, hbroken | ⟨hdoubled, more, hmore⟩⟩
  · obtain ⟨written, hmerged⟩ := h.merged
    rcases hended with hreturned | hspins
    · rcases h.exit with hnone | ⟨hok, hlive, hempty⟩
      · rw [hnone] at hreturned
        cases hreturned
      · have hcame := (h.all_came hlive).2
        have hwritten := hmerged.perm
        rw [hempty, List.map_nil, List.append_nil] at hwritten
        have heq := eq_of_perm_of_range (hwritten.symm.trans (hcame.trans hperm.symm)) hmerged.numbers
          hnumbers
        exact ⟨hok, by rw [hmerged.out, heq]⟩
    · -- the number that is waited for is among those that came
      obtain ⟨-, hnext, hlive, hleft⟩ := hspins.left_over
      have hcame := (h.all_came hlive).2.trans hperm.symm
      have hcount := hmerged.count σ.nextSeq
      rw [(hcame.map _).count_eq, hnumbers, hnext, List.nodup_range.count] at hcount
      have hlength := hmerged.perm.length_eq
      have hwritten := congrArg List.length hmerged.numbers
      rw [hcame.length_eq, List.length_append] at hlength
      simp only [List.length_map, List.length_range, List.mem_range] at hlength hwritten hcount
      have hpos := List.length_pos_of_ne_nil hleft
      simp only [Nat.lt_irrefl, if_false, Option.isSome_none, Bool.false_eq_true] at hcount
      split at hcount
      · cases hcount
      · omega
  · exact absurd hbroken hsound
  · have hnodup : ((σ.arrived ++ more).map (·.seq)).Nodup := by
      rw [((hmore.trans hperm.symm).map _).nodup_iff, hnumbers]
      exact List.nodup_range
    rw [List.map_append] at hnodup
    exact absurd hdoubled (not_doubled_of_nodup (List.nodup_append.mp hnodup).1)

/-- A run that has ended did what it should for complete connections, for broken ones, and
if a number was refused. -/
theorem Going.meets_iff (h : Going chunkSize streams σ ∨ Failed chunkSize streams σ) (hended : σ.Ended) :
    ((σ.returned = some (.ok ()) → Delivers chunkSize streams σ.dst) ∧
      ((¬∃ dst, Delivers chunkSize streams dst) → ∃ e, σ.returned = some (.error e))) ↔
    (∃ dst, Delivers chunkSize streams dst) ∨ Broken chunkSize streams ∨
      Doubled (σ.arrived.map (·.seq)) := by
  constructor
  · rintro ⟨-, hill⟩
    rcases Classical.em (∃ dst, Delivers chunkSize streams dst) with hd | hd
    · exact .inl hd
    · obtain ⟨e, he⟩ := hill hd
      rcases h with h | ⟨_, -, hbroken | hdoubled⟩
      · rcases h.exit with hnone | ⟨hok, -⟩
        · rw [hnone] at he
          cases he
        · rw [hok] at he
          cases he
      · exact .inr (.inl hbroken)
      · exact .inr (.inr hdoubled.1)
  · rintro (⟨dst, hd⟩ | hbad)
    · obtain ⟨hok, hdst⟩ := Going.delivers h hended hd
      exact ⟨fun _ => hdst ▸ hd, fun hnot => absurd ⟨dst, hd⟩ hnot⟩
    · have hfailed : ∃ e, σ.returned = some (.error e) := by
        rcases h with h | ⟨e, he, -⟩
        · have hnot : σ.liveReaders ≠ 0 := by
            intro hlive
            rcases hbad with hbroken | hdoubled
            · exact (h.all_came hlive).1 hbroken
            · exact h.single hdoubled
          rcases hended with hreturned | hspins
          · rcases h.exit with hnone | ⟨-, hlive, -⟩
            · rw [hnone] at hreturned
              cases hreturned
            · exact absurd hlive hnot
          · exact absurd hspins.left_over.2.2.1 hnot
        · exact ⟨e, he⟩
      obtain ⟨e, he⟩ := hfailed
      exact ⟨fun hok => (by rw [he] at hok; cases hok), fun _ => ⟨e, he⟩⟩

/-! ## It ends -/

/-- What is still to do: every frame is read, sent and written. -/
def work (σ : StripedReceiver) : Nat :=
  (σ.readers.map (·.work)).sum + 2 * σ.results.length + σ.pending.entries.length +
    if σ.returned = none then 1 else 0

theorem work_read {i : Nat} (hs : σ.read chunkSize i = some τ) : τ.work < σ.work := by
  rw [StripedReceiver.read] at hs
  split at hs
  · rename_i src hi
    split at hs
    · cases hs
    split at hs
    · rename_i chunk rest hread
      cases hs
      obtain ⟨pre, post, hreaders, hset⟩ := exists_set_split hi ⟨rest, true⟩
      have hlength := readExternalStripedChunk_length hread
      rw [work, work, hset]
      simp only [hreaders, List.map_append, List.map_cons, List.sum_append, List.sum_cons,
        List.length_append, List.length_singleton, Reader.work, if_true]
      omega
    · rename_i e rest hread
      cases hs
      obtain ⟨pre, post, hreaders, hset⟩ := exists_set_split hi ⟨rest, false⟩
      rw [work, work, hset]
      simp only [hreaders, List.map_append, List.map_cons, List.sum_append, List.sum_cons,
        List.length_append, List.length_singleton, Reader.work, if_true, if_false, Bool.false_eq_true]
      omega
  · cases hs

theorem work_loop (hs : σ.loop false = some τ) (hspins : ¬σ.Spins) : τ.work < σ.work := by
  have hloop := hs
  rw [StripedReceiver.loop] at hs
  split at hs
  · cases hs
  rename_i hreturned
  have hnone : σ.returned = none := by simpa using hreturned
  split at hs
  · cases hs
    simp [work, hnone]
  split at hs
  · rename_i data hl
    cases hs
    have := Map.length_erase_lt hl
    simp only [work, StripedReceiver.write, hnone, Bool.false_eq_true, if_false]
    omega
  split at hs
  · rename_i results hres
    cases hs
    simp [work, hres]
  · rename_i e results hres
    cases hs
    simp only [work, hres, StripedReceiver.fail, hnone, List.length_cons, reduceCtorEq, if_true, if_false]
    omega
  · rename_i c results hres
    cases hs
    simp only [StripedReceiver.accept, StripedReceiver.write, StripedReceiver.fail]
    split
    · simp [work, hres]
    · split
      · simp only [work, hres, hnone, List.length_cons, reduceCtorEq, if_true, if_false]
        omega
      · rename_i hnot
        have hl : σ.pending.lookup c.seq = none := by simpa using hnot
        simp only [work, hres, hnone, Map.entries_insert_of_lookup hl, List.length_cons]
        omega
  · split at hs
    · cases hs
    · split at hs
      · cases hs
        simp [work, StripedReceiver.fail, hnone]
      · cases hs
        exact absurd hloop hspins

/-- A run that has not ended can go on, and every step brings it nearer to its end. -/
theorem goes_on (chunkSize : Nat) (hnot : ¬σ.Ended) : (∃ l τ, l.Undisturbed ∧ σ.step chunkSize l = some τ) ∧
      ∀ l τ, l.Undisturbed → σ.step chunkSize l = some τ → τ.work < σ.work := by
  obtain ⟨hreturned, hspins⟩ := not_or.mp hnot
  have hnone : σ.returned = none := by simpa using hreturned
  refine ⟨?_, fun l τ hl hs => ?_⟩
  · cases hloop : σ.loop false with
    | some τ => exact ⟨.loop false, τ, rfl, hloop⟩
    | none =>
        -- the loop waits for a reader, so one is running and there is room for its result
        rw [StripedReceiver.loop, if_neg (by simp [hnone])] at hloop
        split at hloop
        · cases hloop
        split at hloop
        · cases hloop
        split at hloop
        · cases hloop
        · cases hloop
        · cases hloop
        · rename_i hres
          split at hloop
          · rename_i hany
            obtain ⟨r, hr, hrun⟩ := List.any_eq_true.mp hany
            obtain ⟨i, hlt, hget⟩ := List.getElem_of_mem hr
            have hi : σ.readers[i]? = some ⟨r.src, true⟩ := by
              rw [List.getElem?_eq_getElem hlt, hget, ← hrun]
            have hroom : ¬(σ.returned.isSome = true ∨ σ.readers.length * 2 ≤ σ.results.length) := by
              have := List.length_pos_of_mem hr
              rw [hnone, hres]
              simp only [Option.isSome_none, Bool.false_eq_true, List.length_nil, false_or]
              omega
            have hread : ∃ τ, σ.read chunkSize i = some τ := by
              rw [StripedReceiver.read, hi]
              dsimp only
              rw [if_neg hroom]
              split
              · exact ⟨_, rfl⟩
              · exact ⟨_, rfl⟩
            obtain ⟨τ, hτ⟩ := hread
            exact ⟨.read i, τ, trivial, hτ⟩
          · split at hloop
            · cases hloop
            · cases hloop
  · cases l with
    | read i => exact work_read hs
    | loop fails =>
        cases hl
        exact work_loop hs hspins
    | cancel => cases hl
    | stop i => cases hl
    | ctxDone => cases hl

end

end StripedReceiver

/-! ## The sender -/

/-- The bytes of frames. -/
def writeFrames (chunks : List ExternalStripedChunk) : List UInt8 :=
  (chunks.map writeExternalStripedChunk).flatten

namespace StripedSender

/-- The source is cut into `cs`, and every chunk of it waits or is on a connection. -/
structure Cutting (chunkSize : Nat) (source : List UInt8) (σ : StripedSender)
    (fs : List (List ExternalStripedChunk)) (cs : List ExternalStripedChunk) : Prop where
  conns : σ.conns = fs.map writeFrames
  perm : cs.Perm (fs.flatten ++ σ.jobs)
  numbers : cs.map (·.seq) = List.range σ.seq
  data : (cs.map (·.data)).flatten ++ σ.remaining = source
  size : ∀ c ∈ cs, c.data ≠ [] ∧ c.data.length ≤ chunkSize
  closed : σ.closed = true → σ.remaining = []

variable {chunkSize : Nat} {source : List UInt8} {σ τ : StripedSender}
  {fs : List (List ExternalStripedChunk)} {cs : List ExternalStripedChunk}

theorem Cutting.init (chunkSize : Nat) (source : List UInt8) (writers : Nat) :
    Cutting chunkSize source (init source writers) (List.replicate writers []) [] where
  conns := by simp [StripedSender.init, writeFrames]
  perm := by simp [StripedSender.init]
  numbers := by simp [StripedSender.init]
  data := by simp [StripedSender.init]
  size := by simp
  closed := by simp [StripedSender.init]

theorem Cutting.read (h : Cutting chunkSize source σ fs cs) (hpos : 0 < chunkSize)
    (hs : σ.read chunkSize = some τ) : ∃ cs', Cutting chunkSize source τ fs cs' := by
  rw [StripedSender.read] at hs
  split at hs
  · cases hs
  split at hs
  · rename_i hempty
    cases hs
    refine ⟨cs, h.conns, h.perm, h.numbers, h.data, h.size, fun _ => ?_⟩
    exact (List.take_eq_nil_iff.mp hempty).resolve_left (by omega)
  split at hs
  · rename_i hbuf _
    cases hs
    refine ⟨cs ++ [⟨σ.seq, σ.remaining.take chunkSize⟩], h.conns, ?_, ?_, ?_, fun c hc => ?_, fun hc => ?_⟩
    · rw [← List.append_assoc]
      exact h.perm.append_right _
    · simp [h.numbers, List.range_succ]
    · rw [List.map_append, List.flatten_append, List.append_assoc]
      simpa using h.data
    · rcases List.mem_append.mp hc with hc | hc
      · exact h.size c hc
      · rw [List.mem_singleton.mp hc]
        exact ⟨hbuf, List.length_take_le _ _⟩
    · have hshort : (σ.remaining.take chunkSize).length < chunkSize := of_decide_eq_true hc
      rw [List.length_take] at hshort
      exact List.drop_eq_nil_of_le (by omega)
  · cases hs

theorem Cutting.write (h : Cutting chunkSize source σ fs cs) {i : Nat} (hs : σ.write i = some τ) :
    ∃ fs', Cutting chunkSize source τ fs' cs := by
  rw [StripedSender.write] at hs
  split at hs
  · rename_i chunk jobs conn hjobs hi
    cases hs
    rw [h.conns, List.getElem?_map, Option.map_eq_some_iff] at hi
    obtain ⟨f, hf, rfl⟩ := hi
    obtain ⟨pre, post, hfs, hset⟩ := exists_set_split hf (f ++ [chunk])
    refine ⟨fs.set i (f ++ [chunk]), ?_, ?_, h.numbers, h.data, h.size, h.closed⟩
    · rw [h.conns, List.map_set]
      simp [writeFrames]
    · refine h.perm.trans ?_
      rw [hset, hjobs, hfs, List.perm_iff_count]
      intro a
      simp only [List.flatten_append, List.flatten_cons, List.count_append, List.count_cons,
        List.count_nil]
      omega
  · cases hs

theorem Cutting.step (hpos : 0 < chunkSize) {l : SendLabel}
    (h : ∃ fs cs, Cutting chunkSize source σ fs cs) (hs : σ.step chunkSize l = some τ) :
    ∃ fs cs, Cutting chunkSize source τ fs cs := by
  obtain ⟨fs, cs, h⟩ := h
  cases l with
  | read =>
      obtain ⟨cs', h'⟩ := h.read hpos hs
      exact ⟨fs, cs', h'⟩
  | write i =>
      obtain ⟨fs', h'⟩ := h.write hs
      exact ⟨fs', cs, h'⟩

/-- A chunk takes at least a byte of the source, and at most all of it. -/
theorem Cutting.fits (h : Cutting chunkSize source σ fs cs) (hsource : source.length < 2 ^ 64)
    (hchunk : min chunkSize source.length < 2 ^ 32) {c : ExternalStripedChunk} (hc : c ∈ cs) :
    c.seq < 2 ^ 64 ∧ c.data.length ≤ chunkSize ∧ c.data.length < 2 ^ 32 := by
  have hlength : ∀ ds : List ExternalStripedChunk, (∀ d ∈ ds, d.data ≠ []) →
      ds.length ≤ (ds.map (·.data)).flatten.length := by
    intro ds hds
    induction ds with
    | nil => exact Nat.zero_le _
    | cons d ds ih =>
        have hd := List.length_pos_of_ne_nil (hds d List.mem_cons_self)
        have := ih fun e he => hds e (List.mem_cons_of_mem d he)
        simp only [List.map_cons, List.flatten_cons, List.length_append, List.length_cons]
        omega
  have htotal := congrArg List.length h.data
  rw [List.length_append] at htotal
  have hcount := hlength cs fun d hd => (h.size d hd).1
  have hseq : c.seq < cs.length := by
    have hmem : c.seq ∈ cs.map (·.seq) := List.mem_map_of_mem hc
    have hnumbers := congrArg List.length h.numbers
    rw [h.numbers, List.mem_range] at hmem
    rw [List.length_map, List.length_range] at hnumbers
    omega
  have hdata : c.data.length ≤ (cs.map (·.data)).flatten.length :=
    (List.sublist_flatten_of_mem (List.mem_map_of_mem hc)).length_le
  have hsize := (h.size c hc).2
  exact ⟨by omega, hsize, by omega⟩

/-- What is sent is the source. -/
theorem Cutting.delivers (h : Cutting chunkSize source σ fs cs) (hsource : source.length < 2 ^ 64)
    (hchunk : min chunkSize source.length < 2 ^ 32) (hsent : σ.Sent) :
    Delivers chunkSize σ.streams source := by
  obtain ⟨hclosed, hjobs⟩ := hsent
  have hperm := h.perm
  rw [hjobs, List.append_nil] at hperm
  refine ⟨fs, cs, ?_, hperm, ?_, ?_⟩
  · have hfits : ∀ f ∈ fs, ∀ c ∈ f, c.seq < 2 ^ 64 ∧ c.data.length ≤ chunkSize ∧ c.data.length < 2 ^ 32 :=
      fun f hf c hc => h.fits hsource hchunk (hperm.mem_iff.mpr (List.mem_flatten.mpr ⟨f, hf, hc⟩))
    rw [streams, h.conns, List.map_map]
    clear hperm h
    induction fs with
    | nil => exact .nil
    | cons f fs ih =>
        have hf := hfits f List.mem_cons_self
        exact .cons ⟨rfl, rfl, fun c hc => (hf c hc).1, fun c hc => (hf c hc).2⟩
          (ih fun g hg => hfits g (List.mem_cons_of_mem f hg))
  · have hnumbers := congrArg List.length h.numbers
    rw [List.length_map, List.length_range] at hnumbers
    rw [h.numbers, hnumbers]
  · have hdata := h.data
    rw [h.closed hclosed, List.append_nil] at hdata
    exact hdata.symm

end StripedSender

/-! ## The copy -/

/-- A copy without failures delivers the source.  Whatever the connections hold, an undisturbed
run of the receiver comes to an end, returning or going round for ever; and it returns
without an error only for complete frames numbered `0, 1, 2, ...`, and with an error for
everything else, exactly if the frames are such, or a connection is broken, or a number was
refused. -/
theorem striped_copy_meets_iff (chunkSize : Nat) (hpos : 0 < chunkSize) :
    (∀ (source : List UInt8) (writers : Nat) (ks : List SendLabel) (ρ : StripedSender), 0 < writers →
      source.length < 2 ^ 64 → min chunkSize source.length < 2 ^ 32 →
      runFrom (StripedSender.step chunkSize) (StripedSender.init source writers) ks = some ρ → ρ.Sent →
        ∀ (ls : List RecvLabel) (σ : StripedReceiver), (∀ l ∈ ls, l.Undisturbed) →
          runFrom (StripedReceiver.step chunkSize) (StripedReceiver.init ρ.streams) ls = some σ → σ.Ended →
            σ.returned = some (.ok ()) ∧ σ.dst = source) ∧
    ∀ (streams : List Stream) (ls : List RecvLabel) (σ : StripedReceiver), streams ≠ [] →
      (∀ l ∈ ls, l.Undisturbed) →
      runFrom (StripedReceiver.step chunkSize) (StripedReceiver.init streams) ls = some σ →
        (¬σ.Ended → (∃ l τ, l.Undisturbed ∧ σ.step chunkSize l = some τ) ∧
          ∀ l τ, l.Undisturbed → σ.step chunkSize l = some τ → τ.work < σ.work) ∧
        (σ.Ended →
          ((σ.returned = some (.ok ()) → Delivers chunkSize streams σ.dst) ∧
            ((¬∃ dst, Delivers chunkSize streams dst) → ∃ e, σ.returned = some (.error e)) ↔
          (∃ dst, Delivers chunkSize streams dst) ∨ Broken chunkSize streams ∨
            Doubled (σ.arrived.map (·.seq)))) := by
  have hrun : ∀ {streams : List Stream} {ls : List RecvLabel} {σ : StripedReceiver},
      (∀ l ∈ ls, l.Undisturbed) →
      runFrom (StripedReceiver.step chunkSize) (StripedReceiver.init streams) ls = some σ →
        σ.Going chunkSize streams ∨ σ.Failed chunkSize streams := fun hls hr =>
    runFrom_invariant_of_mem (fun _ _ _ h hl hs => StripedReceiver.Going.step h hl hs) _
      (.inl (StripedReceiver.Going.init _ _)) hls hr
  refine ⟨fun source writers ks ρ _ hsource hchunk hsend hsent ls σ hls hr hended => ?_,
    fun streams ls σ _ hls hr => ⟨StripedReceiver.goes_on chunkSize, StripedReceiver.Going.meets_iff (hrun hls hr)⟩⟩
  obtain ⟨fs, cs, hcut⟩ := runFrom_invariant (fun _ _ _ => StripedSender.Cutting.step hpos) ks
    ⟨_, _, StripedSender.Cutting.init chunkSize source writers⟩ hsend
  exact StripedReceiver.Going.delivers (hrun hls hr) hended (hcut.delivers hsource hchunk hsent)

/-- Three bytes over two connections, the second chunk before the first. -/
theorem striped_copy_meets_iff_two_connections :
    (∃ ρ σ, runFrom (StripedSender.step 2) (StripedSender.init [1, 2, 3] 2)
        [.read, .read, .write 1, .write 0] = some ρ ∧ ρ.Sent ∧
      runFrom (StripedReceiver.step 2) (StripedReceiver.init ρ.streams)
        [.read 0, .loop false, .read 1, .loop false, .loop false, .read 0, .read 1, .loop false, .loop false,
          .loop false] = some σ ∧ σ.returned = some (.ok ()) ∧ σ.dst = [1, 2, 3]) ∧
    ∃ σ, runFrom (StripedReceiver.step 2) (StripedReceiver.init [⟨[0, 0, 0], false⟩])
        [.read 0, .loop false] = some σ ∧ σ.Ended ∧
      ((¬∃ dst, Delivers 2 [⟨[0, 0, 0], false⟩] dst) → ∃ e, σ.returned = some (.error e)) := by
  obtain ⟨hcopy, hmeets⟩ := striped_copy_meets_iff 2 (by decide)
  refine ⟨?_, ?_⟩
  · have hsend : (runFrom (StripedSender.step 2) (StripedSender.init [1, 2, 3] 2)
        [.read, .read, .write 1, .write 0]).any (fun ρ => decide ρ.Sent &&
          (runFrom (StripedReceiver.step 2) (StripedReceiver.init ρ.streams)
            [.read 0, .loop false, .read 1, .loop false, .loop false, .read 0, .read 1, .loop false,
              .loop false, .loop false]).any (·.returned.isSome)) = true := by decide +kernel
    obtain ⟨ρ, hρ, h⟩ := (Option.any_eq_true ..).mp hsend
    rw [Bool.and_eq_true] at h
    obtain ⟨σ, hσ, hended⟩ := (Option.any_eq_true ..).mp h.2
    have hsent : ρ.Sent := of_decide_eq_true h.1
    have hdone := hcopy [1, 2, 3] 2 _ ρ (by decide) (by decide) (by decide) hρ hsent _ σ
      (by simp [RecvLabel.Undisturbed]) hσ (.inl hended)
    exact ⟨ρ, σ, hρ, hsent, hσ, hdone⟩
  · have hrun : (runFrom (StripedReceiver.step 2) (StripedReceiver.init [⟨[0, 0, 0], false⟩])
        [.read 0, .loop false]).any (·.returned.isSome) = true := by decide +kernel
    obtain ⟨σ, hσ, hended⟩ := (Option.any_eq_true ..).mp hrun
    have hbroken : Broken 2 [⟨[0, 0, 0], false⟩] := ⟨_, List.mem_singleton_self _, by decide⟩
    exact ⟨σ, hσ, .inl hended, (((hmeets _ _ σ (by simp) (by simp [RecvLabel.Undisturbed]) hσ).2
      (.inl hended)).mpr (.inr (.inl hbroken))).2⟩

/-- One frame, with number 1. -/
def gapStreams : List Stream := [⟨writeExternalStripedChunk ⟨1, [7]⟩, false⟩]

/-- Two frames with number 0. -/
def repeatStreams : List Stream :=
  [⟨writeExternalStripedChunk ⟨0, [7]⟩ ++ writeExternalStripedChunk ⟨0, [8]⟩, false⟩]

/-- The header of a frame of five bytes. -/
def cutStreams : List Stream := [⟨bigEndian 8 0 ++ bigEndian 4 5, false⟩]

/-- What is delivered has the numbers of the frames that the readers find. -/
theorem Delivers.numbers {chunkSize : Nat} {streams : List Stream} {dst : List UInt8}
    (h : Delivers chunkSize streams dst) :
    ((streams.flatMap fun src => (frames chunkSize src).1).map (·.seq)).Perm
      (List.range (streams.flatMap fun src => (frames chunkSize src).1).length) := by
  obtain ⟨fs, cs, hframed, hperm, hnumbers, -⟩ := h
  rw [(frames_of_framed hframed).1, ← hperm.length_eq, ← hnumbers]
  exact (hperm.map _).symm

/-- A gap and a late repetition make the loop go round for ever, and a frame that is cut
after its header is taken for the end. -/
theorem striped_copy_misses :
    ((¬∃ dst, Delivers 8 gapStreams dst) ∧
      ∃ σ, runFrom (StripedReceiver.step 8) (StripedReceiver.init gapStreams)
        [.read 0, .loop false, .read 0, .loop false] = some σ ∧ σ.Spins) ∧
    ((¬∃ dst, Delivers 8 repeatStreams dst) ∧
      ∃ σ, runFrom (StripedReceiver.step 8) (StripedReceiver.init repeatStreams)
        [.read 0, .loop false, .read 0, .loop false, .read 0, .loop false] = some σ ∧ σ.Spins) ∧
    (¬∃ dst, Delivers 8 cutStreams dst) ∧
      ∃ σ, runFrom (StripedReceiver.step 8) (StripedReceiver.init cutStreams)
        [.read 0, .loop false, .loop false] = some σ ∧ σ.returned = some (.ok ()) := by
  have hgap : ¬∃ dst, Delivers 8 gapStreams dst := by
    rintro ⟨dst, h⟩
    have hnumbers := h.numbers
    revert hnumbers
    decide
  have hrepeat : ¬∃ dst, Delivers 8 repeatStreams dst := by
    rintro ⟨dst, h⟩
    have hnumbers := h.numbers
    revert hnumbers
    decide
  have hcut : ¬∃ dst, Delivers 8 cutStreams dst := by
    rintro ⟨dst, fs, cs, hframed, -⟩
    cases hframed with
    | cons hframed hnil =>
        cases hnil
        have hbytes := hframed.bytes
        have hframes := hframed.frames
        rw [show frames 8 (⟨bigEndian 8 0 ++ bigEndian 4 5, false⟩ : Stream) = ([], .eof) by decide] at hframes
        cases hframes
        revert hbytes
        decide
  have hspins : ∀ {streams : List Stream} {ls : List RecvLabel},
      (runFrom (StripedReceiver.step 8) (StripedReceiver.init streams) ls).any (fun σ =>
        decide (σ.returned.isNone = true ∧ σ.pending.lookup σ.nextSeq = none ∧ σ.liveReaders = 0 ∧
          σ.pending.entries.length ≠ 0 ∧ σ.results = [] ∧ σ.readers.any (·.running) = false)) = true →
      ∃ σ, runFrom (StripedReceiver.step 8) (StripedReceiver.init streams) ls = some σ ∧ σ.Spins := by
    intro streams ls h
    obtain ⟨σ, hσ, h⟩ := (Option.any_eq_true ..).mp h
    obtain ⟨hnone, hnext, hlive, hleft, hres, hidle⟩ := of_decide_eq_true h
    exact ⟨σ, hσ, StripedReceiver.spins_of_left_over (Option.isNone_iff_eq_none.mp hnone) hnext hlive
      (fun hnil => hleft (by rw [hnil]; rfl)) hres hidle⟩
  have hok : (runFrom (StripedReceiver.step 8) (StripedReceiver.init cutStreams)
      [.read 0, .loop false, .loop false]).any (fun σ => σ.returned.any (·.isOk)) = true := by
    decide +kernel
  refine ⟨⟨hgap, hspins (by decide +kernel)⟩, ⟨hrepeat, hspins (by decide +kernel)⟩, hcut, ?_⟩
  obtain ⟨σ, hσ, h⟩ := (Option.any_eq_true ..).mp hok
  obtain ⟨r, hr, hisOk⟩ := (Option.any_eq_true ..).mp h
  cases r with
  | ok _ => exact ⟨σ, hσ, hr⟩
  | error e => cases hisOk

end Session
