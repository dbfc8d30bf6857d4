import Derphole.Lib.File
import Derphole.Lib.Run

/-!
# The handoff spool

`externalHandoffSpool` of `pkg/session/external_handoff.go`: `pumpSource` copies the source into a
file, `NextChunk` reads the file from an offset of its own, `AckTo` and `RewindTo` move the
acknowledged watermark and that offset, and `externalHandoffSpoolReader` reads through `NextChunk`.

A label is what one of them does between two points where it gives up the lock.  `NextChunk` computes
how much it may take, and may then wait; whoever waits is listed with that amount.  The step relation
is given the source `S`, from which `pumpSource` reads whatever part it is given.  Reading and writing
the file may fail; `Close` sets a flag, and removing the file is a failure to read it.
-/

namespace Session

open Lib

/-- How a read of the source ended. -/
inductive SourceResult where
  | ok
  | eof
  | failed
  deriving DecidableEq

/-- Where `pumpSource` is. -/
inductive SpoolPump where
  | top
  /-- In `src.Read` for so many bytes at most. -/
  | reading (readSize : Nat)
  /-- Back from it, before the lock. -/
  | got (payload : List UInt8) (result : SourceResult)
  | exited
  deriving DecidableEq

/-- Who called `NextChunk`. -/
inductive SpoolCaller where
  | carrier
  | reader
  deriving DecidableEq

/-- `externalHandoffChunk` without the transfer id. -/
structure HandoffChunk where
  offset : Nat
  payload : List UInt8
  deriving DecidableEq

/-- `externalHandoffSpoolReader`.  `out` lists what its caller was given and `start` is where the spool
stood when the reader was made, as long as no one else has taken a chunk or rewound since. -/
structure SpoolReader where
  pending : List UInt8
  pendingOffset : Nat
  out : List UInt8
  /-- It has returned `io.EOF`. -/
  eof : Bool
  start : Option Nat
  deriving DecidableEq

def SpoolReader.new (start : Option Nat) : SpoolReader := ⟨[], 0, [], false, start⟩

/-- `externalHandoffSpool` with its callers. -/
structure Spool where
  file : File
  chunkSize : Nat
  maxUnacked : Nat
  readOffset : Nat
  sourceOffset : Nat
  ackedWatermark : Nat
  eof : Bool
  /-- `readErr` is set. -/
  readErr : Bool
  readInterrupted : Bool
  closed : Bool
  pump : SpoolPump
  /-- Callers in `NextChunk` with their `chunkLen`. -/
  waiting : List (SpoolCaller × Nat)
  reader : SpoolReader
  /-- Bytes taken from the source. -/
  pulled : Nat
  /-- The largest limit so far. -/
  maxLimit : Nat
  /-- An acknowledgement went beyond `readOffset`. -/
  early : Bool
  /-- All chunks returned, and how many of them before the last rewind, with its offset. -/
  returned : List HandoffChunk
  since : Nat
  base : Nat

inductive SpoolLabel where
  /-- The loop of `pumpSource` up to the read, the read, and the rest of the loop. -/
  | turn
  | pull (n : Nat) (result : SourceResult)
  | store
  /-- The write of the rest fails after so many bytes. -/
  | storeFails (written : Nat)
  /-- `NextChunk` up to its loop, and its ends. -/
  | enter (who : SpoolCaller)
  | take (who : SpoolCaller) (chunkLen : Nat)
  | takeFails (who : SpoolCaller) (chunkLen : Nat)
  | giveUp (who : SpoolCaller) (chunkLen : Nat)
  | ackTo (watermark : Int)
  | rewindTo (offset : Int)
  | setMaxUnacked (maxUnacked : Int)
  | interruptPendingRead
  | close
  | newReader
  /-- `Read` copies up to `n` bytes and acknowledges them. -/
  | copy (n : Nat)

namespace Spool

/-- `newExternalHandoffSpool`. -/
def new (chunkSize maxUnacked : Nat) : Spool where
  file := []
  chunkSize := chunkSize
  maxUnacked := maxUnacked
  readOffset := 0
  sourceOffset := 0
  ackedWatermark := 0
  eof := false
  readErr := false
  readInterrupted := false
  closed := false
  pump := .top
  waiting := []
  reader := SpoolReader.new none
  pulled := 0
  maxLimit := maxUnacked
  early := false
  returned := []
  since := 0
  base := 0

section

variable (S : List UInt8) (s : Spool)

def turn : Option Spool :=
  if s.pump ≠ .top then none
  else if s.closed || s.readErr || s.eof then some { s with pump := .exited }
  else if s.sourceOffset - s.ackedWatermark ≥ s.maxUnacked then none
  else
    some
      { s with
        pump := .reading (min s.chunkSize (s.maxUnacked - (s.sourceOffset - s.ackedWatermark))) }

/-- The source gives some of its next bytes, and says that it ends only at its end. -/
def pull (n : Nat) (result : SourceResult) : Option Spool :=
  match s.pump with
  | .reading readSize =>
      if n ≤ readSize ∧ s.pulled + n ≤ S.length ∧ (result = .eof → s.pulled + n = S.length) then
        some
          { s with
            pump := .got ((S.drop s.pulled).take n) result
            pulled := s.pulled + n }
      else none
  | _ => none

/-- What the rest of the loop makes of the result. -/
def settle (result : SourceResult) : Spool :=
  let eof := s.eof || result = .eof
  let readErr := s.readErr || result = .failed
  { s with
    eof := eof
    readErr := readErr
    pump := if eof || readErr || s.closed then .exited else .top }

def store : Option Spool :=
  match s.pump with
  | .got payload result =>
      some
        (settle
          { s with
            file := s.file.writeAt s.sourceOffset payload
            sourceOffset := s.sourceOffset + payload.length }
          result)
  | _ => none

def storeFails (written : Nat) : Option Spool :=
  match s.pump with
  | .got payload result =>
      if payload ≠ [] then
        some
          (settle
            { s with file := s.file.writeAt s.sourceOffset (payload.take written), readErr := true }
            result)
      else none
  | _ => none

/-- How much `NextChunk` may take. -/
def chunkLen : Int :=
  min (s.chunkSize : Int) (s.maxUnacked - (s.readOffset - s.ackedWatermark))

/-- A caller that is turned away for a full window is not listed.  The reader calls once at a time. -/
def enter (who : SpoolCaller) : Option Spool :=
  if who = .reader ∧ (s.reader.pending ≠ [] ∨ .reader ∈ s.waiting.map Prod.fst) then none
  else if (s.readOffset : Int) - s.ackedWatermark ≥ s.maxUnacked ∨ s.chunkLen ≤ 0 then some s
  else some { s with waiting := s.waiting ++ [(who, s.chunkLen.toNat)] }

/-- The chunk goes to its caller. -/
def hand (who : SpoolCaller) (chunk : HandoffChunk) : Spool :=
  { s with
    readOffset := s.readOffset + chunk.payload.length
    returned := s.returned ++ [chunk]
    reader :=
      match who with
      | .carrier => { s.reader with start := none }
      | .reader => { s.reader with pending := chunk.payload, pendingOffset := chunk.offset } }

def take (who : SpoolCaller) (chunkLen : Nat) : Option Spool :=
  if (who, chunkLen) ∈ s.waiting ∧ s.readOffset < s.sourceOffset then
    let payload := s.file.readAt s.readOffset (min chunkLen (s.sourceOffset - s.readOffset))
    some ({ s with waiting := s.waiting.erase (who, chunkLen) }.hand who ⟨s.readOffset, payload⟩)
  else none

def takeFails (who : SpoolCaller) (chunkLen : Nat) : Option Spool :=
  if (who, chunkLen) ∈ s.waiting ∧ s.readOffset < s.sourceOffset then
    some { s with waiting := s.waiting.erase (who, chunkLen) }
  else none

/-- There is nothing to take, and `NextChunk` does not wait. -/
def giveUp (who : SpoolCaller) (chunkLen : Nat) : Option Spool :=
  if (who, chunkLen) ∈ s.waiting ∧ ¬ s.readOffset < s.sourceOffset then
    let t := { s with waiting := s.waiting.erase (who, chunkLen) }
    if s.readInterrupted then some { t with readInterrupted := false }
    else if s.readErr then some t
    else if s.eof then
      some { t with reader := { s.reader with eof := s.reader.eof || who = .reader } }
    else if s.closed then some t
    else none
  else none

def ackTo (watermark : Int) : Spool :=
  if watermark < s.ackedWatermark ∨ watermark > s.sourceOffset then s
  else
    { s with
      ackedWatermark := watermark.toNat
      early := s.early || decide (watermark > s.readOffset) }

def rewindTo (offset : Int) : Spool :=
  if offset < s.ackedWatermark ∨ offset > s.sourceOffset then s
  else
    { s with
      readOffset := offset.toNat
      readInterrupted := false
      since := s.returned.length
      base := offset.toNat
      reader := { s.reader with start := none } }

def setMaxUnacked (maxUnacked : Int) : Spool :=
  if maxUnacked ≤ 0 then s
  else { s with maxUnacked := maxUnacked.toNat, maxLimit := max s.maxLimit maxUnacked.toNat }

/-- A reader is made; one that was there before and waits is one of the others. -/
def newReader : Spool :=
  { s with
    reader := SpoolReader.new (some s.readOffset)
    waiting := s.waiting.map fun w => (.carrier, w.2) }

def copy (n : Nat) : Option Spool :=
  if s.reader.pending ≠ [] ∧ 0 < n then
    let given := s.reader.pending.take n
    some
      ({ s with
          reader :=
            { s.reader with
              out := s.reader.out ++ given
              pending := s.reader.pending.drop n
              pendingOffset := s.reader.pendingOffset + given.length } }.ackTo
        (s.reader.pendingOffset + given.length : Nat))
  else none

end

def step (S : List UInt8) (s : Spool) : SpoolLabel → Option Spool
  | .turn => s.turn
  | .pull n result => s.pull S n result
  | .store => s.store
  | .storeFails written => s.storeFails written
  | .enter who => s.enter who
  | .take who chunkLen => s.take who chunkLen
  | .takeFails who chunkLen => s.takeFails who chunkLen
  | .giveUp who chunkLen => s.giveUp who chunkLen
  | .ackTo watermark => some (s.ackTo watermark)
  | .rewindTo offset => some (s.rewindTo offset)
  | .setMaxUnacked maxUnacked => some (s.setMaxUnacked maxUnacked)
  | .interruptPendingRead => some { s with readInterrupted := true }
  | .close => some { s with closed := true }
  | .newReader => some s.newReader
  | .copy n => s.copy n

/-! ## What a step keeps -/

/-- The chunks follow each other from one offset to another. -/
def Contiguous : Nat → List HandoffChunk → Nat → Prop
  | start, [], stop => start = stop
  | start, chunk :: chunks, stop =>
      chunk.offset = start ∧ Contiguous (start + chunk.payload.length) chunks stop

theorem Contiguous.concat {start stop : Nat} {chunks : List HandoffChunk} {chunk : HandoffChunk}
    (h : Contiguous start chunks stop) (hc : chunk.offset = stop) :
    Contiguous start (chunks ++ [chunk]) (stop + chunk.payload.length) := by
  induction chunks generalizing start with
  | nil =>
      cases h
      exact ⟨hc, rfl⟩
  | cons c chunks ih => exact ⟨h.1, ih h.2⟩

/-- What `pumpSource` has in hand. -/
def PumpOk (S : List UInt8) (s : Spool) : SpoolPump → Prop
  | .top => s.pulled = s.sourceOffset
  | .reading readSize =>
      s.pulled = s.sourceOffset ∧ s.sourceOffset + readSize ≤ s.ackedWatermark + s.maxLimit
  | .got payload result =>
      s.pulled = s.sourceOffset + payload.length ∧ SliceAt S s.sourceOffset payload ∧
        (result = .eof → s.pulled = S.length)
  | .exited => True

/-- The reader has what stands in the source from its start on. -/
def ReaderOk (S : List UInt8) (readOffset : Nat) (r : SpoolReader) : Prop :=
  ∀ w, r.start = some w →
    w ≤ readOffset ∧ r.out ++ r.pending = (S.drop w).take (readOffset - w) ∧
      (r.eof = true → r.out = S.drop w)

structure Inv (S : List UInt8) (s : Spool) : Prop where
  file : File.HoldsAt s.file S 0 s.sourceOffset
  pump : PumpOk S s s.pump
  source : s.sourceOffset ≤ s.pulled
  window : s.pulled ≤ s.ackedWatermark + s.maxLimit
  limit : s.maxUnacked ≤ s.maxLimit
  eof : s.eof = true → s.readErr = false → s.sourceOffset = S.length
  acked : s.ackedWatermark ≤ s.sourceOffset
  read : s.readOffset ≤ s.sourceOffset
  early : s.early = false → s.ackedWatermark ≤ s.readOffset
  once : (s.waiting.map Prod.fst).count .reader ≤ 1
  idle : .reader ∈ s.waiting.map Prod.fst → s.reader.pending = []
  chunks : ∀ c ∈ s.returned, SliceAt S c.offset c.payload
  since : s.since ≤ s.returned.length
  contiguous : Contiguous s.base (s.returned.drop s.since) s.readOffset
  reader : ReaderOk S s.readOffset s.reader

theorem Inv.new (S : List UInt8) (chunkSize maxUnacked : Nat) : Inv S (new chunkSize maxUnacked) where
  file := ⟨Nat.zero_le _, fun i _ hi => by simp [Spool.new] at hi⟩
  pump := rfl
  source := Nat.le_refl _
  window := Nat.zero_le _
  limit := Nat.le_refl _
  eof := fun h => by cases h
  acked := Nat.le_refl _
  read := Nat.le_refl _
  early := fun _ => Nat.le_refl _
  once := Nat.zero_le _
  idle := fun h => by cases h
  chunks := fun _ h => by cases h
  since := Nat.le_refl _
  contiguous := rfl
  reader := fun _ h => by cases h

section Steps

variable {S : List UInt8} {s t : Spool}

/-- There is no less room for what was pulled. -/
theorem PumpOk.mono {pump : SpoolPump} (h : PumpOk S s pump) (hpulled : t.pulled = s.pulled)
    (hsource : t.sourceOffset = s.sourceOffset)
    (hroom : s.ackedWatermark + s.maxLimit ≤ t.ackedWatermark + t.maxLimit) : PumpOk S t pump := by
  cases pump with
  | top =>
      rw [PumpOk, hpulled, hsource]
      exact h
  | reading readSize =>
      rw [PumpOk, hpulled, hsource]
      exact ⟨h.1, Nat.le_trans h.2 hroom⟩
  | got payload result =>
      rw [PumpOk, hpulled, hsource]
      exact h
  | exited => trivial

theorem Inv.turn (hi : Inv S s) (h : s.turn = some t) : Inv S t := by
  unfold Spool.turn at h
  split at h
  · cases h
  · next hp =>
      have hpump : PumpOk S s .top := (not_not.mp hp) ▸ hi.pump
      split at h
      · cases h
        exact { hi with pump := trivial }
      · split at h
        · cases h
        · next hlt =>
            cases h
            refine { hi with pump := ⟨hpump, ?_⟩ }
            have := hi.limit
            have := hi.acked
            simp only
            omega

theorem Inv.pull {n : Nat} {result : SourceResult} (hi : Inv S s)
    (h : s.pull S n result = some t) : Inv S t := by
  unfold Spool.pull at h
  split at h
  · next readSize hp =>
      have hpump := hi.pump
      rw [hp] at hpump
      obtain ⟨hpulled, hroom⟩ := hpump
      split at h
      · next hn =>
          cases h
          obtain ⟨hn, hS, heof⟩ := hn
          have hlen : ((S.drop s.pulled).take n).length = n := by
            rw [List.length_take, List.length_drop]
            omega
          have hsource := hi.source
          refine { hi with pump := ⟨?_, ?_, heof⟩, source := ?_, window := ?_ }
          · rw [hlen, hpulled]
          · rw [← hpulled]
            exact SliceAt.of_read S (by omega) n
          · simp only
            omega
          · simp only
            omega
      · cases h
  · cases h

/-- The rest of the loop after the bytes were stored, or not. -/
theorem Inv.settle {result : SourceResult} (hi : Inv S s) (hpulled : s.readErr = false →
    s.pulled = s.sourceOffset ∧ (result = .eof → s.pulled = S.length)) : Inv S (s.settle result) := by
  refine { hi with pump := ?_, eof := ?_ }
  · unfold Spool.settle
    simp only
    split
    · trivial
    · next h =>
        simp only [Bool.or_eq_true, decide_eq_true_eq, not_or] at h
        exact (hpulled (by simpa using h.1.2.1)).1
  · intro heof herr
    simp only [Spool.settle, Bool.or_eq_true, decide_eq_true_eq, Bool.or_eq_false_iff,
      decide_eq_false_iff_not] at heof herr
    rcases heof with heof | heof
    · exact hi.eof heof herr.1
    · obtain ⟨hp, hS⟩ := hpulled herr.1
      exact hp.symm.trans (hS heof)

theorem Inv.store (hi : Inv S s) (h : s.store = some t) : Inv S t := by
  unfold Spool.store at h
  split at h
  · next payload result hp =>
      have hpump := hi.pump
      rw [hp] at hpump
      obtain ⟨hpulled, hslice, heof⟩ := hpump
      cases h
      have hfile : File.HoldsAt (s.file.writeAt s.sourceOffset payload) S 0
          (s.sourceOffset + payload.length) :=
        (hi.file.writeAt hslice).append (by rw [Nat.zero_add]; exact .of_writeAt s.file hslice)
      have hacked := hi.acked
      have hread := hi.read
      have hstored : Inv S { s with
          file := s.file.writeAt s.sourceOffset payload
          sourceOffset := s.sourceOffset + payload.length
          pump := .exited } := by
        refine { hi with file := hfile, pump := trivial, source := ?_, eof := ?_, acked := ?_, read := ?_ }
        · exact Nat.le_of_eq hpulled.symm
        · intro he herr
          have := hi.eof he herr
          have := hslice.end_le
          simp only
          omega
        · exact Nat.le_trans hacked (Nat.le_add_right _ _)
        · exact Nat.le_trans hread (Nat.le_add_right _ _)
      exact hstored.settle fun _ => ⟨hpulled, heof⟩
  · cases h

theorem Inv.storeFails {written : Nat} (hi : Inv S s) (h : s.storeFails written = some t) :
    Inv S t := by
  unfold Spool.storeFails at h
  split at h
  · next payload result hp =>
      have hpump := hi.pump
      rw [hp] at hpump
      obtain ⟨hpulled, hslice, -⟩ := hpump
      split at h
      · cases h
        have hstored : Inv S { s with
            file := s.file.writeAt s.sourceOffset (payload.take written)
            readErr := true
            pump := .exited } := by
          refine { hi with file := hi.file.writeAt (hslice.take written), pump := trivial, eof := ?_ }
          intro _ herr
          cases herr
        refine hstored.settle fun herr => ?_
        cases herr
      · cases h
  · cases h

/-- Callers come and go. -/
theorem Inv.enter {who : SpoolCaller} (hi : Inv S s) (h : s.enter who = some t) : Inv S t := by
  unfold Spool.enter at h
  split at h
  · cases h
  · next hwho =>
      split at h
      · cases h
        exact hi
      · cases h
        cases who with
        | carrier =>
            refine { hi with once := ?_, idle := ?_ }
            · simpa using hi.once
            · simpa using hi.idle
        | reader =>
            simp only [true_and, not_or, not_not] at hwho
            refine { hi with once := ?_, idle := fun _ => hwho.1 }
            have hzero : (s.waiting.map Prod.fst).count .reader = 0 := List.count_eq_zero.mpr hwho.2
            simp [hzero]

theorem Inv.leave (hi : Inv S s) (w : SpoolCaller × Nat) :
    Inv S { s with waiting := s.waiting.erase w } := by
  have hsub : (s.waiting.erase w).Sublist s.waiting := List.erase_sublist
  refine { hi with once := ?_, idle := ?_ }
  · exact Nat.le_trans ((hsub.map Prod.fst).count_le _) hi.once
  · intro hm
    exact hi.idle ((hsub.map Prod.fst).subset hm)

theorem Inv.takeFails {who : SpoolCaller} {chunkLen : Nat} (hi : Inv S s)
    (h : s.takeFails who chunkLen = some t) : Inv S t := by
  unfold Spool.takeFails at h
  split at h
  · cases h
    exact hi.leave _
  · cases h

/-- A chunk of the source at the read offset is handed out. -/
theorem Inv.hand {who : SpoolCaller} {payload : List UInt8} (hi : Inv S s)
    (hslice : SliceAt S s.readOffset payload) (hend : s.readOffset + payload.length ≤ s.sourceOffset)
    (hidle : who = .reader → s.reader.pending = []) (hgone : who = .reader → .reader ∉ s.waiting.map Prod.fst) :
    Inv S (s.hand who ⟨s.readOffset, payload⟩) := by
  have hdrop : (s.returned ++ [HandoffChunk.mk s.readOffset payload]).drop s.since =
      s.returned.drop s.since ++ [⟨s.readOffset, payload⟩] := List.drop_append_of_le_length hi.since
  refine
    { hi with
      read := hend
      early := fun he => Nat.le_trans (hi.early he) (Nat.le_add_right _ _)
      idle := ?_
      chunks := ?_
      since := ?_
      contiguous := ?_
      reader := ?_ }
  · intro hm
    cases who with
    | carrier => exact hi.idle hm
    | reader => exact absurd hm (hgone rfl)
  · intro c hc
    rcases List.mem_append.mp hc with hc | hc
    · exact hi.chunks c hc
    · rw [List.mem_singleton.mp hc]
      exact hslice
  · exact Nat.le_trans hi.since (by simp [Spool.hand])
  · simp only [Spool.hand, hdrop]
    exact hi.contiguous.concat rfl
  · cases who with
    | carrier =>
        intro w hw
        cases hw
    | reader =>
        intro w hw
        obtain ⟨hle, hout, heof⟩ := hi.reader w hw
        rw [hidle rfl, List.append_nil] at hout
        have hmore : (S.drop w).take (s.readOffset + payload.length - w) =
            (S.drop w).take (s.readOffset - w) ++ payload := by
          have hat : SliceAt (S.drop w) (s.readOffset - w) payload := by
            refine ⟨?_, ?_⟩
            · have := hslice.1
              rw [List.length_drop]
              omega
            · rw [List.drop_drop, Nat.add_sub_cancel' hle]
              exact hslice.2
          rw [hat.take_append]
          congr 1
          omega
        refine ⟨Nat.le_trans hle (Nat.le_add_right _ _), ?_, heof⟩
        simp only [Spool.hand]
        rw [hmore, hout]

theorem Inv.take {who : SpoolCaller} {chunkLen : Nat} (hi : Inv S s)
    (h : s.take who chunkLen = some t) : Inv S t := by
  unfold Spool.take at h
  split at h
  · next hw =>
      cases h
      obtain ⟨hmem, hlt⟩ := hw
      have hholds : File.HoldsAt s.file S s.readOffset (min chunkLen (s.sourceOffset - s.readOffset)) :=
        hi.file.mono (Nat.zero_le _) (by omega)
      refine (hi.leave (who, chunkLen)).hand hholds.sliceAt_readAt ?_ ?_ ?_
      · simp only [hholds.length_readAt]
        omega
      · intro hr
        subst hr
        exact hi.idle (List.mem_map_of_mem hmem)
      · intro hr hm
        subst hr
        have hone := hi.once
        have hsplit := (List.perm_cons_erase hmem).map Prod.fst
        rw [hsplit.count_eq, List.map_cons, List.count_cons_self] at hone
        have := List.count_pos_iff.mpr hm
        simp only at this
        omega
  · cases h

theorem Inv.giveUp {who : SpoolCaller} {chunkLen : Nat} (hi : Inv S s)
    (h : s.giveUp who chunkLen = some t) : Inv S t := by
  have hleft := hi.leave (who, chunkLen)
  unfold Spool.giveUp at h
  split at h
  · next hw =>
      obtain ⟨hmem, hge⟩ := hw
      simp only at h
      split at h
      · cases h
        exact { hleft with }
      split at h
      · cases h
        exact hleft
      · next herr =>
          split at h
          · next heof =>
              cases h
              refine { hleft with reader := ?_ }
              intro w hstart
              obtain ⟨hle, hout, hend⟩ := hi.reader w hstart
              refine ⟨hle, hout, fun he => ?_⟩
              rcases Bool.or_eq_true_iff.mp he with he | he
              · exact hend he
              · -- The reader is at the end of the source with nothing in hand.
                have hwho : who = .reader := of_decide_eq_true he
                subst hwho
                have hpending := hi.idle (List.mem_map_of_mem hmem)
                have hS := hi.eof heof (by simpa using herr)
                have hread := hi.read
                rw [hpending, List.append_nil] at hout
                show s.reader.out = S.drop w
                rw [hout]
                refine List.take_of_length_le ?_
                rw [List.length_drop]
                omega
          split at h
          · cases h
            exact hleft
          · cases h
  · cases h

theorem Inv.ackTo (hi : Inv S s) (watermark : Int) : Inv S (s.ackTo watermark) := by
  unfold Spool.ackTo
  split
  · exact hi
  · next hw =>
      have hwindow := hi.window
      refine { hi with pump := ?_, window := ?_, acked := ?_, early := ?_ }
      · refine hi.pump.mono rfl rfl ?_
        simp only
        omega
      · simp only
        omega
      · simp only
        omega
      · intro he
        simp only [Bool.or_eq_false_iff, decide_eq_false_iff_not] at he
        simp only
        omega

theorem Inv.rewindTo (hi : Inv S s) (offset : Int) : Inv S (s.rewindTo offset) := by
  unfold Spool.rewindTo
  split
  · exact hi
  · next hw =>
      refine { hi with read := ?_, early := ?_, since := Nat.le_refl _, contiguous := ?_, reader := ?_ }
      · simp only
        omega
      · intro _
        simp only
        omega
      · simp only [List.drop_length]
        rfl
      · intro w hstart
        cases hstart

theorem Inv.setMaxUnacked (hi : Inv S s) (maxUnacked : Int) : Inv S (s.setMaxUnacked maxUnacked) := by
  unfold Spool.setMaxUnacked
  split
  · exact hi
  · have hwindow := hi.window
    refine { hi with pump := ?_, window := ?_, limit := Nat.le_max_right _ _ }
    · refine hi.pump.mono rfl rfl ?_
      simp only
      omega
    · simp only
      omega

theorem Inv.newReader (hi : Inv S s) : Inv S s.newReader := by
  have hnone : .reader ∉ s.newReader.waiting.map Prod.fst := by
    simp [Spool.newReader]
  refine { hi with once := ?_, idle := fun _ => rfl, reader := ?_ }
  · rw [List.count_eq_zero.mpr hnone]
    exact Nat.zero_le _
  · intro w hstart
    cases hstart
    refine ⟨Nat.le_refl _, ?_, fun he => (by cases he)⟩
    simp [Spool.newReader, SpoolReader.new]

theorem Inv.copy {n : Nat} (hi : Inv S s) (h : s.copy n = some t) : Inv S t := by
  unfold Spool.copy at h
  split at h
  · next hn =>
      cases h
      have hcopied : Inv S { s with
          reader :=
            { s.reader with
              out := s.reader.out ++ s.reader.pending.take n
              pending := s.reader.pending.drop n
              pendingOffset := s.reader.pendingOffset + (s.reader.pending.take n).length } } := by
        refine { hi with idle := ?_, reader := ?_ }
        · intro hm
          exact absurd (hi.idle hm) hn.1
        · intro w hstart
          obtain ⟨hle, hout, heof⟩ := hi.reader w hstart
          refine ⟨hle, ?_, fun he => ?_⟩
          · simp only [List.append_assoc, List.take_append_drop]
            exact hout
          · -- At the end of the source there was nothing left to copy.
            exfalso
            have hlen := congrArg List.length hout
            rw [heof he, List.length_append, List.length_take, List.length_drop] at hlen
            have := List.length_pos_iff.mpr hn.1
            omega
      exact hcopied.ackTo _
  · cases h

theorem Inv.step {l : SpoolLabel} (hi : Inv S s) (h : s.step S l = some t) : Inv S t := by
  cases l with
  | turn => exact hi.turn h
  | pull n result => exact hi.pull h
  | store => exact hi.store h
  | storeFails written => exact hi.storeFails h
  | enter who => exact hi.enter h
  | take who chunkLen => exact hi.take h
  | takeFails who chunkLen => exact hi.takeFails h
  | giveUp who chunkLen => exact hi.giveUp h
  | ackTo watermark =>
      cases h
      exact hi.ackTo watermark
  | rewindTo offset =>
      cases h
      exact hi.rewindTo offset
  | setMaxUnacked maxUnacked =>
      cases h
      exact hi.setMaxUnacked maxUnacked
  | interruptPendingRead =>
      cases h
      exact { hi with }
  | close =>
      cases h
      exact { hi with }
  | newReader =>
      cases h
      exact hi.newReader
  | copy n => exact hi.copy h

end Steps

theorem reachable_inv {S : List UInt8} {chunkSize maxUnacked : Nat} {labels : List SpoolLabel} {s : Spool}
    (h : runFrom (step S) (new chunkSize maxUnacked) labels = some s) : Inv S s :=
  runFrom_invariant (fun _ _ _ hi hs => hi.step hs) labels (.new S chunkSize maxUnacked) h

/-- In every run: both offsets stay below the source offset, and the watermark below the read offset
until an acknowledgement goes beyond it; every chunk is the source at its offset, and the chunks since
the last rewind follow each other; a reader that was made when the spool stood at `w`, and is alone with
it since, gives out the source from `w` on, and ends where it ends; and what was pulled and is not
acknowledged keeps the largest limit. -/
theorem handoff_spool (S : List UInt8) (chunkSize maxUnacked : Nat) (labels : List SpoolLabel) (s : Spool)
    (h : runFrom (step S) (new chunkSize maxUnacked) labels = some s) :
    (s.ackedWatermark ≤ s.sourceOffset ∧ s.readOffset ≤ s.sourceOffset ∧
        (s.early = false → s.ackedWatermark ≤ s.readOffset)) ∧
      ((∀ c ∈ s.returned, SliceAt S c.offset c.payload) ∧
        Contiguous s.base (s.returned.drop s.since) s.readOffset) ∧
      (∀ w, s.reader.start = some w →
        s.reader.out <+: S.drop w ∧ (s.reader.eof = true → s.reader.out = S.drop w)) ∧
      s.pulled - s.ackedWatermark ≤ s.maxLimit := by
  have hi := reachable_inv h
  refine ⟨⟨hi.acked, hi.read, hi.early⟩, ⟨hi.chunks, hi.contiguous⟩, fun w hw => ?_, ?_⟩
  · obtain ⟨-, hout, heof⟩ := hi.reader w hw
    have hall : s.reader.out ++ s.reader.pending <+: S.drop w := by
      rw [hout]
      exact List.take_prefix _ _
    exact ⟨(List.prefix_append _ _).trans hall, heof⟩
  · have := hi.window
    omega

/-- A carrier takes a chunk, its first byte is acknowledged, and a reader takes over from there. -/
def rewoundRun : List SpoolLabel :=
  [.turn, .pull 2 .ok, .store, .enter .carrier, .take .carrier 2, .ackTo 1, .rewindTo 1, .newReader,
    .turn, .pull 1 .eof, .store, .enter .reader, .take .reader 2, .copy 1, .copy 5, .enter .reader,
    .giveUp .reader 2]

theorem handoff_spool_rewound : ∃ s,
    runFrom (step [1, 2, 3]) (new 2 3) rewoundRun = some s ∧ s.reader.start = some 1 ∧
      s.reader.eof = true ∧ s.reader.out = [1, 2, 3].drop 1 := by
  have h : (runFrom (step [1, 2, 3]) (new 2 3) rewoundRun).any (fun s =>
      decide (s.reader.start = some 1 ∧ s.reader.eof = true)) = true := by decide +kernel
  obtain ⟨s, hrun, hs⟩ := (Option.any_eq_true ..).mp h
  obtain ⟨hstart, heof⟩ := of_decide_eq_true hs
  exact ⟨s, hrun, hstart, heof,
    ((handoff_spool [1, 2, 3] 2 3 rewoundRun s hrun).2.2.1 1 hstart).2 heof⟩

/-- An acknowledgement crosses a rewind; and a reader gets nothing of the source when a carrier is
there before it. -/
theorem handoff_spool_late_ack :
    (∃ s, runFrom (step [1, 2]) (new 2 4)
        [.turn, .pull 2 .ok, .store, .enter .carrier, .take .carrier 2, .rewindTo 0, .ackTo 2] = some s ∧
      s.readOffset < s.ackedWatermark) ∧
    ∃ s, runFrom (step [1, 2]) (new 2 4)
        [.turn, .pull 2 .eof, .store, .rewindTo 0, .newReader, .enter .carrier, .take .carrier 2,
          .enter .reader, .giveUp .reader 2] = some s ∧
      s.reader.eof = true ∧ s.reader.out = [] := by
  have h₁ : (runFrom (step [1, 2]) (new 2 4)
      [.turn, .pull 2 .ok, .store, .enter .carrier, .take .carrier 2, .rewindTo 0, .ackTo 2]).any
        (fun s => decide (s.readOffset < s.ackedWatermark)) = true := by decide +kernel
  have h₂ : (runFrom (step [1, 2]) (new 2 4)
      [.turn, .pull 2 .eof, .store, .rewindTo 0, .newReader, .enter .carrier, .take .carrier 2,
        .enter .reader, .giveUp .reader 2]).any
        (fun s => decide (s.reader.eof = true ∧ s.reader.out = [])) = true := by decide +kernel
  obtain ⟨s₁, hrun₁, hs₁⟩ := (Option.any_eq_true ..).mp h₁
  obtain ⟨s₂, hrun₂, hs₂⟩ := (Option.any_eq_true ..).mp h₂
  exact ⟨⟨s₁, hrun₁, of_decide_eq_true hs₁⟩, s₂, hrun₂, of_decide_eq_true hs₂⟩

end Spool

end Session
