import Mathlib.Algebra.Ring.Int.Defs
import Derphole.Lib.Cyclic
import Derphole.Probe.RunSeqs

/-!
# Repair requests

The enumerators of missing sequence numbers of `pkg/probe/session.go`: two of a run,
which return batches, and three of a stripe.  Each is a bounded cyclic scan of a range
from the saved cursor `nextRepairSeq`, which wraps around in the range and is left
behind the last number returned.

The enumerators of a run stop at `batchSize * maxBatches` numbers.  That product is an
`int`; every call of them passes `maxRepairRequestSeqs` and `maxRepairRequestBatches`, so it
does not wrap around.
-/

namespace Probe

open Lib

def maxRepairRequestSeqs : Int := 128
def maxRepairRequestBatches : Int := 4

/-- The product of two `int`s. -/
def mulInt (a b : Int) : Int := (a * b).bmod (2 ^ 64)

/-- The sequence numbers of `[lo, hi)` that were not seen. -/
def unseen (seen : SeqSet) (lo hi : Nat) : List Nat :=
  (List.range' lo (hi - lo)).filter fun seq => !seen.has seq

theorem mem_unseen {seen : SeqSet} {lo hi seq : Nat} :
    seq ∈ unseen seen lo hi ↔ lo ≤ seq ∧ seq < hi ∧ seen.has seq = false := by
  rw [unseen, List.mem_filter, List.mem_range'_1, Bool.not_eq_true', ← and_assoc]
  exact and_congr_left fun _ => by omega

theorem unseen_pairwise (seen : SeqSet) (lo hi : Nat) : (unseen seen lo hi).Pairwise (· < ·) :=
  List.Pairwise.filter _ List.pairwise_lt_range'

theorem unseen_nodup (seen : SeqSet) (lo hi : Nat) : (unseen seen lo hi).Nodup :=
  (unseen_pairwise seen lo hi).imp Nat.ne_of_lt

theorem nodup_ite_unseen (c : Prop) [Decidable c] (seen : SeqSet) (lo hi : Nat) :
    (if c then unseen seen lo hi else []).Nodup := by
  split
  · exact unseen_nodup seen lo hi
  · exact List.nodup_nil

/-! ## The scans -/

/-- The loop of a stripe's enumerators: `r` more numbers are checked, from `checked` on. -/
def scanSeqs (seen : SeqSet) (seqAt : Nat → Nat) (limit : Int) : Nat → Nat → List Nat → List Nat
  | 0, _, out => out
  | r + 1, checked, out =>
      if (out.length : Int) < limit then
        scanSeqs seen seqAt limit r (checked + 1)
          (if seen.has (seqAt checked) then out else out ++ [seqAt checked])
      else out

/-- What the loop of a run's enumerators keeps: the full batches, the one being filled and
the last number found. -/
structure Batches where
  batches : List (List Nat)
  current : List Nat
  last : Option Nat

namespace Batches

def empty : Batches := ⟨[], [], none⟩

/-- A number is found. -/
def push (b : Batches) (batchSize : Int) (seq : Nat) : Batches :=
  if ((b.current ++ [seq]).length : Int) = batchSize then
    ⟨b.batches ++ [b.current ++ [seq]], [], some seq⟩
  else ⟨b.batches, b.current ++ [seq], some seq⟩

/-- The numbers found so far. -/
def found (b : Batches) : List Nat := b.batches.flatten ++ b.current

/-- `len(batches)*batchSize+len(current)`. -/
def count (b : Batches) (batchSize : Int) : Int := b.batches.length * batchSize + b.current.length

/-- The batch being filled is returned too. -/
def close (b : Batches) (maxBatches : Int) : List (List Nat) :=
  if 0 < b.current.length ∧ (b.batches.length : Int) < maxBatches then b.batches ++ [b.current]
  else b.batches

end Batches

/-- The loop of a run's enumerators. -/
def scanBatches (seen : SeqSet) (seqAt : Nat → Nat) (batchSize maxBatches : Int) :
    Nat → Nat → Batches → Batches
  | 0, _, b => b
  | r + 1, checked, b =>
      if (b.batches.length : Int) < maxBatches then
        if seen.has (seqAt checked) then
          scanBatches seen seqAt batchSize maxBatches r (checked + 1) b
        else if mulInt batchSize maxBatches ≤ (b.push batchSize (seqAt checked)).count batchSize then
          b.push batchSize (seqAt checked)
        else
          scanBatches seen seqAt batchSize maxBatches r (checked + 1)
            (b.push batchSize (seqAt checked))
      else b

/-- The number a scan of the first `total` checks. -/
def totalSeqAt (total start checked : Nat) : Nat := u64 (start + checked) % total

/-- The number a scan of `[lo, lo + span)` checks. -/
def spanSeqAt (lo span start checked : Nat) : Nat := u64 (lo + u64 (start - lo + checked) % span)

namespace RunSeqs

def missingSeqBatches (s : RunSeqs) (batchSize maxBatches : Int) : List (List Nat) × RunSeqs :=
  if s.done = false ∨ batchSize ≤ 0 then ([], s)
  else if batchSize ≤ 0 ∨ maxBatches ≤ 0 then ([], s)
  else if s.totalPackets = 0 then ([], s)
  else
    let start := if s.totalPackets ≤ s.nextRepairSeq then 0 else s.nextRepairSeq
    let b := scanBatches s.seen (totalSeqAt s.totalPackets start) batchSize maxBatches
      s.totalPackets 0 Batches.empty
    (b.close maxBatches,
      match b.last with
      | some last => { s with nextRepairSeq := u64 (last + 1) % s.totalPackets }
      | none => s)

def knownMissingSeqBatches (s : RunSeqs) (batchSize maxBatches : Int) :
    List (List Nat) × RunSeqs :=
  if batchSize ≤ 0 ∨ s.maxSeqPlusOne ≤ s.nextWriteSeq then ([], s)
  else if batchSize ≤ 0 ∨ maxBatches ≤ 0 then ([], s)
  else
    let span := s.maxSeqPlusOne - s.nextWriteSeq
    let start :=
      if s.nextRepairSeq < s.nextWriteSeq ∨ s.maxSeqPlusOne ≤ s.nextRepairSeq then s.nextWriteSeq
      else s.nextRepairSeq
    let b := scanBatches s.seen (spanSeqAt s.nextWriteSeq span start) batchSize maxBatches
      span 0 Batches.empty
    (b.close maxBatches,
      match b.last with
      | some last => { s with nextRepairSeq := u64 (last + 1) }
      | none => s)

end RunSeqs

namespace StripeSeqs

def missingSeqs (s : StripeSeqs) (limit : Int) : List Nat × StripeSeqs :=
  if (s.done = false ∧ s.terminalSeen = false) ∨ limit ≤ 0 ∨ s.totalPackets = 0 then ([], s)
  else
    let start := if s.totalPackets ≤ s.nextRepairSeq then 0 else s.nextRepairSeq
    let out := scanSeqs s.seen (totalSeqAt s.totalPackets start) limit s.totalPackets 0 []
    (out,
      match out.getLast? with
      | some last => { s with nextRepairSeq := u64 (last + 1) % s.totalPackets }
      | none => s)

def missingSeqsBefore (s : StripeSeqs) (endSeq : Nat) (limit : Int) : List Nat × StripeSeqs :=
  if limit ≤ 0 ∨ endSeq ≤ s.expectedSeq then ([], s)
  else
    let span := endSeq - s.expectedSeq
    let start :=
      if s.nextRepairSeq < s.expectedSeq ∨ endSeq ≤ s.nextRepairSeq then s.expectedSeq
      else s.nextRepairSeq
    let out := scanSeqs s.seen (spanSeqAt s.expectedSeq span start) limit span 0 []
    (out,
      match out.getLast? with
      | some last => { s with nextRepairSeq := u64 (last + 1) }
      | none => s)

/-- The body of the code repeats that of `missingSeqsBefore` with `maxSeqPlusOne` as the end. -/
def knownMissingSeqs (s : StripeSeqs) (limit : Int) : List Nat × StripeSeqs :=
  s.missingSeqsBefore s.maxSeqPlusOne limit

end StripeSeqs

/-! ## The order of a scan -/

/-- A scan of `[lo, lo + span)` checks the numbers from `start` on and then those before it. -/
theorem map_spanSeqAt {lo span start : Nat} (hlo : lo ≤ start) (hstart : start < lo + span)
    (hlt : lo + span < 2 ^ 63) :
    (List.range span).map (spanSeqAt lo span start) =
      List.range' start (lo + span - start) ++ List.range' lo (start - lo) := by
  apply List.ext_getElem
  · simp only [List.length_map, List.length_range, List.length_append, List.length_range']
    omega
  · intro i h₁ h₂
    rw [List.length_map, List.length_range] at h₁
    have hsum : start - lo + i < 2 ^ 64 := by omega
    rw [List.getElem_map, List.getElem_range, List.getElem_append, spanSeqAt, u64_of_lt hsum]
    split
    next hi =>
      rw [List.length_range'] at hi
      rw [Nat.mod_eq_of_lt (by omega), u64_of_lt (by omega), List.getElem_range']
      omega
    next hi =>
      rw [List.length_range'] at hi
      have hmod : (start - lo + i) % span = start - lo + i - span := by
        rw [Nat.mod_eq_sub_mod (by omega), Nat.mod_eq_of_lt (by omega)]
      rw [hmod, u64_of_lt (by omega), List.getElem_range', List.length_range']
      omega

/-- Of these the missing ones, in the order of the scan. -/
theorem filter_spanSeqAt (seen : SeqSet) {lo hi start : Nat} (hlo : lo ≤ start) (hstart : start < hi)
    (hlt : hi < 2 ^ 63) :
    ((List.range (hi - lo)).map (spanSeqAt lo (hi - lo) start)).filter (fun seq => !seen.has seq) =
      cyclicFrom start (unseen seen lo hi) := by
  have hsplit : List.range' lo (hi - lo) =
      List.range' lo (start - lo) ++ List.range' start (hi - start) := by
    rw [show hi - lo = start - lo + (hi - start) by omega, ← List.range'_append_1,
      show lo + (start - lo) = start by omega]
  rw [map_spanSeqAt hlo (by omega) (by omega), List.filter_append, unseen, hsplit, List.filter_append,
    cyclicFrom_append]
  · rw [show lo + (hi - lo) - start = hi - start by omega]
  · intro x hx
    have := (List.mem_range'_1.mp (List.mem_of_mem_filter hx))
    omega
  · intro x hx
    have := (List.mem_range'_1.mp (List.mem_of_mem_filter hx))
    omega

theorem totalSeqAt_eq {total : Nat} (htotal : 0 < total) (hlt : total < 2 ^ 63) (start : Nat) :
    totalSeqAt total start = spanSeqAt 0 total start := by
  funext checked
  have := Nat.mod_lt (u64 (start + checked)) htotal
  have hsmall : u64 (start + checked) % total < 2 ^ 64 := by omega
  rw [totalSeqAt, spanSeqAt, Nat.zero_add, Nat.sub_zero, u64_of_lt hsmall]

/-! ## The loops -/

/-- The loop finds the next missing numbers up to the limit. -/
theorem scanSeqs_eq (seen : SeqSet) (seqAt : Nat → Nat) (limit : Int) (r checked : Nat) (out : List Nat) :
    scanSeqs seen seqAt limit r checked out =
      out ++ ((((List.range' checked r).map seqAt).filter fun seq => !seen.has seq).take
        (limit.toNat - out.length)) := by
  induction r generalizing checked out with
  | zero => simp [scanSeqs]
  | succ r ih =>
      rw [scanSeqs, List.range'_succ, List.map_cons, List.filter_cons]
      by_cases hlimit : (out.length : Int) < limit
      · rw [if_pos hlimit, ih]
        cases hhas : seen.has (seqAt checked) with
        | true => simp
        | false =>
            obtain ⟨k, hk⟩ : ∃ k, limit.toNat - out.length = k + 1 := ⟨limit.toNat - out.length - 1, by omega⟩
            have hk' : limit.toNat - (out ++ [seqAt checked]).length = k := by
              rw [List.length_append, List.length_singleton]
              omega
            simp only [Bool.false_eq_true, if_false, Bool.not_false, if_true]
            rw [hk', hk, List.take_succ_cons, List.append_assoc]
            rfl
      · rw [if_neg hlimit, show limit.toNat - out.length = 0 by omega, List.take_zero, List.append_nil]

/-- The arguments that the enumerators of a run are called with: positive, and with a product that is
an `int`. -/
structure BatchArgs (batchSize maxBatches : Int) : Prop where
  size : 0 < batchSize
  batches : 0 < maxBatches
  product : batchSize * maxBatches < 2 ^ 63

theorem repairRequestArgs : BatchArgs maxRepairRequestSeqs maxRepairRequestBatches :=
  ⟨by decide, by decide, by decide⟩

namespace BatchArgs

variable {batchSize maxBatches : Int}

theorem product_pos (h : BatchArgs batchSize maxBatches) : 0 < batchSize * maxBatches :=
  Int.mul_pos h.size h.batches

theorem mulInt_eq (h : BatchArgs batchSize maxBatches) :
    mulInt batchSize maxBatches = batchSize * maxBatches := by
  have hpos := h.product_pos
  have hlt := h.product
  rw [mulInt, Int.bmod_def, Int.emod_eq_of_lt (by omega) (by omega)]
  split <;> omega

end BatchArgs

namespace Batches

/-- The batches are full, the one being filled is not. -/
structure Filled (b : Batches) (batchSize : Int) : Prop where
  full : ∀ batch ∈ b.batches, (batch.length : Int) = batchSize
  current : (b.current.length : Int) < batchSize
  last : b.last = b.found.getLast?

variable {b : Batches} {batchSize maxBatches : Int}

theorem Filled.empty (hpos : 0 < batchSize) : Filled Batches.empty batchSize where
  full := by simp [Batches.empty]
  current := by simpa [Batches.empty] using hpos
  last := rfl

theorem found_push (b : Batches) (batchSize : Int) (seq : Nat) :
    (b.push batchSize seq).found = b.found ++ [seq] := by
  rw [push]
  split
  · simp [found]
  · simp [found]

theorem Filled.push (h : Filled b batchSize) (seq : Nat) : Filled (b.push batchSize seq) batchSize := by
  have hlast : (b.push batchSize seq).last = (b.push batchSize seq).found.getLast? := by
    rw [found_push, List.getLast?_append, Batches.push]
    split
    · rfl
    · rfl
  refine ⟨?_, ?_, hlast⟩
  · intro batch hbatch
    rw [Batches.push] at hbatch
    split at hbatch
    next hfull =>
      rcases List.mem_append.mp hbatch with hold | hnew
      · exact h.full batch hold
      · rw [List.mem_singleton.mp hnew]
        exact hfull
    next => exact h.full batch hbatch
  · have hcurrent := h.current
    rw [Batches.push]
    split
    · show (0 : Int) < batchSize
      omega
    next hne =>
      rw [List.length_append, List.length_singleton] at hne
      show ((b.current ++ [seq]).length : Int) < batchSize
      rw [List.length_append, List.length_singleton]
      omega

/-- The count is the number of numbers found. -/
theorem Filled.count_eq (h : Filled b batchSize) : b.count batchSize = b.found.length := by
  have hsum : ∀ l : List (List Nat), (∀ batch ∈ l, (batch.length : Int) = batchSize) →
      (l.flatten.length : Int) = l.length * batchSize := by
    intro l
    induction l with
    | nil => simp
    | cons batch l ih =>
        intro hl
        rw [List.flatten_cons, List.length_append, List.length_cons, Int.natCast_add, Int.natCast_add,
          Int.add_mul, ih fun x hx => hl x (List.mem_cons_of_mem _ hx), hl batch List.mem_cons_self]
        omega
  rw [count, found, List.length_append, Int.natCast_add, hsum _ h.full]

end Batches

section

variable {batchSize maxBatches : Int}

/-- Below the limit there is room for a batch. -/
theorem Batches.Filled.length_lt {b : Batches} (h : b.Filled batchSize) (hpos : 0 < batchSize)
    (hlt : (b.found.length : Int) < batchSize * maxBatches + b.current.length) :
    (b.batches.length : Int) < maxBatches := by
  rw [← h.count_eq, Batches.count] at hlt
  have hmul : (b.batches.length : Int) * batchSize < maxBatches * batchSize := by
    rw [Int.mul_comm maxBatches]
    omega
  exact Int.lt_of_mul_lt_mul_right hmul (Int.le_of_lt hpos)

/-- The loop finds the next missing numbers up to the limit. -/
theorem scanBatches_spec (seen : SeqSet) (seqAt : Nat → Nat) (hargs : BatchArgs batchSize maxBatches)
    (r : Nat) :
    ∀ (checked : Nat) (b : Batches), b.Filled batchSize →
      b.found.length < (batchSize * maxBatches).toNat →
      (scanBatches seen seqAt batchSize maxBatches r checked b).Filled batchSize ∧
        (scanBatches seen seqAt batchSize maxBatches r checked b).found =
          b.found ++ (((List.range' checked r).map seqAt).filter fun seq => !seen.has seq).take
            ((batchSize * maxBatches).toNat - b.found.length) := by
  induction r with
  | zero =>
      intro checked b h _
      exact ⟨h, by simp [scanBatches]⟩
  | succ r ih =>
      intro checked b h hlt
      have hroom : (b.batches.length : Int) < maxBatches := h.length_lt hargs.size (by omega)
      rw [scanBatches, if_pos hroom, List.range'_succ, List.map_cons, List.filter_cons]
      cases hhas : seen.has (seqAt checked) with
      | true =>
          rw [if_pos rfl]
          simpa using ih (checked + 1) b h hlt
      | false =>
          have hpush := h.push (seqAt checked)
          have hfound := Batches.found_push b batchSize (seqAt checked)
          have hlen : (b.push batchSize (seqAt checked)).found.length = b.found.length + 1 := by
            rw [hfound, List.length_append, List.length_singleton]
          obtain ⟨k, hk⟩ : ∃ k, (batchSize * maxBatches).toNat = b.found.length + 1 + k :=
            ⟨(batchSize * maxBatches).toNat - (b.found.length + 1), by omega⟩
          rw [if_neg (by simp), hpush.count_eq, hlen, hargs.mulInt_eq, hk]
          simp only [Bool.not_false, if_true]
          rw [show b.found.length + 1 + k - b.found.length = k + 1 by omega, List.take_succ_cons]
          split
          next hstop =>
            have hzero : k = 0 := by omega
            refine ⟨hpush, ?_⟩
            rw [hfound, hzero, List.take_zero]
          next hmore =>
            obtain ⟨hfilled, hall⟩ := ih (checked + 1) _ hpush (by omega)
            refine ⟨hfilled, ?_⟩
            rw [hall, hlen, hk, hfound, show b.found.length + 1 + k - (b.found.length + 1) = k by omega,
              List.append_assoc]
            rfl

/-- All that was found is returned, in at most `maxBatches` batches. -/
theorem Batches.Filled.close {b : Batches} (h : b.Filled batchSize)
    (hargs : BatchArgs batchSize maxBatches) (hle : b.found.length ≤ (batchSize * maxBatches).toNat) :
    (b.close maxBatches).flatten = b.found ∧ ((b.close maxBatches).length : Int) ≤ maxBatches ∧
      ∀ batch ∈ b.close maxBatches, batch ≠ [] ∧ (batch.length : Int) ≤ batchSize := by
  have hpos := hargs.size
  have hprod := hargs.product_pos
  have hfull : ∀ batch ∈ b.batches, batch ≠ [] ∧ (batch.length : Int) ≤ batchSize := by
    intro batch hbatch
    have hlen := h.full batch hbatch
    refine ⟨?_, Int.le_of_eq hlen⟩
    rintro rfl
    rw [List.length_nil] at hlen
    omega
  rcases Nat.eq_zero_or_pos b.current.length with hzero | hcurrent
  · have hempty : b.current = [] := List.length_eq_zero_iff.mp hzero
    have hsame : b.close maxBatches = b.batches := by rw [Batches.close, if_neg (by omega)]
    refine ⟨by rw [hsame, found, hempty, List.append_nil], ?_, hsame ▸ hfull⟩
    have hroom : (b.batches.length : Int) < maxBatches + 1 :=
      h.length_lt hpos (by rw [Int.mul_add]; omega)
    rw [hsame]
    omega
  · have hroom : (b.batches.length : Int) < maxBatches := h.length_lt hpos (by omega)
    have hsame : b.close maxBatches = b.batches ++ [b.current] := by
      rw [Batches.close, if_pos ⟨hcurrent, hroom⟩]
    refine ⟨by rw [hsame, found]; simp, ?_, ?_⟩
    · rw [hsame, List.length_append, List.length_singleton]
      omega
    · intro batch hbatch
      rw [hsame, List.mem_append, List.mem_singleton] at hbatch
      rcases hbatch with hbatch | rfl
      · exact hfull batch hbatch
      · exact ⟨List.ne_nil_of_length_pos hcurrent, Int.le_of_lt h.current⟩

end

/-! ## What an enumerator returns and where it leaves the cursor -/

section

variable {seen : SeqSet} {lo hi total cursor limit : Nat}

/-- A cursor outside the range starts at its beginning. -/
theorem scan_span (seen : SeqSet) (cursor : Nat) (h : lo < hi) (hlt : hi < 2 ^ 63) :
    ((List.range' 0 (hi - lo)).map (spanSeqAt lo (hi - lo)
      (if cursor < lo ∨ hi ≤ cursor then lo else cursor))).filter (fun seq => !seen.has seq) =
      cyclicFrom cursor (unseen seen lo hi) := by
  rw [← List.range_eq_range']
  by_cases hin : cursor < lo ∨ hi ≤ cursor
  · rw [if_pos hin, filter_spanSeqAt seen (Nat.le_refl lo) h hlt,
      cyclicFrom_of_le fun x hx => (mem_unseen.mp hx).1]
    rcases hin with hbelow | habove
    · rw [cyclicFrom_of_le]
      intro x hx
      have := (mem_unseen.mp hx).1
      omega
    · rw [cyclicFrom_of_lt]
      intro x hx
      have := (mem_unseen.mp hx).2.1
      omega
  · rw [if_neg hin, filter_spanSeqAt seen (by omega) (by omega) hlt]

theorem scan_total (seen : SeqSet) (cursor : Nat) (h : 0 < total) (hlt : total < 2 ^ 63) :
    ((List.range' 0 total).map (totalSeqAt total
      (if total ≤ cursor then 0 else cursor))).filter (fun seq => !seen.has seq) =
      cyclicFrom cursor (unseen seen 0 total) := by
  rw [totalSeqAt_eq h hlt, ← scan_span seen cursor h hlt, Nat.sub_zero]
  simp

/-- The cursor is left behind the last number returned. -/
theorem cursor_span (hlt : hi < 2 ^ 63) {last : Nat}
    (hlast : ((cyclicFrom cursor (unseen seen lo hi)).take limit).getLast? = some last) :
    cyclicFrom (u64 (last + 1)) (unseen seen lo hi) =
      (cyclicFrom cursor (unseen seen lo hi)).drop limit ++
        (cyclicFrom cursor (unseen seen lo hi)).take limit := by
  have hmem : last ∈ unseen seen lo hi :=
    (cyclicFrom_perm _ _).mem_iff.mp (List.mem_of_mem_take (List.mem_of_getLast? hlast))
  have := (mem_unseen.mp hmem).2.1
  rw [u64_of_lt (by omega)]
  exact cyclicFrom_next (unseen_pairwise seen lo hi) (List.take_append_drop limit _).symm hlast

theorem cursor_total (hlt : total < 2 ^ 63) {last : Nat}
    (hlast : ((cyclicFrom cursor (unseen seen 0 total)).take limit).getLast? = some last) :
    cyclicFrom (u64 (last + 1) % total) (unseen seen 0 total) =
      (cyclicFrom cursor (unseen seen 0 total)).drop limit ++
        (cyclicFrom cursor (unseen seen 0 total)).take limit := by
  have hmem : last ∈ unseen seen 0 total :=
    (cyclicFrom_perm _ _).mem_iff.mp (List.mem_of_mem_take (List.mem_of_getLast? hlast))
  have hbelow := (mem_unseen.mp hmem).2.1
  rw [← cursor_span hlt hlast, u64_of_lt (by omega)]
  rcases Nat.lt_or_ge (last + 1) total with hin | hend
  · rw [Nat.mod_eq_of_lt hin]
  · have hzero : (last + 1) % total = 0 := by
      rw [show last + 1 = total by omega, Nat.mod_self]
    rw [hzero, cyclicFrom_of_le fun x _ => Nat.zero_le x, cyclicFrom_of_lt]
    intro x hx
    have := (mem_unseen.mp hx).2.1
    omega

/-- Nothing was returned, and nothing is missing. -/
theorem cursor_none {l : List Nat} (hlimit : 0 < limit) (hnone : (l.take limit).getLast? = none) :
    l = l.drop limit ++ l.take limit := by
  rw [List.getLast?_eq_none_iff, List.take_eq_nil_iff] at hnone
  rcases hnone with hzero | rfl
  · omega
  · simp

end

/-- A call returned the next `limit` of the missing numbers and moved the cursor only. -/
structure Scanned (missing : List Nat) (cursor limit : Nat) (out : List Nat) (cursor' : Nat) :
    Prop where
  out : out = (cyclicFrom cursor missing).take limit
  next : cyclicFrom cursor' missing =
    (cyclicFrom cursor missing).drop limit ++ (cyclicFrom cursor missing).take limit

theorem Scanned.of_empty (cursor limit : Nat) : Scanned [] cursor limit [] cursor :=
  ⟨by simp [cyclicFrom], by simp [cyclicFrom]⟩

namespace StripeSeqs

/-- The missing numbers of the stripe below the announced total. -/
def finalMissing (s : StripeSeqs) : List Nat :=
  if s.done = true ∨ s.terminalSeen = true then unseen s.seen 0 s.totalPackets else []

theorem missingSeqs_spec (s : StripeSeqs) {limit : Int} (hlimit : 0 < limit)
    (htotal : s.totalPackets < 2 ^ 63) :
    ∃ cursor, (s.missingSeqs limit).2 = { s with nextRepairSeq := cursor } ∧
      Scanned s.finalMissing s.nextRepairSeq limit.toNat (s.missingSeqs limit).1 cursor := by
  rw [missingSeqs, finalMissing]
  split
  next hnil =>
    refine ⟨s.nextRepairSeq, rfl, ?_⟩
    split
    next hdone =>
      have hzero : s.totalPackets = 0 := by
        rcases hnil with ⟨h₁, h₂⟩ | h | h
        · simp [h₁, h₂] at hdone
        · omega
        · exact h
      rw [hzero]
      exact Scanned.of_empty _ _
    next => exact Scanned.of_empty _ _
  next hsome =>
    have hdone : s.done = true ∨ s.terminalSeen = true := by
      cases hd : s.done <;> cases ht : s.terminalSeen <;> simp_all
    have hout := scanSeqs_eq s.seen (totalSeqAt s.totalPackets
      (if s.totalPackets ≤ s.nextRepairSeq then 0 else s.nextRepairSeq)) limit s.totalPackets 0 []
    rw [scan_total s.seen s.nextRepairSeq (by omega) htotal, List.nil_append, List.length_nil, Nat.sub_zero] at hout
    rw [if_pos hdone]
    simp only [hout]
    split
    next last hlast => exact ⟨_, rfl, rfl, cursor_total htotal hlast⟩
    next hnone => exact ⟨s.nextRepairSeq, rfl, rfl, cursor_none (by omega) hnone⟩

theorem missingSeqsBefore_spec (s : StripeSeqs) {endSeq : Nat} {limit : Int} (hlimit : 0 < limit)
    (hend : endSeq < 2 ^ 63) :
    ∃ cursor, (s.missingSeqsBefore endSeq limit).2 = { s with nextRepairSeq := cursor } ∧
      Scanned (unseen s.seen s.expectedSeq endSeq) s.nextRepairSeq limit.toNat
        (s.missingSeqsBefore endSeq limit).1 cursor := by
  rw [missingSeqsBefore]
  split
  next hnil =>
    refine ⟨s.nextRepairSeq, rfl, ?_⟩
    rw [unseen, show endSeq - s.expectedSeq = 0 by omega]
    exact Scanned.of_empty _ _
  next hsome =>
    have hout := scanSeqs_eq s.seen (spanSeqAt s.expectedSeq (endSeq - s.expectedSeq)
      (if s.nextRepairSeq < s.expectedSeq ∨ endSeq ≤ s.nextRepairSeq then s.expectedSeq
        else s.nextRepairSeq)) limit (endSeq - s.expectedSeq) 0 []
    rw [scan_span s.seen s.nextRepairSeq (by omega) hend, List.nil_append, List.length_nil, Nat.sub_zero] at hout
    simp only [hout]
    split
    next last hlast => exact ⟨_, rfl, rfl, cursor_span hend hlast⟩
    next hnone => exact ⟨s.nextRepairSeq, rfl, rfl, cursor_none (by omega) hnone⟩

end StripeSeqs

/-- At most `maxBatches` batches of at most `batchSize` numbers, none of them empty. -/
structure InBatches (batches : List (List Nat)) (batchSize maxBatches : Int) : Prop where
  length : (batches.length : Int) ≤ maxBatches
  batch : ∀ batch ∈ batches, batch ≠ [] ∧ (batch.length : Int) ≤ batchSize

theorem InBatches.nil {batchSize maxBatches : Int} (hmax : 0 < maxBatches) :
    InBatches [] batchSize maxBatches := ⟨by simpa using Int.le_of_lt hmax, by simp⟩

/-- The loop of a run's enumerator from its start. -/
theorem scanBatches_empty {seen : SeqSet} {seqAt : Nat → Nat} {batchSize maxBatches : Int}
    (hargs : BatchArgs batchSize maxBatches) {span : Nat} {order : List Nat}
    (horder : ((List.range' 0 span).map seqAt).filter (fun seq => !seen.has seq) = order) :
    let b := scanBatches seen seqAt batchSize maxBatches span 0 Batches.empty
    (b.close maxBatches).flatten = order.take (batchSize * maxBatches).toNat ∧
      b.last = (order.take (batchSize * maxBatches).toNat).getLast? ∧
      InBatches (b.close maxBatches) batchSize maxBatches := by
  have hprod := hargs.product_pos
  obtain ⟨hfilled, hfound⟩ := scanBatches_spec seen seqAt hargs span 0 Batches.empty
    (Batches.Filled.empty hargs.size) (by rw [show Batches.empty.found = [] from rfl]; simpa using hprod)
  rw [horder, show Batches.empty.found = [] from rfl, List.nil_append, List.length_nil,
    Nat.sub_zero] at hfound
  have hle : (scanBatches seen seqAt batchSize maxBatches span 0 Batches.empty).found.length ≤
      (batchSize * maxBatches).toNat := by
    rw [hfound]
    exact List.length_take_le _ _
  obtain ⟨hflat, hlen, hbatch⟩ := hfilled.close hargs hle
  exact ⟨hflat.trans hfound, by rw [hfilled.last, hfound], hlen, hbatch⟩

namespace RunSeqs

/-- The missing numbers of the run below the announced total. -/
def finalMissing (s : RunSeqs) : List Nat :=
  if s.done = true then unseen s.seen 0 s.totalPackets else []

/-- The missing numbers of the run below one that came. -/
def knownMissing (s : RunSeqs) : List Nat := unseen s.seen s.nextWriteSeq s.maxSeqPlusOne

variable {batchSize maxBatches : Int}

theorem missingSeqBatches_spec (s : RunSeqs) (hargs : BatchArgs batchSize maxBatches)
    (htotal : s.totalPackets < 2 ^ 63) :
    InBatches (s.missingSeqBatches batchSize maxBatches).1 batchSize maxBatches ∧
      ∃ cursor, (s.missingSeqBatches batchSize maxBatches).2 = { s with nextRepairSeq := cursor } ∧
        Scanned s.finalMissing s.nextRepairSeq (batchSize * maxBatches).toNat
          (s.missingSeqBatches batchSize maxBatches).1.flatten cursor := by
  have hpos := hargs.size
  have hmax := hargs.batches
  have hprod := hargs.product_pos
  rw [missingSeqBatches, finalMissing]
  split
  next hnil =>
    have hdone : s.done = false := hnil.resolve_right (by omega)
    rw [if_neg (by simp [hdone])]
    exact ⟨InBatches.nil hmax, s.nextRepairSeq, rfl, Scanned.of_empty _ _⟩
  next hsome =>
    have hdone : s.done = true := by
      cases hd : s.done with
      | true => rfl
      | false => exact absurd (.inl hd) hsome
    rw [if_neg (by omega), if_pos hdone]
    split
    next hzero =>
      refine ⟨InBatches.nil hmax, s.nextRepairSeq, rfl, ?_⟩
      rw [hzero]
      exact Scanned.of_empty _ _
    next hpos' =>
      obtain ⟨hout, hlast, hin⟩ := scanBatches_empty hargs
        (scan_total s.seen s.nextRepairSeq (Nat.pos_of_ne_zero hpos') htotal)
      refine ⟨hin, ?_⟩
      simp only [hout, hlast]
      split
      next last hlast => exact ⟨_, rfl, rfl, cursor_total htotal hlast⟩
      next hnone => exact ⟨s.nextRepairSeq, rfl, rfl, cursor_none (by omega) hnone⟩

theorem knownMissingSeqBatches_spec (s : RunSeqs) (hargs : BatchArgs batchSize maxBatches)
    (hlt : s.maxSeqPlusOne < 2 ^ 63) :
    InBatches (s.knownMissingSeqBatches batchSize maxBatches).1 batchSize maxBatches ∧
      ∃ cursor, (s.knownMissingSeqBatches batchSize maxBatches).2 = { s with nextRepairSeq := cursor } ∧
        Scanned s.knownMissing s.nextRepairSeq (batchSize * maxBatches).toNat
          (s.knownMissingSeqBatches batchSize maxBatches).1.flatten cursor := by
  have hpos := hargs.size
  have hmax := hargs.batches
  have hprod := hargs.product_pos
  rw [knownMissingSeqBatches, knownMissing]
  split
  next hnil =>
    rw [unseen, show s.maxSeqPlusOne - s.nextWriteSeq = 0 by omega]
    exact ⟨InBatches.nil hmax, s.nextRepairSeq, rfl, Scanned.of_empty _ _⟩
  next hsome =>
    have hspan : s.nextWriteSeq < s.maxSeqPlusOne := by omega
    rw [if_neg (by omega)]
    obtain ⟨hout, hlast, hin⟩ := scanBatches_empty hargs
      (scan_span s.seen s.nextRepairSeq hspan hlt)
    refine ⟨hin, ?_⟩
    simp only [hout, hlast]
    split
    next last hlast => exact ⟨_, rfl, rfl, cursor_span hlt hlast⟩
    next hnone => exact ⟨s.nextRepairSeq, rfl, rfl, cursor_none (by omega) hnone⟩

end RunSeqs

/-! ## Repeated calls -/

/-- An enumerator names missing numbers only, each once and at most `limit` of them, all of
them when they fit, and every one of them within one call more than they fill. -/
structure Enumerates {σ : Type} (call : σ → List Nat × σ) (missing : List Nat) (limit : Nat)
    (s : σ) : Prop where
  unseen : ∀ seq ∈ (call s).1, seq ∈ missing
  nodup : (call s).1.Nodup
  within : (call s).1.length ≤ limit
  all : missing.length ≤ limit → ∀ seq ∈ missing, seq ∈ (call s).1
  named : ∀ seq ∈ missing, ∃ i < (missing.length + limit - 1) / limit + 1,
    seq ∈ (call (afterCalls call i s)).1

section

variable {σ : Type} {call : σ → List Nat × σ} {I : σ → Prop} {missing : σ → List Nat}
  {cursor : σ → Nat} {limit : Nat} {s : σ}

/-- A call that only moves the cursor, and moves it behind what it returned. -/
theorem scans_of_scanned {m : σ → Nat → σ}
    (hcall : ∀ s, I s → ∃ c, (call s).2 = m s c ∧
      Scanned (missing s) (cursor s) limit (call s).1 c)
    (hcursor : ∀ s c, cursor (m s c) = c) (hmissing : ∀ s c, missing (m s c) = missing s)
    (hkeep : ∀ s c, I s → I (m s c)) :
    Scans call I (fun s => cyclicFrom (cursor s) (missing s)) limit := by
  constructor
  · intro s hs
    obtain ⟨c, _, hscan⟩ := hcall s hs
    exact hscan.out
  · intro s hs
    obtain ⟨c, hnext, hscan⟩ := hcall s hs
    simp only [hnext, hcursor, hmissing]
    exact hscan.next
  · intro s hs
    obtain ⟨c, hnext, _⟩ := hcall s hs
    rw [hnext]
    exact hkeep s c hs

theorem enumerates_of_scans
    (h : Scans call I (fun s => cyclicFrom (cursor s) (missing s)) limit) (hs : I s)
    (hnodup : (missing s).Nodup) (hpos : 0 < limit) : Enumerates call (missing s) limit s := by
  have hperm := cyclicFrom_perm (cursor s) (missing s)
  refine ⟨?_, ?_, ?_, ?_, ?_⟩
  · intro seq hseq
    rw [h.out s hs] at hseq
    exact hperm.mem_iff.mp (List.mem_of_mem_take hseq)
  · rw [h.out s hs]
    exact (hperm.nodup_iff.mpr hnodup).sublist (List.take_sublist _ _)
  · rw [h.out s hs]
    exact List.length_take_le _ _
  · intro hlen seq hseq
    rw [h.out s hs, List.take_of_length_le (by rw [length_cyclicFrom]; exact hlen)]
    exact hperm.mem_iff.mpr hseq
  · intro seq hseq
    obtain ⟨i, hi, hmem⟩ := h.mem_scan hs hpos (hperm.mem_iff.mpr hseq)
    rw [length_cyclicFrom] at hi
    exact ⟨i, Nat.lt_succ_of_lt hi, hmem⟩

end

namespace RunSeqs

/-- `missingSeqBatches` as one list. -/
def finalCall (batchSize maxBatches : Int) (s : RunSeqs) : List Nat × RunSeqs :=
  ((s.missingSeqBatches batchSize maxBatches).1.flatten, (s.missingSeqBatches batchSize maxBatches).2)

/-- `knownMissingSeqBatches` as one list. -/
def knownCall (batchSize maxBatches : Int) (s : RunSeqs) : List Nat × RunSeqs :=
  ((s.knownMissingSeqBatches batchSize maxBatches).1.flatten,
    (s.knownMissingSeqBatches batchSize maxBatches).2)

/-- The totals of the run are below `2 ^ 63`. -/
def Small (s : RunSeqs) : Prop := s.totalPackets < 2 ^ 63 ∧ s.maxSeqPlusOne < 2 ^ 63

variable {batchSize maxBatches : Int}

theorem finalCall_scans (hargs : BatchArgs batchSize maxBatches) :
    Scans (finalCall batchSize maxBatches) Small (fun s => cyclicFrom s.nextRepairSeq s.finalMissing)
      (batchSize * maxBatches).toNat :=
  scans_of_scanned (m := fun s c => { s with nextRepairSeq := c })
    (fun s hs => (s.missingSeqBatches_spec hargs hs.1).2) (fun _ _ => rfl) (fun _ _ => rfl)
    fun _ _ hs => hs

theorem knownCall_scans (hargs : BatchArgs batchSize maxBatches) :
    Scans (knownCall batchSize maxBatches) Small (fun s => cyclicFrom s.nextRepairSeq s.knownMissing)
      (batchSize * maxBatches).toNat :=
  scans_of_scanned (m := fun s c => { s with nextRepairSeq := c })
    (fun s hs => (s.knownMissingSeqBatches_spec hargs hs.2).2) (fun _ _ => rfl) (fun _ _ => rfl)
    fun _ _ hs => hs

theorem finalMissing_nodup (s : RunSeqs) : s.finalMissing.Nodup := nodup_ite_unseen _ _ _ _

end RunSeqs

namespace StripeSeqs

/-- The totals of the stripe are below `2 ^ 63`. -/
def Small (s : StripeSeqs) : Prop := s.totalPackets < 2 ^ 63 ∧ s.maxSeqPlusOne < 2 ^ 63

variable {limit : Int}

theorem finalMissing_nodup (s : StripeSeqs) : s.finalMissing.Nodup := nodup_ite_unseen _ _ _ _

theorem missingSeqs_enumerates (hlimit : 0 < limit) {s : StripeSeqs} (hs : s.Small) :
    Enumerates (missingSeqs · limit) s.finalMissing limit.toNat s := by
  have hscans : Scans (missingSeqs · limit) Small
      (fun s => cyclicFrom s.nextRepairSeq s.finalMissing) limit.toNat :=
    scans_of_scanned (m := fun s c => { s with nextRepairSeq := c })
      (fun s hs => s.missingSeqs_spec hlimit hs.1) (fun _ _ => rfl) (fun _ _ => rfl) fun _ _ hs => hs
  exact enumerates_of_scans hscans hs s.finalMissing_nodup (by omega)

theorem missingSeqsBefore_enumerates (hlimit : 0 < limit) (s : StripeSeqs) {endSeq : Nat}
    (hend : endSeq < 2 ^ 63) :
    Enumerates (missingSeqsBefore · endSeq limit) (unseen s.seen s.expectedSeq endSeq) limit.toNat s := by
  have hscans : Scans (missingSeqsBefore · endSeq limit) (fun _ => True)
      (fun s => cyclicFrom s.nextRepairSeq (unseen s.seen s.expectedSeq endSeq)) limit.toNat :=
    scans_of_scanned (m := fun s c => { s with nextRepairSeq := c })
      (fun s _ => s.missingSeqsBefore_spec hlimit hend) (fun _ _ => rfl) (fun _ _ => rfl)
      fun _ _ hs => hs
  exact enumerates_of_scans hscans trivial (unseen_nodup _ _ _) (by omega)

theorem knownMissingSeqs_enumerates (hlimit : 0 < limit) {s : StripeSeqs} (hs : s.Small) :
    Enumerates (knownMissingSeqs · limit) (unseen s.seen s.expectedSeq s.maxSeqPlusOne) limit.toNat
      s := by
  have hscans : Scans (knownMissingSeqs · limit) Small
      (fun s => cyclicFrom s.nextRepairSeq (unseen s.seen s.expectedSeq s.maxSeqPlusOne))
      limit.toNat :=
    scans_of_scanned (m := fun s c => { s with nextRepairSeq := c })
      (fun s hs => s.missingSeqsBefore_spec hlimit hs.2) (fun _ _ => rfl) (fun _ _ => rfl)
      fun _ _ hs => hs
  exact enumerates_of_scans hscans hs (unseen_nodup _ _ _) (by omega)

end StripeSeqs

/-- Every enumerator names missing numbers only, all of them when they fit its limit and every one of
them over repeated calls. -/
theorem repair_enumeration {s : RunSeqs} {st : StripeSeqs} {endSeq : Nat}
    {batchSize maxBatches limit : Int} (hs : s.Small) (hst : st.Small) (hend : endSeq < 2 ^ 63)
    (hargs : BatchArgs batchSize maxBatches) (hlimit : 0 < limit) :
    (InBatches (s.missingSeqBatches batchSize maxBatches).1 batchSize maxBatches ∧
        Enumerates (RunSeqs.finalCall batchSize maxBatches) s.finalMissing
          (batchSize * maxBatches).toNat s) ∧
      (InBatches (s.knownMissingSeqBatches batchSize maxBatches).1 batchSize maxBatches ∧
        Enumerates (RunSeqs.knownCall batchSize maxBatches) s.knownMissing
          (batchSize * maxBatches).toNat s) ∧
      Enumerates (StripeSeqs.missingSeqs · limit) st.finalMissing limit.toNat st ∧
      Enumerates (StripeSeqs.missingSeqsBefore · endSeq limit)
        (unseen st.seen st.expectedSeq endSeq) limit.toNat st ∧
      Enumerates (StripeSeqs.knownMissingSeqs · limit)
        (unseen st.seen st.expectedSeq st.maxSeqPlusOne) limit.toNat st := by
  have hprod := hargs.product_pos
  refine ⟨⟨(s.missingSeqBatches_spec hargs hs.1).1, ?_⟩,
    ⟨(s.knownMissingSeqBatches_spec hargs hs.2).1, ?_⟩, StripeSeqs.missingSeqs_enumerates hlimit hst,
    StripeSeqs.missingSeqsBefore_enumerates hlimit st hend,
    StripeSeqs.knownMissingSeqs_enumerates hlimit hst⟩
  · exact enumerates_of_scans (RunSeqs.finalCall_scans hargs) hs s.finalMissing_nodup (by omega)
  · exact enumerates_of_scans (RunSeqs.knownCall_scans hargs) hs (unseen_nodup _ _ _) (by omega)

/-- Seven packets were announced and three came, and the cursor is in the middle. -/
def gapped : RunSeqs where
  seen := (((SeqSet.empty.add 0).1.add 3).1.add 5).1
  nextWriteSeq := 1
  maxSeqPlusOne := 6
  done := true
  totalPackets := 7
  totalBytes := 0
  nextRepairSeq := 4

def gappedStripe : StripeSeqs where
  seen := gapped.seen
  expectedSeq := 1
  maxSeqPlusOne := 6
  done := false
  terminalSeen := true
  totalPackets := 7
  nextRepairSeq := 6

theorem repair_enumeration_gapped :
    Enumerates (RunSeqs.finalCall maxRepairRequestSeqs maxRepairRequestBatches) [1, 2, 4, 6] 512 gapped ∧
      Enumerates (RunSeqs.finalCall 1 3) [1, 2, 4, 6] 3 gapped ∧
      Enumerates (StripeSeqs.knownMissingSeqs · 2) [1, 2, 4] 2 gappedStripe ∧
      (RunSeqs.finalCall 1 3 gapped).1 = [4, 6, 1] := by
  have hcode := @repair_enumeration gapped gappedStripe 5 _ _ 2 ⟨by decide, by decide⟩
    ⟨by decide, by decide⟩ (by decide) repairRequestArgs (by decide)
  have hsmall := @repair_enumeration gapped gappedStripe 5 1 3 2 ⟨by decide, by decide⟩
    ⟨by decide, by decide⟩ (by decide) ⟨by decide, by decide, by decide⟩ (by decide)
  exact ⟨hcode.1.2, hsmall.1.2, hsmall.2.2.2.2, by decide +kernel⟩

end Probe
