import Derphole.Lib.BigEndian

/-!
# Fields of fixed size

A message format lists fields of fixed size.  `Codec` is one field: a value and its bytes, each
of which gives the other.  `Reader.read` and `Reader.readFull` take a field off the front of what
is left to read, as `bytes.Reader.Read` and `io.ReadFull` do in Go.  A message is decoded field by
field, so the two lemmas at the end of this file are all that a format needs.
-/

namespace Lib

/-- Go's `copy` into a new array: the bytes that fit, and zeros behind them. -/
def copyInto (n : Nat) (src : List UInt8) : Vector UInt8 n := Vector.ofFn fun i => src.getD i 0

section

variable {n : Nat}

theorem copyInto_toList (v : Vector UInt8 n) : copyInto n v.toList = v := by
  ext i hi
  simp [copyInto]

theorem toList_copyInto {bytes : List UInt8} (h : bytes.length = n) : (copyInto n bytes).toList = bytes := by
  refine List.ext_getElem (by simp [h]) fun i hi hi' => ?_
  simp [copyInto, hi']

/-- An array is read back from the front of a longer one. -/
theorem copyInto_take_copyInto {m : Nat} (h : n ≤ m) (v : Vector UInt8 n) :
    copyInto n ((copyInto m v.toList).toList.take n) = v := by
  ext i hi
  simp [copyInto, Nat.lt_of_lt_of_le hi h]

end

/-- A field of `size` bytes. -/
structure Codec (α : Type) where
  size : Nat
  pos : 0 < size
  write : α → List UInt8
  ofBytes : List UInt8 → α
  length_write : ∀ a, (write a).length = size
  ofBytes_write : ∀ a, ofBytes (write a) = a
  write_ofBytes : ∀ bytes, bytes.length = size → write (ofBytes bytes) = bytes

namespace Codec

attribute [simp] length_write ofBytes_write

variable {α : Type}

/-- An array of bytes. -/
def array (n : Nat) (h : 0 < n) : Codec (Vector UInt8 n) where
  size := n
  pos := h
  write := Vector.toList
  ofBytes := copyInto n
  length_write := fun _ => Vector.length_toList
  ofBytes_write := copyInto_toList
  write_ofBytes := fun _ => toList_copyInto

section

variable {k : Nat} (hk : 0 < k) (toNat : α → Nat) (ofNat : Nat → α) (hlt : ∀ a, toNat a < 256 ^ k)
  (hof : ∀ a, ofNat (toNat a) = a) (hto : ∀ n < 256 ^ k, toNat (ofNat n) = n)

/-- A number of `k` bytes, in big-endian order. -/
def number : Codec α where
  size := k
  pos := hk
  write := fun a => bigEndian k (toNat a)
  ofBytes := fun bytes => ofNat (ofBigEndian bytes)
  length_write := fun a => length_bigEndian k _
  ofBytes_write := by
    intro a
    rw [ofBigEndian_bigEndian_of_lt (hlt a), hof]
  write_ofBytes := by
    intro bytes hlen
    have hsmall := ofBigEndian_lt bytes
    rw [hlen] at hsmall
    rw [hto _ hsmall, ← hlen, bigEndian_ofBigEndian]

end

def uint8 : Codec UInt8 :=
  number Nat.one_pos UInt8.toNat UInt8.ofNat (fun a => a.toNat_lt) (fun _ => UInt8.ofNat_toNat)
    fun _ h => UInt8.toNat_ofNat_of_lt' h

def uint16 : Codec UInt16 :=
  number Nat.two_pos UInt16.toNat UInt16.ofNat (fun a => a.toNat_lt) (fun _ => UInt16.ofNat_toNat)
    fun _ h => UInt16.toNat_ofNat_of_lt' h

def uint32 : Codec UInt32 :=
  number (show 0 < 4 by omega) UInt32.toNat UInt32.ofNat (fun a => a.toNat_lt)
    (fun _ => UInt32.ofNat_toNat) fun _ h => UInt32.toNat_ofNat_of_lt' h

def uint64 : Codec UInt64 :=
  number (show 0 < 8 by omega) UInt64.toNat UInt64.ofNat (fun a => a.toNat_lt)
    (fun _ => UInt64.ofNat_toNat) fun _ h => UInt64.toNat_ofNat_of_lt' h

/-- A signed number is written as its bit pattern. -/
def int64 : Codec Int64 :=
  number (show 0 < 8 by omega) (fun a => a.toUInt64.toNat) (fun n => (UInt64.ofNat n).toInt64)
    (fun a => a.toUInt64.toNat_lt) (fun a => by simp) fun n h => UInt64.toNat_ofNat_of_lt' h

@[simp] theorem size_array (n : Nat) (h : 0 < n) : (array n h).size = n := rfl

@[simp] theorem size_uint8 : uint8.size = 1 := rfl

@[simp] theorem size_uint16 : uint16.size = 2 := rfl

@[simp] theorem size_uint32 : uint32.size = 4 := rfl

@[simp] theorem size_uint64 : uint64.size = 8 := rfl

@[simp] theorem size_int64 : int64.size = 8 := rfl

end Codec

namespace Reader

inductive Error where
  | eof
  | unexpectedEOF
  deriving DecidableEq

variable {α : Type} (c : Codec α)

/-- `bytes.Reader.Read` into a field: a short read leaves the rest of it zero, and only an empty
reader is an error. -/
def read (r : List UInt8) : Except Error (α × List UInt8) :=
  if r = [] then .error .eof
  else .ok (c.ofBytes ((r ++ List.replicate c.size 0).take c.size), r.drop c.size)

/-- `io.ReadFull` of a field. -/
def readFull (r : List UInt8) : Except Error (α × List UInt8) :=
  if r = [] then .error .eof
  else if r.length < c.size then .error .unexpectedEOF
  else .ok (c.ofBytes (r.take c.size), r.drop c.size)

/-- `io.ReadFull` into a buffer of `n` bytes.  An empty buffer is always filled. -/
def readBytes (n : Nat) (r : List UInt8) : Except Error (List UInt8 × List UInt8) :=
  if n ≤ r.length then .ok (r.take n, r.drop n)
  else if r = [] then .error .eof
  else .error .unexpectedEOF

variable {c} {r rest : List UInt8} {a : α}

/-- Where there is enough to read, both do the same. -/
theorem read_eq_readFull (h : c.size ≤ r.length) : read c r = readFull c r := by
  rw [read, readFull, if_neg (Nat.not_lt.mpr h), List.take_append_of_le_length h]

theorem readFull_append (a : α) (rest : List UInt8) :
    readFull c (c.write a ++ rest) = .ok (a, rest) := by
  have hlen : (c.write a).length = c.size := c.length_write a
  have hne : c.write a ++ rest ≠ [] := by
    intro h
    have hpos := c.pos
    rw [(List.append_eq_nil_iff.mp h).1] at hlen
    simp at hlen
    omega
  rw [readFull, if_neg hne, if_neg (by rw [List.length_append]; omega), List.take_left' hlen,
    List.drop_left' hlen, c.ofBytes_write]

/-- What was read stands at the front. -/
theorem eq_append_of_readFull (h : readFull c r = .ok (a, rest)) : r = c.write a ++ rest := by
  rw [readFull] at h
  split at h
  · cases h
  · split at h
    · cases h
    · rename_i hlen
      cases h
      rw [c.write_ofBytes _ (by rw [List.length_take]; omega), List.take_append_drop]

/-- A field of which only `k` bytes with what follows are there. -/
theorem readFull_take (a : α) (rest : List UInt8) (k : Nat) :
    readFull c ((c.write a ++ rest).take k) =
      if k = 0 then .error .eof
      else if k < c.size then .error .unexpectedEOF
      else .ok (a, rest.take (k - c.size)) := by
  have hlen : (c.write a).length = c.size := c.length_write a
  have hpos := c.pos
  by_cases hk : k = 0
  · rw [if_pos hk, hk, List.take_zero, readFull, if_pos rfl]
  rw [if_neg hk]
  by_cases hcut : k < c.size
  · have hshort : ((c.write a ++ rest).take k).length = k := by
      rw [List.length_take, List.length_append]
      omega
    have hne : (c.write a ++ rest).take k ≠ [] := by
      rw [← List.length_pos_iff]
      omega
    rw [if_pos hcut, readFull, if_neg hne, if_pos (by omega)]
  · rw [if_neg hcut, List.take_append, hlen, List.take_of_length_le (by omega), readFull_append]

theorem readBytes_append (bytes rest : List UInt8) :
    readBytes bytes.length (bytes ++ rest) = .ok (bytes, rest) := by
  simp [readBytes]

theorem readBytes_take (bytes : List UInt8) (k : Nat) :
    readBytes bytes.length (bytes.take k) =
      if bytes.length ≤ k then .ok (bytes, [])
      else if k = 0 then .error .eof
      else .error .unexpectedEOF := by
  by_cases hk : bytes.length ≤ k
  · simp [readBytes, hk, List.take_of_length_le hk]
  · have hshort : ¬ bytes.length ≤ (bytes.take k).length := by
      rw [List.length_take]
      omega
    rw [readBytes, if_neg hshort, if_neg hk]
    by_cases hzero : k = 0
    · simp [hzero]
    · have hne : bytes ≠ [] := List.length_pos_iff.mp (by omega)
      simp [hzero, hne]

/-- The bytes that were read stand at the front, and they are as many as asked for. -/
theorem eq_append_of_readBytes {n : Nat} {bytes : List UInt8}
    (h : readBytes n r = .ok (bytes, rest)) : r = bytes ++ rest ∧ bytes.length = n := by
  rw [readBytes] at h
  split at h
  · rename_i hn
    cases h
    exact ⟨(List.take_append_drop n r).symm, List.length_take_of_le hn⟩
  · split at h <;> cases h

theorem read_append (a : α) (rest : List UInt8) : read c (c.write a ++ rest) = .ok (a, rest) := by
  rw [read_eq_readFull (by simp), readFull_append]

theorem eq_append_of_read (hlen : c.size ≤ r.length) (h : read c r = .ok (a, rest)) :
    r = c.write a ++ rest := by
  rw [read_eq_readFull hlen] at h
  exact eq_append_of_readFull h

end Reader

end Lib
