import Derphole.Lib.BigEndian
import Derphole.Lib.Codec

/-!
# Frames of a striped copy

`pkg/session/external_striped.go` cuts a stream into numbered chunks and sends each chunk as
a frame over one of several connections.  A connection is a list of bytes with an end: it
is closed, or reading it fails.  Here are the two ends of one connection, and what the bytes
of a connection amount to (`frames`) when they are read to their end.

`io.ReadFull` says `io.EOF` when nothing at all could be read.  That is how a reader knows
that its connection was closed between two frames, but `readExternalStripedChunk` also
returns it when a connection ends after the header of a frame that has data.
-/

namespace Session

open Lib

def externalStripedFrameHeaderSize : Nat := 12

structure ExternalStripedChunk where
  seq : Nat
  data : List UInt8
  deriving DecidableEq, Repr

/-- What can still be read from a connection, and whether it fails after that. -/
structure Stream where
  bytes : List UInt8
  fails : Bool
  deriving DecidableEq, Repr

inductive ReadErr where
  | eof
  | unexpectedEOF
  /-- An error of the connection. -/
  | conn
  deriving DecidableEq, Repr

/-- What `io.ReadFull` makes of the end of a connection that was closed. -/
def ReadErr.ofReader : Reader.Error → ReadErr
  | .eof => .eof
  | .unexpectedEOF => .unexpectedEOF

/-- `io.ReadFull` into a buffer of `n` bytes, from a connection that may fail. -/
def readFull (src : Stream) (n : Nat) : Except ReadErr (List UInt8) × Stream :=
  match Reader.readBytes n src.bytes with
  | .ok (bytes, rest) => (.ok bytes, { src with bytes := rest })
  | .error err => (.error (if src.fails then .conn else .ofReader err), { src with bytes := [] })

def writeExternalStripedChunk (chunk : ExternalStripedChunk) : List UInt8 :=
  bigEndian 8 chunk.seq ++ bigEndian 4 chunk.data.length ++ chunk.data

def readExternalStripedChunk (chunkSize : Nat) (src : Stream) :
    Except ReadErr ExternalStripedChunk × Stream :=
  match readFull src externalStripedFrameHeaderSize with
  | (.error e, src) => (.error e, src)
  | (.ok header, src) =>
      let n := ofBigEndian (header.drop 8)
      if chunkSize < n then (.error .unexpectedEOF, src)
      else
        match readFull src n with
        | (.error e, src) => (.error e, src)
        | (.ok data, src) => (.ok ⟨ofBigEndian (header.take 8), data⟩, src)

/-! ## Reading to the end -/

/-- At most `fuel` frames, and why there are no more. -/
def readFrames (chunkSize : Nat) : Nat → Stream → List ExternalStripedChunk × ReadErr
  | 0, _ => ([], .eof)
  | fuel + 1, src =>
      match readExternalStripedChunk chunkSize src with
      | (.error e, _) => ([], e)
      | (.ok chunk, rest) =>
          (chunk :: (readFrames chunkSize fuel rest).1, (readFrames chunkSize fuel rest).2)

/-- All frames that a reader finds in a connection, and its last error. -/
def frames (chunkSize : Nat) (src : Stream) : List ExternalStripedChunk × ReadErr :=
  readFrames chunkSize (src.bytes.length + 1) src

section

variable {chunkSize n : Nat} {src rest : Stream} {chunk : ExternalStripedChunk}

theorem readFull_ok {bytes : List UInt8} (h : readFull src n = (.ok bytes, rest)) :
    rest.fails = src.fails ∧ rest.bytes.length + n = src.bytes.length ∧ src.bytes = bytes ++ rest.bytes ∧
      bytes.length = n := by
  rw [readFull] at h
  split at h
  next hread =>
    cases h
    obtain ⟨hbytes, hlength⟩ := Reader.eq_append_of_readBytes hread
    refine ⟨rfl, ?_, hbytes, hlength⟩
    rw [hbytes, List.length_append, hlength]
    exact Nat.add_comm _ _
  next => cases h

theorem readFull_append (bytes more : List UInt8) (fails : Bool) :
    readFull ⟨bytes ++ more, fails⟩ bytes.length = (.ok bytes, ⟨more, fails⟩) := by
  simp [readFull, Reader.readBytes_append]

/-- A frame takes at least a header. -/
theorem readExternalStripedChunk_length (h : readExternalStripedChunk chunkSize src = (.ok chunk, rest)) :
    rest.bytes.length < src.bytes.length := by
  rw [readExternalStripedChunk] at h
  split at h
  · cases h
  · rename_i header src' hheader
    obtain ⟨-, hlength, -⟩ := readFull_ok hheader
    dsimp only at h
    split at h
    · cases h
    · split at h
      · cases h
      · rename_i data src'' hdata
        obtain ⟨-, hlength', -⟩ := readFull_ok hdata
        cases h
        rw [externalStripedFrameHeaderSize] at hlength
        omega

/-- What was written is read back. -/
theorem readExternalStripedChunk_write (hseq : chunk.seq < 2 ^ 64) (hdata : chunk.data.length < 2 ^ 32)
    (hsize : chunk.data.length ≤ chunkSize) (more : List UInt8) (fails : Bool) :
    readExternalStripedChunk chunkSize ⟨writeExternalStripedChunk chunk ++ more, fails⟩ =
      (.ok chunk, ⟨more, fails⟩) := by
  have hheader : (bigEndian 8 chunk.seq ++ bigEndian 4 chunk.data.length).length =
      externalStripedFrameHeaderSize := by
    simp [externalStripedFrameHeaderSize]
  have hread := readFull_append (bigEndian 8 chunk.seq ++ bigEndian 4 chunk.data.length)
    (chunk.data ++ more) fails
  rw [hheader] at hread
  have hn : ofBigEndian ((bigEndian 8 chunk.seq ++ bigEndian 4 chunk.data.length).drop 8) =
      chunk.data.length := by
    rw [List.drop_left' (by simp)]
    exact ofBigEndian_bigEndian_of_lt (by simpa using hdata)
  have hs : ofBigEndian ((bigEndian 8 chunk.seq ++ bigEndian 4 chunk.data.length).take 8) = chunk.seq := by
    rw [List.take_left' (by simp)]
    exact ofBigEndian_bigEndian_of_lt (by simpa using hseq)
  rw [writeExternalStripedChunk, List.append_assoc _ chunk.data, readExternalStripedChunk, hread]
  simp only [hn, hs, Nat.not_lt.mpr hsize, if_false, readFull_append]

/-- More fuel than bytes is enough. -/
theorem readFrames_eq {fuel : Nat} (fuel' : Nat) (h : src.bytes.length < fuel) (h' : src.bytes.length < fuel') :
    readFrames chunkSize fuel src = readFrames chunkSize fuel' src := by
  induction fuel generalizing fuel' src with
  | zero => omega
  | succ fuel ih =>
      cases fuel' with
      | zero => omega
      | succ fuel' =>
          rw [readFrames, readFrames]
          split
          · rfl
          · rename_i hread
            have hlength := readExternalStripedChunk_length hread
            rw [ih fuel' (by omega) (by omega)]

theorem frames_ok (h : readExternalStripedChunk chunkSize src = (.ok chunk, rest)) :
    frames chunkSize src = (chunk :: (frames chunkSize rest).1, (frames chunkSize rest).2) := by
  have hlength := readExternalStripedChunk_length h
  rw [frames, readFrames, h, frames]
  dsimp only
  rw [readFrames_eq (rest.bytes.length + 1) hlength (by omega)]

theorem frames_error {e : ReadErr} (h : readExternalStripedChunk chunkSize src = (.error e, rest)) :
    frames chunkSize src = ([], e) := by
  rw [frames, readFrames, h]

end

/-! ## Complete connections -/

/-- A connection that consists of complete frames and is then closed. -/
structure Framed (chunkSize : Nat) (src : Stream) (chunks : List ExternalStripedChunk) : Prop where
  bytes : src.bytes = (chunks.map writeExternalStripedChunk).flatten
  closed : src.fails = false
  seq : ∀ c ∈ chunks, c.seq < 2 ^ 64
  size : ∀ c ∈ chunks, c.data.length ≤ chunkSize ∧ c.data.length < 2 ^ 32

/-- Its frames are found. -/
theorem Framed.frames {chunkSize : Nat} {src : Stream} {chunks : List ExternalStripedChunk}
    (h : Framed chunkSize src chunks) : frames chunkSize src = (chunks, .eof) := by
  obtain ⟨bytes, fails⟩ := src
  obtain ⟨hbytes, hclosed, hseq, hsize⟩ := h
  cases hbytes
  cases hclosed
  induction chunks with
  | nil => rfl
  | cons c cs ih =>
      have hc := hsize c List.mem_cons_self
      have hread := readExternalStripedChunk_write (hseq c List.mem_cons_self) hc.2 hc.1
        ((cs.map writeExternalStripedChunk).flatten) false
      have hrest := ih (fun d hd => hseq d (List.mem_cons_of_mem c hd))
        fun d hd => hsize d (List.mem_cons_of_mem c hd)
      rw [List.map_cons, List.flatten_cons, frames_ok hread, hrest]

end Session
