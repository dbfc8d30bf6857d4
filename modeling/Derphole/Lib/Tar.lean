import Derphole.Lib.FileSystem

/-!
# Writing a tar archive

The writer of Go's `archive/tar` over headers of any type.  A header says how
many bytes follow it.  They are padded to a multiple of 512, and the padding is
written when the next header is, or when the archive is closed.  Closing writes
1024 bytes more.

How many bytes a header itself takes, or with which error it is refused,
depends on the header alone: that is `Format`.  Bytes are counted, and what they
say is kept as the list of the entries, since the reader of `archive/tar` gives
back what the writer was given.
-/

namespace Tar

open FileSystem Lib

variable {η : Type}

structure Format (η : Type) where
  size : η → Nat
  headerBytes : η → Except Err Nat

/-- `left` bytes of the current entry are still to be written, `pad` bytes
follow it.  The entries stand newest first. -/
structure Writer (η : Type) where
  written : Nat
  left : Nat
  pad : Nat
  log : List (η × List UInt8)

def newWriter : Writer η := ⟨0, 0, 0, []⟩

/-- The bytes written once the padding is. -/
def Writer.total (w : Writer η) : Nat := w.written + w.pad

/-- What brings a size to a multiple of 512. -/
def blockPadding (size : Nat) : Nat := (512 - size % 512) % 512

def flush : Prog (Writer η) Err Unit := fun w =>
  if 0 < w.left then (.error (.errorf "archive/tar: missed writing %d bytes" []), w)
  else (.ok (), { w with written := w.written + w.pad, pad := 0 })

def writeHeader (fmt : Format η) (hdr : η) : Prog (Writer η) Err Unit := do
  flush
  match fmt.headerBytes hdr with
  | .error e => fail e
  | .ok n =>
      update fun w =>
        ⟨w.written + n, fmt.size hdr, blockPadding (fmt.size hdr), (hdr, []) :: w.log⟩

/-- The newest entry grows. -/
def addData (data : List UInt8) : List (η × List UInt8) → List (η × List UInt8)
  | [] => []
  | (hdr, old) :: log => (hdr, old ++ data) :: log

/-- No more is written than the header announced. -/
def write (data : List UInt8) : Prog (Writer η) Err Unit := fun w =>
  (if w.left < data.length then .error (.text "archive/tar: write too long") else .ok (),
    { w with
      written := w.written + (data.take w.left).length
      left := w.left - (data.take w.left).length
      log := addData (data.take w.left) w.log })

def close : Prog (Writer η) Err Unit := do
  flush
  update fun w => { w with written := w.written + 1024 }

/-! ## Between two entries -/

variable {fmt : Format η} {w : Writer η}

theorem exec_flush (h : w.left = 0) :
    exec flush w = (.ok (), { w with written := w.total, pad := 0 }) := by
  simp [exec, ExceptT.run, flush, h, Writer.total]

theorem exec_writeHeader_ok (h : w.left = 0) {hdr : η} {n : Nat}
    (hn : fmt.headerBytes hdr = .ok n) :
    exec (writeHeader fmt hdr) w =
      (.ok (), ⟨w.total + n, fmt.size hdr, blockPadding (fmt.size hdr), (hdr, []) :: w.log⟩) := by
  rw [writeHeader, exec_bind_ok (exec_flush h), hn, exec_update]

/-- A header is written only when it can be. -/
theorem writeHeader_triple (h : w.left = 0) (hdr : η) :
    Triple (· = w) (writeHeader fmt hdr)
      (fun _ w' => ∃ n, fmt.headerBytes hdr = .ok n ∧
        w' = ⟨w.total + n, fmt.size hdr, blockPadding (fmt.size hdr), (hdr, []) :: w.log⟩)
      fun _ _ => True := by
  rintro _ rfl
  cases hn : fmt.headerBytes hdr with
  | error e =>
      rw [writeHeader, exec_bind_ok (exec_flush h), hn]
      trivial
  | ok n =>
      rw [exec_writeHeader_ok h hn]
      exact ⟨n, rfl, rfl⟩

/-- All the bytes that the newest header announced. -/
theorem exec_write {data : List UInt8} {hdr : η} {log : List (η × List UInt8)}
    (hleft : w.left = data.length) (hlog : w.log = (hdr, []) :: log) :
    exec (write data) w = (.ok (), ⟨w.written + data.length, 0, w.pad, (hdr, data) :: log⟩) := by
  simp [exec, ExceptT.run, write, hleft, hlog, addData]

theorem exec_close (h : w.left = 0) :
    exec close w = (.ok (), ⟨w.total + 1024, 0, 0, w.log⟩) := by
  rw [close, exec_bind_ok (exec_flush h), exec_update, ← h]

end Tar
