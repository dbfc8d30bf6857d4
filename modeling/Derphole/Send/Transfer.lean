import Derphole.Lib.BigEndian
import Derphole.Lib.Json
import Derphole.Send.Tar

/-!
# The declared size of a transfer

`prepareSendTransfer`, `transferSessionExpectedBytes` and
`writeTransferWithProgress` of `pkg/derphole/transfer.go`, the header of
`pkg/derphole/protocol/header.go` and `VerificationString` of
`pkg/derphole/ui.go`.

A session is told how many bytes to expect before the header can be written:
when the transfer is offered, the token is not known yet, and a placeholder
stands for the verification string.  The header is JSON, so what matters is that
a verification string is as long as the placeholder and needs no escape; both
are fields of `Verification`.

Sizes are `int64`.  The count of a directory is a sum over its entries and wraps
around.  `declared_iff` says what is left of the declared size then.

What is printed and the progress reports are left out.
-/

namespace Derphole

open Filepath FileSystem FileTree Lib

variable {μ : Type}

/-! ## The header -/

inductive TransferKind where
  | text
  | file
  | directoryTar
  deriving DecidableEq

def TransferKind.name : TransferKind → String
  | text => "text"
  | file => "file"
  | directoryTar => "directory_tar"

/-- `protocol.Header`. -/
structure Header where
  version : UInt8
  kind : TransferKind
  name : List UInt8
  size : Int64
  verify : List UInt8
  metadata : List UInt8

def magic : List UInt8 := ascii "DERPHOLE1"

def maxHeaderSize : Nat := 1048576

/-- The fields before the verification string. -/
def Header.leading (h : Header) : List (String × List UInt8) :=
  [("version", decimal h.version.toNat), ("kind", Json.quote (ascii h.kind.name))] ++
    Json.omitEmpty (h.name == []) "name" (Json.quote h.name) ++
    Json.omitEmpty (h.size == 0) "size" (Json.number h.size)

/-- `json.Marshal` of a header. -/
def Header.marshal (h : Header) : List UInt8 :=
  Json.object
    (h.leading ++ Json.omitEmpty (h.verify == []) "verify" (Json.quote h.verify) ++
      Json.omitEmpty (h.metadata == []) "metadata" (Json.quoteBytes h.metadata))

def errHeaderTooLarge : Err := .errorf "header too large: %d bytes" []

def headerWireSize (h : Header) : Except Err Int64 :=
  if maxHeaderSize < h.marshal.length then .error errHeaderTooLarge
  else .ok (Int64.ofNat (magic.length + 4 + h.marshal.length))

/-- The bytes that `WriteHeader` writes. -/
def writeHeader (h : Header) : Except Err (List UInt8) :=
  if maxHeaderSize < h.marshal.length then .error errHeaderTooLarge
  else .ok (magic ++ bigEndian 4 h.marshal.length ++ h.marshal)

/-! ## The verification string -/

def verificationPlaceholder : List UInt8 := ascii "0000-0000-0000"

/-- A verification string: as long as the placeholder, and without a character
that JSON escapes. -/
structure Verification where
  text : List UInt8
  length : text.length = verificationPlaceholder.length
  plain : ∀ b ∈ text, Json.Plain b

/-- `strings.ToUpper` of a byte. -/
def toUpper (b : UInt8) : UInt8 := if 97 ≤ b ∧ b ≤ 122 then b - 32 else b

/-- Three groups of four digits. -/
def dashed (hexed : List UInt8) : List UInt8 :=
  hexed.take 4 ++ 45 :: (hexed.drop 4).take 4 ++ 45 :: (hexed.drop 8).take 4

theorem plain_toUpper_hexDigit : ∀ n < 16, Json.Plain (toUpper (hexDigit n)) := by decide

theorem plain_of_mem_hexEncode {bytes : List UInt8} :
    ∀ b ∈ (hexEncode bytes).map toUpper, Json.Plain b := by
  intro b hb
  obtain ⟨c, hc, rfl⟩ := List.mem_map.mp hb
  obtain ⟨x, -, hx⟩ := List.mem_flatMap.mp hc
  have hlt := x.toNat_lt
  simp only [List.mem_cons, List.not_mem_nil, or_false] at hx
  rcases hx with rfl | rfl
  · exact plain_toUpper_hexDigit _ (by omega)
  · exact plain_toUpper_hexDigit _ (by omega)

theorem length_hexEncode (bytes : List UInt8) : (hexEncode bytes).length = 2 * bytes.length := by
  induction bytes with
  | nil => rfl
  | cons b bytes ih =>
      rw [hexEncode, List.flatMap_cons, List.length_append, ← hexEncode, ih]
      simp only [List.length_cons, List.length_nil]
      omega

/-- The hash is any function to 32 bytes. -/
def verificationString (sha256 : List UInt8 → Vector UInt8 32) (token : List UInt8) :
    Verification where
  text := dashed ((hexEncode ((sha256 (ascii "derphole-verify:" ++ token)).toList.take 6)).map
    toUpper)
  length := by
    simp [dashed, length_hexEncode, verificationPlaceholder, ascii]
  plain := by
    intro b hb
    simp only [dashed, List.mem_append, List.mem_cons] at hb
    rcases hb with (hb | rfl | hb) | rfl | hb
    · exact plain_of_mem_hexEncode b (List.mem_of_mem_take hb)
    · decide
    · exact plain_of_mem_hexEncode b (List.mem_of_mem_drop (List.mem_of_mem_take hb))
    · decide
    · exact plain_of_mem_hexEncode b (List.mem_of_mem_drop (List.mem_of_mem_take hb))

/-! ## A transfer -/

/-- A stream of so many bytes, then its end or an error. -/
structure Body where
  bytes : Nat
  err : Option Err

structure SendTransfer where
  header : Header
  body : Body
  progressTotal : Int64

/-- What is to be sent: a text, what the user named, or the standard input. -/
structure SendConfig (μ : Type) where
  text : List UInt8
  what : Root (FileInfo μ) Err
  stdin : Option Body

def pathBytes (p : Path) : List UInt8 := p.map fun c => UInt8.ofNat c.toNat

def errOf : Except Err Unit → Option Err
  | .ok _ => none
  | .error e => some e

/-- The reading end of the pipe that `StreamTar` writes to. -/
def streamBody (headerBytes : HeaderBytes μ) (root : Root (FileInfo μ) Err) : Body :=
  let out := exec (streamTar headerBytes root) Tar.newWriter
  ⟨out.2.written, errOf out.1⟩

def textTransfer (body : Body) : SendTransfer := ⟨⟨1, .text, [], 0, [], []⟩, body, -1⟩

def directorySummary (stats : TarStats) : List UInt8 :=
  Json.object [("file_count", Json.number stats.fileCount),
    ("uncompressed_bytes", Json.number stats.uncompressedBytes)]

def prepareSendTransfer (headerBytes : HeaderBytes μ) (cfg : SendConfig μ) :
    Except Err SendTransfer :=
  if cfg.text ≠ [] then .ok (textTransfer ⟨cfg.text.length, none⟩)
  else if cfg.what.path ≠ [] then
    match cfg.what.found with
    | .dir _ _ =>
        match describeTar headerBytes cfg.what with
        | .error e => .error e
        | .ok stats =>
            .ok ⟨⟨1, .directoryTar, pathBytes (base cfg.what.path), stats.tarBytes, [],
              directorySummary stats⟩, streamBody headerBytes cfg.what, stats.tarBytes⟩
    | .file _ content =>
        let size := Int64.ofNat content.data.length
        .ok ⟨⟨1, .file, pathBytes (base cfg.what.path), size, [], []⟩,
          ⟨content.data.length, none⟩, size⟩
    | .missing e =>
        if e = .notExist then .ok (textTransfer ⟨(pathBytes cfg.what.path).length, none⟩)
        else .error e
  else
    match cfg.stdin with
    | some body => .ok (textTransfer body)
    | none => .ok (textTransfer ⟨0, none⟩)

def transferSessionExpectedBytes (tx : SendTransfer) : Int64 :=
  if tx.progressTotal < 0 then -1
  else
    let header :=
      if tx.header.verify = [] then { tx.header with verify := verificationPlaceholder }
      else tx.header
    match headerWireSize header with
    | .error _ => -1
    | .ok headerBytes => headerBytes + tx.progressTotal

/-- The bytes written and the error: the header, then a copy of the body. -/
def writeTransferWithProgress (tx : SendTransfer) : Body :=
  match writeHeader tx.header with
  | .error e => ⟨0, some e⟩
  | .ok raw => ⟨raw.length + tx.body.bytes, tx.body.err⟩

/-- What a session is told to expect, and what is written to it. -/
structure SessionInput where
  expected : Int64
  written : Body

def SendTransfer.verified (tx : SendTransfer) (v : Verification) : SendTransfer :=
  { tx with header := { tx.header with verify := v.text } }

/-- The session starts before the token is known. -/
def offerTransfer (tx : SendTransfer) (v : Verification) : SessionInput :=
  ⟨transferSessionExpectedBytes tx, writeTransferWithProgress (tx.verified v)⟩

/-- The token is given. -/
def sendViaSession (tx : SendTransfer) (v : Verification) : SessionInput :=
  ⟨transferSessionExpectedBytes (tx.verified v), writeTransferWithProgress (tx.verified v)⟩

/-- A size that is declared is the number of bytes written. -/
def SessionInput.Declared (s : SessionInput) : Prop :=
  0 ≤ s.expected → s.written.err = none ∧ s.expected.toInt = s.written.bytes

/-! ## Lengths of the header -/

theorem Verification.text_ne_nil (v : Verification) : v.text ≠ [] := by
  intro h
  have := v.length
  rw [h] at this
  cases this

/-- The placeholder is as good as any verification string. -/
theorem length_marshal_verify (h : Header) (v : Verification) :
    ({ h with verify := verificationPlaceholder } : Header).marshal.length =
      ({ h with verify := v.text } : Header).marshal.length := by
  have hlen : (Json.quote verificationPlaceholder).length = (Json.quote v.text).length := by
    rw [Json.length_quote v.plain, v.length]
    rfl
  have hplace : (verificationPlaceholder == []) = false := rfl
  have htext : (v.text == []) = false := by simpa using v.text_ne_nil
  simp only [Header.marshal, Json.omitEmpty, hplace, htext, Bool.false_eq_true, if_false,
    List.append_assoc, List.singleton_append, Json.object, List.length_cons, List.length_append]
  rw [Json.length_members_congr hlen]
  rfl

/-- The bytes of the header with a verification string in it. -/
def headerBytesWith (h : Header) (v : Verification) : Nat :=
  magic.length + 4 + ({ h with verify := v.text } : Header).marshal.length

theorem headerWireSize_placeholder (h : Header) (v : Verification) :
    headerWireSize { h with verify := verificationPlaceholder } =
      headerWireSize { h with verify := v.text } := by
  simp only [headerWireSize, length_marshal_verify h v]

/-- It makes no difference whether the token was known. -/
theorem expected_verified (tx : SendTransfer) (v : Verification) (hv : tx.header.verify = []) :
    transferSessionExpectedBytes tx = transferSessionExpectedBytes (tx.verified v) := by
  rw [transferSessionExpectedBytes, transferSessionExpectedBytes]
  simp only [SendTransfer.verified, hv, v.text_ne_nil, if_true, if_false,
    headerWireSize_placeholder tx.header v]

/-- The header is refused. -/
def TooLarge (header : Nat) : Prop := magic.length + 4 + maxHeaderSize < header

instance (header : Nat) : Decidable (TooLarge header) := inferInstanceAs (Decidable (_ < _))

theorem tooLarge_iff (h : Header) (v : Verification) :
    maxHeaderSize < ({ h with verify := v.text } : Header).marshal.length ↔
      TooLarge (headerBytesWith h v) := by
  rw [TooLarge, headerBytesWith]
  omega

theorem expected_eq (tx : SendTransfer) (v : Verification) :
    transferSessionExpectedBytes (tx.verified v) =
      if tx.progressTotal < 0 ∨ TooLarge (headerBytesWith tx.header v) then -1
      else Int64.ofNat (headerBytesWith tx.header v) + tx.progressTotal := by
  rw [transferSessionExpectedBytes]
  simp only [SendTransfer.verified, v.text_ne_nil, if_false, headerWireSize,
    tooLarge_iff tx.header v]
  by_cases hp : tx.progressTotal < 0
  · simp [hp]
  · by_cases hl : TooLarge (headerBytesWith tx.header v)
    · simp [hp, hl]
    · simp only [hp, hl, if_false, or_false]
      rfl

theorem written_eq (tx : SendTransfer) (v : Verification) :
    writeTransferWithProgress (tx.verified v) =
      if TooLarge (headerBytesWith tx.header v) then ⟨0, some errHeaderTooLarge⟩
      else ⟨headerBytesWith tx.header v + tx.body.bytes, tx.body.err⟩ := by
  rw [writeTransferWithProgress, writeHeader]
  simp only [SendTransfer.verified, tooLarge_iff tx.header v]
  by_cases hl : TooLarge (headerBytesWith tx.header v)
  · simp only [hl, if_true]
  · simp only [hl, if_false, List.length_append, length_bigEndian]
    rfl

/-! ## Wrapping around -/

/-- The value of a count as an `int64`. -/
theorem toInt_ofNat_cases (n : Nat) :
    n % 2 ^ 64 < 2 ^ 63 ∧ (Int64.ofNat n).toInt = (n % 2 ^ 64 : Nat) ∨
      2 ^ 63 ≤ n % 2 ^ 64 ∧ (Int64.ofNat n).toInt = (n % 2 ^ 64 : Nat) - 2 ^ 64 := by
  rw [Int64.toInt_ofNat', Int.bmod_def]
  simp only [Int64.size]
  split <;> omega

/-- The count of a body of `n` bytes after a header of `header` bytes is right,
or it is negative, or the header is refused. -/
def CountFits (header n : Nat) : Prop :=
  n < 2 ^ 63 ∨ 2 ^ 63 ≤ n % 2 ^ 64 + header ∨ TooLarge header

instance (header n : Nat) : Decidable (CountFits header n) :=
  inferInstanceAs (Decidable (_ ∨ _ ∨ _))

/-- A size that was counted as an `int64` is declared exactly when the count is
right or is not declared at all. -/
theorem declared_of_count {tx : SendTransfer} {v : Verification} {n : Nat}
    (hbody : tx.body = ⟨n, none⟩) (htotal : tx.progressTotal = Int64.ofNat n) :
    (sendViaSession tx v).Declared ↔ CountFits (headerBytesWith tx.header v) n := by
  have hzero : ∀ x : Int64, 0 ≤ x ↔ 0 ≤ x.toInt := fun x => Int64.le_iff_toInt_le
  have hneg : ∀ x : Int64, x < 0 ↔ x.toInt < 0 := fun x => Int64.lt_iff_toInt_lt
  rw [SessionInput.Declared, sendViaSession, expected_eq, written_eq, htotal, hbody, CountFits]
  by_cases hl : TooLarge (headerBytesWith tx.header v)
  · simp [hl, hzero]
  · have hsmall : headerBytesWith tx.header v ≤ 9 + 4 + 1048576 := Nat.not_lt.mp hl
    simp only [hl, or_false, if_false, hneg, true_and]
    generalize headerBytesWith tx.header v = header at hsmall
    rw [← Int64.ofNat_add]
    have hn := toInt_ofNat_cases n
    have hsum := toInt_ofNat_cases (header + n)
    by_cases hlt : (Int64.ofNat n).toInt < 0
    · simp only [hlt, if_true]
      constructor
      · intro _
        omega
      · intro _ h
        exact absurd h (by decide)
    · simp only [hlt, if_false, hzero]
      omega

/-! ## Every transfer -/

/-- How many bytes follow the header, when that can be told beforehand: those of
a file, or of the archive of a directory. -/
def SendConfig.bodyBytes (headerBytes : HeaderBytes μ) (cfg : SendConfig μ) : Option Nat :=
  if cfg.text ≠ [] ∨ cfg.what.path = [] then none
  else
    match cfg.what.found with
    | .missing _ => none
    | .file _ content => some content.data.length
    | .dir _ _ => some (archiveBytes headerBytes cfg.what)

variable {headerBytes : HeaderBytes μ} {cfg : SendConfig μ} {tx : SendTransfer}

theorem streamBody_of_describeTar {info : FileInfo μ} {tree : DirTree (FileInfo μ)}
    {root : Root (FileInfo μ) Err} {stats : TarStats} (hf : root.found = .dir info tree)
    (h : describeTar headerBytes root = .ok stats) :
    streamBody headerBytes root = ⟨archiveBytes headerBytes root, none⟩ ∧
      stats.tarBytes = Int64.ofNat (archiveBytes headerBytes root) := by
  obtain ⟨w, hw, htotal⟩ := streamTar_of_describeTar h
  obtain ⟨-, hwritten, -⟩ := streamTar_holds hf hw
  rw [streamBody, hw, htotal, hwritten]
  exact ⟨rfl, rfl⟩

theorem prepareSendTransfer_spec (h : prepareSendTransfer headerBytes cfg = .ok tx) :
    tx.header.verify = [] ∧
      (cfg.bodyBytes headerBytes = none ∧ tx.progressTotal = -1 ∨
        ∃ n, cfg.bodyBytes headerBytes = some n ∧ tx.body = ⟨n, none⟩ ∧
          tx.progressTotal = Int64.ofNat n) := by
  rw [prepareSendTransfer] at h
  rw [SendConfig.bodyBytes]
  by_cases htext : cfg.text = []
  · by_cases hpath : cfg.what.path = []
    · simp only [htext, hpath, ne_eq, not_true_eq_false, if_false] at h ⊢
      cases hs : cfg.stdin with
      | none =>
          rw [hs] at h
          obtain rfl := Except.ok.inj h
          exact ⟨rfl, .inl ⟨by simp, rfl⟩⟩
      | some body =>
          rw [hs] at h
          obtain rfl := Except.ok.inj h
          exact ⟨rfl, .inl ⟨by simp, rfl⟩⟩
    · simp only [htext, hpath, ne_eq, not_true_eq_false, not_false_eq_true, if_true, if_false,
        or_self] at h ⊢
      cases hf : cfg.what.found with
      | missing e =>
          rw [hf] at h
          simp only at h
          split at h
          · obtain rfl := Except.ok.inj h
            exact ⟨rfl, .inl ⟨rfl, rfl⟩⟩
          · cases h
      | file info content =>
          rw [hf] at h
          obtain rfl := Except.ok.inj h
          exact ⟨rfl, .inr ⟨_, rfl, rfl, rfl⟩⟩
      | dir info tree =>
          rw [hf] at h
          simp only at h
          cases hd : describeTar headerBytes cfg.what with
          | error e =>
              rw [hd] at h
              cases h
          | ok stats =>
              rw [hd] at h
              obtain rfl := Except.ok.inj h
              obtain ⟨hbody, htotal⟩ := streamBody_of_describeTar hf hd
              exact ⟨rfl, .inr ⟨_, rfl, hbody, htotal⟩⟩
  · simp only [htext, ne_eq, not_false_eq_true, if_true, true_or] at h ⊢
    obtain rfl := Except.ok.inj h
    exact ⟨rfl, .inl ⟨trivial, rfl⟩⟩

theorem offerTransfer_eq (h : prepareSendTransfer headerBytes cfg = .ok tx) (v : Verification) :
    offerTransfer tx v = sendViaSession tx v := by
  rw [offerTransfer, sendViaSession, expected_verified tx v (prepareSendTransfer_spec h).1]

/-- A transfer whose size cannot be told declares none. -/
theorem declared_of_unknown (htotal : tx.progressTotal = -1) (v : Verification) :
    (sendViaSession tx v).Declared := by
  have hminus : ¬(0 : Int64) ≤ -1 := by decide
  intro hexp
  rw [sendViaSession, expected_eq, if_pos (.inl (by rw [htotal]; decide))] at hexp
  exact absurd hexp hminus

/-- The size told to the session, before or after the token is known, is the
number of bytes written, exactly when the bytes can be counted in an `int64` or
the count is not declared. -/
theorem declared_size_iff (headerBytes : HeaderBytes μ) (cfg : SendConfig μ) (tx : SendTransfer)
    (h : prepareSendTransfer headerBytes cfg = .ok tx) (v : Verification) :
    ((offerTransfer tx v).Declared ∧ (sendViaSession tx v).Declared) ↔
      ∀ n, cfg.bodyBytes headerBytes = some n → CountFits (headerBytesWith tx.header v) n := by
  rw [offerTransfer_eq h v, and_self]
  rcases (prepareSendTransfer_spec h).2 with ⟨hnone, htotal⟩ | ⟨n, hsome, hn, htotal⟩
  · rw [hnone]
    refine ⟨fun _ n hn => (by cases hn), fun _ => ?_⟩
    exact declared_of_unknown htotal v
  · rw [declared_of_count hn htotal, hsome]
    refine ⟨fun hc m hm => ?_, fun hc => hc n rfl⟩
    obtain rfl := Option.some.inj hm
    exact hc

/-! ## Four files -/

/-- The bytes of a header with a short name.  From 8 GiB on the size needs an
extended header of two blocks more. -/
def shortHeaderBytes (hdr : FileHeader Unit) : Except Err Nat :=
  .ok (if hdr.size < 8589934592 then 512 else 1536)

/-- Four files of the same content. -/
def fourFiles (content : Content) : DirTree (FileInfo Unit) where
  entries := .leaf ['a'] (.file ⟨0o644, ()⟩ content) (.leaf ['b'] (.file ⟨0o644, ()⟩ content)
    (.leaf ['c'] (.file ⟨0o644, ()⟩ content) (.leaf ['e'] (.file ⟨0o644, ()⟩ content) .nil)))
  wellFormed := by simp [Entries.WellFormed, Entries.names, IsName, dot, dotdot, sep]

/-- They stand in the directory `d`. -/
def fourFilesConfig (content : Content) : SendConfig Unit where
  text := []
  what := ⟨['d'], none, .dir ⟨0o755, ()⟩ (fourFiles content)⟩
  stdin := none

/-- What one of the files adds to the count. -/
def oneFile (n : Nat) : Int64 :=
  Int64.ofNat (if n < 8589934592 then 512 else 1536) + padded512 (Int64.ofNat n)

def fourFilesStats (n : Nat) : TarStats :=
  ⟨0 + oneFile n + oneFile n + oneFile n + oneFile n + 1024, 0 + 1 + 1 + 1 + 1,
    0 + Int64.ofNat n + Int64.ofNat n + Int64.ofNat n + Int64.ofNat n⟩

theorem describeTar_fourFiles (content : Content) :
    describeTar shortHeaderBytes (fourFilesConfig content).what =
      .ok (fourFilesStats content.data.length) := by
  have hstep : ∀ c : Char, IsName [c] → ∀ stats : TarStats,
      exec (describeEntry shortHeaderBytes ['d'] (under ['d'] [[c]])
        (.leaf (.file ⟨0o644, ()⟩ content))) stats =
        (.ok (), ⟨stats.tarBytes + oneFile content.data.length, stats.fileCount + 1,
          stats.uncompressedBytes + Int64.ofNat content.data.length⟩) := by
    intro c hc stats
    exact exec_describeEntry_file (by simpa using hc) (by simp) rfl stats
  have hname : ∀ c : Char, c ≠ '.' → c ≠ sep → IsName [c] := by
    intro c hdot hsep
    exact ⟨by simp, by simpa [dot] using hdot, by simp [dotdot], by simpa using Ne.symm hsep⟩
  rw [describeTar, fourFilesConfig]
  simp only
  rw [exec_walkDir rfl (by intro d; rw [describeEntry, if_pos rfl])]
  simp only [Root.below, fourFiles, Entries.listing, List.nil_append, List.forM_cons,
    List.forM_nil]
  rw [exec_bind_ok (hstep 'a' (hname _ (by decide) (by decide)) _),
    exec_bind_ok (hstep 'b' (hname _ (by decide) (by decide)) _),
    exec_bind_ok (hstep 'c' (hname _ (by decide) (by decide)) _),
    exec_bind_ok (hstep 'e' (hname _ (by decide) (by decide)) _)]
  rfl

theorem prepareSendTransfer_fourFiles (content : Content) :
    prepareSendTransfer shortHeaderBytes (fourFilesConfig content) =
      .ok ⟨⟨1, .directoryTar, [100], (fourFilesStats content.data.length).tarBytes, [],
        directorySummary (fourFilesStats content.data.length)⟩,
        streamBody shortHeaderBytes (fourFilesConfig content).what,
        (fourFilesStats content.data.length).tarBytes⟩ := by
  have hbase : pathBytes (base ['d']) = [100] := by decide
  rw [prepareSendTransfer, if_neg (by simp [fourFilesConfig]), if_pos (by simp [fourFilesConfig]),
    describeTar_fourFiles]
  simp only [fourFilesConfig, hbase]

theorem bodyBytes_fourFiles (content : Content) :
    (fourFilesConfig content).bodyBytes shortHeaderBytes =
      some (4 * ((if content.data.length < 8589934592 then 512 else 1536) +
        (content.data.length + Tar.blockPadding content.data.length)) + 1024) := by
  have hbytes : (fourFilesConfig content).bodyBytes shortHeaderBytes =
      some (archiveBytes shortHeaderBytes (fourFilesConfig content).what) := rfl
  rw [hbytes]
  by_cases h : content.data.length < 8589934592
  · simp [archiveBytes, fourFilesConfig, fourFiles, Root.below, Entries.listing, entryBytes,
      archiveEntry, shortHeaderBytes, fileHeader, Except.toOption, h]
    omega
  · simp [archiveBytes, fourFilesConfig, fourFiles, Root.below, Entries.listing, entryBytes,
      archiveEntry, shortHeaderBytes, fileHeader, Except.toOption, h]
    omega

/-- The verification string of a token whose hash starts with zeros. -/
def zeroVerification : Verification := verificationString (fun _ => Vector.replicate 32 0) []

/-- Three bytes in each of the four files. -/
def threeBytes : Content := ⟨[1, 2, 3], by simp⟩

/-- Four files of three bytes: the header and 5120 bytes are declared, and that
is what is written. -/
theorem declared_size_fourFiles :
    ∃ tx, prepareSendTransfer shortHeaderBytes (fourFilesConfig threeBytes) = .ok tx ∧
      (offerTransfer tx zeroVerification).expected = 5288 ∧
      (offerTransfer tx zeroVerification).Declared ∧
      (sendViaSession tx zeroVerification).Declared := by
  refine ⟨_, prepareSendTransfer_fourFiles threeBytes, by decide +kernel, ?_⟩
  refine (declared_size_iff shortHeaderBytes _ _ (prepareSendTransfer_fourFiles threeBytes)
    zeroVerification).mpr ?_
  intro n hn
  rw [bodyBytes_fourFiles] at hn
  obtain rfl := Option.some.inj hn
  exact .inl (by decide)

/-- A sparse file. -/
def zeros (n : Nat) (h : n < 2 ^ 63) : Content := ⟨List.replicate n 0, by rwa [List.length_replicate]⟩

/-- Four sparse files of 4 EiB: the count wraps around to 7168 bytes. -/
theorem declared_size_wraps :
    ∃ tx, prepareSendTransfer shortHeaderBytes
        (fourFilesConfig (zeros (2 ^ 62) (by decide))) = .ok tx ∧
      (offerTransfer tx zeroVerification).expected = 7332 ∧
      ¬(offerTransfer tx zeroVerification).Declared := by
  have hlen : (zeros (2 ^ 62) (by decide)).data.length = 2 ^ 62 := List.length_replicate
  generalize zeros (2 ^ 62) (by decide) = content at hlen
  have hprep := prepareSendTransfer_fourFiles content
  have hbody := bodyBytes_fourFiles content
  rw [hlen] at hprep hbody
  refine ⟨_, hprep, ?_, ?_⟩
  · have hexpected : ∀ header body total,
        transferSessionExpectedBytes ⟨header, body, total⟩ =
          transferSessionExpectedBytes ⟨header, ⟨0, none⟩, total⟩ := fun _ _ _ => rfl
    simp only [offerTransfer]
    rw [hexpected]
    decide +kernel
  · rw [offerTransfer_eq hprep]
    rcases (prepareSendTransfer_spec hprep).2 with ⟨hnone, -⟩ | ⟨n, hsome, hn, htotal⟩
    · rw [hbody] at hnone
      cases hnone
    · rw [hbody] at hsome
      obtain rfl := Option.some.inj hsome
      rw [declared_of_count hn htotal]
      simp only
      decide +kernel

end Derphole
