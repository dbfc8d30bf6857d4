import Derphole.Lib.FileTree
import Derphole.Lib.Tar
import Derphole.Receive
import Mathlib.Algebra.BigOperators.Group.List.Basic

/-!
# A directory as a tar stream

`StreamTar` of `pkg/derphole/archive/tarstream.go`, which walks a directory and
writes it as a tar archive, and `DescribeTar` of `pkg/derphole/archive/tarsize.go`,
which walks it to count the bytes of that archive without writing it.

The two walks make the same headers for the same entries.  `describeEntry_follows`
says what one entry does to both: whatever `DescribeTar` can count, `StreamTar`
can write, and the count is the number of bytes written, as an `int64`.

`archive/tar` enters as `headerBytes`, the bytes that a header takes.  Nothing in
the tree changes while it is sent, and the file system refuses nothing.
-/

namespace Derphole

open Filepath FileSystem FileTree Lib

variable {μ : Type}

/-- `fs.FileInfo`: the mode, and the times, the owner and whatever else the
system reports. -/
structure FileInfo (μ : Type) where
  mode : Nat
  sys : μ

/-- A header as it is written. -/
structure FileHeader (μ : Type) where
  name : Path
  typeflag : Typeflag
  size : Nat
  info : FileInfo μ

abbrev TarWriter (μ : Type) := Tar.Writer (FileHeader μ)

abbrev HeaderBytes (μ : Type) := FileHeader μ → Except Err Nat

def tarFormat (headerBytes : HeaderBytes μ) : Tar.Format (FileHeader μ) :=
  ⟨FileHeader.size, headerBytes⟩

/-- `tar.FileInfoHeader` of a directory, named `name/`. -/
def dirHeader (name : Path) (info : FileInfo μ) : FileHeader μ := ⟨name ++ [sep], .dir, 0, info⟩

/-- `tar.FileInfoHeader` of a regular file, named `name`. -/
def fileHeader (name : Path) (info : FileInfo μ) (content : Content) : FileHeader μ :=
  ⟨name, .reg, content.data.length, info⟩

def errNotDirectory (path : Path) : Err := .errorf "%q is not a directory" [path]

def errUnsupportedEntry (path : Path) : Err :=
  .errorf "unsupported directory entry %q with mode %v" [path]

def errRel (srcRoot path : Path) : Err :=
  .errorf "Rel: can't make %s relative to %s" [path, srcRoot]

/-! ## Streaming -/

section

variable (headerBytes : HeaderBytes μ)

/-- The function that `StreamTar` walks with. -/
def streamEntry (srcRoot path : Path) (d : Visit (FileInfo μ)) : Prog (TarWriter μ) Err Unit :=
  if path = srcRoot then pure ()
  else
    match rel srcRoot path with
    | none => fail (errRel srcRoot path)
    | some name =>
        match d with
        | .dir info => Tar.writeHeader (tarFormat headerBytes) (dirHeader name info)
        | .leaf (.file info content) => do
            Tar.writeHeader (tarFormat headerBytes) (fileHeader name info content)
            Tar.write content.data
        | .leaf (.other _) => fail (errUnsupportedEntry path)

/-- The archive is closed whatever the walk returns, and the error of closing it
is dropped. -/
def streamTar (root : Root (FileInfo μ) Err) : Prog (TarWriter μ) Err Unit :=
  match root.found with
  | .missing err => fail err
  | .file _ _ => fail (errNotDirectory root.path)
  | .dir _ _ => fun w =>
      let out := exec (walkDir root (streamEntry headerBytes root.path)) w
      (out.1, (exec Tar.close out.2).2)

/-! ## Counting -/

structure TarStats where
  tarBytes : Int64
  fileCount : Int64
  uncompressedBytes : Int64

/-- What a new writer writes for one header. -/
def tarHeaderBytes (hdr : FileHeader μ) : Except Err Int64 :=
  match exec (Tar.writeHeader (tarFormat headerBytes) hdr) Tar.newWriter with
  | (.ok _, w) => .ok (Int64.ofNat w.written)
  | (.error e, _) => .error e

def padded512 (n : Int64) : Int64 :=
  if n ≤ 0 then 0
  else if n % 512 = 0 then n
  else n + (512 - n % 512)

/-- The function that `DescribeTar` walks with. -/
def describeEntry (srcRoot path : Path) (d : Visit (FileInfo μ)) : Prog TarStats Err Unit :=
  if path = srcRoot then pure ()
  else
    match rel srcRoot path with
    | none => fail (errRel srcRoot path)
    | some name =>
        match d with
        | .dir info =>
            match tarHeaderBytes headerBytes (dirHeader name info) with
            | .error e => fail e
            | .ok n => update fun stats => { stats with tarBytes := stats.tarBytes + n }
        | .leaf (.file info content) =>
            match tarHeaderBytes headerBytes (fileHeader name info content) with
            | .error e => fail e
            | .ok n =>
                let size := Int64.ofNat content.data.length
                update fun stats =>
                  { tarBytes := stats.tarBytes + (n + padded512 size)
                    fileCount := stats.fileCount + 1
                    uncompressedBytes := stats.uncompressedBytes + size }
        | .leaf (.other _) => fail (errUnsupportedEntry path)

def describeTar (root : Root (FileInfo μ) Err) : Except Err TarStats :=
  match root.found with
  | .missing err => .error err
  | .file _ _ => .error (errNotDirectory root.path)
  | .dir _ _ =>
      match exec (walkDir root (describeEntry headerBytes root.path)) ⟨0, 0, 0⟩ with
      | (.error e, _) => .error e
      | (.ok _, stats) => .ok { stats with tarBytes := stats.tarBytes + 1024 }

end

/-! ## The two walks in step -/

variable {headerBytes : HeaderBytes μ} {root : Root (FileInfo μ) Err}

theorem tarHeaderBytes_eq (hdr : FileHeader μ) :
    tarHeaderBytes headerBytes hdr = (headerBytes hdr).map Int64.ofNat := by
  cases h : headerBytes hdr with
  | ok n =>
      have hfmt : (tarFormat headerBytes).headerBytes hdr = .ok n := h
      rw [tarHeaderBytes, Tar.exec_writeHeader_ok rfl hfmt]
      simp [Tar.Writer.total, Tar.newWriter, Except.map]
  | error e =>
      have hfmt : (tarFormat headerBytes).headerBytes hdr = .error e := h
      rw [tarHeaderBytes, Tar.writeHeader, exec_bind_ok (Tar.exec_flush rfl), hfmt]
      rfl

theorem ofNat_eq_zero_iff {n : Nat} (h : n < 2 ^ 63) : Int64.ofNat n = 0 ↔ n = 0 := by
  rw [← Int64.toInt_inj, Int64.toInt_ofNat_of_lt h]
  exact Int.natCast_eq_zero

/-- The padded size of a file, as an `int64` that may wrap around. -/
theorem padded512_ofNat {n : Nat} (h : n < 2 ^ 63) :
    padded512 (Int64.ofNat n) = Int64.ofNat (n + Tar.blockPadding n) := by
  have hle : Int64.ofNat n ≤ 0 ↔ n ≤ 0 := Int64.ofNat_le_iff_le h (by decide)
  have hmod : Int64.ofNat n % 512 = Int64.ofNat (n % 512) := (Int64.ofNat_mod h (by decide)).symm
  have hlt : n % 512 < 2 ^ 63 := Nat.lt_of_le_of_lt (Nat.mod_le n 512) h
  rw [padded512, hmod, Int64.ofNat_add]
  by_cases hzero : n = 0
  · subst hzero
    rfl
  · rw [if_neg (by rw [hle]; omega)]
    by_cases hrem : n % 512 = 0
    · rw [if_pos ((ofNat_eq_zero_iff hlt).mpr hrem), Tar.blockPadding, hrem]
      exact (Int64.add_zero _).symm
    · have hsub : Int64.ofNat (512 - n % 512) = 512 - Int64.ofNat (n % 512) :=
        Int64.ofNat_sub 512 (n % 512) (by omega)
      have hpad : Tar.blockPadding n = 512 - n % 512 := by
        rw [Tar.blockPadding]
        omega
      rw [if_neg (mt (ofNat_eq_zero_iff hlt).mp hrem), hpad, hsub]

/-- The writer is between two entries, and what it wrote and still has to pad is
the count. -/
def Counted (stats : TarStats) (w : TarWriter μ) : Prop :=
  w.left = 0 ∧ stats.tarBytes = Int64.ofNat w.total

/-- What `DescribeTar` counts for an entry is what `StreamTar` writes for it. -/
theorem describeEntry_follows (srcRoot path : Path) (d : Visit (FileInfo μ)) :
    Follows Counted (describeEntry headerBytes srcRoot path d)
      (streamEntry headerBytes srcRoot path d) := by
  rw [describeEntry, streamEntry]
  split
  · exact Follows.pure
  cases rel srcRoot path with
  | none =>
      intro stats w stats' _ h
      cases h
  | some name =>
      intro stats w stats' hR h
      cases d with
      | dir info =>
          simp only [tarHeaderBytes_eq] at h ⊢
          cases hn : headerBytes (dirHeader name info) with
          | error e =>
              rw [hn] at h
              cases h
          | ok n =>
              rw [hn] at h
              cases h
              refine ⟨_, Tar.exec_writeHeader_ok hR.1 hn, rfl, ?_⟩
              have hpad : Tar.blockPadding ((tarFormat headerBytes).size (dirHeader name info)) = 0 := by
                simp [tarFormat, dirHeader, Tar.blockPadding]
              simp only [Tar.Writer.total, hpad, Nat.add_zero, Int64.ofNat_add, hR.2]
      | leaf l =>
          cases l with
          | other info => cases h
          | file info content =>
              simp only [tarHeaderBytes_eq] at h ⊢
              cases hn : headerBytes (fileHeader name info content) with
              | error e =>
                  rw [hn] at h
                  cases h
              | ok n =>
                  rw [hn] at h
                  cases h
                  rw [exec_bind_ok (Tar.exec_writeHeader_ok hR.1 hn), Tar.exec_write rfl rfl]
                  refine ⟨_, rfl, rfl, ?_⟩
                  simp only [Tar.Writer.total, Int64.ofNat_add, padded512_ofNat content.fits, hR.2,
                    tarFormat, fileHeader, Int64.add_assoc]

theorem walkDir_follows :
    Follows Counted (walkDir root (describeEntry headerBytes root.path))
      (walkDir root (streamEntry headerBytes root.path)) := by
  rw [walkDir, walkDir]
  split
  · intro stats w stats' _ h
    cases h
  · exact Follows.forM fun v _ => describeEntry_follows _ _ _

/-- The walk, then the end of the archive. -/
theorem exec_streamTar {info : FileInfo μ} {tree : DirTree (FileInfo μ)}
    (hf : root.found = .dir info tree) (w : TarWriter μ) :
    exec (streamTar headerBytes root) w =
      ((exec (walkDir root (streamEntry headerBytes root.path)) w).1,
        (exec Tar.close (exec (walkDir root (streamEntry headerBytes root.path)) w).2).2) := by
  rw [streamTar, hf]
  rfl

/-- Whatever `DescribeTar` counts, `StreamTar` writes. -/
theorem streamTar_of_describeTar {stats : TarStats} (h : describeTar headerBytes root = .ok stats) :
    ∃ w, exec (streamTar headerBytes root) Tar.newWriter = (.ok (), w) ∧
      stats.tarBytes = Int64.ofNat w.written := by
  rw [describeTar] at h
  cases hf : root.found with
  | missing err =>
      rw [hf] at h
      cases h
  | file info content =>
      rw [hf] at h
      cases h
  | dir info tree =>
      rw [hf] at h
      cases hr : exec (walkDir root (describeEntry headerBytes root.path)) ⟨0, 0, 0⟩ with
      | mk r counted =>
          simp only [hr] at h
          cases r with
          | error e => cases h
          | ok a =>
              obtain rfl := Except.ok.inj h
              obtain ⟨w, hw, hleft, htotal⟩ :=
                walkDir_follows ⟨0, 0, 0⟩ Tar.newWriter counted ⟨rfl, rfl⟩ hr
              refine ⟨⟨w.total + 1024, 0, 0, w.log⟩, ?_, ?_⟩
              · rw [exec_streamTar hf, hw, Tar.exec_close hleft]
              · rw [Int64.ofNat_add, ← htotal]
                rfl

/-- What a file adds to the count. -/
theorem exec_describeEntry_file {srcRoot : Path} {l : Loc} (hnames : ∀ e ∈ l, IsName e)
    (hne : l ≠ []) {info : FileInfo μ} {content : Content} {n : Nat}
    (hn : headerBytes (fileHeader ([sep].intercalate l) info content) = .ok n) (stats : TarStats) :
    exec (describeEntry headerBytes srcRoot (under srcRoot l) (.leaf (.file info content))) stats =
      (.ok (), ⟨stats.tarBytes + (Int64.ofNat n + padded512 (Int64.ofNat content.data.length)),
        stats.fileCount + 1, stats.uncompressedBytes + Int64.ofNat content.data.length⟩) := by
  rw [describeEntry, if_neg (under_ne hnames hne), rel_under hnames hne]
  simp only [tarHeaderBytes_eq, hn]
  rfl

/-! ## What the archive holds -/

/-- The entry that stands in the archive for what a walk met. -/
def archiveEntry (v : Loc × Visit (FileInfo μ)) : FileHeader μ × List UInt8 :=
  match v.2 with
  | .dir info => (dirHeader ([sep].intercalate v.1) info, [])
  | .leaf (.file info content) => (fileHeader ([sep].intercalate v.1) info content, content.data)
  | .leaf (.other info) => (⟨[sep].intercalate v.1, .other 0, 0, info⟩, [])

/-- The bytes of an entry: its header, and its data padded to 512. -/
def entryBytes (headerBytes : HeaderBytes μ) (entry : FileHeader μ × List UInt8) : Nat :=
  (headerBytes entry.1).toOption.getD 0 + (entry.1.size + Tar.blockPadding entry.1.size)

/-- The bytes of the archive: its entries, and the end. -/
def archiveBytes (headerBytes : HeaderBytes μ) (root : Root (FileInfo μ) Err) : Nat :=
  (root.below.map fun v => entryBytes headerBytes (archiveEntry v)).sum + 1024

/-- The writer is between two entries and has written what the walk met. -/
structure Holds (headerBytes : HeaderBytes μ) (met : List (Loc × Visit (FileInfo μ)))
    (w : TarWriter μ) : Prop where
  left : w.left = 0
  log : w.log = (met.map archiveEntry).reverse
  total : w.total = (met.map fun v => entryBytes headerBytes (archiveEntry v)).sum
  plain : ∀ v ∈ met, ∀ info, v.2 ≠ .leaf (.other info)

theorem Holds.snoc {met : List (Loc × Visit (FileInfo μ))} {w w' : TarWriter μ}
    {v : Loc × Visit (FileInfo μ)} {n : Nat} (h : Holds headerBytes met w)
    (hn : headerBytes (archiveEntry v).1 = .ok n) (hv : ∀ info, v.2 ≠ .leaf (.other info))
    (hw : w' = ⟨w.total + n + (archiveEntry v).1.size, 0,
      Tar.blockPadding (archiveEntry v).1.size, archiveEntry v :: w.log⟩) :
    Holds headerBytes (met ++ [v]) w' := by
  subst hw
  refine ⟨rfl, ?_, ?_, ?_⟩
  · rw [h.log]
    simp
  · rw [Tar.Writer.total, h.total]
    simp [entryBytes, hn, Except.toOption, Nat.add_assoc]
  · intro x hx
    rcases List.mem_append.mp hx with hx | hx
    · exact h.plain x hx
    · rw [List.mem_singleton.mp hx]
      exact hv

theorem streamEntry_holds {met : List (Loc × Visit (FileInfo μ))} {v : Loc × Visit (FileInfo μ)}
    (srcRoot : Path) (hnames : ∀ e ∈ v.1, IsName e) (hne : v.1 ≠ []) :
    Triple (Holds headerBytes met) (streamEntry headerBytes srcRoot (under srcRoot v.1) v.2)
      (fun _ => Holds headerBytes (met ++ [v])) fun _ _ => True := by
  obtain ⟨l, d⟩ := v
  rw [streamEntry, if_neg (under_ne hnames hne), rel_under hnames hne]
  refine Triple.of_eq fun w hw => ?_
  cases d with
  | dir info =>
      refine (Tar.writeHeader_triple hw.left _).conseq (fun _ h => h) ?_ fun _ _ h => h
      rintro _ _ ⟨n, hn, rfl⟩
      exact hw.snoc hn (by simp) (by simp [archiveEntry, tarFormat, dirHeader])
  | leaf lf =>
      cases lf with
      | other info => exact Triple.fail fun _ _ => trivial
      | file info content =>
          refine Triple.bind (Tar.writeHeader_triple hw.left _) fun _ => ?_
          rintro _ ⟨n, hn, rfl⟩
          rw [Tar.exec_write rfl rfl]
          exact hw.snoc hn (by simp) rfl

/-- A stream that was accepted holds what a walk meets below the root, in that
order, and nothing but directories and regular files. -/
theorem streamTar_holds {info : FileInfo μ} {tree : DirTree (FileInfo μ)}
    (hf : root.found = .dir info tree) {w : TarWriter μ}
    (h : exec (streamTar headerBytes root) Tar.newWriter = (.ok (), w)) :
    w.log = (root.below.map archiveEntry).reverse ∧ w.written = archiveBytes headerBytes root ∧
      ∀ v ∈ root.below, ∀ info, v.2 ≠ .leaf (.other info) := by
  have hskip : ∀ d, streamEntry headerBytes root.path root.path d = pure () := by
    intro d
    rw [streamEntry, if_pos rfl]
  have hwalk : Triple (Holds headerBytes [])
      (forM root.below fun v => streamEntry headerBytes root.path (under root.path v.1) v.2)
      (fun _ => Holds headerBytes ([] ++ root.below)) fun _ _ => True := by
    refine Triple.forM root.below [] fun met v hv => ?_
    obtain ⟨hnames, hne⟩ := root.below_names v hv
    exact streamEntry_holds root.path hnames hne
  rw [exec_streamTar hf, exec_walkDir hf hskip] at h
  cases hr : exec (forM root.below fun v =>
      streamEntry headerBytes root.path (under root.path v.1) v.2) Tar.newWriter with
  | mk r w₀ =>
      simp only [hr, Prod.mk.injEq] at h
      obtain ⟨rfl, rfl⟩ := h
      have hholds : Holds headerBytes root.below w₀ := hwalk.ok ⟨rfl, rfl, rfl, by simp⟩ hr
      rw [Tar.exec_close hholds.left]
      refine ⟨hholds.log, ?_, hholds.plain⟩
      rw [archiveBytes, ← hholds.total]

end Derphole
