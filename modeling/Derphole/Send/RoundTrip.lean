import Derphole.Send.Tar

/-!
# A directory sent and received

`StreamTar` on one side, `ExtractTar` on the other.  The reader of `archive/tar`
gives back the entries that its writer was given (`readBack`), nothing is refused,
and the destination is empty.

The tree is recreated entry by entry, in the order of the walk: a directory is
made before anything in it, so that each entry is added to a directory that
exists, and what is on the disk in the end is the tree planted at the
destination (`extract_listing`).

Two things stand in the way.  A root that is a symbolic link to a directory is
accepted by `os.Stat` and then not followed by the walk, so its archive is empty.
And `ExtractTar` refuses every name that starts with `..`, also an honest one such
as `..data`.  `directory_round_trip_iff` says that nothing else does.
-/

namespace Derphole

open Filepath FileSystem FileTree Lib

variable {μ : Type}

/-- What `tar.Reader.Next` returns for an entry that was written. -/
def readHeader (entry : FileHeader μ × List UInt8) : TarHeader :=
  ⟨entry.1.name, entry.1.typeflag, entry.1.info.mode, entry.1.size, ⟨entry.2, none⟩⟩

/-- The archive as it is read. -/
def readBack (w : TarWriter μ) : TarStream := ⟨w.log.reverse.map readHeader, none⟩

/-- Nothing stands at or below the destination but directories on the way to
it. -/
structure EmptyDestination (host : Host) (disk : Disk) (dest : Path) : Prop where
  named : dest ≠ []
  free : ∀ l, l <+: locate host.cwd dest → disk.kind l = none ∨ disk.kind l = some .dir
  empty : ∀ e r, disk.kind (locate host.cwd dest ++ e :: r) = none

/-- Extraction succeeds, and below the destination the disk is the tree. -/
def Recreated (host : Host) (disk : Disk) (stream : TarStream) (destRoot topLevel : Path)
    (tree : DirTree (FileInfo μ)) : Prop :=
  ∃ w, exec (extractTar host stream destRoot topLevel) ⟨disk, []⟩ = (.ok (), w) ∧
    ∀ l, w.disk.kind (locate host.cwd (join [destRoot, topLevel]) ++ l) = tree.kindAt l

/-! ## One entry -/

variable {host : Host} {base : Path} {b l : Loc}

theorem clean_archiveEntry {d : Visit (FileInfo μ)} (hnames : ∀ e ∈ l, IsName e) (hne : l ≠ []) :
    clean (readHeader (archiveEntry (l, d))).name = [sep].intercalate l := by
  obtain ⟨hfile, hdir⟩ := clean_names hnames hne
  cases d with
  | dir info => exact hdir
  | leaf lf =>
      cases lf with
      | file info content => exact hfile
      | other info => exact hfile

/-- An entry is added to the directory it belongs to. -/
theorem exec_extractEntry (hhost : ∀ d l, host.refuse d l = none) (hbase : base ≠ [])
    (hloc : locate host.cwd base = b) {e : Elem} (hnames : ∀ x ∈ l ++ [e], IsName x)
    (hsafe : ¬dotdot <+: [sep].intercalate (l ++ [e])) {d : Visit (FileInfo μ)}
    (hplain : ∀ info, d ≠ .leaf (.other info)) {w : World} (hl : w.disk.kind (b ++ l) = some .dir)
    (hn : w.disk.kind (b ++ l ++ [e]) = none) :
    ∃ w', exec (extractEntry host base (readHeader (archiveEntry (l ++ [e], d)))) w = (.ok (), w') ∧
      w'.disk.kind = Function.update w.disk.kind (b ++ l ++ [e]) (some d.kind) := by
  have hne : l ++ [e] ≠ [] := by simp
  have hclean := clean_archiveEntry (d := d) hnames hne
  obtain ⟨hsafe', r, hr, hr'⟩ := passes_checks hbase hnames hne hclean hsafe
  have helems : elems ([sep].intercalate (l ++ [e])) = l ++ [e] :=
    elems_intercalate (fun x hx => (hnames x hx).2.2.2) hne
  have htarget := locate_join_names host.cwd hbase helems hnames
  have hparent := locate_dir_join_names host.cwd hbase helems hnames
  rw [hloc, ← List.append_assoc] at htarget
  rw [hloc] at hparent
  rw [extractEntry, if_neg hsafe']
  rw [hclean] at hr ⊢
  simp only [hr, if_neg hr']
  cases d with
  | dir info => exact exec_mkdirAll_new hhost htarget _ hl hn
  | leaf lf =>
      cases lf with
      | other info => exact absurd rfl (hplain info)
      | file info content =>
          have hmk : exec (mkdirAll host (dir (join [base, [sep].intercalate (l ++ [e])])) 0o755) w =
              (.ok (), w) := exec_mkdirAll_of_isDir (by rw [hparent]; exact Disk.isDir_iff_kind.mpr hl)
          obtain ⟨w₁, w₂, hopen, happend, hkind⟩ :=
            exec_openFile_append hhost htarget info.mode content.data hl hn
          refine ⟨w₂, ?_, hkind⟩
          simp only [readHeader, archiveEntry, fileHeader, copyN, List.take_length, Nat.le_refl,
            if_true, bind_assoc]
          rw [exec_bind_ok hmk, exec_bind_ok hopen, exec_bind_ok happend]
          rfl

/-! ## All entries -/

/-- The entries of a walk, read from the archive, plant the tree they come
from.  The induction is over the tree; what follows the entries in the stream
plays no part. -/
theorem extract_listing (hhost : ∀ d l, host.refuse d l = none) (hbase : base ≠ [])
    (hloc : locate host.cwd base = b) (err : Option Err) (tail : List TarHeader) :
    ∀ (es : Entries (FileInfo μ)) (pre : Loc) (w : World), es.WellFormed →
      (∀ e ∈ pre, IsName e) →
      (∀ v ∈ es.listing pre, (∀ info, v.2 ≠ .leaf (.other info)) ∧ ¬dotdot <+: [sep].intercalate v.1) →
      w.disk.kind (b ++ pre) = some .dir →
      (∀ e ∈ es.names, ∀ r, w.disk.kind (b ++ pre ++ e :: r) = none) →
      ∃ w', exec (extractEntries host base err
          ((es.listing pre).map (fun v => readHeader (archiveEntry v)) ++ tail)) w =
          exec (extractEntries host base err tail) w' ∧
        w'.disk.kind = plant (b ++ pre) es w.disk.kind
  | .nil, pre, w, _, _, _, _, _ => ⟨w, rfl, (plant_nil _ _).symm⟩
  | .leaf name lf rest, pre, w, hwf, hpre, hgood, hdir, hfresh => by
      obtain ⟨hname, hnew, hrest⟩ := hwf
      obtain ⟨hplain, hsafe⟩ := hgood (pre ++ [name], .leaf lf) (by simp [Entries.listing])
      obtain ⟨w₁, hw₁, hkind₁⟩ := exec_extractEntry hhost hbase hloc
        (Entries.names_snoc hpre hname) hsafe hplain hdir (hfresh name (by simp [Entries.names]) [])
      have hother : ∀ e ∈ rest.names, e ≠ name := fun e he h => hnew (h ▸ he)
      obtain ⟨w₂, hw₂, hkind₂⟩ := extract_listing hhost hbase hloc err tail rest pre w₁ hrest hpre
        (fun v hv => hgood v (by simp [Entries.listing, hv]))
        (by rw [hkind₁, Function.update_of_ne (by simp), hdir])
        (fun e he r => by
          rw [hkind₁, Function.update_of_ne (by simp [hother e he]), hfresh e (by simp [Entries.names, he])])
      refine ⟨w₂, ?_, ?_⟩
      · rw [Entries.listing, List.map_cons, List.cons_append, extractEntries, exec_bind_ok hw₁, hw₂]
      · rw [hkind₂, hkind₁, plant_leaf _ _ hnew]
        rfl
  | .dir name info children rest, pre, w, hwf, hpre, hgood, hdir, hfresh => by
      obtain ⟨hname, hnew, hchildren, hrest⟩ := hwf
      obtain ⟨hplain, hsafe⟩ := hgood (pre ++ [name], .dir info) (by simp [Entries.listing])
      obtain ⟨w₁, hw₁, hkind₁⟩ := exec_extractEntry hhost hbase hloc
        (Entries.names_snoc hpre hname) hsafe hplain hdir (hfresh name (by simp [Entries.names]) [])
      have hother : ∀ e ∈ rest.names, e ≠ name := fun e he h => hnew (h ▸ he)
      obtain ⟨w₂, hw₂, hkind₂⟩ := extract_listing hhost hbase hloc err
        ((rest.listing pre).map (fun v => readHeader (archiveEntry v)) ++ tail) children
        (pre ++ [name]) w₁ hchildren (Entries.names_snoc hpre hname)
        (fun v hv => hgood v (by simp [Entries.listing, hv]))
        (by rw [hkind₁, ← List.append_assoc, Function.update_self]; rfl)
        (fun e he r => by
          rw [hkind₁, Function.update_of_ne (by simp), ← hfresh name (by simp [Entries.names]) (e :: r)]
          simp)
      rw [← List.append_assoc] at hkind₂
      obtain ⟨w₃, hw₃, hkind₃⟩ := extract_listing hhost hbase hloc err tail rest pre w₂ hrest hpre
        (fun v hv => hgood v (by simp [Entries.listing, hv]))
        (by rw [hkind₂, plant_outside (not_prefix_self _ _), hkind₁,
          Function.update_of_ne (by simp), hdir])
        (fun e he r => by
          rw [hkind₂, plant_outside (not_prefix_of_ne r (hother e he)), hkind₁,
            Function.update_of_ne (by simp [hother e he]), hfresh e (by simp [Entries.names, he])])
      refine ⟨w₃, ?_, ?_⟩
      · rw [Entries.listing, List.map_cons, List.cons_append, extractEntries, exec_bind_ok hw₁,
          List.map_append, List.append_assoc, hw₂, hw₃]
      · rw [hkind₃, hkind₂, hkind₁, plant_dir _ _ _ hnew]
        rfl

/-- An extraction that succeeds met no name that starts with `..`. -/
theorem safe_of_extractEntries {err : Option Err} {w' : World} :
    ∀ {hdrs : List TarHeader} {w : World},
      exec (extractEntries host base err hdrs) w = (.ok (), w') →
        ∀ hdr ∈ hdrs, ¬dotdot <+: clean hdr.name
  | [], _, _, hdr, hmem => by cases hmem
  | first :: rest, w, h, hdr, hmem => by
      rw [extractEntries, exec_bind] at h
      cases hr : exec (extractEntry host base first) w with
      | mk r w₁ =>
          rw [hr] at h
          cases r with
          | error e => cases h
          | ok a =>
              rcases List.mem_cons.mp hmem with rfl | hmem
              · intro hdd
                rw [extractEntry, if_pos (.inr (.inl hdd))] at hr
                cases hr
              · exact safe_of_extractEntries h hdr hmem

/-! ## The round trip -/

variable {disk : Disk} {destRoot topLevel : Path} {tree : DirTree (FileInfo μ)}

/-- The destination is made first. -/
theorem exec_extractTar (hhost : ∀ d l, host.refuse d l = none)
    (hdest : EmptyDestination host disk (join [destRoot, topLevel])) (stream : TarStream) :
    ∃ w, exec (extractTar host stream destRoot topLevel) ⟨disk, []⟩ =
        exec (extractEntries host (join [destRoot, topLevel]) stream.err stream.entries) w ∧
      w.disk.kind (locate host.cwd (join [destRoot, topLevel])) = some .dir ∧
      ∀ e r, w.disk.kind (locate host.cwd (join [destRoot, topLevel]) ++ e :: r) = none := by
  obtain ⟨w, hw, hkind⟩ := exec_mkdirAll hhost rfl 0o755 ⟨disk, []⟩ hdest.free
  refine ⟨w, ?_, ?_, ?_⟩
  · rw [extractTar, exec_bind_ok hw]
  · rw [hkind]
    simp
  · intro e r
    have hnot : ¬locate host.cwd (join [destRoot, topLevel]) ++ e :: r <+:
        locate host.cwd (join [destRoot, topLevel]) := by
      intro h
      have := h.length_le
      rw [List.length_append, List.length_cons] at this
      omega
    rw [hkind]
    simp only [hnot, if_false]
    exact hdest.empty e r

/-- From a stream without entries only an empty directory is recreated. -/
theorem recreated_of_no_entries (hhost : ∀ d l, host.refuse d l = none)
    (hdest : EmptyDestination host disk (join [destRoot, topLevel])) :
    Recreated host disk ⟨[], none⟩ destRoot topLevel tree ↔ tree.entries = .nil := by
  obtain ⟨w, hw, hdir, hempty⟩ := exec_extractTar hhost hdest ⟨[], none⟩
  have hdone : exec (extractTar host ⟨[], none⟩ destRoot topLevel) ⟨disk, []⟩ = (.ok (), w) := hw
  constructor
  · rintro ⟨w', hw', hkind⟩
    rw [hdone] at hw'
    obtain rfl := (Prod.mk.inj hw').2
    refine Entries.eq_nil_of_find fun l => ?_
    cases l with
    | nil => exact Entries.find_nil _
    | cons e r =>
        have := hkind (e :: r)
        rw [hempty, DirTree.kindAt, if_neg (by simp)] at this
        exact this.symm
  · intro hnil
    refine ⟨w, hdone, fun l => ?_⟩
    cases l with
    | nil => rwa [List.append_nil]
    | cons e r =>
        rw [hempty, DirTree.kindAt, if_neg (by simp), hnil]
        rfl

/-- From the entries of a walk the tree is recreated, unless a name starts with
`..`. -/
theorem recreated_of_listing (hhost : ∀ d l, host.refuse d l = none)
    (hdest : EmptyDestination host disk (join [destRoot, topLevel]))
    (hplain : ∀ v ∈ tree.entries.listing [], ∀ info, v.2 ≠ .leaf (.other info)) :
    Recreated host disk
        ⟨(tree.entries.listing []).map fun v => readHeader (archiveEntry v), none⟩ destRoot topLevel
        tree ↔
      ∀ e ∈ tree.entries.names, ¬dotdot <+: e := by
  obtain ⟨w, hw, hdir, hempty⟩ := exec_extractTar hhost hdest
    ⟨(tree.entries.listing []).map fun v => readHeader (archiveEntry v), none⟩
  have hnames := fun v => Entries.listing_names [] (by simp) tree.wellFormed v
  constructor
  · rintro ⟨w', hw', -⟩ e he
    obtain ⟨d, hmem⟩ := Entries.mem_listing_of_mem_names [] he
    rw [hw] at hw'
    have hsafe := safe_of_extractEntries hw' _ (List.mem_map.mpr ⟨_, hmem, rfl⟩)
    rwa [clean_archiveEntry (hnames _ hmem).1 (by simp), List.nil_append,
      List.intercalate_singleton] at hsafe
  · intro hsafe
    have hgood : ∀ v ∈ tree.entries.listing [], (∀ info, v.2 ≠ .leaf (.other info)) ∧
        ¬dotdot <+: [sep].intercalate v.1 := by
      intro v hv
      obtain ⟨hv', e, r, he, hr⟩ := hnames v hv
      refine ⟨hplain v hv, ?_⟩
      rw [hr, List.nil_append, dotdot_prefix_intercalate r (hv' e (by rw [hr]; simp))]
      exact hsafe e he
    obtain ⟨w', hw', hkind⟩ := extract_listing hhost hdest.named rfl none [] tree.entries [] w
      tree.wellFormed (by simp) hgood (by rwa [List.append_nil])
      (fun e _ r => by rw [List.append_nil]; exact hempty e r)
    rw [List.append_nil] at hw' hkind
    refine ⟨w', hw.trans hw', fun l => ?_⟩
    rw [hkind, plant_append, DirTree.kindAt]
    cases l with
    | nil => rw [Entries.find_nil, Option.none_or, List.append_nil, hdir, if_pos rfl]
    | cons e r => rw [hempty, Option.or_none, if_neg (by simp)]

/-- What is read from an accepted stream is what the walk met. -/
theorem readBack_stream {headerBytes : HeaderBytes μ} {root : Root (FileInfo μ) Err}
    {info : FileInfo μ} (hf : root.found = .dir info tree) {w : TarWriter μ}
    (hstream : exec (streamTar headerBytes root) Tar.newWriter = (.ok (), w)) :
    readBack w = ⟨root.below.map fun v => readHeader (archiveEntry v), none⟩ := by
  rw [readBack, (streamTar_holds hf hstream).1, List.reverse_reverse, List.map_map]
  rfl

/-- A directory that `StreamTar` accepts is recreated by `ExtractTar` exactly when
its path is not a symbolic link, unless it is empty, and no name in it starts
with `..`. -/
theorem directory_round_trip_iff (headerBytes : HeaderBytes μ) (root : Root (FileInfo μ) Err)
    (info : FileInfo μ) (tree : DirTree (FileInfo μ)) (hf : root.found = .dir info tree)
    (w : TarWriter μ) (hstream : exec (streamTar headerBytes root) Tar.newWriter = (.ok (), w))
    (host : Host) (hhost : ∀ d l, host.refuse d l = none) (disk : Disk) (destRoot topLevel : Path)
    (hdest : EmptyDestination host disk (join [destRoot, topLevel])) :
    Recreated host disk (readBack w) destRoot topLevel tree ↔
      (root.link = none ∨ tree.entries = .nil) ∧ ∀ e ∈ tree.entries.names, ¬dotdot <+: e := by
  obtain ⟨-, -, hplain⟩ := streamTar_holds hf hstream
  rw [readBack_stream hf hstream]
  rw [Root.below, hf] at hplain ⊢
  cases hlink : root.link with
  | none =>
      rw [hlink] at hplain
      rw [recreated_of_listing hhost hdest hplain]
      simp
  | some linkInfo =>
      rw [List.map_nil, recreated_of_no_entries hhost hdest]
      simp only [reduceCtorEq, false_or]
      refine ⟨fun hnil => ⟨hnil, ?_⟩, fun h => h.1⟩
      rw [hnil]
      simp [Entries.names]

/-! ## A disk with an empty directory -/

theorem Disk.kind_upTo (c l : Loc) :
    (Disk.upTo c).kind l = if l <+: c then some .dir else none := by
  by_cases h : l <+: c
  · simp [FileSystem.Disk.kind, Disk.upTo, h, Node.kind]
  · simp [FileSystem.Disk.kind, Disk.upTo, h]

theorem emptyDestination_upTo {dest : Path} {c : Loc} {e : Elem} (hnamed : dest ≠ [])
    (hloc : locate host.cwd dest = c ++ [e]) : EmptyDestination host (Disk.upTo c) dest where
  named := hnamed
  free := by
    intro l _
    rw [Disk.kind_upTo]
    split
    · exact .inr rfl
    · exact .inl rfl
  empty := by
    intro x r
    have hnot : ¬c ++ [e] ++ x :: r <+: c := by
      intro h
      have := h.length_le
      simp only [List.length_append, List.length_cons] at this
      omega
    rw [hloc, Disk.kind_upTo, if_neg hnot]

/-- Every header takes one block. -/
def oneBlock (_ : FileHeader Unit) : Except Err Nat := .ok 512

/-- A file `name` of one byte, and a directory `n` with a file `...` in it. -/
def smallTree (name : Elem) (h : IsName name) (hn : name ≠ ['n']) : DirTree (FileInfo Unit) where
  entries := .leaf name (.file ⟨0o644, ()⟩ ⟨[7], by simp⟩)
    (.dir ['n'] ⟨0o755, ()⟩ (.leaf ['.', '.', '.'] (.file ⟨0o644, ()⟩ ⟨[8], by simp⟩) .nil) .nil)
  wellFormed := by
    refine ⟨h, by simpa [Entries.names] using hn, ?_⟩
    simp [Entries.WellFormed, Entries.names, IsName, dot, dotdot, sep]

/-- The tree at the path `s`. -/
def smallRoot (link : Option (FileInfo Unit)) (tree : DirTree (FileInfo Unit)) :
    Root (FileInfo Unit) Err :=
  ⟨['s'], link, .dir ⟨0o755, ()⟩ tree⟩

def smallStream (root : Root (FileInfo Unit) Err) : TarWriter Unit :=
  (exec (streamTar oneBlock root) Tar.newWriter).2

theorem smallStream_ok (root : Root (FileInfo Unit) Err)
    (h : (exec (streamTar oneBlock root) Tar.newWriter).1.toOption = some ()) :
    exec (streamTar oneBlock root) Tar.newWriter = (.ok (), smallStream root) := exec_eq_ok h

/-- The directory `t` in the working directory, which is empty. -/
theorem exampleDestination :
    EmptyDestination exampleHost (Disk.upTo exampleHost.cwd) (join [dot, ['t']]) :=
  emptyDestination_upTo (e := ['t']) (by decide) (by decide)

def plainTree : DirTree (FileInfo Unit) :=
  smallTree ['f'] ⟨by decide, by decide, by decide, by decide⟩ (by decide)

/-- A tree with a file, and a directory with a file in it, is recreated. -/
theorem directory_round_trip_plain :
    exec (streamTar oneBlock (smallRoot none plainTree)) Tar.newWriter =
        (.ok (), smallStream (smallRoot none plainTree)) ∧
      Recreated exampleHost (Disk.upTo exampleHost.cwd)
        (readBack (smallStream (smallRoot none plainTree))) dot ['t'] plainTree := by
  have hstream := smallStream_ok (smallRoot none plainTree) (by decide +kernel)
  refine ⟨hstream, ?_⟩
  refine (directory_round_trip_iff oneBlock _ _ plainTree rfl _ hstream exampleHost
    (fun _ _ => rfl) _ dot ['t'] exampleDestination).mpr ⟨.inl rfl, ?_⟩
  decide

def dotdotTree : DirTree (FileInfo Unit) :=
  smallTree ['.', '.', 'd', 'a', 't', 'a'] ⟨by decide, by decide, by decide, by decide⟩ (by decide)

/-- A directory with a file `..data` in it, and a symbolic link to a directory
with two entries: both are accepted, and neither is recreated. -/
theorem directory_round_trip_fails :
    (exec (streamTar oneBlock (smallRoot none dotdotTree)) Tar.newWriter =
        (.ok (), smallStream (smallRoot none dotdotTree)) ∧
      ¬Recreated exampleHost (Disk.upTo exampleHost.cwd)
        (readBack (smallStream (smallRoot none dotdotTree))) dot ['t'] dotdotTree) ∧
    exec (streamTar oneBlock (smallRoot (some ⟨0o777, ()⟩) plainTree)) Tar.newWriter =
        (.ok (), smallStream (smallRoot (some ⟨0o777, ()⟩) plainTree)) ∧
      ¬Recreated exampleHost (Disk.upTo exampleHost.cwd)
        (readBack (smallStream (smallRoot (some ⟨0o777, ()⟩) plainTree))) dot ['t'] plainTree := by
  have hdots := smallStream_ok (smallRoot none dotdotTree) (by decide +kernel)
  have hlink := smallStream_ok (smallRoot (some ⟨0o777, ()⟩) plainTree) (by decide +kernel)
  refine ⟨⟨hdots, ?_⟩, hlink, ?_⟩
  · have hplain := (streamTar_holds rfl hdots).2.2
    rw [readBack_stream rfl hdots]
    intro h
    have hsafe := (recreated_of_listing (fun _ _ => rfl) exampleDestination hplain).mp h
    exact hsafe ['.', '.', 'd', 'a', 't', 'a'] (by decide) (by decide)
  · rw [readBack_stream rfl hlink]
    intro h
    have hnil := (recreated_of_no_entries (fun _ _ => rfl) exampleDestination).mp h
    cases hnil

end Derphole
