import Derphole.Lib.FileSystem

/-!
# Receiving files and directories

`ResolveOutputPath` and `ResolveDirectoryOutput` of `pkg/derphole/output.go`,
`ExtractTar` of `pkg/derphole/archive/tarstream.go`, and the receive paths of
`pkg/derphole/transfer.go` that call them: a file over the session, a file over
the web relay, a directory as a tar stream.

The peer chooses the name, the bytes and the tar entries.  The user chooses the
output path.  What is printed and the progress reports are left out.
-/

namespace Derphole

open Filepath FileSystem Lib

/-- What a stream yields: some bytes, then its end or an error. -/
structure Reader where
  data : List UInt8
  err : Option Err

inductive Typeflag where
  | dir
  | reg
  | other (flag : Nat)
  deriving DecidableEq

/-- One result of `tar.Reader.Next`, with the contents that follow it. -/
structure TarHeader where
  name : Path
  typeflag : Typeflag
  mode : Nat
  size : Nat
  body : Reader

/-- A tar stream: its entries, then its end or an error. -/
structure TarStream where
  entries : List TarHeader
  err : Option Err

/-! ## Choosing the output -/

/-- The three results of `filepath.Base` that name nothing. -/
def missingName (name : Path) : Prop := name = dot ∨ name = [sep] ∨ name = []

instance (name : Path) : Decidable (missingName name) := inferInstanceAs (Decidable (_ ∨ _))

def resolveOutputPath (host : Host) (outputPath suggested : Path) : FS Path :=
  if missingName (base suggested) then fail (.text "missing suggested filename")
  else if outputPath = [] then pure (base suggested)
  else do
    match ← stat host outputPath with
    | .ok info => if info.isDir then pure (join [outputPath, base suggested]) else pure outputPath
    | .error e => if e = .notExist then pure outputPath else fail e

def resolveDirectoryOutput (host : Host) (outputPath suggested : Path) : FS (Path × Path) :=
  if missingName (base suggested) then fail (.text "missing suggested directory name")
  else if outputPath = [] then pure (dot, base suggested)
  else do
    match ← stat host outputPath with
    | .ok info =>
        if info.isDir then pure (outputPath, base suggested)
        else fail (.text "directory output path points to an existing file")
    | .error e => if e = .notExist then pure (dir outputPath, base outputPath) else fail e

/-! ## Copying -/

/-- `io.CopyN` into the file opened at `target`. -/
def copyN (host : Host) (target : Path) (r : Reader) (n : Nat) : FS (Option Err) := do
  appendFile host target (r.data.take n)
  if n ≤ r.data.length then pure none else pure (some (r.err.getD .eof))

/-- `io.Copy` into the file opened at `target`. -/
def copyAll (host : Host) (target : Path) (r : Reader) : FS (Option Err) := do
  appendFile host target r.data
  pure r.err

def orFail : Option Err → FS Unit
  | none => pure ()
  | some e => fail e

/-! ## A tar stream -/

def extractEntry (host : Host) (root : Path) (hdr : TarHeader) : FS Unit :=
  if clean hdr.name = dot ∨ dotdot <+: clean hdr.name ∨ isAbs (clean hdr.name) then
    fail (.errorf "unsafe tar path %q" [hdr.name])
  else
    let target := join [root, clean hdr.name]
    match rel root target with
    | none => fail (.errorf "Rel: can't make %s relative to %s" [target, root])
    | some r =>
        if r = dotdot ∨ dotdot ++ [sep] <+: r then fail (.errorf "unsafe tar target %q" [hdr.name])
        else
          match hdr.typeflag with
          | .dir => mkdirAll host target hdr.mode
          | .reg => do
              mkdirAll host (dir target) 0o755
              openFile host target hdr.mode
              let copyErr ← copyN host target hdr.body hdr.size
              orFail copyErr
          | .other _ => fail (.errorf "unsupported tar entry type %d for %q" [hdr.name])

def extractEntries (host : Host) (root : Path) (err : Option Err) : List TarHeader → FS Unit
  | [] => orFail err
  | hdr :: rest => do
      extractEntry host root hdr
      extractEntries host root err rest

def extractTar (host : Host) (r : TarStream) (destRoot topLevel : Path) : FS Unit := do
  mkdirAll host (join [destRoot, topLevel]) 0o755
  extractEntries host (join [destRoot, topLevel]) r.err r.entries

/-! ## Receiving -/

/-- Make the directory of `target` unless it is the working directory, and
create the file. -/
def createTarget (host : Host) (target : Path) : FS Unit := do
  if dir target ≠ dot then mkdirAll host (dir target) 0o755
  create host target

def receiveFile (host : Host) (r : Reader) (name : Path) (size : Int) (outputPath : Path) :
    FS Unit := do
  let target ← resolveOutputPath host outputPath name
  createTarget host target
  if 0 < size then
    match ← copyN host target r size.toNat with
    | none => pure ()
    | some e =>
        if e = .eof ∨ e = .unexpectedEof then
          fail (.errorf "incomplete file transfer: received %s of %s: %w" [])
        else fail e
  else
    let err ← copyAll host target r
    orFail err

/-- The file sink of the web relay: opened, written chunk by chunk, closed. -/
def receiveWebFile (host : Host) (chunks : List (List UInt8)) (name outputPath : Path) :
    FS Unit := do
  let target ← resolveOutputPath host outputPath name
  createTarget host target
  appendFile host target chunks.flatten

def receiveDirectory (host : Host) (r : TarStream) (name outputPath : Path) : FS Unit := do
  let out ← resolveDirectoryOutput host outputPath name
  extractTar host r out.1 out.2

/-- What a peer can send under a name. -/
inductive Transfer where
  | file (size : Int) (r : Reader)
  | webFile (chunks : List (List UInt8))
  | directory (r : TarStream)

def receive (host : Host) (outputPath name : Path) : Transfer → FS Unit
  | .file size r => receiveFile host r name size outputPath
  | .webFile chunks => receiveWebFile host chunks name outputPath
  | .directory r => receiveDirectory host r name outputPath

/-- The locations receiving creates or opens. -/
def touches (host : Host) (disk : Disk) (outputPath name : Path) (t : Transfer) : List Loc :=
  (exec (receive host outputPath name t) ⟨disk, []⟩).2.touched

/-! ## Containment -/

variable {host : Host} {d : Loc}

theorem Confined.orFail (e : Option Err) : Keeps (Confined d) (orFail e) fun _ => True := by
  cases e with
  | none => exact Keeps.pure trivial
  | some e => exact Keeps.fail e

theorem Confined.copyN (target : Path) (r : Reader) (n : Nat) :
    Keeps (Confined d) (copyN host target r n) fun _ => True := by
  refine (Confined.appendFile host d target _).bind fun _ _ => ?_
  exact Keeps.ite (fun _ => Keeps.pure trivial) fun _ => Keeps.pure trivial

/-- An entry that passes the checks lies below the root of the extraction. -/
theorem Confined.extractEntry {root : Path} (hroot : root ≠ []) (hloc : d <+: locate host.cwd root)
    (hdr : TarHeader) : Keeps (Confined d) (extractEntry host root hdr) fun _ => True := by
  refine Keeps.ite (fun _ => Keeps.fail _) fun hsafe => ?_
  simp only [not_or] at hsafe
  obtain ⟨es, e, helems, hnames⟩ := elems_clean_names hsafe.1 hsafe.2.1 (by simpa using hsafe.2.2)
  obtain ⟨ds, hds⟩ := hloc
  have htarget := locate_join_names host.cwd hroot helems hnames
  have hdir := locate_dir_join_names host.cwd hroot helems hnames
  rw [← hds] at htarget hdir
  simp only
  split
  · exact Keeps.fail _
  · refine Keeps.ite (fun _ => Keeps.fail _) fun _ => ?_
    split
    · exact Confined.mkdirAll host _ ⟨ds ++ (es ++ [e]), by rw [htarget, List.append_assoc]⟩
    · have hin : Inside d (locate host.cwd (join [root, clean hdr.name])) := by
        rw [htarget, List.append_assoc, ← List.append_assoc ds, ← List.append_assoc d]
        exact inside_append_snoc d (ds ++ es) e
      have hbelow : d <+: locate host.cwd (dir (join [root, clean hdr.name])) :=
        ⟨ds ++ es, by rw [hdir, List.append_assoc]⟩
      refine (Confined.mkdirAll host _ hbelow).bind fun _ _ => ?_
      refine (Confined.openFile host _ (.inl hin)).bind fun _ _ => ?_
      exact (Confined.copyN _ _ _).bind fun _ _ => Confined.orFail _
    · exact Keeps.fail _

theorem Confined.extractEntries {root : Path} (hroot : root ≠ [])
    (hloc : d <+: locate host.cwd root) (err : Option Err) :
    ∀ hdrs : List TarHeader,
      Keeps (Confined d) (extractEntries host root err hdrs) fun _ => True
  | [] => Confined.orFail err
  | hdr :: rest =>
      (Confined.extractEntry hroot hloc hdr).bind fun _ _ =>
        Confined.extractEntries hroot hloc err rest

theorem Confined.extractTar {destRoot topLevel : Path} (hdest : destRoot ≠ [])
    (hloc : d <+: locate host.cwd (join [destRoot, topLevel])) (r : TarStream) :
    Keeps (Confined d) (extractTar host r destRoot topLevel) fun _ => True := by
  refine (Confined.mkdirAll host _ hloc).bind fun _ _ => ?_
  exact Confined.extractEntries (by rw [join_two hdest]; exact clean_ne_nil _) hloc _ _

/-- A name that is safe to use in `d`: an entry of `d`, unless `d` is the root,
where nothing lies outside. -/
def SafeIn (d : Loc) (name : Path) : Prop := IsName name ∨ d = []

theorem SafeIn.below_join {p name : Path} (h : SafeIn d name) (hp : p ≠ [])
    (hloc : locate host.cwd p = d) : d <+: locate host.cwd (join [p, name]) := by
  rcases h with h | rfl
  · rw [locate_join_names host.cwd hp (elems_of_sep_not_mem h.2.2.2) (by simpa using h), hloc]
    exact List.prefix_append _ _
  · exact List.nil_prefix

theorem inside_root (l : Loc) : Inside [] l ∨ l = [] := by
  cases l with
  | nil => exact .inr rfl
  | cons e es => exact .inl ⟨e, es, rfl⟩

/-- With an existing directory chosen, the target is a name in it. -/
theorem Confined.resolveOutputPath {output name : Path} (hout : locate host.cwd output = d)
    (hname : ¬missingName (base name) → SafeIn d (base name)) :
    Keeps (Confined d) (resolveOutputPath host output name) fun target =>
      (Inside d (locate host.cwd target) ∨ locate host.cwd target = []) ∧
        (dir target = dot ∨ d <+: locate host.cwd (dir target)) := by
  refine Keeps.ite (fun _ => Keeps.fail _) fun hmiss => ?_
  refine Keeps.ite (fun hnil => ?_) fun hne => ?_
  · refine Keeps.pure ?_
    rcases hname hmiss with hn | rfl
    · refine ⟨.inl ⟨base name, [], ?_⟩, .inl (dir_name hn.2.2.2)⟩
      rw [locate_name host.cwd hn, ← hout, hnil, locate_nil]
    · exact ⟨inside_root _, .inr List.nil_prefix⟩
  · refine (Confined.stat host hout).bind fun r hr => ?_
    obtain ⟨n, rfl, hdir⟩ | ⟨errno, rfl⟩ := hr
    · simp only [hdir, if_true]
      refine Keeps.pure ?_
      rcases hname hmiss with hn | rfl
      · have helems : elems (base name) = [] ++ [base name] := elems_of_sep_not_mem hn.2.2.2
        refine ⟨.inl ⟨base name, [], ?_⟩, .inr ⟨[], ?_⟩⟩
        · rw [locate_join_names host.cwd hne helems (by simpa using hn), hout]
          rfl
        · rw [locate_dir_join_names host.cwd hne helems (by simpa using hn), hout]
      · exact ⟨inside_root _, .inr List.nil_prefix⟩
    · exact Keeps.ite (fun h => by cases h) fun _ => Keeps.fail _

theorem Confined.resolveDirectoryOutput {output name : Path} (hout : locate host.cwd output = d)
    (hname : ¬missingName (base name) → SafeIn d (base name)) :
    Keeps (Confined d) (resolveDirectoryOutput host output name) fun out =>
      out.1 ≠ [] ∧ d <+: locate host.cwd (join [out.1, out.2]) := by
  refine Keeps.ite (fun _ => Keeps.fail _) fun hmiss => ?_
  refine Keeps.ite (fun hnil => ?_) fun hne => ?_
  · refine Keeps.pure ⟨List.cons_ne_nil _ _, (hname hmiss).below_join (List.cons_ne_nil _ _) ?_⟩
    rw [locate_dot, ← hout, hnil, locate_nil]
  · refine (Confined.stat host hout).bind fun r hr => ?_
    obtain ⟨n, rfl, hdir⟩ | ⟨errno, rfl⟩ := hr
    · simp only [hdir, if_true]
      exact Keeps.pure ⟨hne, (hname hmiss).below_join hne hout⟩
    · exact Keeps.ite (fun h => by cases h) fun _ => Keeps.fail _

theorem Confined.createTarget {target : Path}
    (htarget : Inside d (locate host.cwd target) ∨ locate host.cwd target = [])
    (hdir : dir target = dot ∨ d <+: locate host.cwd (dir target)) :
    Keeps (Confined d) (createTarget host target) fun _ => True := by
  have hcreate : Keeps (Confined d) (create host target) fun _ => True :=
    Confined.openFile host _ htarget
  rw [Derphole.createTarget]
  by_cases h : dir target = dot
  · simpa [h] using hcreate
  · simpa [h] using (Confined.mkdirAll host _ (hdir.resolve_left h)).bind fun _ _ => hcreate

/-- Receiving under a safe name stays inside the chosen directory. -/
theorem Confined.receive {output name : Path} (hout : locate host.cwd output = d)
    (hname : ¬missingName (base name) → SafeIn d (base name)) (t : Transfer) :
    Keeps (Confined d) (receive host output name t) fun _ => True := by
  cases t with
  | file size r =>
      refine (Confined.resolveOutputPath hout hname).bind fun target h => ?_
      refine (Confined.createTarget h.1 h.2).bind fun _ _ => ?_
      refine Keeps.ite (fun _ => ?_) fun _ => ?_
      · refine (Confined.copyN _ _ _).bind fun e _ => ?_
        cases e with
        | none => exact Keeps.pure trivial
        | some e => exact Keeps.ite (fun _ => Keeps.fail _) fun _ => Keeps.fail _
      · refine Keeps.bind (Q := fun _ => True) ?_ fun e _ => Confined.orFail e
        exact (Confined.appendFile host d target _).bind fun _ _ => Keeps.pure trivial
  | webFile chunks =>
      refine (Confined.resolveOutputPath hout hname).bind fun target h => ?_
      refine (Confined.createTarget h.1 h.2).bind fun _ _ => ?_
      exact Confined.appendFile host d target _
  | directory r =>
      refine (Confined.resolveDirectoryOutput hout hname).bind fun out h => ?_
      exact Confined.extractTar h.1 h.2 r

/-! ## A directory named `..` -/

/-- The disk that holds nothing but the directories on the way to `c`. -/
def Disk.upTo (c : Loc) : Disk where
  node l := if l <+: c then some (.dir 0o755) else none
  root := by simp [isDirAt, Node.isDir]
  parent := by
    intro l e h
    have hle : l ++ [e] <+: c := by
      by_contra hc
      exact h (if_neg hc)
    have hl : l <+: c := (List.prefix_append l [e]).trans hle
    simp [isDirAt, hl, Node.isDir]

theorem Disk.isDir_upTo {c l : Loc} : (Disk.upTo c).isDir l = true ↔ l <+: c := by
  by_cases h : l <+: c <;> simp [Disk.isDir, isDirAt, Disk.upTo, h, Node.isDir]

/-- A regular file of no bytes. -/
def emptyFile (name : Path) : TarHeader := ⟨name, .reg, 0o644, 0, ⟨[], none⟩⟩

/-- Names that do not start with `..` pass the checks. -/
theorem passes_checks {root name : Path} {l : Loc} (hroot : root ≠ []) (hnames : ∀ e ∈ l, IsName e) (hne : l ≠ [])
    (hclean : clean name = [sep].intercalate l) (hsafe : ¬dotdot <+: [sep].intercalate l) :
    ¬(clean name = dot ∨ dotdot <+: clean name ∨ isAbs (clean name)) ∧
      ∃ r, rel root (join [root, clean name]) = some r ∧ ¬(r = dotdot ∨ dotdot ++ [sep] <+: r) := by
  have helems : elems ([sep].intercalate l) = l := elems_intercalate (fun e he => (hnames e he).2.2.2) hne
  have habs : isAbs ([sep].intercalate l) = false :=
    isAbs_intercalate fun e he => ⟨(hnames e he).1, (hnames e he).2.2.2⟩
  have hdot : [sep].intercalate l ≠ dot := by
    intro h
    rw [h] at helems
    exact (hnames dot (by rw [← helems]; decide)).2.1 rfl
  rw [hclean]
  refine ⟨by simp [hdot, hsafe, habs], ?_⟩
  rcases rel_join_names hroot helems hnames with h | h
  · exact ⟨dot, h, by decide⟩
  · refine ⟨_, h, ?_⟩
    rintro (h' | h')
    · exact hsafe (h' ▸ List.prefix_rfl)
    · exact hsafe ((List.prefix_append _ _).trans h')

/-- An entry that is a plain name is created in the root of the extraction. -/
theorem exec_extractEntry_emptyFile {root : Path} {l : Loc} {e : Elem} {w : World}
    (hroot : root ≠ []) (hloc : locate host.cwd root = l) (hl : w.disk.isDir l = true)
    (hr : host.refuse w.disk (l ++ [e]) = none) (hd : w.disk.isDir (l ++ [e]) ≠ true)
    (he : IsName e) (hclean : clean e = e) (hdd : ¬dotdot <+: e) :
    ∃ disk, exec (extractEntry host root (emptyFile e)) w =
      (.ok (), ⟨disk, (l ++ [e]) :: w.touched⟩) := by
  have helems : elems e = [] ++ [e] := elems_of_sep_not_mem he.2.2.2
  have htarget := locate_join_names host.cwd hroot helems (by simpa using he)
  have hdir := locate_dir_join_names host.cwd hroot helems (by simpa using he)
  rw [hloc] at htarget hdir
  rw [List.append_nil] at hdir
  have hmk : exec (mkdirAll host (dir (join [root, e])) 0o755) w = (.ok (), w) :=
    exec_mkdirAll_of_isDir (by rw [hdir]; exact hl)
  obtain ⟨disk, hopen, -⟩ := exec_openFile 0o644 htarget hr hl hd
  obtain ⟨disk', happ⟩ := exec_appendFile host (join [root, e]) [] ⟨disk, (l ++ [e]) :: w.touched⟩
  have hone : [sep].intercalate [e] = e := List.intercalate_singleton
  obtain ⟨hsafe, r, hr', hrel⟩ := passes_checks (l := [e]) hroot (by simpa using he) (by simp)
    (hclean.trans hone.symm) (by rwa [hone])
  rw [hclean] at hr'
  refine ⟨disk', ?_⟩
  rw [extractEntry, emptyFile, if_neg hsafe]
  simp only [hclean, hr', if_neg hrel]
  rw [exec_bind_ok hmk, exec_bind_ok hopen, copyN]
  simp only [List.take_nil, List.length_nil, Nat.le_refl, if_true, bind_assoc]
  rw [exec_bind_ok happ]
  rfl

/-- Under the name `..` a directory is extracted next to the chosen one. -/
theorem touches_dotdot {output name : Path} {l : Loc} {c e : Elem} (hname : base name = dotdot)
    (hout : locate host.cwd output = l ++ [c]) (hrefuse : ∀ disk l, host.refuse disk l = none)
    (he : IsName e) (hclean : clean e = e) (hdd : ¬dotdot <+: e) (hne : e ≠ c) :
    l ++ [e] ∈ touches host (Disk.upTo (l ++ [c])) output name
      (.directory ⟨[emptyFile e], none⟩) := by
  have hc : c ≠ dotdot := (locate_names host.names output c (by rw [hout]; simp)).2.2.1
  have hl : (Disk.upTo (l ++ [c])).isDir l = true := Disk.isDir_upTo.mpr (List.prefix_append l [c])
  have hd : (Disk.upTo (l ++ [c])).isDir (l ++ [e]) ≠ true := by
    intro h
    obtain ⟨t, ht⟩ := Disk.isDir_upTo.mp h
    rw [List.append_assoc, List.append_cancel_left_eq] at ht
    simp only [List.singleton_append, List.cons.injEq] at ht
    exact hne ht.1
  have hresolve : ∃ destRoot, destRoot ≠ [] ∧ locate host.cwd destRoot = l ++ [c] ∧
      exec (resolveDirectoryOutput host output name) ⟨Disk.upTo (l ++ [c]), []⟩ =
        (.ok (destRoot, dotdot), ⟨Disk.upTo (l ++ [c]), []⟩) := by
    have hmiss : ¬missingName dotdot := by decide
    by_cases hnil : output = []
    · refine ⟨dot, by decide, ?_, ?_⟩
      · rw [locate_dot, ← hout, hnil, locate_nil]
      · rw [resolveDirectoryOutput, hname, if_neg hmiss, if_pos hnil]
        rfl
    · refine ⟨output, hnil, hout, ?_⟩
      have hstat : exec (stat host output) ⟨Disk.upTo (l ++ [c]), []⟩ =
          (.ok (.ok (.dir 0o755)), ⟨Disk.upTo (l ++ [c]), []⟩) := by
        simp [exec, ExceptT.run, stat, hrefuse, hout, Disk.upTo]
      rw [resolveDirectoryOutput, hname, if_neg hmiss, if_neg hnil, exec_bind_ok hstat]
      rfl
  obtain ⟨destRoot, hdest, hloc, hexec⟩ := hresolve
  have hbase : locate host.cwd (join [destRoot, dotdot]) = l := locate_join_dotdot hdest hc hloc
  have hbase' : join [destRoot, dotdot] ≠ [] := by
    rw [join_two hdest]
    exact clean_ne_nil _
  obtain ⟨disk, hentry⟩ := exec_extractEntry_emptyFile (w := ⟨Disk.upTo (l ++ [c]), []⟩)
    hbase' hbase hl (hrefuse _ _) hd he hclean hdd
  rw [touches, receive, receiveDirectory, exec_bind_ok hexec, extractTar,
    exec_bind_ok (exec_mkdirAll_of_isDir (by rw [hbase]; exact hl)), extractEntries, exec_bind_ok hentry]
  exact List.mem_cons_self

/-- A name for an entry next to `c`. -/
def freshElem (c : Elem) : Elem := if c = ['x'] then ['y'] else ['x']

theorem freshElem_ne (c : Elem) : freshElem c ≠ c := by
  rw [freshElem]
  split
  · rename_i h
    rw [h]
    decide
  · rename_i h
    exact fun h' => h h'.symm

theorem freshElem_isName (c : Elem) :
    IsName (freshElem c) ∧ clean (freshElem c) = freshElem c ∧ ¬dotdot <+: freshElem c := by
  rw [freshElem]
  split
  · exact ⟨⟨by decide, by decide, by decide, by decide⟩, by decide, by decide⟩
  · exact ⟨⟨by decide, by decide, by decide, by decide⟩, by decide, by decide⟩

theorem not_inside_sibling (l : Loc) (c e : Elem) : ¬Inside (l ++ [c]) (l ++ [e]) := by
  rintro ⟨x, xs, h⟩
  have := congrArg List.length h
  simp only [List.length_append, List.length_cons, List.length_nil] at this
  omega

/-- Whatever the peer sends under a name and whatever the system refuses,
everything created or opened lies inside the chosen directory, exactly when the
base of the name is not `..` or the chosen directory is the root. -/
theorem receive_contained_iff (host : Host) (output name : Path) :
    (∀ (refuse : Disk → Loc → Option Nat) (disk : Disk) (t : Transfer),
      disk.isDir (locate host.cwd output) = true →
        ∀ l ∈ touches { host with refuse := refuse } disk output name t,
          Inside (locate host.cwd output) l) ↔
      base name ≠ dotdot ∨ locate host.cwd output = [] := by
  constructor
  · intro h
    by_contra hc
    obtain ⟨hname, hroot⟩ := not_or.mp hc
    obtain ⟨l, c, hlc⟩ : ∃ l c, locate host.cwd output = l ++ [c] :=
      ⟨_, _, (List.dropLast_concat_getLast hroot).symm⟩
    obtain ⟨he, hclean, hdd⟩ := freshElem_isName c
    have htouch : l ++ [freshElem c] ∈ touches { host with refuse := fun _ _ => none }
        (Disk.upTo (l ++ [c])) output name (.directory ⟨[emptyFile (freshElem c)], none⟩) :=
      touches_dotdot (not_not.mp hname) hlc (fun _ _ => rfl) he hclean hdd (freshElem_ne c)
    refine not_inside_sibling l c (freshElem c) ?_
    rw [← hlc]
    exact h _ _ _ (Disk.isDir_upTo.mpr (by simp [hlc])) _ htouch
  · intro h refuse disk t hdir
    have hsafe : ¬missingName (base name) → SafeIn (locate host.cwd output) (base name) := by
      intro hmiss
      refine h.imp_left fun hname => ?_
      simp only [missingName, not_or] at hmiss
      exact base_isName hmiss.1 hmiss.2.1 hmiss.2.2 hname
    have hkeep : Keeps (Confined (locate host.cwd output))
        (receive { host with refuse := refuse } output name t) fun _ => True := by
      refine Confined.receive ?_ hsafe t
      rfl
    exact (hkeep.state (w := ⟨disk, []⟩) ⟨hdir, by simp⟩).2

/-- The working directory `/d/out` of a system that refuses nothing. -/
def exampleHost : Host where
  cwd := [['d'], ['o', 'u', 't']]
  names := by
    intro e he
    simp only [List.mem_cons, List.not_mem_nil, or_false] at he
    rcases he with rfl | rfl <;> exact ⟨by decide, by decide, by decide, by decide⟩
  refuse _ _ := none

/-- A directory sent under the name `..` with one file `x` puts `x` next to the
working directory. -/
theorem receive_dotdot_escapes :
    ¬∀ l ∈ touches exampleHost (Disk.upTo exampleHost.cwd) [] dotdot
        (.directory ⟨[emptyFile ['x']], none⟩), Inside exampleHost.cwd l := by
  intro h
  have htouch : [['d'], ['x']] ∈ touches exampleHost (Disk.upTo exampleHost.cwd) [] dotdot
      (.directory ⟨[emptyFile ['x']], none⟩) := by decide
  exact not_inside_sibling [['d']] ['o', 'u', 't'] ['x'] (h _ htouch)

end Derphole
