import Derphole.Lib.FileTree
import Mathlib.Logic.Function.Basic

/-!
# A file system without symbolic links

A disk maps locations to nodes.  Its two laws are fields: the root is a
directory, and whatever exists stands in a directory.  A program over the disk
is a state-passing computation that may fail and that logs every location it
creates or opens.  The operating system may refuse any operation, for any
reason, depending on the disk as it stands.

`Keeps I m Q` is the rule for invariants: `I` survives `m`, whether `m` fails or
not, and what `m` returns satisfies `Q`.  `Confined d` is the invariant that nothing outside the directory `d` has
been created or opened.
-/

namespace FileSystem

open Filepath Lib

inductive Node where
  | dir (mode : Nat)
  | file (mode : Nat) (data : List UInt8)
  deriving DecidableEq

def Node.isDir : Node → Bool
  | .dir _ => true
  | .file _ _ => false

inductive Err where
  | notExist
  | notDir
  | isDir
  | eof
  | unexpectedEof
  | refused (errno : Nat)
  | text (message : String)
  | errorf (format : String) (args : List Path)
  deriving DecidableEq

def isDirAt (node : Loc → Option Node) (l : Loc) : Bool :=
  match node l with
  | some n => n.isDir
  | none => false

structure Disk where
  node : Loc → Option Node
  root : isDirAt node [] = true
  parent : ∀ l e, node (l ++ [e]) ≠ none → isDirAt node l = true

namespace Disk

def isDir (d : Disk) (l : Loc) : Bool := isDirAt d.node l

theorem isDirAt_update {node : Loc → Option Node} {l l' : Loc} {n : Node}
    (h : isDirAt node l' = true) (hn : l' = l → n.isDir = true) :
    isDirAt (Function.update node l (some n)) l' = true := by
  by_cases hl : l' = l
  · rw [hl, isDirAt, Function.update_self]
    exact hn hl
  · rwa [isDirAt, Function.update_of_ne hl]

/-- Put a node into an existing directory.  A directory is not replaced by a
file. -/
def put (d : Disk) (l : Loc) (e : Elem) (n : Node) (hl : d.isDir l = true)
    (hd : d.isDir (l ++ [e]) = true → n.isDir = true) : Disk where
  node := Function.update d.node (l ++ [e]) (some n)
  root := isDirAt_update d.root fun h => absurd h (by simp)
  parent := by
    intro l' e' h
    by_cases hc : l' ++ [e'] = l ++ [e]
    · obtain ⟨rfl, -⟩ := List.append_inj' hc rfl
      refine isDirAt_update hl fun h' => ?_
      exact absurd (congrArg List.length h') (by simp)
    · rw [Function.update_of_ne hc] at h
      have hp := d.parent l' e' h
      refine isDirAt_update hp fun h' => hd ?_
      rwa [← h']

theorem isDir_put {d : Disk} {l : Loc} {e : Elem} {n : Node} (hl : d.isDir l = true)
    (hd : d.isDir (l ++ [e]) = true → n.isDir = true) {l' : Loc} (h : d.isDir l' = true) :
    (d.put l e n hl hd).isDir l' = true :=
  isDirAt_update h fun h' => hd (by rwa [← h'])

/-- Some location on the way to `l` is a file. -/
def fileOnPath (d : Disk) (l : Loc) : Bool :=
  (List.range l.length).any fun k => (d.node (l.take k)).isSome && !d.isDir (l.take k)

end Disk

/-- What a program sees of the operating system: the working directory and
with which error number an operation is refused. -/
structure Host where
  cwd : Loc
  names : ∀ e ∈ cwd, IsName e
  refuse : Disk → Loc → Option Nat

/-- The disk, and every location created or opened so far, newest first. -/
structure World where
  disk : Disk
  touched : List Loc

/-- A program over the world. -/
abbrev FS := Prog World Err

/-! ## Operations -/

def guardRefuse (host : Host) (l : Loc) : FS Unit := fun w =>
  match host.refuse w.disk l with
  | some errno => (.error (.refused errno), w)
  | none => (.ok (), w)

/-- `os.Stat`, its error a value. -/
def stat (host : Host) (p : Path) : FS (Except Err Node) := fun w =>
  match host.refuse w.disk (locate host.cwd p) with
  | some errno => (.ok (.error (.refused errno)), w)
  | none =>
      match w.disk.node (locate host.cwd p) with
      | some n => (.ok (.ok n), w)
      | none =>
          if w.disk.fileOnPath (locate host.cwd p) then (.ok (.error .notDir), w)
          else (.ok (.error .notExist), w)

/-- Make one directory entry.  The directory `l` must exist. -/
def mkdir (host : Host) (l : Loc) (e : Elem) (mode : Nat) : FS Unit := do
  guardRefuse host (l ++ [e])
  fun w =>
    if hl : w.disk.isDir l = true then
      (.ok (), ⟨w.disk.put l e (.dir mode) hl fun _ => rfl, (l ++ [e]) :: w.touched⟩)
    else (.error .notExist, w)

/-- `os.MkdirAll` at a location given from its end: an existing directory is
left alone, otherwise its parent is made first. -/
def mkdirAllRev (host : Host) (mode : Nat) : List Elem → FS Unit
  | [] => pure ()
  | e :: rev => fun w =>
      match w.disk.node (e :: rev).reverse with
      | some (.dir _) => (.ok (), w)
      | some (.file _ _) => (.error .notDir, w)
      | none => exec (do mkdirAllRev host mode rev; mkdir host rev.reverse e mode) w

def mkdirAll (host : Host) (p : Path) (mode : Nat) : FS Unit :=
  mkdirAllRev host mode (locate host.cwd p).reverse

/-- Create or truncate one file.  The directory `l` must exist. -/
def createIn (host : Host) (l : Loc) (e : Elem) (mode : Nat) : FS Unit := do
  guardRefuse host (l ++ [e])
  fun w =>
    if hl : w.disk.isDir l = true then
      if hd : w.disk.isDir (l ++ [e]) = true then (.error .isDir, w)
      else
        (.ok (), ⟨w.disk.put l e (.file mode []) hl fun h => absurd h hd, (l ++ [e]) :: w.touched⟩)
    else (.error .notExist, w)

/-- `os.OpenFile` with `O_CREATE` and `O_TRUNC`, at a location given from its
end. -/
def createRev (host : Host) (mode : Nat) : List Elem → FS Unit
  | [] => fail .isDir
  | e :: rev => createIn host rev.reverse e mode

def openFile (host : Host) (p : Path) (mode : Nat) : FS Unit :=
  createRev host mode (locate host.cwd p).reverse

/-- `os.Create`. -/
def create (host : Host) (p : Path) : FS Unit := openFile host p 0o666

/-- Append to the open file at the location given from its end. -/
def appendRev (data : List UInt8) : List Elem → FS Unit
  | [] => pure ()
  | e :: rev => fun w =>
      match w.disk.node (rev.reverse ++ [e]) with
      | some (.file mode old) =>
          if h : w.disk.isDir rev.reverse = true ∧ w.disk.isDir (rev.reverse ++ [e]) ≠ true then
            (.ok (), ⟨w.disk.put rev.reverse e (.file mode (old ++ data)) h.1 fun h' =>
              absurd h' h.2, w.touched⟩)
          else (.ok (), w)
      | _ => (.ok (), w)

/-- Write to the file opened at `p`. -/
def appendFile (host : Host) (p : Path) (data : List UInt8) : FS Unit :=
  appendRev data (locate host.cwd p).reverse

/-! ## Invariants -/

/-- `I` survives `m`, and what `m` returns satisfies `Q`. -/
def Keeps {α : Type} (I : World → Prop) (m : FS α) (Q : α → Prop) : Prop :=
  Triple I m (fun a w => I w ∧ Q a) fun _ w => I w

namespace Keeps

variable {α β : Type} {I : World → Prop} {Q : α → Prop} {R : β → Prop}

theorem pure {a : α} (h : Q a) : Keeps I (Pure.pure a : FS α) Q := Triple.pure fun _ hw => ⟨hw, h⟩

theorem fail (e : Err) : Keeps I (Lib.fail e : FS α) Q := Triple.fail fun _ hw => hw

theorem bind {m : FS α} {k : α → FS β} (hm : Keeps I m Q) (hk : ∀ a, Q a → Keeps I (k a) R) :
    Keeps I (m >>= k) R :=
  Triple.bind hm fun a w h => hk a h.2 w h.1

theorem ite {c : Prop} [Decidable c] {m m' : FS α} (hm : c → Keeps I m Q)
    (hm' : ¬c → Keeps I m' Q) : Keeps I (if c then m else m') Q :=
  Triple.ite hm hm'

/-- A run ends with the invariant, whatever its outcome. -/
theorem state {m : FS α} (h : Keeps I m Q) {w : World} (hw : I w) : I (exec m w).2 := by
  have h' := h w hw
  cases hr : exec m w with
  | mk r t =>
      rw [hr] at h'
      cases r with
      | ok a => exact h'.1
      | error e => exact h'

/-- An operation is judged by the world it leaves when its result does not
matter. -/
theorem of_state {m : FS α} (h : ∀ w, I w → I (exec m w).2) : Keeps I m fun _ => True := by
  intro w hw
  have h' := h w hw
  cases hr : exec m w with
  | mk r t =>
      rw [hr] at h'
      cases r with
      | ok a => exact ⟨h', trivial⟩
      | error e => exact h'

theorem guardRefuse (host : Host) (l : Loc) : Keeps I (guardRefuse host l) fun _ => True := by
  refine of_state fun w hw => ?_
  simp only [exec, ExceptT.run, FileSystem.guardRefuse]
  split <;> exact hw

end Keeps

/-! ## Outcomes -/

/-- An existing directory is left alone. -/
theorem exec_mkdirAll_of_isDir {host : Host} {p : Path} {mode : Nat} {w : World}
    (h : w.disk.isDir (locate host.cwd p) = true) : exec (mkdirAll host p mode) w = (.ok (), w) := by
  rw [mkdirAll]
  cases hrev : (locate host.cwd p).reverse with
  | nil => rfl
  | cons e rev =>
      rw [← List.reverse_reverse (locate host.cwd p), hrev, Disk.isDir, isDirAt] at h
      simp only [mkdirAllRev, exec, ExceptT.run]
      cases hn : w.disk.node (e :: rev).reverse with
      | none =>
          rw [hn] at h
          cases h
      | some n =>
          rw [hn] at h
          cases n with
          | dir m => rfl
          | file m data => cases h

theorem exec_guardRefuse {host : Host} {l : Loc} {w : World} (hr : host.refuse w.disk l = none) :
    exec (guardRefuse host l) w = (.ok (), w) := by
  simp [exec, guardRefuse, ExceptT.run, hr]

theorem exec_mkdir {host : Host} (mode : Nat) {w : World} {l : Loc} {e : Elem}
    (hr : host.refuse w.disk (l ++ [e]) = none) (hl : w.disk.isDir l = true) :
    ∃ disk, exec (mkdir host l e mode) w = (.ok (), ⟨disk, (l ++ [e]) :: w.touched⟩) ∧
      disk.node = Function.update w.disk.node (l ++ [e]) (some (.dir mode)) := by
  rw [mkdir, exec_bind_ok (exec_guardRefuse hr)]
  simp only [exec, ExceptT.run, hl, dite_true]
  exact ⟨_, rfl, rfl⟩

/-- A file is created in an existing directory, unless that is refused. -/
theorem exec_openFile {host : Host} {p : Path} (mode : Nat) {w : World} {l : Loc} {e : Elem}
    (hp : locate host.cwd p = l ++ [e]) (hr : host.refuse w.disk (l ++ [e]) = none)
    (hl : w.disk.isDir l = true) (hd : w.disk.isDir (l ++ [e]) ≠ true) :
    ∃ disk, exec (openFile host p mode) w = (.ok (), ⟨disk, (l ++ [e]) :: w.touched⟩) ∧
      disk.node = Function.update w.disk.node (l ++ [e]) (some (.file mode [])) := by
  rw [openFile, hp, List.reverse_append, List.reverse_singleton, List.singleton_append, createRev,
    List.reverse_reverse, createIn, exec_bind_ok (exec_guardRefuse hr)]
  simp only [exec, ExceptT.run, hl, hd, dite_true]
  exact ⟨_, rfl, rfl⟩

/-- A file that exists grows. -/
theorem exec_appendFile_file {host : Host} {p : Path} (data : List UInt8) {old : List UInt8} {mode : Nat}
    {w : World} {l : Loc} {e : Elem} (hp : locate host.cwd p = l ++ [e])
    (hn : w.disk.node (l ++ [e]) = some (.file mode old)) :
    ∃ disk, exec (appendFile host p data) w = (.ok (), ⟨disk, w.touched⟩) ∧
      disk.node = Function.update w.disk.node (l ++ [e]) (some (.file mode (old ++ data))) := by
  have hl : w.disk.isDir l = true := w.disk.parent l e (by rw [hn]; simp)
  have hd : w.disk.isDir (l ++ [e]) = false := by simp [Disk.isDir, isDirAt, hn, Node.isDir]
  rw [appendFile, hp, List.reverse_append, List.reverse_singleton, List.singleton_append]
  simp only [appendRev, exec, ExceptT.run, List.reverse_reverse, hn, hl, hd, Bool.false_eq_true,
    ne_eq, not_false_eq_true, and_self, dite_true]
  exact ⟨_, rfl, rfl⟩

theorem exec_appendFile (host : Host) (p : Path) (data : List UInt8) (w : World) :
    ∃ disk, exec (appendFile host p data) w = (.ok (), ⟨disk, w.touched⟩) := by
  rw [appendFile]
  cases (locate host.cwd p).reverse with
  | nil => exact ⟨w.disk, rfl⟩
  | cons e rev =>
      simp only [appendRev, exec, ExceptT.run]
      split
      · split
        · exact ⟨_, rfl⟩
        · exact ⟨w.disk, rfl⟩
      · exact ⟨w.disk, rfl⟩

/-! ## What stands where -/

/-- The disk without the modes. -/
def Node.kind : Node → FileTree.Kind
  | .dir _ => .dir
  | .file _ data => .file data

def Disk.kind (d : Disk) (l : Loc) : Option FileTree.Kind := (d.node l).map Node.kind

namespace Disk

variable {d : Disk} {l : Loc}

theorem isDir_iff_kind : d.isDir l = true ↔ d.kind l = some .dir := by
  rw [isDir, isDirAt, kind]
  cases d.node l with
  | none => simp
  | some n =>
      cases n with
      | dir mode => simp [Node.isDir, Node.kind]
      | file mode data => simp [Node.isDir, Node.kind]

theorem kind_of_update {d' : Disk} {n : Node} (h : d'.node = Function.update d.node l (some n)) :
    d'.kind = Function.update d.kind l (some n.kind) := by
  funext l'
  by_cases hl : l' = l
  · subst hl
    simp [kind, h]
  · simp [kind, h, hl]

theorem kind_nil (d : Disk) : d.kind [] = some .dir := isDir_iff_kind.mp d.root

/-- Whatever exists has directories all the way down to it. -/
theorem kind_above {r : Loc} (h : d.kind (l ++ r) ≠ none) (hr : r ≠ []) :
    d.kind l = some .dir := by
  induction r using List.reverseRecOn with
  | nil => exact absurd rfl hr
  | append_singleton r e ih =>
      have hdir : d.kind (l ++ r) = some .dir := by
        refine isDir_iff_kind.mp (d.parent (l ++ r) e ?_)
        rw [List.append_assoc]
        intro hnone
        exact h (by rw [kind, hnone]; rfl)
      by_cases hnil : r = []
      · rwa [hnil, List.append_nil] at hdir
      · exact ih (by rw [hdir]; simp) hnil

end Disk

/-- With nothing in the way and nothing refused, every directory down to the
location is there afterwards, and nothing else changes. -/
theorem exec_mkdirAllRev {host : Host} (hhost : ∀ d l, host.refuse d l = none) (mode : Nat) :
    ∀ (rev : List Elem) (w : World),
      (∀ l, l <+: rev.reverse → w.disk.kind l = none ∨ w.disk.kind l = some .dir) →
      ∃ w', exec (mkdirAllRev host mode rev) w = (.ok (), w') ∧
        w'.disk.kind = fun l => if l <+: rev.reverse then some .dir else w.disk.kind l
  | [], w, _ => by
      refine ⟨w, rfl, ?_⟩
      funext l
      by_cases hl : l = []
      · simp [hl, w.disk.kind_nil]
      · simp [hl]
  | e :: rev, w, h => by
      rw [List.reverse_cons] at h ⊢
      cases hn : w.disk.node (rev.reverse ++ [e]) with
      | some n =>
          cases n with
          | file m data =>
              have := h (rev.reverse ++ [e]) List.prefix_rfl
              simp [Disk.kind, hn, Node.kind] at this
          | dir m =>
              refine ⟨w, by simp [mkdirAllRev, exec, ExceptT.run, hn], ?_⟩
              funext l
              split
              · rename_i hl
                obtain ⟨r, hr⟩ := hl
                by_cases hnil : r = []
                · rw [hnil, List.append_nil] at hr
                  simp [Disk.kind, hr, hn, Node.kind]
                · refine Disk.kind_above (r := r) ?_ hnil
                  simp [Disk.kind, hr, hn]
              · rfl
      | none =>
          obtain ⟨w₁, hw₁, hkind⟩ := exec_mkdirAllRev hhost mode rev w fun l hl =>
            h l (hl.trans (List.prefix_append _ _))
          have hdir : w₁.disk.isDir rev.reverse = true := by
            rw [Disk.isDir_iff_kind, hkind]
            simp
          obtain ⟨disk, hmkdir, hnode⟩ := exec_mkdir mode (hhost _ _) hdir
          have hexec : exec (mkdirAllRev host mode (e :: rev)) w =
              exec (do mkdirAllRev host mode rev; mkdir host rev.reverse e mode) w := by
            simp [mkdirAllRev, exec, ExceptT.run, hn]
          refine ⟨⟨disk, (rev.reverse ++ [e]) :: w₁.touched⟩, ?_, ?_⟩
          · rw [hexec, exec_bind_ok hw₁, hmkdir]
          · rw [Disk.kind_of_update hnode, hkind]
            funext l
            by_cases hl : l = rev.reverse ++ [e]
            · subst hl
              simp [Node.kind]
            · rw [Function.update_of_ne hl]
              simp only [List.prefix_concat_iff, hl, false_or]

theorem exec_mkdirAll {host : Host} (hhost : ∀ d l, host.refuse d l = none) {p : Path} {l : Loc}
    (hp : locate host.cwd p = l) (mode : Nat) (w : World)
    (h : ∀ l', l' <+: l → w.disk.kind l' = none ∨ w.disk.kind l' = some .dir) :
    ∃ w', exec (mkdirAll host p mode) w = (.ok (), w') ∧
      w'.disk.kind = fun l' => if l' <+: l then some .dir else w.disk.kind l' := by
  have hrev := exec_mkdirAllRev hhost mode l.reverse w (by rwa [List.reverse_reverse])
  rw [List.reverse_reverse] at hrev
  rwa [mkdirAll, hp]

/-- A directory is added to an existing one. -/
theorem exec_mkdirAll_new {host : Host} (hhost : ∀ d l, host.refuse d l = none) {p : Path} {l : Loc}
    {e : Elem} (hp : locate host.cwd p = l ++ [e]) (mode : Nat) {w : World}
    (hl : w.disk.kind l = some .dir) (hn : w.disk.kind (l ++ [e]) = none) :
    ∃ w', exec (mkdirAll host p mode) w = (.ok (), w') ∧
      w'.disk.kind = Function.update w.disk.kind (l ++ [e]) (some .dir) := by
  have habove : ∀ l', l' <+: l → w.disk.kind l' = some .dir := by
    rintro l' ⟨r, rfl⟩
    by_cases hr : r = []
    · rwa [hr, List.append_nil] at hl
    · exact Disk.kind_above (by rw [hl]; simp) hr
  obtain ⟨w', hw', hkind⟩ := exec_mkdirAll hhost hp mode w (by
    intro l' hl'
    rcases List.prefix_concat_iff.mp hl' with rfl | hl'
    · exact .inl hn
    · exact .inr (habove l' hl'))
  refine ⟨w', hw', ?_⟩
  rw [hkind]
  funext l'
  by_cases hl' : l' = l ++ [e]
  · subst hl'
    simp
  · rw [Function.update_of_ne hl']
    simp only [List.prefix_concat_iff, hl', false_or]
    split
    · rename_i h
      exact (habove l' h).symm
    · rfl

/-- A file is added to an existing directory and filled. -/
theorem exec_openFile_append {host : Host} (hhost : ∀ d l, host.refuse d l = none) {p : Path}
    {l : Loc} {e : Elem} (hp : locate host.cwd p = l ++ [e]) (mode : Nat) (data : List UInt8)
    {w : World} (hl : w.disk.kind l = some .dir) (hn : w.disk.kind (l ++ [e]) = none) :
    ∃ w₁ w₂, exec (openFile host p mode) w = (.ok (), w₁) ∧
      exec (appendFile host p data) w₁ = (.ok (), w₂) ∧
        w₂.disk.kind = Function.update w.disk.kind (l ++ [e]) (some (.file data)) := by
  have hd : w.disk.isDir (l ++ [e]) ≠ true := by
    rw [ne_eq, Disk.isDir_iff_kind, hn]
    simp
  obtain ⟨disk, hopen, hnode⟩ :=
    exec_openFile mode hp (hhost _ _) (Disk.isDir_iff_kind.mpr hl) hd
  have hempty : disk.node (l ++ [e]) = some (.file mode []) := by
    rw [hnode, Function.update_self]
  obtain ⟨disk', happend, hnode'⟩ := exec_appendFile_file data
    (w := ⟨disk, (l ++ [e]) :: w.touched⟩) hp hempty
  refine ⟨_, _, hopen, happend, ?_⟩
  rw [hnode, Function.update_idem] at hnode'
  exact Disk.kind_of_update hnode'

/-! ## Confinement -/

/-- The directory `d` exists, and nothing outside it was created or opened. -/
def Confined (d : Loc) (w : World) : Prop :=
  w.disk.isDir d = true ∧ ∀ l ∈ w.touched, Inside d l

theorem inside_append_snoc (d es : Loc) (e : Elem) : Inside d (d ++ es ++ [e]) := by
  cases es with
  | nil => exact ⟨e, [], by simp⟩
  | cons x xs => exact ⟨x, xs ++ [e], by simp⟩

/-- An existing directory is reported as one, if at all. -/
theorem Confined.stat (host : Host) {d : Loc} {p : Path} (hp : locate host.cwd p = d) :
    Keeps (Confined d) (stat host p) fun r =>
      (∃ n, r = .ok n ∧ n.isDir = true) ∨ ∃ errno, r = .error (.refused errno) := by
  intro w hw
  have hdir := hw.1
  rw [Disk.isDir, isDirAt] at hdir
  simp only [exec, ExceptT.run, FileSystem.stat, hp]
  cases hr : host.refuse w.disk d with
  | some errno =>
      exact ⟨hw, .inr ⟨errno, rfl⟩⟩
  | none =>
      cases hn : w.disk.node d with
      | none =>
          rw [hn] at hdir
          cases hdir
      | some n =>
          rw [hn] at hdir
          exact ⟨hw, .inl ⟨n, rfl, hdir⟩⟩

theorem Confined.mkdir (host : Host) (d es : Loc) (e : Elem) (mode : Nat) :
    Keeps (Confined d) (mkdir host (d ++ es) e mode) fun _ => True := by
  refine Keeps.bind (Keeps.guardRefuse host _) fun _ _ => ?_
  refine Keeps.of_state fun w hw => ?_
  simp only [exec, ExceptT.run]
  split
  · rename_i hdir
    refine ⟨Disk.isDir_put hdir (fun _ => rfl) hw.1, ?_⟩
    intro l hl
    rcases List.mem_cons.mp hl with rfl | hl
    · exact inside_append_snoc d es e
    · exact hw.2 l hl
  · exact hw

/-- Making a directory below an existing directory stays below it, since the
walk to the root stops there. -/
theorem Confined.mkdirAllRev (host : Host) (d : Loc) (mode : Nat) :
    ∀ es : List Elem,
      Keeps (Confined d) (mkdirAllRev host mode (es ++ d.reverse)) fun _ => True
  | [] => by
      refine Keeps.of_state fun w hw => ?_
      cases hd : d.reverse with
      | nil => exact hw
      | cons e rev =>
          have hdir := hw.1
          rw [Disk.isDir, isDirAt, ← List.reverse_reverse d, hd] at hdir
          simp only [List.nil_append, FileSystem.mkdirAllRev, exec, ExceptT.run]
          split
          · exact hw
          · exact hw
          · rename_i hnone
            rw [hnone] at hdir
            cases hdir
  | e :: es => by
      refine Keeps.of_state fun w hw => ?_
      have hparent := Confined.mkdirAllRev host d mode es
      have hrest : Keeps (Confined d) (do
          FileSystem.mkdirAllRev host mode (es ++ d.reverse)
          FileSystem.mkdir host (es ++ d.reverse).reverse e mode) fun _ => True := by
        refine hparent.bind fun _ _ => ?_
        rw [List.reverse_append, List.reverse_reverse]
        exact Confined.mkdir host d es.reverse e mode
      rw [List.cons_append]
      simp only [FileSystem.mkdirAllRev, exec, ExceptT.run]
      split
      · exact hw
      · exact hw
      · exact hrest.state hw

theorem Confined.mkdirAll (host : Host) {d : Loc} {p : Path} (mode : Nat)
    (hp : d <+: locate host.cwd p) : Keeps (Confined d) (mkdirAll host p mode) fun _ => True := by
  obtain ⟨es, hes⟩ := hp
  rw [FileSystem.mkdirAll, ← hes, List.reverse_append]
  exact Confined.mkdirAllRev host d mode es.reverse

/-- Opening a file strictly inside the directory.  The root is never opened as
a file, whatever the directory. -/
theorem Confined.openFile (host : Host) {d : Loc} {p : Path} (mode : Nat)
    (hp : Inside d (locate host.cwd p) ∨ locate host.cwd p = []) :
    Keeps (Confined d) (openFile host p mode) fun _ => True := by
  rw [FileSystem.openFile]
  cases hrev : (locate host.cwd p).reverse with
  | nil => exact Keeps.fail _
  | cons e rev =>
      have hloc : locate host.cwd p = rev.reverse ++ [e] := by
        rw [← List.reverse_reverse (locate host.cwd p), hrev, List.reverse_cons]
      have hin : Inside d (rev.reverse ++ [e]) := by
        rw [hloc] at hp
        exact hp.resolve_right (by simp)
      refine Keeps.bind (Keeps.guardRefuse host _) fun _ _ => ?_
      refine Keeps.of_state fun w hw => ?_
      simp only [exec, ExceptT.run]
      split
      · split
        · exact hw
        · rename_i hdir hnew
          refine ⟨Disk.isDir_put hdir (fun h => absurd h hnew) hw.1, ?_⟩
          intro l hl
          rcases List.mem_cons.mp hl with rfl | hl
          · exact hin
          · exact hw.2 l hl
      · exact hw

theorem Confined.appendFile (host : Host) (d : Loc) (p : Path) (data : List UInt8) :
    Keeps (Confined d) (appendFile host p data) fun _ => True := by
  rw [FileSystem.appendFile]
  cases (locate host.cwd p).reverse with
  | nil => exact Keeps.pure trivial
  | cons e rev =>
      refine Keeps.of_state fun w hw => ?_
      simp only [appendRev, exec, ExceptT.run]
      split
      · split
        · rename_i h
          exact ⟨Disk.isDir_put h.1 (fun h' => absurd h' h.2) hw.1, hw.2⟩
        · exact hw
      · exact hw

end FileSystem
