import Derphole.Lib.Filepath
import Derphole.Lib.Program
import Mathlib.Algebra.Ring.Nat
import Mathlib.Data.List.Induction
import Mathlib.Logic.Function.Basic

/-!
# Trees of files

`Entries` is what a directory holds, as `os.ReadDir` lists it: directories,
regular files, and whatever else there is.  `listing` is the order in which a
walk meets them, a directory before what it holds.  `find` is the tree as a
function, from the names that lead to an entry to what stands there.

`walkDir` is Go's `filepath.WalkDir` as documented.  It does not follow symbolic
links, the root included, so below a root that is a link nothing is visited.
The path of an entry is the path of its directory joined with its name.

`plant d es k` is the function `k` with the tree `es` put under `d`.  Where the
tree is new, planting it is planting its entries one after the other, in the
order of the walk.
-/

namespace FileTree

open Filepath Lib

variable {ι σ ε : Type}

/-- What a regular file holds.  Its size is an `int64`. -/
structure Content where
  data : List UInt8
  fits : data.length < 2 ^ 63

/-- What stands at a place. -/
inductive Kind where
  | dir
  | file (data : List UInt8)
  | other
  deriving DecidableEq

/-- An entry that holds no entries, with what the system reports about it. -/
inductive Leaf (ι : Type) where
  | file (info : ι) (content : Content)
  | other (info : ι)

def Leaf.kind : Leaf ι → Kind
  | file _ content => .file content.data
  | other _ => .other

/-- The entries of a directory. -/
inductive Entries (ι : Type) where
  | nil
  | dir (name : Elem) (info : ι) (children rest : Entries ι)
  | leaf (name : Elem) (leaf : Leaf ι) (rest : Entries ι)

/-- What a walk finds at one entry. -/
inductive Visit (ι : Type) where
  | dir (info : ι)
  | leaf (leaf : Leaf ι)

def Visit.kind : Visit ι → Kind
  | dir _ => .dir
  | leaf l => l.kind

namespace Entries

/-- The names in the directory itself. -/
def names : Entries ι → List Elem
  | nil => []
  | dir name _ _ rest => name :: rest.names
  | leaf name _ rest => name :: rest.names

/-- Every name is a proper one, and no directory has the same name twice. -/
def WellFormed : Entries ι → Prop
  | nil => True
  | dir name _ children rest =>
      IsName name ∧ name ∉ rest.names ∧ children.WellFormed ∧ rest.WellFormed
  | leaf name _ rest => IsName name ∧ name ∉ rest.names ∧ rest.WellFormed

/-- The entries below the place `pre`, in the order of a walk. -/
def listing (pre : Loc) : Entries ι → List (Loc × Visit ι)
  | nil => []
  | dir name info children rest =>
      (pre ++ [name], .dir info) :: (children.listing (pre ++ [name]) ++ rest.listing pre)
  | leaf name l rest => (pre ++ [name], .leaf l) :: rest.listing pre

/-- What the names lead to. -/
def find : Entries ι → Loc → Option Kind
  | nil, _ => none
  | dir name _ children rest, l =>
      match l with
      | [] => none
      | e :: r => if e = name then (if r = [] then some .dir else children.find r) else rest.find l
  | leaf name lf rest, l =>
      match l with
      | [] => none
      | e :: r => if e = name then (if r = [] then some lf.kind else none) else rest.find l

@[simp] theorem find_nil (es : Entries ι) : es.find [] = none := by
  cases es with
  | nil => rfl
  | dir name info children rest => rfl
  | leaf name l rest => rfl

theorem find_of_not_mem {e : Elem} (r : Loc) :
    ∀ {es : Entries ι}, e ∉ es.names → es.find (e :: r) = none
  | .nil, _ => rfl
  | .dir name _ _ rest, h => by
      simp only [names, List.mem_cons, not_or] at h
      rw [find, if_neg h.1]
      exact find_of_not_mem r h.2
  | .leaf name _ rest, h => by
      simp only [names, List.mem_cons, not_or] at h
      rw [find, if_neg h.1]
      exact find_of_not_mem r h.2

/-- A directory without a single path in it holds nothing. -/
theorem eq_nil_of_find {es : Entries ι} (h : ∀ l, es.find l = none) : es = nil := by
  cases es with
  | nil => rfl
  | dir name info children rest =>
      have := h [name]
      simp [find] at this
  | leaf name l rest =>
      have := h [name]
      simp [find] at this

theorem names_snoc {pre : Loc} {name : Elem} (hpre : ∀ e ∈ pre, IsName e) (hname : IsName name) :
    ∀ e ∈ pre ++ [name], IsName e := by
  intro e he
  rcases List.mem_append.mp he with he | he
  · exact hpre e he
  · rw [List.mem_singleton.mp he]
    exact hname

/-- What a walk meets has proper names, and stands below an entry of the
directory it started from. -/
theorem listing_names (pre : Loc) (hpre : ∀ e ∈ pre, IsName e) :
    ∀ {es : Entries ι}, es.WellFormed → ∀ v ∈ es.listing pre,
      (∀ e ∈ v.1, IsName e) ∧ ∃ e r, e ∈ es.names ∧ v.1 = pre ++ e :: r
  | .nil, _, v, hv => by cases hv
  | .dir name info children rest, hwf, v, hv => by
      obtain ⟨hname, -, hchildren, hrest⟩ := hwf
      have hpre' := names_snoc hpre hname
      rcases List.mem_cons.mp hv with rfl | hv
      · exact ⟨hpre', name, [], by simp [names], rfl⟩
      · rcases List.mem_append.mp hv with hv | hv
        · obtain ⟨h, e, r, -, hr⟩ := listing_names _ hpre' hchildren v hv
          exact ⟨h, name, e :: r, by simp [names], by simp [hr]⟩
        · obtain ⟨h, e, r, he, hr⟩ := listing_names _ hpre hrest v hv
          exact ⟨h, e, r, by simp [names, he], hr⟩
  | .leaf name l rest, hwf, v, hv => by
      obtain ⟨hname, -, hrest⟩ := hwf
      rcases List.mem_cons.mp hv with rfl | hv
      · exact ⟨names_snoc hpre hname, name, [], by simp [names], rfl⟩
      · obtain ⟨h, e, r, he, hr⟩ := listing_names _ hpre hrest v hv
        exact ⟨h, e, r, by simp [names, he], hr⟩

/-- Every entry of the directory itself is met. -/
theorem mem_listing_of_mem_names (pre : Loc) {e : Elem} :
    ∀ {es : Entries ι}, e ∈ es.names → ∃ d, (pre ++ [e], d) ∈ es.listing pre
  | .nil, h => by cases h
  | .dir name info children rest, h => by
      rcases List.mem_cons.mp h with rfl | h
      · exact ⟨.dir info, by simp [listing]⟩
      · obtain ⟨d, hd⟩ := mem_listing_of_mem_names pre h
        exact ⟨d, by simp [listing, hd]⟩
  | .leaf name l rest, h => by
      rcases List.mem_cons.mp h with rfl | h
      · exact ⟨.leaf l, by simp [listing]⟩
      · obtain ⟨d, hd⟩ := mem_listing_of_mem_names pre h
        exact ⟨d, by simp [listing, hd]⟩

end Entries

/-- A directory tree as a file system can hold it. -/
structure DirTree (ι : Type) where
  entries : Entries ι
  wellFormed : entries.WellFormed

/-- What a place below the root of the tree holds.  The root is a directory. -/
def DirTree.kindAt (t : DirTree ι) (l : Loc) : Option Kind := if l = [] then some .dir else t.entries.find l

/-! ## Walking -/

/-- What `os.Stat` finds at a path, links followed. -/
inductive Found (ι ε : Type) where
  | missing (err : ε)
  | file (info : ι) (content : Content)
  | dir (info : ι) (tree : DirTree ι)

/-- A path given by the user.  `link` is what `os.Lstat` reports there when the
path itself is a symbolic link. -/
structure Root (ι ε : Type) where
  path : Path
  link : Option ι
  found : Found ι ε

/-- What a walk from the root meets. -/
def Root.visits (root : Root ι ε) : List (Loc × Visit ι) :=
  match root.link with
  | some info => [([], .leaf (.other info))]
  | none =>
      match root.found with
      | .missing _ => []
      | .file info content => [([], .leaf (.file info content))]
      | .dir info tree => ([], .dir info) :: tree.entries.listing []

/-- Where the names lead, one join at a time. -/
def under (root : Path) (l : Loc) : Path := l.foldl (fun p e => join [p, e]) root

/-- `filepath.WalkDir`: the function is called until it fails.  The error of a
root that cannot be examined is the function's to return. -/
def walkDir (root : Root ι ε) (fn : Path → Visit ι → Prog σ ε Unit) : Prog σ ε Unit :=
  match root.link, root.found with
  | none, .missing err => fail err
  | _, _ => forM root.visits fun v => fn (under root.path v.1) v.2

/-- What a walk meets below the root. -/
def Root.below (root : Root ι ε) : List (Loc × Visit ι) :=
  match root.link, root.found with
  | none, .dir _ tree => tree.entries.listing []
  | _, _ => []

/-- A function that does nothing at the root sees what is below it. -/
theorem exec_walkDir {root : Root ι ε} {info : ι} {tree : DirTree ι} (hf : root.found = .dir info tree)
    {fn : Path → Visit ι → Prog σ ε Unit} (hroot : ∀ d, fn root.path d = pure ()) (s : σ) :
    exec (walkDir root fn) s =
      exec (forM root.below fun v => fn (under root.path v.1) v.2) s := by
  have hunder : under root.path [] = root.path := rfl
  rw [walkDir, Root.visits, Root.below, hf]
  cases root.link with
  | none =>
      simp only [List.forM_cons, hunder]
      rw [hroot, exec_bind_ok (exec_pure () s)]
  | some info =>
      simp only [List.forM_cons, List.forM_nil, hunder]
      rw [hroot, exec_bind_ok (exec_pure () s)]

theorem Root.below_names (root : Root ι ε) :
    ∀ v ∈ root.below, (∀ e ∈ v.1, IsName e) ∧ v.1 ≠ [] := by
  intro v hv
  rw [Root.below] at hv
  split at hv
  · rename_i info tree _ _
    obtain ⟨h, e, r, -, hr⟩ := Entries.listing_names [] (by simp) tree.wellFormed v hv
    exact ⟨h, by simp [hr]⟩
  · cases hv

/-! ## The paths of a walk -/

theorem isAbs_name {e : Elem} (h : IsName e) : isAbs e = false := by
  have hone : [sep].intercalate [e] = e := List.intercalate_singleton
  rw [← hone]
  exact isAbs_intercalate (by simpa using ⟨h.1, h.2.2.2⟩)

/-- A name joined to a path is a name more, also when the path is empty. -/
theorem push_join_name (p : Path) {e : Elem} (h : IsName e) :
    isAbs (join [p, e]) = isAbs p ∧
      pushElems (isAbs p) [] (elems (join [p, e])) = e :: pushElems (isAbs p) [] (elems p) := by
  have helems : elems e = [e] := elems_of_sep_not_mem h.2.2.2
  have hpush : ∀ r out, pushElems r out [e] = e :: out := by
    intro r out
    rw [pushElems_names [e] out (by simpa using h)]
    rfl
  by_cases hp : p = []
  · have hjoin : join [[], e] = clean e := by simp [join, h.1, List.intercalate]
    have hclean := pushElems_elems_clean e
    rw [isAbs_name h, helems, hpush] at hclean
    rw [hp, hjoin, isAbs_clean, isAbs_name h]
    exact ⟨rfl, hclean⟩
  · have hclean := pushElems_elems_clean (p ++ sep :: e)
    rw [isAbs_append hp, elems_append_sep, pushElems_append, helems, hpush] at hclean
    rw [join_two hp, isAbs_clean, isAbs_append hp]
    exact ⟨rfl, hclean⟩

theorem push_under (root : Path) (l : Loc) (h : ∀ e ∈ l, IsName e) :
    isAbs (under root l) = isAbs root ∧
      pushElems (isAbs root) [] (elems (under root l)) =
        l.reverse ++ pushElems (isAbs root) [] (elems root) := by
  induction l using List.reverseRecOn with
  | nil => exact ⟨rfl, rfl⟩
  | append_singleton l e ih =>
      obtain ⟨habs, hpush⟩ := ih fun x hx => h x (by simp [hx])
      obtain ⟨habs', hpush'⟩ := push_join_name (under root l) (h e (by simp))
      have hstep : under root (l ++ [e]) = join [under root l, e] := by simp [under]
      rw [habs] at habs' hpush'
      rw [hstep]
      refine ⟨habs', ?_⟩
      rw [hpush', hpush, List.reverse_append]
      rfl

/-- Below the root a walk never comes back to the root's path. -/
theorem under_ne {root : Path} {l : Loc} (h : ∀ e ∈ l, IsName e) (hl : l ≠ []) :
    under root l ≠ root := by
  intro heq
  have hpush := (push_under root l h).2
  rw [heq] at hpush
  have := congrArg List.length hpush
  rw [List.length_append, List.length_reverse] at this
  exact hl (List.length_eq_zero_iff.mp (by omega))

/-- Seen from the root, the path of an entry is the names that lead to it. -/
theorem rel_under {root : Path} {l : Loc} (h : ∀ e ∈ l, IsName e) (hl : l ≠ []) :
    rel root (under root l) = some ([sep].intercalate l) := by
  obtain ⟨habs, hpush⟩ := push_under root l h
  have hne : clean (under root l) ≠ clean root := by
    intro heq
    have hclean := pushElems_elems_clean (under root l)
    have hclean' := pushElems_elems_clean root
    rw [habs, heq, hclean', hpush] at hclean
    have := congrArg List.length hclean
    rw [List.length_append, List.length_reverse] at this
    exact hl (List.length_eq_zero_iff.mp (by omega))
  rw [rel, if_neg hne, if_neg (by rw [habs]; simp), habs, cleanElems, cleanElems, hpush,
    List.reverse_append, List.reverse_reverse, relElems_append]
  rfl

/-! ## Names as a path -/

/-- Names separated by `/` are clean, with or without a `/` at the end. -/
theorem clean_names {l : Loc} (h : ∀ e ∈ l, IsName e) (hl : l ≠ []) :
    clean ([sep].intercalate l) = [sep].intercalate l ∧
      clean ([sep].intercalate l ++ [sep]) = [sep].intercalate l := by
  have habs : isAbs ([sep].intercalate l) = false :=
    isAbs_intercalate fun e he => ⟨(h e he).1, (h e he).2.2.2⟩
  have helems : elems ([sep].intercalate l) = l := elems_intercalate (fun e he => (h e he).2.2.2) hl
  have hne : [sep].intercalate l ≠ [] := by
    intro hnil
    rw [hnil] at helems
    rw [← helems] at h
    exact (h [] (by simp [elems])).1 rfl
  constructor
  · rw [clean, habs, cleanElems, helems, pushElems_names l [] h]
    simp [render, hl]
  · rw [clean, isAbs_append hne, habs, cleanElems, elems_append_sep, helems, pushElems_append,
      pushElems_names l [] h]
    simp [elems, pushElems, pushElem, render, hl]

theorem dotdot_prefix_intercalate {e : Elem} (r : Loc) (he : IsName e) :
    dotdot <+: [sep].intercalate (e :: r) ↔ dotdot <+: e := by
  have hcases : [sep].intercalate (e :: r) = e ∨ ∃ q, [sep].intercalate (e :: r) = e ++ sep :: q := by
    cases r with
    | nil => exact .inl List.intercalate_singleton
    | cons x r =>
        refine .inr ⟨[sep].intercalate (x :: r), ?_⟩
        rw [List.intercalate_cons_cons, List.append_assoc]
        rfl
  rcases hcases with h | ⟨q, h⟩
  · rw [h]
  · rw [h]
    refine ⟨fun hp => ?_, fun hp => hp.trans (List.prefix_append _ _)⟩
    obtain ⟨hne, hdot, -, -⟩ := he
    match e, hne, hdot with
    | [], hne, _ => exact absurd rfl hne
    | [c], _, hdot =>
        obtain ⟨t, ht⟩ := hp
        simp only [dotdot, sep, List.cons_append, List.nil_append, List.cons.injEq] at ht
        exact absurd ht.2.1 (by decide)
    | c :: c' :: cs, _, _ =>
        obtain ⟨t, ht⟩ := hp
        simp only [dotdot, List.cons_append, List.nil_append, List.cons.injEq] at ht
        exact ⟨cs, by rw [← ht.1, ← ht.2.1]; rfl⟩

/-! ## Planting -/

/-- `k` with the tree put under `d`. -/
def plant (d : Loc) (es : Entries ι) (k : Loc → Option Kind) (l : Loc) : Option Kind :=
  if d <+: l then (es.find (l.drop d.length)).or (k l) else k l

theorem plant_append (d : Loc) (es : Entries ι) (k : Loc → Option Kind) (r : Loc) :
    plant d es k (d ++ r) = (es.find r).or (k (d ++ r)) := by
  rw [plant, if_pos (List.prefix_append d r), List.drop_left]

theorem plant_outside {d l : Loc} (h : ¬d <+: l) (es : Entries ι) (k : Loc → Option Kind) :
    plant d es k l = k l := if_neg h

theorem plant_nil (d : Loc) (k : Loc → Option Kind) : plant d (.nil : Entries ι) k = k := by
  funext l
  by_cases h : d <+: l
  · obtain ⟨r, rfl⟩ := h
    rw [plant_append]
    rfl
  · exact plant_outside h _ k

theorem not_prefix_of_ne {d : Loc} {e e' : Elem} (r : Loc) (h : e' ≠ e) :
    ¬d ++ [e] <+: d ++ e' :: r := by
  rintro ⟨t, ht⟩
  rw [List.append_assoc, List.append_cancel_left_eq] at ht
  simp only [List.singleton_append, List.cons.injEq] at ht
  exact h ht.1.symm

theorem not_prefix_self (d : Loc) (e : Elem) : ¬d ++ [e] <+: d := by
  intro h
  have := h.length_le
  rw [List.length_append, List.length_singleton] at this
  omega

/-- A first entry is planted before the others, and what is in it after it. -/
theorem plant_cons (d : Loc) {es children rest : Entries ι} {name : Elem} {kind : Kind}
    (hself : ∀ r, es.find (name :: r) = if r = [] then some kind else children.find r)
    (hother : ∀ e r, e ≠ name → es.find (e :: r) = rest.find (e :: r)) (h : name ∉ rest.names)
    (k : Loc → Option Kind) :
    plant d es k =
      plant d rest (plant (d ++ [name]) children (Function.update k (d ++ [name]) (some kind))) := by
  funext l
  by_cases hl : d <+: l
  · obtain ⟨r, rfl⟩ := hl
    rw [plant_append, plant_append]
    cases r with
    | nil =>
        rw [Entries.find_nil, Entries.find_nil, List.append_nil,
          plant_outside (not_prefix_self d name), Function.update_of_ne (by simp)]
    | cons e r =>
        by_cases he : e = name
        · subst he
          have hsplit : d ++ e :: r = d ++ [e] ++ r := by simp
          rw [Entries.find_of_not_mem r h, Option.none_or, hself, hsplit, plant_append]
          cases r with
          | nil => simp
          | cons x r => rw [if_neg (by simp), Function.update_of_ne (by simp)]
        · rw [hother e r he, plant_outside (not_prefix_of_ne r he), Function.update_of_ne]
          simpa using fun h' : e = name => absurd h' he
  · have hl' : ¬d ++ [name] <+: l := fun h' => hl ((List.prefix_append d [name]).trans h')
    rw [plant_outside hl, plant_outside hl, plant_outside hl',
      Function.update_of_ne (by rintro rfl; exact hl' List.prefix_rfl)]

theorem plant_dir (d : Loc) {name : Elem} (info : ι) (children : Entries ι) {rest : Entries ι}
    (h : name ∉ rest.names) (k : Loc → Option Kind) :
    plant d (.dir name info children rest) k =
      plant d rest (plant (d ++ [name]) children (Function.update k (d ++ [name]) (some .dir))) := by
  refine plant_cons d (fun r => ?_) (fun e r he => ?_) h k
  · rw [Entries.find, if_pos rfl]
  · rw [Entries.find, if_neg he]

theorem plant_leaf (d : Loc) {name : Elem} (lf : Leaf ι) {rest : Entries ι}
    (h : name ∉ rest.names) (k : Loc → Option Kind) :
    plant d (.leaf name lf rest) k =
      plant d rest (Function.update k (d ++ [name]) (some lf.kind)) := by
  have hself : ∀ r, (Entries.leaf name lf rest).find (name :: r) =
      if r = [] then some lf.kind else (Entries.nil : Entries ι).find r := by
    intro r
    simp [Entries.find]
  have hother : ∀ e r, e ≠ name → (Entries.leaf name lf rest).find (e :: r) = rest.find (e :: r) := by
    intro e r he
    rw [Entries.find, if_neg he]
  rw [plant_cons d hself hother h, plant_nil]

end FileTree
