import Mathlib.Data.List.TakeWhile

/-!
# Lexical path processing

The Unix half of Go's `path/filepath`, as documented: `Clean`, `Join`, `Base`,
`Dir`, `IsAbs` and `Rel`.  A path is a string over `/`.  Only the characters
`/` and `.` matter to any of these functions, so whether a Go string is read as
bytes or as characters makes no difference.

`Clean` works on the elements between the separators.  `pushElem` adds one
element to a stack of cleaned elements, newest first, and drops what the
documentation says is eliminated: empty elements, `.`, an inner `..` with the
element before it, and a `..` at the root.

`locate` is where a path leads in a file system without symbolic links: the
elements from the root, the working directory first when the path is relative.
`locate_clean` says that cleaning a path does not move it.
-/

namespace Filepath

abbrev Path := List Char

/-- What stands between two separators. -/
abbrev Elem := List Char

def sep : Char := '/'

def dot : Elem := ['.']

def dotdot : Elem := ['.', '.']

def isAbs (p : Path) : Bool := p.head? == some sep

/-- The elements of a path, empty ones included. -/
def elems (p : Path) : List Elem := p.splitOn sep

/-! ## Clean -/

/-- `..` removes the name on top of the stack. -/
def popElem (rooted : Bool) : List Elem → List Elem
  | [] => if rooted then [] else [dotdot]
  | x :: rest => if x = dotdot then dotdot :: x :: rest else rest

/-- Add one element to a stack of cleaned elements. -/
def pushElem (rooted : Bool) (out : List Elem) (e : Elem) : List Elem :=
  if e = [] ∨ e = dot then out
  else if e = dotdot then popElem rooted out
  else e :: out

/-- The stack left by a list of elements, on top of `out`. -/
def pushElems (rooted : Bool) (out : List Elem) (es : List Elem) : List Elem :=
  es.foldl (pushElem rooted) out

def cleanElems (rooted : Bool) (es : List Elem) : List Elem := (pushElems rooted [] es).reverse

/-- The path with the given cleaned elements. -/
def render (rooted : Bool) (es : List Elem) : Path :=
  if rooted then sep :: [sep].intercalate es
  else if es = [] then dot
  else [sep].intercalate es

def clean (p : Path) : Path := render (isAbs p) (cleanElems (isAbs p) (elems p))

/-! ## Join, Base, Dir and Rel -/

/-- Empty arguments are ignored, and the result is cleaned. -/
def join (ps : List Path) : Path :=
  match ps.dropWhile (· = []) with
  | [] => []
  | q :: qs => clean ([sep].intercalate (q :: qs))

/-- The last element, trailing separators removed. -/
def base (p : Path) : Path :=
  if p = [] then dot
  else
    match p.reverse.dropWhile (· = sep) with
    | [] => [sep]
    | q => (q.takeWhile (· ≠ sep)).reverse

/-- All but the last element, cleaned. -/
def dir (p : Path) : Path := clean (p.reverse.dropWhile (· ≠ sep)).reverse

/-- Strip the common elements, go up for what is left of the base, then down. -/
def relElems : List Elem → List Elem → Option (List Elem)
  | b :: bs, t :: ts =>
      if b = t then relElems bs ts
      else if b = dotdot then none
      else some ((b :: bs).map (fun _ => dotdot) ++ t :: ts)
  | b :: bs, [] => if b = dotdot then none else some ((b :: bs).map fun _ => dotdot)
  | [], ts => some ts

def rel (basepath targpath : Path) : Option Path :=
  if clean targpath = clean basepath then some dot
  else if isAbs basepath ≠ isAbs targpath then none
  else
    (relElems (cleanElems (isAbs basepath) (elems basepath))
      (cleanElems (isAbs targpath) (elems targpath))).map ([sep].intercalate ·)

/-! ## Where a path leads -/

/-- A place in the file system: the elements from the root. -/
abbrev Loc := List Elem

/-- Where `p` leads, seen from the working directory `cwd`. -/
def locate (cwd : Loc) (p : Path) : Loc :=
  if isAbs p then cleanElems true (elems p) else (pushElems true cwd.reverse (elems p)).reverse

/-- `l` lies strictly inside `d`. -/
def Inside (d l : Loc) : Prop := ∃ e es, l = d ++ e :: es

/-- An element that names an entry of a directory. -/
def IsName (e : Elem) : Prop := e ≠ [] ∧ e ≠ dot ∧ e ≠ dotdot ∧ sep ∉ e

/-! ## Elements -/

theorem sep_not_mem_of_mem_elems : ∀ (p : Path) {e : Elem}, e ∈ elems p → sep ∉ e
  | [], e, h => by
      simp only [elems, List.splitOn_nil, List.mem_singleton] at h
      subst h
      simp
  | c :: cs, e, h => by
      have ih := fun {e : Elem} => sep_not_mem_of_mem_elems cs (e := e)
      rw [elems, List.splitOn_cons_eq_if_modifyHead] at h
      split at h
      · rcases List.mem_cons.mp h with rfl | h
        · simp
        · exact ih h
      · rename_i hc
        cases hs : List.splitOn sep cs with
        | nil => exact absurd hs (List.splitOn_ne_nil _ _)
        | cons e₀ es =>
            rw [hs, List.modifyHead_cons] at h
            rcases List.mem_cons.mp h with rfl | h
            · have h₀ : sep ∉ e₀ := ih (by rw [elems, hs]; simp)
              simp only [beq_iff_eq] at hc
              simp [h₀, Ne.symm hc]
            · exact ih (by rw [elems, hs]; simp [h])

theorem elems_append_sep (p q : Path) : elems (p ++ sep :: q) = elems p ++ elems q :=
  List.splitOn_append_cons_self p q

theorem elems_intercalate {es : List Elem} (h : ∀ e ∈ es, sep ∉ e) (hne : es ≠ []) :
    elems ([sep].intercalate es) = es :=
  List.splitOn_intercalate sep h hne

theorem elems_of_sep_not_mem {e : Elem} (h : sep ∉ e) : elems e = [e] :=
  List.splitOn_eq_singleton h

/-! ## Pushing -/

theorem pushElem_skip {rooted : Bool} (out : List Elem) {e : Elem} (h : e = [] ∨ e = dot) :
    pushElem rooted out e = out := by
  rw [pushElem, if_pos h]

theorem pushElem_name {rooted : Bool} (out : List Elem) {e : Elem} (h₁ : ¬(e = [] ∨ e = dot))
    (h₂ : e ≠ dotdot) : pushElem rooted out e = e :: out := by
  rw [pushElem, if_neg h₁, if_neg h₂]

theorem dotdot_not_skip : ¬(dotdot = [] ∨ dotdot = dot) := by decide

theorem pushElems_append (rooted : Bool) (out es es' : List Elem) :
    pushElems rooted out (es ++ es') = pushElems rooted (pushElems rooted out es) es' :=
  List.foldl_append

theorem pushElems_cons (rooted : Bool) (out : List Elem) (e : Elem) (es : List Elem) :
    pushElems rooted out (e :: es) = pushElems rooted (pushElem rooted out e) es := rfl

/-- Names pile up on the stack. -/
theorem pushElems_names {rooted : Bool} :
    ∀ (es out : List Elem), (∀ e ∈ es, IsName e) → pushElems rooted out es = es.reverse ++ out
  | [], out, _ => rfl
  | e :: es, out, h => by
      have he := h e (by simp)
      rw [pushElems_cons, pushElem_name out (by rintro (h' | h'); exacts [he.1 h', he.2.1 h'])
        he.2.2.1, pushElems_names es _ fun x hx => h x (by simp [hx])]
      simp

theorem pushElem_dotdot (rooted : Bool) (out : List Elem) :
    pushElem rooted out dotdot = popElem rooted out := by
  rw [pushElem, if_neg dotdot_not_skip, if_pos rfl]

/-- What a stack of cleaned elements holds: names, and below them `..`, which
a rooted path never keeps. -/
def Stack (rooted : Bool) (out : List Elem) : Prop :=
  ∃ ns k, out = ns ++ List.replicate k dotdot ∧ (∀ e ∈ ns, IsName e) ∧ (rooted = true → k = 0)

theorem Stack.nil (rooted : Bool) : Stack rooted [] :=
  ⟨[], 0, by simp, by simp, by simp⟩

theorem Stack.pop {rooted : Bool} {out : List Elem} (h : Stack rooted out) :
    Stack rooted (popElem rooted out) := by
  obtain ⟨ns, k, rfl, hns, hk⟩ := h
  cases ns with
  | cons n ns =>
      rw [List.cons_append, popElem, if_neg (hns n (by simp)).2.2.1]
      exact ⟨ns, k, rfl, fun e h' => hns e (by simp [h']), hk⟩
  | nil =>
      cases k with
      | succ k =>
          have hr : ¬rooted = true := fun hr => absurd (hk hr) (by omega)
          exact ⟨[], k + 2, by simp [List.replicate_succ, popElem], by simp, fun h => absurd h hr⟩
      | zero =>
          cases rooted with
          | true => exact Stack.nil true
          | false => exact ⟨[], 1, by simp [popElem], by simp, by simp⟩

theorem Stack.push {rooted : Bool} {out : List Elem} (h : Stack rooted out) {e : Elem}
    (he : sep ∉ e) : Stack rooted (pushElem rooted out e) := by
  by_cases hskip : e = [] ∨ e = dot
  · rwa [pushElem_skip out hskip]
  · by_cases hdd : e = dotdot
    · rw [hdd, pushElem_dotdot]
      exact h.pop
    · rw [pushElem_name out hskip hdd]
      obtain ⟨ns, k, rfl, hns, hk⟩ := h
      refine ⟨e :: ns, k, rfl, ?_, hk⟩
      intro x hx
      rcases List.mem_cons.mp hx with rfl | hx
      · exact ⟨fun h' => hskip (.inl h'), fun h' => hskip (.inr h'), hdd, he⟩
      · exact hns x hx

theorem Stack.pushes {rooted : Bool} :
    ∀ (es : List Elem) {out : List Elem}, Stack rooted out → (∀ e ∈ es, sep ∉ e) →
      Stack rooted (pushElems rooted out es)
  | [], _, h, _ => h
  | e :: es, _, h, hes => Stack.pushes es (h.push (hes e (by simp))) fun x hx => hes x (by simp [hx])

theorem stack_elems (rooted : Bool) (p : Path) : Stack rooted (pushElems rooted [] (elems p)) :=
  Stack.pushes (elems p) (Stack.nil rooted) fun _ h => sep_not_mem_of_mem_elems p h

theorem Stack.no_sep {rooted : Bool} {out : List Elem} (h : Stack rooted out) :
    ∀ e ∈ out, sep ∉ e := by
  obtain ⟨ns, k, rfl, hns, _⟩ := h
  intro e he
  rcases List.mem_append.mp he with he | he
  · exact (hns e he).2.2.2
  · rw [List.eq_of_mem_replicate he]
    decide

/-! ## Cleaning does not move a path -/

/-- Pushing an element on an unrooted stack and replaying it on top of `acc` is
replaying the stack and pushing the element there. -/
theorem pushElems_reverse_push {rooted : Bool} {out : List Elem} (h : Stack rooted out)
    (acc : List Elem) (hacc : rooted = true → acc = []) (e : Elem) :
    pushElems true acc (pushElem rooted out e).reverse =
      pushElem true (pushElems true acc out.reverse) e := by
  by_cases hskip : e = [] ∨ e = dot
  · rw [pushElem_skip out hskip, pushElem_skip _ hskip]
  · by_cases hdd : e = dotdot
    · rw [hdd, pushElem_dotdot, pushElem_dotdot]
      obtain ⟨ns, k, rfl, hns, hk⟩ := h
      cases ns with
      | cons n ns =>
          have hn := hns n (by simp)
          rw [List.cons_append, popElem, if_neg hn.2.2.1, List.reverse_cons, pushElems_append,
            pushElems_cons, pushElem_name _ (by rintro (h' | h'); exacts [hn.1 h', hn.2.1 h'])
            hn.2.2.1]
          rw [show ∀ l, pushElems true l [] = l from fun _ => rfl, popElem, if_neg hn.2.2.1]
      | nil =>
          cases k with
          | zero =>
              cases rooted with
              | true =>
                  rw [hacc rfl]
                  rfl
              | false => simp [popElem, pushElems, pushElem_dotdot]
          | succ k =>
              simp only [List.nil_append, List.replicate_succ, popElem, if_true,
                List.reverse_cons]
              rw [pushElems_append _ _ (_ ++ _)]
              exact pushElem_dotdot true _
    · rw [pushElem_name out hskip hdd, List.reverse_cons, pushElems_append]
      rfl

/-- Replaying cleaned elements is replaying the elements. -/
theorem pushElems_clean {rooted : Bool} (acc : List Elem) (hacc : rooted = true → acc = []) :
    ∀ (es : List Elem) {out : List Elem}, Stack rooted out → (∀ e ∈ es, sep ∉ e) →
      pushElems true acc (pushElems rooted out es).reverse =
        pushElems true (pushElems true acc out.reverse) es
  | [], _, _, _ => rfl
  | e :: es, out, h, hes => by
      rw [pushElems_cons, pushElems_cons, ← pushElems_reverse_push h acc hacc e]
      exact pushElems_clean acc hacc es (h.push (hes e (by simp))) fun x hx => hes x (by simp [hx])

theorem isAbs_intercalate {es : List Elem} (h : ∀ e ∈ es, e ≠ [] ∧ sep ∉ e) :
    isAbs ([sep].intercalate es) = false := by
  cases es with
  | nil => rfl
  | cons e es =>
      obtain ⟨hne, hsep⟩ := h e (by simp)
      cases e with
      | nil => exact absurd rfl hne
      | cons c cs =>
          have hc : c ≠ sep := fun h' => hsep (by simp [h'])
          cases es <;> simp [isAbs, List.intercalate, hc]

theorem Stack.ne_nil {rooted : Bool} {out : List Elem} (h : Stack rooted out) :
    ∀ e ∈ out, e ≠ [] := by
  obtain ⟨ns, k, rfl, hns, _⟩ := h
  intro e he
  rcases List.mem_append.mp he with he | he
  · exact (hns e he).1
  · rw [List.eq_of_mem_replicate he]
    decide

theorem isAbs_render {rooted : Bool} {out : List Elem} (h : Stack rooted out) :
    isAbs (render rooted out.reverse) = rooted := by
  cases rooted with
  | true => simp [render, isAbs]
  | false =>
      rw [render, if_neg (by simp)]
      split
      · rfl
      · exact isAbs_intercalate fun e he =>
          ⟨h.ne_nil e (List.mem_reverse.mp he), h.no_sep e (List.mem_reverse.mp he)⟩

/-- Replaying a rendered path is replaying its elements. -/
theorem pushElems_elems_render {rooted : Bool} {out : List Elem} (h : Stack rooted out)
    (r : Bool) (acc : List Elem) :
    pushElems r acc (elems (render rooted out.reverse)) = pushElems r acc out.reverse := by
  have hsep : ∀ e ∈ out.reverse, sep ∉ e := fun e he => h.no_sep e (List.mem_reverse.mp he)
  cases rooted with
  | true =>
      have he : elems (render true out.reverse) =
          [] :: elems ([sep].intercalate out.reverse) := elems_append_sep [] _
      rw [he, pushElems_cons, pushElem_skip acc (.inl rfl)]
      by_cases hne : out.reverse = []
      · rw [hne]
        exact @pushElem_skip r acc [] (.inl rfl)
      · rw [elems_intercalate hsep hne]
  | false =>
      rw [render, if_neg (by simp)]
      split
      · rename_i hnil
        rw [hnil]
        exact @pushElem_skip r acc dot (.inr rfl)
      · rename_i hne
        rw [elems_intercalate hsep hne]

theorem isAbs_clean (p : Path) : isAbs (clean p) = isAbs p := by
  have h := isAbs_render (stack_elems (isAbs p) p)
  exact h

/-- A cleaned path leads where the path leads. -/
theorem locate_clean (cwd : Loc) (p : Path) : locate cwd (clean p) = locate cwd p := by
  have hstack := stack_elems (isAbs p) p
  have hsep : ∀ e ∈ elems p, sep ∉ e := fun _ h => sep_not_mem_of_mem_elems p h
  rw [locate, locate, isAbs_clean]
  cases habs : isAbs p with
  | true =>
      rw [habs] at hstack
      rw [if_pos rfl, if_pos rfl, cleanElems, cleanElems, clean, habs, cleanElems,
        pushElems_elems_render hstack, pushElems_clean [] (by simp) _ (Stack.nil true) hsep]
      rfl
  | false =>
      rw [habs] at hstack
      rw [if_neg (by simp), if_neg (by simp), clean, habs, cleanElems,
        pushElems_elems_render hstack, pushElems_clean cwd.reverse (by simp) _ (Stack.nil false) hsep]
      rfl

/-! ## Names under a directory -/

theorem clean_ne_nil (p : Path) : clean p ≠ [] := by
  have h := stack_elems (isAbs p) p
  rw [clean, render, cleanElems]
  split
  · simp
  · split
    · decide
    · rename_i hne
      intro hnil
      have := congrArg List.length (elems_intercalate
        (fun e he => h.no_sep e (List.mem_reverse.mp he)) hne)
      rw [hnil, show elems [] = [[]] from rfl] at this
      have hlen : (pushElems (isAbs p) [] (elems p)).reverse = [[]] := by
        rw [← elems_intercalate (fun e he => h.no_sep e (List.mem_reverse.mp he)) hne, hnil]
        rfl
      exact h.ne_nil [] (by rw [← List.mem_reverse, hlen]; simp) rfl

theorem isAbs_append {p : Path} (h : p ≠ []) (q : Path) : isAbs (p ++ q) = isAbs p := by
  cases p with
  | nil => exact absurd rfl h
  | cons c cs => rfl

/-- Following names below a path goes down by these names. -/
theorem locate_append_names (cwd : Loc) {p q : Path} {es : List Elem} (hp : p ≠ [])
    (hq : elems q = es) (hes : ∀ e ∈ es, IsName e) :
    locate cwd (p ++ sep :: q) = locate cwd p ++ es := by
  rw [locate, locate, isAbs_append hp, elems_append_sep, hq]
  split
  · rw [cleanElems, cleanElems, pushElems_append, pushElems_names es _ hes]
    simp
  · rw [pushElems_append, pushElems_names es _ hes]
    simp

theorem join_two {p : Path} (hp : p ≠ []) (q : Path) : join [p, q] = clean (p ++ sep :: q) := by
  simp [join, hp, List.intercalate]

theorem locate_join_names (cwd : Loc) {p q : Path} {es : List Elem} (hp : p ≠ [])
    (hq : elems q = es) (hes : ∀ e ∈ es, IsName e) :
    locate cwd (join [p, q]) = locate cwd p ++ es := by
  rw [join_two hp, locate_clean, locate_append_names cwd hp hq hes]

theorem locate_name (cwd : Loc) {e : Elem} (h : IsName e) : locate cwd e = cwd ++ [e] := by
  have habs : isAbs e = false := by
    cases e with
    | nil => rfl
    | cons c cs => simpa [isAbs] using fun h' : c = sep => h.2.2.2 (by simp [h'])
  rw [locate, habs, if_neg (by simp), elems_of_sep_not_mem h.2.2.2,
    pushElems_names [e] _ (by simpa using h)]
  simp

theorem locate_dot (cwd : Loc) : locate cwd dot = cwd := by
  simp [locate, isAbs, dot, sep, elems, pushElems, pushElem, List.splitOn_cons_eq_if_modifyHead]

theorem locate_nil (cwd : Loc) : locate cwd [] = cwd := by
  simp [locate, isAbs, elems, pushElems, pushElem]

/-- From a proper directory every path leads to a proper location. -/
theorem locate_names {cwd : Loc} (hcwd : ∀ e ∈ cwd, IsName e) (p : Path) :
    ∀ e ∈ locate cwd p, IsName e := by
  have hsep : ∀ e ∈ elems p, sep ∉ e := fun _ h => sep_not_mem_of_mem_elems p h
  have hnames : ∀ {out : List Elem}, Stack true out → ∀ e ∈ out.reverse, IsName e := by
    rintro _ ⟨ns, k, rfl, hns, hk⟩ e he
    rw [hk rfl, List.replicate_zero, List.append_nil] at he
    exact hns e (List.mem_reverse.mp he)
  have hstack : Stack true cwd.reverse :=
    ⟨cwd.reverse, 0, by simp, fun e he => hcwd e (List.mem_reverse.mp he), fun _ => rfl⟩
  rw [locate]
  split
  · exact hnames (stack_elems true p)
  · exact hnames (Stack.pushes (elems p) hstack hsep)

/-- `..` below a path leads to the directory that holds it. -/
theorem locate_join_dotdot {cwd l : Loc} {e : Elem} {p : Path} (hp : p ≠ []) (he : e ≠ dotdot)
    (hloc : locate cwd p = l ++ [e]) : locate cwd (join [p, dotdot]) = l := by
  have hdd : elems dotdot = [dotdot] := by decide
  have hpop : ∀ out : List Elem, out.reverse = l ++ [e] →
      (pushElems true out [dotdot]).reverse = l := by
    intro out hout
    rw [← List.reverse_inj, List.reverse_reverse] at hout
    rw [hout, pushElems, List.foldl_cons, List.foldl_nil, pushElem_dotdot, List.reverse_append,
      List.reverse_singleton, List.singleton_append, popElem, if_neg he, List.reverse_reverse]
  rw [join_two hp, locate_clean, locate, isAbs_append hp, elems_append_sep, hdd]
  rw [locate] at hloc
  split at hloc
  · rename_i habs
    rw [if_pos habs, cleanElems, pushElems_append]
    exact hpop _ hloc
  · rename_i habs
    rw [if_neg habs, pushElems_append]
    exact hpop _ hloc

theorem sep_not_mem_takeWhile (q : List Char) : sep ∉ q.takeWhile (· ≠ sep) := by
  intro h
  simpa using List.mem_takeWhile_imp h

/-- A base that is neither of the three special values names an entry. -/
theorem base_isName {p : Path} (h₁ : base p ≠ dot) (h₂ : base p ≠ [sep]) (h₃ : base p ≠ [])
    (h₄ : base p ≠ dotdot) : IsName (base p) := by
  refine ⟨h₃, h₁, h₄, ?_⟩
  rw [base] at h₁ h₂ ⊢
  split at h₁
  · exact absurd rfl h₁
  · rename_i hne
    rw [if_neg hne] at h₂ ⊢
    split at h₂
    · exact absurd rfl h₂
    · intro h
      exact sep_not_mem_takeWhile _ (List.mem_reverse.mp h)

/-! ## The directory of a path -/

theorem dir_append {q : Path} {e : Elem} (h : sep ∉ e) : dir (q ++ sep :: e) = clean (q ++ [sep]) := by
  rw [dir]
  congr 1
  rw [List.reverse_append, List.reverse_cons, List.append_assoc, List.dropWhile_append_of_pos]
  · simp [sep]
  · intro c hc
    have : c ≠ sep := fun h' => h (by rw [← h']; exact List.mem_reverse.mp hc)
    simpa using this

theorem dir_name {e : Elem} (h : sep ∉ e) : dir e = dot := by
  rw [dir, List.dropWhile_eq_nil_iff.mpr]
  · rfl
  · intro c hc
    have : c ≠ sep := fun h' => h (by rw [← h']; exact List.mem_reverse.mp hc)
    simpa using this

theorem intercalate_snoc {n : Elem} :
    ∀ (es : List Elem), es ≠ [] → [sep].intercalate (es ++ [n]) = [sep].intercalate es ++ sep :: n
  | [e], _ => by simp [List.intercalate]
  | e :: e' :: es, _ => by
      have ih := intercalate_snoc (n := n) (e' :: es) (by simp)
      rw [List.cons_append, List.cons_append, List.intercalate_cons_cons, ← List.cons_append, ih,
        List.intercalate_cons_cons]
      simp

/-- A rendered path that ends in a name leads to that name in its directory. -/
theorem locate_dir_render (cwd : Loc) {rooted : Bool} {out : List Elem} {n : Elem}
    (h : Stack rooted (n :: out)) (hn : IsName n) :
    locate cwd (render rooted (n :: out).reverse) =
      locate cwd (dir (render rooted (n :: out).reverse)) ++ [n] := by
  have key : ∀ q : Path, locate cwd (q ++ sep :: n) = locate cwd (q ++ [sep]) ++ [n] := by
    intro q
    have habs : isAbs (q ++ sep :: n) = isAbs (q ++ [sep]) := by cases q <;> rfl
    rw [locate, locate, habs, elems_append_sep, elems_append_sep,
      elems_of_sep_not_mem hn.2.2.2, show elems [] = [[]] from rfl]
    split
    · rw [cleanElems, cleanElems, pushElems_append, pushElems_append,
        pushElems_names [n] _ (by simpa using hn)]
      simp [pushElem_skip, pushElems]
    · rw [pushElems_append, pushElems_append, pushElems_names [n] _ (by simpa using hn)]
      simp [pushElem_skip, pushElems]
  rw [List.reverse_cons]
  cases rooted with
  | true =>
      rw [render, if_pos rfl]
      by_cases hne : out.reverse = []
      · rw [hne]
        have : sep :: [sep].intercalate ([] ++ [n]) = [] ++ sep :: n := by simp [List.intercalate]
        rw [this, dir_append hn.2.2.2, locate_clean]
        exact key []
      · rw [intercalate_snoc _ hne, ← List.cons_append, dir_append hn.2.2.2, locate_clean]
        exact key _
  | false =>
      rw [render, if_neg (by simp), if_neg (by simp)]
      by_cases hne : out.reverse = []
      · rw [hne]
        have : [sep].intercalate ([] ++ [n]) = n := by simp [List.intercalate]
        rw [this, dir_name hn.2.2.2, locate_dot, locate_name cwd hn]
      · rw [intercalate_snoc _ hne, dir_append hn.2.2.2, locate_clean]
        exact key _

/-- Below a path, the last of some names stands in the directory of the names
before it. -/
theorem locate_dir_join_names (cwd : Loc) {p q : Path} {es : List Elem} {n : Elem} (hp : p ≠ [])
    (hq : elems q = es ++ [n]) (hes : ∀ e ∈ es ++ [n], IsName e) :
    locate cwd (dir (join [p, q])) = locate cwd p ++ es := by
  have hjoin := locate_join_names cwd hp hq hes
  have hstack := stack_elems (isAbs (p ++ sep :: q)) (p ++ sep :: q)
  have hpush : pushElems (isAbs (p ++ sep :: q)) [] (elems (p ++ sep :: q)) =
      n :: (es.reverse ++ pushElems (isAbs (p ++ sep :: q)) [] (elems p)) := by
    rw [elems_append_sep, pushElems_append, hq, pushElems_names _ _ hes]
    simp
  rw [hpush] at hstack
  have hdir := locate_dir_render cwd hstack (hes n (by simp))
  have hclean : join [p, q] = render (isAbs (p ++ sep :: q))
      (n :: (es.reverse ++ pushElems (isAbs (p ++ sep :: q)) [] (elems p))).reverse := by
    rw [join_two hp, clean, cleanElems, hpush]
  rw [← hclean, hjoin, ← List.append_assoc] at hdir
  exact (List.append_cancel_right hdir).symm

/-! ## Clean paths that do not climb -/

/-- A relative cleaned path that is not `.` and does not start with `..` is a
list of names. -/
theorem elems_clean_names {p : Path} (hdot : clean p ≠ dot) (hdd : ¬dotdot <+: clean p)
    (habs : isAbs (clean p) = false) :
    ∃ es n, elems (clean p) = es ++ [n] ∧ ∀ e ∈ es ++ [n], IsName e := by
  rw [isAbs_clean] at habs
  obtain ⟨ns, k, hout, hns, -⟩ := stack_elems (isAbs p) p
  have hsep := (stack_elems (isAbs p) p).no_sep
  rw [clean, render, habs, if_neg (by simp), cleanElems] at hdot hdd ⊢
  rw [habs] at hout hsep
  split at hdot
  · exact absurd rfl hdot
  rename_i hne
  rw [if_neg hne] at hdd ⊢
  have hk : k = 0 := by
    by_contra hk
    refine hdd ?_
    obtain ⟨k', rfl⟩ : ∃ k', k = k' + 1 := ⟨k - 1, by omega⟩
    rw [hout, List.reverse_append, List.reverse_replicate, List.replicate_succ, List.cons_append]
    cases h : List.replicate k' dotdot ++ ns.reverse with
    | nil => simp
    | cons e es =>
        rw [List.intercalate_cons_cons, List.append_assoc]
        exact List.prefix_append _ _
  subst hk
  rw [List.replicate_zero, List.append_nil] at hout
  rw [elems_intercalate (fun e he => hsep e (List.mem_reverse.mp he)) hne, hout]
  cases ns with
  | nil =>
      rw [hout] at hne
      exact absurd rfl hne
  | cons n ns =>
      refine ⟨ns.reverse, n, by simp, ?_⟩
      intro e he
      exact hns e (List.mem_reverse.mp (by simpa using he))

/-! ## Relative paths -/

theorem pushElems_replicate_dotdot :
    ∀ k : Nat, pushElems false [] (List.replicate k dotdot) = List.replicate k dotdot
  | 0 => rfl
  | k + 1 => by
      rw [List.replicate_succ', pushElems_append, pushElems_replicate_dotdot k]
      cases k with
      | zero => rfl
      | succ k => simp [List.replicate_succ, pushElems, pushElem_dotdot, popElem, ← List.replicate_succ']

/-- Cleaned elements are their own stack. -/
theorem Stack.replay {rooted : Bool} {out : List Elem} (h : Stack rooted out) :
    pushElems rooted [] out.reverse = out := by
  obtain ⟨ns, k, rfl, hns, hk⟩ := h
  rw [List.reverse_append, List.reverse_replicate, pushElems_append,
    pushElems_names _ _ fun e he => hns e (List.mem_reverse.mp he), List.reverse_reverse]
  congr 1
  cases rooted with
  | true =>
      rw [hk rfl]
      rfl
  | false => exact pushElems_replicate_dotdot k

theorem pushElems_elems_clean (p : Path) :
    pushElems (isAbs p) [] (elems (clean p)) = pushElems (isAbs p) [] (elems p) := by
  have hstack := stack_elems (isAbs p) p
  rw [clean, cleanElems, pushElems_elems_render hstack, hstack.replay]

theorem relElems_append : ∀ bs ts : List Elem, relElems bs (bs ++ ts) = some ts
  | [], ts => by cases ts <;> rfl
  | b :: bs, ts => by
      rw [List.cons_append, relElems, if_pos rfl]
      exact relElems_append bs ts

/-- Seen from a path, names below it are these names, or nothing at all. -/
theorem rel_join_names {p q : Path} {es : List Elem} (hp : p ≠ []) (hq : elems q = es)
    (hes : ∀ e ∈ es, IsName e) :
    rel p (join [p, q]) = some dot ∨ rel p (join [p, q]) = some ([sep].intercalate es) := by
  have habs : isAbs (join [p, q]) = isAbs p := by
    rw [join_two hp, isAbs_clean, isAbs_append hp]
  have hpush : pushElems (isAbs p) [] (elems (join [p, q])) =
      es.reverse ++ pushElems (isAbs p) [] (elems p) := by
    have h := pushElems_elems_clean (p ++ sep :: q)
    rw [isAbs_append hp] at h
    rw [join_two hp, h, elems_append_sep, pushElems_append, hq, pushElems_names _ _ hes]
  rw [rel]
  split
  · exact .inl rfl
  · rw [if_neg (by rw [habs]; simp), habs, cleanElems, cleanElems, hpush, List.reverse_append,
      List.reverse_reverse, relElems_append]
    exact .inr rfl

end Filepath
