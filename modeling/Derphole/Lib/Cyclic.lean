import Mathlib.Data.List.Rotate
import Mathlib.Logic.Function.Iterate

/-!
# Cyclic scans

A scan over an increasing list of numbers starts at a cursor, takes the next few
numbers cyclically, and leaves the cursor behind the last one it took.  Then the
numbers in scan order are rotated by as many as were taken, so that repeated scans
reach every number before they name one twice (`mem_scan`).
-/

namespace Lib

/-- The numbers of `l` in the order of a scan that starts at `cursor`. -/
def cyclicFrom (cursor : Nat) (l : List Nat) : List Nat :=
  l.filter (fun x => decide (cursor ≤ x)) ++ l.filter (fun x => decide (x < cursor))

theorem cyclicFrom_append {cursor : Nat} {before after : List Nat}
    (hbefore : ∀ x ∈ before, x < cursor) (hafter : ∀ x ∈ after, cursor ≤ x) :
    cyclicFrom cursor (before ++ after) = after ++ before := by
  have hb : before.filter (fun x => decide (cursor ≤ x)) = [] := by
    rw [List.filter_eq_nil_iff]
    intro x hx
    simpa using hbefore x hx
  have hb' : before.filter (fun x => decide (x < cursor)) = before := by
    rw [List.filter_eq_self]
    intro x hx
    simpa using hbefore x hx
  have ha : after.filter (fun x => decide (cursor ≤ x)) = after := by
    rw [List.filter_eq_self]
    intro x hx
    simpa using hafter x hx
  have ha' : after.filter (fun x => decide (x < cursor)) = [] := by
    rw [List.filter_eq_nil_iff]
    intro x hx
    simpa using hafter x hx
  simp [cyclicFrom, hb, hb', ha, ha']

/-- A cursor before the list scans it from its start. -/
theorem cyclicFrom_of_le {cursor : Nat} {l : List Nat} (h : ∀ x ∈ l, cursor ≤ x) :
    cyclicFrom cursor l = l := by
  simpa using @cyclicFrom_append cursor [] l (by simp) h

/-- So does a cursor behind it. -/
theorem cyclicFrom_of_lt {cursor : Nat} {l : List Nat} (h : ∀ x ∈ l, x < cursor) :
    cyclicFrom cursor l = l := by
  simpa using @cyclicFrom_append cursor l [] h (by simp)

theorem cyclicFrom_perm (cursor : Nat) (l : List Nat) : (cyclicFrom cursor l).Perm l := by
  have hneg : (fun x => decide (x < cursor)) = fun x => !decide (cursor ≤ x) := by
    funext x
    rw [← decide_not, decide_eq_decide]
    omega
  rw [cyclicFrom, hneg]
  exact List.filter_append_perm _ l

theorem length_cyclicFrom (cursor : Nat) (l : List Nat) : (cyclicFrom cursor l).length = l.length :=
  (cyclicFrom_perm cursor l).length_eq

/-- An increasing list is cut in two by a cursor. -/
theorem filter_lt_append_filter_le {l : List Nat} (hl : l.Pairwise (· < ·)) (cursor : Nat) :
    l.filter (fun x => decide (x < cursor)) ++ l.filter (fun x => decide (cursor ≤ x)) = l := by
  induction l with
  | nil => rfl
  | cons x l ih =>
      rw [List.pairwise_cons] at hl
      by_cases hx : x < cursor
      · simpa [hx, Nat.not_le.mpr hx] using ih hl.2
      · have hrest : ∀ y ∈ l, cursor ≤ y := by
          intro y hy
          have := hl.1 y hy
          omega
        have hnone : l.filter (fun x => decide (x < cursor)) = [] := by
          rw [List.filter_eq_nil_iff]
          intro y hy
          simpa using hrest y hy
        have hall : l.filter (fun x => decide (cursor ≤ x)) = l := by
          rw [List.filter_eq_self]
          intro y hy
          simpa using hrest y hy
        simp [hx, Nat.le_of_not_lt hx, hnone, hall]

/-- Cut behind a number of an increasing list. -/
theorem cyclicFrom_succ {before after : List Nat} {x : Nat}
    (hl : (before ++ after).Pairwise (· < ·)) (hx : before.getLast? = some x) :
    cyclicFrom (x + 1) (before ++ after) = after ++ before := by
  obtain ⟨rest, rfl⟩ := List.getLast?_eq_some_iff.mp hx
  rw [List.pairwise_append, List.pairwise_append] at hl
  obtain ⟨⟨_, _, hrest⟩, _, hafter⟩ := hl
  apply cyclicFrom_append
  · intro y hy
    rcases List.mem_append.mp hy with hy | hy
    · have := hrest y hy x (by simp)
      omega
    · rw [List.mem_singleton] at hy
      omega
  · intro y hy
    have := hafter x (by simp) y hy
    omega

/-- Behind the last number taken, the scan goes on with those not taken. -/
theorem cyclicFrom_next {l taken rest : List Nat} {cursor x : Nat} (hl : l.Pairwise (· < ·))
    (horder : cyclicFrom cursor l = taken ++ rest) (hx : taken.getLast? = some x) :
    cyclicFrom (x + 1) l = rest ++ taken := by
  have hcut := filter_lt_append_filter_le hl cursor
  generalize hbefore : l.filter (fun x => decide (x < cursor)) = before at hcut
  generalize hafter : l.filter (fun x => decide (cursor ≤ x)) = after at hcut
  rw [cyclicFrom, hbefore, hafter] at horder
  subst hcut
  rcases List.append_eq_append_iff.mp horder with ⟨more, rfl, rfl⟩ | ⟨more, rfl, rfl⟩
  · -- The scan went past the end of the list, or came to it.
    cases hmore : more.getLast? with
    | none =>
        rw [List.getLast?_eq_none_iff] at hmore
        subst hmore
        rw [List.append_nil] at hx
        have hlast : (rest ++ after).getLast? = some x := by
          rw [List.getLast?_append, hx]
          rfl
        simpa using @cyclicFrom_succ _ [] x (by simpa using hl) hlast
    | some y =>
        rw [List.getLast?_append, hmore] at hx
        cases hx
        rw [List.append_assoc] at hl ⊢
        simpa using cyclicFrom_succ hl hmore
  · -- It stayed within the numbers behind the cursor.
    have hlast : (before ++ taken).getLast? = some x := by
      rw [List.getLast?_append, hx]
      rfl
    rw [← List.append_assoc] at hl ⊢
    simpa using cyclicFrom_succ hl hlast

/-! ## Repeated scans -/

section

variable {σ : Type*} {call : σ → List Nat × σ} {I : σ → Prop} {order : σ → List Nat} {limit : Nat}

/-- Every call takes the next `limit` numbers of `order` and leaves them at its end. -/
structure Scans (call : σ → List Nat × σ) (I : σ → Prop) (order : σ → List Nat) (limit : Nat) :
    Prop where
  out : ∀ s, I s → (call s).1 = (order s).take limit
  next : ∀ s, I s → order (call s).2 = (order s).drop limit ++ (order s).take limit
  keep : ∀ s, I s → I (call s).2

/-- The state after `k` calls. -/
def afterCalls (call : σ → List Nat × σ) (k : Nat) (s : σ) : σ := (fun s => (call s).2)^[k] s

theorem afterCalls_succ (k : Nat) (s : σ) :
    afterCalls call (k + 1) s = (call (afterCalls call k s)).2 :=
  Function.iterate_succ_apply' _ k s

theorem Scans.keep_afterCalls (h : Scans call I order limit) {s : σ} (hs : I s) (k : Nat) :
    I (afterCalls call k s) := by
  induction k with
  | zero => exact hs
  | succ k ih =>
      rw [afterCalls_succ]
      exact h.keep _ ih

/-- While the calls have not come round, the order is rotated by all they took. -/
theorem Scans.order_afterCalls (h : Scans call I order limit) {s : σ} (hs : I s) {k : Nat}
    (hk : k * limit ≤ (order s).length) :
    order (afterCalls call k s) = (order s).drop (k * limit) ++ (order s).take (k * limit) := by
  induction k with
  | zero => simp [afterCalls]
  | succ k ih =>
      rw [Nat.succ_mul] at hk
      have hlen : limit ≤ ((order s).drop (k * limit)).length := by
        rw [List.length_drop]
        omega
      rw [afterCalls_succ, h.next _ (h.keep_afterCalls hs k), ih (by omega),
        List.drop_append_of_le_length hlen, List.take_append_of_le_length hlen, List.drop_drop,
        List.append_assoc, ← List.take_add, Nat.succ_mul]

/-- The number at position `i` of the order is named by call `i / limit`. -/
theorem Scans.getElem_mem (h : Scans call I order limit) {s : σ} (hs : I s) (hlimit : 0 < limit)
    {i : Nat} (hi : i < (order s).length) :
    (order s)[i] ∈ (call (afterCalls call (i / limit) s)).1 := by
  have hdiv : i / limit * limit ≤ i := Nat.div_mul_le_self i limit
  have hmod : i - i / limit * limit < limit := by
    have := Nat.mod_lt i hlimit
    have := Nat.div_add_mod' i limit
    omega
  rw [h.out _ (h.keep_afterCalls hs _), h.order_afterCalls hs (by omega), List.mem_take_iff_getElem]
  refine ⟨i - i / limit * limit, ?_, ?_⟩
  · rw [List.length_append, List.length_drop]
    omega
  · rw [List.getElem_append_left (by rw [List.length_drop]; omega), List.getElem_drop]
    congr 1
    omega

/-- Every number is named within as many calls as the numbers fill. -/
theorem Scans.mem_scan (h : Scans call I order limit) {s : σ} (hs : I s) (hlimit : 0 < limit)
    {q : Nat} (hq : q ∈ order s) :
    ∃ i < ((order s).length + limit - 1) / limit, q ∈ (call (afterCalls call i s)).1 := by
  obtain ⟨i, hi, rfl⟩ := List.getElem_of_mem hq
  refine ⟨i / limit, ?_, h.getElem_mem hs hlimit hi⟩
  calc
    i / limit < i / limit + 1 := Nat.lt_succ_self _
    _ = (i + limit) / limit := (Nat.add_div_right i hlimit).symm
    _ ≤ ((order s).length + limit - 1) / limit := Nat.div_le_div_right (by omega)

end

end Lib
