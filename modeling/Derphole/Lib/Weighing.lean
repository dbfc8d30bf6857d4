import Mathlib.Algebra.Order.Ring.Nat
import Mathlib.Tactic.Linarith

/-!
# Weighing points against savings

A candidate has points and a cost.  Of two candidates the cheaper one gets, on top
of its points, what it saves of the other one's cost, in parts of `whole`.  The one
with more points then outweighs the other; without points of their own they need a
lead of two.

Savings add up to more than the saving of the whole way (`saving_triangle`), so what
two small savings achieve against points one large saving may not.  The relation is
asymmetric, and it is transitive but for three candidates with different points, of
which each has less than the one it is weighed against, in turn
(`Outweighs.trans_of_not_rotating`).
-/

namespace Lib

/-- What a cost of `a` saves of a cost of `b`, rounded up, in parts of `whole`. -/
def saving (whole a b : Nat) : Nat := if b = 0 then 0 else whole - whole * a / b

section

variable {whole a b c : Nat}

theorem saving_of_le (h : b ≤ a) : saving whole a b = 0 := by
  rw [saving]
  split
  · rfl
  next hb =>
    have hle : whole ≤ whole * a / b := by
      rw [Nat.le_div_iff_mul_le (Nat.pos_of_ne_zero hb)]
      exact Nat.mul_le_mul_left whole h
    omega

theorem saving_mono_right (h : b ≤ c) : saving whole a b ≤ saving whole a c := by
  rw [saving, saving]
  split
  · exact Nat.zero_le _
  next hb =>
    rw [if_neg (by omega)]
    have hle : whole * a / c ≤ whole * a / b := Nat.div_le_div_left h (Nat.pos_of_ne_zero hb)
    omega

theorem saving_anti_left (h : a ≤ b) : saving whole b c ≤ saving whole a c := by
  rw [saving, saving]
  split
  · exact Nat.le_refl _
  · have hle : whole * a / c ≤ whole * b / c := Nat.div_le_div_right (Nat.mul_le_mul_left whole h)
    omega

/-- Two shares of a way, `r` of the second part and `q` of the first, and that of the whole way. -/
theorem share_add_le {q r : Nat} (hq : q ≤ whole) (hr : r ≤ whole) (hqb : q * b ≤ whole * a)
    (hrc : r * c ≤ whole * b) (hwhole : 0 < whole) : (q + r - whole) * c ≤ whole * a := by
  obtain hsmall | hlarge := Nat.le_total (q + r) whole
  · rw [Nat.sub_eq_zero_of_le hsmall, Nat.zero_mul]
    exact Nat.zero_le _
  · -- the product of what is missing to `whole` is not negative
    have hprod : whole * (q + r - whole) ≤ q * r := by
      obtain ⟨m, rfl⟩ := Nat.exists_eq_add_of_le hq
      obtain ⟨n, hn⟩ := Nat.exists_eq_add_of_le hlarge
      have hsub : q + r - (q + m) = n := by omega
      rw [hsub]
      have hr' : r = m + n := by omega
      rw [hr']
      nlinarith [Nat.zero_le (m * n)]
    have hchain : whole * ((q + r - whole) * c) ≤ whole * (whole * a) := calc
      whole * ((q + r - whole) * c) = whole * (q + r - whole) * c := (Nat.mul_assoc _ _ _).symm
      _ ≤ q * r * c := Nat.mul_le_mul_right c hprod
      _ = q * (r * c) := Nat.mul_assoc _ _ _
      _ ≤ q * (whole * b) := Nat.mul_le_mul_left q hrc
      _ = whole * (q * b) := Nat.mul_left_comm _ _ _
      _ ≤ whole * (whole * a) := Nat.mul_le_mul_left whole hqb
    exact Nat.le_of_mul_le_mul_left hchain hwhole

theorem saving_triangle : saving whole a c ≤ saving whole a b + saving whole b c := by
  obtain hba | hab := Nat.le_total b a
  · rw [saving_of_le hba, Nat.zero_add]
    exact saving_anti_left hba
  obtain hcb | hbc := Nat.le_total c b
  · rw [saving_of_le hcb, Nat.add_zero]
    exact saving_mono_right hcb
  obtain hzero | hpos := Nat.eq_zero_or_pos b
  · subst hzero
    rw [Nat.le_zero.mp hab]
    exact Nat.le_add_left _ _
  have hcpos : 0 < c := Nat.lt_of_lt_of_le hpos hbc
  obtain hnone | hwhole := Nat.eq_zero_or_pos whole
  · subst hnone
    simp [saving]
  rw [saving, saving, saving, if_neg (by omega), if_neg (by omega), if_neg (by omega)]
  have hq : whole * a / b ≤ whole := by
    rw [Nat.div_le_iff_le_mul_add_pred hpos]
    exact Nat.le_trans (Nat.mul_le_mul_left whole hab) (by rw [Nat.mul_comm]; omega)
  have hr : whole * b / c ≤ whole := by
    rw [Nat.div_le_iff_le_mul_add_pred hcpos]
    exact Nat.le_trans (Nat.mul_le_mul_left whole hbc) (by rw [Nat.mul_comm]; omega)
  have hshare : whole * a / b + whole * b / c - whole ≤ whole * a / c := by
    rw [Nat.le_div_iff_mul_le hcpos]
    exact share_add_le hq hr (Nat.div_mul_le_self _ _) (Nat.div_mul_le_self _ _) hwhole
  omega

end

/-! ## The relation -/

structure Weighed where
  points : Nat
  cost : Nat

/-- The lead in savings that a candidate needs over another one with `q` points. -/
def leadNeeded (p q : Nat) : Int := if p = 0 ∧ q = 0 then 2 else q - p + 1

/-- What `x` saves of the cost of `y`, or loses against it. -/
def lead (whole : Nat) (x y : Weighed) : Int := saving whole x.cost y.cost - saving whole y.cost x.cost

def Outweighs (whole : Nat) (x y : Weighed) : Prop := leadNeeded x.points y.points ≤ lead whole x y

instance (whole : Nat) (x y : Weighed) : Decidable (Outweighs whole x y) :=
  inferInstanceAs (Decidable (_ ≤ _))

/-- The numbers increase, from whichever of them one starts. -/
def Rotating (p q r : Nat) : Prop := p < q ∧ q < r ∨ q < r ∧ r < p ∨ r < p ∧ p < q

theorem lt_leadNeeded (p q : Nat) : (q : Int) - p < leadNeeded p q := by
  rw [leadNeeded]
  split <;> omega

theorem leadNeeded_le {p q : Nat} {n : Int} (hn : (q : Int) - p < n) (hzero : p = 0 → q = 0 → 2 ≤ n) :
    leadNeeded p q ≤ n := by
  rw [leadNeeded]
  split
  next h => exact hzero h.1 h.2
  next => omega

/-- The lead over a third candidate: the two leads add up, or both are leads and it is no smaller than
either, or one of them is a loss that the other does not make up for and it is no smaller than that. -/
theorem lead_cases (whole : Nat) (x y z : Weighed) :
    lead whole x y + lead whole y z ≤ lead whole x z ∨
      (0 ≤ lead whole x y ∧ 0 ≤ lead whole y z ∧ lead whole x y ≤ lead whole x z ∧
        lead whole y z ≤ lead whole x z) ∨
      (lead whole x y + lead whole y z ≤ 0 ∧ lead whole x y ≤ 0 ∧ lead whole x y ≤ lead whole x z) ∨
      (lead whole x y + lead whole y z ≤ 0 ∧ lead whole y z ≤ 0 ∧ lead whole y z ≤ lead whole x z) := by
  unfold lead
  obtain hxy | hyx := Nat.le_total x.cost y.cost
  · rw [saving_of_le hxy]
    obtain hyz | hzy := Nat.le_total y.cost z.cost
    · have hfirst := @saving_mono_right whole x.cost _ _ hyz
      have hsecond := @saving_anti_left whole _ _ z.cost hxy
      rw [saving_of_le hyz, saving_of_le (Nat.le_trans hxy hyz)]
      exact .inr (.inl (by omega))
    rw [saving_of_le hzy]
    obtain hxz | hzx := Nat.le_total x.cost z.cost
    · have hsum := @saving_triangle whole x.cost z.cost y.cost
      rw [saving_of_le hxz]
      exact .inl (by omega)
    · have hfirst := @saving_anti_left whole _ _ y.cost hzx
      have hsecond := @saving_mono_right whole z.cost _ _ hxy
      rw [saving_of_le hzx]
      exact .inr (.inr (.inr (by omega)))
  · rw [saving_of_le hyx]
    obtain hyz | hzy := Nat.le_total y.cost z.cost
    · rw [saving_of_le hyz]
      obtain hxz | hzx := Nat.le_total x.cost z.cost
      · have hsum := @saving_triangle whole y.cost x.cost z.cost
        rw [saving_of_le hxz]
        exact .inl (by omega)
      · have hfirst := @saving_mono_right whole y.cost _ _ hzx
        have hsecond := @saving_anti_left whole _ _ x.cost hyz
        rw [saving_of_le hzx]
        exact .inr (.inr (.inl (by omega)))
    · have hsum := @saving_triangle whole z.cost y.cost x.cost
      rw [saving_of_le hzy, saving_of_le (Nat.le_trans hzy hyx)]
      exact .inl (by omega)

namespace Outweighs

variable {whole : Nat} {x y z : Weighed}

theorem irrefl : ¬ Outweighs whole x x := by
  intro h
  have hneeded := lt_leadNeeded x.points x.points
  rw [Outweighs, lead] at h
  omega

theorem asymm (h : Outweighs whole x y) : ¬ Outweighs whole y x := by
  intro h'
  have hneeded := lt_leadNeeded x.points y.points
  have hneeded' := lt_leadNeeded y.points x.points
  rw [Outweighs, lead] at h h'
  omega

theorem trans_of_not_rotating (hxy : Outweighs whole x y) (hyz : Outweighs whole y z)
    (h : ¬ Rotating x.points y.points z.points) : Outweighs whole x z := by
  have hneeded := lt_leadNeeded x.points y.points
  have hneeded' := lt_leadNeeded y.points z.points
  have hcases := lead_cases whole x y z
  rw [Outweighs] at hxy hyz
  rw [Rotating] at h
  refine leadNeeded_le ?_ ?_
  · omega
  · intro hx hz
    by_cases hy : y.points = 0
    · rw [leadNeeded, if_pos ⟨hx, hy⟩] at hxy
      omega
    · omega

end Outweighs

end Lib
