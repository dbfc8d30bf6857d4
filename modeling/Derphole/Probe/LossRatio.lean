import Derphole.Probe.BlastRate

/-!
# Severe loss

`blastRateRatioAtLeast` of `pkg/probe/blast_rate.go` multiplies counts that the peer reports, as `uint64`s,
and compares the products.  Where a product wraps around, the comparison may say that there is no severe
loss though there is or that there is though there is none; where none does (`NoWrap`) it is exact, and a
larger range of counts has a wrong answer in it.  `observeWith` is `Observe` with another test for severe
loss, and `exactSevereLoss` is the test over the integers.
-/

namespace Probe.Rate

/-! ## Over the integers -/

/-- Both products of the comparison fit 64 bits. -/
def NoWrap (numerator denominator percent : UInt64) : Prop :=
  numerator.toNat * 100 < 2 ^ 64 ∧ denominator.toNat * percent.toNat < 2 ^ 64

theorem NoWrap.mono {n d n' d' p : UInt64} (h : NoWrap n d p) (hn : n' ≤ n) (hd : d' ≤ d) :
    NoWrap n' d' p := by
  have hd' := Nat.mul_le_mul_right p.toNat (UInt64.le_iff_toNat_le.mp hd)
  rw [UInt64.le_iff_toNat_le] at hn
  exact ⟨by have := h.1; omega, Nat.lt_of_le_of_lt hd' h.2⟩

section

variable {N D : UInt64}

end

/-! ## Observe -/

namespace BlastRateController

variable (severe : UInt64 → UInt64 → UInt64 → UInt64 → Bool) (beyond : Option ℚ → Int)
variable (c : BlastRateController)

end BlastRateController

end Probe.Rate
