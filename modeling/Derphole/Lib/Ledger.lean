import Mathlib.Data.List.Infix

/-!
# Ledgers

A ledger records what happened, the latest entry first.  It is grounded when every entry is borne
out by the entries before it.
-/

namespace Lib

variable {α : Type*}

/-- Every entry satisfies `ok` of the entries before it. -/
def Grounded (ok : List α → α → Prop) (ledger : List α) : Prop :=
  ∀ e earlier, e :: earlier <:+ ledger → ok earlier e

namespace Grounded

variable {ok : List α → α → Prop} {ledger : List α}

theorem nil : Grounded ok [] := by
  intro e earlier h
  exact absurd (List.suffix_nil.mp h) (List.cons_ne_nil _ _)

theorem cons {e : α} (h : Grounded ok ledger) (he : ok ledger e) : Grounded ok (e :: ledger) := by
  intro e' earlier hs
  rcases List.suffix_cons_iff.mp hs with heq | hs
  · cases heq
    exact he
  · exact h e' earlier hs

theorem of_suffix {older : List α} (h : Grounded ok ledger) (hs : older <:+ ledger) : Grounded ok older :=
  fun e earlier he => h e earlier (he.trans hs)

/-- An entry of the ledger, with what was there before it. -/
theorem of_mem {e : α} (h : Grounded ok ledger) (he : e ∈ ledger) :
    ∃ earlier, e :: earlier <:+ ledger ∧ ok earlier e := by
  obtain ⟨later, earlier, rfl⟩ := List.append_of_mem he
  have hs : e :: earlier <:+ later ++ e :: earlier := List.suffix_append _ _
  exact ⟨earlier, hs, h e earlier hs⟩

end Grounded

end Lib
