import Mathlib.Algebra.Order.Monoid.Defs

/-!
# Runs that are paid for

A step costs something and may be granted something. Where the cost of every step is paid
by what a potential loses, up to what is granted, so is the cost of a run.

* `Run` — a run, with its cost and what it was granted;
* `Run.bounded` — an invariant that the steps keep, and the cost of the run.
-/

namespace Linux011.Lib.Potential

variable {σ α : Type*} [AddCommMonoid α]

/-- A run from one state to another: its cost, and what it was granted. -/
inductive Run (step : σ → α → α → σ → Prop) : σ → α → α → σ → Prop
  | refl (s : σ) : Run step s 0 0 s
  | tail {s t u : σ} {cost cost' grant grant' : α} (hrun : Run step s cost grant t)
      (hs : step t cost' grant' u) : Run step s (cost + cost') (grant + grant') u

variable [PartialOrder α] [IsOrderedAddMonoid α] {step : σ → α → α → σ → Prop}

theorem Run.bounded (inv : σ → Prop) (potential : σ → α)
    (hstep : ∀ s cost grant t, inv s → step s cost grant t →
      inv t ∧ cost + potential t ≤ potential s + grant)
    {s t : σ} {cost grant : α} (hinv : inv s) (hrun : Run step s cost grant t) :
    inv t ∧ cost + potential t ≤ potential s + grant := by
  induction hrun with
  | refl => exact ⟨hinv, by rw [zero_add, add_zero]⟩
  | @tail t u cost cost' grant grant' _ hs ih =>
    obtain ⟨hinv', hpaid⟩ := ih
    obtain ⟨hinv'', hnext⟩ := hstep _ _ _ _ hinv' hs
    refine ⟨hinv'', ?_⟩
    calc cost + cost' + potential u = cost + (cost' + potential u) := add_assoc _ _ _
      _ ≤ cost + (potential t + grant') := add_le_add_right hnext cost
      _ = cost + potential t + grant' := (add_assoc _ _ _).symm
      _ ≤ potential s + grant + grant' := add_le_add_left hpaid grant'
      _ = potential s + (grant + grant') := add_assoc _ _ _

end Linux011.Lib.Potential
