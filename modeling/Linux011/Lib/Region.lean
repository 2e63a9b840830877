import Mathlib.Logic.Function.Basic
import Mathlib.Tactic.Common

/-!
# Regions of a memory

A memory gives what is at each address. A region is filled from its first address on, or
moved by a loop that copies one pair after the other, lowest address first.

* `fill_fill`, `fill_append` — a region filled again, and one filled piece by piece;
* `copyUp_eq`, `copyWords_eq` — the loops move a region, also down onto a part of its old place.
-/

namespace Linux011.Lib.Region

variable {β : Type*} {m : Nat → β} {n : Nat}

/-- The memory with `data` in the `n` addresses from `start` on. -/
def fill (m : Nat → β) (start n : Nat) (data : Nat → β) : Nat → β :=
  fun a => if start ≤ a ∧ a < start + n then data (a - start) else m a

/-- `n` pairs are copied, lowest address first. -/
def copyWords (m : Nat → β) (dst src : Nat) : Nat → Nat → β
  | 0 => m
  | n + 1 => copyWords (Function.update (Function.update m dst (m src)) (dst + 1) (m (src + 1))) (dst + 2) (src + 2) n

/-- `n` are copied, lowest address first. -/
def copyUp (m : Nat → β) (dst src : Nat) : Nat → Nat → β
  | 0 => m
  | n + 1 => copyUp (Function.update m dst (m src)) (dst + 1) (src + 1) n

variable {start dst src : Nat} {data : Nat → β}

theorem fill_at {a : Nat} (h₁ : start ≤ a) (h₂ : a < start + n) : fill m start n data a = data (a - start) :=
  if_pos ⟨h₁, h₂⟩

theorem fill_outside {a : Nat} (h : a < start ∨ start + n ≤ a) : fill m start n data a = m a :=
  if_neg fun hin => by omega

@[simp] theorem fill_zero : fill m start 0 data = m := by
  funext a
  exact fill_outside (by omega)

theorem fill_congr {data' : Nat → β} (h : ∀ i < n, data i = data' i) : fill m start n data = fill m start n data' := by
  funext a
  unfold fill
  split_ifs with hin
  · exact h _ (by omega)
  · rfl

/-- What was there does not matter. -/
theorem fill_fill (m : Nat → β) (start n : Nat) (data data' : Nat → β) :
    fill (fill m start n data') start n data = fill m start n data := by
  funext a
  unfold fill
  split_ifs <;> rfl

theorem fill_append (m : Nat → β) (start n k : Nat) (data : Nat → β) :
    fill (fill m start n data) (start + n) k (fun i => data (n + i)) = fill m start (n + k) data := by
  funext a
  unfold fill
  by_cases h₁ : start + n ≤ a ∧ a < start + n + k
  · have hoff : n + (a - (start + n)) = a - start := by omega
    rw [if_pos h₁, if_pos (by omega)]
    show data (n + (a - (start + n))) = data (a - start)
    rw [hoff]
  · rw [if_neg h₁]
    by_cases h₂ : start ≤ a ∧ a < start + n
    · rw [if_pos h₂, if_pos (by omega)]
    · rw [if_neg h₂, if_neg (by omega)]

/-- A region is moved down, or up to a place that it does not overlap. -/
theorem copyUp_eq (h : dst ≤ src ∨ src + n ≤ dst) : copyUp m dst src n = fill m dst n fun i => m (src + i) := by
  induction n generalizing m dst src with
  | zero => exact fill_zero.symm
  | succ n ih =>
    rw [copyUp, ih (by omega)]
    funext a
    unfold fill
    by_cases hin : dst + 1 ≤ a ∧ a < dst + 1 + n
    · have hoff : src + 1 + (a - (dst + 1)) = src + (a - dst) := by omega
      rw [if_pos hin, if_pos (by omega)]
      dsimp only
      rw [hoff, Function.update_of_ne (by omega)]
    · rw [if_neg hin]
      by_cases hfirst : a = dst
      · subst hfirst
        rw [if_pos (by omega), Function.update_self, Nat.sub_self]
        rfl
      · rw [if_neg (by omega), Function.update_of_ne hfirst]

theorem copyWords_eq (h : dst ≤ src ∨ src + 2 * n ≤ dst) :
    copyWords m dst src n = fill m dst (2 * n) fun i => m (src + i) := by
  rw [← copyUp_eq h]
  induction n generalizing m dst src with
  | zero => rfl
  | succ n ih =>
    rw [copyWords, ih (by omega), show 2 * (n + 1) = 2 * n + 1 + 1 by omega, copyUp, copyUp,
      Function.update_of_ne (show src + 1 ≠ dst by omega)]

end Linux011.Lib.Region
