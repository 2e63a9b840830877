import Mathlib.Logic.Function.Basic
import Mathlib.Data.List.TakeDrop

/-!
# Ring buffers

Slots in which a part of a stream is kept: the element at position `k` of the stream is in
slot `k % cap`.

* `Holds` — the slots hold the stream from one position to another;
* `Holds.copyIn`, `Holds.copyOut` — copies that do not wrap round.
-/

namespace Linux011.Lib.Ring

variable {α : Type} {cap : Nat} {page : Nat → α} {l : List α} {lo hi : Nat}

def Holds (cap : Nat) (page : Nat → α) (l : List α) (lo hi : Nat) : Prop :=
  ∀ k, lo ≤ k → k < hi → l[k]? = some (page (k % cap))

theorem Holds.mono (h : Holds cap page l lo hi) {lo' hi' : Nat} (hlo : lo ≤ lo') (hhi : hi' ≤ hi) :
    Holds cap page l lo' hi' :=
  fun k h₁ h₂ => h k (Nat.le_trans hlo h₁) (Nat.lt_of_lt_of_le h₂ hhi)

theorem Holds.append (h : Holds cap page l lo hi) (l' : List α) : Holds cap page (l ++ l') lo hi := by
  intro k h₁ h₂
  have hk := h k h₁ h₂
  obtain ⟨hlt, -⟩ := List.getElem?_eq_some_iff.mp hk
  rw [List.getElem?_append_left hlt]
  exact hk

/-- The next element is put into a slot that is not in use. -/
theorem Holds.store (h : Holds cap page l lo hi) {b : α} (hb : l[hi]? = some b)
    (hfree : ∀ k, lo ≤ k → k < hi → k % cap ≠ hi % cap) :
    Holds cap (Function.update page (hi % cap) b) l lo (hi + 1) := by
  intro k h₁ h₂
  rcases Nat.lt_succ_iff_lt_or_eq.mp h₂ with hlt | rfl
  · rw [Function.update_of_ne (hfree k h₁ hlt)]
    exact h k h₁ hlt
  · rw [Function.update_self, hb]

/-- Positions less than `cap` apart have different slots. -/
theorem slot_ne {k m : Nat} (hlt : k < m) (hcap : m < k + cap) : k % cap ≠ m % cap := by
  intro heq
  have hzero := Nat.sub_mod_eq_zero_of_mod_eq heq.symm
  rw [Nat.mod_eq_of_lt (by omega)] at hzero
  omega

/-- Elements are copied to the slots from `i` on. -/
def copyIn (page : Nat → α) : Nat → List α → Nat → α
  | _, [] => page
  | i, b :: l => copyIn (Function.update page i b) (i + 1) l

/-- `n` elements are copied from the slots from `i` on. -/
def copyOut (page : Nat → α) : Nat → Nat → List α
  | _, 0 => []
  | i, n + 1 => page i :: copyOut page (i + 1) n

theorem succ_mod {k : Nat} (h : k % cap + 1 < cap) : (k + 1) % cap = k % cap + 1 := by
  rw [Nat.add_mod, Nat.mod_eq_of_lt (show 1 < cap by omega), Nat.mod_eq_of_lt h]

theorem Holds.copyIn (h : Holds cap page l lo l.length) (l' : List α)
    (hwrap : l.length % cap + l'.length ≤ cap) (hroom : l.length + l'.length ≤ lo + cap) :
    Holds cap (copyIn page (l.length % cap) l') (l ++ l') lo (l ++ l').length := by
  induction l' generalizing page l with
  | nil =>
    rw [List.append_nil]
    exact h
  | cons b l' ih =>
    rw [List.length_cons] at hwrap hroom
    have hstore : Holds cap (Function.update page (l.length % cap) b) (l ++ [b]) lo (l ++ [b]).length := by
      rw [List.length_append]
      refine (h.append [b]).store (by simp) fun k h₁ h₂ => slot_ne h₂ (by omega)
    have hsplit : l ++ b :: l' = (l ++ [b]) ++ l' := by simp
    rw [hsplit]
    unfold Ring.copyIn
    cases l' with
    | nil =>
      rw [List.append_nil]
      exact hstore
    | cons c l' =>
      rw [List.length_cons] at hwrap hroom
      have hnext : l.length % cap + 1 = (l ++ [b]).length % cap := by
        rw [List.length_append, List.length_singleton, succ_mod (by omega)]
      rw [hnext]
      refine ih hstore ?_ ?_
      · rw [← hnext, List.length_cons]
        omega
      · rw [List.length_append, List.length_singleton, List.length_cons]
        omega

theorem Holds.copyOut (h : Holds cap page l lo hi) {n : Nat} (hn : lo + n ≤ hi) (hwrap : lo % cap + n ≤ cap) :
    copyOut page (lo % cap) n = (l.drop lo).take n := by
  induction n generalizing lo with
  | zero => rfl
  | succ n ih =>
    have hfirst := h lo (Nat.le_refl _) (by omega)
    obtain ⟨hlt, hget⟩ := List.getElem?_eq_some_iff.mp hfirst
    rw [List.drop_eq_getElem_cons hlt, List.take_succ_cons, hget]
    unfold Ring.copyOut
    cases n with
    | zero => rfl
    | succ n =>
      rw [← succ_mod (by omega), ih (h.mono (Nat.le_succ lo) (Nat.le_refl hi)) (by omega)]
      rw [succ_mod (by omega)]
      omega

end Linux011.Lib.Ring
