import Mathlib.Logic.Function.Basic
import Mathlib.Tactic.Common

/-!
# Bits in an array of words

Bit `i` of an array of `w`-bit words is bit `i % w` of word `i / w`; a bit map is then
the set of the bits that are set.

* `bit_setBit`, `bit_clearBit` — one bit is changed, and no other;
* `firstZero_spec` — a search, word by word, for the first bit that is clear.
-/

namespace Linux011.Lib.BitWords

variable {w : Nat} {x : Nat → BitVec w} {i j n : Nat}

def bit (x : Nat → BitVec w) (i : Nat) : Bool := (x (i / w)).getLsbD (i % w)

def setBit (x : Nat → BitVec w) (i : Nat) : Nat → BitVec w :=
  Function.update x (i / w) (x (i / w) ||| BitVec.twoPow w (i % w))

def clearBit (x : Nat → BitVec w) (i : Nat) : Nat → BitVec w :=
  Function.update x (i / w) (x (i / w) &&& ~~~BitVec.twoPow w (i % w))

/-- The number of the lowest bit that is set. -/
def lowest (v : BitVec w) : Option Nat := (List.range w).find? fun b => v.getLsbD b

/-- The first clear bit in `n` words from word `k` on; the end of them if there
is none. -/
def firstZero (x : Nat → BitVec w) : Nat → Nat → Nat
  | 0, k => w * k
  | n + 1, k =>
    match lowest (~~~x k) with
    | some b => w * k + b
    | none => firstZero x n (k + 1)

theorem split_eq (h1 : i / w = j / w) (h2 : i % w = j % w) : i = j := by
  rw [← Nat.div_add_mod i w, ← Nat.div_add_mod j w, h1, h2]

theorem bit_setBit (hw : 0 < w) (x : Nat → BitVec w) (i j : Nat) :
    bit (setBit x i) j = if j = i then true else bit x j := by
  unfold bit setBit
  by_cases hword : j / w = i / w
  · rw [hword, Function.update_self, BitVec.getLsbD_or, BitVec.getLsbD_twoPow]
    by_cases hij : j = i
    · simp [hij, Nat.mod_lt i hw]
    · have hbit : i % w ≠ j % w := fun h => hij (split_eq hword h.symm)
      simp [hij, hbit]
  · have hij : j ≠ i := fun h => hword (by rw [h])
    rw [Function.update_of_ne hword, if_neg hij]

theorem bit_clearBit (hw : 0 < w) (x : Nat → BitVec w) (i j : Nat) :
    bit (clearBit x i) j = if j = i then false else bit x j := by
  unfold bit clearBit
  by_cases hword : j / w = i / w
  · rw [hword, Function.update_self, BitVec.getLsbD_and, BitVec.getLsbD_not, BitVec.getLsbD_twoPow]
    by_cases hij : j = i
    · simp [hij, Nat.mod_lt i hw]
    · have hbit : i % w ≠ j % w := fun h => hij (split_eq hword h.symm)
      simp [hij, hbit, Nat.mod_lt j hw]
  · have hij : j ≠ i := fun h => hword (by rw [h])
    rw [Function.update_of_ne hword, if_neg hij]

theorem lowest_some {v : BitVec w} {b : Nat} (h : lowest v = some b) :
    b < w ∧ v.getLsbD b = true ∧ ∀ c, c < b → v.getLsbD c = false := by
  unfold lowest at h
  rw [List.find?_range_eq_some] at h
  obtain ⟨hset, hmem, hbefore⟩ := h
  refine ⟨List.mem_range.mp hmem, hset, fun c hc => ?_⟩
  simpa using hbefore c hc

theorem lowest_none {v : BitVec w} (h : lowest v = none) (b : Nat) (hb : b < w) :
    v.getLsbD b = false := by
  unfold lowest at h
  rw [List.find?_range_eq_none] at h
  simpa using h b hb

/-- A bit of word `k`. -/
theorem bit_word (hw : 0 < w) (x : Nat → BitVec w) {k b : Nat} (hb : b < w) :
    bit x (w * k + b) = (x k).getLsbD b := by
  unfold bit
  rw [Nat.mul_add_div hw, Nat.div_eq_of_lt hb, Nat.add_zero, Nat.mul_add_mod, Nat.mod_eq_of_lt hb]

/-- **The first clear bit.** All bits before it are set, and it is clear unless
it is the end. -/
theorem firstZero_spec (hw : 0 < w) (x : Nat → BitVec w) (n k : Nat) :
    w * k ≤ firstZero x n k ∧ firstZero x n k ≤ w * (k + n) ∧
      (∀ i, w * k ≤ i → i < firstZero x n k → bit x i = true) ∧
      (firstZero x n k < w * (k + n) → bit x (firstZero x n k) = false) := by
  induction n generalizing k with
  | zero => exact ⟨Nat.le_refl _, Nat.le_refl _, fun i h1 h2 => absurd h2 (Nat.not_lt_of_le h1),
      fun h => absurd h (Nat.lt_irrefl _)⟩
  | succ n ih =>
    unfold firstZero
    -- a bit of word `k`, by its distance
    have hword : ∀ i, w * k ≤ i → i < w * (k + 1) → ∃ b, b < w ∧ i = w * k + b := by
      intro i h1 h2
      rw [Nat.mul_succ] at h2
      exact ⟨i - w * k, by omega, by omega⟩
    cases hlow : lowest (~~~x k) with
    | some b =>
      obtain ⟨hb, hclear, hbefore⟩ := lowest_some hlow
      have hend : w * k + w ≤ w * (k + (n + 1)) := by
        rw [← Nat.mul_succ]
        exact Nat.mul_le_mul_left w (by omega)
      dsimp only
      refine ⟨Nat.le_add_right .., by omega, fun i h1 h2 => ?_, fun _ => ?_⟩
      · obtain ⟨c, hc, rfl⟩ := hword i h1 (by rw [Nat.mul_succ]; omega)
        rw [bit_word hw x hc]
        have := hbefore c (by omega)
        rw [BitVec.getLsbD_not] at this
        simpa [hc] using this
      · rw [bit_word hw x hb]
        rw [BitVec.getLsbD_not] at hclear
        simpa [hb] using hclear
    | none =>
      obtain ⟨h1, h2, h3, h4⟩ := ih (k + 1)
      have hshift : k + (n + 1) = k + 1 + n := by omega
      rw [hshift]
      dsimp only
      rw [Nat.mul_succ] at h1
      refine ⟨by omega, h2, fun i hi hi' => ?_, h4⟩
      by_cases hlt : i < w * (k + 1)
      · obtain ⟨c, hc, rfl⟩ := hword i hi hlt
        rw [bit_word hw x hc]
        have := lowest_none hlow c hc
        rw [BitVec.getLsbD_not] at this
        simpa [hc] using this
      · exact h3 i (Nat.le_of_not_lt hlt) hi'

end Linux011.Lib.BitWords
