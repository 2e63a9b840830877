import Mathlib.Logic.Function.Basic
import Mathlib.Tactic.SplitIfs

/-!
# String instructions on a memory of words

`rep stosw` and `rep movsl` in both directions, one element at a time, on a
memory of 16-bit words at every second byte address. The memory also keeps the
address of every word that is written.

The address of cell `i` of a block that starts at `b` is `b + 2 * i`; what an
instruction leaves in a cell, and where it writes, is stated in these terms.
-/

namespace Linux011.Lib

abbrev Word := BitVec 16

/-- A memory of words, and the addresses of the words written so far. -/
structure Ram where
  word : Nat → Word
  log  : List Nat

namespace Ram

def store (m : Ram) (a : Nat) (w : Word) : Ram := ⟨Function.update m.word a w, a :: m.log⟩

/-- `cld; rep; stosw` with `ax = w`. -/
def stosw (m : Ram) (w : Word) (di : Nat) : Nat → Ram
  | 0 => m
  | cx + 1 => (m.store di w).stosw w (di + 2) cx

/-- `std; rep; stosw`. -/
def stoswDown (m : Ram) (w : Word) (di : Nat) : Nat → Ram
  | 0 => m
  | cx + 1 => (m.store di w).stoswDown w (di - 2) cx

/-- `movsl`: both words are read before any is written. -/
def move (m : Ram) (di si : Nat) : Ram := (m.store di (m.word si)).store (di + 2) (m.word (si + 2))

/-- `cld; rep; movsl`. -/
def movsl (m : Ram) (di si : Nat) : Nat → Ram
  | 0 => m
  | cx + 1 => (m.move di si).movsl (di + 4) (si + 4) cx

/-- `std; rep; movsl`. -/
def movslDown (m : Ram) (di si : Nat) : Nat → Ram
  | 0 => m
  | cx + 1 => (m.move di si).movslDown (di - 4) (si - 4) cx

/-- Every word written lies in `[lo, hi)`. -/
def Within (m : Ram) (lo hi : Nat) : Prop := ∀ a ∈ m.log, lo ≤ a ∧ a + 2 ≤ hi

variable {m : Ram} {w : Word} {b i j k n lo hi : Nat}

/-! ## What is in a cell afterwards -/

theorem store_cell (m : Ram) (w : Word) (b i k : Nat) :
    (m.store (b + 2 * i) w).word (b + 2 * k) = if k = i then w else m.word (b + 2 * k) := by
  show Function.update m.word (b + 2 * i) w (b + 2 * k) = _
  rw [Function.update_apply]
  by_cases h : k = i
  · rw [if_pos h, if_pos (by rw [h])]
  · rw [if_neg h, if_neg (by omega)]

theorem move_cell (m : Ram) (b i j k : Nat) :
    (m.move (b + 2 * i) (b + 2 * j)).word (b + 2 * k) =
      if k = i + 1 then m.word (b + 2 * (j + 1)) else if k = i then m.word (b + 2 * j) else m.word (b + 2 * k) := by
  have hfirst := store_cell m (m.word (b + 2 * j)) b i k
  have hsecond := store_cell (m.store (b + 2 * i) (m.word (b + 2 * j))) (m.word (b + 2 * (j + 1))) b (i + 1) k
  exact hsecond.trans (by rw [hfirst])

theorem stosw_cell (m : Ram) (w : Word) (b i n k : Nat) :
    (m.stosw w (b + 2 * i) n).word (b + 2 * k) = if i ≤ k ∧ k < i + n then w else m.word (b + 2 * k) := by
  induction n generalizing m i with
  | zero => rw [if_neg (by omega), stosw]
  | succ n ih =>
    have hrest := ih (m.store (b + 2 * i) w) (i + 1)
    rw [store_cell] at hrest
    rw [stosw, show b + 2 * i + 2 = b + 2 * (i + 1) by omega, hrest]
    split_ifs <;> first | rfl | omega

theorem stoswDown_cell (m : Ram) (w : Word) (b k : Nat) {i n : Nat} (h : n ≤ i + 1) :
    (m.stoswDown w (b + 2 * i) n).word (b + 2 * k) =
      if i + 1 ≤ k + n ∧ k ≤ i then w else m.word (b + 2 * k) := by
  induction n generalizing m i with
  | zero => rw [if_neg (by omega), stoswDown]
  | succ n ih =>
    rw [stoswDown]
    match n, i with
    | 0, i =>
      rw [stoswDown, store_cell]
      split_ifs <;> first | rfl | omega
    | n + 1, i + 1 =>
      have hrest := ih (m.store (b + 2 * (i + 1)) w) (i := i) (by omega)
      rw [store_cell] at hrest
      rw [show b + 2 * (i + 1) - 2 = b + 2 * i by omega, hrest]
      split_ifs <;> first | rfl | omega

/-- Forward, to cells before those that are read. -/
theorem movsl_cell (m : Ram) (b n k : Nat) {i j : Nat} (h : i + 2 ≤ j) :
    (m.movsl (b + 2 * i) (b + 2 * j) n).word (b + 2 * k) =
      if i ≤ k ∧ k < i + 2 * n then m.word (b + 2 * (k + (j - i))) else m.word (b + 2 * k) := by
  induction n generalizing m i j with
  | zero => rw [if_neg (by omega), movsl]
  | succ n ih =>
    have hrest := ih (m.move (b + 2 * i) (b + 2 * j)) (i := i + 2) (j := j + 2) (by omega)
    rw [movsl, show b + 2 * i + 4 = b + 2 * (i + 2) by omega, show b + 2 * j + 4 = b + 2 * (j + 2) by omega, hrest,
      move_cell, move_cell]
    by_cases h1 : k = i + 1
    · subst h1
      rw [if_neg (by omega), if_pos rfl, if_pos (by omega), show i + 1 + (j - i) = j + 1 by omega]
    by_cases h0 : k = i
    · subst h0
      rw [if_neg (by omega), if_neg h1, if_pos rfl, if_pos (by omega), show k + (j - k) = j by omega]
    rw [if_neg h1, if_neg h0, show j + 2 - (i + 2) = j - i by omega]
    split_ifs <;> first | rfl | omega

/-- Backward, to cells after those that are read. -/
theorem movslDown_cell (m : Ram) (b k : Nat) {i j n : Nat} (h : j + 2 ≤ i) (hn : 2 * n ≤ j + 2) :
    (m.movslDown (b + 2 * i) (b + 2 * j) n).word (b + 2 * k) =
      if i + 2 ≤ k + 2 * n ∧ k < i + 2 then m.word (b + 2 * (k - (i - j))) else m.word (b + 2 * k) := by
  induction n generalizing m i j with
  | zero => rw [if_neg (by omega), movslDown]
  | succ n ih =>
    have hcell : ∀ k, k < i → (m.move (b + 2 * i) (b + 2 * j)).word (b + 2 * k) = m.word (b + 2 * k) := by
      intro k hk
      rw [move_cell, if_neg (by omega), if_neg (by omega)]
    have hrest : ((m.move (b + 2 * i) (b + 2 * j)).movslDown (b + 2 * i - 4) (b + 2 * j - 4) n).word (b + 2 * k) =
        if i ≤ k + 2 * n ∧ k < i then m.word (b + 2 * (k - (i - j)))
        else (m.move (b + 2 * i) (b + 2 * j)).word (b + 2 * k) := by
      match n with
      | 0 => rw [if_neg (by omega), movslDown]
      | n + 1 =>
        have hrest := ih (m.move (b + 2 * i) (b + 2 * j)) (i := i - 2) (j := j - 2) (by omega) (by omega)
        rw [show b + 2 * i - 4 = b + 2 * (i - 2) by omega, show b + 2 * j - 4 = b + 2 * (j - 2) by omega, hrest,
          show i - 2 + 2 = i by omega, show i - 2 - (j - 2) = i - j by omega]
        split_ifs
        · rw [hcell _ (by omega)]
        · rfl
    rw [movslDown, hrest, move_cell]
    by_cases h1 : k = i + 1
    · subst h1
      rw [if_neg (by omega), if_pos rfl, if_pos (by omega), show i + 1 - (i - j) = j + 1 by omega]
    by_cases h0 : k = i
    · subst h0
      rw [if_neg (by omega), if_neg h1, if_pos rfl, if_pos (by omega), show k - (k - j) = j by omega]
    rw [if_neg h1, if_neg h0]
    split_ifs <;> first | rfl | omega

/-! ## Where words are written -/

theorem Within.store (h : m.Within lo hi) {a : Nat} (hlo : lo ≤ a) (hhi : a + 2 ≤ hi) :
    (m.store a w).Within lo hi := by
  intro c hc
  rcases List.mem_cons.mp hc with rfl | hc
  · exact ⟨hlo, hhi⟩
  · exact h c hc

theorem Within.move (h : m.Within lo hi) {di si : Nat} (hlo : lo ≤ di) (hhi : di + 4 ≤ hi) :
    (m.move di si).Within lo hi :=
  (h.store hlo (by omega)).store (by omega) (by omega)

theorem Within.stosw (h : m.Within lo hi) {di : Nat} (hlo : lo ≤ di) (hhi : di + 2 * n ≤ hi) :
    (m.stosw w di n).Within lo hi := by
  induction n generalizing m di with
  | zero => exact h
  | succ n ih => exact ih (h.store hlo (by omega)) (by omega) (by omega)

theorem Within.stoswDown (h : m.Within lo hi) {di : Nat} (hlo : lo + 2 * n ≤ di + 2) (hhi : di + 2 ≤ hi) :
    (m.stoswDown w di n).Within lo hi := by
  induction n generalizing m di with
  | zero => exact h
  | succ n ih =>
    have hstore := h.store (w := w) (show lo ≤ di by omega) hhi
    by_cases hn : n = 0
    · subst hn
      exact hstore
    · exact ih hstore (by omega) (by omega)

theorem Within.movsl (h : m.Within lo hi) {di si : Nat} (hlo : lo ≤ di) (hhi : di + 4 * n ≤ hi) :
    (m.movsl di si n).Within lo hi := by
  induction n generalizing m di si with
  | zero => exact h
  | succ n ih => exact ih (h.move hlo (by omega)) (by omega) (by omega)

theorem Within.movslDown (h : m.Within lo hi) {di si : Nat} (hlo : lo + 4 * n ≤ di + 4) (hhi : di + 4 ≤ hi) :
    (m.movslDown di si n).Within lo hi := by
  induction n generalizing m di si with
  | zero => exact h
  | succ n ih =>
    have hmove : (m.move di si).Within lo hi := h.move (by omega) hhi
    by_cases hn : n = 0
    · subst hn
      exact hmove
    · exact ih hmove (by omega) (by omega)

end Ram

/-! ## Blocks of cells -/

section Cells

variable {α : Type}

/-- Cells `lo` up to `hi` are overwritten. -/
def fill (lo hi : Nat) (w : α) (f : Nat → α) (k : Nat) : α := if lo ≤ k ∧ k < hi then w else f k

/-- The cells from `lo` up to `hi` move `d` towards the beginning. -/
def shiftDown (lo hi d : Nat) (w : α) (f : Nat → α) (k : Nat) : α :=
  if lo ≤ k ∧ k + d < hi then f (k + d) else fill lo hi w f k

/-- Towards the end. -/
def shiftUp (lo hi d : Nat) (w : α) (f : Nat → α) (k : Nat) : α :=
  if lo + d ≤ k ∧ k < hi then f (k - d) else fill lo hi w f k

end Cells

end Linux011.Lib
