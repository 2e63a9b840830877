import Mathlib.Data.Set.Basic
import Mathlib.Logic.Function.Basic
import Mathlib.Tactic.Common

/-!
# Bytes of a register, bytes of memory

The parts of a 32-bit register that instructions name, as those of `edx`, and
memories as functions from addresses, which straight-line code rewrites byte by
byte. The addresses go round at the end.

* `dl_rotate`, `dh_rotate` — a rotation by 16 brings the high half down;
* `Only`, `Bytewise` — where code writes, and code each of whose bytes comes from
  the byte that was there;
* `comm_of_disjoint` — bytewise code that writes in different places commutes.
-/

namespace Linux011.Lib.SubRegister

/-! ## Registers -/

def dl (r : BitVec 32) : BitVec 8 := r.extractLsb' 0 8
def dh (r : BitVec 32) : BitVec 8 := r.extractLsb' 8 8
def dx (r : BitVec 32) : BitVec 16 := r.extractLsb' 0 16

/-- The half that has no name. -/
def upper (r : BitVec 32) : BitVec 16 := r.extractLsb' 16 16

/-- A write to `dl`; the other bytes stay. -/
def putDl (r : BitVec 32) (v : BitVec 8) : BitVec 32 := upper r ++ dh r ++ v
def putDh (r : BitVec 32) (v : BitVec 8) : BitVec 32 := upper r ++ v ++ dl r
def putDx (r : BitVec 32) (v : BitVec 16) : BitVec 32 := upper r ++ v

section Registers

variable (r : BitVec 32) (v w : BitVec 8)

@[simp] theorem dl_putDl : dl (putDl r v) = v := BitVec.extractLsb'_append_eq_right

@[simp] theorem dl_putDh : dl (putDh r v) = dl r := BitVec.extractLsb'_append_eq_right

@[simp] theorem dh_putDh : dh (putDh r v) = v := by
  unfold putDh
  rw [dh, BitVec.extractLsb'_append_eq_of_le (by decide)]
  exact BitVec.extractLsb'_append_eq_right

/-- A part of a part. -/
theorem extract_extract {n : Nat} (x : BitVec n) {s l t k : Nat} (h : t + k ≤ l) :
    (x.extractLsb' s l).extractLsb' t k = x.extractLsb' (s + t) k := by
  apply BitVec.eq_of_getLsbD_eq
  intro i hi
  have hl : t + i < l := by omega
  simp [hi, hl, Nat.add_assoc]

/-- `rorl $16` exchanges the halves. -/
theorem rotate_halves : r.rotateRight 16 = dx r ++ upper r := by
  apply BitVec.eq_of_getLsbD_eq
  intro i hi
  simp only [BitVec.getLsbD_rotateRight, dx, upper, BitVec.getLsbD_append, BitVec.getLsbD_extractLsb']
  by_cases h16 : i < 16
  · simp [h16]
  · have hlow : i - 16 < 16 := by omega
    simp [h16, hlow, hi]

@[simp] theorem dl_rotate : dl (r.rotateRight 16) = r.extractLsb' 16 8 := by
  rw [rotate_halves, dl, BitVec.extractLsb'_append_eq_of_add_le (by decide), upper,
    extract_extract _ (by decide)]

@[simp] theorem dh_rotate : dh (r.rotateRight 16) = r.extractLsb' 24 8 := by
  rw [rotate_halves, dh, BitVec.extractLsb'_append_eq_of_add_le (by decide), upper,
    extract_extract _ (by decide)]

/-- `shll $16`. -/
theorem upper_shift : upper (r <<< 16) = dx r := by
  rw [BitVec.shiftLeft_eq_concat_of_lt (by decide)]
  exact BitVec.extractLsb'_append_eq_left

/-- Two bytes are gathered in `dh` and `dl`. -/
@[simp] theorem dx_gather : dx (putDl (putDh r v) w) = v ++ w := by
  unfold putDl
  rw [dh_putDh, dx, BitVec.append_assoc]
  exact BitVec.extractLsb'_append_eq_right

end Registers

/-! ## Memory -/

abbrev Mem := BitVec 32 → BitVec 8

def movb (a : BitVec 32) (v : BitVec 8) (m : Mem) : Mem := Function.update m a v

/-- The low byte comes first. -/
def movw (a : BitVec 32) (v : BitVec 16) (m : Mem) : Mem :=
  movb (a + 1) (v.extractLsb' 8 8) (movb a (v.extractLsb' 0 8) m)

def word (a : BitVec 32) (m : Mem) : BitVec 16 := m (a + 1) ++ m a

section Memory

variable (m : Mem) (a : BitVec 32) {b : BitVec 32} (v : BitVec 8) (w : BitVec 16)

theorem movb_other (h : b ≠ a) : movb a v m b = m b := by
  unfold movb
  exact Function.update_of_ne h ..

theorem movw_other (h : b ≠ a) (h' : b ≠ a + 1) : movw a w m b = m b := by
  rw [movw, movb_other _ _ _ h', movb_other _ _ _ h]

end Memory

/-! ## Code on memories -/

section Code

variable {α β : Type} {f g : (α → β) → α → β} {s t : Set α}

/-- The code writes in `s` only. -/
def Only (s : Set α) (f : (α → β) → α → β) : Prop := ∀ m, ∀ a, a ∉ s → f m a = m a

/-- Each byte that is left comes from the byte that was there. -/
def Bytewise (f : (α → β) → α → β) : Prop := ∀ m m' : α → β, ∀ a, m a = m' a → f m a = f m' a

theorem Only.mono (hst : s ⊆ t) (hf : Only s f) : Only t f := by
  intro m a ha
  have hs : a ∉ s := fun h => ha (hst h)
  exact hf m a hs

/-- Code after code. -/
theorem Only.comp (hf : Only s f) (hg : Only t g) : Only (s ∪ t) (f ∘ g) := by
  intro m a ha
  have hs : a ∉ s := fun h => ha (Or.inl h)
  have ht : a ∉ t := fun h => ha (Or.inr h)
  exact (hf (g m) a hs).trans (hg m a ht)

/-- **Bytewise code that writes in different places commutes.** -/
theorem comm_of_disjoint (hf : Bytewise f) (hg : Bytewise g) (hs : Only s f) (ht : Only t g)
    (hd : ∀ a ∈ s, a ∉ t) (m : α → β) : f (g m) = g (f m) := by
  funext a
  by_cases ha : a ∈ s
  · have hat : a ∉ t := hd a ha
    calc f (g m) a = f m a := hf _ _ a (ht m a hat)
      _ = g (f m) a := (ht (f m) a hat).symm
  · calc f (g m) a = g m a := hs (g m) a ha
      _ = g (f m) a := hg _ _ a (hs m a ha).symm

end Code

end Linux011.Lib.SubRegister
