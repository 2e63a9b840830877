import Mathlib.Tactic.Common
import Mathlib.Algebra.Group.Nat.Defs

/-!
# Segment descriptors — the macros of `sched.h`

A descriptor of an LDT as the processor reads it, and `set_base`, `set_limit`,
`get_base` and `get_limit`, which take it apart into the bytes in which the base
and the limit lie.

* `getBase_setBase`, `size_setLimit` — what is set is what the processor sees;
* `size_setLimit_zero` — a limit of 0 is the whole address space;
* `Ldt` — a code and a data segment whose limits count pages, as in `INIT_TASK`.
-/

namespace Linux011.Kernel.Segment

/-- A descriptor, byte for byte; the low half of `flags` belongs to the limit. -/
structure Desc where
  limit0 : BitVec 16
  base0  : BitVec 16
  base16 : BitVec 8
  access : BitVec 8
  flags  : BitVec 8
  base24 : BitVec 8
  deriving DecidableEq, Repr

namespace Desc

/-! ## The processor -/

def base (d : Desc) : BitVec 32 := d.base24 ++ d.base16 ++ d.base0

def limit (d : Desc) : BitVec 20 := d.flags.extractLsb' 0 4 ++ d.limit0

/-- The limit counts pages. -/
def granular (d : Desc) : Bool := d.flags.getLsbD 7

/-- The number of bytes in the segment. -/
def size (d : Desc) : Nat :=
  if d.granular then (d.limit.toNat + 1) * 4096 else d.limit.toNat + 1

/-- The linear addresses that can be reached through the segment. -/
def Reaches (d : Desc) (a : Nat) : Prop := d.base.toNat ≤ a ∧ a < d.base.toNat + d.size

/-! ## The macros -/

/-- `get_base`. -/
def getBase (d : Desc) : BitVec 32 := d.base24 ++ d.base16 ++ d.base0

/-- `get_limit`: `lsl` and one more. -/
def getLimit (d : Desc) : BitVec 32 := BitVec.ofNat 32 d.size

/-- `set_base`. -/
def setBase (d : Desc) (base : BitVec 32) : Desc :=
  { d with
    base0 := base.extractLsb' 0 16
    base16 := base.extractLsb' 16 8
    base24 := base.extractLsb' 24 8 }

/-- `_set_limit`. -/
def setLimitField (d : Desc) (limit : BitVec 32) : Desc :=
  { d with
    limit0 := limit.extractLsb' 0 16
    flags := d.flags &&& 0xf0 ||| limit.extractLsb' 16 8 }

/-- `set_limit`. -/
def setLimit (d : Desc) (limit : BitVec 32) : Desc := d.setLimitField ((limit - 1) >>> 12)

/-! ## What is set -/

variable (d : Desc) (w : BitVec 32)

@[simp] theorem getBase_setBase : (d.setBase w).getBase = w := by
  unfold getBase setBase
  dsimp only
  apply BitVec.eq_of_getLsbD_eq
  intro i hi
  simp only [BitVec.getLsbD_append, BitVec.getLsbD_extractLsb']
  by_cases h16 : i < 16
  · simp [h16]
  · by_cases h24 : i < 24
    · have hback : 16 + (i - 16) = i := by omega
      have hmid : i - 16 < 8 := by omega
      simp [h16, hmid, hback]
    · have hback : 24 + (i - 16 - 8) = i := by omega
      have hhigh : ¬ i - 16 < 8 := by omega
      have hlast : i - 16 - 8 < 8 := by omega
      simp [h16, hhigh, hlast, hback]

@[simp] theorem size_setBase : (d.setBase w).size = d.size := rfl

@[simp] theorem granular_setBase : (d.setBase w).granular = d.granular := rfl

@[simp] theorem access_setBase : (d.setBase w).access = d.access := rfl

@[simp] theorem access_setLimit : (d.setLimit w).access = d.access := rfl

@[simp] theorem base_setLimit : (d.setLimit w).base = d.base := rfl

@[simp] theorem getBase_setLimit : (d.setLimit w).getBase = d.getBase := rfl

/-- `shr 12` leaves 20 bits. -/
theorem field_lt : (w >>> 12).toNat < 2 ^ 20 := by
  have := w.isLt
  rw [BitVec.toNat_ushiftRight, Nat.shiftRight_eq_div_pow]
  omega

theorem granular_setLimit : (d.setLimit w).granular = d.granular := by
  unfold setLimit setLimitField granular
  simp

/-- The mask of `set_limit` keeps nothing of the old limit. -/
theorem low_mask {i : Nat} (hi : i < 4) : (0xf0 : BitVec 8).getLsbD i = false := by
  have hall : ∀ j : Fin 4, (0xf0 : BitVec 8).getLsbD j = false := by decide
  exact hall ⟨i, hi⟩

theorem limit_setLimit : ((d.setLimit w).limit).toNat = ((w - 1) >>> 12).toNat := by
  have hlt := field_lt (w - 1)
  unfold setLimit setLimitField limit
  dsimp only
  generalize (w - 1) >>> 12 = v at hlt ⊢
  have hsame : (d.flags &&& 0xf0 ||| v.extractLsb' 16 8).extractLsb' 0 4 ++ v.extractLsb' 0 16 =
      v.setWidth 20 := by
    apply BitVec.eq_of_getLsbD_eq
    intro i hi
    simp only [BitVec.getLsbD_append, BitVec.getLsbD_extractLsb', BitVec.getLsbD_or,
      BitVec.getLsbD_and, BitVec.getLsbD_setWidth]
    by_cases h16 : i < 16
    · have h20 : i < 20 := by omega
      simp [h16, h20]
    · have hback : 16 + (i - 16) = i := by omega
      have hlow : i - 16 < 4 := by omega
      have hmask : (0xf0 : BitVec 8).getLsbD (i - 16) = false := low_mask hlow
      have h20 : i < 20 := by omega
      have h8 : i - 16 < 8 := by omega
      simp only [Nat.zero_add, hmask, Bool.and_false, Bool.false_or]
      simp [h16, h20, h8, hlow, hback]
  rw [hsame, BitVec.toNat_setWidth, Nat.mod_eq_of_lt hlt]

/-- **The segment has the size that is set**, in pages. -/
theorem size_setLimit (hd : d.granular = true) :
    (d.setLimit w).size = ((w - 1).toNat / 4096 + 1) * 4096 := by
  unfold size
  rw [granular_setLimit, if_pos hd, limit_setLimit, BitVec.toNat_ushiftRight,
    Nat.shiftRight_eq_div_pow]

/-- A limit of 0 is the whole address space. -/
theorem size_setLimit_zero (hd : d.granular = true) : (d.setLimit 0).size = 2 ^ 32 := by
  rw [size_setLimit d 0 hd]
  rfl

end Desc

/-- The two segments of a task. -/
structure Ldt where
  code   : Desc
  data   : Desc
  codeG  : code.granular = true
  dataG  : data.granular = true

/-- The LDT of `INIT_TASK`. -/
def initLdt : Ldt where
  code  := ⟨0x9f, 0, 0, 0xfa, 0xc0, 0⟩
  data  := ⟨0x9f, 0, 0, 0xf2, 0xc0, 0⟩
  codeG := by decide
  dataG := by decide

end Linux011.Kernel.Segment
