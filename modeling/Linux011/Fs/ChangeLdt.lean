import Linux011.Fs.ExecHeader
import Linux011.Kernel.Descriptor

/-!
# The limits of a new program in memory

`change_ldt` of `exec.c` up to its pages, on the bytes of `current->ldt`: `Fs.ExecHeader`
reasons about bases and limits, and this is why it may.

* `changeLdt_holds` — the two descriptors are those of `changeLimits`.
-/

namespace Linux011.Fs.ChangeLdt

open Linux011.Lib.SubRegister
open Linux011.Kernel.Segment (Desc Ldt initLdt)
open Linux011.Kernel.Descriptor
open Linux011.Fs.ExecHeader (codeLimit dataLimit changeLimits)

/-- `change_ldt` before its pages; `ldt` is the address of `current->ldt`. -/
def changeLdt (ldt textSize edx : BitVec 32) (m : Mem) : Mem :=
  let codeBase := getBase (ldt + 8) edx m
  let dataBase := codeBase
  let m := setBase (ldt + 8) codeBase m
  let m := setLimit (ldt + 8) (codeLimit textSize) m
  let m := setBase (ldt + 16) dataBase m
  setLimit (ldt + 16) dataLimit m

/-- The segments of the task are the second and the third descriptor. -/
structure Holds (ldt : BitVec 32) (l : Ldt) (m : Mem) : Prop where
  code : descAt (ldt + 8) m = l.code
  data : descAt (ldt + 16) m = l.data

variable {ldt : BitVec 32} {m : Mem} {l : Ldt}

/-! ## Two descriptors -/

theorem apart (ldt : BitVec 32) : ∀ a ∈ descBytes (ldt + 8), a ∉ descBytes (ldt + 16) := by
  rintro a ⟨i, hi, rfl⟩ ⟨j, hj, h⟩
  rw [BitVec.add_assoc, BitVec.add_assoc, BitVec.add_right_inj] at h
  bv_omega

/-- The code on one descriptor. -/
def setDesc (addr base limit : BitVec 32) (m : Mem) : Mem := setLimit addr limit (setBase addr base m)

theorem setDesc_within (addr base limit : BitVec 32) : Only (descBytes addr) (setDesc addr base limit) := by
  have hcomp := (setLimit_within addr limit).comp (setBase_within addr base)
  rwa [Set.union_self] at hcomp

theorem descAt_setDesc (addr base limit : BitVec 32) :
    descAt addr (setDesc addr base limit m) = ((descAt addr m).setBase base).setLimit limit := by
  rw [setDesc, descAt_setLimit, descAt_setBase]

theorem changeLdt_eq (textSize edx : BitVec 32) : changeLdt ldt textSize edx m =
    setDesc (ldt + 16) (getBase (ldt + 8) edx m) dataLimit
      (setDesc (ldt + 8) (getBase (ldt + 8) edx m) (codeLimit textSize) m) := rfl

/-- **The bytes hold what `changeLimits` says.** -/
theorem changeLdt_holds (h : Holds ldt l m) (textSize edx : BitVec 32) :
    Holds ldt (changeLimits l textSize) (changeLdt ldt textSize edx m) := by
  have hbase : getBase (ldt + 8) edx m = l.code.getBase := by
    rw [getBase_descAt, h.code]
  rw [changeLdt_eq, hbase]
  constructor
  · rw [descAt_other _ _ (setDesc_within (ldt + 16) _ _) (apart ldt), descAt_setDesc, h.code]
    rfl
  · rw [descAt_setDesc, descAt_other _ _ (setDesc_within (ldt + 8) _ _) (fun a h16 h8 => apart ldt a h8 h16), h.data]
    rfl

end Linux011.Fs.ChangeLdt
