import Linux011.Kernel.Segment
import Linux011.Lib.SubRegister
import Mathlib.Algebra.Group.Nat.Defs
import Mathlib.Data.Set.Insert

/-!
# Segment descriptors — the macros of `sched.h`, instruction by instruction

`_set_base`, `_set_limit` and `_get_base` as they move bytes between `edx` and the
memory that holds a descriptor, and `get_limit` as the processor carries out `lsl`.

* `descAt_setBase`, `descAt_setLimit`, `getBase_descAt` — the code is that of `Segment.Desc`;
* `setBase_only`, `setLimit_only` — the bytes that are written;
* `setBase_setLimit` — the order of the two does not matter;
* `scaled_succ` — what `lsl` and `inc` make of a limit.

Nothing is asked of the address: at the end of memory it goes round.
-/

namespace Linux011.Kernel.Descriptor

open Linux011.Lib.SubRegister
open Linux011.Kernel.Segment (Desc initLdt)

/-- The eight bytes of a descriptor. -/
def descAt (addr : BitVec 32) (m : Mem) : Desc where
  limit0 := word addr m
  base0  := word (addr + 2) m
  base16 := m (addr + 4)
  access := m (addr + 5)
  flags  := m (addr + 6)
  base24 := m (addr + 7)

/-! ## The macros -/

/-- `_set_base`. -/
def setBase (addr base : BitVec 32) (m : Mem) : Mem :=
  let edx := base
  let m := movw (addr + 2) (dx edx) m
  let edx := edx.rotateRight 16
  let m := movb (addr + 4) (dl edx) m
  movb (addr + 7) (dh edx) m

/-- `_set_limit`. -/
def setLimitField (addr limit : BitVec 32) (m : Mem) : Mem :=
  let edx := limit
  let m := movw addr (dx edx) m
  let edx := edx.rotateRight 16
  let edx := putDh edx (m (addr + 6))
  let edx := putDh edx (dh edx &&& 0xf0)
  let edx := putDl edx (dl edx ||| dh edx)
  movb (addr + 6) (dl edx) m

/-- `set_limit`. -/
def setLimit (addr limit : BitVec 32) (m : Mem) : Mem :=
  setLimitField addr ((limit - 1) >>> 12) m

/-- `_get_base`, whatever `edx` holds before. -/
def getBase (addr edx : BitVec 32) (m : Mem) : BitVec 32 :=
  let edx := putDh edx (m (addr + 7))
  let edx := putDl edx (m (addr + 4))
  let edx := edx <<< 16
  putDx edx (word (addr + 2) m)

/-! ## The processor -/

/-- The tables and the level at which the code runs. -/
structure Cpu where
  gdt      : BitVec 32
  gdtLimit : BitVec 16
  ldt      : BitVec 32
  ldtLimit : BitVec 32
  cpl      : BitVec 2

/-- The address of the descriptor that a selector names, if there is one. -/
def Cpu.entry (cpu : Cpu) (segment : BitVec 16) : Option (BitVec 32) :=
  let offset := (segment &&& 0xfff8).setWidth 32
  let last := (segment ||| 7).toNat
  if segment.getLsbD 2 then
    if last ≤ cpu.ldtLimit.toNat then some (cpu.ldt + offset) else none
  else if segment &&& 0xfffc = 0 then none
  else if last ≤ cpu.gdtLimit.toNat then some (cpu.gdt + offset) else none

/-- Segments of code and data, task states and local tables. -/
def hasLimit (access : BitVec 8) : Bool :=
  access.getLsbD 4 || [1, 2, 3, 9, 11].contains (access.extractLsb' 0 4)

/-- Code that runs at the level of its caller. -/
def conforming (access : BitVec 8) : Bool :=
  access.getLsbD 4 && access.getLsbD 3 && access.getLsbD 2

def dpl (access : BitVec 8) : BitVec 2 := access.extractLsb' 5 2

/-- `lsl` accepts a descriptor by its access rights alone. -/
def visible (access : BitVec 8) (cpl rpl : BitVec 2) : Bool :=
  hasLimit access && (conforming access || decide (cpl ≤ dpl access) && decide (rpl ≤ dpl access))

/-- The limit in bytes. -/
def scaled (d : Desc) : BitVec 32 :=
  if d.granular then d.limit ++ 0xfff#12 else d.limit.setWidth 32

/-- The descriptor at `addr` is the one that `lsl` looks at, and it is accepted. -/
def Cpu.Sees (cpu : Cpu) (segment : BitVec 16) (addr : BitVec 32) (m : Mem) : Prop :=
  cpu.entry segment = some addr ∧
    visible (descAt addr m).access cpu.cpl (segment.extractLsb' 0 2) = true

/-- `lsl`, which leaves its target as it is where it does not accept the selector. -/
def Cpu.lsl (cpu : Cpu) (segment : BitVec 16) (target : BitVec 32) (m : Mem) : BitVec 32 :=
  match cpu.entry segment with
  | none => target
  | some addr =>
    let d := descAt addr m
    if visible d.access cpu.cpl (segment.extractLsb' 0 2) then scaled d else target

/-- `get_limit`. -/
def getLimit (cpu : Cpu) (segment : BitVec 16) (limit : BitVec 32) (m : Mem) : BitVec 32 :=
  cpu.lsl segment limit m + 1

/-! ## What is written -/

/-- The bytes in which the base lies. -/
def baseBytes (addr : BitVec 32) : Set (BitVec 32) := {addr + 2, addr + 3, addr + 4, addr + 7}

/-- The bytes in which the limit lies; it has half of the last one. -/
def limitBytes (addr : BitVec 32) : Set (BitVec 32) := {addr, addr + 1, addr + 6}

variable (addr base limit : BitVec 32) (m : Mem)

theorem setBase_apply (a : BitVec 32) : setBase addr base m a =
    if a = addr + 7 then base.extractLsb' 24 8
    else if a = addr + 4 then base.extractLsb' 16 8
    else if a = addr + 3 then base.extractLsb' 8 8
    else if a = addr + 2 then base.extractLsb' 0 8
    else m a := by
  have hnext : addr + 2 + 1 = addr + 3 := by simp [BitVec.add_assoc]
  unfold setBase movw movb
  simp only [Function.update_apply, dl_rotate, dh_rotate, hnext]
  rw [dx, extract_extract _ (by decide), extract_extract _ (by decide)]

theorem setLimitField_apply (a : BitVec 32) : setLimitField addr limit m a =
    if a = addr + 6 then limit.extractLsb' 16 8 ||| m (addr + 6) &&& 0xf0
    else if a = addr + 1 then limit.extractLsb' 8 8
    else if a = addr then limit.extractLsb' 0 8
    else m a := by
  have hkeep (v : BitVec 16) : movw addr v m (addr + 6) = m (addr + 6) :=
    movw_other _ _ _ (by simp) (by simp)
  unfold setLimitField
  simp only [hkeep, dl_putDl, dh_putDh, dl_putDh, dl_rotate]
  unfold movw movb
  simp only [Function.update_apply]
  rw [dx, extract_extract _ (by decide), extract_extract _ (by decide)]

theorem setBase_only : Only (baseBytes addr) (setBase addr base) := by
  intro m a ha
  simp only [baseBytes, Set.mem_insert_iff, Set.mem_singleton_iff, not_or] at ha
  obtain ⟨h2, h3, h4, h7⟩ := ha
  rw [setBase_apply, if_neg h7, if_neg h4, if_neg h3, if_neg h2]

theorem setLimit_only : Only (limitBytes addr) (setLimit addr limit) := by
  intro m a ha
  simp only [limitBytes, Set.mem_insert_iff, Set.mem_singleton_iff, not_or] at ha
  obtain ⟨h0, h1, h6⟩ := ha
  rw [setLimit, setLimitField_apply, if_neg h6, if_neg h1, if_neg h0]

theorem setBase_bytewise : Bytewise (setBase addr base) := by
  intro m m' a h
  rw [setBase_apply, setBase_apply, h]

theorem setLimit_bytewise : Bytewise (setLimit addr limit) := by
  intro m m' a h
  rw [setLimit, setLimit, setLimitField_apply, setLimitField_apply, h]
  by_cases h6 : a = addr + 6
  · subst h6
    rw [h]
  · rw [if_neg h6, if_neg h6]

theorem disjoint_bytes : ∀ a ∈ baseBytes addr, a ∉ limitBytes addr := by
  intro a hb hl
  simp only [baseBytes, limitBytes, Set.mem_insert_iff, Set.mem_singleton_iff] at hb hl
  rcases hb with rfl | rfl | rfl | rfl <;> simp at hl

/-- **Base and limit are set in either order.** -/
theorem setBase_setLimit : setBase addr base (setLimit addr limit m) = setLimit addr limit (setBase addr base m) :=
  comm_of_disjoint (setBase_bytewise addr base) (setLimit_bytewise addr limit)
    (setBase_only addr base) (setLimit_only addr limit) (disjoint_bytes addr) m

/-! ## The code and the descriptor -/

theorem word_bytes (x : BitVec 32) : x.extractLsb' 8 8 ++ x.extractLsb' 0 8 = x.extractLsb' 0 16 :=
  BitVec.extractLsb'_append_extractLsb'_eq_extractLsb' rfl

theorem descAt_setBase : descAt addr (setBase addr base m) = (descAt addr m).setBase base := by
  have hword : word (addr + 2) (setBase addr base m) = base.extractLsb' 0 16 := by
    simp [word, setBase_apply, BitVec.add_assoc, word_bytes]
  have hother : word addr (setBase addr base m) = word addr m := by
    simp [word, setBase_apply]
  unfold descAt Desc.setBase
  rw [hword, hother]
  simp [setBase_apply]

theorem descAt_setLimit : descAt addr (setLimit addr limit m) = (descAt addr m).setLimit limit := by
  unfold setLimit Desc.setLimit
  generalize (limit - 1) >>> 12 = field
  have hword : word addr (setLimitField addr field m) = field.extractLsb' 0 16 := by
    simp [word, setLimitField_apply, word_bytes]
  have hother : word (addr + 2) (setLimitField addr field m) = word (addr + 2) m := by
    simp [word, setLimitField_apply, BitVec.add_assoc]
  unfold descAt Desc.setLimitField
  rw [hword, hother]
  simp [setLimitField_apply, BitVec.or_comm]

theorem getBase_descAt (edx : BitVec 32) : getBase addr edx m = (descAt addr m).getBase := by
  unfold getBase putDx
  simp only [upper_shift, dx_gather]
  rfl

/-- The bytes of a descriptor. -/
def descBytes (addr : BitVec 32) : Set (BitVec 32) := {a | ∃ i < 8, a = addr + i}

theorem setBase_within : Only (descBytes addr) (setBase addr base) := by
  refine (setBase_only addr base).mono ?_
  intro a ha
  simp only [baseBytes, Set.mem_insert_iff, Set.mem_singleton_iff] at ha
  rcases ha with h | h | h | h
  · exact ⟨2, by decide, h⟩
  · exact ⟨3, by decide, h⟩
  · exact ⟨4, by decide, h⟩
  · exact ⟨7, by decide, h⟩

theorem setLimit_within : Only (descBytes addr) (setLimit addr limit) := by
  refine (setLimit_only addr limit).mono ?_
  intro a ha
  simp only [limitBytes, Set.mem_insert_iff, Set.mem_singleton_iff] at ha
  rcases ha with h | h | h
  · exact ⟨0, by decide, by rw [h]; exact (BitVec.add_zero addr).symm⟩
  · exact ⟨1, by decide, h⟩
  · exact ⟨6, by decide, h⟩

/-- Code that writes elsewhere leaves a descriptor as it is. -/
theorem descAt_other {s : Set (BitVec 32)} {f : Mem → Mem} (hf : Only s f) (hd : ∀ a ∈ descBytes addr, a ∉ s) :
    descAt addr (f m) = descAt addr m := by
  have hsame (i : BitVec 32) (hi : i < 8) : f m (addr + i) = m (addr + i) :=
    hf m _ (hd _ ⟨i, hi, rfl⟩)
  have hzero : f m addr = m addr := by simpa using hsame 0 (by decide)
  unfold descAt word
  rw [BitVec.add_assoc]
  simp [hzero, hsame]

/-- `lsl` and one more are the bytes of the segment, modulo `2 ^ 32`. -/
theorem scaled_succ (d : Desc) : scaled d + 1 = d.getLimit := by
  unfold scaled Desc.getLimit Desc.size
  by_cases hd : d.granular = true
  · rw [if_pos hd, if_pos hd]
    apply BitVec.eq_of_toNat_eq
    have hones : (d.limit ++ 0xfff#12).toNat = d.limit.toNat * 4096 + 4095 := by
      rw [BitVec.toNat_append, ← Nat.shiftLeft_add_eq_or_of_lt (by decide), Nat.shiftLeft_eq]
      rfl
    have hpages : d.limit.toNat * 4096 + 4095 + 1 = (d.limit.toNat + 1) * 4096 := by omega
    rw [BitVec.toNat_add, hones, BitVec.toNat_ofNat, ← hpages]
    rfl
  · rw [if_neg hd, if_neg hd, BitVec.ofNat_add, BitVec.ofNat_toNat]
    rfl

/-- The rights that share a byte with the limit. -/
theorem flags_setLimit (d : Desc) : (d.setLimit limit).flags.extractLsb' 4 4 = d.flags.extractLsb' 4 4 := by
  have hmask : ∀ i : Fin 4, (0xf0 : BitVec 8).getLsbD (4 + i) = true := by decide
  unfold Desc.setLimit Desc.setLimitField
  dsimp only
  apply BitVec.eq_of_getLsbD_eq
  intro i hi
  have hbit : (0xf0 : BitVec 8).getLsbD (4 + i) = true := hmask ⟨i, hi⟩
  -- what is set has 20 bits
  have hfield : ((limit - 1) >>> 12).getLsbD (16 + (4 + i)) = false := by
    rw [BitVec.getLsbD_ushiftRight]
    exact BitVec.getLsbD_of_ge _ _ (by omega)
  simp only [BitVec.getLsbD_extractLsb', BitVec.getLsbD_or, BitVec.getLsbD_and, hbit, hfield,
    Bool.and_true, Bool.and_false, Bool.or_false]

/-- A limit in whole pages. -/
theorem getLimit_setLimit {d : Desc} (hd : d.granular = true) (h0 : limit ≠ 0) :
    (d.setLimit limit).getLimit.toNat = (limit.toNat + 4095) / 4096 * 4096 % 2 ^ 32 := by
  have hpos : limit.toNat ≠ 0 := fun h => h0 (BitVec.eq_of_toNat_eq h)
  have hpred : (limit - 1).toNat = limit.toNat - 1 := by
    have hone : (1 : BitVec 32) ≤ limit := by
      rw [BitVec.le_def]
      exact Nat.one_le_iff_ne_zero.mpr hpos
    exact BitVec.toNat_sub_of_le hone
  have hpages : ((limit.toNat - 1) / 4096 + 1) * 4096 = (limit.toNat + 4095) / 4096 * 4096 := by omega
  rw [Desc.getLimit, BitVec.toNat_ofNat, Desc.size_setLimit d limit hd, hpred, hpages]

/-! ## What the processor sees -/

section Sees

variable {addr base limit : BitVec 32} {m : Mem} {cpu : Cpu} {segment : BitVec 16}

/-- Access is by the rights, which `set_limit` leaves alone. -/
theorem sees_setLimit (h : cpu.Sees segment addr m) : cpu.Sees segment addr (setLimit addr limit m) := by
  obtain ⟨hentry, haccess⟩ := h
  refine ⟨hentry, ?_⟩
  rw [descAt_setLimit, Desc.access_setLimit]
  exact haccess

theorem getLimit_descAt (h : cpu.Sees segment addr m) (target : BitVec 32) :
    getLimit cpu segment target m = (descAt addr m).getLimit := by
  obtain ⟨hentry, haccess⟩ := h
  rw [getLimit, Cpu.lsl, hentry]
  dsimp only
  rw [if_pos haccess, scaled_succ]

end Sees

/-! ## A task -/

/-- `ldt` of `INIT_TASK`, wherever it lies. -/
def initTask (ldt : BitVec 32) : Mem := fun a =>
  [0, 0, 0, 0, 0, 0, 0, 0,
   0x9f, 0, 0, 0, 0, 0xfa, 0xc0, 0,
   0x9f, 0, 0, 0, 0, 0xf2, 0xc0, 0].getD (a - ldt).toNat 0

theorem initTask_off (ldt i : BitVec 32) : initTask ldt (ldt + i) = initTask 0 i := by
  have hoff : ldt + i - ldt = i - 0 := by
    rw [BitVec.add_comm, BitVec.add_sub_cancel]
    exact (BitVec.sub_zero i).symm
  unfold initTask
  rw [hoff]

theorem initTask_data (ldt : BitVec 32) : descAt (ldt + 16) (initTask ldt) = initLdt.data := by
  unfold descAt word
  simp only [BitVec.add_assoc, initTask_off]
  rfl

/-- **Base and limit are read back as they are set, and nothing else is touched.** The
assembly routines can be used as the functions of `Kernel.Segment` that they stand for. -/
theorem descriptor_round_trip (hg : (descAt addr m).granular = true) (h0 : limit ≠ 0) :
    (∀ edx, getBase addr edx (setBase addr base m) = base) ∧
    (scaled (descAt addr (setLimit addr limit m)) + 1).toNat =
      (limit.toNat + 4095) / 4096 * 4096 % 2 ^ 32 ∧
    (∀ cpu segment target, cpu.Sees segment addr m →
      (getLimit cpu segment target (setLimit addr limit m)).toNat =
        (limit.toNat + 4095) / 4096 * 4096 % 2 ^ 32) ∧
    (∀ a, a ∉ baseBytes addr → setBase addr base m a = m a) ∧
    (∀ a, a ∉ limitBytes addr → setLimit addr limit m a = m a) ∧
    (setLimit addr limit m (addr + 6)).extractLsb' 4 4 = (m (addr + 6)).extractLsb' 4 4 ∧
    setBase addr base (setLimit addr limit m) = setLimit addr limit (setBase addr base m) ∧
    (descAt addr (setLimit addr limit (setBase addr base m))).access = (descAt addr m).access ∧
    (descAt addr (setLimit addr limit (setBase addr base m))).flags.extractLsb' 4 4 =
      (descAt addr m).flags.extractLsb' 4 4 := by
  have hflags : (setLimit addr limit m (addr + 6)).extractLsb' 4 4 = (m (addr + 6)).extractLsb' 4 4 := by
    have hdesc := flags_setLimit limit (descAt addr m)
    rwa [← descAt_setLimit] at hdesc
  refine ⟨?_, ?_, ?_, setBase_only addr base m, setLimit_only addr limit m, hflags,
    setBase_setLimit addr base limit m, ?_, ?_⟩
  · intro edx
    rw [getBase_descAt, descAt_setBase, Desc.getBase_setBase]
  · rw [scaled_succ, descAt_setLimit, getLimit_setLimit limit hg h0]
  · intro cpu segment target h
    rw [getLimit_descAt (sees_setLimit h), descAt_setLimit, getLimit_setLimit limit hg h0]
  · rw [descAt_setLimit, descAt_setBase, Desc.access_setLimit, Desc.access_setBase]
  · rw [descAt_setLimit, flags_setLimit, descAt_setBase]
    rfl

/-- The data segment of a task at `0x1000`, which the kernel reads back. -/
theorem initTask_round_trip :
    (∀ edx, getBase 0x1010 edx (setBase 0x1010 0x4000000 (initTask 0x1000)) = 0x4000000) ∧
    (getLimit ⟨0, 0, 0x1000, 104, 0⟩ 0x17 0 (setLimit 0x1010 0x123456 (initTask 0x1000))).toNat =
      0x124000 := by
  have hdata : descAt 0x1010 (initTask 0x1000) = initLdt.data := initTask_data 0x1000
  have hg : (descAt 0x1010 (initTask 0x1000)).granular = true := by
    rw [hdata]
    exact initLdt.dataG
  have hsees : Cpu.Sees ⟨0, 0, 0x1000, 104, 0⟩ 0x17 0x1010 (initTask 0x1000) := by
    refine ⟨by decide, ?_⟩
    rw [hdata]
    decide
  obtain ⟨hbase, _, hlimit, _⟩ := descriptor_round_trip 0x1010 0x4000000 0x123456 _ hg (by decide)
  exact ⟨hbase, hlimit _ _ _ hsees⟩

end Linux011.Kernel.Descriptor
