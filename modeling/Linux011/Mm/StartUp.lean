import Linux011.Mm.Cow

/-!
# Memory at start-up

`setup_paging` of `boot/head.s`, instruction by instruction, and how `main` divides the
memory between the buffers, the ram disk and the tasks.

* `setupPagingCode_eq` — the loops of `setup_paging` end with the tables of `setupPaging`;
* `translate_setupPaging` — the first 16 MB are mapped onto themselves, the rest is not;
* `start_up` — the pages that are free then, for every size of the memory.
-/

namespace Linux011.Mm

/-- `rep stosl`, forward, with 0 in `eax`. -/
def repStosl (m : Nat → Word) (edi : Nat) : Nat → Nat → Word
  | 0 => m
  | n + 1 => repStosl (Function.update m edi 0#32) (edi + 1) n

/-- The loop that fills the page tables, from the last entry back. -/
def fillBack : Nat → Nat → Word → (Nat → Word) → Option (Nat → Word)
  | 0, _, _, _ => none
  | n + 1, edi, eax, m =>
    let m := Function.update m edi eax
    if (0x1000#32).sle eax then fillBack n (edi - 1) (eax - 0x1000#32) m else some m

/-- `setup_paging`. Addresses are those of words. -/
def setupPagingCode (n : Nat) (m : Nat → Word) : Option (Nat → Word) :=
  let m := repStosl m 0 (1024 * 5)
  let m := Function.update m 0 0x1007#32
  let m := Function.update m 1 0x2007#32
  let m := Function.update m 2 0x3007#32
  let m := Function.update m 3 0x4007#32
  fillBack n ((0x4000 + 4092) / 4) 0xfff007#32 m

structure Layout where
  memoryEnd       : Nat
  bufferMemoryEnd : Nat
  mainMemoryStart : Nat

/-- How `main` divides the memory. `ramdisk` is `RAMDISK`, and 0 if that is not defined. -/
def layout (extMemK ramdisk : Nat) : Layout :=
  let memoryEnd := pageAddr (BitVec.ofNat 32 ((1 <<< 20) + (extMemK <<< 10)))
  let memoryEnd := if memoryEnd > 16 * 1024 * 1024 then 16 * 1024 * 1024 else memoryEnd
  let bufferMemoryEnd :=
    if memoryEnd > 12 * 1024 * 1024 then 4 * 1024 * 1024
    else if memoryEnd > 6 * 1024 * 1024 then 2 * 1024 * 1024
    else 1 * 1024 * 1024
  ⟨memoryEnd, bufferMemoryEnd, bufferMemoryEnd + ramdisk * 1024⟩

variable {m phys : Nat → Word} {n k : Nat}

/-! ## Paging -/

theorem repStosl_eq (m : Nat → Word) (edi n : Nat) :
    repStosl m edi n = fun a => if edi ≤ a ∧ a < edi + n then 0#32 else m a := by
  induction n generalizing m edi with
  | zero =>
    funext a
    rw [if_neg (by omega)]
    rfl
  | succ n ih =>
    rw [repStosl, ih]
    funext a
    by_cases ha : a = edi
    · subst ha
      rw [if_neg (by omega), Function.update_self, if_pos (by omega)]
    · rw [Function.update_of_ne ha]
      by_cases hin : edi + 1 ≤ a ∧ a < edi + 1 + n
      · rw [if_pos hin, if_pos (by omega)]
      · rw [if_neg hin, if_neg (by omega)]

theorem entry7_eq (hk : k < 2 ^ 20) : entry7 (k * 4096) = BitVec.ofNat 32 (k * 4096 + 7) := by
  apply BitVec.eq_of_toNat_eq
  rw [toNat_entry7 hk, BitVec.toNat_ofNat, Nat.mod_eq_of_lt (by omega)]

/-- The entries from the first one up to number `k` are filled. -/
theorem fillBack_eq (hk : k < 4096) (hn : k < n) (m : Nat → Word) :
    fillBack n (1024 + k) (entry7 (k * 4096)) m =
      some fun a => if 1024 ≤ a ∧ a ≤ 1024 + k then entry7 ((a - 1024) * 4096) else m a := by
  induction k generalizing n m with
  | zero =>
    cases n with
    | zero => omega
    | succ n =>
      unfold fillBack
      rw [if_neg (by decide)]
      refine congrArg some (funext fun a => ?_)
      by_cases ha : a = 1024
      · subst ha
        rfl
      · rw [Function.update_of_ne ha, if_neg (by omega)]
  | succ k ih =>
    cases n with
    | zero => omega
    | succ n =>
      have hmore : (0x1000#32).sle (entry7 ((k + 1) * 4096)) = true := by
        rw [entry7_eq (by omega), BitVec.sle_eq_decide, decide_eq_true_eq]
        simp only [BitVec.toInt_eq_toNat_cond, BitVec.toNat_ofNat]
        rw [Nat.mod_eq_of_lt (by omega), Nat.mod_eq_of_lt (by omega)]
        omega
      have hless : entry7 ((k + 1) * 4096) - 0x1000#32 = entry7 (k * 4096) := by
        apply BitVec.eq_of_toNat_eq
        rw [BitVec.toNat_sub, toNat_entry7 (by omega), toNat_entry7 (by omega)]
        simp only [BitVec.toNat_ofNat]
        omega
      unfold fillBack
      dsimp only
      rw [if_pos hmore, hless, show 1024 + (k + 1) - 1 = 1024 + k by omega, ih (by omega) (by omega)]
      refine congrArg some (funext fun a => ?_)
      by_cases hin : 1024 ≤ a ∧ a ≤ 1024 + k
      · rw [if_pos hin, if_pos (by omega)]
      · rw [if_neg hin]
        by_cases ha : a = 1024 + (k + 1)
        · rw [ha, Function.update_self, if_pos (by omega), Nat.add_sub_cancel_left]
        · rw [Function.update_of_ne ha, if_neg (by omega)]

theorem setupPagingCode_eq (phys : Nat → Word) : setupPagingCode 4096 phys = some (setupPaging phys) := by
  have hlast : (0xfff007#32 : Word) = entry7 (4095 * 4096) := by decide
  unfold setupPagingCode
  dsimp only
  rw [hlast, show (0x4000 + 4092) / 4 = 1024 + 4095 by decide, fillBack_eq (by decide) (by decide)]
  refine congrArg some (funext fun a => ?_)
  unfold setupPaging
  rw [repStosl_eq]
  by_cases hdir : a < 4
  · rw [if_neg (by omega), if_pos hdir]
    obtain rfl | rfl | rfl | rfl : a = 0 ∨ a = 1 ∨ a = 2 ∨ a = 3 := by omega
    all_goals rfl
  · rw [if_neg hdir, Function.update_of_ne (by omega), Function.update_of_ne (by omega),
      Function.update_of_ne (by omega), Function.update_of_ne (by omega)]
    by_cases hslots : a < 1024
    · rw [if_neg (by omega), if_pos hslots, if_pos (by omega)]
    · rw [if_neg hslots]
      by_cases htables : a < 5120
      · rw [if_pos (by omega), if_pos htables]
      · rw [if_neg (by omega), if_neg htables, if_neg (by omega)]

/-- The kernel reads and writes the first 16 MB at their own addresses. -/
theorem translate_setupPaging {s : Mem} (hs : s.phys = setupPaging phys) {a : Nat} (ha : a < 2 ^ 32)
    (write : Bool) : translate s a write = if a < 0x1000000 then .ok a else .error .notPresent := by
  unfold translate
  rw [hs, dirEntry_eq, tableIndex_eq, Nat.mod_eq_of_lt (by omega)]
  dsimp only
  by_cases hlow : a < 0x1000000
  · have hdir : setupPaging phys (a / 2 ^ 22) = entry7 ((a / 2 ^ 22 + 1) * 4096) := if_pos (by omega)
    have hindex : (a / 2 ^ 22 + 1) * 4096 / 4 + a / 2 ^ 12 % 1024 = 1024 + a / 2 ^ 12 := by omega
    have hentry : setupPaging phys (1024 + a / 2 ^ 12) = entry7 (a / 2 ^ 12 * 4096) := by
      unfold setupPaging
      rw [if_neg (by omega), if_neg (by omega), if_pos (by omega), Nat.add_sub_cancel_left]
    rw [hdir, present_entry7 (by omega), if_pos rfl, pageAddr_eq, frameOf_entry7 (by omega), hindex, hentry,
      present_entry7 (by omega), if_pos rfl, writable_entry7, Bool.not_true, Bool.and_false, pageAddr_eq,
      frameOf_entry7 (by omega), if_pos hlow]
    exact congrArg Except.ok (by omega)
  · have hdir : setupPaging phys (a / 2 ^ 22) = 0#32 := by
      unfold setupPaging
      rw [if_neg (by omega), if_pos (by omega)]
    rw [hdir, if_neg (by decide), if_neg hlow]

/-! ## The layout -/

/-- The memory `main` counts on is there. The buffers end at a megabyte, and begin the
paged memory or the ram disk. -/
theorem layout_spec {extMemK ramdisk : Nat} (hext : extMemK < 65536) :
    (layout extMemK ramdisk).memoryEnd % 4096 = 0 ∧ (layout extMemK ramdisk).memoryEnd ≤ 0x1000000 ∧
    (layout extMemK ramdisk).memoryEnd ≤ 0x100000 + extMemK * 1024 ∧
    (layout extMemK ramdisk).bufferMemoryEnd % 0x100000 = 0 ∧ 0x100000 ≤ (layout extMemK ramdisk).bufferMemoryEnd ∧
    (layout extMemK ramdisk).bufferMemoryEnd ≤ (layout extMemK ramdisk).memoryEnd ∧
    (layout extMemK ramdisk).mainMemoryStart = (layout extMemK ramdisk).bufferMemoryEnd + ramdisk * 1024 := by
  have hsize : pageAddr (BitVec.ofNat 32 ((1 <<< 20) + (extMemK <<< 10))) =
      (0x100000 + extMemK * 1024) / 4096 * 4096 := by
    rw [pageAddr_eq, frameOf, BitVec.toNat_ofNat, Nat.shiftLeft_eq, Nat.shiftLeft_eq]
    omega
  unfold layout
  dsimp only
  rw [hsize]
  split_ifs <;> omega

/-- From the loops of `setup_paging` to `mem_init`: the paged memory is accounted for, and
its free pages are those between the ram disk and the end of the memory. -/
theorem start_up (phys : Nat → Word) {extMemK ramdisk : Nat} (hext : extMemK < 65536) (hram : ramdisk % 4 = 0)
    (hfit : (layout extMemK ramdisk).mainMemoryStart ≤ (layout extMemK ramdisk).memoryEnd) :
    ∃ m, setupPagingCode 4096 phys = some m ∧
    (∀ a < 2 ^ 32, ∀ write, translate (memInit m (layout extMemK ramdisk).mainMemoryStart
        (layout extMemK ramdisk).memoryEnd) a write =
      if a < 0x1000000 then .ok a else .error .notPresent) ∧
    Acc (firstFrame (layout extMemK ramdisk).mainMemoryStart)
      (endFrame (layout extMemK ramdisk).mainMemoryStart (layout extMemK ramdisk).memoryEnd)
      (memInit m (layout extMemK ramdisk).mainMemoryStart (layout extMemK ramdisk).memoryEnd) (fun _ => 0) ∧
    ∀ f, 256 ≤ f → ((memInit m (layout extMemK ramdisk).mainMemoryStart
        (layout extMemK ramdisk).memoryEnd).memMap (f - 256) = 0 ↔
      (layout extMemK ramdisk).mainMemoryStart ≤ f * 4096 ∧ f * 4096 + 4096 ≤ (layout extMemK ramdisk).memoryEnd) := by
  obtain ⟨hend, htop, -, hbuf, hlow, hle, hmain⟩ := @layout_spec extMemK ramdisk hext
  have hpage : (layout extMemK ramdisk).mainMemoryStart % 4096 = 0 := by omega
  have hstart : 0x100000 ≤ (layout extMemK ramdisk).mainMemoryStart := by omega
  refine ⟨_, setupPagingCode_eq phys, fun a => translate_setupPaging rfl,
    acc_memInit (booted_setupPaging phys) ⟨hstart, hfit, htop⟩, fun f hf => ?_⟩
  generalize (layout extMemK ramdisk).mainMemoryStart = startMem at hfit hpage hstart ⊢
  generalize (layout extMemK ramdisk).memoryEnd = endMem at hfit hend ⊢
  unfold memInit mapNr lowMem used
  dsimp only
  rw [Nat.shiftRight_eq_div_pow, Nat.shiftRight_eq_div_pow]
  constructor
  · intro hfree
    split_ifs at hfree with hin
    omega
  · rintro ⟨hfrom, hto⟩
    exact if_pos (by omega)

/-- 16 MB, with the ram disk of the `Makefile`. -/
theorem start_up_ramdisk : ∃ m, setupPagingCode 4096 (fun _ => 0#32) = some m ∧
    (memInit m 0x480000 0x1000000).memMap (0x480 - 256) = 0 := by
  obtain ⟨m, hm, -, -, hfree⟩ := @start_up (fun _ => 0#32) 15360 512 (by decide) (by decide) (by decide)
  exact ⟨m, hm, (hfree 0x480 (by decide)).mpr (by decide)⟩

end Linux011.Mm
