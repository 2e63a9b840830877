import Linux011.Mm.TryShare
import Linux011.Fs.FileBlocks
import Linux011.Fs.ExecHeader

/-!
# Memory manager — loading a page of the executable

`do_no_page` with `bread_page`: a page of a program is put together from four
blocks of its file, which begins with the header block, and cleared behind
`end_data`.  Blocks can be read.

* `breadPage_spec` — the bytes of the four blocks;
* `clearTail_spec`, `clearTail_below` — the loop behind `end_data` stays in the
  page, or leaves it at the bottom;
* `putPage_maps` — the entry, whatever was there before;
* `loads_right_iff` — the page is right exactly when the difference that counts
  the bytes to clear has not become positive again.
-/

namespace Linux011.Mm.DemandLoad

open Linux011.Lib
open Linux011.Fs.ZoneMap (State)
open Linux011.Fs.FileData (bmapIo content maxBlock dataPos)

/-- Why `do_no_page` does not come back.  From the first store below the page it
writes over frames of others, and nothing is said of what follows. -/
inductive Stuck
  | stop (e : Stop)
  | bigBlock
  | below
  deriving DecidableEq, Repr

/-- What became of the fault. -/
inductive Outcome
  | empty
  | shared
  | loaded
  deriving DecidableEq, Repr

abbrev NP := EStateM Stuck Mem

variable {α : Type}

/-- A routine of the memory manager. -/
def ofMm (x : MM α) : NP α := fun s =>
  match x s with
  | .ok a t => .ok a t
  | .error e t => .error (.stop e) t

/-! ## bread_page -/

/-- Byte `i` of a block. -/
def diskByte (disk : State) (z i : Nat) : Byte := BitVec.ofNat 8 (Fs.FileData.byte disk z i).val

/-- Long `j` of a block. -/
def blockLong (disk : State) (z j : Nat) : Word :=
  diskByte disk z (4 * j + 3) ++ diskByte disk z (4 * j + 2) ++ diskByte disk z (4 * j + 1) ++
    diskByte disk z (4 * j)

/-- `COPYBLK`. -/
def copyBlk (disk : State) (z to_ : Nat) : MM Unit :=
  modify fun s => { s with
    phys := fun a =>
      if to_ / 4 ≤ a ∧ a < to_ / 4 + 256 then blockLong disk z (a - to_ / 4) else s.phys a }

/-- `bread_page`. -/
def breadPage (disk : State) : Nat → List Nat → MM Unit
  | _, [] => return ()
  | address, b :: bs =>
    if b ≠ 0 then do
      copyBlk disk b address
      breadPage disk (address + 1024) bs
    else breadPage disk (address + 1024) bs

/-- `nr[i] = bmap(inode,block)` for `i` blocks. Nothing if it panics. -/
def bmaps (disk : State) (n : Nat) : Nat → Nat → Option (List Nat)
  | 0, _ => some []
  | i + 1, block =>
    match bmapIo disk n block false (fun _ => true) with
    | none => none
    | some (_, z) => (bmaps disk n i (block + 1)).map (z :: ·)

/-! ## do_no_page -/

/-- `while (i-- > 0) { tmp--; *(char *)tmp = 0; }`, as long as it is in the page. -/
def clearTail (page : Nat) : Nat → Nat → NP Unit
  | 0, _ => return ()
  | i + 1, tmp =>
    if tmp ≤ page then throw .below
    else do
      ofMm (storeByte (tmp - 1) 0#8)
      clearTail page i (tmp - 1)

/-- `address - current->start_code`, with the address of the page. -/
def offset (current : Sharer) (address : Nat) : Nat :=
  ((address &&& 0xfffff000) + 2 ^ 32 - current.startCode) % 2 ^ 32

/-- `i = tmp + 4096 - current->end_data`, an `int`. -/
def tailLen (current : Sharer) (tmp : Nat) : Int :=
  Int.bmod (tmp + 4096 - current.endData) (2 ^ 32)

/-- The rest of `do_no_page`, when no page was shared. -/
def loadPage (current : Sharer) (disk : State) (n tmp address : Nat) : NP Outcome := do
  let page ← ofMm getFreePage
  if page = 0 then
    ofMm (oom current.ldt)
    return .empty
  else
    match bmaps disk n 4 (1 + tmp / 1024) with
    | none => throw .bigBlock
    | some nr =>
      ofMm (breadPage disk page nr)
      clearTail page (tailLen current tmp).toNat (page + 4096)
      let r ← ofMm (putPage page address)
      if r ≠ 0 then return .loaded
      else
        ofMm (freePage page)
        ofMm (oom current.ldt)
        return .empty

/-- `do_no_page`: `current` is task `nr`, `count` the `i_count` of its executable. -/
def doNoPage (current : Sharer) (nr count : Nat) (task : Nat → Option Sharer) (disk : State)
    (address : Nat) : NP Outcome := do
  let tmp := offset current address
  let address := address &&& 0xfffff000
  match current.executable with
  | none =>
    ofMm (getEmptyPage current.ldt address)
    return .empty
  | some n =>
    if tmp ≥ current.endData then
      ofMm (getEmptyPage current.ldt address)
      return .empty
    else
      let r ← ofMm (sharePage current nr count tmp task)
      if r ≠ 0 then return .shared else loadPage current disk n tmp address

/-! ## What it is for -/

/-- The byte of the executable at a position. -/
def fileByte (disk : State) (n x : Nat) : Byte := BitVec.ofNat 8 (content disk n x).val

/-- Frame `f`, which was free, has become the page at the address: with the bytes
of the file, writable for the user, and nothing else was used but a page table
where there was none. -/
structure Loaded (current : Sharer) (disk : State) (n address : Nat) (s s' : Mem) (f : Nat) :
    Prop where
  free   : 256 ≤ f ∧ s.memMap (f - 256) = 0
  entry  : ∃ w, pteAt s' address = some w ∧ w &&& 7#32 = 7#32 ∧ frameOf w = f
  bytes  : ∀ k : Fin 4096, bytesOf (contents s' f) k =
    if offset current address + k < current.endData then
      fileByte disk n (1024 + offset current address + k) else 0#8
  frames : if present (s.phys (dirEntry address)) then
      s'.memMap = Function.update s.memMap (f - 256) 1
    else ∃ t, 256 ≤ t ∧ t ≠ f ∧ s.memMap (t - 256) = 0 ∧
      s'.memMap = Function.update (Function.update s.memMap (f - 256) 1) (t - 256) 1

/-- **The right page is loaded.** -/
def LoadsRight (current : Sharer) (nr count : Nat) (task : Nat → Option Sharer) (disk : State)
    (n address : Nat) (s : Mem) : Prop :=
  wp (doNoPage current nr count task disk address)
    (fun r s' => r = .loaded ∧ ∃ f, Loaded current disk n address s s' f) (fun _ _ => False) s

/-- The page table for the address, if there is one, is not the page directory and
is in use. -/
def TableKept (s : Mem) (address : Nat) : Prop :=
  present (s.phys (dirEntry address)) = true →
    frameOf (s.phys (dirEntry address)) ≠ 0 ∧
      (256 ≤ frameOf (s.phys (dirEntry address)) →
        s.memMap (frameOf (s.phys (dirEntry address)) - 256) ≠ 0)

/-- There is a free page, and another one for the page table if that is missing. -/
def EnoughFree (s : Mem) (address : Nat) : Prop :=
  ∃ i < pagingPages, s.memMap i = 0 ∧
    (present (s.phys (dirEntry address)) = true ∨ ∃ j < pagingPages, j ≠ i ∧ s.memMap j = 0)

variable {s : Mem}

@[simp] theorem wp_ofMm (x : MM α) (Q : α → Mem → Prop) (E : Stuck → Mem → Prop) :
    wp (ofMm x) Q E s ↔ wp x Q (fun e t => E (.stop e) t) s := by
  unfold wp ofMm
  cases x s <;> exact Iff.rfl

/-- The accounts keep the page tables of the tasks. -/
theorem tableKept_of_acc {lo hi : Nat} {held : Nat → Nat} (A : Acc lo hi s held) {address : Nat}
    (hd : dirEntry address ∈ dirs) : TableKept s address := by
  intro hp
  have ht := tblOf_eq_some.mpr ⟨hd, hp, rfl⟩
  obtain ⟨hlo, hhi⟩ := A.tbl_main ht
  exact ⟨A.tbl_ne_zero ht, fun _ h0 => (A.free_unused hlo hhi h0).1 _ ht⟩

/-! ## share_page -/

/-- Every run ends. -/
theorem wp_any (x : MM α) (s : Mem) : wp x (fun _ _ => True) (fun _ _ => True) s := by
  unfold wp
  cases x s <;> exact trivial

theorem tryToShare_zero (current p : Sharer) (address : Nat) (s : Mem) :
    wp (tryToShare current address p) (fun r t => r = 0 → t = s) (fun _ _ => True) s := by
  unfold tryToShare
  simp only [wp_bind, wp_load, wp_ite, wp_get, wp_pure]
  refine ⟨fun _ => ⟨fun _ _ => trivial, fun _ => ⟨fun _ _ => trivial, fun _ => ?_⟩⟩,
    fun _ _ => trivial⟩
  refine wp_mono (wp_any _ s) ?_ (fun _ _ h => h)
  intro w t _
  simp

theorem shareFrom_zero (current : Sharer) (nr address : Nat) (task : Nat → Option Sharer) (s : Mem)
    (n : Nat) :
    wp (shareFrom current nr address task n) (fun r t => r = 0 → t = s) (fun _ _ => True) s := by
  induction n with
  | zero => exact fun _ => rfl
  | succ n ih =>
    rw [shareFrom]
    split
    · exact ih
    · next p _ =>
      rw [wp_ite]
      refine ⟨fun _ => ih, fun _ => ?_⟩
      rw [wp_bind]
      refine wp_mono (tryToShare_zero current p address s) ?_ (fun _ _ h => h)
      intro r t ht
      rw [wp_ite]
      constructor
      · intro _ h1
        exact absurd h1 (by decide)
      · intro h0
        rw [ht (by omega)]
        exact ih

/-- Where no page is shared, nothing has happened. -/
theorem sharePage_zero {current : Sharer} {nr count address : Nat} {task : Nat → Option Sharer}
    {t : Mem} (h : sharePage current nr count address task s = .ok 0 t) : t = s := by
  have hspec : wp (sharePage current nr count address task) (fun r t => r = 0 → t = s)
      (fun _ _ => True) s := by
    unfold sharePage
    rw [wp_ite]
    exact ⟨fun _ _ => rfl, fun _ => shareFrom_zero current nr address task s 63⟩
  exact wp_ok hspec h rfl

/-! ## The blocks of the page -/

/-- The blocks are those at the places of the file. -/
theorem bmaps_spec {disk : State} {n : Nat} (i block : Nat) (hb : block + i ≤ maxBlock) :
    bmaps disk n i block = some ((List.range i).map fun j => disk.at n (dataPos (block + j))) := by
  induction i generalizing block with
  | zero => rfl
  | succ i ih =>
    obtain ⟨t, z, hz⟩ :=
      Fs.FileData.bmapIo_total disk n (b := block) (by omega) false (fun _ => true)
    have hat := Fs.FileData.bmapIo_read ⟨rfl, rfl⟩ hz
    rw [bmaps, hz, ih (block + 1) (by omega), List.range_succ_eq_map]
    simp [hat, Nat.add_assoc, Nat.add_comm 1]

/-- A block that a file cannot have. -/
theorem bmaps_big {disk : State} {n : Nat} (i block : Nat) (hi : 0 < i)
    (hb : maxBlock < block + i) : bmaps disk n i block = none := by
  induction i generalizing block with
  | zero => omega
  | succ i ih =>
    rw [bmaps]
    split
    · rfl
    · next t z hz =>
      by_cases hlast : maxBlock ≤ block
      · unfold bmapIo at hz
        rw [if_pos (show 7 + 512 + 512 * 512 ≤ block from hlast)] at hz
        cases hz
      · rw [ih (block + 1) (by omega) (by omega)]
        rfl

theorem getByte_blockLong (disk : State) (z j : Nat) {i : Nat} (hi : i < 4) :
    getByte (blockLong disk z j) i = diskByte disk z (4 * j + i) :=
  getByte_bytes (fun i => diskByte disk z (4 * j + i)) hi

/-- Between `s` and `t` only bytes of frame `f` changed, to those of `page`. -/
structure Filled (f : Nat) (s t : Mem) (page : Nat → Byte) : Prop where
  mem   : t.memMap = s.memMap
  only  : OnlyFrame f s t
  bytes : ∀ k : Fin 4096, bytesOf (contents t f) k = page k

/-- `COPYBLK` of block `i` of a page. -/
theorem copyBlk_filled (disk : State) (z : Nat) {f i : Nat} (hi : i < 4) (s : Mem)
    (Q : Unit → Mem → Prop) (E : Stop → Mem → Prop)
    (hQ : ∀ t, Filled f s t (fun k => if k / 1024 = i then diskByte disk z (k % 1024)
      else bytesOf (contents s f) (Fin.ofNat 4096 k)) → Q () t) :
    wp (copyBlk disk z (f * 4096 + i * 1024)) Q E s := by
  unfold copyBlk
  rw [wp_modify]
  have hto : (f * 4096 + i * 1024) / 4 = f * 1024 + i * 256 := by omega
  rw [hto]
  apply hQ
  constructor
  case mem => rfl
  case only =>
    intro a ha
    exact if_neg (by omega)
  case bytes =>
    intro k
    have hk := k.isLt
    have hfin : Fin.ofNat 4096 k.val = k := Fin.ext (Nat.mod_eq_of_lt hk)
    unfold bytesOf contents
    dsimp only
    by_cases hblock : k.val / 1024 = i
    · have hin : f * 1024 + i * 256 ≤ f * 1024 + k.val / 4 ∧
          f * 1024 + k.val / 4 < f * 1024 + i * 256 + 256 := by omega
      have hlong : f * 1024 + k.val / 4 - (f * 1024 + i * 256) = k.val % 1024 / 4 := by omega
      have hbyte : 4 * (k.val % 1024 / 4) + k.val % 4 = k.val % 1024 := by omega
      have hlt : k.val % 4 < 4 := Nat.mod_lt _ (by decide)
      rw [if_pos hin, if_pos hblock, hlong, getByte_blockLong _ _ _ hlt, hbyte]
    · have hout : ¬ (f * 1024 + i * 256 ≤ f * 1024 + k.val / 4 ∧
          f * 1024 + k.val / 4 < f * 1024 + i * 256 + 256) := by omega
      rw [if_neg hout, if_neg hblock, hfin]

/-- **`bread_page`** from block `i` of the page on; holes are left alone. -/
theorem breadPage_spec (disk : State) {f : Nat} (bs : List Nat) (i : Nat) (hi : i + bs.length ≤ 4)
    (s : Mem) :
    wp (breadPage disk (f * 4096 + i * 1024) bs) (fun _ t => Filled f s t fun k =>
        if i ≤ k / 1024 ∧ bs.getD (k / 1024 - i) 0 ≠ 0
        then diskByte disk (bs.getD (k / 1024 - i) 0) (k % 1024)
        else bytesOf (contents s f) (Fin.ofNat 4096 k))
      (fun _ _ => False) s := by
  induction bs generalizing i s with
  | nil =>
    refine ⟨rfl, fun _ _ => rfl, fun k => ?_⟩
    simp
  | cons b bs ih =>
    have hlen : i + 1 + bs.length ≤ 4 := by
      rw [List.length_cons] at hi
      omega
    have hnext : f * 4096 + i * 1024 + 1024 = f * 4096 + (i + 1) * 1024 := by omega
    -- the blocks after this one are found at the same places of the shorter list
    have hstep : ∀ k, i + 1 ≤ k / 1024 →
        (b :: bs).getD (k / 1024 - i) 0 = bs.getD (k / 1024 - (i + 1)) 0 := by
      intro k hk
      have hsub : k / 1024 - i = k / 1024 - (i + 1) + 1 := by omega
      rw [hsub, List.getD_cons_succ]
    rw [breadPage, hnext, wp_ite]
    constructor
    · intro hb
      rw [wp_bind]
      apply copyBlk_filled disk b (by omega)
      intro t ht
      refine wp_mono (ih (i + 1) hlen t) ?_ (fun _ _ h => h)
      intro _ u hu
      refine ⟨hu.mem.trans ht.mem, fun a ha => (hu.only a ha).trans (ht.only a ha), fun k => ?_⟩
      have hfin : Fin.ofNat 4096 k.val = k := Fin.ext (Nat.mod_eq_of_lt k.isLt)
      rw [hu.bytes k, hfin, ht.bytes k, hfin]
      by_cases hlt : i + 1 ≤ k.val / 1024
      · rw [hstep _ hlt]
        by_cases hz : bs.getD (k.val / 1024 - (i + 1)) 0 = 0
        · rw [if_neg (by omega), if_neg (by omega), if_neg (by omega)]
        · rw [if_pos ⟨hlt, hz⟩, if_pos ⟨by omega, hz⟩]
      · rw [if_neg (by omega)]
        by_cases heq : k.val / 1024 = i
        · have hfirst : (b :: bs).getD (k.val / 1024 - i) 0 = b := by
            rw [heq, Nat.sub_self, List.getD_cons_zero]
          rw [if_pos heq, hfirst, if_pos ⟨by omega, hb⟩]
        · rw [if_neg heq, if_neg (by omega)]
    · intro hb
      refine wp_mono (ih (i + 1) hlen s) ?_ (fun _ _ h => h)
      intro _ u hu
      refine ⟨hu.mem, hu.only, fun k => ?_⟩
      rw [hu.bytes k]
      by_cases hlt : i + 1 ≤ k.val / 1024
      · rw [hstep _ hlt]
        by_cases hz : bs.getD (k.val / 1024 - (i + 1)) 0 = 0
        · rw [if_neg (by omega), if_neg (by omega)]
        · rw [if_pos ⟨hlt, hz⟩, if_pos ⟨by omega, hz⟩]
      · rw [if_neg (by omega)]
        by_cases heq : k.val / 1024 = i
        · have hfirst : (b :: bs).getD (k.val / 1024 - i) 0 = b := by
            rw [heq, Nat.sub_self, List.getD_cons_zero]
          rw [hfirst, if_neg (by omega)]
        · rw [if_neg (by omega)]

/-! ## The loop behind end_data -/

theorem byteStored_filled {f o : Nat} (ho : o < 4096) (b : Byte) (s : Mem) :
    Filled f s (byteStored s (f * 4096 + o) b)
      (fun k => if k = o then b else bytesOf (contents s f) (Fin.ofNat 4096 k)) := by
  constructor
  case mem => rfl
  case only =>
    intro a ha
    have haddr : (f * 4096 + o) / 4 = f * 1024 + o / 4 := by omega
    unfold byteStored
    dsimp only
    rw [haddr, Function.update_of_ne]
    omega
  case bytes =>
    intro k
    have hfin : Fin.ofNat 4096 k.val = k := Fin.ext (Nat.mod_eq_of_lt k.isLt)
    rw [bytesOf_store ho b rfl, hfin]
    by_cases hk : k.val = o
    · have hko : k = ⟨o, ho⟩ := Fin.ext hk
      rw [if_pos hk, hko, Function.update_self]
    · rw [if_neg hk, Function.update_of_ne (fun h => hk (congrArg Fin.val h))]

/-- `n` bytes below byte `m` of the page are cleared. -/
theorem clearTail_spec {f n m : Nat} (hn : n ≤ m) (hm : m ≤ 4096) (s : Mem) :
    wp (clearTail (f * 4096) n (f * 4096 + m)) (fun _ t => Filled f s t fun k =>
        if m ≤ k + n ∧ k < m then 0#8 else bytesOf (contents s f) (Fin.ofNat 4096 k))
      (fun _ _ => False) s := by
  induction n generalizing m s with
  | zero =>
    refine ⟨rfl, fun _ _ => rfl, fun k => ?_⟩
    rw [if_neg (by omega)]
    simp
  | succ n ih =>
    have hprev : f * 4096 + m - 1 = f * 4096 + (m - 1) := by omega
    have hst := byteStored_filled (f := f) (o := m - 1) (by omega) 0#8 s
    rw [clearTail, if_neg (by omega), wp_bind, wp_ofMm, hprev, wp_storeByte]
    refine wp_mono (ih (by omega) (by omega) _) ?_ (fun _ _ h => h)
    intro _ t ht
    refine ⟨ht.mem.trans hst.mem, fun a ha => (ht.only a ha).trans (hst.only a ha), fun k => ?_⟩
    have hfin : Fin.ofNat 4096 k.val = k := Fin.ext (Nat.mod_eq_of_lt k.isLt)
    rw [ht.bytes k, hfin, hst.bytes k, hfin]
    by_cases hin : m ≤ k.val + (n + 1) ∧ k.val < m
    · rw [if_pos hin]
      by_cases hlast : k.val = m - 1
      · rw [if_neg (by omega), if_pos hlast]
      · rw [if_pos (by omega)]
    · rw [if_neg hin, if_neg (by omega), if_neg (by omega)]

/-- A count beyond the page takes the loop out of it. -/
theorem clearTail_below {page n m : Nat} (hn : m < n) (s : Mem) :
    wp (clearTail page n (page + m)) (fun _ _ => False) (fun e _ => e = .below) s := by
  induction n generalizing m s with
  | zero => omega
  | succ n ih =>
    rw [clearTail]
    by_cases hm : m = 0
    · rw [if_pos (by omega), wp_throw]
    · have hprev : page + m - 1 = page + (m - 1) := by omega
      rw [if_neg (by omega), wp_bind, wp_ofMm, hprev, wp_storeByte]
      exact ih (by omega) _

/-- The difference, when it has not gone round. -/
theorem tailLen_eq {current : Sharer} {tmp : Nat} (htmp : tmp < current.endData)
    (hend : current.endData ≤ tmp + 4096 + 2 ^ 31) :
    (tailLen current tmp).toNat = tmp + 4096 - current.endData := by
  unfold tailLen
  rw [Int.bmod_eq_of_le (by omega) (by omega)]
  omega

/-- The difference, when it has: more than a page. -/
theorem tailLen_round {current : Sharer} {tmp : Nat} (hdata : current.endData < 2 ^ 32)
    (hend : tmp + 4096 + 2 ^ 31 < current.endData) : 4096 < (tailLen current tmp).toNat := by
  have hround : tailLen current tmp = tmp + 4096 - current.endData + 2 ^ 32 := by
    unfold tailLen
    rw [Int.bmod_def]
    split <;> omega
  omega

/-! ## put_page -/

theorem dirEntry_lt (address : Nat) : dirEntry address < 1024 := by
  rw [dirEntry_eq]
  omega

/-- The page of an address has the same entries. -/
theorem page_entries {address : Nat} (h : address < 2 ^ 32) :
    dirEntry (address &&& 0xfffff000) = dirEntry address ∧
      tableIndex (address &&& 0xfffff000) = tableIndex address := by
  rw [and_fffff000 h]
  simp only [dirEntry_eq, tableIndex_eq]
  omega

/-- The page table got for an entry, where there was none. -/
def NewTable (s t : Mem) : Prop :=
  ∃ u, 256 ≤ u ∧ s.memMap (u - 256) = 0 ∧ t.memMap = Function.update s.memMap (u - 256) 1

/-- **`put_page`** of a page in use: it is mapped, and its contents stay. -/
theorem putPage_maps {f address : Nat} (hf : 256 ≤ f) (hf' : f < 4096)
    (hused : s.memMap (f - 256) ≠ 0)
    (htable : present (s.phys (dirEntry address)) = true →
      frameOf (s.phys (dirEntry address)) ≠ 0 ∧ frameOf (s.phys (dirEntry address)) ≠ f)
    (hfree : present (s.phys (dirEntry address)) = true ∨ ∃ j < pagingPages, s.memMap j = 0) :
    wp (putPage (f * 4096) address) (fun r t => r = f * 4096 ∧
        pteAt t address = some (entry7 (f * 4096)) ∧ contents t f = contents s f ∧
        if present (s.phys (dirEntry address)) then t.memMap = s.memMap else NewTable s t)
      (fun _ _ => False) s := by
  have hd := dirEntry_lt address
  have hj := tableIndex_lt address
  unfold putPage
  rw [wp_bind, wp_load, wp_ite]
  constructor
  · intro hp
    obtain ⟨h0, hne⟩ := htable hp
    have haddr := pageAddr_div (s.phys (dirEntry address))
    rw [wp_bind, wp_store, wp_pure, haddr]
    refine ⟨rfl, ?_, ?_, ?_⟩
    · unfold pteAt
      dsimp only
      rw [Function.update_of_ne (by omega), if_pos hp, haddr, Function.update_self]
    · funext k
      have hk := k.isLt
      unfold contents
      dsimp only
      rw [Function.update_of_ne (by omega)]
    · rw [if_pos hp]
  · intro hp
    rw [wp_bind]
    rcases getFreePage_eq (s := s) with ⟨-, hnone⟩ | ⟨u, hu, hu', hu0, hgot⟩
    · obtain hp' | ⟨j, hj, hj0⟩ := hfree
      · exact absurd hp' hp
      · exact absurd hj0 (hnone j hj)
    · have huf : u ≠ f := by
        rintro rfl
        exact hused hu0
      have hpres : present (entry7 (u * 4096)) = true := present_entry7 (by omega)
      have haddr : pageAddr (entry7 (u * 4096)) / 4 = u * 1024 := by
        rw [pageAddr_eq, frameOf_entry7 (by omega)]
        omega
      have hdiv : u * 4096 / 4 = u * 1024 := by omega
      rw [wp_of_ok hgot, if_neg (by omega), wp_bind, wp_store, wp_bind, wp_store, wp_pure, hdiv]
      refine ⟨rfl, ?_, ?_, ?_⟩
      · unfold pteAt
        dsimp only
        rw [Function.update_of_ne (by omega), Function.update_self, if_pos hpres, haddr,
          Function.update_self]
      · funext k
        have hk := k.isLt
        unfold contents
        dsimp only
        rw [Function.update_of_ne (by omega), Function.update_of_ne (by omega),
          onlyFrame_taken u _ (by omega)]
      · rw [if_neg hp]
        exact ⟨u, hu, hu0, rfl⟩

/-! ## The page -/

/-- A task in a slot: `copy_mem` sets `start_code`. -/
structure Starts (current : Sharer) (nr : Nat) : Prop where
  slot  : nr < 64
  start : current.startCode = nr * 0x4000000
  data  : current.endData < 2 ^ 32

/-- What `do_no_page` needs: the task, and a missing page of its program for
which `share_page` has found nothing. -/
structure Faults (current : Sharer) (nr count n : Nat) (task : Nat → Option Sharer) (address : Nat)
    (s : Mem) : Prop extends Starts current nr where
  exe    : current.executable = some n
  linear : address < 2 ^ 32
  inside : offset current address < current.endData
  alone  : ∃ t, sharePage current nr count (offset current address) task s = .ok 0 t

variable {current : Sharer} {nr count n address : Nat} {task : Nat → Option Sharer} {disk : State}

theorem Faults.aligned (h : Faults current nr count n task address s) :
    offset current address % 4096 = 0 := by
  have hslot := h.slot
  unfold offset
  rw [and_fffff000 h.linear, h.start]
  omega

/-- Nothing was shared, and nothing has happened so far. -/
theorem Faults.wp_doNoPage (h : Faults current nr count n task address s)
    (Q : Outcome → Mem → Prop) (E : Stuck → Mem → Prop) :
    wp (doNoPage current nr count task disk address) Q E s ↔
      wp (loadPage current disk n (offset current address) (address &&& 0xfffff000)) Q E s := by
  obtain ⟨t, ht⟩ := h.alone
  have hsame := sharePage_zero ht
  subst hsame
  unfold doNoPage
  dsimp only
  rw [h.exe]
  dsimp only
  rw [if_neg (Nat.not_le_of_lt h.inside), wp_bind, wp_ofMm, wp_of_ok ht, if_neg (by decide)]

/-- The four blocks of a page. -/
def pageBlocks (disk : State) (n tmp : Nat) : List Nat :=
  (List.range 4).map fun j => disk.at n (dataPos (1 + tmp / 1024 + j))

/-- Their bytes are those of the file behind the header block. -/
theorem file_bytes {tmp : Nat} (ht : tmp % 4096 = 0) {k : Nat} (hk : k < 4096) :
    (if (pageBlocks disk n tmp).getD (k / 1024) 0 ≠ 0
      then diskByte disk ((pageBlocks disk n tmp).getD (k / 1024) 0) (k % 1024)
      else 0#8) = fileByte disk n (1024 + tmp + k) := by
  have hget : (pageBlocks disk n tmp).getD (k / 1024) 0 =
      disk.at n (dataPos (1 + tmp / 1024 + k / 1024)) := by
    have hlt : k / 1024 < 4 := by omega
    unfold pageBlocks
    simp [hlt]
  have hblock : (1024 + tmp + k) / Fs.FileData.blockSize = 1 + tmp / 1024 + k / 1024 := by
    unfold Fs.FileData.blockSize
    omega
  have hbyte : (1024 + tmp + k) % Fs.FileData.blockSize = k % 1024 := by
    unfold Fs.FileData.blockSize
    omega
  unfold fileByte content
  rw [hget, hblock, hbyte]
  by_cases hz : disk.at n (dataPos (1 + tmp / 1024 + k / 1024)) = 0
  · rw [if_neg (not_not_intro hz), if_pos hz]
    rfl
  · rw [if_pos hz, if_neg hz]
    rfl

theorem taken_bytes (s : Mem) (f : Nat) (k : Fin 4096) :
    bytesOf (contents (taken s f) f) k = 0#8 := by
  have hk := k.isLt
  have hword : (taken s f).phys (f * 1024 + k.val / 4) = 0#32 := if_pos (by omega)
  unfold bytesOf contents
  dsimp only
  rw [hword]
  unfold getByte
  simp

theorem entry7_user (a : Nat) : entry7 a &&& 7#32 = 7#32 := by
  unfold entry7
  apply BitVec.eq_of_getLsbD_eq
  intro i _
  rw [BitVec.getLsbD_and, BitVec.getLsbD_or]
  cases (7#32 : Word).getLsbD i <;> simp

/-- `put_page` of frame `f`, in which alone something was stored since it was got. -/
theorem putPage_loaded {f : Nat} {t : Mem} (haddr : address < 2 ^ 32) (htable : TableKept s address)
    (hfree : EnoughFree s address) (hf : 256 ≤ f) (hf' : f < 4096) (hf0 : s.memMap (f - 256) = 0)
    (hmem : t.memMap = Function.update s.memMap (f - 256) 1) (honly : OnlyFrame f s t) :
    wp (putPage (f * 4096) (address &&& 0xfffff000)) (fun r u => r = f * 4096 ∧
        pteAt u address = some (entry7 (f * 4096)) ∧ contents u f = contents t f ∧
        if present (s.phys (dirEntry address)) then u.memMap = t.memMap else NewTable t u)
      (fun _ _ => False) t := by
  obtain ⟨hdir, hindex⟩ := page_entries haddr
  have hsame : t.phys (dirEntry address) = s.phys (dirEntry address) :=
    honly _ (by have := dirEntry_lt address; omega)
  refine wp_mono (putPage_maps hf hf' (by rw [hmem, Function.update_self]; decide) ?_ ?_) ?_
    (fun _ _ h => h)
  · rw [hdir, hsame]
    intro hp
    obtain ⟨h0, hused⟩ := htable hp
    refine ⟨h0, fun heq => ?_⟩
    rw [heq] at hused
    exact hused hf hf0
  · obtain ⟨i, hi, hi0, hmore⟩ := hfree
    rw [hdir, hsame, hmem]
    refine hmore.imp_right ?_
    intro ⟨j, hj, hji, hj0⟩
    -- one of the two free pages is left
    by_cases hjf : j = f - 256
    · exact ⟨i, hi, by rw [Function.update_of_ne (by omega)]; exact hi0⟩
    · exact ⟨j, hj, by rw [Function.update_of_ne hjf]; exact hj0⟩
  · intro r u hu
    unfold pteAt at hu ⊢
    rw [hdir, hindex, hsame] at hu
    exact hu

/-- What was mapped is the page of the file. -/
theorem loaded_of {f : Nat} {t u : Mem} (hf : 256 ≤ f) (hf' : f < 4096)
    (hf0 : s.memMap (f - 256) = 0)
    (hpage : Filled f (taken s f) t fun k =>
      if current.endData ≤ offset current address + k then 0#8
      else fileByte disk n (1024 + offset current address + k))
    (hentry : pteAt u address = some (entry7 (f * 4096))) (hcont : contents u f = contents t f)
    (hframes : if present (s.phys (dirEntry address)) then u.memMap = t.memMap else NewTable t u) :
    Loaded current disk n address s u f := by
  have hmem : t.memMap = Function.update s.memMap (f - 256) 1 := hpage.mem
  constructor
  case free => exact ⟨hf, hf0⟩
  case entry => exact ⟨_, hentry, entry7_user _, frameOf_entry7 (by omega)⟩
  case bytes =>
    intro k
    rw [hcont, hpage.bytes k]
    by_cases hbehind : current.endData ≤ offset current address + k.val
    · rw [if_pos hbehind, if_neg (by omega)]
    · rw [if_neg hbehind, if_pos (by omega)]
  case frames =>
    rw [hmem] at hframes
    split
    · next hp =>
      rw [if_pos hp] at hframes
      exact hframes
    · next hp =>
      rw [if_neg hp] at hframes
      obtain ⟨v, hv, hv0, hmap⟩ := hframes
      rw [hmem] at hv0 hmap
      have hvf : v ≠ f := by
        rintro rfl
        rw [Function.update_self] at hv0
        exact absurd hv0 (by decide)
      rw [Function.update_of_ne (by omega)] at hv0
      exact ⟨v, hv, hvf, hv0, hmap⟩

/-- The page is put together and mapped. -/
theorem loads_right (h : Faults current nr count n task address s) (htable : TableKept s address)
    (hfree : EnoughFree s address)
    (hend : current.endData ≤ offset current address + 4096 + 2 ^ 31)
    (hfile : offset current address / 1024 + 4 < maxBlock) :
    LoadsRight current nr count task disk n address s := by
  have hin := h.inside
  have halign := h.aligned
  have hlen := tailLen_eq hin hend
  unfold LoadsRight
  rw [h.wp_doNoPage]
  unfold loadPage
  rw [wp_bind, wp_ofMm]
  rcases getFreePage_eq (s := s) with ⟨-, hnone⟩ | ⟨f, hf, hf', hf0, hgot⟩
  · obtain ⟨i, hi, hi0, -⟩ := hfree
    exact absurd hi0 (hnone i hi)
  rw [wp_of_ok hgot, if_neg (by omega), bmaps_spec 4 _ (by omega)]
  dsimp only
  rw [wp_bind, wp_ofMm]
  -- the four blocks
  have hread := breadPage_spec disk (f := f) (pageBlocks disk n (offset current address)) 0
    (by simp [pageBlocks]) (taken s f)
  rw [Nat.zero_mul, Nat.add_zero] at hread
  refine wp_mono hread ?_ (fun _ _ h => h.elim)
  intro _ s2 h2
  -- the end of the page
  rw [wp_bind]
  refine wp_mono (clearTail_spec (f := f) (m := 4096) (by omega) (Nat.le_refl _) s2) ?_
    (fun _ _ h => h.elim)
  intro _ s3 h3
  have hpage : Filled f (taken s f) s3 fun k =>
      if current.endData ≤ offset current address + k then 0#8
      else fileByte disk n (1024 + offset current address + k) := by
    refine ⟨h3.mem.trans h2.mem, fun a ha => (h3.only a ha).trans (h2.only a ha), fun k => ?_⟩
    have hk := k.isLt
    have hfin : Fin.ofNat 4096 k.val = k := Fin.ext (Nat.mod_eq_of_lt hk)
    rw [h3.bytes k, hfin, h2.bytes k, hfin, taken_bytes]
    by_cases hbehind : current.endData ≤ offset current address + k.val
    · rw [if_pos (by omega), if_pos hbehind]
    · rw [if_neg (by omega), if_neg hbehind, ← file_bytes halign hk]
      simp only [Nat.zero_le, true_and, Nat.sub_zero]
  -- the entry
  rw [wp_bind, wp_ofMm]
  have honly : OnlyFrame f s s3 := fun a ha => (hpage.only a ha).trans (onlyFrame_taken f a ha)
  refine wp_mono (putPage_loaded h.linear htable hfree hf hf' hf0 hpage.mem honly) ?_
    (fun _ _ h => h.elim)
  intro r u ⟨hr, hentry, hcont, hframes⟩
  rw [if_pos (by omega), wp_pure]
  exact ⟨rfl, f, loaded_of hf hf' hf0 hpage hentry hcont hframes⟩

/-- When the count has gone round, or a block is too big, no page is loaded. -/
theorem loadPage_fails {tmp : Nat} (hdata : current.endData < 2 ^ 32)
    (hbad : tmp + 4096 + 2 ^ 31 < current.endData ∨ maxBlock ≤ tmp / 1024 + 4) (s : Mem) :
    wp (loadPage current disk n tmp address) (fun r _ => r ≠ .loaded) (fun _ _ => True) s := by
  unfold loadPage
  rw [wp_bind, wp_ofMm]
  refine wp_mono (wp_any getFreePage s) ?_ (fun _ _ h => h)
  intro page s1 _
  rw [wp_ite]
  constructor
  · intro _
    rw [wp_bind, wp_ofMm]
    refine wp_mono (wp_any _ s1) ?_ (fun _ _ h => h)
    intro _ _ _
    rw [wp_pure]
    decide
  · intro _
    split
    · exact trivial
    · next zs hzs =>
      rcases hbad with hend | hbig
      · rw [wp_bind, wp_ofMm]
        refine wp_mono (wp_any _ s1) ?_ (fun _ _ h => h)
        intro _ s2 _
        rw [wp_bind]
        exact wp_mono (clearTail_below (tailLen_round hdata hend) s2) (fun _ _ h => h.elim)
          (fun _ _ _ => trivial)
      · rw [bmaps_big 4 _ (by decide) (by omega)] at hzs
        cases hzs

theorem not_loads_right (h : Faults current nr count n task address s)
    (hbad : offset current address + 4096 + 2 ^ 31 < current.endData ∨
      maxBlock ≤ offset current address / 1024 + 4) :
    ¬ LoadsRight current nr count task disk n address s := by
  unfold LoadsRight
  rw [h.wp_doNoPage]
  intro hright
  obtain ⟨r, t, hr, hne⟩ := wp_returns (wp_and hright (loadPage_fails h.data hbad s))
    (fun _ _ h => h.1)
  exact hne hr.1

/-- **The right page is loaded** exactly when the count of the bytes to clear has not
become positive again beyond `2 ^ 31`, and the file can have the blocks: a program then
finds its file in memory, and zeros behind it. -/
theorem loads_right_iff (disk : State) (h : Faults current nr count n task address s)
    (htable : TableKept s address) (hfree : EnoughFree s address) :
    LoadsRight current nr count task disk n address s ↔
      current.endData ≤ offset current address + 4096 + 2 ^ 31 ∧
        offset current address / 1024 + 4 < maxBlock := by
  constructor
  · intro hright
    by_contra hbad
    exact not_loads_right h (by omega) hright
  · intro ⟨hend, hfile⟩
    exact loads_right h htable hfree hend hfile

/-- An accepted header whose sums have not gone round always meets the condition. -/
theorem noWrap_reach {ex : Fs.ExecHeader.Exec} {iSize : Word} {tmp : Nat}
    (hacc : ex.accepts iSize = true) (hw : Fs.ExecHeader.NoWrap ex) (ht : tmp < ex.endData.toNat) :
    ex.endData.toNat ≤ tmp + 4096 + 2 ^ 31 ∧ tmp / 1024 + 4 < maxBlock := by
  obtain ⟨-, -, -, hsmall, -⟩ := Fs.ExecHeader.accepts_iff.mp hacc
  rw [Nat.mod_eq_of_lt hw.image] at hsmall
  have hend : ex.endData.toNat = ex.aText.toNat + ex.aData.toNat := by
    unfold Fs.ExecHeader.Exec.endData Fs.ExecHeader.Exec.endCode
    rw [BitVec.toNat_add, Nat.mod_eq_of_lt (by omega)]
    omega
  unfold maxBlock
  omega

/-! ## Examples -/

theorem enoughFree_boot (address : Nat) : EnoughFree bootMem address :=
  ⟨768, by decide, by decide, Or.inr ⟨769, by decide, by decide, by decide⟩⟩

theorem tableKept_boot : TableKept bootMem 0x4000000 := by
  intro hp
  exact absurd hp (by decide +kernel)

/-- A disk on which the blocks of inode 7 follow each other; each is full of ones. -/
def plainDisk : State where
  firstdatazone := 5
  nzones := 100
  bits := 100
  zmap := ∅
  inode := fun _ => ⟨0o100000, fun k => if k < 7 then k + 10 else 0⟩
  block := fun _ _ => 0x101

theorem faults_boot {current : Sharer} (hstart : current.startCode = 0x4000000)
    (hdata : current.endData < 2 ^ 32) (hpos : 0 < current.endData)
    (hexe : current.executable = some 7) :
    Faults current 1 1 7 (fun _ => none) 0x4000000 bootMem := by
  have hoff : offset current 0x4000000 = 0 := by
    unfold offset
    rw [hstart]
    decide
  refine ⟨⟨by decide, hstart, hdata⟩, hexe, by decide, by rw [hoff]; exact hpos, bootMem, ?_⟩
  unfold sharePage
  rw [if_pos (Or.inr (by decide))]
  rfl

theorem loads_right_first :
    LoadsRight (sharer 1) 1 1 (fun _ => none) plainDisk 7 0x4000000 bootMem ↔
      (sharer 1).endData ≤ offset (sharer 1) 0x4000000 + 4096 + 2 ^ 31 ∧
        offset (sharer 1) 0x4000000 / 1024 + 4 < maxBlock :=
  loads_right_iff plainDisk (faults_boot rfl (by decide) (by decide) rfl) tableKept_boot
    (enoughFree_boot _)

/-- A header that is accepted with 2.25 GB of data: both sums have gone round. -/
def roundExec : Fs.ExecHeader.Exec :=
  ⟨Fs.ExecHeader.zmagic, 0x1000, 0x8ffff000, 0x70000000, 0x70000000, 0, 0, 0⟩

/-- The task that runs it. -/
def roundTask : Sharer := { sharer 1 with endData := roundExec.endData.toNat }

/-- Its first page is never loaded. -/
theorem loads_wrong : roundExec.accepts 1024 = true ∧
    roundTask.endData = roundExec.endData.toNat ∧ offset roundTask 0x4000000 < roundTask.endData ∧
    ¬ LoadsRight roundTask 1 1 (fun _ => none) plainDisk 7 0x4000000 bootMem :=
  ⟨by decide, rfl, by decide,
    not_loads_right (faults_boot rfl (by decide) (by decide) rfl) (Or.inl (by decide))⟩

end Linux011.Mm.DemandLoad
